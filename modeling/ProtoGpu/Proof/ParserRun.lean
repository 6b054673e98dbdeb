import ProtoGpu.Frontend.Parser
import ProtoGpu.Lib.Throwing

/-!
# Runs of the parser

The loops of the parser are folds that a thrown exception ends. What one line keeps, a whole body
and a whole text keep: a body adds instructions and register counts to its kernel and leaves the
rest.
-/

namespace ProtoGpu

open Throwing

/-! ### What a body leaves of its kernel -/

/-- The kernels differ in their register counts only. -/
structure OnlyCounts (cur cur' : KernelTokens) : Prop where
  name : cur'.name = cur.name
  params : cur'.params = cur.params
  insts : cur'.insts = cur.insts

theorem OnlyCounts.refl (cur : KernelTokens) : OnlyCounts cur cur := ⟨rfl, rfl, rfl⟩

theorem OnlyCounts.trans {a b c : KernelTokens} (hab : OnlyCounts a b) (hbc : OnlyCounts b c) :
    OnlyCounts a c :=
  ⟨hbc.name.trans hab.name, hbc.params.trans hab.params, hbc.insts.trans hab.insts⟩

theorem declareRange_onlyCounts (cur : KernelTokens) (decl : Text) (count : Nat) :
    OnlyCounts cur (declareRange cur decl count) := by
  unfold declareRange
  split
  · exact ⟨rfl, rfl, rfl⟩
  · split <;> exact ⟨rfl, rfl, rfl⟩

theorem scanReg_onlyCounts {scan scan' : BodyScan} {s : Text} (hscan : scanReg scan s = .ok scan') :
    OnlyCounts scan.cur scan'.cur := by
  unfold scanReg at hscan
  split at hscan
  · dsimp only at hscan
    split at hscan
    · split at hscan
      · obtain ⟨count, -, hok⟩ := bind_ok.mp hscan
        cases hok
        exact declareRange_onlyCounts ..
      · cases hscan
        split <;> exact .refl _
    · cases hscan
      split <;> exact .refl _
  · cases hscan
    exact .refl _

theorem scanLine_onlyCounts {scan scan' : BodyScan} {line : Nat × Text}
    (hscan : scanLine scan line = .ok scan') : OnlyCounts scan.cur scan'.cur := by
  unfold scanLine at hscan
  dsimp only at hscan
  split at hscan
  · cases hscan
    exact .refl _
  · split at hscan
    · exact scanReg_onlyCounts hscan
    · split at hscan
      · cases hscan
        exact .refl _
      · split at hscan
        · cases hscan
          split <;> exact .refl _
        · cases hscan
          exact .refl _

theorem scanLines_onlyCounts {cur : KernelTokens} {scan : BodyScan} {lines : List (Nat × Text)}
    (hscan : lines.foldlM scanLine { cur := cur } = .ok scan) : OnlyCounts cur scan.cur :=
  foldlM_invariant (P := fun scan => OnlyCounts cur scan.cur)
    (fun _ _ _ hs hline => hs.trans (scanLine_onlyCounts hline)) (.refl _) hscan

theorem assignAlias_onlyCounts (a : Aliases) (nr : PendingNamedReg) :
    OnlyCounts a.cur (assignAlias a nr).cur := by
  unfold assignAlias
  split
  · exact .refl _
  · split
    · exact ⟨rfl, rfl, rfl⟩
    · split
      · exact ⟨rfl, rfl, rfl⟩
      · exact .refl _

theorem assignAliases_onlyCounts (pending : List PendingNamedReg) (a : Aliases) :
    OnlyCounts a.cur (pending.foldl assignAlias a).cur := by
  induction pending generalizing a with
  | nil => exact .refl _
  | cons nr pending ih => exact (assignAlias_onlyCounts a nr).trans (ih _)

section Close
variable {order : AliasOrder} {fileName : String} {cur k : KernelTokens}
  {bodyLines : List (Nat × Text)}

theorem closeKernel_signature (hclose : closeKernel order fileName cur bodyLines = .ok k) :
    k.name = cur.name ∧ k.params = cur.params := by
  obtain ⟨scan, hscan, hrest⟩ := bind_ok.mp hclose
  obtain ⟨insts, -, hk⟩ := bind_ok.mp hrest
  cases hk
  have haliases := assignAliases_onlyCounts scan.pendingNamed { cur := scan.cur }
  have hcounts := (scanLines_onlyCounts hscan).trans haliases
  exact ⟨hcounts.name, hcounts.params⟩

theorem closeKernel_name (hclose : closeKernel order fileName cur bodyLines = .ok k) :
    k.name = cur.name := (closeKernel_signature hclose).1

end Close

/-! ### The loop over the lines -/

/-- What one line of the text does. -/
inductive LineMove (order : AliasOrder) (fileName : String) (st : ParseState) (t : Text) :
    ParseState → Prop where
  | skip (hskip : t = [] ∨ (isHeader t = false ∧ st.inEntry = false)) :
      LineMove order fileName st t { st with lineNo := st.lineNo + 1 }
  | header (hheader : isHeader t = true) :
      LineMove order fileName st t (openKernel { st with lineNo := st.lineNo + 1 } t)
  | close (k : KernelTokens) (ht : t = ['\x7d']) (hin : st.inEntry = true)
      (hclose : closeKernel order fileName st.cur st.bodyLines = .ok k) :
      LineMove order fileName st t
        { st with
          lineNo := st.lineNo + 1, kernels := st.kernels ++ [k], inEntry := false
          inBody := false }
  | body (hne : t ≠ []) (hheader : isHeader t = false) (ht : t ≠ ['\x7d'])
      (hin : st.inEntry = true) (hbody : st.inBody = true) :
      LineMove order fileName st t
        { st with lineNo := st.lineNo + 1, bodyLines := st.bodyLines ++ [(st.lineNo + 1, t)] }
  | signature (hne : t ≠ []) (hheader : isHeader t = false) (ht : t ≠ ['\x7d'])
      (hin : st.inEntry = true) (hbody : st.inBody = false) :
      LineMove order fileName st t (signatureLine { st with lineNo := st.lineNo + 1 } t)

theorem parseLine_moves {order : AliasOrder} {fileName : String} {st st' : ParseState}
    {line : Text} (hline : parseLine order fileName st line = .ok st') :
    LineMove order fileName st line.trim st' := by
  unfold parseLine at hline
  dsimp only at hline
  split at hline
  · next hnil =>
    cases hline
    exact .skip (.inl (List.isEmpty_iff.mp hnil))
  · next hne =>
    rw [List.isEmpty_iff] at hne
    split at hline
    · next hheader =>
      cases hline
      exact .header hheader
    · next hheader =>
      rw [Bool.not_eq_true] at hheader
      split at hline
      · next hin =>
        cases hline
        exact .skip (.inr ⟨hheader, by simpa using hin⟩)
      · next hin =>
        have hin : st.inEntry = true := by simpa using hin
        split at hline
        · next ht =>
          obtain ⟨k, hclose, hk⟩ := bind_ok.mp hline
          cases hk
          exact .close k (by simpa using ht) hin hclose
        · next ht =>
          have ht : line.trim ≠ ['\x7d'] := by simpa using ht
          split at hline
          · next hbody =>
            cases hline
            exact .body hne hheader ht hin hbody
          · next hbody =>
            cases hline
            exact .signature hne hheader ht hin (by simpa using hbody)

theorem signatureLine_insts (st : ParseState) (t : Text) :
    (signatureLine st t).cur.insts = st.cur.insts := by
  unfold signatureLine
  dsimp only
  split <;> rfl

/-- A kernel of a module is a header's kernel closed over a body. -/
theorem kernels_closed {order : AliasOrder} {fileName : String} {text : Text} {m : ModuleTokens}
    (hparse : parsePtxTextTokens order text fileName = .ok m) :
    ∀ k ∈ m.kernels, ∃ cur lines, cur.insts = [] ∧ closeKernel order fileName cur lines
      = .ok k := by
  obtain ⟨st, hrun, hm⟩ := bind_ok.mp hparse
  cases hm
  have hinv := foldlM_invariant
    (P := fun st => st.cur.insts = [] ∧ ∀ k ∈ st.kernels, ∃ cur lines,
      cur.insts = [] ∧ closeKernel order fileName cur lines = .ok k)
    (fun st line st' hinv hline => ?_) ⟨rfl, by simp⟩ hrun
  · exact hinv.2
  · obtain ⟨hopen, hkernels⟩ := hinv
    cases parseLine_moves hline with
    | skip _ => exact ⟨hopen, hkernels⟩
    | header _ => exact ⟨rfl, hkernels⟩
    | close k _ _ hclose =>
      refine ⟨hopen, ?_⟩
      intro k' hk'
      rcases List.mem_append.mp hk' with hk' | hk'
      · exact hkernels k' hk'
      · obtain rfl := List.mem_singleton.mp hk'
        exact ⟨st.cur, st.bodyLines, hopen, hclose⟩
    | body _ _ _ _ _ => exact ⟨hopen, hkernels⟩
    | signature _ _ _ _ _ =>
      refine ⟨?_, hkernels⟩
      rw [signatureLine_insts]
      exact hopen

end ProtoGpu

import ProtoGpu.Proof.BodyPasses
import ProtoGpu.Proof.TextSearch

/-!
# Branch targets

A label is given the number of lines before it that look like instructions, and an instruction
stands behind those that gave one. The two numbers agree when each line that looks like an
instruction gives one, so a lone guard or semicolon moves every label behind it.
-/

namespace ProtoGpu

open Throwing

variable {order : AliasOrder} {fileName : String} {cur k : KernelTokens}
  {lines : List (Nat × Text)}

/-! ### Counting -/

theorem countP_yields_le (fileName : String) (lines : List (Nat × Text)) :
    lines.countP (yields fileName) ≤ lines.countP isInstLine :=
  List.countP_mono_left fun _ _ => isInstLine_of_yields

theorem countP_yields_eq_iff :
    lines.countP isInstLine = lines.countP (yields fileName) ↔
      ∀ l ∈ lines, isInstLine l = true → yields fileName l = true := by
  induction lines with
  | nil => simp
  | cons line lines ih =>
    have hle := countP_yields_le fileName lines
    rw [List.forall_mem_cons, ← ih, List.countP_cons, List.countP_cons]
    cases hyields : yields fileName line with
    | true => simp [isInstLine_of_yields hyields]
    | false =>
      cases hinst : isInstLine line with
      | true => simp; omega
      | false => simp

/-! ### Renaming leaves a trace -/

/-- What the renaming of the named registers of the body makes of an operand. -/
def renameTok (order : AliasOrder) (cur : KernelTokens) (lines : List (Nat × Text)) (tok : Text) :
    Text :=
  match bodyAliases cur lines with
  | .ok aliases => rewriteNamedRegs (order.visit aliases.regAlias) tok
  | .error _ => tok

theorem replaceFrom_eq_or_mem {dst : Text} {c : Char} (hc : c ∈ dst) (src s : Text) :
    Text.replaceFrom src dst 0 s = s ∨ c ∈ Text.replaceFrom src dst 0 s := by
  induction s with
  | nil => exact .inl rfl
  | cons ch s ih =>
    rw [Text.replaceFrom]
    split
    · exact .inr (List.mem_append_left _ hc)
    · rcases ih with heq | hmem
      · exact .inl (by rw [heq])
      · exact .inr (List.mem_cons_of_mem _ hmem)

theorem rewriteNamedRegs_eq_or_mem {regAlias : List (Text × Text)} {c : Char}
    (hc : ∀ kv ∈ regAlias, c ∈ kv.2) (tok : Text) :
    rewriteNamedRegs regAlias tok = tok ∨ c ∈ rewriteNamedRegs regAlias tok := by
  induction regAlias using List.reverseRecOn with
  | nil => exact .inl rfl
  | append_singleton regAlias kv ih =>
    have hrest := ih fun kv' hkv' => hc kv' (List.mem_append_left _ hkv')
    have hlast : c ∈ kv.2 := hc kv (List.mem_append_right _ (List.mem_singleton_self kv))
    rw [rewriteNamedRegs, List.foldl_append]
    change Text.replace (rewriteNamedRegs regAlias tok) kv.1 kv.2 = tok ∨
      c ∈ Text.replace (rewriteNamedRegs regAlias tok) kv.1 kv.2
    rcases replaceFrom_eq_or_mem hlast kv.1 (rewriteNamedRegs regAlias tok) with heq | hmem
    · rw [Text.replace, heq]
      exact hrest
    · exact .inr hmem

theorem percent_mem_assignAlias {a : Aliases} (ha : ∀ kv ∈ a.regAlias, '%' ∈ kv.2)
    (nr : PendingNamedReg) : ∀ kv ∈ (assignAlias a nr).regAlias, '%' ∈ kv.2 := by
  have hnew : ∀ (kv : Text × Text), '%' ∈ kv.2 → ∀ kv' ∈ a.regAlias ++ [kv], '%' ∈ kv'.2 := by
    intro kv hkv kv' hmem
    rcases List.mem_append.mp hmem with hmem | hmem
    · exact ha kv' hmem
    · rwa [List.mem_singleton.mp hmem]
  unfold assignAlias
  split
  · exact ha
  · split
    · exact hnew _ (by simp)
    · split
      · exact hnew _ (by simp)
      · exact ha

theorem percent_mem_aliases (pending : List PendingNamedReg) {a : Aliases}
    (ha : ∀ kv ∈ a.regAlias, '%' ∈ kv.2) :
    ∀ kv ∈ (pending.foldl assignAlias a).regAlias, '%' ∈ kv.2 := by
  induction pending generalizing a with
  | nil => exact ha
  | cons nr pending ih => exact ih (percent_mem_assignAlias ha nr)

/-! ### The targets -/

/-- A branch of the body and the only line that defines its label. -/
structure LabelledBranch (fileName : String) (lines : List (Nat × Text)) where
  pre : List (Nat × Text)
  branchLine : Nat × Text
  post : List (Nat × Text)
  branchAt : lines = pre ++ branchLine :: post
  inst : TokenizedPtxInst
  tok : Text
  branch : bodyInst fileName branchLine = .ok (some inst)
  opcode : inst.ptxOpcode = "bra".toList
  operands : inst.operandTokens = [tok]
  before : List (Nat × Text)
  labelLine : Nat × Text
  after : List (Nat × Text)
  labelAt : lines = before ++ labelLine :: after
  label : labelName labelLine = some (Text.trim tok)
  only : ∀ l ∈ before ++ after, labelName l ≠ some (Text.trim tok)

namespace LabelledBranch

variable (b : LabelledBranch fileName lines)

/-- The index of the first instruction behind the label. -/
def target : Nat := b.before.countP (yields fileName)

/-- The branch goes where it should: its operand is the index of the first instruction behind its
label. -/
def Resolved (k : KernelTokens) : Prop :=
  ∃ inst, k.insts[b.pre.countP (yields fileName)]? = some inst ∧
    inst.operandTokens = [Text.ofNat b.target]

/-- Nothing disturbs the branch. The renaming leaves its operand alone and every line that looks
like an instruction before the label gives one; or it turns the operand into another label, before
which as many lines look like instructions. -/
def Undisturbed (order : AliasOrder) (cur : KernelTokens) : Prop :=
  let name := Text.trim (renameTok order cur lines b.tok)
  (name = Text.trim b.tok ∧
    ∀ l ∈ b.before, isInstLine l = true → yields fileName l = true) ∨
  (name ≠ Text.trim b.tok ∧
    ∃ before line after, lines = before ++ line :: after ∧ labelName line = some name ∧
      (∀ l ∈ after, labelName l ≠ some name) ∧ before.countP isInstLine = b.target)

theorem lookup_own : (labelPcs 0 lines).reverse.lookup (Text.trim b.tok)
    = some (b.before.countP isInstLine) := by
  rw [lookup_labelPcs_iff]
  exact ⟨b.before, b.labelLine, b.after, b.labelAt, b.label,
    fun l hl => b.only l (List.mem_append_right _ hl), rfl⟩

theorem undisturbed_iff : b.Undisturbed order cur ↔
    (labelPcs 0 lines).reverse.lookup (Text.trim (renameTok order cur lines b.tok))
      = some b.target := by
  unfold Undisturbed
  dsimp only
  by_cases hname : Text.trim (renameTok order cur lines b.tok) = Text.trim b.tok
  · rw [hname, b.lookup_own, Option.some.injEq, target, countP_yields_eq_iff]
    simp
  · rw [lookup_labelPcs_iff]
    simp [hname]

end LabelledBranch

theorem finishInst_branch (order : AliasOrder) (labelToPc : List (Text × Nat))
    (regAlias : List (Text × Text)) {inst : TokenizedPtxInst} {tok : Text}
    (hopcode : inst.ptxOpcode = "bra".toList) (hoperands : inst.operandTokens = [tok]) :
    (finishInst order labelToPc regAlias inst).operandTokens =
      match labelToPc.lookup (Text.trim (rewriteNamedRegs (order.visit regAlias) tok)) with
      | some pc => [Text.ofNat pc]
      | none => [rewriteNamedRegs (order.visit regAlias) tok] := by
  unfold finishInst resolveBranch
  simp only [markLocal_operandTokens, markLocal_opcode, hoperands, hopcode, List.map_cons,
    List.map_nil, beq_self_eq_true, if_true]
  cases labelToPc.lookup (Text.trim (rewriteNamedRegs (order.visit regAlias) tok)) with
  | none => simp
  | some pc => rfl

/-- **Branch targets.** A closed kernel has every branch at its label exactly when nothing disturbs
any. -/
theorem labels_exact_iff (hopen : cur.insts = [])
    (hclose : closeKernel order fileName cur lines = .ok k) :
    (∀ b : LabelledBranch fileName lines, b.Resolved k) ↔
      ∀ b : LabelledBranch fileName lines, b.Undisturbed order cur := by
  obtain ⟨aliases, found, haliases, hfound, hinsts⟩ := closeKernel_insts hclose
  rw [hopen, List.nil_append] at hinsts
  refine forall_congr' fun b => ?_
  have hat := hfound
  rw [b.branchAt] at hat
  have hinst := getElem?_found hat b.branch
    (finishInst order (labelPcs 0 lines).reverse aliases.regAlias)
  rw [← hinsts] at hinst
  have hrename : rewriteNamedRegs (order.visit aliases.regAlias) b.tok
      = renameTok order cur lines b.tok := by rw [renameTok, haliases]
  have htokens := finishInst_branch order (labelPcs 0 lines).reverse aliases.regAlias b.opcode
    b.operands
  rw [hrename] at htokens
  rw [b.undisturbed_iff, LabelledBranch.Resolved, hinst]
  simp only [Option.some.injEq, exists_eq_left', htokens]
  cases hlookup : (labelPcs 0 lines).reverse.lookup
      (Text.trim (renameTok order cur lines b.tok)) with
  | some pc =>
    simp only [List.cons.injEq, and_true, Option.some.injEq]
    exact ⟨Text.ofNat_injective, fun h => by rw [h]⟩
  | none =>
    -- a renamed operand is no number, and one that is not renamed is in the table
    simp only [List.cons.injEq, and_true, reduceCtorEq, iff_false]
    intro hnumber
    have hpercent : ∀ kv ∈ order.visit aliases.regAlias, '%' ∈ kv.2 := by
      intro kv hkv
      obtain ⟨scan, hscan, hdone⟩ := bind_ok.mp haliases
      cases hdone
      have hnil : ∀ kv ∈ ({ cur := scan.cur } : Aliases).regAlias, '%' ∈ kv.2 := by simp
      exact percent_mem_aliases _ hnil kv ((order.perm _).mem_iff.mp hkv)
    rcases rewriteNamedRegs_eq_or_mem hpercent b.tok with heq | hmem
    · rw [hrename] at heq
      rw [heq, b.lookup_own] at hlookup
      cases hlookup
    · rw [hrename, hnumber] at hmem
      exact Text.not_mem_ofNat (by decide) hmem

def loopBody : List (Nat × Text) := [(3, "L:".toList), (4, "ret;".toList), (5, "bra L;".toList)]

theorem labels_exact_iff_loop :
    ∃ k, closeKernel .inserted "" {} loopBody = .ok k ∧
      ((∀ b : LabelledBranch "" loopBody, b.Resolved k) ↔
        ∀ b : LabelledBranch "" loopBody, b.Undisturbed .inserted {}) := by
  have hclose : closeKernel .inserted "" {} loopBody = .ok
      { insts := [{ ptxOpcode := "ret".toList, dbg := some { file := "", line := 4, column := 1 } },
        { ptxOpcode := "bra".toList, operandTokens := ["0".toList],
          dbg := some { file := "", line := 5, column := 1 } }] } := by rfl
  exact ⟨_, hclose, labels_exact_iff rfl hclose⟩

/-- The same loop behind a lone semicolon. -/
def shiftedBody : List (Nat × Text) := (2, ";".toList) :: loopBody

/-- The branch goes to itself, not to the first instruction of the loop. -/
theorem semicolon_shifts_label :
    ∃ k, closeKernel .inserted "" {} shiftedBody = .ok k ∧
      ¬∀ b : LabelledBranch "" shiftedBody, b.Resolved k := by
  have hclose : closeKernel .inserted "" {} shiftedBody = .ok
      { insts := [{ ptxOpcode := "ret".toList, dbg := some { file := "", line := 4, column := 1 } },
        { ptxOpcode := "bra".toList, operandTokens := ["1".toList],
          dbg := some { file := "", line := 5, column := 1 } }] } := by rfl
  refine ⟨_, hclose, ?_⟩
  intro hresolved
  obtain ⟨inst, hinst, htokens⟩ := hresolved
    { pre := [(2, ";".toList), (3, "L:".toList), (4, "ret;".toList)]
      branchLine := (5, "bra L;".toList)
      post := []
      branchAt := rfl
      inst := { ptxOpcode := "bra".toList, operandTokens := ["L".toList],
                dbg := some { file := "", line := 5, column := 1 } }
      tok := "L".toList
      branch := by rfl
      opcode := rfl
      operands := rfl
      before := [(2, ";".toList)]
      labelLine := (3, "L:".toList)
      after := [(4, "ret;".toList), (5, "bra L;".toList)]
      labelAt := rfl
      label := by decide
      only := by decide }
  obtain rfl := Option.some.inj hinst
  exact absurd htokens (by decide)

end ProtoGpu

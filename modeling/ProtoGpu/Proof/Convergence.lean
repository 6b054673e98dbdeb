import ProtoGpu.Proof.BitSet

/-!
# The iteration ends

A pass clears at least what one more edge clears, and a shortest path that avoids a node has fewer
edges than the graph has nodes. So `n + 1` passes are enough for a kernel of `n` instructions, and
the guard of the loop allows more than four times that many.
-/

namespace ProtoGpu

section Kernel
variable {kernel : KernelImage} {registry : DescriptorRegistry} {warpSize : Nat}

/-- The graph of a kernel needs a pass for each of its nodes at most. -/
theorem postdomLoop_passes {succs : List (List Nat)}
    (hbuild : buildSuccFrom kernel registry warpSize 0 kernel.insts = .ok succs) {iters : Nat}
    (hiters : kernel.insts.length < iters) :
    ∃ postdom, postdomLoop succs (kernel.insts.length + 1) kernel.insts.length iters
      (postdomInit (kernel.insts.length + 1) kernel.insts.length) = some postdom := by
  obtain ⟨hright, hupTo⟩ := postdomInit_cleared succs kernel.insts.length
  obtain ⟨postdom, hloop, -⟩ := postdomLoop_exact (succEdge_iff hbuild).1 (Nat.zero_le _) hiters
    (postdomInit_inv _) hright hupTo
  exact ⟨postdom, hloop⟩

/-- What the analysis says when it gives up on a branch. -/
def branchMessages : List String :=
  ["BRA target is missing/invalid", "BRA target PC out of range",
    "missing ipdom for predicated BRA"]

theorem instSucc_error {pc : Nat} {inst : InstRecord} {d : Diagnostic}
    (herror : instSucc kernel registry warpSize pc inst = .error d) :
    d.message ∈ branchMessages := by
  unfold instSucc at herror
  dsimp only at herror
  cases hclass : classifyInst inst registry warpSize with
  | none =>
      rw [hclass] at herror
      cases herror
  | some info =>
      rw [hclass] at herror
      dsimp only at herror
      by_cases hret : info.hasRet = true
      · rw [if_pos hret] at herror
        cases herror
      rw [if_neg hret] at herror
      by_cases hbra : info.hasBra = true
      · rw [if_pos hbra] at herror
        cases htarget : info.braTarget with
        | none =>
            rw [htarget] at herror
            by_cases hpred : info.isPredicated = true
            · rw [if_pos hpred] at herror
              cases herror
              exact List.mem_cons_self
            · rw [if_neg hpred] at herror
              cases herror
        | some target =>
            rw [htarget] at herror
            by_cases hpred : info.isPredicated = true
            · rw [if_pos hpred] at herror
              dsimp only at herror
              by_cases hrange : target < 0 ∨ target.toNat ≥ kernel.insts.length
              · rw [if_pos hrange] at herror
                cases herror
                exact List.mem_cons_of_mem _ List.mem_cons_self
              · rw [if_neg hrange] at herror
                cases herror
            · rw [if_neg hpred] at herror
              cases herror
      · rw [if_neg hbra] at herror
        cases herror

theorem buildSuccFrom_error {insts : List InstRecord} {pc : Nat} {d : Diagnostic}
    (herror : buildSuccFrom kernel registry warpSize pc insts = .error d) :
    d.message ∈ branchMessages := by
  induction insts generalizing pc with
  | nil => cases herror
  | cons inst insts ih =>
      rw [buildSuccFrom] at herror
      cases hsucc : instSucc kernel registry warpSize pc inst with
      | error d' =>
          rw [hsucc] at herror
          cases herror
          exact instSucc_error hsucc
      | ok succ =>
          rw [hsucc] at herror
          cases hrest : buildSuccFrom kernel registry warpSize (pc + 1) insts with
          | error d' =>
              rw [hrest] at herror
              cases herror
              exact ih hrest
          | ok succs =>
              rw [hrest] at herror
              cases herror

theorem reconvFrom_error {postdom : List BitSet} {insts : List InstRecord} {pc : Nat}
    {d : Diagnostic} (herror : reconvFrom kernel registry warpSize postdom pc insts = .error d) :
    d.message ∈ branchMessages := by
  induction insts generalizing pc d with
  | nil => cases herror
  | cons inst insts ih =>
      rw [reconvFrom] at herror
      cases hrest : reconvFrom kernel registry warpSize postdom (pc + 1) insts with
      | error d' =>
          -- the error comes from this instruction or from behind it
          have hd' := ih hrest
          rw [hrest] at herror
          by_cases hbranch : isPredicatedBra (classifyInst inst registry warpSize) = true
          · replace herror := (if_pos hbranch).symm.trans herror
            cases hipdom : ipdomOf postdom (kernel.insts.length + 1) pc with
            | none =>
                rw [hipdom] at herror
                cases herror
                exact List.mem_cons_of_mem _ (List.mem_cons_of_mem _ List.mem_cons_self)
            | some ipdom =>
                rw [hipdom] at herror
                cases herror
                exact hd'
          · cases (if_neg hbranch).symm.trans herror
            exact hd'
      | ok rs =>
          rw [hrest] at herror
          by_cases hbranch : isPredicatedBra (classifyInst inst registry warpSize) = true
          · replace herror := (if_pos hbranch).symm.trans herror
            cases hipdom : ipdomOf postdom (kernel.insts.length + 1) pc with
            | none =>
                rw [hipdom] at herror
                cases herror
                exact List.mem_cons_of_mem _ (List.mem_cons_of_mem _ List.mem_cons_self)
            | some ipdom =>
                rw [hipdom] at herror
                cases herror
          · cases (if_neg hbranch).symm.trans herror

end Kernel

/-- **The iteration converges inside its guard.** For a kernel of `n` instructions whose successors
could be built, `n + 1` passes are enough, on words as on bits, so no kernel gets the diagnostic. -/
theorem postdom_converges (kernel : KernelImage) (registry : DescriptorRegistry) (warpSize : Nat) :
    (∀ succs, buildSuccFrom kernel registry warpSize 0 kernel.insts = .ok succs →
      ∀ iters, kernel.insts.length < iters → ∃ words,
        WordSet.postdomLoop succs (kernel.insts.length + 1) kernel.insts.length iters
            (WordSet.postdomInit (kernel.insts.length + 1) kernel.insts.length) = some words
          ∧ postdomLoop succs (kernel.insts.length + 1) kernel.insts.length iters
            (postdomInit (kernel.insts.length + 1) kernel.insts.length)
              = some (words.map WordSet.bits))
      ∧ ∀ d, analyzeControlFlow kernel registry warpSize = .error d →
          d.message ≠ "postdom did not converge" := by
  constructor
  · intro succs hbuild iters hiters
    obtain ⟨postdom, hloop⟩ := postdomLoop_passes hbuild hiters
    have hbits := (WordSet.stands_init kernel.insts.length).loop (succEdge_iff hbuild).1 iters
    rw [hloop] at hbits
    obtain ⟨words, hwords, hmap⟩ := Option.map_eq_some_iff.mp hbits
    exact ⟨words, hwords, by rw [hloop, hmap]⟩
  · intro d herror hmessage
    have hmessages : ∀ message ∈ branchMessages, message ≠ "postdom did not converge" := by decide
    unfold analyzeControlFlow at herror
    dsimp only at herror
    cases hbuild : buildSuccFrom kernel registry warpSize 0 kernel.insts with
    | error d' =>
        rw [hbuild] at herror
        cases herror
        exact hmessages _ (buildSuccFrom_error hbuild) hmessage
    | ok succs =>
        obtain ⟨postdom, hloop⟩ := postdomLoop_passes hbuild
          (show kernel.insts.length < (kernel.insts.length + 1) * 4 + 64 by omega)
        rw [hbuild] at herror
        dsimp only at herror
        rw [hloop] at herror
        exact hmessages _ (reconvFrom_error herror) hmessage

theorem postdom_converges_skip :
    ∃ words, WordSet.postdomLoop [[1], [3, 2], [3], [4]] 5 4 5 (WordSet.postdomInit 5 4)
      = some words
      ∧ postdomLoop [[1], [3, 2], [3], [4]] 5 4 5 (postdomInit 5 4)
        = some (words.map WordSet.bits) :=
  (postdom_converges skipKernel demoDescs 32).1 _ (by decide) 5 (by decide)

end ProtoGpu

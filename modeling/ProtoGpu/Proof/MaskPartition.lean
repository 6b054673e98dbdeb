import ProtoGpu.Proof.Issue
import ProtoGpu.Proof.Launch
import ProtoGpu.Simt.WarpRun

/-!
# The frames partition the lanes

Every initially active lane that has not returned is held by exactly one frame, and every other
lane by none. Counting holders makes this one equation per lane, `holders + exited = initial`, which
each of the five places that move masks keeps. The depth bound rides along: the levels of the stack
are reached by strictly growing sets of lanes.
-/

namespace ProtoGpu

/-- The stack of a warp whose lanes in `exited` have returned. -/
structure StackInv (ctx : WarpContext) (initial exited : LaneMask) (fs : List SimtFrame) :
    Prop where
  framesFit : ∀ f ∈ fs, f.active.Fits ctx.warpSize
  partition : ∀ lane, holders exited lane fs + (exited.has lane).toNat = (initial.has lane).toNat
  nested : Nested initial.lanes ctx.exitPc fs

/-- A warp between two steps. -/
structure WarpInv (ctx : WarpContext) (initial : LaneMask) (w : WarpState) : Prop where
  exitedFits : w.exited.Fits ctx.warpSize
  stack : StackInv ctx initial w.exited w.simtStack

/-- A warp that executes the path on top of its stack, over levels reached by `lanes`. -/
structure RunInv (ctx : WarpContext) (initial : LaneMask) (lanes : Finset Nat) (reconvPc : Int)
    (rest : List SimtFrame) (w : WarpState) : Prop where
  notDone : w.done = false
  stack : w.simtStack =
    { pc := w.pc, active := w.active, reconvPc := reconvPc, isJoin := false } :: rest
  exitedFits : w.exited.Fits ctx.warpSize
  activeFits : w.active.Fits ctx.warpSize
  restFit : ∀ f ∈ rest, f.active.Fits ctx.warpSize
  partition : ∀ lane, holders w.exited lane w.simtStack + (w.exited.has lane).toNat
    = (initial.has lane).toNat
  live : ∀ lane, w.active.has lane = true → w.exited.has lane = false
  lanesNonempty : lanes.Nonempty
  activeSubset : w.active.lanes ⊆ lanes
  below : Below initial.lanes ctx.exitPc lanes reconvPc rest

section Invariant

variable {ctx : WarpContext} {initial : LaneMask}

theorem RunInv.warpInv {lanes : Finset Nat} {reconvPc : Int} {rest : List SimtFrame}
    {w : WarpState} (h : RunInv ctx initial lanes reconvPc rest w) : WarpInv ctx initial w where
  exitedFits := h.exitedFits
  stack := by
    refine ⟨?_, h.partition, ?_⟩
    · rw [h.stack]
      intro f hf
      cases hf with
      | head => exact h.activeFits
      | tail _ hmem => exact h.restFit f hmem
    · rw [h.stack]
      exact .path h.lanesNonempty rfl h.activeSubset h.below

theorem RunInv.onlyRegs {lanes : Finset Nat} {reconvPc : Int} {rest : List SimtFrame}
    {w w' : WarpState} (h : RunInv ctx initial lanes reconvPc rest w) (hregs : OnlyRegs w w') :
    RunInv ctx initial lanes reconvPc rest w' := by
  obtain ⟨_, _, _, rfl⟩ := hregs
  exact ⟨h.notDone, h.stack, h.exitedFits, h.activeFits, h.restFit, h.partition, h.live,
    h.lanesNonempty, h.activeSubset, h.below⟩

/-! ### Normalization -/

theorem StackInv.pop {exited : LaneMask} {f : SimtFrame} {fs : List SimtFrame}
    (hws : ctx.warpSize ≤ 32) (hwidth : exited.width = ctx.warpSize)
    (h : StackInv ctx initial exited (f :: fs))
    (hempty : laneMaskEmpty (f.refresh exited).active = true) : StackInv ctx initial exited fs where
  framesFit := fun g hg => h.framesFit g (by simp [hg])
  partition := by
    intro lane
    rw [holders_pop hws hwidth (h.framesFit f (by simp)) hempty lane]
    exact h.partition lane
  nested := h.nested.pop

theorem StackInv.merge {exited : LaneMask} {f : SimtFrame} {fs fs' : List SimtFrame}
    (hws : ctx.warpSize ≤ 32) (hwidth : exited.width = ctx.warpSize)
    (h : StackInv ctx initial exited (f :: fs))
    (hlive : laneMaskEmpty (f.refresh exited).active = false) (hpath : f.isJoin = false)
    (hpc : f.pc = f.reconvPc)
    (hmerge : mergeIntoJoin f.pc (f.refresh exited).active fs = some fs') :
    StackInv ctx initial exited fs' := by
  have hf := h.framesFit f (by simp)
  have hone : ∀ lane, holders exited lane (f :: fs) ≤ 1 := by
    intro lane
    have hcount := h.partition lane
    have hle := Bool.toNat_le (initial.has lane)
    omega
  refine ⟨fits_merge hf (fun g hg => h.framesFit g (by simp [hg])) hmerge, fun lane => ?_,
    h.nested.merge hpath hlive hpc hmerge⟩
  rw [holders_merge hws hwidth hf hone hmerge lane]
  exact h.partition lane

theorem normalizeFrames_inv (hws : ctx.warpSize ≤ 32) {w : WarpState}
    (hinv : WarpInv ctx initial w) :
    (normalizeFrames w.exited w.simtStack.length w.simtStack).StopsAt
      (StackInv ctx initial w.exited) w.exited :=
  normalizeFrames_stopsAt (fun _ _ hfs => hfs.pop hws hinv.exitedFits.width)
    (fun _ _ _ hfs => hfs.merge hws hinv.exitedFits.width) le_rfl hinv.stack

theorem normalizeStack_ready (hws : ctx.warpSize ≤ 32) {w w' : WarpState} (hdone : w.done = false)
    (hinv : WarpInv ctx initial w) (h : normalizeStack ctx w = (.ok .ready, w')) :
    ∃ lanes reconvPc rest, RunInv ctx initial lanes reconvPc rest w' := by
  have hstop := normalizeFrames_inv hws hinv
  unfold normalizeStack at h
  split at h
  next top rest joined heq =>
    rw [heq] at hstop
    cases h
    obtain ⟨f, hfs, rfl, -, hlive, -⟩ := hstop
    have hf := hfs.framesFit f (by simp)
    have hwidth := hinv.exitedFits.width
    obtain ⟨lanes, hne, hsub, hbelow⟩ := hfs.nested.ready hlive
    refine ⟨lanes, f.reconvPc, rest, hdone, rfl, hinv.exitedFits, hf.and,
      fun g hg => hfs.framesFit g (by simp [hg]), ?_, ?_, hne, hsub, hbelow⟩
    · intro lane
      rw [← hfs.partition lane]
      simp only [holders_cons, SimtFrame.holds, has_refresh hws hwidth hf, Bool.and_assoc,
        Bool.and_self]
    · intro lane hlane
      rw [has_refresh hws hwidth hf] at hlane
      simp only [SimtFrame.holds, Bool.and_eq_true, Bool.not_eq_true'] at hlane
      exact hlane.2
  · cases h
  · cases h

/-- A retired warp has returned all its lanes. -/
theorem normalizeStack_retired (hws : ctx.warpSize ≤ 32) {w w' : WarpState}
    (hinv : WarpInv ctx initial w) (h : normalizeStack ctx w = (.ok .retired, w')) :
    WarpInv ctx initial w' ∧ w'.done = true ∧ ∀ lane, w'.exited.has lane = initial.has lane := by
  have hstop := normalizeFrames_inv hws hinv
  unfold normalizeStack at h
  split at h
  · cases h
  next heq =>
    rw [heq] at hstop
    cases h
    refine ⟨⟨hinv.exitedFits, hstop⟩, rfl, fun lane => ?_⟩
    have hcount := hstop.partition lane
    rw [holders_nil, Nat.zero_add] at hcount
    revert hcount
    cases w.exited.has lane <;> cases initial.has lane <;> simp
  · cases h

/-- Normalization fails only where a path runs off the end of the kernel. -/
theorem normalizeStack_error (hws : ctx.warpSize ≤ 32) {w w' : WarpState} {f : Fault}
    (hinv : WarpInv ctx initial w) (h : normalizeStack ctx w = (.error f, w')) :
    f = ctx.simtDiag "E_RECONV_INVALID" "reconv join frame not found" none ctx.exitPc := by
  have hstop := normalizeFrames_inv hws hinv
  unfold normalizeStack at h
  split at h
  · cases h
  · cases h
  next reconvPc rest heq =>
    rw [heq] at hstop
    cases h
    obtain ⟨g, hfs, hlive, hpath, hpc, rfl, hmerge⟩ := hstop
    have hne := (LaneMask.lanes_nonempty_iff.mpr hlive).mono lanes_refresh_subset
    obtain ⟨lanes, -, -, hbelow⟩ := hfs.nested.path_below hpath hne
    rw [hpc] at hmerge ⊢
    rw [(hbelow.eq_nil hmerge).2]

/-! ### The micro-ops -/

/-- The masks of a pending split share out the lanes of the path that have not returned since. -/
structure SplitInv (ctx : WarpContext) (lanes : Finset Nat) (w : WarpState) (split : PendingSplit) :
    Prop where
  takenFits : split.taken.Fits ctx.warpSize
  fallFits : split.fallthrough.Fits ctx.warpSize
  takenNonempty : split.taken.lanes.Nonempty
  takenSubset : split.taken.lanes ⊂ lanes
  fallSubset : split.fallthrough.lanes ⊂ lanes
  cover : ∀ lane, w.exited.has lane = false →
    (split.taken.has lane).toNat + (split.fallthrough.has lane).toNat = (w.active.has lane).toNat

structure IssueInv (ctx : WarpContext) (initial : LaneMask) (lanes : Finset Nat) (reconvPc : Int)
    (rest : List SimtFrame) (s : IssueState) : Prop where
  run : RunInv ctx initial lanes reconvPc rest s.warp
  split : ∀ split, s.split = some split → SplitInv ctx lanes s.warp split

variable {lanes : Finset Nat} {reconvPc : Int} {rest : List SimtFrame}

/-- The lanes of a path that return leave its mask for `exited`. -/
theorem IssueInv.ret (hws : ctx.warpSize ≤ 32) {uop : MicroOp} {s : IssueState}
    (h : IssueInv ctx initial lanes reconvPc rest s) :
    IssueInv ctx initial lanes reconvPc rest (ctrlRet uop s) := by
  obtain ⟨hrun, hsplit⟩ := h
  simp only [ctrlRet, hrun.stack]
  split
  · exact ⟨hrun, hsplit⟩
  · have hmaskFits : (laneMaskAnd s.warp.active uop.guard).Fits ctx.warpSize := hrun.activeFits.and
    have hactive := has_and_not hws hmaskFits.width hrun.activeFits
    have hexited : ∀ lane, (laneMaskOrSameWidth s.warp.exited
        (laneMaskAnd s.warp.active uop.guard)).has lane
          = (s.warp.exited.has lane || s.warp.active.has lane && uop.guard.has lane) := by
      intro lane
      rw [has_laneMaskOrSameWidth, has_laneMaskAnd]
    refine ⟨⟨hrun.notDone, rfl, hrun.exitedFits.or hmaskFits, hrun.activeFits.and, hrun.restFit,
      ?partition, ?live, hrun.lanesNonempty, ?subset, hrun.below⟩, ?split⟩
    case partition =>
      intro lane
      have hcount := hrun.partition lane
      rw [hrun.stack] at hcount
      simp only [holders_cons, SimtFrame.holds, hactive, hexited, has_laneMaskAnd] at hcount ⊢
      by_cases hret : (s.warp.active.has lane && uop.guard.has lane) = true
      · rw [holders_eq_zero_of_exited (by rw [hexited, hret]; simp)]
        simp only [Bool.and_eq_true] at hret
        have hlive := hrun.live lane hret.1
        simp only [hret.1, hret.2, hlive, Bool.not_false, Bool.and_true, Bool.toNat_true,
          Bool.toNat_false, Bool.or_true, Bool.not_true, Bool.and_false] at hcount ⊢
        have hle := Bool.toNat_le (initial.has lane)
        omega
      · simp only [Bool.not_eq_true] at hret
        have hsame : (laneMaskOrSameWidth s.warp.exited
            (laneMaskAnd s.warp.active uop.guard)).has lane = s.warp.exited.has lane := by
          rw [hexited, hret, Bool.or_false]
        rw [holders_congr hsame, ← hcount]
        simp [hret]
    case live =>
      intro lane hlane
      rw [hactive, has_laneMaskAnd] at hlane
      rw [hexited]
      simp only [Bool.and_eq_true, Bool.not_eq_true'] at hlane
      rw [hrun.live lane hlane.1, hlane.2]
      rfl
    case subset =>
      refine Finset.Subset.trans ?_ hrun.activeSubset
      rw [LaneMask.lanes_subset_iff]
      intro lane hlane
      rw [hactive] at hlane
      exact (Bool.and_eq_true _ _ ▸ hlane).1
    case split =>
      intro split hsome
      have hinv := hsplit split hsome
      refine ⟨hinv.takenFits, hinv.fallFits, hinv.takenNonempty, hinv.takenSubset,
        hinv.fallSubset, fun lane hlane => ?_⟩
      rw [hexited] at hlane
      rw [Bool.or_eq_false_iff] at hlane
      rw [hinv.cover lane hlane.1, hactive, has_laneMaskAnd, hlane.2]
      simp

theorem IssueInv.diverge (hws : ctx.warpSize ≤ 32) {uop : MicroOp} {s : IssueState}
    {target join : Int} (hguard : uop.guard.Fits ctx.warpSize)
    (h : RunInv ctx initial lanes reconvPc rest s.warp)
    (htaken : laneMaskEmpty (laneMaskAnd s.warp.active uop.guard) = false)
    (hfall : laneMaskEmpty (laneMaskAnd s.warp.active (laneMaskNotWidth uop.guard)) = false) :
    SplitInv ctx lanes s.warp (splitAt uop target join s) := by
  have hnot := has_and_not hws hguard.width h.activeFits
  have htakenSub : (laneMaskAnd s.warp.active uop.guard).lanes ⊆ s.warp.active.lanes := by
    rw [LaneMask.lanes_subset_iff]
    intro lane hlane
    rw [has_laneMaskAnd] at hlane
    exact (Bool.and_eq_true _ _ ▸ hlane).1
  have hfallSub : (laneMaskAnd s.warp.active (laneMaskNotWidth uop.guard)).lanes
      ⊆ s.warp.active.lanes := by
    rw [LaneMask.lanes_subset_iff]
    intro lane hlane
    rw [hnot] at hlane
    exact (Bool.and_eq_true _ _ ▸ hlane).1
  obtain ⟨taken, htakenMem⟩ := LaneMask.lanes_nonempty_iff.mpr htaken
  obtain ⟨fall, hfallMem⟩ := LaneMask.lanes_nonempty_iff.mpr hfall
  refine ⟨h.activeFits.and, h.activeFits.and, ⟨taken, htakenMem⟩, ?_, ?_, fun lane _ => ?_⟩
  · refine Finset.ssubset_iff_subset_ne.mpr ⟨htakenSub.trans h.activeSubset, fun heq => ?_⟩
    have hmem := h.activeSubset (hfallSub hfallMem)
    rw [← heq] at hmem
    simp only [splitAt, LaneMask.mem_lanes, has_laneMaskAnd, hnot] at hmem hfallMem
    simp_all
  · refine Finset.ssubset_iff_subset_ne.mpr ⟨hfallSub.trans h.activeSubset, fun heq => ?_⟩
    have hmem := h.activeSubset (htakenSub htakenMem)
    rw [← heq] at hmem
    simp only [splitAt, LaneMask.mem_lanes, has_laneMaskAnd, hnot] at hmem htakenMem
    simp_all
  · simp only [splitAt, has_laneMaskAnd, hnot]
    cases s.warp.active.has lane <;> cases uop.guard.has lane <;> rfl

/-- One micro-op keeps the warp's invariant, and without a fault the split's. -/
theorem IssueInv.uop (hws : ctx.warpSize ≤ 32) {inst : InstRecord} {uop : MicroOp}
    {s s' : IssueState} {f : Option Fault} (hguard : uop.guard.Fits ctx.warpSize)
    (h : IssueInv ctx initial lanes reconvPc rest s) (hstep : uopStep ctx inst uop s = (f, s')) :
    RunInv ctx initial lanes reconvPc rest s'.warp
      ∧ (f = none → IssueInv ctx initial lanes reconvPc rest s') := by
  cases uopStep_effect h.run.notDone hstep with
  | regs hkind hregs =>
      have hrun := h.run.onlyRegs hregs
      refine ⟨hrun, fun _ => ⟨hrun, fun split hsome => ?_⟩⟩
      obtain ⟨_, _, _, rfl⟩ := hregs
      have hinv := h.split split hsome
      exact ⟨hinv.takenFits, hinv.fallFits, hinv.takenNonempty, hinv.takenSubset,
        hinv.fallSubset, hinv.cover⟩
  | ret => exact ⟨(h.ret hws).run, fun _ => h.ret hws⟩
  | idle => exact ⟨h.run, fun _ => h⟩
  | fault hkind hwarp => exact ⟨hwarp ▸ h.run, fun hnone => by cases hnone⟩
  | branch hkind hop hinputs himm hmask hsplit hnext =>
      refine ⟨h.run, fun _ => ⟨h.run, fun split hsome => ?_⟩⟩
      cases hsplit with
      | uniform => exact h.split split hsome
      | diverges hfall hpc hreconv =>
          cases hsome
          exact IssueInv.diverge hws hguard h.run hmask hfall

theorem IssueInv.loop (hws : ctx.warpSize ≤ 32) {inst : InstRecord} {uops : List MicroOp}
    {s s' : IssueState} {f : Option Fault}
    (hguard : ∀ uop ∈ uops, uop.guard.Fits ctx.warpSize)
    (h : IssueInv ctx initial lanes reconvPc rest s) (hloop : uopLoop ctx inst uops s = (f, s')) :
    RunInv ctx initial lanes reconvPc rest s'.warp
      ∧ (f = none → IssueInv ctx initial lanes reconvPc rest s') := by
  induction uops generalizing s with
  | nil =>
      cases hloop
      exact ⟨h.run, fun _ => h⟩
  | cons uop uops ih =>
      rw [uopLoop] at hloop
      split at hloop
      next f' s₁ hstep =>
        cases hloop
        exact ⟨(h.uop hws (hguard uop (by simp)) hstep).1, fun hnone => by cases hnone⟩
      next s₁ hstep =>
        have h₁ := (h.uop hws (hguard uop (by simp)) hstep).2 rfl
        exact ih (fun u hu => hguard u (by simp [hu])) h₁ hloop

/-- Lanes only leave the path, for `exited`. -/
structure Shrinks (w w' : WarpState) : Prop where
  exited : ∀ lane, w.exited.has lane = true → w'.exited.has lane = true
  active : ∀ lane, w'.active.has lane = true → w.active.has lane = true

theorem Shrinks.refl (w : WarpState) : Shrinks w w := ⟨fun _ => id, fun _ => id⟩

theorem Shrinks.trans {w w' w'' : WarpState} (h : Shrinks w w') (h' : Shrinks w' w'') :
    Shrinks w w'' :=
  ⟨fun lane hlane => h'.exited lane (h.exited lane hlane),
    fun lane hlane => h.active lane (h'.active lane hlane)⟩

theorem uopStep_shrinks {inst : InstRecord} {uop : MicroOp} {s s' : IssueState} {f : Option Fault}
    (h : RunInv ctx initial lanes reconvPc rest s.warp)
    (hstep : uopStep ctx inst uop s = (f, s')) : Shrinks s.warp s'.warp := by
  cases uopStep_effect h.notDone hstep with
  | regs hkind hregs =>
      obtain ⟨_, _, _, rfl⟩ := hregs
      exact ⟨fun _ => id, fun _ => id⟩
  | ret =>
      simp only [ctrlRet, h.stack]
      split
      · exact Shrinks.refl _
      · refine ⟨fun lane hlane => ?_, fun lane hlane => ?_⟩
        · rw [has_laneMaskOrSameWidth, hlane, Bool.true_or]
        · rw [has_laneMaskAnd, Bool.and_eq_true] at hlane
          exact hlane.1
  | idle => exact Shrinks.refl _
  | fault hkind hwarp =>
      rw [hwarp]
      exact Shrinks.refl _
  | branch => exact Shrinks.refl _

theorem uopLoop_shrinks (hws : ctx.warpSize ≤ 32) {inst : InstRecord} {uops : List MicroOp}
    {s s' : IssueState} {f : Option Fault}
    (hguard : ∀ uop ∈ uops, uop.guard.Fits ctx.warpSize)
    (h : IssueInv ctx initial lanes reconvPc rest s) (hloop : uopLoop ctx inst uops s = (f, s')) :
    Shrinks s.warp s'.warp := by
  induction uops generalizing s with
  | nil =>
      cases hloop
      exact Shrinks.refl _
  | cons uop uops ih =>
      rw [uopLoop] at hloop
      split at hloop
      next f' s₁ hstep =>
        cases hloop
        exact uopStep_shrinks h.run hstep
      next s₁ hstep =>
        have h₁ := (h.uop hws (hguard uop (by simp)) hstep).2 rfl
        exact (uopStep_shrinks h.run hstep).trans
          (ih (fun u hu => hguard u (by simp [hu])) h₁ hloop)

/-! ### Commit -/

/-- A split replaces the path by a join and the two paths of the branch; otherwise the path moves
on. -/
theorem IssueInv.commit {s : IssueState}
    (h : IssueInv ctx initial lanes reconvPc rest s) :
    WarpInv ctx initial (commit ctx s.nextPc s.split s.warp) := by
  obtain ⟨hrun, hsplit⟩ := h
  cases hs : s.split with
  | none =>
      rw [commit_uniform hrun.notDone hrun.stack]
      refine ⟨hrun.exitedFits, ?_, ?_, ?_⟩
      · intro f hf
        cases hf with
        | head => exact hrun.activeFits
        | tail _ hmem => exact hrun.restFit f hmem
      · intro lane
        rw [← hrun.partition lane, hrun.stack]
        simp only [holders_cons, SimtFrame.holds]
      · exact .path hrun.lanesNonempty rfl hrun.activeSubset hrun.below
  | some split =>
      have hinv := hsplit split hs
      rw [commit_split hrun.notDone hrun.stack]
      refine ⟨hrun.exitedFits, ?_, ?_, ?_⟩
      · intro f hf
        simp only [splitFrames, List.mem_append, List.mem_cons, List.not_mem_nil, or_false] at hf
        rcases hf with (rfl | rfl | rfl) | hmem
        · exact hinv.takenFits
        · exact hinv.fallFits
        · exact LaneMask.fits_zero
        · exact hrun.restFit f hmem
      · intro lane
        have hcount := hrun.partition lane
        rw [hrun.stack] at hcount
        have hzero : LaneMask.has { width := ctx.warpSize, bitsLo := 0 } lane = false := by
          simp [LaneMask.has]
        simp only [splitFrames, List.cons_append, List.nil_append, holders_cons,
          SimtFrame.holds, hzero, Bool.false_and, Bool.toNat_false, Nat.zero_add] at hcount ⊢
        cases hexited : s.warp.exited.has lane with
        | true => simpa [hexited] using hcount
        | false =>
            have hcover := hinv.cover lane hexited
            simp only [hexited, Bool.not_false, Bool.and_true, Bool.toNat_false] at hcount ⊢
            omega
      · refine .path hinv.takenNonempty rfl subset_rfl ?_
        refine .fall rfl rfl hinv.fallSubset rfl rfl ?_ hinv.takenSubset hrun.below
        intro lane hlane
        simp [LaneMask.has] at hlane

/-! ### Steps and runs -/

theorem issueInst_inv (hws : ctx.warpSize ≤ 32) {w w' : WarpState} {mem mem' : MemState}
    {r : Except Fault Issue} (h : RunInv ctx initial lanes reconvPc rest w)
    (hissue : issueInst ctx w mem = (r, w', mem')) : WarpInv ctx initial w' := by
  have hstart : ∀ mem, IssueInv ctx initial lanes reconvPc rest { warp := w, mem := mem } :=
    fun mem => ⟨h, by simp⟩
  have hguards : ∀ {inst desc guard}, Decoded ctx w inst desc guard →
      ∀ uop ∈ guardedUops ctx inst desc guard, uop.guard.Fits ctx.warpSize := by
    intro inst desc guard hdecoded uop huop
    rw [guard_of_mem_guardedUops huop]
    exact hdecoded.guarded.fits
  cases r with
  | error f =>
      rcases issueInst_error hws hissue with ⟨rfl, -⟩ | ⟨_, _, _, s, hdecoded, hloop, rfl, -⟩
      · exact h.warpInv
      · exact ((hstart mem).loop hws (hguards hdecoded) hloop).1.warpInv
  | ok issue =>
      obtain ⟨_, _, _, s, hdecoded, hloop, -, rfl, -⟩ := issueInst_ok hws hissue
      exact (((hstart mem).loop hws (hguards hdecoded) hloop).2 rfl).commit

/-- **The step lemma.** A step keeps the invariant, unless a path ran off the end of the kernel. -/
theorem warpStep_inv (hws : ctx.warpSize ≤ 32) {w w' : WarpState} {mem mem' : MemState}
    {r : Except Fault StepOutcome} (h : WarpInv ctx initial w) (hdone : w.done = false)
    (hstep : warpStep ctx w mem = (r, w', mem'))
    (hr : r ≠ .error
      (ctx.simtDiag "E_RECONV_INVALID" "reconv join frame not found" none ctx.exitPc)) :
    WarpInv ctx initial w' := by
  cases r with
  | error f =>
      rcases warpStep_error hstep with hnormalize | ⟨w₁, hnormalize, hissue⟩
      · rw [normalizeStack_error hws h hnormalize] at hr
        exact absurd rfl hr
      · obtain ⟨lanes, reconvPc, rest, hrun⟩ := normalizeStack_ready hws hdone h hnormalize
        exact issueInst_inv hws hrun hissue
  | ok outcome =>
      cases outcome with
      | retired => exact (normalizeStack_retired hws h (warpStep_retired hstep).1).1
      | issued issue =>
          obtain ⟨w₁, hnormalize, hissue⟩ := warpStep_issued hstep
          obtain ⟨lanes, reconvPc, rest, hrun⟩ := normalizeStack_ready hws hdone h hnormalize
          exact issueInst_inv hws hrun hissue

/-- What a step without a diagnostic says about `done`. -/
theorem warpStep_done (hws : ctx.warpSize ≤ 32) {w w' : WarpState} {mem mem' : MemState}
    {outcome : StepOutcome} (h : WarpInv ctx initial w) (hdone : w.done = false)
    (hstep : warpStep ctx w mem = (.ok outcome, w', mem')) (hdone' : w'.done = true) :
    outcome = .retired ∧ ∀ lane, w'.exited.has lane = initial.has lane := by
  cases outcome with
  | retired => exact ⟨rfl, (normalizeStack_retired hws h (warpStep_retired hstep).1).2.2⟩
  | issued issue =>
      exfalso
      obtain ⟨w₁, hnormalize, hissue⟩ := warpStep_issued hstep
      obtain ⟨lanes, reconvPc, rest, hrun⟩ := normalizeStack_ready hws hdone h hnormalize
      obtain ⟨inst, desc, guard, s, hdecoded, hloop, -, rfl, -⟩ := issueInst_ok hws hissue
      have hguards : ∀ uop ∈ guardedUops ctx inst desc guard, uop.guard.Fits ctx.warpSize := by
        intro uop huop
        rw [guard_of_mem_guardedUops huop]
        exact hdecoded.guarded.fits
      have hend := (IssueInv.loop hws hguards ⟨hrun, by simp⟩ hloop).1
      rw [commit_done hend.notDone hend.stack] at hdone'
      cases hdone'

/-- **The run lemma.** Every run keeps the invariant, and ends with all lanes returned. -/
theorem warpRun_inv (hws : ctx.warpSize ≤ 32) {pre : WarpState → Prop} {w₀ w : WarpState}
    {trace : List Issue} (h₀ : WarpInv ctx initial w₀) (hdone₀ : w₀.done = false)
    (hrun : WarpRunWhen ctx pre w₀ trace w) :
    WarpInv ctx initial w
      ∧ (w.done = true → ∀ lane, w.exited.has lane = initial.has lane) := by
  induction hrun with
  | start => exact ⟨h₀, by simp [hdone₀]⟩
  | issue hrun hdone hpre hstep ih =>
      exact ⟨warpStep_inv hws ih.1 hdone hstep (by simp),
        fun hdone' => (warpStep_done hws ih.1 hdone hstep hdone').2⟩
  | retire hrun hdone hpre hstep ih =>
      exact ⟨warpStep_inv hws ih.1 hdone hstep (by simp),
        fun hdone' => (warpStep_done hws ih.1 hdone hstep hdone').2⟩

theorem warpReaches_inv (hws : ctx.warpSize ≤ 32) {w₀ w : WarpState} {stop : Option Fault}
    (h₀ : WarpInv ctx initial w₀) (hdone₀ : w₀.done = false) (h : WarpReaches ctx w₀ stop w)
    (hstop : stop ≠ some
      (ctx.simtDiag "E_RECONV_INVALID" "reconv join frame not found" none ctx.exitPc)) :
    WarpInv ctx initial w
      ∧ (stop = none → w.done = true → ∀ lane, w.exited.has lane = initial.has lane) := by
  cases h with
  | running hrun =>
      obtain ⟨hinv, hend⟩ := warpRun_inv hws h₀ hdone₀ hrun
      exact ⟨hinv, fun _ => hend⟩
  | normalized hrun hdone hnormalize =>
      obtain ⟨hinv, -⟩ := warpRun_inv hws h₀ hdone₀ hrun
      obtain ⟨lanes, reconvPc, rest, hready⟩ := normalizeStack_ready hws hdone hinv hnormalize
      exact ⟨hready.warpInv, fun _ hdone' => by simp [hready.notDone] at hdone'⟩
  | stopped hrun hdone hstep =>
      obtain ⟨hinv, -⟩ := warpRun_inv hws h₀ hdone₀ hrun
      refine ⟨warpStep_inv hws hinv hdone hstep fun heq => hstop ?_, by simp⟩
      cases heq
      rfl

end Invariant

/-! ### The warps of a launch -/

section Launched

variable {launch : LaunchConfig} {plan : LaunchPlan} {w : BitVec 32}

theorem initWarp_inv (hplan : plan.Checked launch) (hw : w.toNat < plan.warpCount)
    {ctx : WarpContext} (hws : ctx.warpSize = plan.warpSize) (item : CtaWorkItem) :
    WarpInv ctx (initWarp ctx.kernel launch plan item w).active
      (initWarp ctx.kernel launch plan item w) := by
  obtain ⟨lanesOn, hlanesOn, hhas⟩ := initWarp_active hplan ctx.kernel item w
  have hbase := hplan.laneBase_lt hw
  have hwsPos := hplan.warpSizePos
  have hne : (initWarp ctx.kernel launch plan item w).active.lanes.Nonempty := by
    refine ⟨0, ?_⟩
    rw [LaneMask.mem_lanes, hhas]
    exact decide_eq_true (by omega)
  have hfits : (initWarp ctx.kernel launch plan item w).active.Fits ctx.warpSize := by
    refine ⟨hws.symm, fun lane hlane => ?_⟩
    rw [hhas] at hlane
    have := of_decide_eq_true hlane
    omega
  have hzero : ∀ lane, (initWarp ctx.kernel launch plan item w).exited.has lane = false := by
    intro lane
    simp [initWarp, LaneMask.has]
  refine ⟨⟨hws.symm, by simp [hzero]⟩, ⟨?_, fun lane => ?_, ?_⟩⟩
  · intro f hf
    rw [List.mem_singleton.mp hf]
    exact hfits
  · rw [hzero]
    simp only [initWarp, holders_cons, holders_nil, SimtFrame.holds]
    simp [LaneMask.has]
  · exact .path hne rfl subset_rfl (.bottom subset_rfl)

/-- **Mask partition.** In every state a warp of a launch reaches, other than the one a path that
ran off the end of the kernel leaves, the frames' lanes that have not returned are disjoint and,
with the returned ones, are the initial lanes; the stack holds at most `2 * L - 1` frames; and a
warp that is done without a diagnostic has returned every lane. -/
theorem mask_partition {cfg : SimConfig} {ctx : WarpContext} {item : CtaWorkItem}
    {stop : Option Fault} {warp : WarpState}
    (hplan : checkLaunch cfg ctx.kernel launch = .ok plan) (hws : ctx.warpSize = plan.warpSize)
    (hw : w.toNat < plan.warpCount)
    (hreach : WarpReaches ctx (initWarp ctx.kernel launch plan item w) stop warp)
    (hstop : stop ≠ some
      (ctx.simtDiag "E_RECONV_INVALID" "reconv join frame not found" none ctx.exitPc)) :
    (warp.simtStack.Pairwise fun f g => ∀ lane,
        ¬ (f.holds warp.exited lane = true ∧ g.holds warp.exited lane = true))
      ∧ (∀ lane, (initWarp ctx.kernel launch plan item w).active.has lane = true ↔
          warp.exited.has lane = true ∨ ∃ f ∈ warp.simtStack, f.holds warp.exited lane = true)
      ∧ warp.simtStack.length
          ≤ 2 * (initWarp ctx.kernel launch plan item w).active.lanes.card - 1
      ∧ (stop = none → warp.done = true →
          warp.exited = (initWarp ctx.kernel launch plan item w).active) := by
  have hchecked := checkLaunch_ok hplan
  have hws32 : ctx.warpSize ≤ 32 := hws ▸ hchecked.warpSizeLe
  obtain ⟨hinv, hend⟩ := warpReaches_inv hws32 (initWarp_inv hchecked hw hws item) rfl hreach hstop
  refine ⟨pairwise_of_holders_le_one fun lane => ?_, fun lane => ?_, hinv.stack.nested.length_le,
    fun hnone hdone => ?_⟩
  · have hcount := hinv.stack.partition lane
    have hle := Bool.toNat_le ((initWarp ctx.kernel launch plan item w).active.has lane)
    omega
  · rw [← holders_pos_iff, ← Bool.toNat_eq_one, ← hinv.stack.partition lane,
      ← Bool.toNat_eq_one]
    have hle := Bool.toNat_le ((initWarp ctx.kernel launch plan item w).active.has lane)
    have hcount := hinv.stack.partition lane
    omega
  · exact LaneMask.ext_has (hinv.exitedFits.width.trans hws) (hend hnone hdone)

end Launched

/-! ### A path that runs off the end -/

/-- `mov.u32 %r0, 7` and nothing after it. -/
def offEndKernel : KernelImage where
  insts :=
    [{ opcode := "mov", mods := { typeMod := "u32" }
       operands := [{ kind := .reg, regId := 0 }, { kind := .imm, immI64 := 7 }] }]

def offEndCtx : WarpContext where
  kernel := offEndKernel
  registry := demoDescs
  warpSize := 1
  reconvPc := [none]
  floatOps := .unused

def offEndPlan : LaunchPlan where
  threadsPerBlock := 1
  warpSize := 1
  warpCount := 1
  smCount := 1
  ctaSched := .fifo
  warpSched := .inOrderRunToCompletion

def offEndWarp : WarpState := initWarp offEndKernel { warpSize := 1 } offEndPlan {} 0

/-- The `mov` is issued; then the path is at the exit, and the frame that held its lane is gone. -/
theorem off_end_loses_lane :
    checkLaunch {} offEndKernel { warpSize := 1 } = .ok offEndPlan
      ∧ analyzeControlFlow offEndKernel demoDescs 1 = .ok offEndCtx.reconvPc
      ∧ ¬ ∀ stop warp, WarpReaches offEndCtx offEndWarp stop warp →
          ∀ lane, offEndWarp.active.has lane = true ↔
            warp.exited.has lane = true
              ∨ ∃ f ∈ warp.simtStack, f.holds warp.exited lane = true := by
  refine ⟨by decide, by decide, fun hclaim => ?_⟩
  have hissued : (warpStep offEndCtx offEndWarp {}).1
      = .ok (.issued ⟨0, offEndWarp.active, offEndWarp.exited, none⟩) := by decide
  have hrun : WarpRun offEndCtx offEndWarp _ (warpStep offEndCtx offEndWarp {}).2.1 :=
    .issue .start rfl trivial (Prod.ext hissued rfl)
  have hstopped : (warpStep offEndCtx (warpStep offEndCtx offEndWarp {}).2.1 {}).1
      = .error (offEndCtx.simtDiag "E_RECONV_INVALID" "reconv join frame not found" none 1) := by
    decide
  have hlane := (hclaim _ _ (.stopped hrun (by decide) (Prod.ext hstopped rfl)) 0).mp (by decide)
  revert hlane
  decide

/-! ### Three lanes that part -/

/-- `if (lane < 1) goto 4`, and the `ret` at `4` for both sides. -/
def oneJoinCtx : WarpContext where
  kernel := { insts := [movLaneid 0, setpLt 0 0 1, braIf 0 4, movImm 1 7, retInst] }
  registry := demoDescs
  warpSize := 3
  reconvPc := [none, none, some 4, none, none]
  floatOps := .unused

/-- `if (lane >= 1) return`, in two paths that do not meet again. -/
def twoReturnsCtx : WarpContext where
  kernel := { insts := [movLaneid 0, setpLt 0 0 1, braIf 0 4, retInst, movImm 1 7, retInst] }
  registry := demoDescs
  warpSize := 3
  reconvPc := [none, none, some 6, none, none, none]
  floatOps := .unused

def threeLaneLaunch : LaunchConfig where
  blockDim := { x := 3 }
  warpSize := 3

def threeLanePlan : LaunchPlan where
  threadsPerBlock := 3
  warpSize := 3
  warpCount := 1
  smCount := 1
  ctaSched := .fifo
  warpSched := .inOrderRunToCompletion

/-- The states of its only warp, from the initial one on. -/
def threeLaneWarp (ctx : WarpContext) : Nat → WarpState
  | 0 => initWarp ctx.kernel threeLaneLaunch threeLanePlan {} 0
  | n + 1 => (warpStep ctx (threeLaneWarp ctx n) {}).2.1

theorem threeLaneWarp_issue {ctx : WarpContext} {pre : WarpState → Prop} {n : Nat}
    {trace : List Issue} {issue : Issue}
    (hrun : WarpRunWhen ctx pre (threeLaneWarp ctx 0) trace (threeLaneWarp ctx n))
    (hpre : pre (threeLaneWarp ctx n)) (hdone : (threeLaneWarp ctx n).done = false)
    (hissued : (warpStep ctx (threeLaneWarp ctx n) {}).1 = .ok (.issued issue)) :
    WarpRunWhen ctx pre (threeLaneWarp ctx 0) (issue :: trace) (threeLaneWarp ctx (n + 1)) :=
  .issue hrun hdone hpre (Prod.ext hissued rfl)

/-- One lane has returned, and the two others are still to go. -/
theorem mask_partition_two_returns :
    (threeLaneWarp twoReturnsCtx 5).exited.lanes = {0}
      ∧ ((threeLaneWarp twoReturnsCtx 5).simtStack.Pairwise fun f g => ∀ lane,
          ¬ (f.holds (threeLaneWarp twoReturnsCtx 5).exited lane = true
            ∧ g.holds (threeLaneWarp twoReturnsCtx 5).exited lane = true))
      ∧ ∀ lane, (threeLaneWarp twoReturnsCtx 0).active.has lane = true ↔
          (threeLaneWarp twoReturnsCtx 5).exited.has lane = true
            ∨ ∃ f ∈ (threeLaneWarp twoReturnsCtx 5).simtStack,
              f.holds (threeLaneWarp twoReturnsCtx 5).exited lane = true := by
  have hplan : checkLaunch {} twoReturnsCtx.kernel threeLaneLaunch = .ok threeLanePlan := by decide
  have hrun : WarpRun twoReturnsCtx (threeLaneWarp twoReturnsCtx 0)
      [⟨5, ⟨3, 1⟩, ⟨3, 0⟩, none⟩, ⟨4, ⟨3, 1⟩, ⟨3, 0⟩, none⟩,
        ⟨2, ⟨3, 7⟩, ⟨3, 0⟩, some ⟨2, 4, 6, ⟨3, 1⟩, ⟨3, 6⟩⟩⟩, ⟨1, ⟨3, 7⟩, ⟨3, 0⟩, none⟩,
        ⟨0, ⟨3, 7⟩, ⟨3, 0⟩, none⟩] (threeLaneWarp twoReturnsCtx 5) := by
    iterate 5
      refine threeLaneWarp_issue ?_ trivial (by decide) (by decide)
    exact .start
  obtain ⟨hapart, hcover, -⟩ := mask_partition hplan rfl (by decide) (.running hrun) (by decide)
  exact ⟨by decide, hapart, hcover⟩

end ProtoGpu

import ProtoGpu.Proof.Reconvergence

/-!
# The reconvergence law

One step keeps the levels of the stack and the frames of a split that is being followed; a run does
so by induction. The instruction at the reconvergence point is then issued to the lanes of the split
for the first time when the join of the split has been merged and is on top.
-/

namespace ProtoGpu

open PostDominance

/-- The warp's masks partition its lanes, and its frames stand above their joins. -/
structure ReconvInv (ctx : WarpContext) (pd : Nat → Set Nat) (initial : LaneMask)
    (w : WarpState) : Prop where
  warp : WarpInv ctx initial w
  levels : Levels ctx pd w.exited w.simtStack

/-- A lane that a branch sent one way or the other. -/
def PendingSplit.hasLane (split : PendingSplit) (lane : Nat) : Prop :=
  split.taken.has lane = true ∨ split.fallthrough.has lane = true

section Step

variable {ctx : WarpContext} {pd : Nat → Set Nat} {initial : LaneMask}

/-! ### Normalization -/

theorem normalizeStack_levels (hws : ctx.warpSize ≤ 32)
    (hpd : Solution (CfgEdge ctx.kernel ctx.registry ctx.warpSize) ctx.nInsts pd)
    {w w₁ : WarpState} (hdone : w.done = false) (h : ReconvInv ctx pd initial w)
    (hdue : ¬ InnerJoinDue ctx w.exited w.simtStack)
    (hnormalize : normalizeStack ctx w = (.ok .ready, w₁)) :
    ∃ lanes reconvPc rest, RunInv ctx initial lanes reconvPc rest w₁
      ∧ Levels ctx pd w₁.exited w₁.simtStack ∧ laneMaskEmpty w₁.active = false
      ∧ (w₁.pc < ctx.exitPc → w₁.pc ≠ reconvPc) := by
  obtain ⟨lanes, reconvPc, rest, hrun⟩ := normalizeStack_ready hws hdone h.warp hnormalize
  refine ⟨lanes, reconvPc, rest, hrun, ?_⟩
  have hwidth := h.warp.exitedFits.width
  have hstop := normalizeFrames_stopsAt
    (P := fun fs => StackInv ctx initial w.exited fs ∧ Levels ctx pd w.exited fs)
    (fun f fs hfs hempty => ⟨hfs.1.pop hws hwidth hempty, hfs.2.tail⟩)
    (fun f fs fs' hfs hlive hpath hpc hmerge =>
      ⟨hfs.1.merge hws hwidth hlive hpath hpc hmerge, hfs.2.merge hpd
        ((refresh_nonempty_iff hws hwidth (hfs.1.framesFit f (by simp))).mp hlive) hmerge⟩)
    (le_refl w.simtStack.length) ⟨h.warp.stack, h.levels⟩
  have hstack := hrun.stack
  unfold normalizeStack at hnormalize
  split at hnormalize
  next top rest' joined heq =>
    rw [heq] at hstop
    cases hnormalize
    rw [List.cons.injEq] at hstack
    have hreconv : top.reconvPc = reconvPc := by rw [hstack.1]
    refine ⟨?_, ?_, fun hlt hpc => hdue ?_⟩
    · obtain ⟨f, ⟨hfs, hlevels⟩, rfl, -, -, -⟩ := hstop
      have hholds : ∀ lane, SimtFrame.holds w.exited lane
          { f.refresh w.exited with isJoin := false } = f.holds w.exited lane := by
        intro lane
        simp only [SimtFrame.holds, has_refresh hws hwidth (hfs.framesFit f (by simp)),
          Bool.and_assoc, Bool.and_self]
      cases hlevels with
      | cons hway hpoint habove hrest =>
          refine .cons (fun lane hlane => hway lane ((hholds lane).symm.trans hlane)) hpoint
            (fun join hjoin hisJoin => ?_) hrest
          refine ⟨fun hruns => ?_, (habove join hjoin hisJoin).outer⟩
          obtain ⟨lane, hlane⟩ := hruns
          exact (habove join hjoin hisJoin).onWay ⟨lane, (hholds lane).symm.trans hlane⟩
    · obtain ⟨f, -, rfl, -, hlive, -⟩ := hstop
      exact hlive
    · exact innerJoinDue_of_ready hws h.warp heq (hpc.trans hreconv.symm) hlt
  · cases hnormalize
  · cases hnormalize

/-- A followed split is still followed, or its join is now on top with all that is left of it. -/
theorem normalizeStack_follows (hws : ctx.warpSize ≤ 32) {lanes : Nat → Prop} {r : Int}
    (hlanes : ∀ lane, lanes lane → initial.has lane = true) {w w₁ : WarpState}
    (h : WarpInv ctx initial w) (hfollows : Follows lanes r w.exited w.simtStack)
    (hnormalize : normalizeStack ctx w = (.ok .ready, w₁)) :
    (w₁.pc = r ∧ (∃ lane, lanes lane ∧ w₁.active.has lane = true)
        ∧ ∀ lane, lanes lane → w₁.exited.has lane = true ∨ w₁.active.has lane = true)
      ∨ Follows lanes r w₁.exited w₁.simtStack := by
  have hwidth := h.exitedFits.width
  have hstop := normalizeFrames_stopsAt
    (P := fun fs => StackInv ctx initial w.exited fs ∧ Follows lanes r w.exited fs)
    (fun f fs hfs hempty => ⟨hfs.1.pop hws hwidth hempty, hfs.2.pop hlanes hfs.1
      ((refresh_empty_iff hws hwidth (hfs.1.framesFit f (by simp))).mp hempty)⟩)
    (fun f fs fs' hfs hlive hpath hpc hmerge =>
      ⟨hfs.1.merge hws hwidth hlive hpath hpc hmerge,
        hfs.2.merge hws hwidth hfs.1 hlive hpath hpc hmerge⟩)
    (le_refl w.simtStack.length) ⟨h.stack, hfollows⟩
  unfold normalizeStack at hnormalize
  split at hnormalize
  next top rest joined heq =>
    rw [heq] at hstop
    cases hnormalize
    obtain ⟨f, ⟨hfs, hfollowed⟩, rfl, -, hlive, -⟩ := hstop
    have hhas := has_refresh hws hwidth (hfs.framesFit f (by simp))
    have hholds : ∀ lane, SimtFrame.holds w.exited lane
        { f.refresh w.exited with isJoin := false } = f.holds w.exited lane := by
      intro lane
      simp only [SimtFrame.holds, hhas, Bool.and_assoc, Bool.and_self]
    cases hfollowed with
    | returned hall => exact .inr (.returned hall)
    | waiting above below join hstack hjoin hpc hin hout =>
        cases above with
        | nil =>
            rw [List.nil_append, List.cons.injEq] at hstack
            obtain ⟨rfl, rfl⟩ := hstack
            refine .inl ⟨hpc, ?_, fun lane hlane => ?_⟩
            · obtain ⟨lane, hlane⟩ := laneMaskEmpty_eq_false_iff.mp hlive
              exact ⟨lane, hin f (by simp) lane ((hhas lane).symm.trans hlane), hlane⟩
            · have hcount := hfs.partition lane
              rw [holders_cons, hout lane hlane, hlanes lane hlane] at hcount
              change w.exited.has lane = true ∨ (f.refresh w.exited).active.has lane = true
              rw [hhas]
              by_contra hcon
              rw [not_or, Bool.not_eq_true, Bool.not_eq_true] at hcon
              simp [hcon.1, hcon.2] at hcount
        | cons g above =>
            rw [List.cons_append, List.cons.injEq] at hstack
            obtain ⟨rfl, rfl⟩ := hstack
            refine .inr (.waiting (_ :: above) below join rfl hjoin hpc
              (fun k hk lane hlane => ?_) hout)
            rcases List.mem_cons.mp hk with rfl | hk
            · exact hin f (by simp) lane ((hholds lane).symm.trans hlane)
            · exact hin k (List.mem_cons_of_mem _ hk) lane hlane
  · cases hnormalize
  · cases hnormalize

/-! ### Issuing -/

/-- What issuing an instruction does to the stack: the path on top is replaced by frames that hold
no other lanes, and those of a split hold all that have not returned. -/
theorem issueInst_levels (hws : ctx.warpSize ≤ 32)
    (hanalysis : analyzeControlFlow ctx.kernel ctx.registry ctx.warpSize = .ok ctx.reconvPc)
    (hpd : Solution (CfgEdge ctx.kernel ctx.registry ctx.warpSize) ctx.nInsts pd)
    (hipdom : ∀ (pc : Nat) (inst : InstRecord) (r : Int), ctx.kernel.insts[pc]? = some inst →
      ctx.reconvPc[pc]? = some (some r) → Immediate pd pc (nodeOf ctx.nInsts r))
    {lanes : Finset Nat} {reconvPc : Int} {rest : List SimtFrame} {w w' : WarpState}
    {mem mem' : MemState} {issue : Issue} (hrun : RunInv ctx initial lanes reconvPc rest w)
    (hlevels : Levels ctx pd w.exited w.simtStack) (hlive : laneMaskEmpty w.active = false)
    (hne : w.pc < ctx.exitPc → w.pc ≠ reconvPc)
    (hissue : issueInst ctx w mem = (.ok issue, w', mem')) :
    Levels ctx pd w'.exited w'.simtStack
      ∧ issue.pc = w.pc ∧ issue.active = w.active ∧ issue.exited = w.exited
      ∧ (∀ join ∈ rest, join.isJoin = true → join.pc ≠ w.pc)
      ∧ (∀ lane, w.exited.has lane = true → w'.exited.has lane = true)
      ∧ (∃ frames, w'.simtStack = frames ++ rest ∧ ∀ f ∈ frames, ∀ lane,
          f.holds w'.exited lane = true → w.active.has lane = true)
      ∧ ∀ split, issue.split = some split →
          (∀ lane, split.hasLane lane → initial.has lane = true)
          ∧ Follows split.hasLane split.reconvPc w'.exited w'.simtStack := by
  obtain ⟨inst, desc, guard, s, hdecoded, hloop, rfl, rfl, -⟩ := issueInst_ok hws hissue
  have hguards : ∀ uop ∈ guardedUops ctx inst desc guard, uop.guard.Fits ctx.warpSize := by
    intro uop huop
    rw [guard_of_mem_guardedUops huop]
    exact hdecoded.guarded.fits
  have hstart : IssueInv ctx initial lanes reconvPc rest { warp := w, mem := mem } :=
    ⟨hrun, by simp⟩
  obtain ⟨hend, hinv⟩ := hstart.loop hws hguards hloop
  have hshrinks := uopLoop_shrinks hws hguards hstart hloop
  obtain ⟨hpcEq, hreconvAt⟩ := split_reconvPc hrun.notDone (by simp) hloop
  obtain ⟨hleads, hleadsSplit⟩ :=
    issue_leads hws hanalysis hdecoded hrun.notDone hrun.activeFits hlive hloop
  have hlt : w.pc.toNat < ctx.nInsts := (List.getElem?_eq_some_iff.mp hdecoded.fetched).1
  have hltExit : w.pc < ctx.exitPc := by
    have hnonneg := hdecoded.pcNonneg
    rw [WarpContext.exitPc]
    omega
  rw [hrun.stack] at hlevels
  have hliveTop : ∃ lane, SimtFrame.holds w.exited lane
      { pc := w.pc, active := w.active, reconvPc := reconvPc } = true := by
    obtain ⟨lane, hlane⟩ := laneMaskEmpty_eq_false_iff.mp hlive
    exact ⟨lane, by simp [SimtFrame.holds, hlane, hrun.live lane hlane]⟩
  have hpcNe := hlevels.pc_ne hliveTop hdecoded.pcNonneg hlt (hne hltExit)
  have hreconvNe : nodeOf ctx.nInsts reconvPc ≠ nodeOf ctx.nInsts w.pc :=
    fun heq => hne hltExit (nodeOf_inj hdecoded.pcNonneg hlt heq).symm
  refine ⟨?levels, rfl, rfl, rfl, fun join hjoin hisJoin heq => ?joins, ?mono, ?frames, ?split⟩
  case joins => exact hpcNe join hjoin hisJoin (by rw [heq])
  case levels =>
    cases hs : s.split with
    | none =>
        rw [commit_uniform hend.notDone hend.stack]
        rw [hpcEq]
        exact hlevels.move hpd hliveTop hpcNe hreconvNe (hleads hs) hshrinks.exited
    | some split =>
        rw [commit_split hend.notDone hend.stack]
        have himm := hipdom _ _ _ hdecoded.fetched (hreconvAt split hs)
        rw [← hdecoded.nodeOf_pc] at himm
        obtain ⟨htaken, hfall⟩ := hleadsSplit split hs
        rw [hpcEq]
        exact hlevels.split hpd hliveTop hpcNe himm htaken hfall hshrinks.exited
  case mono =>
    intro lane hlane
    cases hs : s.split with
    | none =>
        rw [commit_uniform hend.notDone hend.stack]
        exact hshrinks.exited lane hlane
    | some split =>
        rw [commit_split hend.notDone hend.stack]
        exact hshrinks.exited lane hlane
  case frames =>
    cases hs : s.split with
    | none =>
        rw [commit_uniform hend.notDone hend.stack]
        refine ⟨[_], rfl, fun f hf lane hlane => ?_⟩
        rw [List.mem_singleton.mp hf, SimtFrame.holds, Bool.and_eq_true] at hlane
        exact hshrinks.active lane hlane.1
    | some split =>
        have hsplit := (hinv rfl).split split hs
        rw [commit_split hend.notDone hend.stack]
        refine ⟨_, rfl, fun f hf lane hlane => ?_⟩
        rw [SimtFrame.holds, Bool.and_eq_true, Bool.not_eq_true'] at hlane
        have hcover := hsplit.cover lane hlane.2
        refine hshrinks.active lane ?_
        simp only [splitFrames, List.mem_cons, List.not_mem_nil, or_false] at hf
        rcases hf with rfl | rfl | rfl
        · rw [show split.taken.has lane = true from hlane.1] at hcover
          cases hactive : s.warp.active.has lane with
          | true => rfl
          | false => simp [hactive] at hcover
        · rw [show split.fallthrough.has lane = true from hlane.1] at hcover
          cases hactive : s.warp.active.has lane with
          | true => rfl
          | false => simp [hactive] at hcover
        · simp [LaneMask.has] at hlane
  case split =>
    intro split hs
    change s.split = some split at hs
    have hsplit := (hinv rfl).split split hs
    have hsub := hend.below.subset
    rw [hs, commit_split hend.notDone hend.stack]
    refine ⟨fun lane hlane => ?_, .waiting [_, _] rest _ rfl rfl rfl ?_ fun lane hlane => ?_⟩
    · rcases hlane with hlane | hlane
      · exact LaneMask.mem_lanes.mp (hsub (hsplit.takenSubset.1 (LaneMask.mem_lanes.mpr hlane)))
      · exact LaneMask.mem_lanes.mp (hsub (hsplit.fallSubset.1 (LaneMask.mem_lanes.mpr hlane)))
    · intro f hf lane hlane
      simp only [SimtFrame.holds, Bool.and_eq_true] at hlane
      simp only [List.cons_append, List.nil_append, List.mem_cons, List.not_mem_nil,
        or_false] at hf
      rcases hf with rfl | rfl | rfl
      · exact .inl hlane.1
      · exact .inr hlane.1
      · simp [LaneMask.has] at hlane
    · -- the path held the lane, so no frame below it does
      cases hexited : s.warp.exited.has lane with
      | true => exact holders_eq_zero_of_exited hexited rest
      | false =>
          have hcover := hsplit.cover lane hexited
          have hcount := hend.partition lane
          have hle := Bool.toNat_le (initial.has lane)
          rw [hend.stack] at hcount
          simp only [holders_cons, SimtFrame.holds, hexited, Bool.not_false, Bool.and_true]
            at hcount
          change holders s.warp.exited lane rest = 0
          have hpos : 1 ≤ (split.taken.has lane).toNat + (split.fallthrough.has lane).toNat := by
            rcases hlane with hlane | hlane <;> rw [hlane, Bool.toNat_true] <;> omega
          omega

/-- The table's entries are immediate post-dominators. -/
theorem analyzeControlFlow_ipdom
    (hanalysis : analyzeControlFlow ctx.kernel ctx.registry ctx.warpSize = .ok ctx.reconvPc) :
    ∃ pd, Solution (CfgEdge ctx.kernel ctx.registry ctx.warpSize) ctx.nInsts pd
      ∧ ∀ (pc : Nat) (inst : InstRecord) (r : Int), ctx.kernel.insts[pc]? = some inst →
          ctx.reconvPc[pc]? = some (some r) → Immediate pd pc (nodeOf ctx.nInsts r) := by
  obtain ⟨pd, hpd, hinsts⟩ := analyzeControlFlow_ok hanalysis
  refine ⟨pd, hpd, fun pc inst r hinst hr => ?_⟩
  have hentry := (hinsts pc inst hinst).2
  split at hentry
  · obtain ⟨c, hc, hreconv, himm⟩ := hentry
    rw [hr] at hreconv
    cases hreconv
    have hnode : nodeOf ctx.nInsts (c : Int) = c := by
      unfold nodeOf
      have hle : c ≤ ctx.nInsts := hc
      split <;> omega
    rw [hnode]
    exact himm
  · rw [hr] at hentry
    cases hentry

/-- **The step lemma.** A step keeps the invariant and starts to follow its own split; a split
followed so far reconverges in this step or is followed on. -/
theorem warpStep_reconv (hws : ctx.warpSize ≤ 32)
    (hanalysis : analyzeControlFlow ctx.kernel ctx.registry ctx.warpSize = .ok ctx.reconvPc)
    (hpd : Solution (CfgEdge ctx.kernel ctx.registry ctx.warpSize) ctx.nInsts pd)
    (hipdom : ∀ (pc : Nat) (inst : InstRecord) (r : Int), ctx.kernel.insts[pc]? = some inst →
      ctx.reconvPc[pc]? = some (some r) → Immediate pd pc (nodeOf ctx.nInsts r))
    {w w' : WarpState} {mem mem' : MemState} {issue : Issue} (h : ReconvInv ctx pd initial w)
    (hdone : w.done = false) (hdue : ¬ InnerJoinDue ctx w.exited w.simtStack)
    (hstep : warpStep ctx w mem = (.ok (.issued issue), w', mem')) :
    ReconvInv ctx pd initial w'
      ∧ (∀ split, issue.split = some split →
          (∀ lane, split.hasLane lane → initial.has lane = true)
          ∧ Follows split.hasLane split.reconvPc w'.exited w'.simtStack)
      ∧ ∀ (lanes : Nat → Prop) (r : Int), (∀ lane, lanes lane → initial.has lane = true) →
          Follows lanes r w.exited w.simtStack →
          (issue.pc = r ∧ (∃ lane, lanes lane ∧ issue.active.has lane = true)
              ∧ ∀ lane, lanes lane →
                  issue.exited.has lane = true ∨ issue.active.has lane = true)
            ∨ (Follows lanes r w'.exited w'.simtStack
              ∧ (issue.pc = r → ∀ lane, lanes lane → issue.active.has lane = false)) := by
  obtain ⟨w₁, hnormalize, hissue⟩ := warpStep_issued hstep
  obtain ⟨path, reconvPc, rest, hrun, hlevels, hlive, hne⟩ :=
    normalizeStack_levels hws hpd hdone h hdue hnormalize
  obtain ⟨hlevels', hpc, hactive, hexited, hjoins, hmono, ⟨frames, hstack', hframes⟩, hsplit⟩ :=
    issueInst_levels hws hanalysis hpd hipdom hrun hlevels hlive hne hissue
  refine ⟨⟨warpStep_inv hws h.warp hdone hstep (by simp), hlevels'⟩, hsplit,
    fun lanes r hlanes hfollows => ?_⟩
  rw [hpc, hactive, hexited]
  rcases normalizeStack_follows hws hlanes h.warp hfollows hnormalize with hmerged | hfollows₁
  · exact .inl hmerged
  · refine .inr ⟨?_, fun heq lane hlane => ?_⟩
    · rw [hrun.stack] at hfollows₁
      rw [hstack']
      refine hfollows₁.replace rfl hmono fun f hf lane hholds => ?_
      have hlane := hframes f hf lane hholds
      simp only [SimtFrame.holds, Bool.and_eq_true, Bool.not_eq_true']
      exact ⟨hlane, hrun.live lane hlane⟩
    · -- only a split that has returned leaves the path free to be where its join waits
      rw [hrun.stack] at hfollows₁
      cases hfollows₁ with
      | returned hall =>
          cases hhas : w₁.active.has lane with
          | false => rfl
          | true =>
              have hlive' := hrun.live lane hhas
              rw [hall lane hlane] at hlive'
              cases hlive'
      | waiting above below join hfs hjoin hjoinPc hin hout =>
          exfalso
          cases above with
          | nil =>
              rw [List.nil_append, List.cons.injEq] at hfs
              rw [← hfs.1] at hjoin
              cases hjoin
          | cons g above =>
              rw [List.cons_append, List.cons.injEq] at hfs
              obtain ⟨-, rfl⟩ := hfs
              exact hjoins join (by simp) hjoin (hjoinPc.trans heq.symm)

/-! ### Runs -/

/-- The steps that do not start with an inner join due. -/
def NoInnerJoinDue (ctx : WarpContext) (w : WarpState) : Prop :=
  ¬ InnerJoinDue ctx w.exited w.simtStack

theorem warpRun_reconv (hws : ctx.warpSize ≤ 32)
    (hanalysis : analyzeControlFlow ctx.kernel ctx.registry ctx.warpSize = .ok ctx.reconvPc)
    (hpd : Solution (CfgEdge ctx.kernel ctx.registry ctx.warpSize) ctx.nInsts pd)
    (hipdom : ∀ (pc : Nat) (inst : InstRecord) (r : Int), ctx.kernel.insts[pc]? = some inst →
      ctx.reconvPc[pc]? = some (some r) → Immediate pd pc (nodeOf ctx.nInsts r))
    {w₀ w : WarpState} {trace : List Issue} (h₀ : ReconvInv ctx pd initial w₀)
    (hrun : WarpRunWhen ctx (NoInnerJoinDue ctx) w₀ trace w) (hdone : w.done = false) :
    ReconvInv ctx pd initial w := by
  induction hrun with
  | start => exact h₀
  | issue hrun hdone' hdue hstep ih =>
      exact (warpStep_reconv hws hanalysis hpd hipdom (ih hdone') hdone' hdue hstep).1
  | retire hrun hdone' hdue hstep ih =>
      have hretired := normalizeStack_retired hws (ih hdone').warp (warpStep_retired hstep).1
      rw [hretired.2.1] at hdone
      cases hdone

/-- A split is followed as long as its reconvergence point is not issued to its lanes. -/
theorem warpRun_follows (hws : ctx.warpSize ≤ 32)
    (hanalysis : analyzeControlFlow ctx.kernel ctx.registry ctx.warpSize = .ok ctx.reconvPc)
    (hpd : Solution (CfgEdge ctx.kernel ctx.registry ctx.warpSize) ctx.nInsts pd)
    (hipdom : ∀ (pc : Nat) (inst : InstRecord) (r : Int), ctx.kernel.insts[pc]? = some inst →
      ctx.reconvPc[pc]? = some (some r) → Immediate pd pc (nodeOf ctx.nInsts r))
    {w₀ w : WarpState} {trace mid pre : List Issue} {branch : Issue} {split : PendingSplit}
    (h₀ : ReconvInv ctx pd initial w₀)
    (hrun : WarpRunWhen ctx (NoInnerJoinDue ctx) w₀ trace w) (hdone : w.done = false)
    (htrace : trace = mid ++ branch :: pre) (hsplit : branch.split = some split)
    (hmid : ∀ m ∈ mid, m.pc = split.reconvPc → ∀ lane, split.hasLane lane →
      m.active.has lane = false) :
    (∀ lane, split.hasLane lane → initial.has lane = true)
      ∧ Follows split.hasLane split.reconvPc w.exited w.simtStack := by
  induction hrun generalizing mid with
  | start => simp at htrace
  | issue hrun hdone' hdue hstep ih =>
      have hinv := warpRun_reconv hws hanalysis hpd hipdom h₀ hrun hdone'
      obtain ⟨-, hnew, hold⟩ := warpStep_reconv hws hanalysis hpd hipdom hinv hdone' hdue hstep
      cases mid with
      | nil =>
          rw [List.nil_append, List.cons.injEq] at htrace
          obtain ⟨rfl, rfl⟩ := htrace
          exact hnew split hsplit
      | cons m mid =>
          rw [List.cons_append, List.cons.injEq] at htrace
          obtain ⟨rfl, htrace⟩ := htrace
          obtain ⟨hlanes, hfollows⟩ := ih hdone' htrace fun k hk => hmid k (by simp [hk])
          refine ⟨hlanes, ?_⟩
          rcases hold _ _ hlanes hfollows with ⟨hpc, ⟨lane, hlane, hactive⟩, -⟩ | ⟨hfollows', -⟩
          · rw [hmid _ (by simp) hpc lane hlane] at hactive
            cases hactive
          · exact hfollows'
  | retire hrun hdone' hdue hstep ih =>
      have hinv := warpRun_reconv hws hanalysis hpd hipdom h₀ hrun hdone'
      have hretired := normalizeStack_retired hws hinv.warp (warpStep_retired hstep).1
      rw [hretired.2.1] at hdone
      cases hdone

/-- The law, of the trace of a run (the latest issue first): where the instruction at a split's
reconvergence point is issued to a lane of the split for the first time since, every lane of the
split has returned or is in that issue's mask. -/
def ReconvergenceLaw (ctx : WarpContext) (trace : List Issue) : Prop :=
  ∀ (post mid pre : List Issue) (issue branch : Issue) (split : PendingSplit),
    trace = post ++ issue :: (mid ++ branch :: pre) →
    branch.split = some split → split.reconvPc < ctx.exitPc →
    issue.pc = split.reconvPc → (∃ lane, split.hasLane lane ∧ issue.active.has lane = true) →
    (∀ m ∈ mid, m.pc = split.reconvPc → ∀ lane, split.hasLane lane → m.active.has lane = false) →
    ∀ lane, split.hasLane lane → issue.exited.has lane = true ∨ issue.active.has lane = true

theorem reconvergenceLaw_of_inv (hws : ctx.warpSize ≤ 32)
    (hanalysis : analyzeControlFlow ctx.kernel ctx.registry ctx.warpSize = .ok ctx.reconvPc)
    (hpd : Solution (CfgEdge ctx.kernel ctx.registry ctx.warpSize) ctx.nInsts pd)
    (hipdom : ∀ (pc : Nat) (inst : InstRecord) (r : Int), ctx.kernel.insts[pc]? = some inst →
      ctx.reconvPc[pc]? = some (some r) → Immediate pd pc (nodeOf ctx.nInsts r))
    {w₀ w : WarpState} {trace : List Issue} (h₀ : ReconvInv ctx pd initial w₀)
    (hrun : WarpRunWhen ctx (NoInnerJoinDue ctx) w₀ trace w) : ReconvergenceLaw ctx trace := by
  intro post mid pre issue branch split htrace hsplit _ hpc hlive hmid
  induction hrun generalizing post with
  | start => simp at htrace
  | issue hrun hdone hdue hstep ih =>
      cases post with
      | nil =>
          rw [List.nil_append, List.cons.injEq] at htrace
          obtain ⟨rfl, htrace⟩ := htrace
          have hinv := warpRun_reconv hws hanalysis hpd hipdom h₀ hrun hdone
          obtain ⟨hlanes, hfollows⟩ :=
            warpRun_follows hws hanalysis hpd hipdom h₀ hrun hdone htrace hsplit hmid
          obtain ⟨-, -, hold⟩ := warpStep_reconv hws hanalysis hpd hipdom hinv hdone hdue hstep
          rcases hold _ _ hlanes hfollows with ⟨-, -, hall⟩ | ⟨-, hnone⟩
          · exact hall
          · obtain ⟨lane, hlane, hactive⟩ := hlive
            rw [hnone hpc lane hlane] at hactive
            cases hactive
      | cons p post =>
          rw [List.cons_append, List.cons.injEq] at htrace
          exact ih post htrace.2
  | retire hrun hdone hdue hstep ih => exact ih post htrace

end Step

theorem initWarp_levels {ctx : WarpContext} {pd : Nat → Set Nat}
    (hpd : Solution (CfgEdge ctx.kernel ctx.registry ctx.warpSize) ctx.nInsts pd)
    (launch : LaunchConfig) (plan : LaunchPlan) (item : CtaWorkItem) (w : BitVec 32) :
    Levels ctx pd (initWarp ctx.kernel launch plan item w).exited
      (initWarp ctx.kernel launch plan item w).simtStack := by
  refine .cons (fun _ _ => ?_) (.inl rfl) (by simp) .nil
  change nodeOf ctx.nInsts ((ctx.nInsts : Nat) : Int) ∈ _
  rw [nodeOf_self]
  exact hpd.exit_mem _

/-- **The reconvergence law**, in every run of a warp of a launch no step of which starts with an
inner join due. -/
theorem reconvergence_law {cfg : SimConfig} {ctx : WarpContext} {launch : LaunchConfig}
    {plan : LaunchPlan} {item : CtaWorkItem} {w : BitVec 32} {trace : List Issue}
    {warp : WarpState} (hplan : checkLaunch cfg ctx.kernel launch = .ok plan)
    (hws : ctx.warpSize = plan.warpSize) (hw : w.toNat < plan.warpCount)
    (hanalysis : analyzeControlFlow ctx.kernel ctx.registry ctx.warpSize = .ok ctx.reconvPc)
    (hrun : WarpRunWhen ctx (NoInnerJoinDue ctx) (initWarp ctx.kernel launch plan item w) trace
      warp) : ReconvergenceLaw ctx trace := by
  have hchecked := checkLaunch_ok hplan
  obtain ⟨pd, hpd, hipdom⟩ := analyzeControlFlow_ipdom hanalysis
  exact reconvergenceLaw_of_inv (hws ▸ hchecked.warpSizeLe) hanalysis hpd hipdom
    ⟨initWarp_inv hchecked hw hws item, initWarp_levels hpd launch plan item w⟩ hrun

/-! ### One branch, and two that meet at one point -/

/-- `if (lane < 1 || lane < 2) goto 5`, two branches with the `ret` at `5` as their reconvergence
point. -/
def sharedJoinCtx : WarpContext where
  kernel := { insts := [movLaneid 0, setpLt 0 0 1, braIf 0 5, setpLt 1 0 2, braIf 1 5, retInst] }
  registry := demoDescs
  warpSize := 3
  reconvPc := [none, none, some 5, none, some 5, none]
  floatOps := .unused

/-- No join of the stack waits at its own reconvergence point. -/
theorem noInnerJoinDue_of_joins {ctx : WarpContext} {w : WarpState}
    (h : ∀ f ∈ w.simtStack, f.isJoin = true → f.pc ≠ f.reconvPc) : NoInnerJoinDue ctx w := by
  rintro ⟨above, join, below, hstack, hjoin, hpc, -⟩
  exact h join (by simp [hstack]) hjoin hpc

theorem reconvergence_law_one_join :
    ReconvergenceLaw oneJoinCtx
      [ ⟨4, ⟨3, 7⟩, ⟨3, 0⟩, none⟩, ⟨3, ⟨3, 6⟩, ⟨3, 0⟩, none⟩,
        ⟨2, ⟨3, 7⟩, ⟨3, 0⟩, some ⟨2, 4, 4, ⟨3, 1⟩, ⟨3, 6⟩⟩⟩, ⟨1, ⟨3, 7⟩, ⟨3, 0⟩, none⟩,
        ⟨0, ⟨3, 7⟩, ⟨3, 0⟩, none⟩ ] := by
  have hplan : checkLaunch {} oneJoinCtx.kernel threeLaneLaunch = .ok threeLanePlan := by decide
  refine reconvergence_law hplan rfl (by decide) (by decide)
    (?_ : WarpRunWhen _ _ (initWarp _ _ _ {} 0) _ (threeLaneWarp oneJoinCtx 5))
  iterate 5
    refine threeLaneWarp_issue ?_ (noInnerJoinDue_of_joins (by decide)) (by decide) (by decide)
  exact .start

/-- The law fails of the second kernel: the inner join runs the `ret` for two lanes of the outer
split, whose third lane waits at the same point. -/
theorem shared_join_issues_part :
    checkLaunch {} sharedJoinCtx.kernel threeLaneLaunch = .ok threeLanePlan
      ∧ analyzeControlFlow sharedJoinCtx.kernel sharedJoinCtx.registry 3
          = .ok sharedJoinCtx.reconvPc
      ∧ ¬ ∀ trace warp, WarpRun sharedJoinCtx (threeLaneWarp sharedJoinCtx 0) trace warp →
          ReconvergenceLaw sharedJoinCtx trace := by
  refine ⟨by decide, by decide, fun hclaim => ?_⟩
  let branch : Issue := ⟨2, ⟨3, 7⟩, ⟨3, 0⟩, some ⟨2, 5, 5, ⟨3, 1⟩, ⟨3, 6⟩⟩⟩
  let issue : Issue := ⟨5, ⟨3, 6⟩, ⟨3, 0⟩, none⟩
  let mid : List Issue :=
    [⟨4, ⟨3, 6⟩, ⟨3, 0⟩, some ⟨4, 5, 5, ⟨3, 2⟩, ⟨3, 4⟩⟩⟩, ⟨3, ⟨3, 6⟩, ⟨3, 0⟩, none⟩]
  let pre : List Issue := [⟨1, ⟨3, 7⟩, ⟨3, 0⟩, none⟩, ⟨0, ⟨3, 7⟩, ⟨3, 0⟩, none⟩]
  have hrun : WarpRun sharedJoinCtx (threeLaneWarp sharedJoinCtx 0)
      (issue :: (mid ++ branch :: pre)) (threeLaneWarp sharedJoinCtx 6) := by
    iterate 6
      refine threeLaneWarp_issue ?_ trivial (by decide) (by decide)
    exact .start
  have hlane := hclaim _ _ hrun [] mid pre issue branch _ rfl rfl (by decide) rfl
    ⟨1, .inr (by decide), by decide⟩ (by simp [mid]) 0 (.inl (by decide))
  revert hlane
  decide

end ProtoGpu

import ProtoGpu.Proof.LaneRun
import ProtoGpu.Proof.MaskPartition
import ProtoGpu.Proof.Successors

/-!
# A warp simulates its lanes

Every lane that has not returned waits in one frame of the warp, and its own run has reached that
frame's program counter with the lane's registers. One step of the warp takes one step of the own
run of each lane it issues for, so the steps the own runs have left decrease with every step.
-/

namespace ProtoGpu

/-- The warp after the micro-ops of an instruction. -/
def after (ctx : WarpContext) (s : IssueState) : WarpState := commit ctx s.nextPc s.split s.warp

theorem SameLane.reframe {warpSize lane : Nat} {w w' : WarpState} (h : SameLane warpSize lane w w')
    {pc pc' : Int} {active active' exited exited' : LaneMask} {stack stack' : List SimtFrame}
    (hwidth : active.width = warpSize) (hwidth' : active'.width = warpSize) :
    SameLane warpSize lane
      { w with pc := pc, active := active, exited := exited, simtStack := stack }
      { w' with pc := pc', active := active', exited := exited', simtStack := stack' } :=
  { h with
    width := hwidth
    width' := hwidth'
    regs := ⟨h.regs.rU32, h.regs.rU64, h.regs.p⟩ }

/-- The frames of a path over `rest` that hold a lane of the path do not hold it below. -/
theorem RunInv.not_below {ctx : WarpContext} {initial : LaneMask} {lanes : Finset Nat}
    {reconvPc : Int} {rest : List SimtFrame} {w : WarpState}
    (h : RunInv ctx initial lanes reconvPc rest w) {lane : Nat} {f : SimtFrame} (hf : f ∈ rest)
    (hlane : f.holds w.exited lane = true) : w.active.has lane = false := by
  by_contra hcon
  have hactive : w.active.has lane = true := by simpa using hcon
  have hcount := h.partition lane
  have hpos := holders_pos_iff.mpr ⟨f, hf, hlane⟩
  have hle := Bool.toNat_le (initial.has lane)
  rw [h.stack, holders_cons, SimtFrame.holds, hactive, h.live lane hactive] at hcount
  simp only [Bool.not_false, Bool.and_self, Bool.toNat_true, Bool.toNat_false] at hcount
  omega

/-- One instruction of a normalized warp, with the guards and the outcome of its micro-ops at each
active lane alone. -/
structure OwnIssues (ctx : WarpContext) (w : WarpState) (mem : MemState) (inst : InstRecord)
    (desc : InstDesc) (guard : LaneMask) (own : Nat → WarpState) (ownGuard : Nat → LaneMask)
    (next : Nat → IssueState) : Prop where
  decoded : Decoded ctx w inst desc guard
  at_pc : ∀ lane, w.active.has lane = true → OneLane ctx lane w.pc (own lane)
  same : ∀ lane, w.active.has lane = true →
    SameLane ctx.warpSize lane w (atPc ctx lane w.pc (own lane))
  ownFits : ∀ lane, w.active.has lane = true → (ownGuard lane).Fits ctx.warpSize
  guards : ∀ lane, w.active.has lane = true → (ownGuard lane).has lane = guard.has lane
  loops : ∀ lane, w.active.has lane = true →
    uopLoop ctx inst (guardedUops ctx inst desc (ownGuard lane))
      { warp := atPc ctx lane w.pc (own lane), mem := mem } = (none, next lane)

/-- What the instruction has done in the warp, next to what it has done at each active lane alone:
the lane has moved to the frame that holds it, or has returned. -/
structure LanesMoved (ctx : WarpContext) (w : WarpState) (rest : List SimtFrame) (mem : MemState)
    (next : Nat → IssueState) (s : IssueState) : Prop where
  memory : s.mem = mem
  ownMemory : ∀ lane, w.active.has lane = true → (next lane).mem = mem
  moved : ∀ f ∈ (after ctx s).simtStack, ∀ lane, f.holds (after ctx s).exited lane = true →
    w.active.has lane = true → OneLane ctx lane f.pc (after ctx (next lane))
  kept : ∀ f ∈ (after ctx s).simtStack, ∀ lane, f.holds (after ctx s).exited lane = true →
    w.active.has lane = false → f ∈ rest ∧ f.holds w.exited lane = true
  exited : ∀ lane, (after ctx s).exited.has lane = true →
    w.exited.has lane = true ∨ w.active.has lane = true ∧ LaneReturned (after ctx (next lane))
  same : ∀ lane, w.active.has lane = true →
    SameLane ctx.warpSize lane (after ctx s) (after ctx (next lane))
  others : ∀ lane t, w.active.has lane = false → SameLane ctx.warpSize lane w t →
    SameLane ctx.warpSize lane (after ctx s) t

/-! ### A lane alone moves on -/

section Alone

variable {ctx : WarpContext} {lane : Nat} {pc : Int} {own w : WarpState}

/-- Where the micro-ops of a lane alone left its frame, the lane goes to `next_pc`. -/
theorem OneLane.commit (h : OneLane ctx lane pc own) (hregs : OnlyRegs (atPc ctx lane pc own) w)
    (nextPc : Option Int) :
    OneLane ctx lane (nextPc.getD (pc + 1)) (ProtoGpu.commit ctx nextPc none w)
      ∧ ∀ x, SameLane ctx.warpSize lane x w →
          SameLane ctx.warpSize lane x (ProtoGpu.commit ctx nextPc none w) := by
  obtain ⟨hpc, hdone, -, hexited, hstack⟩ := hregs.frame
  rw [commit_uniform (hdone.trans h.notDone) (hstack.trans h.stack), hpc]
  exact ⟨⟨hdone.trans h.notDone, rfl, hexited.trans h.exited⟩, fun x hx => hx.reframe hx.width rfl⟩

end Alone

section Kinds

variable {ctx : WarpContext} {initial : LaneMask} {lanes : Finset Nat} {reconvPc : Int}
  {rest : List SimtFrame} {w : WarpState} {mem : MemState} {inst : InstRecord} {desc : InstDesc}
  {guard : LaneMask} {own : Nat → WarpState} {ownGuard : Nat → LaneMask} {next : Nat → IssueState}

/-- The frames that replace the top frame hold the lanes of the path; the others stay. -/
theorem LanesMoved.of_paths (hrun : RunInv ctx initial lanes reconvPc rest w) {s : IssueState}
    {w' : WarpState} {paths : List SimtFrame} {pc : Int} {active exited : LaneMask}
    (hafter : after ctx s =
      { w' with pc := pc, active := active, exited := exited, simtStack := paths ++ rest })
    (hwidth : active.width = ctx.warpSize) (hmemory : s.mem = mem)
    (hownMemory : ∀ lane, w.active.has lane = true → (next lane).mem = mem)
    (hmono : ∀ lane, w.exited.has lane = true → exited.has lane = true)
    (hexited : ∀ lane, exited.has lane = true →
      w.exited.has lane = true ∨ w.active.has lane = true ∧ LaneReturned (after ctx (next lane)))
    (hpaths : ∀ f ∈ paths, ∀ lane, f.holds exited lane = true →
      w.active.has lane = true ∧ OneLane ctx lane f.pc (after ctx (next lane)))
    (hsame : ∀ lane, w.active.has lane = true →
      SameLane ctx.warpSize lane w' (after ctx (next lane)))
    (hothers : ∀ lane t, w.active.has lane = false → SameLane ctx.warpSize lane w t →
      SameLane ctx.warpSize lane w' t) : LanesMoved ctx w rest mem next s := by
  refine ⟨hmemory, hownMemory, ?_, ?_, ?_, ?_, ?_⟩
  · rw [hafter]
    intro f hf lane hlane hactive
    rcases List.mem_append.mp hf with hf | hf
    · exact (hpaths f hf lane hlane).2
    · rw [hrun.not_below hf (holds_of_holds (hmono lane) hlane)] at hactive
      cases hactive
  · rw [hafter]
    intro f hf lane hlane hactive
    rcases List.mem_append.mp hf with hf | hf
    · rw [(hpaths f hf lane hlane).1] at hactive
      cases hactive
    · exact ⟨hf, holds_of_holds (hmono lane) hlane⟩
  · rw [hafter]
    exact hexited
  · intro lane hlane
    rw [hafter]
    exact (hsame lane hlane).reframe hwidth (hsame lane hlane).width'
  · intro lane t hlane hsame
    rw [hafter]
    exact (hothers lane t hlane hsame).reframe hwidth hsame.width'

/-! ### Registers only -/

theorem OwnIssues.laneWise (hws : ctx.warpSize ≤ 32)
    (hrun : RunInv ctx initial lanes reconvPc rest w) (hlive : ∃ lane, w.active.has lane = true)
    (hpc : RegsAligned ctx w.pc) (hu : ∀ u ∈ expand inst desc ctx.warpSize, u.LaneWise)
    (h : OwnIssues ctx w mem inst desc guard own ownGuard next) :
    ∃ s, uopLoop ctx inst (guardedUops ctx inst desc guard) { warp := w, mem := mem } = (none, s)
      ∧ LanesMoved ctx w rest mem next s := by
  have hops := (hpc inst h.decoded.fetched).1
  have halone : LanesAlone ctx.warpSize { warp := w, mem := mem }
      fun lane => { warp := atPc ctx lane w.pc (own lane), mem := mem } :=
    ⟨hrun.activeFits, h.same, fun _ _ => rfl, fun _ _ => rfl⟩
  obtain ⟨w', hloop, honly, hlanes, hothers⟩ := uopLoop_lanes hws hu
    (fun u hu => ⟨fun o ho => (hops o ((operands_of_mem_expand hu).1 o ho)).aligned,
      fun o ho => (hops o ((operands_of_mem_expand hu).2 o ho)).aligned⟩) halone hlive
        h.guards h.loops
  have hown : ∀ lane, w.active.has lane = true →
      OnlyRegs (atPc ctx lane w.pc (own lane)) (next lane).warp
        ∧ next lane = { warp := (next lane).warp, mem := mem } := by
    intro lane hlane
    refine uopLoop_laneWise (fun u hu' => ?_) (h.loops lane hlane)
    obtain ⟨v, hv, rfl⟩ := List.mem_map.mp hu'
    exact hu v hv
  have hmove : ∀ lane, w.active.has lane = true →
      OneLane ctx lane (w.pc + 1) (after ctx (next lane))
        ∧ ∀ x, SameLane ctx.warpSize lane x (next lane).warp →
            SameLane ctx.warpSize lane x (after ctx (next lane)) := by
    intro lane hlane
    obtain ⟨honly, heq⟩ := hown lane hlane
    rw [heq]
    exact (h.at_pc lane hlane).commit honly none
  obtain ⟨hpc', hdone, hactive, hexited, hstack⟩ := honly.frame
  have hafter : after ctx { warp := w', mem := mem } =
      { w' with
        pc := w.pc + 1, active := w.active, exited := w.exited
        simtStack := [{ pc := w.pc + 1, active := w.active, reconvPc := reconvPc }] ++ rest } := by
    rw [after, commit_uniform (hdone.trans hrun.notDone) (hstack.trans hrun.stack), hpc', ← hexited]
    rfl
  refine ⟨_, hloop, .of_paths hrun hafter hrun.activeFits.width rfl ?_ (fun _ => id)
    (fun _ => .inl) ?_ ?_ hothers⟩
  · intro lane hlane
    rw [(hown lane hlane).2]
  · intro f hf lane hlane
    obtain rfl := List.mem_singleton.mp hf
    simp only [SimtFrame.holds, Bool.and_eq_true] at hlane
    exact ⟨hlane.1, (hmove lane hlane.1).1⟩
  · intro lane hlane
    exact (hmove lane hlane).2 _ (hlanes.same lane (by rw [hactive]; exact hlane))

/-! ### A return -/

/-- A `RET` moves the guarded lanes of a path to `exited`, and the path goes on without them. -/
theorem ctrlRet_after (hws : ctx.warpSize ≤ 32) (mem : MemState) (u : MicroOp) {w : WarpState}
    (hdone : w.done = false) (hactive : w.active.Fits ctx.warpSize)
    (hstack : w.simtStack =
      { pc := w.pc, active := w.active, reconvPc := reconvPc, isJoin := false } :: rest) :
    ∃ active exited, after ctx (ctrlRet u { warp := w, mem := mem }) =
        { w with
          pc := w.pc + 1, active := active, exited := exited
          simtStack := [{ pc := w.pc + 1, active := active, reconvPc := reconvPc }] ++ rest }
      ∧ active.width = ctx.warpSize ∧ exited.width = w.exited.width
      ∧ (∀ lane, active.has lane = (w.active.has lane && !u.guard.has lane))
      ∧ ∀ lane, exited.has lane = (w.exited.has lane || w.active.has lane && u.guard.has lane) := by
  by_cases hmask : (laneMaskAnd w.active u.guard).bitsLo = 0#32
  · have hnone : ∀ lane, (w.active.has lane && u.guard.has lane) = false := by
      intro lane
      rw [← has_laneMaskAnd]
      exact laneMaskEmpty_iff.mp (by simpa [laneMaskEmpty] using hmask) lane
    refine ⟨w.active, w.exited, ?_, hactive.width, rfl, fun lane => ?_, fun lane => ?_⟩
    · simp only [after, ctrlRet, hmask, if_true]
      exact commit_uniform hdone hstack
    · have h := hnone lane
      revert h
      cases w.active.has lane <;> cases u.guard.has lane <;> simp
    · rw [hnone, Bool.or_false]
  · refine ⟨laneMaskAnd w.active (laneMaskNotWidth (laneMaskAnd w.active u.guard)),
      laneMaskOrSameWidth w.exited (laneMaskAnd w.active u.guard), ?_, hactive.width, rfl,
      fun lane => ?_, fun lane => ?_⟩
    · simp only [after, ctrlRet, hmask, if_false, hstack, commit, hdone, Bool.false_eq_true,
        commitStack, Option.getD_none, List.cons_append, List.nil_append]
    · rw [has_and_not hws hactive.and.width hactive, has_laneMaskAnd]
      cases w.active.has lane <;> simp
    · rw [has_laneMaskOrSameWidth, has_laneMaskAnd]

theorem OwnIssues.ret (hws : ctx.warpSize ≤ 32)
    (hrun : RunInv ctx initial lanes reconvPc rest w) {u : MicroOp}
    (hexpand : expand inst desc ctx.warpSize = [u]) (hkind : u.kind = .control) (hop : u.op = .ret)
    (h : OwnIssues ctx w mem inst desc guard own ownGuard next) :
    ∃ s, uopLoop ctx inst (guardedUops ctx inst desc guard) { warp := w, mem := mem } = (none, s)
      ∧ LanesMoved ctx w rest mem next s := by
  have hloop : ∀ (g : LaneMask) (s : IssueState),
      uopLoop ctx inst (guardedUops ctx inst desc g) s
        = (none, ctrlRet { u with guard := g } s) := by
    intro g s
    simp only [guardedUops, hexpand, List.map_cons, List.map_nil, uopLoop, uopStep, hkind, hop,
      if_true]
  have hctrl : ∀ (v : MicroOp) (s : IssueState), (ctrlRet v s).mem = s.mem := by
    intro v s
    unfold ctrlRet
    dsimp only
    repeat' split
    all_goals rfl
  have hnext : ∀ lane, w.active.has lane = true → next lane = ctrlRet
      { u with guard := ownGuard lane } { warp := atPc ctx lane w.pc (own lane), mem := mem } := by
    intro lane hlane
    have hown := h.loops lane hlane
    rw [hloop] at hown
    exact (congrArg Prod.snd hown).symm
  -- a lane alone returns where its guard is set, and goes on where it is not
  have hmove : ∀ lane, w.active.has lane = true →
      (if guard.has lane = true then LaneReturned (after ctx (next lane))
        else OneLane ctx lane (w.pc + 1) (after ctx (next lane)))
      ∧ ∀ x, SameLane ctx.warpSize lane x (atPc ctx lane w.pc (own lane)) →
          SameLane ctx.warpSize lane x (after ctx (next lane)) := by
    intro lane hlane
    have hat := h.at_pc lane hlane
    have hlt := (h.same lane hlane).lane_lt
    have hfits := laneOnly_fits hws hlt
    obtain ⟨active, exited, heq, hwidth, hexitedWidth, hactive, hexited⟩ :=
      ctrlRet_after hws mem { u with guard := ownGuard lane } (w := atPc ctx lane w.pc (own lane))
        hat.notDone hfits hat.stack
    rw [hnext lane hlane, heq]
    refine ⟨?_, fun x hx => hx.reframe hx.width hwidth⟩
    have hzero : ∀ i, (own lane).exited.has i = false := by
      intro i
      simp [hat.exited, LaneMask.has]
    simp only [atPc, has_laneOnly (show lane < 32 by omega), hzero, Bool.false_or]
      at hactive hexited
    split
    next hguard =>
      refine ⟨hat.notDone, _, rfl, ?_⟩
      have hexitedWidth' : exited.width = ctx.warpSize := by
        rw [hexitedWidth, atPc, hat.exited]
      rw [refresh_empty_iff hws hexitedWidth' ⟨hwidth, fun i hi => ?_⟩]
      · intro i
        simp only [SimtFrame.holds, hactive, hexited]
        by_cases hi : i = lane
        · simp [hi, h.guards lane hlane, hguard]
        · simp [hi]
      · rw [hactive, Bool.and_eq_true, decide_eq_true_eq] at hi
        exact hi.1 ▸ hlt
    next hguard =>
      have hoff : (ownGuard lane).has lane = false := by
        rw [h.guards lane hlane]
        simpa using hguard
      have hactiveEq : active = laneOnly ctx.warpSize lane := by
        refine LaneMask.ext_has hwidth fun i => ?_
        rw [hactive, has_laneOnly (by omega)]
        by_cases hi : i = lane
        · simp [hi, hoff]
        · simp [hi]
      have hexitedEq : exited = { width := ctx.warpSize, bitsLo := 0 } := by
        refine LaneMask.ext_has (by rw [hexitedWidth, atPc, hat.exited]) fun i => ?_
        have hnone : LaneMask.has { width := ctx.warpSize, bitsLo := 0 } i = false := by
          simp [LaneMask.has]
        rw [hexited, hnone]
        by_cases hi : i = lane
        · simp [hi, hoff]
        · simp [hi]
      exact ⟨hat.notDone, by rw [hactiveEq]; rfl, hexitedEq⟩
  obtain ⟨active, exited, hafter, hwidth, -, hactive, hexited⟩ :=
    ctrlRet_after hws mem { u with guard := guard } hrun.notDone hrun.activeFits hrun.stack
  refine ⟨_, hloop guard _, .of_paths hrun hafter hwidth (hctrl _ _) (fun lane hlane => ?_)
    (fun lane hlane => ?_) (fun lane hlane => ?_) (fun f hf lane hlane => ?_)
    (fun lane hlane => (hmove lane hlane).2 _ (h.same lane hlane)) (fun _ _ _ => id)⟩
  · rw [hnext lane hlane, hctrl]
  · rw [hexited, hlane, Bool.true_or]
  · rw [hexited, Bool.or_eq_true, Bool.and_eq_true] at hlane
    rcases hlane with hlane | ⟨hlane, hguard⟩
    · exact .inl hlane
    · have hown := (hmove lane hlane).1
      rw [if_pos hguard] at hown
      exact .inr ⟨hlane, hown⟩
  · obtain rfl := List.mem_singleton.mp hf
    simp only [SimtFrame.holds, hactive, Bool.and_eq_true, Bool.not_eq_true'] at hlane
    have hown := (hmove lane hlane.1.1).1
    rw [if_neg (by rw [hlane.1.2]; simp)] at hown
    exact ⟨hlane.1.1, hown⟩

/-! ### A branch -/

/-- A branch that reads its target is taken, unless the warp diverges with no reconvergence
point. -/
theorem bra_ok {w : WarpState} {u : MicroOp} {target : Operand} (mem : MemState)
    (hdone : w.done = false) (hkind : u.kind = .control) (hop : u.op = .bra)
    (hinputs : u.inputs = [target]) (himm : target.kind = .imm)
    (hmask : laneMaskEmpty (laneMaskAnd w.active u.guard) = false)
    (hreconv : laneMaskEmpty (laneMaskAnd w.active (laneMaskNotWidth u.guard)) = false →
      0 ≤ w.pc ∧ ∃ r, ctx.reconvPc[w.pc.toNat]? = some (some r)) :
    ∃ split, uopStep ctx inst u { warp := w, mem := mem } =
        (none, { warp := w, mem := mem, nextPc := some target.immI64, split := split })
      ∧ Detected ctx u target.immI64 { warp := w, mem := mem } split := by
  have hdetect : ∃ split, Detected ctx u target.immI64 { warp := w, mem := mem } split
      ∧ detectSplit ctx inst u target.immI64 { warp := w, mem := mem }
        = .ok { warp := w, mem := mem, split := split } := by
    by_cases hfall : laneMaskEmpty (laneMaskAnd w.active (laneMaskNotWidth u.guard)) = true
    · exact ⟨none, .uniform hfall, by simp [detectSplit, hfall]⟩
    · have hfall' := by simpa using hfall
      obtain ⟨hpc, r, hr⟩ := hreconv hfall'
      refine ⟨_, .diverges hfall' hpc hr, ?_⟩
      simp [detectSplit, hmask, hfall', Int.not_lt.mpr hpc, hr, splitAt]
  obtain ⟨split, hdetected, hdetect⟩ := hdetect
  have hbits : (laneMaskAnd w.active u.guard).bitsLo ≠ 0#32 := by simpa [laneMaskEmpty] using hmask
  refine ⟨split, ?_, hdetected⟩
  simp [uopStep, hkind, hop, ctrlStep, ControlUnit.step, hdone, hbits, hinputs, himm, hdetect,
    setNextPc]

/-- A branch whose lanes are all guarded off does nothing. -/
theorem bra_idle (ctx : WarpContext) (inst : InstRecord) (u : MicroOp) (mem : MemState)
    {w : WarpState} (hdone : w.done = false) (hkind : u.kind = .control) (hop : u.op = .bra)
    (hmask : laneMaskEmpty (laneMaskAnd w.active u.guard) = true) :
    uopStep ctx inst u { warp := w, mem := mem } = (none, { warp := w, mem := mem }) := by
  have hbits : (laneMaskAnd w.active u.guard).bitsLo = 0#32 := by
    simpa [laneMaskEmpty] using hmask
  simp [uopStep, hkind, hop, ctrlStep, ControlUnit.step, hdone, hbits]

/-- A warp diverges at a predicated branch, which has a reconvergence point. -/
theorem Decoded.reconvPc_entry (hws : ctx.warpSize ≤ 32)
    (hanalysis : analyzeControlFlow ctx.kernel ctx.registry ctx.warpSize = .ok ctx.reconvPc)
    {w : WarpState} (h : Decoded ctx w inst desc guard) (hactive : w.active.Fits ctx.warpSize)
    (hfall : laneMaskEmpty (laneMaskAnd w.active (laneMaskNotWidth guard)) = false)
    (hbra : ∃ u ∈ guardedUops ctx inst desc guard, u.isBra = true) :
    ∃ r, ctx.reconvPc[w.pc.toNat]? = some (some r) := by
  have hpred : inst.pred.isSome = true := by
    cases hpred : inst.pred with
    | none =>
        rw [(h.unpredicated hws hpred hactive).2] at hfall
        cases hfall
    | some g => rfl
  obtain ⟨info, hinfo, hisPred, -, hhasBra, -⟩ := h.classify
  obtain ⟨pd, -, hinsts⟩ := analyzeControlFlow_ok hanalysis
  have hentry := (hinsts _ inst h.fetched).2
  rw [if_pos] at hentry
  · obtain ⟨c, -, hc, -⟩ := hentry
    exact ⟨_, hc⟩
  · rw [hinfo, isPredicatedBra, hisPred, hpred, hhasBra, List.any_eq_true.mpr hbra, Bool.and_self]

/-- What a lane alone does at a branch. -/
theorem OwnIssues.bra_alone (hws : ctx.warpSize ≤ 32) {u : MicroOp}
    (hexpand : expand inst desc ctx.warpSize = [u]) (hkind : u.kind = .control) (hop : u.op = .bra)
    (h : OwnIssues ctx w mem inst desc guard own ownGuard next) {lane : Nat}
    (hlane : w.active.has lane = true) :
    (next lane).mem = mem
      ∧ (∀ x, SameLane ctx.warpSize lane x (atPc ctx lane w.pc (own lane)) →
          SameLane ctx.warpSize lane x (after ctx (next lane)))
      ∧ if guard.has lane = true then ∃ target, u.inputs = [target] ∧ target.kind = .imm
            ∧ OneLane ctx lane target.immI64 (after ctx (next lane))
        else OneLane ctx lane (w.pc + 1) (after ctx (next lane)) := by
  have hat := h.at_pc lane hlane
  have hlt := (h.same lane hlane).lane_lt
  have hloop := h.loops lane hlane
  simp only [guardedUops, hexpand, List.map_cons, List.map_nil, uopLoop] at hloop
  split at hloop
  · cases hloop
  next s hstep =>
    obtain rfl : s = next lane := congrArg Prod.snd hloop
    have hhas : ∀ i, (laneMaskAnd (laneOnly ctx.warpSize lane) (ownGuard lane)).has i
        = (decide (i = lane) && (ownGuard lane).has i) := by
      intro i
      rw [has_laneMaskAnd, has_laneOnly (by omega)]
    have hgo : ∀ nextPc, OneLane ctx lane (nextPc.getD (w.pc + 1))
          (commit ctx nextPc none (atPc ctx lane w.pc (own lane)))
        ∧ ∀ x, SameLane ctx.warpSize lane x (atPc ctx lane w.pc (own lane)) →
            SameLane ctx.warpSize lane x (commit ctx nextPc none (atPc ctx lane w.pc (own lane))) :=
      hat.commit (.refl _)
    by_cases hguard : guard.has lane = true
    · rw [if_pos hguard]
      have hon : (ownGuard lane).has lane = true := (h.guards lane hlane).trans hguard
      have heffect := uopStep_effect hat.notDone hstep
      generalize hnext : next lane = s' at heffect
      cases heffect with
      | regs hkind' => exact absurd hkind hkind'
      | ret hkind' hop' => simp [hop] at hop'
      | idle hkind' hop' hmask =>
          have hnone := laneMaskEmpty_iff.mp hmask lane
          simp [atPc, hhas, hon] at hnone
      | branch hkind' hop' hinputs himm hmask hsplit hnextPc =>
          cases hsplit with
          | uniform hfall =>
              exact ⟨rfl, (hgo (some _)).2, _, hinputs, himm, (hgo (some _)).1⟩
          | diverges hfall =>
              obtain ⟨i, hi⟩ := laneMaskEmpty_eq_false_iff.mp hfall
              rw [atPc, has_and_not hws (h.ownFits lane hlane).width (laneOnly_fits hws hlt),
                has_laneOnly (by omega), Bool.and_eq_true, decide_eq_true_eq] at hi
              rw [hi.1, hon] at hi
              cases hi.2
    · rw [if_neg hguard]
      have hoff : (ownGuard lane).has lane = false := by
        rw [h.guards lane hlane]
        simpa using hguard
      have hmask : laneMaskEmpty (laneMaskAnd (atPc ctx lane w.pc (own lane)).active
          (ownGuard lane)) = true := by
        rw [laneMaskEmpty_iff]
        intro i
        rw [atPc, hhas]
        by_cases hi : i = lane
        · simp [hi, hoff]
        · simp [hi]
      rw [bra_idle ctx inst { u with guard := ownGuard lane } mem
        (w := atPc ctx lane w.pc (own lane)) hat.notDone hkind hop hmask] at hstep
      have hnext : next lane = _ := (congrArg Prod.snd hstep).symm
      rw [hnext]
      exact ⟨rfl, (hgo none).2, (hgo none).1⟩

theorem OwnIssues.bra (hws : ctx.warpSize ≤ 32)
    (hanalysis : analyzeControlFlow ctx.kernel ctx.registry ctx.warpSize = .ok ctx.reconvPc)
    (hrun : RunInv ctx initial lanes reconvPc rest w) {u : MicroOp}
    (hexpand : expand inst desc ctx.warpSize = [u]) (hkind : u.kind = .control) (hop : u.op = .bra)
    (h : OwnIssues ctx w mem inst desc guard own ownGuard next) :
    ∃ s, uopLoop ctx inst (guardedUops ctx inst desc guard) { warp := w, mem := mem } = (none, s)
      ∧ LanesMoved ctx w rest mem next s := by
  have halone := fun lane (hlane : w.active.has lane = true) =>
    h.bra_alone hws hexpand hkind hop hlane
  have hloop : ∀ s s', uopStep ctx inst { u with guard := guard } s = (none, s') →
      uopLoop ctx inst (guardedUops ctx inst desc guard) s = (none, s') := by
    intro s s' hstep
    simp only [guardedUops, hexpand, List.map_cons, List.map_nil, uopLoop, hstep]
  have hsame : ∀ lane, w.active.has lane = true →
      SameLane ctx.warpSize lane w (after ctx (next lane)) :=
    fun lane hlane => (halone lane hlane).2.1 w (h.same lane hlane)
  have htaken : ∀ lane, (laneMaskAnd w.active guard).has lane = true ↔
      w.active.has lane = true ∧ guard.has lane = true := by
    intro lane
    rw [has_laneMaskAnd, Bool.and_eq_true]
  have hfall : ∀ lane, (laneMaskAnd w.active (laneMaskNotWidth guard)).has lane = true ↔
      w.active.has lane = true ∧ ¬ guard.has lane = true := by
    intro lane
    rw [has_and_not hws h.decoded.guarded.fits.width hrun.activeFits, Bool.and_eq_true,
      Bool.not_eq_true', Bool.not_eq_true]
  have hmoved : ∀ (paths : List SimtFrame) {s : IssueState} {pc : Int} {active : LaneMask},
      s.mem = mem → active.width = ctx.warpSize →
      after ctx s = { w with pc := pc, active := active, simtStack := paths ++ rest } →
      (∀ f ∈ paths, ∀ lane, f.active.has lane = true →
        w.active.has lane = true ∧ OneLane ctx lane f.pc (after ctx (next lane))) →
      LanesMoved ctx w rest mem next s := by
    intro paths s pc active hmemory hwidth hafter hpaths
    refine .of_paths hrun hafter hwidth hmemory
      (fun lane hlane => (halone lane hlane).1) (fun _ => id) (fun _ => .inl)
      (fun f hf lane hlane => ?_) hsame (fun _ _ _ => id)
    simp only [SimtFrame.holds, Bool.and_eq_true] at hlane
    exact hpaths f hf lane hlane.1
  by_cases hnone : laneMaskEmpty (laneMaskAnd w.active guard) = true
  · -- no lane is taken
    refine ⟨_, hloop _ _ (bra_idle ctx inst { u with guard := guard } mem hrun.notDone hkind hop
      hnone), hmoved [{ pc := w.pc + 1, active := w.active, reconvPc := reconvPc }] rfl
      hrun.activeFits.width (commit_uniform hrun.notDone hrun.stack) fun f hf lane hlane => ?_⟩
    obtain rfl := List.mem_singleton.mp hf
    have hoff : ¬ guard.has lane = true := by
      intro hon
      have h := laneMaskEmpty_iff.mp hnone lane
      rw [(htaken lane).mpr ⟨hlane, hon⟩] at h
      cases h
    have hown := (halone lane hlane).2.2
    rw [if_neg hoff] at hown
    exact ⟨hlane, hown⟩
  · simp only [Bool.not_eq_true] at hnone
    obtain ⟨first, hfirst⟩ := laneMaskEmpty_eq_false_iff.mp hnone
    obtain ⟨hfirst, hon⟩ := (htaken first).mp hfirst
    have hown := (halone first hfirst).2.2
    rw [if_pos hon] at hown
    obtain ⟨target, hinputs, himm, -⟩ := hown
    have htarget : ∀ lane, w.active.has lane = true → guard.has lane = true →
        OneLane ctx lane target.immI64 (after ctx (next lane)) := by
      intro lane hlane hon
      have hown := (halone lane hlane).2.2
      rw [if_pos hon, hinputs] at hown
      obtain ⟨target', heq, -, hown⟩ := hown
      cases heq
      exact hown
    have hnext : ∀ lane, w.active.has lane = true → ¬ guard.has lane = true →
        OneLane ctx lane (w.pc + 1) (after ctx (next lane)) := by
      intro lane hlane hoff
      have hown := (halone lane hlane).2.2
      rwa [if_neg hoff] at hown
    have hreconv : laneMaskEmpty (laneMaskAnd w.active (laneMaskNotWidth guard)) = false →
        0 ≤ w.pc ∧ ∃ r, ctx.reconvPc[w.pc.toNat]? = some (some r) := by
      intro hfallLive
      refine ⟨h.decoded.pcNonneg, h.decoded.reconvPc_entry hws hanalysis hrun.activeFits hfallLive
        ⟨_, List.mem_map.mpr ⟨u, by rw [hexpand]; exact List.mem_cons_self, rfl⟩, ?_⟩⟩
      simp [MicroOp.isBra, hkind, hop]
    obtain ⟨split, hstep, hdetected⟩ :=
      bra_ok (u := { u with guard := guard }) mem hrun.notDone hkind hop hinputs himm hnone hreconv
    refine ⟨_, hloop _ _ hstep, ?_⟩
    cases hdetected with
    | uniform hempty =>
        refine hmoved [{ pc := target.immI64, active := w.active, reconvPc := reconvPc }] rfl
          hrun.activeFits.width (commit_uniform hrun.notDone hrun.stack) fun f hf lane hlane => ?_
        obtain rfl := List.mem_singleton.mp hf
        have hon : guard.has lane = true := by
          by_contra hoff
          have h := laneMaskEmpty_iff.mp hempty lane
          rw [(hfall lane).mpr ⟨hlane, hoff⟩] at h
          cases h
        exact ⟨hlane, htarget lane hlane hon⟩
    | diverges hfallLive hpc hr =>
        refine hmoved _ rfl hrun.activeFits.and.width (commit_split hrun.notDone hrun.stack _)
          fun f hf lane hlane => ?_
        simp only [splitFrames, splitAt, List.mem_cons, List.not_mem_nil, or_false] at hf
        rcases hf with rfl | rfl | rfl
        · obtain ⟨hactive, hon⟩ := (htaken lane).mp hlane
          exact ⟨hactive, htarget lane hactive hon⟩
        · obtain ⟨hactive, hoff⟩ := (hfall lane).mp hlane
          exact ⟨hactive, hnext lane hactive hoff⟩
        · simp [LaneMask.has] at hlane

end Kinds

/-! ### The simulation -/

/-- The lane's own run is at `pc`, with the registers the lane has in the warp. -/
def Waits (ctx : WarpContext) (mem : MemState) (steps : Nat → Nat) (final : Nat → WarpState)
    (w : WarpState) (lane : Nat) (pc : Int) : Prop :=
  ∃ own, OneLane ctx lane pc own ∧ LaneEnds ctx mem (steps lane) (final lane) own
    ∧ SameLane ctx.warpSize lane w (atPc ctx lane pc own)

/-- A warp between two steps, and the own runs of its lanes with `steps` left. -/
structure LaneSim (ctx : WarpContext) (mem : MemState) (initial : LaneMask)
    (final : Nat → WarpState) (steps : Nat → Nat) (w : WarpState) : Prop where
  inv : WarpInv ctx initial w
  notDone : w.done = false
  waits : ∀ f ∈ w.simtStack, ∀ lane, f.holds w.exited lane = true →
    Waits ctx mem steps final w lane f.pc
  returned : ∀ lane, w.exited.has lane = true → ∃ t, SameLane ctx.warpSize lane w t
    ∧ (final lane).rU32 = t.rU32 ∧ (final lane).rU64 = t.rU64 ∧ (final lane).p = t.p

section Simulation

variable {ctx : WarpContext} {mem : MemState} {initial : LaneMask} {final : Nat → WarpState}
  {steps : Nat → Nat} {w w' : WarpState}

/-- Normalization moves lanes between frames of one program counter. -/
theorem normalizeFrames_waits (hws : ctx.warpSize ≤ 32) (hinv : WarpInv ctx initial w)
    {Q : Nat → Int → Prop}
    (hQ : ∀ f ∈ w.simtStack, ∀ lane, f.holds w.exited lane = true → Q lane f.pc) :
    (normalizeFrames w.exited w.simtStack.length w.simtStack).StopsAt
      (fun fs => StackInv ctx initial w.exited fs
        ∧ ∀ f ∈ fs, ∀ lane, f.holds w.exited lane = true → Q lane f.pc) w.exited := by
  have hwidth := hinv.exitedFits.width
  refine normalizeFrames_stopsAt (fun f fs hfs hempty => ?_) (fun f fs fs' hfs hlive hpath hpc
    hmerge => ?_) le_rfl ⟨hinv.stack, hQ⟩
  · exact ⟨hfs.1.pop hws hwidth hempty, fun g hg => hfs.2 g (List.mem_cons_of_mem _ hg)⟩
  · refine ⟨hfs.1.merge hws hwidth hlive hpath hpc hmerge, ?_⟩
    have hf := hfs.1.framesFit f (by simp)
    obtain ⟨above, join, below, rfl, -, -, hjoinPc, rfl⟩ := mergeIntoJoin_eq_some hmerge
    intro g hg lane hlane
    rw [List.mem_append, List.mem_cons] at hg
    rcases hg with hg | rfl | hg
    · exact hfs.2 g (by simp [hg]) lane hlane
    · simp only [SimtFrame.holds, has_laneMaskOrSameWidth, has_refresh hws hwidth hf] at hlane
      by_cases hjoin : join.holds w.exited lane = true
      · exact hfs.2 join (by simp) lane hjoin
      · have hholds : f.holds w.exited lane = true := by
          revert hlane hjoin
          simp only [SimtFrame.holds]
          cases join.active.has lane <;> cases f.active.has lane <;> cases w.exited.has
            lane <;> simp
        have h := hfs.2 f (by simp) lane hholds
        rwa [← hjoinPc] at h
    · exact hfs.2 g (by simp [hg]) lane hlane

theorem issueInst_of_loop {inst : InstRecord} {desc : InstDesc} {guard : LaneMask} {s : IssueState}
    (h : Decoded ctx w inst desc guard)
    (hpredicate : predicate ctx inst w (expand inst desc ctx.warpSize)
      = .ok (guardedUops ctx inst desc guard))
    (hloop : uopLoop ctx inst (guardedUops ctx inst desc guard) { warp := w, mem := mem }
      = (none, s)) :
    issueInst ctx w mem =
      (.ok { pc := w.pc, active := w.active, exited := w.exited, split := s.split }, after ctx s,
        s.mem) := by
  simp only [issueInst, if_neg (Int.not_lt.mpr h.pcNonneg), h.fetched, h.looked, hpredicate, hloop,
    after]

/-- **Issuing for the lanes of a path.** The instruction each of them is at alone is issued for all
of them, and each of their own runs has one step less to go. -/
theorem issueInst_lanes (hws : ctx.warpSize ≤ 32)
    (hanalysis : analyzeControlFlow ctx.kernel ctx.registry ctx.warpSize = .ok ctx.reconvPc)
    (hkernel : LaneWiseKernel ctx) {lanes : Finset Nat} {reconvPc : Int} {rest : List SimtFrame}
    (hrun : RunInv ctx initial lanes reconvPc rest w) (hlive : ∃ lane, w.active.has lane = true)
    (hwaits : ∀ lane, w.active.has lane = true → Waits ctx mem steps final w lane w.pc) :
    ∃ (next : Nat → IssueState) (issue : Issue) (s : IssueState),
      issueInst ctx w mem = (.ok issue, after ctx s, mem) ∧ LanesMoved ctx w rest mem next s
        ∧ ∀ lane, w.active.has lane = true → ∃ left, steps lane = left + 1
            ∧ LaneEnds ctx mem left (final lane) (after ctx (next lane)) := by
  have : Nonempty WarpState := ⟨w⟩
  have : Nonempty LaneMask := ⟨w.active⟩
  have : Nonempty IssueState := ⟨{ warp := w, mem := mem }⟩
  choose! own hat hends hsame using hwaits
  have hstep := fun lane (hlane : w.active.has lane = true) =>
    (hends lane hlane).step hws (hsame lane hlane).lane_lt (hat lane hlane)
  obtain ⟨first, hfirst⟩ := hlive
  obtain ⟨inst, desc, _, _, _, hdecoded, -, -, -, haligned, -⟩ := hstep first hfirst
  -- every active lane is at the same instruction
  have hissue : ∀ lane, w.active.has lane = true → ∃ guard s left,
      IssueGuard ctx inst (atPc ctx lane w.pc (own lane)) guard
        ∧ (∃ uops, predicate ctx inst (atPc ctx lane w.pc (own lane))
            (expand inst desc ctx.warpSize) = .ok uops)
        ∧ uopLoop ctx inst (guardedUops ctx inst desc guard)
            { warp := atPc ctx lane w.pc (own lane), mem := mem } = (none, s)
        ∧ steps lane = left + 1
        ∧ (s.mem = mem → LaneEnds ctx mem left (final lane) (after ctx s)) := by
    intro lane hlane
    obtain ⟨inst', desc', guard, s, left, hdecoded', hpredicate, hloop, hleft, -, hends'⟩ :=
      hstep lane hlane
    obtain rfl : inst' = inst := Option.some.inj (hdecoded'.fetched.symm.trans hdecoded.fetched)
    obtain rfl : desc' = desc := Option.some.inj (hdecoded'.looked.symm.trans hdecoded.looked)
    exact ⟨guard, s, left, hdecoded'.guarded, hpredicate, hloop, hleft, hends'⟩
  choose! ownGuard next left hguards hpredicates hloops hleft hends' using hissue
  obtain ⟨guard, hpredicate, hguard, hguardEq⟩ := predicate_lanes hws
    (fun g hg => ((haligned inst hdecoded.fetched).2 g hg).1) ⟨first, hfirst⟩ hrun.activeFits hsame
      (fun _ _ => rfl) hpredicates hguards
  have howns : OwnIssues ctx w mem inst desc guard own ownGuard next :=
    ⟨⟨hdecoded.pcNonneg, hdecoded.fetched, hdecoded.looked, hguard⟩, hat, hsame,
      fun lane hlane => (hguards lane hlane).fits, hguardEq, hloops⟩
  have hmoved : ∃ s, uopLoop ctx inst (guardedUops ctx inst desc guard) { warp := w, mem := mem }
      = (none, s) ∧ LanesMoved ctx w rest mem next s := by
    rcases hkernel inst (List.mem_of_getElem? hdecoded.fetched) desc hdecoded.looked with
      ⟨u, -, hexpand, hkind, hop | hop⟩ | hu
    · exact howns.bra hws hanalysis hrun hexpand hkind hop
    · exact howns.ret hws hrun hexpand hkind hop
    · exact howns.laneWise hws hrun ⟨first, hfirst⟩ haligned hu
  obtain ⟨s, hloop, hmoved⟩ := hmoved
  have hissued := issueInst_of_loop howns.decoded hpredicate hloop
  rw [hmoved.memory] at hissued
  exact ⟨next, _, s, hissued, hmoved, fun lane hlane =>
    ⟨left lane, hleft lane hlane, hends' lane hlane (hmoved.ownMemory lane hlane)⟩⟩

/-- The registers of the lanes that return are those their own runs end with. -/
theorem SameLane.sameRegs {lane : Nat} {t f : WarpState} (h : SameLane ctx.warpSize lane w t)
    (hfinal : f.rU32 = t.rU32 ∧ f.rU64 = t.rU64 ∧ f.p = t.p) : SameRegs ctx.warpSize lane w f := by
  obtain ⟨h32, h64, hp⟩ := hfinal
  refine ⟨?_, ?_, ?_⟩
  · rw [h32]
    exact h.regs.rU32
  · rw [h64]
    exact h.regs.rU64
  · rw [hp]
    exact h.regs.p

/-- Issuing keeps the simulation. -/
theorem LaneSim.issue (hws : ctx.warpSize ≤ 32)
    (hanalysis : analyzeControlFlow ctx.kernel ctx.registry ctx.warpSize = .ok ctx.reconvPc)
    (hkernel : LaneWiseKernel ctx) (h : LaneSim ctx mem initial final steps w)
    {lanes : Finset Nat} {reconvPc : Int} {rest : List SimtFrame}
    (hrun : RunInv ctx initial lanes reconvPc rest w)
    (hlive : ∃ lane, w.active.has lane = true) :
    ∃ issue w' steps', issueInst ctx w mem = (.ok issue, w', mem)
      ∧ LaneSim ctx mem initial final steps' w'
      ∧ ∑ lane ∈ initial.lanes, steps' lane < ∑ lane ∈ initial.lanes, steps lane := by
  have hactive : ∀ lane, w.active.has lane = true → Waits ctx mem steps final w lane w.pc := by
    intro lane hlane
    have htop :=
      h.waits { pc := w.pc, active := w.active, reconvPc := reconvPc } (by simp [hrun.stack])
    exact htop lane (by simp [SimtFrame.holds, hlane, hrun.live lane hlane])
  obtain ⟨next, issue, s, hissue, hmoved, hnext⟩ :=
    issueInst_lanes hws hanalysis hkernel hrun hlive hactive
  choose! left hleft hends using hnext
  obtain ⟨first, hfirst⟩ := hlive
  have hinv : WarpInv ctx initial (after ctx s) := issueInst_inv hws hrun hissue
  refine ⟨issue, _, fun lane => if w.active.has lane = true then left lane else steps lane, hissue,
    ⟨hinv, (hmoved.same first hfirst).notDone, fun f hf lane hlane => ?_, fun lane hlane => ?_⟩, ?_⟩
  · by_cases hin : w.active.has lane = true
    · have hsame := hmoved.same lane hin
      refine ⟨after ctx (next lane), hmoved.moved f hf lane hlane hin, ?_,
        hsame.reframe hsame.width rfl⟩
      simp only [if_pos hin]
      exact hends lane hin
    · have hout : w.active.has lane = false := by simpa using hin
      obtain ⟨hrest, hholds⟩ := hmoved.kept f hf lane hlane hout
      obtain ⟨own, hat, howns, hsame⟩ := h.waits f (by simp [hrun.stack, hrest]) lane hholds
      refine ⟨own, hat, ?_, hmoved.others lane _ hout hsame⟩
      simp only [if_neg hin]
      exact howns
  · rcases hmoved.exited lane hlane with hexited | ⟨hin, hreturned⟩
    · obtain ⟨t, hsame, hfinal⟩ := h.returned lane hexited
      have hout : w.active.has lane = false := by
        by_contra hcon
        rw [hrun.live lane (by simpa using hcon)] at hexited
        cases hexited
      exact ⟨t, hmoved.others lane t hout hsame, hfinal⟩
    · exact ⟨_, hmoved.same lane hin, (hends lane hin).returned hreturned |>.2⟩
  · refine Finset.sum_lt_sum (fun lane _ => ?_) ⟨first, ?_, ?_⟩
    · split
      next hin => rw [hleft lane hin]; exact Nat.le_succ _
      · exact le_rfl
    · exact hrun.below.subset (hrun.activeSubset (LaneMask.mem_lanes.mpr hfirst))
    · rw [if_pos hfirst, hleft first hfirst]
      exact Nat.lt_succ_self _

/-- **The step lemma.** A warp that simulates its lanes retires with their final registers, or
issues and goes on with fewer steps left to them. -/
theorem LaneSim.step (hws : ctx.warpSize ≤ 32)
    (hanalysis : analyzeControlFlow ctx.kernel ctx.registry ctx.warpSize = .ok ctx.reconvPc)
    (hkernel : LaneWiseKernel ctx) (h : LaneSim ctx mem initial final steps w) :
    (∃ w', warpStep ctx w mem = (.ok .retired, w', mem) ∧ w'.done = true
        ∧ ∀ lane, initial.has lane = true → SameRegs ctx.warpSize lane w' (final lane))
      ∨ ∃ issue w' steps', warpStep ctx w mem = (.ok (.issued issue), w', mem)
        ∧ LaneSim ctx mem initial final steps' w'
        ∧ ∑ lane ∈ initial.lanes, steps' lane < ∑ lane ∈ initial.lanes, steps lane := by
  have hstop := normalizeFrames_waits hws h.inv h.waits
  have hwidth := h.inv.exitedFits.width
  cases hframes : normalizeFrames w.exited w.simtStack.length w.simtStack with
  | empty =>
      have hnormalize : normalizeStack ctx w = (.ok .retired, { w with
          done := true, active := { width := ctx.warpSize, bitsLo := 0 }, simtStack := [] }) := by
        rw [normalizeStack, hframes]
      have hexited := (normalizeStack_retired hws h.inv hnormalize).2.2
      refine .inl ⟨_, by rw [warpStep, hnormalize], rfl, fun lane hlane => ?_⟩
      obtain ⟨t, hsame, hfinal⟩ := h.returned lane ((hexited lane).trans hlane)
      exact ⟨(hsame.sameRegs hfinal).rU32, (hsame.sameRegs hfinal).rU64, (hsame.sameRegs hfinal).p⟩
  | invalid reconvPc rest =>
      -- a lane whose own run is where the kernel ends has no run that ends
      exfalso
      have hnormalize : normalizeStack ctx w = (.error (ctx.simtDiag "E_RECONV_INVALID"
          "reconv join frame not found" none reconvPc), { w with simtStack := rest }) := by
        rw [normalizeStack, hframes]
      have herror := normalizeStack_error hws h.inv hnormalize
      rw [hframes] at hstop
      obtain ⟨f, ⟨hstack, hwaits⟩, hlive, -, -, rfl, -⟩ := hstop
      obtain ⟨lane, hlane⟩ :=
        (refresh_nonempty_iff hws hwidth (hstack.framesFit f (by simp))).mp hlive
      obtain ⟨own, hat, hends, hsame⟩ := hwaits f (by simp) lane hlane
      have hpc : f.pc = ctx.exitPc := by simpa [WarpContext.simtDiag] using herror
      rw [hpc] at hat
      obtain ⟨inst, _, _, _, _, hdecoded, -⟩ := hends.step hws hsame.lane_lt hat
      have hlt := (List.getElem?_eq_some_iff.mp hdecoded.fetched).1
      simp [atPc, WarpContext.exitPc, WarpContext.nInsts] at hlt
  | ready top rest joined =>
      rw [hframes] at hstop
      obtain ⟨f, ⟨hstack, hwaits⟩, htop, -, hlive, -⟩ := hstop
      have hf := hstack.framesFit f (by simp)
      have hnormalize : normalizeStack ctx w = (.ok .ready,
          { w with pc := top.pc, active := top.active, simtStack := top :: rest }) := by
        rw [normalizeStack, hframes]
      obtain ⟨lanes, reconvPc, rest', hrun⟩ := normalizeStack_ready hws h.notDone h.inv hnormalize
      obtain rfl : rest = rest' := (List.cons.inj hrun.stack).2
      have hsim : LaneSim ctx mem initial final steps
          { w with pc := top.pc, active := top.active, simtStack := top :: rest } := by
        refine ⟨hrun.warpInv, h.notDone, fun g hg lane hlane => ?_, fun lane hlane => ?_⟩
        · have hwaits' : Waits ctx mem steps final w lane g.pc := by
            rcases List.mem_cons.mp hg with rfl | hg
            · rw [htop] at hlane ⊢
              have hholds : f.holds w.exited lane = true := by
                simp only [SimtFrame.holds, has_refresh hws hwidth hf, Bool.and_eq_true] at hlane ⊢
                exact hlane.1
              exact hwaits f (by simp) lane hholds
            · exact hwaits g (by simp [hg]) lane hlane
          obtain ⟨own, hat, hends, hsame⟩ := hwaits'
          exact ⟨own, hat, hends, hsame.reframe hrun.activeFits.width hsame.width'⟩
        · obtain ⟨t, hsame, hfinal⟩ := h.returned lane hlane
          exact ⟨t, hsame.reframe hrun.activeFits.width hsame.width', hfinal⟩
      obtain ⟨first, hfirst⟩ := laneMaskEmpty_eq_false_iff.mp hlive
      obtain ⟨issue, w', steps', hissue, hsim', hlt⟩ :=
        hsim.issue hws hanalysis hkernel hrun ⟨first, by rw [htop]; exact hfirst⟩
      exact .inr ⟨issue, w', steps', by rw [warpStep, hnormalize]; simp only [hissue], hsim', hlt⟩

/-- **The run lemma.** The warp retires within the steps left to its lanes. -/
theorem LaneSim.run (hws : ctx.warpSize ≤ 32)
    (hanalysis : analyzeControlFlow ctx.kernel ctx.registry ctx.warpSize = .ok ctx.reconvPc)
    (hkernel : LaneWiseKernel ctx) (h : LaneSim ctx mem initial final steps w) :
    ∃ count w', count ≤ ∑ lane ∈ initial.lanes, steps lane ∧ w'.done = true
      ∧ (∀ b, count < b → runWarp ctx b w mem = (.finished, count, w', mem))
      ∧ ∀ lane, initial.has lane = true → SameRegs ctx.warpSize lane w' (final lane) := by
  induction hsum : ∑ lane ∈ initial.lanes, steps lane using Nat.strong_induction_on
    generalizing w steps with
  | h total ih =>
      rcases h.step hws hanalysis hkernel with
        ⟨w', hstep, hdone, hfinal⟩ | ⟨issue, w', steps', hstep, hsim, hlt⟩
      · refine ⟨0, w', Nat.zero_le _, hdone, fun b hb => ?_, hfinal⟩
        cases b with
        | zero => omega
        | succ b => simp only [runWarp, h.notDone, Bool.false_eq_true, if_false, hstep]
      · obtain ⟨count, w₂, hle, hdone, hrun, hfinal⟩ := ih _ (hsum ▸ hlt) hsim rfl
        refine ⟨count + 1, w₂, by omega, hdone, fun b hb => ?_, hfinal⟩
        cases b with
        | zero => omega
        | succ b =>
            simp only [runWarp, h.notDone, Bool.false_eq_true, if_false, hstep,
              hrun b (by omega)]

end Simulation

end ProtoGpu

import ProtoGpu.Proof.LaneLocal

/-!
# A lane's own run

What the simulation of a warp needs of the runs of its lanes alone: the predicate of an instruction
guards a lane in the warp as it does alone, a warp of one lane is one frame at the lane's program
counter, and a run that ends issues the instruction there and goes on.
-/

namespace ProtoGpu

/-! ### The predicate of an instruction -/

/-- A lane loop whose lanes fail or not whatever its state is. -/
theorem laneLoopFrom_none_iff {σ : Type} {mask : LaneMask} {body : Nat → σ → Except Fault σ}
    (ok : Nat → Prop) (hbody : ∀ lane s, (∃ s', body lane s = .ok s') ↔ ok lane)
    (lanes : List Nat) (s : σ) :
    (laneLoopFrom mask body lanes s).1 = none ↔
      ∀ lane ∈ lanes, laneMaskTest mask lane = true → ok lane := by
  induction lanes generalizing s with
  | nil => simp [laneLoopFrom]
  | cons lane lanes ih =>
      rw [laneLoopFrom]
      split
      next htest =>
        cases hlane : body lane s with
        | error f =>
            have hnot : ¬ ok lane := by
              rw [← hbody lane s, hlane]
              simp
            simp [htest, hnot]
        | ok s' =>
            have hok : ok lane := (hbody lane s).mp ⟨s', hlane⟩
            simp [ih, hok]
      next htest => simp [ih, htest]

theorem predMask_none_iff {ctx : WarpContext} {w : WarpState} {g : PredGuard} {base : Nat} :
    (predMask ctx w g base).1 = none ↔
      ∀ lane < min ctx.warpSize 32, laneMaskTest w.active lane = true →
        ∃ b, w.p[(base + lane) % 2 ^ 64]? = some b := by
  unfold predMask
  rw [laneLoopFrom_none_iff fun lane => ∃ b, w.p[(base + lane) % 2 ^ 64]? = some b]
  · simp only [List.mem_range]
  · intro lane m
    cases w.p[(base + lane) % 2 ^ 64]? with
    | none => simp
    | some b =>
        simp only [Option.some.injEq, exists_eq', iff_true]
        repeat' split
        all_goals exact ⟨_, rfl⟩

/-- When the predicate lets the micro-ops of an instruction through. -/
theorem predicate_ok_iff {ctx : WarpContext} {inst : InstRecord} {w : WarpState}
    {uops : List MicroOp} :
    (∃ uops', predicate ctx inst w uops = .ok uops') ↔
      ∀ g, inst.pred = some g → 0 ≤ g.predId
        ∧ (g.predId.toNat * ctx.warpSize % 2 ^ 64 + ctx.warpSize) % 2 ^ 64 ≤ w.p.length
        ∧ ∀ lane < min ctx.warpSize 32, laneMaskTest w.active lane = true →
            ∃ b, w.p[(g.predId.toNat * ctx.warpSize % 2 ^ 64 + lane) % 2 ^ 64]? = some b := by
  unfold predicate
  cases hpred : inst.pred with
  | none => simp
  | some g =>
      simp only [Option.some.injEq, forall_eq']
      by_cases hneg : g.predId < 0
      · simp [hneg, Int.not_le.mpr hneg]
      · by_cases hrange :
          (g.predId.toNat * ctx.warpSize % 2 ^ 64 + ctx.warpSize) % 2 ^ 64 > w.p.length
        · simp only [if_neg hneg, if_pos hrange, reduceCtorEq, exists_false, false_iff]
          omega
        · rw [← predMask_none_iff]
          simp only [if_neg hneg, if_neg hrange]
          cases predMask ctx w g (g.predId.toNat * ctx.warpSize % 2 ^ 64) with
          | mk r mask =>
              cases r with
              | none =>
                  simp only [Except.ok.injEq, exists_eq', true_iff]
                  exact ⟨Int.not_lt.mp hneg, Nat.not_lt.mp hrange, trivial⟩
              | some f => simp

theorem SameLane.getElem?_p {warpSize lane : Nat} {w w' : WarpState}
    (h : SameLane warpSize lane w w') {i : Nat} (hi : i % warpSize = lane) :
    w.p[i]? = w'.p[i]? := by
  have hget := h.regs.p i hi
  have hlen := h.pLength
  simp only [List.getD_eq_getElem?_getD] at hget
  by_cases hlt : i < w.p.length
  · rw [List.getElem?_eq_getElem hlt, List.getElem?_eq_getElem (hlen ▸ hlt)] at hget ⊢
    exact congrArg some hget
  · rw [List.getElem?_eq_none (by omega), List.getElem?_eq_none (by omega)]

/-- **The predicate, lane by lane.** Where it lets the instruction through at each active lane
alone, it does so in the warp, and guards the lane as it does there. -/
theorem predicate_lanes {ctx : WarpContext} (hws : ctx.warpSize ≤ 32) {inst : InstRecord}
    {desc : InstDesc} {w : WarpState} {own : Nat → WarpState} {ownGuard : Nat → LaneMask}
    (hpred : ∀ g, inst.pred = some g → LaneAligned ctx.warpSize g.predId.toNat)
    (hlive : ∃ lane, w.active.has lane = true) (hfits : w.active.Fits ctx.warpSize)
    (hsame : ∀ lane, w.active.has lane = true → SameLane ctx.warpSize lane w (own lane))
    (halone : ∀ lane, w.active.has lane = true → (own lane).active = laneOnly ctx.warpSize lane)
    (hok : ∀ lane, w.active.has lane = true →
      ∃ uops, predicate ctx inst (own lane) (expand inst desc ctx.warpSize) = .ok uops)
    (hguards : ∀ lane, w.active.has lane = true → IssueGuard ctx inst (own lane) (ownGuard lane)) :
    ∃ guard, predicate ctx inst w (expand inst desc ctx.warpSize)
        = .ok (guardedUops ctx inst desc guard)
      ∧ IssueGuard ctx inst w guard
      ∧ ∀ lane, w.active.has lane = true → (ownGuard lane).has lane = guard.has lane := by
  have htest : ∀ lane, w.active.has lane = true → laneMaskTest (own lane).active lane = true := by
    intro lane hlane
    have hlt := (hsame lane hlane).lane_lt
    rw [halone lane hlane, laneMaskTest_eq, has_laneOnly (by omega), decide_eq_true rfl,
      Bool.and_true]
    exact decide_eq_true hlt
  have hentry : ∀ g, inst.pred = some g → ∀ lane, w.active.has lane = true →
      w.p[(g.predId.toNat * ctx.warpSize % 2 ^ 64 + lane) % 2 ^ 64]?
        = (own lane).p[(g.predId.toNat * ctx.warpSize % 2 ^ 64 + lane) % 2 ^ 64]? :=
    fun g hg lane hlane => (hsame lane hlane).getElem?_p
      ((hpred g hg).base_add_mod (hsame lane hlane).lane_lt)
  have hwarp : ∃ uops, predicate ctx inst w (expand inst desc ctx.warpSize) = .ok uops := by
    rw [predicate_ok_iff]
    intro g hg
    obtain ⟨first, hfirst⟩ := hlive
    obtain ⟨hneg, hrange, -⟩ := predicate_ok_iff.mp (hok first hfirst) g hg
    rw [← (hsame first hfirst).pLength] at hrange
    refine ⟨hneg, hrange, fun lane hlt hlane => ?_⟩
    rw [laneMaskTest_eq, Bool.and_eq_true] at hlane
    rw [hentry g hg lane hlane.2]
    exact (predicate_ok_iff.mp (hok lane hlane.2) g hg).2.2 lane hlt (htest lane hlane.2)
  obtain ⟨uops, huops⟩ := hwarp
  obtain ⟨guard, hguard, rfl⟩ := predicate_ok hws huops
  refine ⟨guard, huops, hguard, fun lane hlane => ?_⟩
  have hlt := (hsame lane hlane).lane_lt
  cases hinst : inst.pred with
  | none => rw [(hguards lane hlane).unpredicated hinst, hguard.unpredicated hinst]
  | some g =>
      have hactive : laneMaskTest w.active lane = true := by
        rw [laneMaskTest_eq, hlane, Bool.and_true, hfits.width]
        exact decide_eq_true hlt
      rw [Bool.eq_iff_iff, (hguards lane hlane).predicated g hinst, hguard.predicated g hinst,
        PredGuard.enables, PredGuard.enables, hentry g hinst lane hlane]
      simp only [hlt, htest lane hlane, hactive, true_and]

/-! ### A warp of one lane -/

def laneFrame (ctx : WarpContext) (lane : Nat) (pc : Int) : SimtFrame where
  pc := pc
  active := laneOnly ctx.warpSize lane
  reconvPc := ctx.exitPc
  isJoin := false

/-- A warp that runs `lane` alone and is at `pc`. -/
structure OneLane (ctx : WarpContext) (lane : Nat) (pc : Int) (w : WarpState) : Prop where
  notDone : w.done = false
  stack : w.simtStack = [laneFrame ctx lane pc]
  exited : w.exited = { width := ctx.warpSize, bitsLo := 0 }

/-- The warp's run from here ends after `steps` steps, in `final`, and names aligned registers. -/
def LaneEnds (ctx : WarpContext) (mem : MemState) (steps : Nat) (final w : WarpState) : Prop :=
  ∃ budget mem', runWarp ctx budget w mem = (.finished, steps, final, mem')
    ∧ ∀ issue ∈ issuedBy ctx budget w mem, RegsAligned ctx issue.pc

/-- The normalized state of a warp at `pc`. -/
def atPc (ctx : WarpContext) (lane : Nat) (pc : Int) (w : WarpState) : WarpState :=
  { w with pc := pc, active := laneOnly ctx.warpSize lane }

section OneLane

variable {ctx : WarpContext} {lane : Nat} {pc : Int} {w : WarpState}

theorem laneOnly_fits (hws : ctx.warpSize ≤ 32) (hlane : lane < ctx.warpSize) :
    (laneOnly ctx.warpSize lane).Fits ctx.warpSize := by
  refine ⟨rfl, fun i hi => ?_⟩
  rw [has_laneOnly (by omega)] at hi
  rw [of_decide_eq_true hi]
  exact hlane

theorem refresh_laneFrame (hws : ctx.warpSize ≤ 32) (hlane : lane < ctx.warpSize) :
    SimtFrame.refresh { width := ctx.warpSize, bitsLo := 0 } (laneFrame ctx lane pc)
      = laneFrame ctx lane pc := by
  have hmask : laneMaskAnd (laneOnly ctx.warpSize lane)
      (laneMaskNotWidth { width := ctx.warpSize, bitsLo := 0 }) = laneOnly ctx.warpSize lane := by
    refine LaneMask.ext_has rfl fun i => ?_
    rw [has_and_not hws rfl (laneOnly_fits hws hlane)]
    simp [LaneMask.has]
  simp only [SimtFrame.refresh, laneFrame, hmask]

theorem laneOnly_nonempty {warpSize : Nat} (hlane : lane < 32) :
    laneMaskEmpty (laneOnly warpSize lane) = false := by
  rw [laneMaskEmpty_eq_false_iff]
  exact ⟨lane, by rw [has_laneOnly hlane, decide_eq_true rfl]⟩

/-- Its only frame is ready, unless it is where the kernel ends. -/
theorem normalizeStack_oneLane (hws : ctx.warpSize ≤ 32) (hlane : lane < ctx.warpSize)
    (h : OneLane ctx lane pc w) :
    if pc = ctx.exitPc then ∃ f w', normalizeStack ctx w = (.error f, w')
    else normalizeStack ctx w = (.ok .ready, atPc ctx lane pc w) := by
  obtain ⟨hdone, hstack, hexited⟩ := h
  have hrefresh : SimtFrame.refresh w.exited (laneFrame ctx lane pc) = laneFrame ctx lane pc := by
    rw [hexited]
    exact refresh_laneFrame hws hlane
  have hne : laneMaskEmpty (laneFrame ctx lane pc).active = false := laneOnly_nonempty (by omega)
  have hpath : (laneFrame ctx lane pc).isJoin = false := rfl
  unfold normalizeStack
  simp only [hstack, List.length_singleton, normalizeFrames, hrefresh, hne, hpath,
    Bool.false_eq_true, if_false]
  by_cases hpc : pc = ctx.exitPc
  · have harrived : (laneFrame ctx lane pc).pc = (laneFrame ctx lane pc).reconvPc := hpc
    rw [if_pos hpc, if_pos harrived]
    exact ⟨_, _, rfl⟩
  · have harrived : (laneFrame ctx lane pc).pc ≠ (laneFrame ctx lane pc).reconvPc := hpc
    rw [if_neg hpc, if_neg harrived, atPc, hstack]
    rfl

theorem issueInst_predicate {mem : MemState} {inst : InstRecord} {desc : InstDesc}
    (hfetched : ctx.kernel.insts[w.pc.toNat]? = some inst)
    (hlooked : ctx.registry.lookup inst = some desc) {issue : Issue} {r : WarpState × MemState}
    (h : issueInst ctx w mem = (.ok issue, r)) :
    ∃ uops, predicate ctx inst w (expand inst desc ctx.warpSize) = .ok uops := by
  unfold issueInst at h
  split at h
  · cases h
  · simp only [hfetched, hlooked] at h
    split at h
    · cases h
    next uops huops => exact ⟨uops, huops⟩

/-- **A step of a lane's own run.** A run that ends issues the instruction at `pc`, and goes on. -/
theorem LaneEnds.step (hws : ctx.warpSize ≤ 32) (hlane : lane < ctx.warpSize)
    (h : OneLane ctx lane pc w) {mem : MemState} {steps : Nat} {final : WarpState}
    (hends : LaneEnds ctx mem steps final w) :
    ∃ inst desc guard s steps', Decoded ctx (atPc ctx lane pc w) inst desc guard
      ∧ (∃ uops, predicate ctx inst (atPc ctx lane pc w) (expand inst desc ctx.warpSize) = .ok uops)
      ∧ uopLoop ctx inst (guardedUops ctx inst desc guard)
          { warp := atPc ctx lane pc w, mem := mem } = (none, s)
      ∧ steps = steps' + 1 ∧ RegsAligned ctx pc
      ∧ (s.mem = mem → LaneEnds ctx mem steps' final (commit ctx s.nextPc s.split s.warp)) := by
  obtain ⟨budget, mem', hrun, haligned⟩ := hends
  have hnormalize := normalizeStack_oneLane hws hlane h
  cases budget with
  | zero => simp [runWarp] at hrun
  | succ budget =>
      simp only [runWarp, issuedBy, h.notDone, Bool.false_eq_true, if_false] at hrun haligned
      split at hrun
      · cases hrun
      next w' mem₁ hstep =>
        exfalso
        rw [(warpStep_retired hstep).1] at hnormalize
        split at hnormalize
        · obtain ⟨f, w₂, hf⟩ := hnormalize
          cases hf
        · cases hnormalize
      next issue w' mem₁ hstep =>
        obtain ⟨w₁, hready, hissue⟩ := warpStep_issued hstep
        rw [hready] at hnormalize
        split at hnormalize
        · obtain ⟨f, w₂, hf⟩ := hnormalize
          cases hf
        · cases hnormalize
          obtain ⟨inst, desc, guard, s, hdecoded, hloop, rfl, rfl, rfl⟩ := issueInst_ok hws hissue
          have hpredicate := issueInst_predicate hdecoded.fetched hdecoded.looked hissue
          rw [hstep] at haligned
          simp only [Prod.mk.injEq] at hrun
          obtain ⟨hend, rfl, hfinal⟩ := hrun
          refine ⟨inst, desc, guard, s, _, hdecoded, hpredicate, hloop, rfl,
            haligned _ List.mem_cons_self, fun hmem => ⟨budget, mem', ?_, fun issue hissue => ?_⟩⟩
          · rw [hmem] at hend hfinal ⊢
            exact Prod.ext hend (Prod.ext rfl hfinal)
          · rw [← hmem] at hissue
            exact haligned issue (List.mem_cons_of_mem _ hissue)

/-- A warp whose only lane has returned. -/
def LaneReturned (w : WarpState) : Prop :=
  w.done = false ∧ ∃ f, w.simtStack = [f] ∧ laneMaskEmpty (f.refresh w.exited).active = true

/-- Such a warp retires next, with the registers it has. -/
theorem LaneEnds.returned (h : LaneReturned w) {mem : MemState} {steps : Nat} {final : WarpState}
    (hends : LaneEnds ctx mem steps final w) :
    steps = 0 ∧ final.rU32 = w.rU32 ∧ final.rU64 = w.rU64 ∧ final.p = w.p := by
  obtain ⟨hdone, f, hstack, hempty⟩ := h
  obtain ⟨budget, mem', hrun, -⟩ := hends
  cases budget with
  | zero => simp [runWarp] at hrun
  | succ budget =>
      have hstep : warpStep ctx w mem = (.ok .retired, { w with
          done := true, active := { width := ctx.warpSize, bitsLo := 0 }, simtStack := [] },
            mem) := by
        simp only [warpStep, normalizeStack, hstack, List.length_singleton, normalizeFrames, hempty,
          if_true]
      simp only [runWarp, hdone, Bool.false_eq_true, if_false, hstep, Prod.mk.injEq, true_and]
        at hrun
      obtain ⟨rfl, rfl, -⟩ := hrun
      exact ⟨rfl, rfl, rfl, rfl⟩

end OneLane

end ProtoGpu

import ProtoGpu.Proof.LaneSim

/-!
# The warp refines its lanes

The simulation started at the first instruction. It needs that the instructions the lanes issue name
registers whose rows do not wrap: `reg * warp_size + lane` is a `size_t`, and where it wraps a lane
writes into the row of another.
-/

namespace ProtoGpu

variable {ctx : WarpContext} {regs : WarpState} {active : LaneMask} {mem : MemState}

theorem startWarp_inv (hactive : active.Fits ctx.warpSize)
    (hlive : laneMaskEmpty active = false) : WarpInv ctx active (startWarp ctx regs active) := by
  have hnone : ∀ lane, LaneMask.has { width := ctx.warpSize, bitsLo := 0 } lane = false := by
    intro lane
    simp [LaneMask.has]
  refine ⟨LaneMask.fits_zero, ⟨fun f hf => ?_, fun lane => ?_, ?_⟩⟩
  · obtain rfl := List.mem_singleton.mp hf
    exact hactive
  · simp only [startWarp, holders_cons, holders_nil, SimtFrame.holds, hnone]
    simp
  · exact .path (LaneMask.lanes_nonempty_iff.mpr hlive) rfl subset_rfl (.bottom subset_rfl)

theorem startWarp_sim (hactive : active.Fits ctx.warpSize)
    (hlive : laneMaskEmpty active = false) {budget : Nat → Nat}
    (hlanes : ∀ lane, active.has lane = true →
      (laneRun ctx regs mem (budget lane) lane).1 = .finished)
    (haligned : ∀ lane, active.has lane = true →
      ∀ issue ∈ issuedBy ctx (budget lane) (startWarp ctx regs (laneOnly ctx.warpSize lane)) mem,
        RegsAligned ctx issue.pc) :
    LaneSim ctx mem active (fun lane => (laneRun ctx regs mem (budget lane) lane).2.2.1)
      (fun lane => (laneRun ctx regs mem (budget lane) lane).2.1) (startWarp ctx regs active) := by
  refine ⟨startWarp_inv hactive hlive, rfl, fun f hf lane hlane => ?_, fun lane hlane => ?_⟩
  · obtain rfl := List.mem_singleton.mp hf
    simp only [SimtFrame.holds, Bool.and_eq_true] at hlane
    refine ⟨startWarp ctx regs (laneOnly ctx.warpSize lane), ⟨rfl, rfl, rfl⟩,
      ⟨budget lane, (laneRun ctx regs mem (budget lane) lane).2.2.2, ?_, haligned lane hlane.1⟩,
      ⟨hactive.lt lane hlane.1, hactive.width, rfl, rfl, rfl, rfl, rfl, rfl, rfl, rfl, rfl, rfl,
        ⟨fun _ _ => rfl, fun _ _ => rfl, fun _ _ => rfl⟩⟩⟩
    exact Prod.ext (hlanes lane hlane.1) rfl
  · simp [startWarp, LaneMask.has] at hlane

/-- A warp without active lanes retires at once. -/
theorem runWarp_no_lane (regs : WarpState) (mem : MemState) (hws : ctx.warpSize ≤ 32)
    (hactive : active.Fits ctx.warpSize) (hnone : laneMaskEmpty active = true) :
    ∃ w', w'.done = true
      ∧ ∀ b, 0 < b → runWarp ctx b (startWarp ctx regs active) mem = (.finished, 0, w', mem) := by
  have hrefresh : laneMaskEmpty (SimtFrame.refresh (startWarp ctx regs active).exited
      { pc := 0, active := active, reconvPc := ctx.exitPc, isJoin := false }).active = true := by
    rw [refresh_empty_iff hws rfl hactive]
    intro lane
    rw [SimtFrame.holds, laneMaskEmpty_iff.mp hnone lane, Bool.false_and]
  have hframes : normalizeFrames (startWarp ctx regs active).exited
      (startWarp ctx regs active).simtStack.length (startWarp ctx regs active).simtStack
        = .empty := by
    change normalizeFrames _ 1 [_] = _
    rw [normalizeFrames, if_pos hrefresh]
    rfl
  refine ⟨{ startWarp ctx regs active with
    done := true, active := { width := ctx.warpSize, bitsLo := 0 }, simtStack := [] }, rfl,
    fun b hb => ?_⟩
  cases b with
  | zero => omega
  | succ b =>
      have hdone : (startWarp ctx regs active).done = false := rfl
      simp only [runWarp, hdone, Bool.false_eq_true, if_false, warpStep, normalizeStack, hframes]

/-- **SIMT execution refines the lanes' own runs**, for the kernels of branches, returns and
lane-wise micro-ops, where the own runs name registers whose rows do not wrap. -/
theorem simt_refines_lanes (hws : ctx.warpSize ≤ 32)
    (hanalysis : analyzeControlFlow ctx.kernel ctx.registry ctx.warpSize = .ok ctx.reconvPc)
    (hkernel : LaneWiseKernel ctx) (hactive : active.Fits ctx.warpSize)
    (haligned : ∀ lane, active.has lane = true → ∀ budget,
      ∀ issue ∈ issuedBy ctx budget (startWarp ctx regs (laneOnly ctx.warpSize lane)) mem,
        RegsAligned ctx issue.pc) :
    RefinesLanes ctx regs active mem := by
  intro budget hlanes
  cases hlive : laneMaskEmpty active with
  | true =>
      obtain ⟨w', hdone, hrun⟩ := runWarp_no_lane regs mem hws hactive hlive
      refine ⟨0, w', hrun, hdone, Nat.zero_le _, fun lane hlane => ?_⟩
      rw [laneMaskEmpty_iff.mp hlive lane] at hlane
      cases hlane
  | false =>
      have hsim := startWarp_sim hactive hlive hlanes
        fun lane hlane => haligned lane hlane (budget lane)
      obtain ⟨count, w', hle, hdone, hrun, hregs⟩ := hsim.run hws hanalysis hkernel
      exact ⟨count, w', hrun, hdone, hle, hregs⟩

/-! ### A register whose row wraps -/

/-- `mov.u32 %rN, 7; ret`, where three times `N` is `2 ^ 64 + 2`. -/
def wrapCtx : WarpContext where
  kernel := { insts := [movImm 6148914691236517206 7, retInst] }
  registry := demoDescs
  warpSize := 3
  reconvPc := [none, none]
  floatOps := .unused

/-- Lane 0 writes the entry of lane 2 in the first row. -/
theorem wrapped_row_not_refined :
    analyzeControlFlow wrapCtx.kernel wrapCtx.registry wrapCtx.warpSize = .ok wrapCtx.reconvPc
      ∧ LaneWiseKernel wrapCtx
      ∧ ¬ ∀ regs active mem, LaneMask.Fits wrapCtx.warpSize active →
          RefinesLanes wrapCtx regs active mem := by
  refine ⟨by decide, by decide, fun hclaim => ?_⟩
  have hfits : LaneMask.Fits wrapCtx.warpSize (laneMaskAll 3) := fits_laneMaskAll (by decide)
  have hlt : ∀ lane, (laneMaskAll 3).has lane = true → lane < 3 := hfits.lt
  have hends : ∀ lane, (laneMaskAll 3).has lane = true →
      (laneRun wrapCtx {} {} 3 lane).1 = .finished := by
    intro lane hlane
    have hlt := hfits.lt lane hlane
    change lane < 3 at hlt
    interval_cases lane <;> decide
  obtain ⟨steps, w, hrun, -, -, hregs⟩ := hclaim {} (laneMaskAll 3) {} hfits (fun _ => 3) hends
  have hwarp : (runWarp wrapCtx (steps + 3) (startWarp wrapCtx {} (laneMaskAll 3)) {}).2.2.1.rU32
      = [0, 0, 7, 7, 7] := rfl
  have halone : (laneRun wrapCtx {} {} 3 2).2.2.1.rU32 = [0, 0, 0, 0, 7] := by decide
  have hentry := (hregs 2 (by decide)).rU32 2 rfl
  rw [hrun (steps + 3) (by omega)] at hwarp
  rw [hwarp, halone] at hentry
  revert hentry
  decide

/-! ### Kernels of aligned registers -/

/-- It is enough that every instruction of the kernel names such registers. -/
theorem regsAligned_of_kernel
    (h : ∀ inst ∈ ctx.kernel.insts, (∀ o ∈ inst.operands, o.Inside ctx.warpSize)
      ∧ ∀ g ∈ inst.pred, LaneInside ctx.warpSize g.predId.toNat) (pc : Int) :
    RegsAligned ctx pc := by
  intro inst hinst
  obtain ⟨hops, hpred⟩ := h inst (List.mem_of_getElem? hinst)
  exact ⟨hops, fun g hg => hpred g hg⟩

/-- `if (lane < 1) skip the mov`, on three lanes. -/
def skipCtx : WarpContext where
  kernel := { insts := [movLaneid 1, setpLt 0 1 1, braIf 0 4, movImm 1 7, retInst] }
  registry := demoDescs
  warpSize := 3
  reconvPc := [none, none, some 4, none, none]
  floatOps := .unused

def skipRegs : WarpState where
  p := List.replicate 24 1

theorem skip_lane_run {lane : Nat} (hlane : lane < 3) :
    (laneRun skipCtx skipRegs {} 6 lane).1 = .finished
      ∧ (laneRun skipCtx skipRegs {} 6 lane).2.1 = (if lane < 1 then 4 else 5)
      ∧ (laneRun skipCtx skipRegs {} 6 lane).2.2.1.rU32.getD (3 + lane) 0
        = if lane < 1 then 0#32 else 7#32 := by
  interval_cases lane <;> decide

/-- The branch splits the lanes; the warp ends, and the `mov` was lane 1's and lane 2's. -/
theorem simt_refines_lanes_skip :
    ∃ steps w, steps ≤ 14
      ∧ (∀ b, steps < b →
        runWarp skipCtx b (startWarp skipCtx skipRegs (laneMaskAll 3))
        {} = (.finished, steps, w, {}))
      ∧ w.done = true
      ∧ ∀ lane < 3, w.rU32.getD (3 + lane) 0 = if lane < 1 then 0#32 else 7#32 := by
  have hfits : LaneMask.Fits skipCtx.warpSize (laneMaskAll 3) := fits_laneMaskAll (by decide)
  have hrefines : RefinesLanes skipCtx skipRegs (laneMaskAll 3) {} :=
    simt_refines_lanes (by decide) (by decide) (by decide) hfits
      fun _ _ _ issue _ => regsAligned_of_kernel (by decide) issue.pc
  obtain ⟨steps, w, hrun, hdone, hsteps, hregs⟩ := hrefines (fun _ => 6)
    fun lane hlane => (skip_lane_run (hfits.lt lane hlane)).1
  have hall :
      (Finset.range 32).filter (fun lane => (laneMaskAll 3).has lane = true) = {0, 1, 2} := by
    decide
  rw [hall, Finset.sum_insert (by decide), Finset.sum_insert (by decide), Finset.sum_singleton,
    (skip_lane_run (by decide)).2.1, (skip_lane_run (by decide)).2.1,
    (skip_lane_run (by decide)).2.1] at hsteps
  refine ⟨steps, w, hsteps, hrun, hdone, fun lane hlane => ?_⟩
  have hactive : (laneMaskAll 3).has lane = true := by
    rw [has_laneMaskAll (by decide)]
    exact decide_eq_true hlane
  have hrow : (3 + lane) % skipCtx.warpSize = lane := by
    change (3 + lane) % 3 = lane
    omega
  rw [(hregs lane hactive).rU32 (3 + lane) hrow]
  exact (skip_lane_run hlane).2.2

end ProtoGpu

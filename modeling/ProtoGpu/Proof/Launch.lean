import ProtoGpu.Simt.Launch
import ProtoGpu.Proof.SimtStack

/-!
# What a launch starts from

The checks of `run` bound the shape of the launch, and the initial mask of a warp is the prefix of
its lanes that fall inside the block.
-/

namespace ProtoGpu

/-- The launch passed the checks of `run` with these locals. -/
structure LaunchPlan.Checked (launch : LaunchConfig) (plan : LaunchPlan) : Prop where
  gridPos : 0 < launch.gridDim.x.toNat ∧ 0 < launch.gridDim.y.toNat ∧ 0 < launch.gridDim.z.toNat
  blockPos : 0 < launch.blockDim.x.toNat ∧ 0 < launch.blockDim.y.toNat
    ∧ 0 < launch.blockDim.z.toNat
  threadsPerBlock : plan.threadsPerBlock
    = launch.blockDim.x.toNat * launch.blockDim.y.toNat * launch.blockDim.z.toNat
  threadsLt : plan.threadsPerBlock < 2 ^ 64
  warpSizePos : 0 < plan.warpSize
  warpSizeLe : plan.warpSize ≤ 32
  warpCount : plan.warpCount = (plan.threadsPerBlock + plan.warpSize - 1) % 2 ^ 64 / plan.warpSize

theorem mulU64Overflow_false {a b out : Nat} (h : mulU64Overflow a b = (false, out)) :
    out = a * b ∧ out < 2 ^ 64 := by
  unfold mulU64Overflow at h
  split at h
  next hzero =>
    cases h
    rcases hzero with rfl | rfl <;> simp
  next hne =>
    split at h
    · cases h
    next hle =>
      cases h
      refine ⟨rfl, ?_⟩
      have hb : 0 < b := by omega
      have := (Nat.le_div_iff_mul_le hb).mp (Nat.le_of_not_gt hle)
      omega

theorem toNat_pos_of_ne_zero {x : BitVec 32} (h : x ≠ 0) : 0 < x.toNat := by
  have hne : x.toNat ≠ 0 := fun hzero => h (BitVec.eq_of_toNat_eq (by simpa using hzero))
  omega

theorem checkLaunch_ok {cfg : SimConfig} {kernel : KernelImage} {launch : LaunchConfig}
    {plan : LaunchPlan} (h : checkLaunch cfg kernel launch = .ok plan) :
    plan.Checked launch := by
  unfold checkLaunch at h
  dsimp only at h
  split at h
  · cases h
  next hdims =>
    simp only [not_or] at hdims
    obtain ⟨hgx, hgy, hgz, hbx, hby, hbz⟩ := hdims
    split at h
    · cases h
    next hoverflow =>
      simp only [Bool.or_eq_true, not_or, Bool.not_eq_true] at hoverflow
      obtain ⟨hxy, hxyLt⟩ := mulU64Overflow_false (Prod.ext hoverflow.1 rfl)
      obtain ⟨hxyz, hxyzLt⟩ := mulU64Overflow_false (Prod.ext hoverflow.2 rfl)
      by_cases hws : (if launch.warpSize = 0 then cfg.warpSize else launch.warpSize) = 0
          ∨ (if launch.warpSize = 0 then cfg.warpSize else launch.warpSize) > 32
      · rw [if_pos hws] at h
        cases h
      rw [if_neg hws] at h
      by_cases hmodel : cfg.memoryModel ≠ "no_cache_addrspace" ∧ ¬ cfg.allowUnknownSelectors
      · rw [if_pos hmodel] at h
        cases h
      rw [if_neg hmodel] at h
      by_cases hcta : createCtaScheduler cfg.ctaScheduler = none ∧ ¬ cfg.allowUnknownSelectors
      · rw [if_pos hcta] at h
        cases h
      rw [if_neg hcta] at h
      by_cases hwarp : createWarpScheduler cfg.warpScheduler = none ∧ ¬ cfg.allowUnknownSelectors
      · rw [if_pos hwarp] at h
        cases h
      rw [if_neg hwarp] at h
      cases h
      rw [not_or] at hws
      refine ⟨⟨toNat_pos_of_ne_zero hgx, toNat_pos_of_ne_zero hgy, toNat_pos_of_ne_zero hgz⟩,
        ⟨toNat_pos_of_ne_zero hbx, toNat_pos_of_ne_zero hby, toNat_pos_of_ne_zero hbz⟩,
        hxyz.trans (congrArg (· * _) hxy), hxyzLt, Nat.pos_of_ne_zero hws.1,
          Nat.le_of_not_gt hws.2, rfl⟩

section Checked

variable {launch : LaunchConfig} {plan : LaunchPlan}

/-- Every warp the block counts has a thread: its first lane lies inside the block. -/
theorem LaunchPlan.Checked.laneBase_lt (h : plan.Checked launch) {w : BitVec 32}
    (hw : w.toNat < plan.warpCount) :
    (w * BitVec.ofNat 32 plan.warpSize).toNat < plan.threadsPerBlock := by
  have hws := h.warpSizePos
  have hws32 := h.warpSizeLe
  have hlt := h.threadsLt
  have hbase : (w * BitVec.ofNat 32 plan.warpSize).toNat ≤ w.toNat * plan.warpSize := by
    rw [BitVec.toNat_mul, BitVec.toNat_ofNat,
      Nat.mod_eq_of_lt (show plan.warpSize < 2 ^ 32 by omega)]
    exact Nat.mod_le _ _
  have hbase32 := (w * BitVec.ofNat 32 plan.warpSize).isLt
  rw [h.warpCount] at hw
  by_cases hwrap : plan.threadsPerBlock + plan.warpSize - 1 < 2 ^ 64
  · rw [Nat.mod_eq_of_lt hwrap, Nat.lt_iff_add_one_le, Nat.le_div_iff_mul_le hws,
      Nat.add_mul, Nat.one_mul] at hw
    omega
  · omega

theorem initWarp_active (h : plan.Checked launch) (kernel : KernelImage) (item : CtaWorkItem)
    (w : BitVec 32) :
    ∃ lanesOn, lanesOn = min plan.warpSize
        (plan.threadsPerBlock - (w * BitVec.ofNat 32 plan.warpSize).toNat)
      ∧ ∀ lane, (initWarp kernel launch plan item w).active.has lane = decide (lane < lanesOn) := by
  have hws := h.warpSizeLe
  refine ⟨_, rfl, fun lane => ?_⟩
  have hon : ∀ n : Nat, (if n ≥ plan.warpSize then plan.warpSize else n) = min plan.warpSize n := by
    intro n
    split <;> omega
  have hrem : (if plan.threadsPerBlock > (w * BitVec.ofNat 32 plan.warpSize).toNat then
      plan.threadsPerBlock - (w * BitVec.ofNat 32 plan.warpSize).toNat else 0)
        = plan.threadsPerBlock - (w * BitVec.ofNat 32 plan.warpSize).toNat := by
    split <;> omega
  simp only [initWarp, hrem, hon]
  exact has_laneMaskPrefix h.warpSizePos (by omega) lane

end Checked

end ProtoGpu

import ProtoGpu.Simt.WarpStep

/-!
# Launching a grid

What `SimtExecutor::run` (`simt.cpp`) does before any warp steps: the checks of the launch and of
the selectors, the CTA work items in submission order, and the warps of one CTA. Dimensions and the
warp counter are 32-bit, `threads_per_block` and `warp_count` are 64-bit.
-/

namespace ProtoGpu

structure SimConfig where
  warpSize : Nat := 32
  maxSteps : Nat := 100000
  smCount : Nat := 1
  parallel : Bool := false
  deterministic : Bool := false
  ctaScheduler : String := "fifo"
  warpScheduler : String := "in_order_run_to_completion"
  memoryModel : String := "no_cache_addrspace"
  allowUnknownSelectors : Bool := false
deriving DecidableEq, Repr

structure CtaWorkItem where
  cx : BitVec 32 := 0
  cy : BitVec 32 := 0
  cz : BitVec 32 := 0
  ctaLinear : BitVec 64 := 0
deriving DecidableEq, Repr

inductive CtaSchedulerKind where
  | fifo | smRoundRobin
deriving DecidableEq, Repr

inductive WarpSchedulerKind where
  | inOrderRunToCompletion | roundRobinInterleaveStep
deriving DecidableEq, Repr

def createCtaScheduler (name : String) : Option CtaSchedulerKind :=
  if name == "fifo" then some .fifo
  else if name == "sm_round_robin" then some .smRoundRobin
  else none

def createWarpScheduler (name : String) : Option WarpSchedulerKind :=
  if name == "in_order_run_to_completion" then some .inOrderRunToCompletion
  else if name == "round_robin_interleave_step" then some .roundRobinInterleaveStep
  else none

/-- The locals of `run` once its checks have passed. -/
structure LaunchPlan where
  threadsPerBlock : Nat
  warpSize : Nat
  warpCount : Nat
  smCount : Nat
  ctaSched : CtaSchedulerKind
  warpSched : WarpSchedulerKind
deriving DecidableEq, Repr

/-- `mul_u64_overflow`: whether the product overflows, and the product when it does not. -/
def mulU64Overflow (a b : Nat) : Bool × Nat :=
  if a = 0 ∨ b = 0 then (false, 0)
  else if a > (2 ^ 64 - 1) / b then (true, 0)
  else (false, a * b)

def launchDiag (kernel : KernelImage) (code message : String) : Diagnostic :=
  { module := "simt", code := code, message := message, function := some kernel.name }

def SimConfig.parallelEnabled (cfg : SimConfig) : Bool :=
  cfg.parallel && !cfg.deterministic && decide (cfg.smCount > 1)

def checkLaunch (cfg : SimConfig) (kernel : KernelImage) (launch : LaunchConfig) :
    Except Diagnostic LaunchPlan :=
  let grid := launch.gridDim
  let block := launch.blockDim
  if grid.x = 0 ∨ grid.y = 0 ∨ grid.z = 0 ∨ block.x = 0 ∨ block.y = 0 ∨ block.z = 0 then
    .error (launchDiag kernel "E_LAUNCH_DIM" "grid/block dims must be >= 1")
  else
    let (of1, threadsXy) := mulU64Overflow block.x.toNat block.y.toNat
    let (of2, threadsPerBlock) := mulU64Overflow threadsXy block.z.toNat
    if of1 || of2 then
      .error (launchDiag kernel "E_LAUNCH_OVERFLOW" "threads_per_block overflow")
    else
      let warpSize := if launch.warpSize = 0 then cfg.warpSize else launch.warpSize
      if warpSize = 0 ∨ warpSize > 32 then
        .error (launchDiag kernel "E_WARP_SIZE" "warp_size must be in [1,32]")
      else if cfg.memoryModel ≠ "no_cache_addrspace" ∧ ¬ cfg.allowUnknownSelectors then
        .error (launchDiag kernel "E_MEMORY_MODEL" ("unknown memory.model: " ++ cfg.memoryModel))
      else if createCtaScheduler cfg.ctaScheduler = none ∧ ¬ cfg.allowUnknownSelectors then
        .error (launchDiag kernel "E_CTA_SCHED" ("unknown CTA scheduler: " ++ cfg.ctaScheduler))
      else if createWarpScheduler cfg.warpScheduler = none ∧ ¬ cfg.allowUnknownSelectors then
        .error (launchDiag kernel "E_WARP_SCHED"
          ("unknown warp scheduler: " ++ cfg.warpScheduler))
      else
        .ok
          { threadsPerBlock := threadsPerBlock
            warpSize := warpSize
            warpCount := (threadsPerBlock + warpSize - 1) % 2 ^ 64 / warpSize
            smCount := if cfg.parallelEnabled then cfg.smCount else 1
            ctaSched := (createCtaScheduler cfg.ctaScheduler).getD .fifo
            warpSched :=
              (createWarpScheduler cfg.warpScheduler).getD .inOrderRunToCompletion }

/-! ### CTA work items -/

def ctaItem (grid : Dim3) (cz cy cx : Nat) : CtaWorkItem :=
  let cz : BitVec 32 := BitVec.ofNat 32 cz
  let cy : BitVec 32 := BitVec.ofNat 32 cy
  let cx : BitVec 32 := BitVec.ofNat 32 cx
  { cx := cx, cy := cy, cz := cz
    ctaLinear :=
      (cz.setWidth 64 * grid.y.setWidth 64 + cy.setWidth 64) * grid.x.setWidth 64
        + cx.setWidth 64 }

/-- The items in the order the three nested loops submit them. -/
def ctaItems (grid : Dim3) : List CtaWorkItem :=
  (List.range grid.z.toNat).flatMap fun cz =>
    (List.range grid.y.toNat).flatMap fun cy =>
      (List.range grid.x.toNat).map fun cx => ctaItem grid cz cy cx

/-! ### The warps of a CTA -/

def initWarp (kernel : KernelImage) (launch : LaunchConfig) (plan : LaunchPlan)
    (item : CtaWorkItem) (w : BitVec 32) : WarpState :=
  let warpSize := plan.warpSize
  let laneBase : BitVec 32 := w * BitVec.ofNat 32 warpSize
  let remaining :=
    if plan.threadsPerBlock > laneBase.toNat then plan.threadsPerBlock - laneBase.toNat else 0
  let lanesOn := if remaining ≥ warpSize then warpSize else remaining
  let active := laneMaskPrefix warpSize lanesOn
  { launch := { launch with warpSize := warpSize }
    ctaid := { x := item.cx, y := item.cy, z := item.cz }
    warpid := w
    laneBaseThreadLinear := laneBase
    pc := 0
    done := false
    active := active
    exited := { width := warpSize, bitsLo := 0 }
    simtStack := [{ pc := 0, active := active, reconvPc := kernel.insts.length, isJoin := false }]
    rU32 := List.replicate (kernel.regU32Count * warpSize) 0
    rU64 := List.replicate (kernel.regU64Count * warpSize) 0
    p := List.replicate (8 * warpSize) 1 }

/-- `for (uint32_t w = 0; w < warp_count; w++) warps[w] = ...`, where `warp_count` is 64-bit: the
state after `fuel` turns, or the finished vector. -/
def initLoop (init : BitVec 32 → WarpState) (warpCount : Nat) :
    Nat → BitVec 32 → List WarpState → Option (List WarpState)
  | 0, _, _ => none
  | fuel + 1, w, warps =>
      if w.toNat < warpCount then
        initLoop init warpCount fuel (w + 1) (warps.set w.toNat (init w))
      else some warps

/-- The initialised vector, when `fuel` turns finish the loop. -/
def initWarps (kernel : KernelImage) (launch : LaunchConfig) (plan : LaunchPlan)
    (item : CtaWorkItem) (fuel : Nat) : Option (List WarpState) :=
  initLoop (initWarp kernel launch plan item) plan.warpCount fuel 0
    (List.replicate plan.warpCount {})

end ProtoGpu

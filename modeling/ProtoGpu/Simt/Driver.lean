import ProtoGpu.Simt.WarpStep
import ProtoGpu.Simt.WarpScheduler
import ProtoGpu.Runtime.CtaScheduler

/-!
# The SM workers

What `SimtExecutor::run` (`simt.cpp`) does once its checks have passed: the CTAs are submitted and
the scheduler closed, then each worker acquires CTAs and runs `run_one_cta` on them. A step of the
system is one access of one worker to what the workers share: the step counter, the stop flag, the
diagnostic, the CTA scheduler and the memory. The single-threaded driver is one worker that tests
the diagnostic where the others test the step limit and the stop flag.

A step of a warp is one access here. Its accesses of global memory are under a lock in the source.
Its accesses of local memory are not: the workers share one hash table, and a store to it next to
another worker's access is a data race, which the steps below put in some order. What is shown of
their runs is about the code where no such race comes up (`DriverEnv.RaceFree`).
-/

namespace ProtoGpu

structure DriverEnv where
  cfg : SimConfig
  plan : LaunchPlan
  kernel : KernelImage
  launch : LaunchConfig
  registry : DescriptorRegistry
  floatOps : FloatOps

namespace DriverEnv

variable (env : DriverEnv)

def parallel : Bool := env.cfg.parallelEnabled

def policy : CtaPolicy := env.plan.ctaSched.policy env.plan.smCount

def warpContext (reconvPc : List (Option Int)) : WarpContext where
  kernel := env.kernel
  registry := env.registry
  warpSize := env.plan.warpSize
  reconvPc := reconvPc
  floatOps := env.floatOps

def initWarp (item : CtaWorkItem) (w : BitVec 32) : WarpState :=
  ProtoGpu.initWarp env.kernel env.launch env.plan item w

/-- The warps of a CTA, if the loop that initialises them ends. -/
def initWarps (item : CtaWorkItem) : Option (List WarpState) :=
  ProtoGpu.initWarps env.kernel env.launch env.plan item (env.plan.warpCount + 1)

end DriverEnv

/-- The locals of `run_one_cta` inside its step loop. -/
structure CtaRun where
  item : CtaWorkItem
  reconvPc : List (Option Int)
  warps : List WarpState
  sched : WarpScheduler

namespace CtaRun

/-- `w >= warp_count ? true : warps[w].done`. -/
def isWarpDone (cta : CtaRun) (w : BitVec 32) : Bool :=
  match cta.warps[w.toNat]? with
  | some warp => warp.done
  | none => true

def pickNext (cta : CtaRun) (warpCount : Nat) : Option (BitVec 32) × CtaRun :=
  let r := cta.sched.pickNext (BitVec.ofNat 32 warpCount) cta.isWarpDone
  (r.1, { cta with sched := r.2 })

def setWarp (cta : CtaRun) (w : BitVec 32) (warp : WarpState) : CtaRun :=
  { cta with warps := cta.warps.set w.toNat warp }

end CtaRun

/-- Where a worker is. -/
inductive WorkerPhase where
  | top                                     -- at the head of its loop
  | leaving                                 -- about to request a stop, then to end
  | acquiring
  | received (item : CtaWorkItem)
  | looping (cta : CtaRun)                  -- at the step limit
  | stopTest (cta : CtaRun)
  | picking (cta : CtaRun)
  | stepping (cta : CtaRun) (w : BitVec 32)
  | retired (cta : CtaRun)                  -- `normalize_stack` returned false
  | counting (cta : CtaRun)
  | stopping                                -- about to request a stop, then to return
  | returned                                -- back from `run_one_cta`
  | ended

structure DriverState where
  cta : CtaSystem
  steps : BitVec 64 := 0
  diag : Option Diagnostic := none
  mem : MemState := {}
  worker : SmId → WorkerPhase

def DriverState.moveTo (s : DriverState) (smId : SmId) (phase : WorkerPhase) : DriverState :=
  { s with worker := Function.update s.worker smId phase }

def DriverState.requestStop (s : DriverState) : DriverState :=
  { s with cta := { s.cta with sched := s.cta.sched.requestStop } }

/-- `shared_steps >= cfg_.max_steps`. -/
def DriverState.limitReached (s : DriverState) (env : DriverEnv) : Bool :=
  decide (s.steps.toNat ≥ env.cfg.maxSteps)

inductive DriverEvent where
  | sched (e : CtaEvent)
  /-- A step limit test that succeeded, in the step loop of a CTA or before one is acquired. -/
  | limit (smId : SmId) (cta : Option CtaRun)
  /-- `run_one_cta` left its step loop: there was a stop, or no warp to pick. -/
  | left (smId : SmId) (cta : CtaRun)
  | internal (smId : SmId)

/-- The worker's own next step, outside of `acquire`. There is none where an exception ends the
program, where the code is undefined, or where the loop over the warps does not end. -/
def workerStep (env : DriverEnv) (smId : SmId) (s : DriverState) :
    Option (DriverEvent × DriverState) :=
  match s.worker smId with
  | .top =>
      if env.parallel && s.limitReached env then
        some (.limit smId none, s.moveTo smId .leaving)
      else some (.internal smId, s.moveTo smId .acquiring)
  | .leaving => some (.sched .requestStop, s.requestStop.moveTo smId .ended)
  | .acquiring => none
  | .received item =>
      match env.initWarps item with
      | none => none
      | some warps =>
          match analyzeControlFlow env.kernel env.registry env.plan.warpSize with
          | .error d => some (.internal smId, { s.moveTo smId .stopping with diag := some d })
          | .ok reconvPc =>
              let cta : CtaRun :=
                { item := item
                  reconvPc := reconvPc
                  warps := warps
                  sched := WarpScheduler.onCtaStart env.plan.warpSched }
              some (.internal smId, s.moveTo smId (.looping cta))
  | .looping cta =>
      if s.limitReached env then some (.limit smId (some cta), s.moveTo smId .stopping)
      else some (.internal smId, s.moveTo smId (.stopTest cta))
  | .stopTest cta =>
      if s.cta.sched.stop then some (.left smId cta, s.moveTo smId .returned)
      else some (.internal smId, s.moveTo smId (.picking cta))
  | .picking cta =>
      match cta.pickNext env.plan.warpCount with
      | (none, cta) => some (.left smId cta, s.moveTo smId .returned)
      | (some w, cta) =>
          let phase := if cta.isWarpDone w then .looping cta else .stepping cta w
          some (.internal smId, s.moveTo smId phase)
  | .stepping cta w =>
      match cta.warps[w.toNat]? with
      | none => none
      | some warp =>
          match warpStep (env.warpContext cta.reconvPc) warp s.mem with
          | (.error .host, _) => none
          | (.error .undefined, _) => none
          | (.error (.diag d), _, mem) =>
              some (.internal smId, { s.moveTo smId .stopping with mem := mem, diag := some d })
          | (.ok .retired, warp, mem) =>
              some (.internal smId,
                { s.moveTo smId (.retired (cta.setWarp w warp)) with mem := mem })
          | (.ok (.issued _), warp, mem) =>
              some (.internal smId,
                { s.moveTo smId (.counting (cta.setWarp w warp)) with mem := mem })
  | .retired cta =>
      let phase := if s.diag.isSome then .stopping else .looping cta
      some (.internal smId, s.moveTo smId phase)
  | .counting cta =>
      some (.internal smId, { s.moveTo smId (.looping cta) with steps := s.steps + 1 })
  | .stopping => some (.sched .requestStop, s.requestStop.moveTo smId .returned)
  | .returned =>
      let ends := if env.parallel then s.cta.sched.stop else s.diag.isSome
      some (.internal smId, s.moveTo smId (if ends then .ended else .top))
  | .ended => none

/-- The worker an event of `acquire` belongs to. -/
def CtaEvent.worker? : CtaEvent → Option SmId
  | .submit _ | .close | .requestStop => none
  | .call smId | .look smId | .wake smId | .goOn smId | .ret smId _ => some smId

/-- Where the worker is after an event of `acquire`. -/
def CtaEvent.phaseAfter : CtaEvent → WorkerPhase
  | .ret _ none => .ended
  | .ret _ (some item) => .received item
  | _ => .acquiring

/-- One step of one worker. -/
inductive DriverStep (env : DriverEnv) : DriverState → DriverEvent → DriverState → Prop
  | work {s t : DriverState} {e : DriverEvent} (smId : SmId) :
      workerStep env smId s = some (e, t) → DriverStep env s e t
  | acquire {s : DriverState} {e : CtaEvent} {cta : CtaSystem} (smId : SmId) :
      s.worker smId = .acquiring → e.worker? = some smId →
      CtaStep env.policy env.plan.smCount s.cta e cta →
      DriverStep env s (.sched e) ({ s with cta := cta }.moveTo smId e.phaseAfter)

/-- All CTAs submitted, the scheduler closed, the workers at the head of their loops. -/
def DriverEnv.start (env : DriverEnv) (mem : MemState) : DriverState where
  cta :=
    { sched :=
        ((ctaItems env.launch.gridDim).foldl (CtaScheduler.submit env.policy) {}).close }
  mem := mem
  worker := fun smId => if smId.toNat < env.plan.smCount then .top else .ended

structure SimResult where
  completed : Bool := false
  diag : Option Diagnostic := none
  steps : BitVec 64 := 0
deriving DecidableEq, Repr

def DriverState.result (s : DriverState) : SimResult where
  completed := !s.diag.isSome
  diag := s.diag
  steps := s.steps

def DriverState.Ended (s : DriverState) : Prop := ∀ smId, s.worker smId = .ended

end ProtoGpu

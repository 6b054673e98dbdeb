import ProtoGpu.Simt.Launch
import Mathlib.Logic.Function.Basic

/-!
# CTA schedulers

`FifoCtaScheduler` and `SmRoundRobinCtaScheduler` (`cta_scheduler.cpp`), and the threads that use
one. The two differ only in the deque an item joins and the deque a worker takes from. `acquire` is
split where other threads can come in between: at the mutex, at each look at `stop_`, and in
`cv_.wait`.
-/

namespace ProtoGpu

abbrev SmId := BitVec 64

structure CtaPolicy where
  submitQueue : CtaWorkItem → Nat
  acquireQueue : SmId → Nat

def fifoCtaScheduler : CtaPolicy :=
  { submitQueue := fun _ => 0
    acquireQueue := fun _ => 0 }

def smRoundRobinCtaScheduler (smCount : Nat) : CtaPolicy :=
  let smCount := if smCount = 0 then 1 else smCount
  { submitQueue := fun item => item.ctaLinear.toNat % smCount
    acquireQueue := fun smId => smId.toNat % smCount }

def CtaSchedulerKind.policy (kind : CtaSchedulerKind) (smCount : Nat) : CtaPolicy :=
  match kind with
  | .fifo => fifoCtaScheduler
  | .smRoundRobin => smRoundRobinCtaScheduler smCount

structure CtaScheduler where
  q : Nat → List CtaWorkItem := fun _ => []
  closed : Bool := false
  stop : Bool := false

namespace CtaScheduler

variable (p : CtaPolicy)

def submit (s : CtaScheduler) (item : CtaWorkItem) : CtaScheduler :=
  let sm := p.submitQueue item
  { s with q := Function.update s.q sm (s.q sm ++ [item]) }

def close (s : CtaScheduler) : CtaScheduler := { s with closed := true }

def requestStop (s : CtaScheduler) : CtaScheduler := { s with stop := true }

/-- The condition `acquire` waits for. -/
def awaited (s : CtaScheduler) (smId : SmId) : Bool :=
  s.stop || !(s.q (p.acquireQueue smId)).isEmpty || s.closed

/-- The rest of `acquire`, once it has seen no stop. -/
def popFront (s : CtaScheduler) (smId : SmId) : Option CtaWorkItem × CtaScheduler :=
  let sm := p.acquireQueue smId
  match s.q sm with
  | [] => (none, s)
  | item :: rest => (some item, { s with q := Function.update s.q sm rest })

end CtaScheduler

/-! ### Threads -/

/-- Where a worker is in `acquire`. -/
inductive AcquirePhase where
  | outside
  | entered  -- wants the mutex, for the first time or woken up
  | waiting  -- asleep in `cv_.wait`
  | ready    -- has the mutex and what it waited for
  | taking   -- has the mutex and has seen no stop
deriving DecidableEq, Repr

structure CtaSystem where
  sched : CtaScheduler := {}
  mutex : Option SmId := none
  phase : SmId → AcquirePhase := fun _ => .outside

inductive CtaEvent where
  | submit (item : CtaWorkItem)
  | close
  | requestStop
  | call (smId : SmId)
  | look (smId : SmId)
  | wake (smId : SmId)
  | goOn (smId : SmId)
  | ret (smId : SmId) (item : Option CtaWorkItem)
deriving DecidableEq, Repr

def CtaSystem.moveTo (s : CtaSystem) (smId : SmId) (phase : AcquirePhase) : CtaSystem :=
  { s with phase := Function.update s.phase smId phase }

/-- One atomic step of one thread. `request_stop` does not take the mutex, and a wake-up may be
spurious. -/
inductive CtaStep (p : CtaPolicy) (smCount : Nat) : CtaSystem → CtaEvent → CtaSystem → Prop
  | submit {s : CtaSystem} (item : CtaWorkItem) : s.mutex = none →
      CtaStep p smCount s (.submit item) { s with sched := s.sched.submit p item }
  | close {s : CtaSystem} : s.mutex = none →
      CtaStep p smCount s .close { s with sched := s.sched.close }
  | requestStop {s : CtaSystem} :
      CtaStep p smCount s .requestStop { s with sched := s.sched.requestStop }
  | call {s : CtaSystem} (smId : SmId) : smId.toNat < smCount → s.phase smId = .outside →
      CtaStep p smCount s (.call smId) (s.moveTo smId .entered)
  | sleep {s : CtaSystem} (smId : SmId) : s.phase smId = .entered → s.mutex = none →
      s.sched.awaited p smId = false →
      CtaStep p smCount s (.look smId) (s.moveTo smId .waiting)
  | wake {s : CtaSystem} (smId : SmId) : s.phase smId = .waiting →
      CtaStep p smCount s (.wake smId) (s.moveTo smId .entered)
  | pass {s : CtaSystem} (smId : SmId) : s.phase smId = .entered → s.mutex = none →
      s.sched.awaited p smId = true →
      CtaStep p smCount s (.look smId) { s.moveTo smId .ready with mutex := some smId }
  | stopped {s : CtaSystem} (smId : SmId) : s.phase smId = .ready → s.sched.stop = true →
      CtaStep p smCount s (.ret smId none) { s.moveTo smId .outside with mutex := none }
  | goOn {s : CtaSystem} (smId : SmId) : s.phase smId = .ready → s.sched.stop = false →
      CtaStep p smCount s (.goOn smId) (s.moveTo smId .taking)
  | take {s : CtaSystem} (smId : SmId) : s.phase smId = .taking →
      CtaStep p smCount s (.ret smId (s.sched.popFront p smId).1)
        { s.moveTo smId .outside with sched := (s.sched.popFront p smId).2, mutex := none }

/-! ### What a run did -/

def submitted (events : List CtaEvent) : List CtaWorkItem :=
  events.filterMap fun
    | .submit item => some item
    | _ => none

/-- The items `acquire` has returned, with the worker each went to. -/
def acquired (events : List CtaEvent) : List (SmId × CtaWorkItem) :=
  events.filterMap fun
    | .ret smId (some item) => some (smId, item)
    | _ => none

end ProtoGpu

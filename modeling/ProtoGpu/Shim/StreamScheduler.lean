import Mathlib.Logic.Function.Basic

/-!
# The stream scheduler of the shim

`StreamScheduler::submit` (`stream_scheduler.cpp`) appends a command to the queue of its stream and
takes the whole queue out again under one mutex, and runs what it took after the mutex is released.
Two exports submit (`exports.cpp`): the command of `cudaMemcpyAsync` locks the global mutex itself,
and `cudaLaunchKernel` holds the global mutex around its `submit`.
-/

namespace ProtoGpu

abbrev CudaStream := BitVec 64

abbrev ThreadId := Nat

inductive Submitter where
  | memcpyAsync
  | launchKernel
deriving DecidableEq, Repr

/-- A submitted command; `call` numbers the submissions of its thread. -/
structure Command where
  thread : ThreadId
  call : Nat
  stream : CudaStream
  submitter : Submitter
deriving DecidableEq, Repr

structure StreamScheduler where
  queues : CudaStream → List Command := fun _ => []

/-- What `submit` does under the mutex: the commands it took, and the scheduler it leaves. -/
def StreamScheduler.enqueue (sched : StreamScheduler) (cmd : Command) :
    List Command × StreamScheduler :=
  let q := sched.queues cmd.stream ++ [cmd]
  (q, { queues := Function.update sched.queues cmd.stream [] })

/-- Where a thread is in its call. -/
inductive SubmitPhase where
  | outside
  | entered (cmd : Command)                             -- wants the mutex of the scheduler
  | looping (cmd : Command) (toRun : List Command)      -- between two commands of `to_run`
  | waiting (cmd c : Command) (toRun : List Command)    -- in `c`, wants the global mutex
  | running (cmd c : Command) (toRun : List Command)    -- in `c`
deriving DecidableEq, Repr

/-- The commands a thread has taken and not finished. -/
def SubmitPhase.pending : SubmitPhase → List Command
  | .outside => []
  | .entered _ => []
  | .looping _ toRun => toRun
  | .waiting _ c toRun => c :: toRun
  | .running _ c toRun => c :: toRun

structure StreamSystem where
  sched : StreamScheduler := {}
  globalMutex : Option ThreadId := none
  calls : ThreadId → Nat := fun _ => 0
  phase : ThreadId → SubmitPhase := fun _ => .outside

def StreamSystem.moveTo (s : StreamSystem) (t : ThreadId) (phase : SubmitPhase) : StreamSystem :=
  { s with phase := Function.update s.phase t phase }

inductive StreamEvent where
  | call (cmd : Command)
  | append (cmd : Command)
  | start (c : Command)
  | lock (c : Command)
  | finish (c : Command) (threw : Bool)
  | ret (cmd : Command)
deriving DecidableEq, Repr

def Submitter.phaseIn (submitter : Submitter) (cmd c : Command) (toRun : List Command) :
    SubmitPhase :=
  match submitter with
  | .memcpyAsync => .waiting cmd c toRun
  | .launchKernel => .running cmd c toRun

/-- The global mutex behind a command, which unlocks what it locked. -/
def Submitter.unlocked (submitter : Submitter) (held : Option ThreadId) : Option ThreadId :=
  match submitter with
  | .memcpyAsync => none
  | .launchKernel => held

/-- One atomic step of the thread of a call. A command that throws ends the loop over `to_run`. -/
inductive SubmitStep : StreamSystem → StreamEvent → StreamSystem → Prop
  | callMemcpy {s : StreamSystem} (t : ThreadId) (stream : CudaStream) :
      s.phase t = .outside →
      SubmitStep s (.call ⟨t, s.calls t, stream, .memcpyAsync⟩)
        { s.moveTo t (.entered ⟨t, s.calls t, stream, .memcpyAsync⟩) with
          calls := Function.update s.calls t (s.calls t + 1) }
  | callLaunch {s : StreamSystem} (t : ThreadId) (stream : CudaStream) :
      s.phase t = .outside → s.globalMutex = none →
      SubmitStep s (.call ⟨t, s.calls t, stream, .launchKernel⟩)
        { s.moveTo t (.entered ⟨t, s.calls t, stream, .launchKernel⟩) with
          calls := Function.update s.calls t (s.calls t + 1), globalMutex := some t }
  | append {s : StreamSystem} (t : ThreadId) (cmd : Command) : s.phase t = .entered cmd →
      SubmitStep s (.append cmd)
        { s.moveTo t (.looping cmd (s.sched.enqueue cmd).1) with sched := (s.sched.enqueue cmd).2 }
  | start {s : StreamSystem} (t : ThreadId) (cmd c : Command) (toRun : List Command) :
      s.phase t = .looping cmd (c :: toRun) →
      SubmitStep s (.start c) (s.moveTo t (c.submitter.phaseIn cmd c toRun))
  | lock {s : StreamSystem} (t : ThreadId) (cmd c : Command) (toRun : List Command) :
      s.phase t = .waiting cmd c toRun → s.globalMutex = none →
      SubmitStep s (.lock c) { s.moveTo t (.running cmd c toRun) with globalMutex := some t }
  | finish {s : StreamSystem} (t : ThreadId) (cmd c : Command) (toRun : List Command)
      (threw : Bool) : s.phase t = .running cmd c toRun →
      SubmitStep s (.finish c threw)
        { s.moveTo t (.looping cmd (if threw then [] else toRun)) with
          globalMutex := c.submitter.unlocked s.globalMutex }
  | ret {s : StreamSystem} (t : ThreadId) (cmd : Command) : s.phase t = .looping cmd [] →
      SubmitStep s (.ret cmd)
        { s.moveTo t .outside with
          globalMutex := if cmd.submitter = .launchKernel then none else s.globalMutex }

/-! ### What a run did -/

def appended (events : List StreamEvent) : List Command :=
  events.filterMap fun
    | .append cmd => some cmd
    | _ => none

def started (events : List StreamEvent) : List Command :=
  events.filterMap fun
    | .start c => some c
    | _ => none

def finished (events : List StreamEvent) : List Command :=
  events.filterMap fun
    | .finish c _ => some c
    | _ => none

end ProtoGpu

import ProtoGpu.Lib.Logging
import ProtoGpu.Observability
import ProtoGpu.Runtime.Workload

/-!
# The trace of a workload

`run_workload` (`workload.cpp`) with the stream events it gives to `obs_.emit`: one when a command
is queued, and two before and one or two after a command runs. They are numbered by a counter of
their own.
-/

namespace ProtoGpu.Workload

open Logging
open Json (Value)

/-- `make_stream_event`. -/
def makeStreamEvent (ts : BitVec 64) (action : String) (streamId : StreamId) (cmdId : CmdId)
    (eventId : Option EventId) : Event where
  ts := ts
  category := .stream
  action := action.toList
  streamId := some (BitVec.ofNat 64 streamId)
  cmdId := some (BitVec.ofNat 64 cmdId)
  eventId := eventId.map (BitVec.ofNat 64)

/-- The arguments of `emit`. -/
structure Mark where
  action : String
  streamId : StreamId
  cmd : Command

def Mark.event (m : Mark) (ts : BitVec 64) : Event :=
  makeStreamEvent ts m.action m.streamId m.cmd.cmdId (m.cmd.event.map EventPayload.eventId)

/-- The events so far, and the counter `ts`. -/
structure StreamLog where
  events : List Event := []
  ts : BitVec 64 := 1

def StreamLog.add (log : StreamLog) (m : Mark) : StreamLog where
  events := log.events ++ [m.event log.ts]
  ts := log.ts + 1

def emit {ε : Type} (action : String) (sid : StreamId) (cmd : Command) : LogM StreamLog ε Unit :=
  record StreamLog.add { action := action, streamId := sid, cmd := cmd }

/-! ### Queues -/

def pushTraced (env : Env) (res : Resources) (sid : StreamId) (acc : List Command × CmdId)
    (cmdv : Value) : LogM StreamLog Throw (List Command × CmdId) := do
  let kind ← quietly (parseCommand env res cmdv)
  let cmd : Command := { cmdId := acc.2, streamId := sid, kind := kind }
  emit "cmd_enq" sid cmd
  return (acc.1 ++ [cmd], acc.2 + 1)

def buildTraced (env : Env) (res : Resources) (qs : Queues) (stream : (Text × Value) × StreamId) :
    LogM StreamLog Throw Queues := do
  let so ← quietly (asObject stream.1.2)
  let commands ← quietly (requireField so "commands")
  let cmds ← quietly (asArray commands)
  let (queue, nextCmdId) ← cmds.foldlM (pushTraced env res stream.2) ([], qs.nextCmdId)
  return { queue := Function.update qs.queue stream.2 queue, nextCmdId := nextCmdId }

/-- The declarations, and what they become before a stream is read. -/
def allocRoot (env : Env) (rt : Runtime) (root : Value) :
    Except Throw (Decls × Runtime × Resources) := do
  let o ← requireObject root "root must be object"
  let decls ← parseDecls env o
  let (rt, hostBufs) ← decls.hosts.foldlM (allocHostBuf env) (rt, [])
  let (rt, devBufs) ← decls.devices.foldlM allocDeviceBuf (rt, [])
  return (decls, rt,
    { hostBufs := hostBufs, devBufs := devBufs, modules := decls.modules
      eventIds := numbered decls.eventNames })

def prepareTraced (env : Env) (rt : Runtime) (path : Text) : LogM StreamLog Throw Prepared := do
  let text ← quietly (slurp env path)
  let root ← quietly (parseRoot text)
  let (decls, rt, res) ← quietly (allocRoot env rt root)
  let qs ← (numbered decls.streams).foldlM (buildTraced env res) {}
  return { rt := rt, devBufs := res.devBufs, streamIds := (numbered decls.streams).map Prod.snd
           queue := qs.queue }

/-! ### The schedule -/

/-- What the branches of the two event commands emit. -/
def emitEvent {ε : Type} (sid : StreamId) (cmd : Command) : LogM StreamLog ε Unit :=
  match cmd.kind with
  | .eventRecord _ => emit "event_record" sid cmd
  | .eventWait _ => emit "event_wait_done" sid cmd
  | _ => pure ()

def turnTraced (env : Env) (run : RunKernel) (devBufs : DeviceBufs) (round : Round)
    (sid : StreamId) : LogM StreamLog Exit Round :=
  match round.st.queue sid with
  | [] => pure round
  | cmd :: rest =>
      if ready round.st cmd then do
        emit "cmd_ready" sid cmd
        emit "cmd_submit" sid cmd
        let st ← quietly (execute env run devBufs cmd round.st)
        emitEvent sid cmd
        emit "cmd_complete" sid cmd
        return { st := { st with
                   queue := Function.update st.queue sid rest
                   executed := st.executed ++ [cmd] }
                 anyRemaining := true
                 progressed := true }
      else return { round with anyRemaining := true }

/-- `while (true)`, for at most `fuel` rounds. -/
def scheduleTraced (env : Env) (run : RunKernel) (p : Prepared) :
    Nat → ScheduleState → StreamLog → Option (Except Exit ScheduleState × StreamLog)
  | 0, _, _ => none
  | fuel + 1, st, log =>
      match exec (p.streamIds.foldlM (turnTraced env run p.devBufs) { st := st }) log with
      | (.error e, log) => some (.error e, log)
      | (.ok round, log) =>
          if !round.anyRemaining then some (.ok round.st, log)
          else if !round.progressed then some (.error (.deadlock round.st.totalSteps), log)
          else scheduleTraced env run p fuel round.st log

/-- `run_workload`, with the stream events of the run. -/
def runTraced (env : Env) (run : RunKernel) (rt : Runtime) (path : Text) (fuel : Nat) :
    Option (SimResult × StreamLog) :=
  match exec (prepareTraced env rt path) {} with
  | (.error t, log) => some (caught t, log)
  | (.ok p, log) => (scheduleTraced env run p fuel p.start log).map (Prod.map scheduleResult id)

end ProtoGpu.Workload

import ProtoGpu.Runtime.WorkloadArgs
import ProtoGpu.Simt.Driver

/-!
# Workloads

`run_workload` (`workload.cpp`): the document is read, its buffers are allocated, its commands are
queued by stream, and the queues are worked off round by round, one command of each stream that can
go on. What it reports are the `SimResult` and, as `cmd_complete` events, the commands it has
completed.
-/

namespace ProtoGpu.Workload

open Json (Value Object)

/-! ### Declarations -/

/-- `slurp`. -/
def slurp (env : Env) (path : Text) : Except Throw Text :=
  match env.files path with
  | some text => .ok text
  | none => .error (.fatal ("cannot open " ++ quoted path))

/-- `gpusim::json::parse`. -/
def parseRoot (text : Text) : Except Throw Value :=
  match Json.parse text with
  | .ok v => .ok v
  | .error (.error what) => .error (.parse what)
  | .error .depth => .error (.fatal "recursion depth")

structure Decls where
  hosts : List (Text × HostBufDecl)
  devices : List (Text × DeviceBufDecl)
  modules : List (Text × ModuleDecl)
  streams : Object
  eventNames : List Text

def parseDecls (env : Env) (o : Object) : Except Throw Decls := do
  let buffers ← asObject (← requireField o "buffers")
  let host ← asObject (← requireField buffers "host")
  let device ← asObject (← requireField buffers "device")
  let hosts ← host.mapM (parseHostBuf env.outOfRange)
  let devices ← device.mapM (parseDeviceBuf env.outOfRange)
  let mods ← asObject (← requireField o "modules")
  let modules ← mods.mapM parseModule
  let streams ← asObject (← requireField o "streams")
  let eventNames ← streams.foldlM collectStream []
  return { hosts := hosts, devices := devices, modules := modules, streams := streams
           eventNames := eventNames }

/-! ### Buffers -/

abbrev HostBufs := List (Text × HostBufId × BitVec 64)

/-- The initial bytes of a host buffer. -/
def writeInit (rt : Runtime) (id : HostBufId) (d : HostBufDecl) (bytes : List Byte)
    (message : String) : Except Throw Runtime :=
  if bytes.length > d.bytes.toNat then schemaFail message else orFatal (rt.hostWrite id 0 bytes)

def initHostBuf (env : Env) (rt : Runtime) (id : HostBufId) (name : Text) (d : HostBufDecl) :
    Except Throw Runtime :=
  match d.initKind with
  | .zeros => .ok rt
  | .hex => do
      let bytes ← parseHexBytes d.initPayload
      writeInit rt id d bytes ("host init hex bigger than buffer: " ++ quoted name)
  | .file => do
      let text ← slurp env d.initPayload
      let bytes := text.map fun c => BitVec.ofNat 8 c.toNat
      writeInit rt id d bytes ("host init file bigger than buffer: " ++ quoted name)

def allocHostBuf (env : Env) (acc : Runtime × HostBufs) (decl : Text × HostBufDecl) :
    Except Throw (Runtime × HostBufs) := do
  let (allocated, rt) := acc.1.hostAlloc env.hostFits decl.2.bytes
  let id ← orFatal allocated
  let rt ← initHostBuf env rt id decl.1 decl.2
  return (rt, acc.2 ++ [(decl.1, id, decl.2.bytes)])

def allocDeviceBuf (acc : Runtime × DeviceBufs) (decl : Text × DeviceBufDecl) :
    Except Throw (Runtime × DeviceBufs) :=
  if decl.2.bytes = 0 then schemaFail ("device buffer bytes must be >=1: " ++ quoted decl.1)
  else
    let (ptr, rt) := acc.1.deviceMalloc decl.2.bytes decl.2.align
    .ok (rt, acc.2 ++ [(decl.1, ptr, decl.2.bytes)])

/-! ### Commands -/

inductive CopyKind where
  | h2d | d2h | d2d | memset
deriving DecidableEq

structure CopyPayload where
  kind : CopyKind := .h2d
  host : HostBufId := 0
  hostOff : BitVec 64 := 0
  dev : Addr := 0
  devOff : BitVec 64 := 0
  bytes : BitVec 64 := 0
deriving DecidableEq

structure KernelPayload where
  mod : ModuleDecl
  moduleName : Text
  entry : Text
  launch : LaunchConfig
  args : List (Text × ArgValue)

structure EventPayload where
  eventId : EventId
  eventName : Text
deriving DecidableEq

inductive CommandKind where
  | copy (cp : CopyPayload)
  | kernel (kp : KernelPayload)
  | eventRecord (ev : EventPayload)
  | eventWait (ev : EventPayload)
  | sync

structure Command where
  cmdId : CmdId
  streamId : StreamId
  kind : CommandKind

def CommandKind.event : CommandKind → Option EventPayload
  | .eventRecord ev => some ev
  | .eventWait ev => some ev
  | _ => none

def Command.event (cmd : Command) : Option EventPayload := cmd.kind.event

/-- What the commands refer to. -/
structure Resources where
  hostBufs : HostBufs
  devBufs : DeviceBufs
  modules : List (Text × ModuleDecl)
  eventIds : List (Text × EventId)

def findHostBuf (res : Resources) (name : Text) : Except Throw (HostBufId × BitVec 64) :=
  match res.hostBufs.lookup name with
  | some buf => .ok buf
  | none => refFail ("host buffer not found: " ++ quoted name)

def findDeviceBuf (res : Resources) (name : Text) : Except Throw (Addr × BitVec 64) :=
  match res.devBufs.lookup name with
  | some buf => .ok buf
  | none => refFail ("device buffer not found: " ++ quoted name)

/-- The 64-bit sum is compared with the size of the buffer. -/
def checkRange (off bytes size : BitVec 64) (message : String) : Except Throw Unit :=
  if off + bytes > size then schemaFail message else .ok ()

def parseCopy (env : Env) (res : Resources) (cv : Value) : Except Throw CopyPayload := do
  let po ← requireObject cv "copy payload must be object"
  let kind ← requireString (← requireField po "kind") "copy.kind"
  let dst ← parseBufRef env.outOfRange (← requireField po "dst") "copy.dst"
  let src ← parseBufRef env.outOfRange (← requireField po "src") "copy.src"
  let bytes ← requireU64 env.outOfRange (← requireField po "bytes") "copy.bytes"
  if kind = "H2D".toList then
    let (host, hostSize) ← findHostBuf res src.name
    let (dev, devSize) ← findDeviceBuf res dst.name
    checkRange src.offset bytes hostSize ("H2D src out of range: " ++ quoted src.name)
    checkRange dst.offset bytes devSize ("H2D dst out of range: " ++ quoted dst.name)
    return { kind := .h2d, host := host, hostOff := src.offset, dev := dev, devOff := dst.offset
             bytes := bytes }
  else if kind = "D2H".toList then
    let (dev, devSize) ← findDeviceBuf res src.name
    let (host, hostSize) ← findHostBuf res dst.name
    checkRange src.offset bytes devSize ("D2H src out of range: " ++ quoted src.name)
    checkRange dst.offset bytes hostSize ("D2H dst out of range: " ++ quoted dst.name)
    return { kind := .d2h, host := host, hostOff := dst.offset, dev := dev, devOff := src.offset
             bytes := bytes }
  else schemaFail ("unsupported copy kind (v0 supports H2D/D2H): " ++ quoted kind)

def parseArgs (env : Env) (cv : Value) : Except Throw (List (Text × ArgValue)) :=
  match cv with
  | .object ko =>
      match Json.find? "args".toList ko with
      | some av => do
          let members ← requireObject av "kernel.args must be object"
          members.mapM fun (name, v) => do
            return (name, ← parseArgValue env.outOfRange v "kernel.args")
      | none => schemaFail "kernel.args missing"
  | _ => schemaFail "kernel.args missing"

def parseKernel (env : Env) (res : Resources) (cv : Value) : Except Throw KernelPayload := do
  let ko ← requireObject cv "kernel payload must be object"
  let moduleName ← requireString (← requireField ko "module") "kernel.module"
  let entry ← requireString (← requireField ko "entry") "kernel.entry"
  let gridDim ← parseDim3 env.outOfRange (← requireField ko "grid_dim") "kernel.grid_dim"
  let blockDim ← parseDim3 env.outOfRange (← requireField ko "block_dim") "kernel.block_dim"
  match res.modules.lookup moduleName with
  | none => refFail ("module not found: " ++ quoted moduleName)
  | some mod =>
      let args ← parseArgs env cv
      return { mod := mod, moduleName := moduleName, entry := entry, args := args
               launch :=
                 { gridDim := gridDim, blockDim := blockDim, warpSize := env.warpSize.toNat } }

/-- The payload of `event_record` and of `event_wait`. -/
def parseEvent (res : Resources) (cv : Value) (kind : String) : Except Throw EventPayload := do
  let eo ← requireObject cv (kind ++ " payload must be object")
  let name ← requireString (← requireField eo "event") (kind ++ ".event")
  match res.eventIds.lookup name with
  | none => refFail ("event not found: " ++ quoted name)
  | some id => return { eventId := id, eventName := name }

def parseCommand (env : Env) (res : Resources) (cmdv : Value) : Except Throw CommandKind := do
  let (ck, cv) ← commandMember cmdv
  if ck = "copy".toList then return .copy (← parseCopy env res cv)
  else if ck = "kernel".toList then return .kernel (← parseKernel env res cv)
  else if ck = "event_record".toList then return .eventRecord (← parseEvent res cv "event_record")
  else if ck = "event_wait".toList then return .eventWait (← parseEvent res cv "event_wait")
  else if ck = "sync".toList then return .sync
  else schemaFail ("unknown command kind: " ++ quoted ck)

/-! ### Queues -/

def pushCommand (env : Env) (res : Resources) (sid : StreamId) (acc : List Command × CmdId)
    (cmdv : Value) : Except Throw (List Command × CmdId) := do
  let kind ← parseCommand env res cmdv
  return (acc.1 ++ [{ cmdId := acc.2, streamId := sid, kind := kind }], acc.2 + 1)

/-- The queues built so far and the next command id. -/
structure Queues where
  queue : StreamId → List Command := fun _ => []
  nextCmdId : CmdId := 1

def buildStream (env : Env) (res : Resources) (qs : Queues) (stream : (Text × Value) × StreamId) :
    Except Throw Queues := do
  let so ← asObject stream.1.2
  let cmds ← asArray (← requireField so "commands")
  let (queue, nextCmdId) ← cmds.foldlM (pushCommand env res stream.2) ([], qs.nextCmdId)
  return { queue := Function.update qs.queue stream.2 queue, nextCmdId := nextCmdId }

/-- A workload that is ready to run. -/
structure Prepared where
  rt : Runtime
  devBufs : DeviceBufs
  streamIds : List StreamId
  queue : StreamId → List Command

/-- The ids `1, 2, ...` of a row of names. -/
def numbered {α : Type} (names : List α) : List (α × Nat) := names.zipIdx 1

def prepareRoot (env : Env) (rt : Runtime) (root : Value) : Except Throw Prepared := do
  let o ← requireObject root "root must be object"
  let decls ← parseDecls env o
  let (rt, hostBufs) ← decls.hosts.foldlM (allocHostBuf env) (rt, [])
  let (rt, devBufs) ← decls.devices.foldlM allocDeviceBuf (rt, [])
  let res : Resources := { hostBufs := hostBufs, devBufs := devBufs, modules := decls.modules
                           eventIds := numbered decls.eventNames }
  let qs ← (numbered decls.streams).foldlM (buildStream env res) {}
  return { rt := rt, devBufs := devBufs, streamIds := (numbered decls.streams).map Prod.snd
           queue := qs.queue }

/-- `run_workload` up to the schedule. -/
def prepare (env : Env) (rt : Runtime) (path : Text) : Except Throw Prepared := do
  prepareRoot env rt (← parseRoot (← slurp env path))

/-! ### The schedule -/

/-- `run_ptx_kernel_with_args_entry_launch`. -/
abbrev RunKernel := Runtime → KernelPayload → KernelArgs → Except Throw (SimResult × Runtime)

structure ScheduleState where
  rt : Runtime
  queue : StreamId → List Command
  signaled : EventId → Bool := fun _ => false
  totalSteps : BitVec 64 := 0
  /-- The commands that are complete, in order. -/
  executed : List Command := []

/-- How the schedule ends before all queues are empty. -/
inductive Exit where
  | threw (t : Throw)
  | kernel (sim : SimResult)
  | deadlock (steps : BitVec 64)

/-- A read checks its range first, then makes room for what it returns. -/
def reserve (env : Env) (inRange : Bool) (bytes : BitVec 64) : Except Throw Unit :=
  if inRange && !env.hostFits bytes.toNat then .error (.fatal "std::bad_alloc") else .ok ()

def runCopy (env : Env) (cp : CopyPayload) (rt : Runtime) : Except Throw Runtime :=
  match cp.kind with
  | .h2d => do
      reserve env (rt.hostRead cp.host cp.hostOff cp.bytes).isSome cp.bytes
      orFatal (rt.memcpyH2d (cp.dev + cp.devOff) cp.host cp.hostOff cp.bytes)
  | .d2h => do
      reserve env (rt.mem.readGlobal (cp.dev + cp.devOff) cp.bytes).isSome cp.bytes
      orFatal (rt.memcpyD2h cp.host cp.hostOff (cp.dev + cp.devOff) cp.bytes)
  | _ => .ok rt

def execute (env : Env) (run : RunKernel) (devBufs : DeviceBufs) (cmd : Command)
    (st : ScheduleState) : Except Exit ScheduleState :=
  match cmd.kind with
  | .copy cp =>
      match runCopy env cp st.rt with
      | .error t => .error (.threw t)
      | .ok rt => .ok { st with rt := rt }
  | .kernel kp =>
      match packKernelArgs env kp.mod kp.entry kp.args devBufs with
      | .error t => .error (.threw t)
      | .ok ka =>
          match run st.rt kp ka with
          | .error t => .error (.threw t)
          | .ok (sim, rt) =>
              let totalSteps := st.totalSteps + sim.steps
              if sim.diag.isSome then .error (.kernel sim)
              else if !sim.completed then .error (.kernel { sim with steps := totalSteps })
              else .ok { st with rt := rt, totalSteps := totalSteps }
  | .eventRecord ev => .ok { st with signaled := Function.update st.signaled ev.eventId true }
  | .eventWait _ => .ok st
  | .sync => .ok st

def ready (st : ScheduleState) (cmd : Command) : Bool :=
  match cmd.kind with
  | .eventWait ev => st.signaled ev.eventId
  | _ => true

/-- The state of one round of the loop. -/
structure Round where
  st : ScheduleState
  anyRemaining : Bool := false
  progressed : Bool := false

/-- The turn of a stream. -/
def turn (env : Env) (run : RunKernel) (devBufs : DeviceBufs) (round : Round) (sid : StreamId) :
    Except Exit Round :=
  match round.st.queue sid with
  | [] => .ok round
  | cmd :: rest =>
      if ready round.st cmd then
        match execute env run devBufs cmd round.st with
        | .error e => .error e
        | .ok st =>
            .ok { st := { st with
                    queue := Function.update st.queue sid rest
                    executed := st.executed ++ [cmd] }
                  anyRemaining := true
                  progressed := true }
      else .ok { round with anyRemaining := true }

/-- `while (true)`, for at most `fuel` rounds. -/
def runSchedule (env : Env) (run : RunKernel) (p : Prepared) :
    Nat → ScheduleState → Option (Except Exit ScheduleState)
  | 0, _ => none
  | fuel + 1, st =>
      match p.streamIds.foldlM (turn env run p.devBufs) { st := st } with
      | .error e => some (.error e)
      | .ok round =>
          if !round.anyRemaining then some (.ok round.st)
          else if !round.progressed then some (.error (.deadlock round.st.totalSteps))
          else runSchedule env run p fuel round.st

def Prepared.start (p : Prepared) : ScheduleState where
  rt := p.rt
  queue := p.queue

/-- The handlers. -/
def caught : Throw → SimResult
  | .schema diag => { diag := some diag }
  | .parse what =>
      { diag := some { module := "runtime", code := "E_WORKLOAD_SCHEMA", message := what } }
  | .fatal what =>
      { diag := some { module := "runtime", code := "E_WORKLOAD_FATAL", message := what } }

def Exit.result : Exit → SimResult
  | .threw t => caught t
  | .kernel sim => sim
  | .deadlock steps =>
      { steps := steps
        diag := some
          { module := "runtime", code := "E_WORKLOAD_DEADLOCK"
            message := "no commands ready; possible missing event_record" } }

def scheduleResult : Except Exit ScheduleState → SimResult
  | .ok st => { completed := true, steps := st.totalSteps }
  | .error e => e.result

/-- `run_workload`. -/
def runWorkload (env : Env) (run : RunKernel) (rt : Runtime) (path : Text) (fuel : Nat) :
    Option SimResult :=
  match prepare env rt path with
  | .error t => some (caught t)
  | .ok p => (runSchedule env run p fuel p.start).map scheduleResult

end ProtoGpu.Workload

import ProtoGpu.Common.Json
import ProtoGpu.Contracts

/-!
# Trace events and statistics

An `Event` and the counter list as JSON (`observability.cpp`). Every integer goes through a
`double`. The events themselves are kept in a ring of fixed capacity; its mutex makes every call one
step.
-/

namespace ProtoGpu

inductive EventCategory where
  | stream | copy | fetch | exec | ctrl | mem | commit
deriving DecidableEq, Repr

def EventCategory.toText : EventCategory → Text
  | .stream => "STREAM".toList
  | .copy => "COPY".toList
  | .fetch => "FETCH".toList
  | .exec => "EXEC".toList
  | .ctrl => "CTRL".toList
  | .mem => "MEM".toList
  | .commit => "COMMIT".toList

structure Event where
  ts : BitVec 64 := 0
  category : EventCategory := .stream
  action : Text := []
  kernelId : Option (BitVec 64) := none
  ctaId : Option (BitVec 64) := none
  warpId : Option (BitVec 64) := none
  threadId : Option (BitVec 64) := none
  smId : Option (BitVec 64) := none
  streamId : Option (BitVec 64) := none
  cmdId : Option (BitVec 64) := none
  eventId : Option (BitVec 64) := none
  pc : Option Int := none
  laneMask : Option LaneMask := none
  opcodeOrUop : Option Text := none
  addr : Option (BitVec 64) := none
  size : Option (BitVec 64) := none
  extraJson : Option Text := none

def hexDigits : Nat → Nat → Text
  | 0, _ => []
  | k + 1, m => hexDigits k (m / 16) ++ [Nat.digitChar (m % 16)]

def laneMaskToHex (m : LaneMask) : Text := '0' :: 'x' :: hexDigits 8 m.bitsLo.toNat

/-- `Value(static_cast<double>(n))`. -/
def numberValue (n : Int) : Json.Value := .number (Double.ofInt n)

def setOpt (o : Json.Object) (member : String × Option Json.Value) : Json.Object :=
  match member.2 with
  | none => o
  | some v => Json.emplace member.1.toList v o

def u64Value (n : Option (BitVec 64)) : Option Json.Value := n.map fun n => numberValue n.toNat

/-- The members in the order they are put in the object. -/
def Event.members (e : Event) : List (String × Option Json.Value) :=
  [ ("ts", some (numberValue e.ts.toNat)), ("cat", some (.string e.category.toText)),
    ("action", some (.string e.action)), ("kernel_id", u64Value e.kernelId),
    ("cta_id", u64Value e.ctaId), ("warp_id", u64Value e.warpId),
    ("thread_id", u64Value e.threadId), ("sm_id", u64Value e.smId),
    ("stream_id", u64Value e.streamId), ("cmd_id", u64Value e.cmdId),
    ("event_id", u64Value e.eventId), ("pc", e.pc.map numberValue),
    ("lane_mask", e.laneMask.map fun m => .string (laneMaskToHex m)),
    ("opcode_or_uop", e.opcodeOrUop.map .string), ("addr", u64Value e.addr),
    ("size", u64Value e.size), ("extra", e.extraJson.map .string) ]

def eventToJsonLine (e : Event) : Text :=
  Json.stringify (.object (e.members.foldl setOpt [])) ++ ['\n']

/-! ### Statistics -/

/-- `Counters::inc`: the counter of the key, or a new one at the end. -/
def incCounter (key : Text) (delta : BitVec 64) :
    List (Text × BitVec 64) → List (Text × BitVec 64)
  | [] => [(key, delta)]
  | (k, v) :: items =>
      if k = key then (k, v + delta) :: items else (k, v) :: incCounter key delta items

structure StatsMeta where
  formatVersion : BitVec 32 := 1
  schema : Text := "gpusim_stats_v1".toList
  profile : Text := []
  deterministic : Bool := false

def countersObject (counters : List (Text × BitVec 64)) : Json.Object :=
  counters.foldl (fun o c => Json.emplace c.1 (numberValue c.2.toNat) o) []

def statsMembers (counters : List (Text × BitVec 64)) (info : StatsMeta) :
    List (String × Option Json.Value) :=
  [ ("format_version", some (numberValue info.formatVersion.toNat)),
    ("schema", some (.string info.schema)), ("profile", some (.string info.profile)),
    ("deterministic", some (.bool info.deterministic)),
    ("counters", some (.object (countersObject counters))) ]

def statsToJson (counters : List (Text × BitVec 64)) (info : StatsMeta) : Text :=
  Json.stringify (.object ((statsMembers counters info).foldl setOpt []))

/-! ### The trace ring -/

structure TraceBuffer where
  capacity : BitVec 64
  ring : List Event := []
  head : BitVec 64 := 0
  size : BitVec 64 := 0

/-- `max_size()` of a vector: no more elements than fit into `PTRDIFF_MAX` bytes. -/
def vectorMaxSize (elementSize : Nat) : Nat := (2 ^ 63 - 1) / elementSize

/-- The constructor. `reserve` throws where the capacity is more than a vector can hold. -/
def TraceBuffer.create (eventSize : Nat) (capacity : BitVec 64) : Except String TraceBuffer :=
  if vectorMaxSize eventSize < capacity.toNat then .error "vector::reserve"
  else .ok { capacity := capacity }

def TraceBuffer.push (b : TraceBuffer) (e : Event) : TraceBuffer :=
  if b.capacity = 0 then b
  else if b.ring.length < b.capacity.toNat then
    let ring := b.ring ++ [e]
    { b with ring := ring, size := BitVec.ofNat 64 ring.length, head := 0 }
  else
    { b with
      ring := b.ring.set b.head.toNat e
      head := (b.head + 1) % b.capacity
      size := b.capacity }

def TraceBuffer.snapshot (b : TraceBuffer) : List Event :=
  if b.ring.isEmpty then []
  else if b.ring.length < b.capacity.toNat then b.ring
  else
    (List.range b.size.toNat).map fun k =>
      b.ring.getD ((b.head + BitVec.ofNat 64 k) % b.capacity).toNat {}

structure ObsConfig where
  enabled : Bool := true
  traceCapacity : BitVec 64 := 65536

structure ObsControl where
  cfg : ObsConfig
  trace : TraceBuffer
  counters : List (Text × BitVec 64) := []

def ObsControl.create (eventSize : Nat) (cfg : ObsConfig) : Except String ObsControl := do
  let trace ← TraceBuffer.create eventSize cfg.traceCapacity
  .ok { cfg := cfg, trace := trace }

def ObsControl.emit (o : ObsControl) (e : Event) : ObsControl :=
  if !o.cfg.enabled then o else { o with trace := o.trace.push e }

def ObsControl.counter (o : ObsControl) (key : Text) (delta : BitVec 64) : ObsControl :=
  if !o.cfg.enabled then o else { o with counters := incCounter key delta o.counters }

def ObsControl.traceSnapshot (o : ObsControl) : List Event := o.trace.snapshot

def ObsControl.countersSnapshot (o : ObsControl) : List (Text × BitVec 64) := o.counters

/-! ### The trace file -/

structure TraceHeader where
  formatVersion : BitVec 32 := 1
  schema : Text := "gpusim_trace_jsonl_v1".toList
  profile : Text := []
  deterministic : Bool := false

def TraceHeader.members (h : TraceHeader) : List (String × Option Json.Value) :=
  [ ("action", some (.string "TRACE_HEADER".toList)),
    ("format_version", some (numberValue h.formatVersion.toNat)),
    ("schema", some (.string h.schema)),
    ("profile", some (.string h.profile)), ("deterministic", some (.bool h.deterministic)) ]

def traceHeaderToJsonLine (h : TraceHeader) : Text :=
  Json.stringify (.object (h.members.foldl setOpt [])) ++ ['\n']

/-- What `dump_observability` of the shim and `main` of the command line put in the trace file. -/
def traceFile (header : TraceHeader) (o : ObsControl) : Text :=
  traceHeaderToJsonLine header ++ o.traceSnapshot.flatMap eventToJsonLine

/-! ### Reading it back -/

/-- `Value::get`. -/
def Json.Value.get? (v : Json.Value) (key : Text) : Option Json.Value :=
  match v with
  | .object o => Json.find? key o
  | _ => none

end ProtoGpu

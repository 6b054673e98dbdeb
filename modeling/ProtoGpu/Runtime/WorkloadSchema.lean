import ProtoGpu.Common.Json
import ProtoGpu.Runtime.Memcpy

/-!
# The workload document

The declarations of a workload (`workload.cpp`): buffers, modules, event names and the pieces of a
command. A field that is missing or has the wrong type ends the parse with an `E_WORKLOAD_SCHEMA`
diagnostic, a reference to nothing with an `E_WORKLOAD_REF` one, and an accessor of `json::Value`
throws.
-/

namespace ProtoGpu.Workload

open Json (Value Object)

abbrev StreamId := Nat
abbrev CmdId := Nat
abbrev EventId := Nat

/-- What `run_workload` catches: a `SchemaError`, a `json::ParseError`, any other exception. -/
inductive Throw where
  | schema (diag : Diagnostic)
  | parse (what : String)
  | fatal (what : String)
deriving DecidableEq

def schemaFail {α : Type} (message : String) : Except Throw α :=
  .error (.schema { module := "runtime", code := "E_WORKLOAD_SCHEMA", message := message })

def refFail {α : Type} (message : String) : Except Throw α :=
  .error (.schema { module := "runtime", code := "E_WORKLOAD_REF", message := message })

/-- What a `std::string` in a message reads. -/
def quoted (s : Text) : String := String.ofList s

/-! ### `json::Value` -/

/-- A thrown `std::runtime_error`. -/
def orFatal {α : Type} : Except String α → Except Throw α
  | .ok a => .ok a
  | .error what => .error (.fatal what)

def asObject (v : Value) : Except Throw Object := orFatal v.asObject

def asArray (v : Value) : Except Throw (List Value) := orFatal v.asArray

/-- `static_cast<std::uint64_t>`, which truncates. A value outside the type has no defined result:
`outOfRange` is what the platform makes of it. -/
def castU64 (outOfRange : Double → BitVec 64) : Double → BitVec 64
  | .finite neg mag =>
      let n := ⌊mag⌋.toNat
      if (neg = true → n = 0) ∧ n < 2 ^ 64 then BitVec.ofNat 64 n else outOfRange (.finite neg mag)
  | .inf neg => outOfRange (.inf neg)

def asU64 (outOfRange : Double → BitVec 64) : Value → Except Throw (BitVec 64)
  | .number d => .ok (castU64 outOfRange d)
  | _ => .error (.fatal "json: not a number")

/-! ### Fields -/

def requireField (o : Object) (key : String) : Except Throw Value :=
  match Json.find? key.toList o with
  | some v => .ok v
  | none => schemaFail ("missing field: " ++ key)

def requireString (v : Value) (ctx : String) : Except Throw Text :=
  match v with
  | .string s => .ok s
  | _ => schemaFail (ctx ++ ": expected string")

def requireU64 (outOfRange : Double → BitVec 64) (v : Value) (ctx : String) :
    Except Throw (BitVec 64) :=
  match v with
  | .number d => .ok (castU64 outOfRange d)
  | _ => schemaFail (ctx ++ ": expected number")

def requireObject (v : Value) (message : String) : Except Throw Object :=
  match v with
  | .object o => .ok o
  | _ => schemaFail message

/-- The one member of an object. -/
def requireOne (o : Object) (message : String) : Except Throw (Text × Value) :=
  match o with
  | [member] => .ok member
  | _ => schemaFail message

def parseDim3 (outOfRange : Double → BitVec 64) (v : Value) (ctx : String) : Except Throw Dim3 :=
  match v with
  | .object o => do
      let x ← requireU64 outOfRange (← requireField o "x") ctx
      let y ← requireU64 outOfRange (← requireField o "y") ctx
      let z ← requireU64 outOfRange (← requireField o "z") ctx
      return { x := x.setWidth 32, y := y.setWidth 32, z := z.setWidth 32 }
  | .array [a, b, c] => do
      let x ← asU64 outOfRange a
      let y ← asU64 outOfRange b
      let z ← asU64 outOfRange c
      return { x := x.setWidth 32, y := y.setWidth 32, z := z.setWidth 32 }
  | .array _ => schemaFail (ctx ++ ": expected [x,y,z]")
  | _ => schemaFail (ctx ++ ": expected object \x7bx,y,z\x7d or [x,y,z]")

structure BufRef where
  name : Text
  offset : BitVec 64 := 0

def parseBufRef (outOfRange : Double → BitVec 64) (v : Value) (ctx : String) :
    Except Throw BufRef :=
  match v with
  | .string s => .ok { name := s }
  | .object o => do
      let name ← requireString (← requireField o "buffer") ctx
      match Json.find? "offset".toList o with
      | some off => return { name := name, offset := ← requireU64 outOfRange off ctx }
      | none => return { name := name }
  | _ => schemaFail (ctx ++ ": expected string buffer name or \x7bbuffer, offset?\x7d")

def hexVal (ch : Char) : Option Nat :=
  if '0' ≤ ch ∧ ch ≤ '9' then some (ch.toNat - '0'.toNat)
  else if 'a' ≤ ch ∧ ch ≤ 'f' then some (10 + (ch.toNat - 'a'.toNat))
  else if 'A' ≤ ch ∧ ch ≤ 'F' then some (10 + (ch.toNat - 'A'.toNat))
  else none

/-- The loop of `parse_hex_bytes`, over a text of even length. -/
def hexPairs : Text → Except Throw (List Byte)
  | hi :: lo :: s =>
      match hexVal hi, hexVal lo with
      | some hi, some lo => do
          let rest ← hexPairs s
          return BitVec.ofNat 8 (hi * 16 + lo) :: rest
      | _, _ => schemaFail "invalid hex digit"
  | _ => .ok []

def parseHexBytes (s : Text) : Except Throw (List Byte) :=
  let s :=
    match s with
    | '0' :: 'x' :: rest => rest
    | '0' :: 'X' :: rest => rest
    | s => s
  let s := s.filter fun c => !Json.isSpace c
  if s.length % 2 ≠ 0 then schemaFail "hex string length must be even" else hexPairs s

/-! ### Declarations -/

inductive InitKind where
  | zeros | hex | file
deriving DecidableEq

structure HostBufDecl where
  bytes : BitVec 64 := 0
  initKind : InitKind := .zeros
  initPayload : Text := []

structure DeviceBufDecl where
  bytes : BitVec 64 := 0
  align : BitVec 64 := 16

structure ModuleDecl where
  ptx : Text
  ptxIsa : Text
  instDesc : Text

/-- The `init` of a host buffer. -/
def parseInit (d : HostBufDecl) (initv : Value) : Except Throw HostBufDecl :=
  match initv with
  | .string s =>
      if s == "zeros".toList then .ok { d with initKind := .zeros }
      else schemaFail ("unknown host init string: " ++ quoted s)
  | .object io => do
      let (k, pv) ← requireOne io "init must be oneof \x7bzeros,hex,file\x7d"
      if k == "zeros".toList then return { d with initKind := .zeros }
      else if k == "hex".toList then
        return { d with initKind := .hex, initPayload := ← requireString pv "init.hex" }
      else if k == "file".toList then
        return { d with initKind := .file, initPayload := ← requireString pv "init.file" }
      else schemaFail ("unknown init kind: " ++ quoted k)
  | _ => schemaFail "init must be string or object"

def parseHostBuf (outOfRange : Double → BitVec 64) (entry : Text × Value) :
    Except Throw (Text × HostBufDecl) := do
  let (name, vv) := entry
  let ho ← requireObject vv ("buffers.host entry must be object: " ++ quoted name)
  let bytes ← requireU64 outOfRange (← requireField ho "bytes") "buffers.host.bytes"
  let d : HostBufDecl := { bytes := bytes }
  match Json.find? "init".toList ho with
  | some initv => return (name, ← parseInit d initv)
  | none => return (name, d)

def parseDeviceBuf (outOfRange : Double → BitVec 64) (entry : Text × Value) :
    Except Throw (Text × DeviceBufDecl) := do
  let (name, vv) := entry
  let doo ← requireObject vv ("buffers.device entry must be object: " ++ quoted name)
  let bytes ← requireU64 outOfRange (← requireField doo "bytes") "buffers.device.bytes"
  match Json.find? "align".toList doo with
  | some av =>
    return (name, { bytes := bytes, align := ← requireU64 outOfRange av "buffers.device.align" })
  | none => return (name, { bytes := bytes })

def parseModule (entry : Text × Value) : Except Throw (Text × ModuleDecl) := do
  let (name, vv) := entry
  let mo ← requireObject vv ("modules entry must be object: " ++ quoted name)
  let ptx ← requireString (← requireField mo "ptx") "modules.ptx"
  let ptxIsa ← requireString (← requireField mo "ptx_isa") "modules.ptx_isa"
  let instDesc ← requireString (← requireField mo "inst_desc") "modules.inst_desc"
  return (name, { ptx := ptx, ptxIsa := ptxIsa, instDesc := instDesc })

/-! ### Event names -/

/-- The one member of a command. -/
def commandMember (cmdv : Value) : Except Throw (Text × Value) := do
  let co ← requireObject cmdv "command must be object"
  requireOne co "command must be oneof \x7bcopy,kernel,event_record,event_wait,sync\x7d"

/-- `std::set::insert`. -/
def insertName (name : Text) : List Text → List Text
  | [] => [name]
  | n :: names =>
      if name < n then name :: n :: names
      else if name = n then n :: names
      else n :: insertName name names

def collectEvent (names : List Text) (cmdv : Value) : Except Throw (List Text) := do
  let (ck, cv) ← commandMember cmdv
  if ck == "event_record".toList || ck == "event_wait".toList then
    let eo ← requireObject cv "event command payload must be object"
    let en ← requireString (← requireField eo "event") "event"
    return insertName en names
  else return names

/-- The commands of an entry of `streams`. -/
def streamCommands (entry : Text × Value) : Except Throw (List Value) := do
  let so ← requireObject entry.2 ("streams entry must be object: " ++ quoted entry.1)
  asArray (← requireField so "commands")

def collectStream (names : List Text) (entry : Text × Value) : Except Throw (List Text) := do
  (← streamCommands entry).foldlM collectEvent names

/-! ### Arguments -/

inductive ArgValue where
  | u32 (v : BitVec 64)
  | u64 (v : BitVec 64)
  | ptrDevice (name : Text)
  | bytesHex (hex : Text)
deriving DecidableEq

def parseArgValue (outOfRange : Double → BitVec 64) (v : Value) (ctx : String) :
    Except Throw ArgValue := do
  let o ← requireObject v
    (ctx ++ ": arg value must be object oneof \x7bu32,u64,ptr_device,bytes_hex\x7d")
  let (k, vv) ← requireOne o (ctx ++ ": arg value object must have exactly one key")
  if k == "u32".toList then return .u32 (← requireU64 outOfRange vv ctx)
  else if k == "u64".toList then return .u64 (← requireU64 outOfRange vv ctx)
  else if k == "ptr_device".toList then return .ptrDevice (← requireString vv ctx)
  else if k == "bytes_hex".toList then return .bytesHex (← requireString vv ctx)
  else schemaFail (ctx ++ ": unknown arg kind: " ++ quoted k)

end ProtoGpu.Workload

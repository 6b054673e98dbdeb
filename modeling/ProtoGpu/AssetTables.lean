import ProtoGpu.Common.Json
import ProtoGpu.PtxIsa

/-!
# Loading the tables

`PtxIsaRegistry::load_json_text` (`ptx_isa.cpp`) and `DescriptorRegistry::load_json_text`
(`descriptor_registry.cpp`) clear their table and append the entries of the document one by one, so
an exception leaves the entries before it in the table. A thrown exception is its `what()`.
-/

namespace ProtoGpu

namespace Json

/-- `parse`, with the end of the model's recursion depth as an exception of its own. -/
def parseText (text : Text) : Except String Value :=
  match parse text with
  | .ok v => .ok v
  | .error (.error what) => .error what
  | .error .depth => .error "recursion depth"

/-- `static_cast<std::int64_t>`, which truncates. A value outside the type has no defined result:
`outOfRange` is what the platform makes of it. -/
def castI64 (outOfRange : Double → BitVec 64) : Double → BitVec 64
  | .finite neg mag =>
      let n : Int := if neg then -⌊mag⌋ else ⌊mag⌋
      if -2 ^ 63 ≤ n ∧ n < 2 ^ 63 then BitVec.ofInt 64 n else outOfRange (.finite neg mag)
  | .inf neg => outOfRange (.inf neg)

def Value.asI64 (outOfRange : Double → BitVec 64) : Value → Except String (BitVec 64)
  | .number d => .ok (castI64 outOfRange d)
  | _ => .error "json: not a number"

/-- `std::map::at`; the text is the library's. -/
def fieldAt (o : Object) (key : String) : Except String Value :=
  match find? key.toList o with
  | some v => .ok v
  | none => .error "map::at"

end Json

open Json (Value Object fieldAt)

/-- What the loaders leave to the platform: a cast out of range, and the order in which an
`std::unordered_set` of keys is walked. -/
structure Platform where
  outOfRange : Double → BitVec 64
  visit : List String → List String

/-! ### The PTX ISA map -/

def loadIsaEntry (iv : Value) : Except String PtxIsaEntry := do
  let io ← iv.asObject
  let ptxOpcode ← (← fieldAt io "ptx_opcode").asString
  let typeMod ← (← fieldAt io "type_mod").asString
  let kinds ← (← (← fieldAt io "operand_kinds").asArray).mapM Value.asString
  let irOp ← (← fieldAt io "ir_op").asString
  return {
    ptxOpcode := toLower ptxOpcode
    typeMod := toLower typeMod
    operandKinds := kinds.map fun kind => String.ofList (toLower kind)
    irOp := String.ofList irOp }

/-- The loop over the entries: the exception that ended it, if one did, and the table behind it. -/
def appendEach {α : Type} (load : Nat → Value → Except String α) :
    Nat → List Value → List α → Option String × List α
  | _, [], table => (none, table)
  | i, iv :: ivs, table =>
      match load i iv with
      | .error what => (some what, table)
      | .ok entry => appendEach load (i + 1) ivs (table ++ [entry])

def PtxIsaRegistry.loadJsonText (text : Text) : Option String × PtxIsaRegistry :=
  let insts : Except String (List Value) := do
    let obj ← (← Json.parseText text).asObject
    (← fieldAt obj "insts").asArray
  match insts with
  | .error what => (some what, { entries := [] })
  | .ok insts =>
      let r := appendEach (fun _ => loadIsaEntry) 0 insts []
      (r.1, { entries := r.2 })

/-! ### The descriptors -/

def parseUopOp (s : String) : Except String MicroOpOp :=
  if s == "MOV" then .ok .mov
  else if s == "CVT" then .ok .cvt
  else if s == "ADD" then .ok .add
  else if s == "MUL" then .ok .mul
  else if s == "SHL" then .ok .shl
  else if s == "SHFL" then .ok .shfl
  else if s == "FMA" then .ok .fma
  else if s == "WARP_REDUCE_ADD" then .ok .warpReduceAdd
  else if s == "SETP" then .ok .setp
  else if s == "LD" then .ok .ld
  else if s == "ST" then .ok .st
  else if s == "BRA" then .ok .bra
  else if s == "RET" then .ok .ret
  else .error ("DescriptorRegistry: unknown uop op: " ++ s)

def parseUopKind (s : String) : Except String MicroOpKind :=
  if s == "EXEC" then .ok .exec
  else if s == "CTRL" then .ok .control
  else if s == "MEM" then .ok .mem
  else .error ("DescriptorRegistry: unknown uop kind: " ++ s)

def isKnownKey (allowed : List String) (key : Text) : Bool := allowed.elem (String.ofList key)

/-- The members of an object are in key order. -/
def validateKnownKeys (platform : Platform) (obj : Object) (allowed : List String)
    (place : String) : Except String Unit :=
  match obj.find? fun kv => !isKnownKey allowed kv.1 with
  | none => .ok ()
  | some kv =>
      .error ("DescriptorRegistry: unknown key '" ++ String.ofList kv.1 ++ "' at " ++ place
        ++ "; allowed keys: [" ++ String.intercalate ", " (platform.visit allowed) ++ "]")

def rootKeys : List String := ["insts"]

def instKeys : List String := ["opcode", "type_mod", "operand_kinds", "uops"]

def uopKeys : List String := ["kind", "op", "in", "out"]

/-- The `strict_keys` option. -/
def checkKeys (platform : Platform) (strict : Bool) (obj : Object) (allowed : List String)
    (place : String) : Except String Unit :=
  if strict then validateKnownKeys platform obj allowed place else .ok ()

def instPlace (i : Nat) : String := "insts[" ++ toString i ++ "]"

def uopPlace (i j : Nat) : String := instPlace i ++ ".uops[" ++ toString j ++ "]"

/-- The two names of a micro-op, whose exceptions are rethrown with their place. -/
def loadUopNames (uo : Object) : Except String (MicroOpKind × MicroOpOp) := do
  let kind ← parseUopKind (String.ofList (← (← fieldAt uo "kind").asString))
  let op ← parseUopOp (String.ofList (← (← fieldAt uo "op").asString))
  return (kind, op)

def rethrowAt {α : Type} (place : String) : Except String α → Except String α
  | .ok a => .ok a
  | .error what => .error ("DescriptorRegistry: " ++ place ++ ": " ++ what)

/-- `static_cast<int>(idx.as_i64())`. -/
def loadIndex (platform : Platform) (v : Value) : Except String Int := do
  return ((← v.asI64 platform.outOfRange).setWidth 32).toInt

def loadUop (platform : Platform) (strict : Bool) (i j : Nat) (uv : Value) :
    Except String UopTemplate := do
  let uo ← uv.asObject
  checkKeys platform strict uo uopKeys (uopPlace i j)
  let names ← rethrowAt (uopPlace i j) (loadUopNames uo)
  let ins ← (← (← fieldAt uo "in").asArray).mapM (loadIndex platform)
  let outs ← (← (← fieldAt uo "out").asArray).mapM (loadIndex platform)
  return { kind := names.1, op := names.2, inOperandIdx := ins, outOperandIdx := outs }

/-- The micro-ops from number `j` on. -/
def loadUops (platform : Platform) (strict : Bool) (i : Nat) :
    Nat → List Value → Except String (List UopTemplate)
  | _, [] => .ok []
  | j, uv :: uvs => do
      let u ← loadUop platform strict i j uv
      let us ← loadUops platform strict i (j + 1) uvs
      return u :: us

def loadInstDesc (platform : Platform) (strict : Bool) (i : Nat) (iv : Value) :
    Except String InstDesc := do
  let io ← iv.asObject
  checkKeys platform strict io instKeys (instPlace i)
  let opcode ← (← fieldAt io "opcode").asString
  let typeMod ← (← fieldAt io "type_mod").asString
  let kinds ← (← (← fieldAt io "operand_kinds").asArray).mapM Value.asString
  let uops ← loadUops platform strict i 0 (← (← fieldAt io "uops").asArray)
  return {
    opcode := String.ofList opcode
    typeMod := String.ofList typeMod
    operandKinds := kinds.map String.ofList
    uops := uops }

def loadRootInsts (platform : Platform) (strict : Bool) (root : Value) :
    Except String (List Value) := do
  let obj ← root.asObject
  checkKeys platform strict obj rootKeys "root"
  (← fieldAt obj "insts").asArray

/-- `load_json_text` from the parsed document on. -/
def DescriptorRegistry.loadRoot (platform : Platform) (strict : Bool) (root : Value) :
    Option String × DescriptorRegistry :=
  match loadRootInsts platform strict root with
  | .error what => (some what, { descs := [] })
  | .ok insts =>
      let r := appendEach (loadInstDesc platform strict) 0 insts []
      (r.1, { descs := r.2 })

def DescriptorRegistry.loadJsonText (platform : Platform) (strict : Bool) (text : Text) :
    Option String × DescriptorRegistry :=
  match Json.parseText text with
  | .error what => (some what, { descs := [] })
  | .ok root => DescriptorRegistry.loadRoot platform strict root

end ProtoGpu

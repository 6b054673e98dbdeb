import ProtoGpu.Frontend.Parser
import ProtoGpu.Instruction

/-!
# The PTX ISA map

`ptx_isa.cpp`: an operand token is parsed once for each operand kind an entry of the map asks for,
and an instruction takes the one entry all of whose kinds accept. A parse ends with an operand, or
without one and perhaps with a diagnostic; a thrown exception is an `Except.error` of its `what()`.
-/

namespace ProtoGpu

def kF32RegIdBias : Nat := 4096

def toLower (s : Text) : Text := s.map Char.toLower

/-! ### Numbers -/

def isOctDigit (c : Char) : Bool := '0' ≤ c && c ≤ '7'

def isXDigit (c : Char) : Bool :=
  Json.isDigit c || ('a' ≤ c && c ≤ 'f') || ('A' ≤ c && c ≤ 'F')

def xDigitValue (c : Char) : Nat :=
  if 'a' ≤ c && c ≤ 'f' then c.toNat - 'a'.toNat + 10
  else if 'A' ≤ c && c ≤ 'F' then c.toNat - 'A'.toNat + 10
  else c.toNat - '0'.toNat

def valueInBase (base : Nat) (digits : Text) : Nat :=
  digits.foldl (fun n c => n * base + xDigitValue c) 0

/-- The base `strtoll` finds at the head of a number for base zero, with the prefix it passes
over. -/
def autoBase : Text → Nat × Text
  | '0' :: x :: d :: _ =>
      if (x == 'x' || x == 'X') && isXDigit d then (16, ['0', x]) else (8, [])
  | '0' :: _ => (8, [])
  | _ => (10, [])

def isBaseDigit (base : Nat) : Char → Bool :=
  if base = 16 then isXDigit else if base = 8 then isOctDigit else Json.isDigit

/-- The sign and the magnitude `strtoll` reads for base zero, and how many characters it uses. -/
def scanAutoBase (s : Text) : Option (Bool × Nat × Nat) :=
  let rest := s.dropWhile Json.isSpace
  let neg := rest.head? == some '-'
  let signed := neg || rest.head? == some '+'
  let body := if signed then rest.tail else rest
  let (base, skipped) := autoBase body
  let digits := (body.drop skipped.length).takeWhile (isBaseDigit base)
  if digits.isEmpty then none
  else
    some (neg, valueInBase base digits,
      (s.takeWhile Json.isSpace).length + (if signed then 1 else 0) + skipped.length
        + digits.length)

/-- `std::stoll(s, &idx, 0)` with `idx == s.size()`; an exception is no number. -/
def parseI64AutoBase (s : Text) : Option Int :=
  match scanAutoBase s with
  | none => none
  | some (neg, n, idx) =>
      let v : Int := if neg then -n else n
      if -(2 ^ 63) ≤ v ∧ v < 2 ^ 63 ∧ idx = s.length then some v else none

/-- The exception of `std::stoll` is not caught here. -/
def parseU64Dec (s : Text) : Except String (Option Nat) :=
  if s.isEmpty || !s.all Json.isDigit then .ok none
  else do
    let v ← Text.stoll s
    .ok (some v.toNat)

def parseU32HexExact (s : Text) : Option Nat :=
  if s.length = 8 ∧ s.all isXDigit then some (valueInBase 16 s % 2 ^ 32) else none

/-! ### Operands -/

/-- An operand, or no operand and perhaps a diagnostic. -/
abbrev Parsed (α : Type) := Except (Option Diagnostic) α

def kindMismatch {α : Type} : Except String (Parsed α) := .ok (.error none)

def operandParseFail {α : Type} (loc : Option SourceLocation) (what : String) (tok : Text) :
    Except String (Parsed α) :=
  .ok (.error (some { module := "frontend", code := "OPERAND_PARSE_FAIL"
                      message := what ++ String.ofList tok, location := loc }))

/-- A register of the class the prefix of the token names. The sum of the bias and a number near
`2 ^ 63` overflows, which the language leaves undefined. -/
def parseNumberedReg (loc : Option SourceLocation) (tok pfx : Text) (what : String)
    (type : ValueType) (bias : Nat) : Except String (Parsed Operand) := do
  match ← parseU64Dec (tok.drop pfx.length) with
  | none => operandParseFail loc what tok
  | some id =>
      if bias + id < 2 ^ 63 then
        .ok (.ok { kind := .reg, type := type, regId := (bias + id : Nat) })
      else .error "signed overflow"

def promoteWide (typeMod : String) (o : Operand) : Operand :=
  if (typeMod == "u64" || typeMod == "s64" || typeMod == "b64") && o.type == .u32 then
    { o with type := .u64 }
  else o

/-- The register before the promotion by the type modifier. -/
def parseRegClass (tok : Text) (loc : Option SourceLocation) : Except String (Parsed Operand) :=
  if tok.startsWith "%rd".toList then
    parseNumberedReg loc tok "%rd".toList "invalid %rd register: " .u64 0
  else if tok.startsWith "%f".toList then
    parseNumberedReg loc tok "%f".toList "invalid %f register: " .f32 kF32RegIdBias
  else if tok.startsWith "%r".toList then
    parseNumberedReg loc tok "%r".toList "invalid %r register: " .u32 0
  else kindMismatch

def parseRegOperand (tok : Text) (typeMod : String) (loc : Option SourceLocation) :
    Except String (Parsed Operand) := do
  let parsed ← parseRegClass tok loc
  .ok (parsed.map (promoteWide typeMod))

def parsePredOperand (tok : Text) (loc : Option SourceLocation) :
    Except String (Parsed Operand) := do
  if !tok.startsWith "%p".toList then kindMismatch
  else
    match ← parseU64Dec (tok.drop 2) with
    | none => operandParseFail loc "invalid %p predicate: " tok
    | some id => .ok (.ok { kind := .pred, predId := (id : Nat) })

/-- `0f` or `0F` and eight more characters. -/
def isF32Immediate (tok : Text) : Bool :=
  tok.length == 10 && (tok.startsWith "0f".toList || tok.startsWith "0F".toList)

def parseImmOperand (tok : Text) (loc : Option SourceLocation) : Except String (Parsed Operand) :=
  if isF32Immediate tok then
    match parseU32HexExact (tok.drop 2) with
    | none => operandParseFail loc "invalid f32 immediate: " tok
    | some bits => .ok (.ok { kind := .imm, type := .f32, immI64 := (bits : Nat) })
  else
    match parseI64AutoBase tok with
    | none => kindMismatch
    | some v => .ok (.ok { kind := .imm, immI64 := v })

/-- `tok = trim(tok)`, less one trailing semicolon. -/
def cleanTok (tok : Text) : Text :=
  let t := tok.trim
  if t.getLast? == some ';' then Text.trim t.dropLast else t.trim

def isBracketed (tok : Text) : Bool :=
  2 ≤ tok.length && tok.head? == some '[' && tok.getLast? == some ']'

def bracketInner (tok : Text) : Text := Text.trim (tok.substr 1 (tok.length - 2))

def addrBase (inner : Text) : Text :=
  match Text.find inner ['+'] with
  | some plus => Text.trim (inner.take plus)
  | none => inner

/-- The text of the offset, when there is one. -/
def addrOffset (inner : Text) : Option Text :=
  (Text.find inner ['+']).map fun plus => Text.trim (inner.drop (plus + 1))

/-- The nested parse of the base, whose diagnostic is dropped. -/
def parseAddrBase (inner : Text) (off : Int) : Except String (Parsed Operand) := do
  let base := cleanTok (addrBase inner)
  if base.isEmpty then kindMismatch
  else
    match ← parseRegOperand base "u64" none with
    | .error _ => kindMismatch
    | .ok baseOp => .ok (.ok { kind := .addr, type := .u64, regId := baseOp.regId, immI64 := off })

def parseAddrOperand (tok : Text) (loc : Option SourceLocation) : Except String (Parsed Operand) :=
  if !isBracketed tok then kindMismatch
  else
    let inner := bracketInner tok
    match addrOffset inner with
    | none => parseAddrBase inner 0
    | some offS =>
        match parseI64AutoBase offS with
        | none => operandParseFail loc "invalid addr offset: " offS
        | some off => parseAddrBase inner off

def parseSymbolOperand (tok : Text) (loc : Option SourceLocation) :
    Except String (Parsed Operand) :=
  if tok.head? == some '%' then kindMismatch
  else if (parseI64AutoBase tok).isSome then kindMismatch
  else
    let inner := bracketInner tok
    if isBracketed tok && inner.head? == some '%' then kindMismatch
    else
      let name := if isBracketed tok then inner else tok
      if name.isEmpty then operandParseFail loc "empty symbol" []
      else .ok (.ok { kind := .symbol, symbol := String.ofList name })

def scalarSpecials : List Text := ["laneid".toList, "warpid".toList]

def vectorSpecials : List Text :=
  ["tid.x".toList, "tid.y".toList, "tid.z".toList, "ntid.x".toList, "ntid.y".toList,
    "ntid.z".toList, "ctaid.x".toList, "ctaid.y".toList, "ctaid.z".toList, "nctaid.x".toList,
    "nctaid.y".toList, "nctaid.z".toList]

def parseSpecialOperand (tok : Text) (loc : Option SourceLocation) :
    Except String (Parsed Operand) :=
  if tok.head? != some '%' || tok.startsWith "%r".toList || tok.startsWith "%rd".toList
      || tok.startsWith "%p".toList then kindMismatch
  else
    let name := toLower (tok.drop 1)
    let special : Operand := { kind := .special, type := .u32, special := String.ofList name }
    if scalarSpecials.elem name then .ok (.ok special)
    else if !Text.contains tok ['.'] then kindMismatch
    else if vectorSpecials.elem name then .ok (.ok special)
    else operandParseFail loc "unknown special operand: " tok

def parseOperandByKind (kind : String) (tok : Text) (typeMod : String)
    (loc : Option SourceLocation) : Except String (Parsed Operand) :=
  let t := cleanTok tok
  if t.isEmpty then operandParseFail loc "empty operand token" []
  else if kind == "reg" then parseRegOperand t typeMod loc
  else if kind == "pred" then parsePredOperand t loc
  else if kind == "imm" then parseImmOperand t loc
  else if kind == "addr" then parseAddrOperand t loc
  else if kind == "symbol" then parseSymbolOperand t loc
  else if kind == "special" then parseSpecialOperand t loc
  else operandParseFail loc "unknown operand kind: " kind.toList

/-! ### The map -/

structure PtxIsaEntry where
  ptxOpcode : Text
  typeMod : Text := []
  operandKinds : List String := []
  irOp : String
deriving DecidableEq

structure PtxIsaRegistry where
  entries : List PtxIsaEntry

def isaForm (ptxOpcode typeMod : String) (operandKinds : List String) (irOp : String) :
    PtxIsaEntry :=
  { ptxOpcode := ptxOpcode.toList, typeMod := typeMod.toList
    operandKinds := operandKinds, irOp := irOp }

/-- `assets/ptx_isa/demo_ptx64.json`, in the file's order. -/
def demoIsa : PtxIsaRegistry where
  entries :=
    [ isaForm "mov" "u32" ["reg", "imm"] "mov",
      isaForm "mov" "u32" ["reg", "special"] "mov",
      isaForm "mov" "u32" ["reg", "symbol"] "mov",
      isaForm "mov" "u32" ["reg", "reg"] "mov",
      isaForm "mov" "b32" ["reg", "imm"] "mov",
      isaForm "mov" "b32" ["reg", "reg"] "mov",
      isaForm "mov" "u64" ["reg", "reg"] "mov",
      isaForm "mov" "u64" ["reg", "symbol"] "mov",
      isaForm "mov" "u64" ["reg", "imm"] "mov",
      isaForm "mov" "f32" ["reg", "reg"] "mov",
      isaForm "mov" "f32" ["reg", "imm"] "mov",
      isaForm "cvta" "u64" ["reg", "reg"] "mov",
      isaForm "cvt" "u32" ["reg", "reg"] "cvt",
      isaForm "add" "u32" ["reg", "reg", "reg"] "add",
      isaForm "add" "u32" ["reg", "reg", "imm"] "add",
      isaForm "add" "s32" ["reg", "reg", "reg"] "add",
      isaForm "add" "s32" ["reg", "reg", "imm"] "add",
      isaForm "add" "u64" ["reg", "reg", "reg"] "add",
      isaForm "add" "u64" ["reg", "reg", "imm"] "add",
      isaForm "add" "s64" ["reg", "reg", "reg"] "add",
      isaForm "add" "s64" ["reg", "reg", "imm"] "add",
      isaForm "add" "f32" ["reg", "reg", "reg"] "add",
      isaForm "add" "f32" ["reg", "reg", "imm"] "add",
      isaForm "ld" "u64" ["reg", "symbol"] "ld",
      isaForm "ld" "u32" ["reg", "symbol"] "ld",
      isaForm "ld" "f32" ["reg", "addr"] "ld",
      isaForm "ld" "u32" ["reg", "addr"] "ld",
      isaForm "ld" "u64" ["reg", "addr"] "ld",
      isaForm "st" "u32" ["addr", "reg"] "st",
      isaForm "st" "f32" ["addr", "reg"] "st",
      isaForm "st" "u64" ["addr", "reg"] "st",
      isaForm "mul" "u32" ["reg", "reg", "reg"] "mul",
      isaForm "mul" "s32" ["reg", "reg", "reg"] "mul",
      isaForm "mul" "u32" ["reg", "reg", "imm"] "mul",
      isaForm "fma" "f32" ["reg", "reg", "reg", "reg"] "fma",
      isaForm "fma" "f32" ["reg", "reg", "reg", "imm"] "fma",
      isaForm "warp_reduce_add" "f32" ["reg", "reg"] "warp_reduce_add",
      isaForm "setp" "s32" ["pred", "reg", "reg"] "setp",
      isaForm "setp" "s32" ["pred", "reg", "imm"] "setp",
      isaForm "setp" "u32" ["pred", "reg", "reg"] "setp",
      isaForm "setp" "u32" ["pred", "reg", "imm"] "setp",
      isaForm "shfl" "b32" ["reg", "reg", "reg", "reg", "reg"] "shfl",
      isaForm "shfl" "b32" ["reg", "reg", "imm", "reg", "reg"] "shfl",
      isaForm "shfl" "b32" ["reg", "reg", "reg", "imm", "reg"] "shfl",
      isaForm "shfl" "b32" ["reg", "reg", "imm", "imm", "reg"] "shfl",
      isaForm "shl" "" ["reg", "reg", "imm"] "shl",
      isaForm "bra" "" ["imm"] "bra",
      isaForm "ret" "" [] "ret" ]

/-- Entries of the exact type first, then those of any type. -/
def PtxIsaRegistry.candidates (isa : PtxIsaRegistry) (ptxOpcode typeMod : Text)
    (operandCount : Nat) : List PtxIsaEntry :=
  let fits := isa.entries.filter fun e =>
    e.ptxOpcode == toLower ptxOpcode && e.operandKinds.length == operandCount
      && (e.typeMod.isEmpty || e.typeMod == toLower typeMod)
  (fits.filter fun e => !e.typeMod.isEmpty) ++ fits.filter fun e => e.typeMod.isEmpty

def fmtSig (e : PtxIsaEntry) : String :=
  "(" ++ String.intercalate "," e.operandKinds ++ ") -> " ++ e.irOp
    ++ (if e.typeMod.isEmpty then ".*" else "." ++ String.ofList e.typeMod)

/-- The operands of an instruction, one for each kind. -/
def parseOperands (typeMod : String) (loc : Option SourceLocation) :
    List (String × Text) → Except String (Parsed (List Operand))
  | [] => .ok (.ok [])
  | (kind, tok) :: rest => do
      match ← parseOperandByKind kind tok typeMod loc with
      | .error diag => .ok (.error diag)
      | .ok op =>
          let ops ← parseOperands typeMod loc rest
          .ok (ops.map (op :: ·))

structure PtxIsaMatch where
  entry : PtxIsaEntry
  operands : List Operand

/-- The entries that accept all operands, and the last diagnostic of one that does not. -/
def matchEntries (inst : TokenizedPtxInst) :
    List PtxIsaEntry → List PtxIsaMatch → Option Diagnostic →
      Except String (List PtxIsaMatch × Option Diagnostic)
  | [], found, last => .ok (found, last)
  | e :: cands, found, last => do
      match ← parseOperands inst.mods.typeMod inst.dbg (e.operandKinds.zip inst.operandTokens) with
      | .ok ops => matchEntries inst cands (found ++ [{ entry := e, operands := ops }]) last
      | .error diag => matchEntries inst cands found (diag.or last)

def instDiag (inst : TokenizedPtxInst) (code message : String) : Diagnostic :=
  { module := "instruction", code := code, message := message, location := inst.dbg }

def mapOne (isa : PtxIsaRegistry) (inst : TokenizedPtxInst) :
    Except String (Except Diagnostic InstRecord) :=
  let cands := isa.candidates inst.ptxOpcode inst.mods.typeMod.toList inst.operandTokens.length
  let name := String.ofList inst.ptxOpcode
  if cands.isEmpty then
    .ok (.error (instDiag inst "DESC_NOT_FOUND" ("no PTX ISA map entry for " ++ name)))
  else do
    match ← matchEntries inst cands [] none with
    | ([], some diag) => .ok (.error diag)
    | ([], none) =>
        .ok (.error (instDiag inst "OPERAND_FORM_MISMATCH"
          ("operands do not match any PTX ISA form for " ++ name)))
    | ([m], _) =>
        .ok (.ok { opcode := m.entry.irOp, mods := inst.mods, pred := inst.pred
                   operands := m.operands, dbg := inst.dbg })
    | (found, _) =>
        .ok (.error (instDiag inst "DESC_AMBIGUOUS" ("ambiguous PTX ISA mapping for " ++ name
          ++ (if inst.mods.typeMod == "" then "" else "." ++ inst.mods.typeMod) ++ ": "
          ++ String.intercalate "; " (found.map fun m => fmtSig m.entry))))

/-- The index of the instruction is added to its diagnostic. -/
def mapKernelFrom (isa : PtxIsaRegistry) : Nat → List TokenizedPtxInst →
    Except String (Except Diagnostic (List InstRecord))
  | _, [] => .ok (.ok [])
  | i, inst :: insts => do
      match ← mapOne isa inst with
      | .error diag => .ok (.error { diag with instIndex := some (i : Int) })
      | .ok rec =>
          let recs ← mapKernelFrom isa (i + 1) insts
          .ok (recs.map (rec :: ·))

def mapKernel (isa : PtxIsaRegistry) (insts : List TokenizedPtxInst) :
    Except String (Except Diagnostic (List InstRecord)) := mapKernelFrom isa 0 insts

end ProtoGpu

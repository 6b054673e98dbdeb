import ProtoGpu.Frontend.Text
import ProtoGpu.Memory

/-!
# The PTX parser

`Parser::parse_ptx_text_tokens` (`parser.cpp`) reads the text line by line. A header line opens a
kernel, the lines up to one that begins with a brace are its signature, and a line that is a closing
brace alone ends it. The body is then read twice: for the register declarations and the labels, and
for the instructions. A thrown exception is an `Except.error` of its `what()`.
-/

namespace ProtoGpu

structure TokenizedPtxInst where
  ptxOpcode : Text := []
  mods : InstMods := {}
  pred : Option PredGuard := none
  operandTokens : List Text := []
  dbg : Option SourceLocation := none
deriving DecidableEq

structure KernelTokens where
  name : Text := []
  regU32Count : Nat := 0
  regU64Count : Nat := 0
  params : List ParamDesc := []
  insts : List TokenizedPtxInst := []
deriving DecidableEq

structure ModuleTokens where
  kernels : List KernelTokens := []
deriving DecidableEq

/-- The order in which the loops over `reg_alias`, an `std::unordered_map`, meet its entries. -/
structure AliasOrder where
  visit : List (Text × Text) → List (Text × Text)
  perm : ∀ aliases, (visit aliases).Perm aliases

def AliasOrder.inserted : AliasOrder where
  visit := id
  perm := fun _ => .refl _

/-! ### One instruction -/

/-- The guard at the head of a line, with the rest of the line. -/
def parsePredicate (line : Text) : Except String (Option PredGuard × Text) :=
  let s := line.trim
  let neg := s[1]? == some '!'
  let i := if neg then 2 else 1
  if s.head? != some '@' || s[i]? != some '%' || s.length ≤ i + 2 || s[i + 1]? != some 'p' then
    .ok (none, s)
  else
    let digits := (s.drop (i + 2)).takeWhile Json.isDigit
    if digits.isEmpty then .ok (none, s)
    else do
      let pid ← Text.stoll digits
      .ok (some { predId := pid, isNegated := neg }, Text.trim (s.drop (i + 2 + digits.length)))

def typeModNames : List Text :=
  ["u32".toList, "s32".toList, "b32".toList, "u64".toList, "s64".toList, "b64".toList, "f32".toList]

def spaceNames : List Text :=
  ["global".toList, "shared".toList, "local".toList, "const".toList, "param".toList]

def addMod (mods : InstMods) (m : Text) : InstMods :=
  if typeModNames.elem m then { mods with typeMod := String.ofList m }
  else if spaceNames.elem m then { mods with space := String.ofList m }
  else { mods with flags := mods.flags ++ [String.ofList m] }

/-- The operands between commas and semicolons, the first of them begun with `cur`. -/
def operandTokensFrom : Text → Text → List Text
  | cur, [] => if cur.trim.isEmpty then [] else [cur.trim]
  | cur, ch :: rest =>
      if ch == ',' || ch == ';' then
        if cur.trim.isEmpty then operandTokensFrom [] rest
        else cur.trim :: operandTokensFrom [] rest
      else operandTokensFrom (cur ++ [ch]) rest

/-- The part of `tokenize_inst_line` behind the guard. -/
def tokenizeGuarded (inst : TokenizedPtxInst) (line : Text) : TokenizedPtxInst :=
  match line.splitWs with
  | [] => inst
  | word :: words =>
      let opmods := Text.trim (word.popBack ";,".toList)
      if opmods.isEmpty then inst
      else
        let parts := opmods.split '.'
        let rest :=
          if words.isEmpty then []
          else Text.trim (line.drop ((Text.find line word).getD 0 + word.length))
        { inst with
          ptxOpcode := parts.headD []
          mods := parts.tail.foldl addMod inst.mods
          operandTokens := operandTokensFrom [] rest }

def tokenizeInstLine (raw : Text) (fileName : String) (lineNo : Nat) :
    Except String TokenizedPtxInst :=
  let inst : TokenizedPtxInst :=
    { dbg := some { file := fileName, line := lineNo, column := 1 } }
  let line := Text.trim raw.cutComment
  if line.isEmpty then .ok inst
  else do
    let (pred, line) ← parsePredicate line
    .ok (tokenizeGuarded { inst with pred := pred } line)

/-! ### The signature -/

def parseParamDecl (raw : Text) : Option ParamDesc :=
  let t := Text.trim raw.cutComment
  if !Text.contains t ".param".toList then none
  else
    match t.splitWs with
    | ws0 :: typeTok :: ws2 :: _ =>
        if ws0 != ".param".toList then none
        else
          let nameTok := Text.trim (ws2.popBack ",);".toList)
          if nameTok.isEmpty then none
          else if typeTok == ".u32".toList then
            some { name := String.ofList nameTok, type := .u32, size := 4, align := 4 }
          else if typeTok == ".u64".toList then
            some { name := String.ofList nameTok, type := .u64, size := 8, align := 8 }
          else none
    | _ => none

def alignUpU32 (v a : BitVec 32) : BitVec 32 :=
  if a = 0 then v
  else
    let r := v % a
    if r = 0 then v else v + (a - r)

/-- Where the parameters so far end. -/
def paramsEnd (params : List ParamDesc) : BitVec 32 :=
  params.foldl (fun e p => if e < p.offset + p.size then p.offset + p.size else e) 0

def addParam (params : List ParamDesc) (p : ParamDesc) : List ParamDesc :=
  params ++ [{ p with offset := alignUpU32 (paramsEnd params) p.align }]

/-! ### The body -/

/-- A body line as both passes see it. -/
def bodyText (line : Nat × Text) : Text := Text.trim line.2.cutComment

structure PendingNamedReg where
  type : Text
  name : Text
deriving DecidableEq

/-- What the first pass over a body collects. -/
structure BodyScan where
  cur : KernelTokens
  labelToPc : List (Text × Nat) := []
  pendingNamed : List PendingNamedReg := []
  pc : Nat := 0
deriving DecidableEq

/-- `max(count so far, count declared)` for the bank a numbered declaration names. -/
def declareRange (cur : KernelTokens) (decl : Text) (count : Nat) : KernelTokens :=
  if decl.startsWith "%rd<".toList then
    { cur with regU64Count := max cur.regU64Count count }
  else if decl.startsWith "%r<".toList || decl.startsWith "%f<".toList then
    { cur with regU32Count := max cur.regU32Count count }
  else cur

def isNamedReg (decl : Text) : Bool :=
  decl.head? == some '%' && !decl.startsWith "%r".toList && !decl.startsWith "%rd".toList
    && !decl.startsWith "%p".toList

/-- A `.reg` line. -/
def scanReg (scan : BodyScan) (s : Text) : Except String BodyScan :=
  match s.splitWs with
  | _ :: type :: word :: _ =>
      let decl := Text.trim (word.popBack ";,".toList)
      let named : BodyScan :=
        if isNamedReg decl then
          { scan with pendingNamed := scan.pendingNamed ++ [{ type := type, name := decl }] }
        else scan
      match Text.find decl ['<'], Text.find decl ['>'] with
      | some lt, some gt =>
          if lt + 1 < gt then do
            let count ← Text.stoul (decl.substr (lt + 1) (gt - lt - 1))
            .ok { scan with cur := declareRange scan.cur decl (count % 2 ^ 32) }
          else .ok named
      | _, _ => .ok named
  | _ => .ok scan

def isDirective (s : Text) : Bool := s.head? == some '.' || s.head? == some '\x7b'

def isLabel (s : Text) : Bool := s.getLast? == some ':'

/-- One line of the first pass. -/
def scanLine (scan : BodyScan) (line : Nat × Text) : Except String BodyScan :=
  let s := bodyText line
  if s.isEmpty then .ok scan
  else if s.startsWith ".reg".toList then scanReg scan s
  else if isDirective s then .ok scan
  else if isLabel s then
    let name := Text.trim s.dropLast
    .ok (if name.isEmpty then scan
      else { scan with labelToPc := (name, scan.pc) :: scan.labelToPc })
  else .ok { scan with pc := scan.pc + 1 }

/-- `reg_alias`, in the order of insertion, with the register counts. -/
structure Aliases where
  cur : KernelTokens
  regAlias : List (Text × Text) := []
deriving DecidableEq

/-- One named register, given the next number of its bank. -/
def assignAlias (a : Aliases) (nr : PendingNamedReg) : Aliases :=
  if (a.regAlias.lookup nr.name).isSome then a
  else if nr.type == ".b64".toList || nr.type == ".u64".toList then
    { cur := { a.cur with regU64Count := (a.cur.regU64Count + 1) % 2 ^ 32 }
      regAlias := a.regAlias ++ [(nr.name, "%rd".toList ++ Text.ofNat a.cur.regU64Count)] }
  else if nr.type == ".b32".toList || nr.type == ".u32".toList || nr.type == ".f32".toList then
    { cur := { a.cur with regU32Count := (a.cur.regU32Count + 1) % 2 ^ 32 }
      regAlias := a.regAlias ++ [(nr.name, "%r".toList ++ Text.ofNat a.cur.regU32Count)] }
  else a

def rewriteNamedRegs (regAlias : List (Text × Text)) (tok : Text) : Text :=
  regAlias.foldl (fun tok kv => Text.replace tok kv.1 kv.2) tok

/-- The space a generic access through the stack pointer is given. -/
def markLocal (regAlias : List (Text × Text)) (inst : TokenizedPtxInst) : TokenizedPtxInst :=
  if (inst.ptxOpcode == "ld".toList || inst.ptxOpcode == "st".toList) && inst.mods.space == "" then
    match regAlias.lookup "%SP".toList with
    | none => inst
    | some sp =>
        if inst.operandTokens.any fun tok => Text.contains tok ['['] && Text.contains tok sp then
          { inst with mods := { inst.mods with space := "local" } }
        else inst
  else inst

def resolveBranch (labelToPc : List (Text × Nat)) (inst : TokenizedPtxInst) : TokenizedPtxInst :=
  match inst.operandTokens with
  | [tok] =>
      if inst.ptxOpcode == "bra".toList then
        match labelToPc.lookup (Text.trim tok) with
        | some pc => { inst with operandTokens := [Text.ofNat pc] }
        | none => inst
      else inst
  | _ => inst

/-- One line of the second pass. -/
def emitLine (order : AliasOrder) (fileName : String) (labelToPc : List (Text × Nat))
    (regAlias : List (Text × Text)) (insts : List TokenizedPtxInst) (line : Nat × Text) :
    Except String (List TokenizedPtxInst) :=
  let s := bodyText line
  if s.isEmpty || s.startsWith ".reg".toList || isDirective s || isLabel s then .ok insts
  else do
    let inst ← tokenizeInstLine s fileName line.1
    let inst := { inst with
      operandTokens := inst.operandTokens.map (rewriteNamedRegs (order.visit regAlias)) }
    let inst := resolveBranch labelToPc (markLocal regAlias inst)
    .ok (if inst.ptxOpcode.isEmpty then insts else insts ++ [inst])

/-- The processing of a body at its closing brace. -/
def closeKernel (order : AliasOrder) (fileName : String) (cur : KernelTokens)
    (bodyLines : List (Nat × Text)) : Except String KernelTokens := do
  let scan ← bodyLines.foldlM scanLine { cur := cur }
  let aliases := scan.pendingNamed.foldl assignAlias { cur := scan.cur }
  let insts ← bodyLines.foldlM (emitLine order fileName scan.labelToPc aliases.regAlias)
    aliases.cur.insts
  .ok { aliases.cur with insts := insts }

/-! ### The text -/

structure ParseState where
  kernels : List KernelTokens := []
  inEntry : Bool := false
  inBody : Bool := false
  cur : KernelTokens := {}
  bodyLines : List (Nat × Text) := []
  lineNo : Nat := 0
deriving DecidableEq

def isHeader (t : Text) : Bool :=
  t.startsWith ".visible".toList && Text.contains t ".entry".toList

/-- What follows the first `.entry` of a header line. -/
def headerRest (t : Text) : Text :=
  match Text.find t ".entry".toList with
  | some pos => t.drop (pos + 6)
  | none => []

/-- The name between `.entry` and the first parenthesis. -/
def headerName (t : Text) : Text :=
  let after := Text.trim (headerRest t)
  Text.trim (after.takeWhile (· != '('))

def openKernel (st : ParseState) (t : Text) : ParseState :=
  { st with
    inEntry := true
    inBody := Text.contains (headerRest t) ['\x7b']
    cur := { name := headerName t }
    bodyLines := [] }

/-- A line of the signature. -/
def signatureLine (st : ParseState) (t : Text) : ParseState :=
  { st with
    cur :=
      match parseParamDecl t with
      | some p => { st.cur with params := addParam st.cur.params p }
      | none => st.cur
    inBody := t.head? == some '\x7b' }

/-- The body of the loop of `parse_ptx_text_tokens`. -/
def parseLine (order : AliasOrder) (fileName : String) (st : ParseState) (line : Text) :
    Except String ParseState :=
  let st := { st with lineNo := st.lineNo + 1 }
  let t := line.trim
  if t.isEmpty then .ok st
  else if isHeader t then .ok (openKernel st t)
  else if !st.inEntry then .ok st
  else if t == ['\x7d'] then do
    let k ← closeKernel order fileName st.cur st.bodyLines
    .ok { st with kernels := st.kernels ++ [k], inEntry := false, inBody := false }
  else if st.inBody then .ok { st with bodyLines := st.bodyLines ++ [(st.lineNo, t)] }
  else .ok (signatureLine st t)

def parsePtxTextTokens (order : AliasOrder) (ptxText : Text) (fileName : String) :
    Except String ModuleTokens := do
  let st ← ptxText.getlines.foldlM (parseLine order fileName) {}
  .ok { kernels := st.kernels }

/-- `Binder::bind_kernel_by_name`. -/
def bindKernelByName (m : ModuleTokens) (entry : Text) : Except String KernelTokens :=
  match m.kernels.find? fun k => k.name == entry with
  | some k => .ok k
  | none => .error ("Binder: kernel entry not found: " ++ String.ofList entry)

end ProtoGpu

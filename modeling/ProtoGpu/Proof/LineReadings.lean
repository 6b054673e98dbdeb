import ProtoGpu.Proof.AliasTable

/-!
# Readings of lines

What the parser takes from a line: outside a kernel a header, in a signature also parameters and
braces, in a body a declaration, a label or the tokens of an instruction. Two texts with the same
readings become the same kernels, up to the line numbers kept for diagnostics.
-/

namespace ProtoGpu

open Throwing

/-! ### Kernels without line numbers -/

def TokenizedPtxInst.erase (inst : TokenizedPtxInst) : TokenizedPtxInst := { inst with dbg := none }

def KernelTokens.erase (k : KernelTokens) : KernelTokens :=
  { k with insts := k.insts.map TokenizedPtxInst.erase }

def ModuleTokens.erase (m : ModuleTokens) : ModuleTokens where
  kernels := m.kernels.map KernelTokens.erase

/-! ### Readings -/

/-- Where a line stands. -/
inductive LineMode where
  | outside
  | signature
  | body
deriving DecidableEq

/-- What a line adds to a body. -/
inductive BodyRole where
  | reg (type decl : Text)
  | label (name : Text)
  | inst (tokens : Except String TokenizedPtxInst)

/-- What the parser takes from a line. -/
inductive LineReading where
  | nothing
  | header (name : Text) (opens : Bool)
  | closing
  | signature (param : Option ParamDesc) (opens : Bool)
  | body (role : BodyRole)

/-- The tokens of an instruction, without where they stand. -/
def instTokens (s : Text) : Except String TokenizedPtxInst :=
  (tokenizeInstLine s "" 0).map TokenizedPtxInst.erase

def bodyRole (line : Nat × Text) : Option BodyRole :=
  let s := bodyText line
  if s.isEmpty then none
  else if s.startsWith ".reg".toList then
    match regDecl line with
    | some (type, decl) => some (.reg type decl)
    | none => none
  else if isDirective s then none
  else if isLabel s then
    if (Text.trim s.dropLast).isEmpty then none else some (.label (Text.trim s.dropLast))
  else some (.inst (instTokens s))

def readSignature (t : Text) : LineReading :=
  match parseParamDecl t, t.head? == some '\x7b' with
  | none, false => .nothing
  | param, opens => .signature param opens

def readBody (t : Text) : LineReading :=
  match bodyRole (0, t) with
  | some role => .body role
  | none => .nothing

def readLine (mode : LineMode) (line : Text) : LineReading :=
  let t := line.trim
  if t.isEmpty then .nothing
  else if isHeader t then .header (headerName t) (Text.contains (headerRest t) ['\x7b'])
  else
    match mode with
    | .outside => .nothing
    | .signature => if t == ['\x7d'] then .closing else readSignature t
    | .body => if t == ['\x7d'] then .closing else readBody t

/-- Where the next line stands. -/
def LineReading.next (mode : LineMode) : LineReading → LineMode
  | .nothing => mode
  | .header _ opens => if opens then .body else .signature
  | .closing => .outside
  | .signature _ opens => if opens then .body else .signature
  | .body _ => mode

/-! ### Bodies from readings -/

/-- What `scanReg` does with a declaration. -/
def scanDecl (scan : BodyScan) (type decl : Text) : Except String BodyScan :=
  let named : BodyScan :=
    if isNamedReg decl then
      { scan with pendingNamed := scan.pendingNamed ++ [{ type := type, name := decl }] }
    else scan
  match rangeText decl with
  | some range => do
      let count ← Text.stoul range
      .ok { scan with cur := declareRange scan.cur decl (count % 2 ^ 32) }
  | none => .ok named

def scanRole (scan : BodyScan) : BodyRole → Except String BodyScan
  | .reg type decl => scanDecl scan type decl
  | .label name => .ok { scan with labelToPc := (name, scan.pc) :: scan.labelToPc }
  | .inst _ => .ok { scan with pc := scan.pc + 1 }

def emitRole (order : AliasOrder) (labelToPc : List (Text × Nat)) (regAlias : List (Text × Text))
    (insts : List TokenizedPtxInst) : BodyRole → Except String (List TokenizedPtxInst)
  | .inst tokens => do
      let inst ← tokens
      .ok (if inst.ptxOpcode.isEmpty then insts
        else insts ++ [finishInst order labelToPc regAlias inst])
  | _ => .ok insts

def closeRoles (order : AliasOrder) (cur : KernelTokens) (roles : List BodyRole) :
    Except String KernelTokens := do
  let scan ← roles.foldlM scanRole { cur := cur }
  let aliases := scan.pendingNamed.foldl assignAlias { cur := scan.cur }
  let insts ← roles.foldlM (emitRole order scan.labelToPc aliases.regAlias)
    (aliases.cur.insts.map TokenizedPtxInst.erase)
  .ok { aliases.cur with insts := insts }

/-- The role of a line, or none, does what the line does. -/
def applyRole {σ : Type} (f : σ → BodyRole → Except String σ) (s : σ) : Option BodyRole →
    Except String σ
  | some role => f s role
  | none => .ok s

theorem foldlM_applyRole {σ : Type} (f : σ → BodyRole → Except String σ)
    (lines : List (Nat × Text)) (s : σ) :
    lines.foldlM (fun s line => applyRole f s (bodyRole line)) s
      = (lines.filterMap bodyRole).foldlM f s := by
  induction lines generalizing s with
  | nil => rfl
  | cons line lines ih =>
    rw [List.foldlM_cons, List.filterMap_cons]
    cases bodyRole line with
    | none => exact ih s
    | some role =>
      rw [List.foldlM_cons]
      exact bind_congr fun s' => ih s'

theorem scanReg_eq (scan : BodyScan) {line : Nat × Text}
    (hreg : (bodyText line).startsWith ".reg".toList = true) :
    scanReg scan (bodyText line)
      = match regDecl line with
        | some (type, decl) => scanDecl scan type decl
        | none => .ok scan := by
  rw [regDecl, if_pos hreg]
  unfold scanReg
  rcases (bodyText line).splitWs with _ | ⟨word, _ | ⟨type, _ | ⟨decl, rest⟩⟩⟩
  · rfl
  · rfl
  · rfl
  · dsimp only
    generalize Text.trim (decl.popBack ";,".toList) = decl
    unfold scanDecl rangeText
    cases Text.find decl ['<'] with
    | none => rfl
    | some lt =>
      cases Text.find decl ['>'] with
      | none => rfl
      | some gt =>
        dsimp only
        by_cases hlt : lt + 1 < gt
        · rw [if_pos hlt, if_pos hlt]
        · rw [if_neg hlt, if_neg hlt]

theorem scanLine_eq (scan : BodyScan) (line : Nat × Text) :
    scanLine scan line = applyRole scanRole scan (bodyRole line) := by
  unfold scanLine bodyRole
  dsimp only
  split
  · rfl
  · split
    · next hreg =>
      rw [scanReg_eq scan hreg]
      cases regDecl line with
      | none => rfl
      | some d => rfl
    · split
      · rfl
      · split
        · split <;> rfl
        · rfl

/-! ### Instructions without line numbers -/

theorem tokenizeGuarded_erase (inst : TokenizedPtxInst) (line : Text) :
    (tokenizeGuarded inst line).erase = tokenizeGuarded inst.erase line := by
  unfold tokenizeGuarded
  split
  · rfl
  · dsimp only
    split <;> rfl

theorem tokenizeInstLine_erase (s : Text) (fileName : String) (lineNo : Nat) :
    (tokenizeInstLine s fileName lineNo).map TokenizedPtxInst.erase = instTokens s := by
  unfold instTokens tokenizeInstLine
  dsimp only
  split
  · rfl
  · cases parsePredicate (Text.trim s.cutComment) with
    | error what => rfl
    | ok guarded =>
      simp only [bind, Except.bind, Except.map, tokenizeGuarded_erase]
      rfl

theorem markLocal_erase (regAlias : List (Text × Text)) (inst : TokenizedPtxInst) :
    (markLocal regAlias inst).erase = markLocal regAlias inst.erase := by
  unfold markLocal
  change _ = if ((inst.ptxOpcode == "ld".toList || inst.ptxOpcode == "st".toList)
    && inst.mods.space == "") = true then _ else _
  split
  · cases regAlias.lookup "%SP".toList with
    | none => rfl
    | some sp =>
      change _ = if (inst.operandTokens.any fun tok =>
        Text.contains tok ['['] && Text.contains tok sp)
        = true then _ else _
      dsimp only
      split <;> rfl
  · rfl

theorem resolveBranch_erase (labelToPc : List (Text × Nat)) (inst : TokenizedPtxInst) :
    (resolveBranch labelToPc inst).erase = resolveBranch labelToPc inst.erase := by
  obtain ⟨ptxOpcode, mods, pred, operandTokens, dbg⟩ := inst
  unfold resolveBranch TokenizedPtxInst.erase
  cases operandTokens with
  | nil => rfl
  | cons tok rest =>
    cases rest with
    | cons tok' rest => rfl
    | nil =>
      dsimp only
      split
      · cases labelToPc.lookup (Text.trim tok) with
        | none => rfl
        | some pc => rfl
      · rfl

theorem finishInst_erase (order : AliasOrder) (labelToPc : List (Text × Nat))
    (regAlias : List (Text × Text)) (inst : TokenizedPtxInst) :
    (finishInst order labelToPc regAlias inst).erase
      = finishInst order labelToPc regAlias inst.erase := by
  rw [finishInst, resolveBranch_erase, markLocal_erase]
  rfl

section Emit
variable (order : AliasOrder) (fileName : String) (labelToPc : List (Text × Nat))
  (regAlias : List (Text × Text))

theorem bodyRole_inst {line : Nat × Text} (hinst : isInstLine line = true) :
    bodyRole line = some (.inst (instTokens (bodyText line))) := by
  simp only [isInstLine, Bool.not_eq_true', Bool.or_eq_false_iff] at hinst
  obtain ⟨⟨⟨hnil, hreg⟩, hdirective⟩, hlabel⟩ := hinst
  simp only [bodyRole, hnil, hreg, hdirective, hlabel, Bool.false_eq_true, if_false]

theorem emitRole_other (insts : List TokenizedPtxInst) {line : Nat × Text}
    (hinst : isInstLine line = false) :
    applyRole (emitRole order labelToPc regAlias) insts (bodyRole line) = .ok insts := by
  unfold bodyRole
  dsimp only
  split
  · rfl
  · next hnil =>
    split
    · cases regDecl line with
      | none => rfl
      | some d => rfl
    · next hreg =>
      split
      · rfl
      · next hdirective =>
        split
        · split <;> rfl
        · next hlabel =>
          rw [Bool.not_eq_true] at hnil hreg hdirective hlabel
          simp only [isInstLine, hnil, hreg, hdirective, hlabel, Bool.or_false, Bool.not_false,
            Bool.true_eq_false] at hinst

theorem emitLine_role (insts : List TokenizedPtxInst) (line : Nat × Text) :
    (emitLine order fileName labelToPc regAlias insts line).map (List.map TokenizedPtxInst.erase)
      = applyRole (emitRole order labelToPc regAlias) (insts.map TokenizedPtxInst.erase)
          (bodyRole line) := by
  rw [emitLine_eq, bodyInst]
  cases hinst : isInstLine line with
  | false =>
    rw [emitRole_other order labelToPc regAlias _ hinst]
    simp [Except.map]
  | true =>
    rw [bodyRole_inst hinst, if_pos rfl, applyRole, emitRole,
      ← tokenizeInstLine_erase (bodyText line) fileName line.1]
    cases tokenizeInstLine (bodyText line) fileName line.1 with
    | error what => rfl
    | ok inst =>
      have hopcode : inst.erase.ptxOpcode = inst.ptxOpcode := rfl
      simp only [bind, Except.bind, Except.map, hopcode]
      cases inst.ptxOpcode.isEmpty with
      | true => simp
      | false => simp [finishInst_erase]

theorem emitLines_roles (lines : List (Nat × Text)) (insts : List TokenizedPtxInst) :
    (lines.foldlM (emitLine order fileName labelToPc regAlias) insts).map
        (List.map TokenizedPtxInst.erase)
      = (lines.filterMap bodyRole).foldlM (emitRole order labelToPc regAlias)
          (insts.map TokenizedPtxInst.erase) := by
  rw [← foldlM_applyRole]
  induction lines generalizing insts with
  | nil => rfl
  | cons line lines ih =>
    rw [List.foldlM_cons, List.foldlM_cons, ← emitLine_role order fileName labelToPc regAlias]
    cases emitLine order fileName labelToPc regAlias insts line with
    | error what => rfl
    | ok insts' => exact ih insts'

end Emit

/-- **Bodies.** What a body becomes is decided by the roles of its lines. -/
theorem closeKernel_roles (order : AliasOrder) (fileName : String) (cur : KernelTokens)
    (lines : List (Nat × Text)) :
    (closeKernel order fileName cur lines).map KernelTokens.erase
      = closeRoles order cur (lines.filterMap bodyRole) := by
  have hscan : lines.foldlM scanLine { cur := cur }
      = (lines.filterMap bodyRole).foldlM scanRole { cur := cur } := by
    rw [← foldlM_applyRole]
    congr 1
    funext scan line
    exact scanLine_eq scan line
  unfold closeKernel closeRoles
  rw [hscan]
  cases (lines.filterMap bodyRole).foldlM scanRole { cur := cur } with
  | error what => rfl
  | ok scan =>
    have hemit := emitLines_roles order fileName scan.labelToPc
      (scan.pendingNamed.foldl assignAlias { cur := scan.cur }).regAlias lines
      (scan.pendingNamed.foldl assignAlias { cur := scan.cur }).cur.insts
    simp only [bind, Except.bind] at hemit ⊢
    rw [← hemit]
    cases lines.foldlM (emitLine order fileName scan.labelToPc
      (scan.pendingNamed.foldl assignAlias { cur := scan.cur }).regAlias)
      (scan.pendingNamed.foldl assignAlias { cur := scan.cur }).cur.insts with
    | error what => rfl
    | ok insts => rfl

/-! ### Texts from readings -/

/-- What the parser knows, without line numbers. -/
structure ReadState where
  kernels : List KernelTokens := []
  mode : LineMode := .outside
  cur : KernelTokens := {}
  roles : List BodyRole := []

def ParseState.mode (st : ParseState) : LineMode :=
  if !st.inEntry then .outside else if st.inBody then .body else .signature

def ParseState.read (st : ParseState) : ReadState where
  kernels := st.kernels.map KernelTokens.erase
  mode := st.mode
  cur := st.cur
  roles := st.bodyLines.filterMap bodyRole

def ReadState.step (order : AliasOrder) (st : ReadState) : LineReading → Except String ReadState
  | .nothing => .ok st
  | .header name opens =>
      .ok { st with
        mode := if opens then .body else .signature
        cur := { name := name }
        roles := [] }
  | .closing => do
      let k ← closeRoles order st.cur st.roles
      .ok { st with kernels := st.kernels ++ [k], mode := .outside }
  | .signature param opens =>
      .ok { st with
        mode := if opens then .body else .signature
        cur :=
          match param with
          | some p => { st.cur with params := addParam st.cur.params p }
          | none => st.cur }
  | .body role => .ok { st with roles := st.roles ++ [role] }

def readStep (order : AliasOrder) (st : ReadState) (line : Text) : Except String ReadState :=
  st.step order (readLine st.mode line)

theorem ReadState.step_mode {order : AliasOrder} {st st' : ReadState} {reading : LineReading}
    (hstep : st.step order reading = .ok st') : st'.mode = reading.next st.mode := by
  cases reading with
  | nothing =>
    cases hstep
    rfl
  | header name opens =>
    cases hstep
    rfl
  | closing =>
    obtain ⟨k, -, hdone⟩ := bind_ok.mp hstep
    cases hdone
    rfl
  | signature param opens =>
    cases hstep
    rfl
  | body role =>
    cases hstep
    rfl

section Steps
variable (order : AliasOrder) (fileName : String) (kernels : List KernelTokens) (cur : KernelTokens)
  (bodyLines : List (Nat × Text)) (lineNo : Nat) (t : Text)

theorem closing_read (inBody : Bool) :
    (closeKernel order fileName cur bodyLines).map (fun k => ParseState.read
        { kernels := kernels ++ [k], inEntry := false, inBody := false, cur := cur
          bodyLines := bodyLines, lineNo := lineNo })
      = ReadState.step order (ParseState.read
          { kernels := kernels, inEntry := true, inBody := inBody, cur := cur
            bodyLines := bodyLines, lineNo := lineNo }) .closing := by
  have hroles := closeKernel_roles order fileName cur bodyLines
  simp only [ReadState.step, ParseState.read]
  rw [← hroles]
  cases closeKernel order fileName cur bodyLines with
  | error what => rfl
  | ok k =>
    simp only [bind, Except.bind, Except.map, List.map_append]
    rfl

theorem signature_read :
    Except.ok (ParseState.read (signatureLine
        { kernels := kernels, inEntry := true, inBody := false, cur := cur
          bodyLines := bodyLines, lineNo := lineNo + 1 } t))
      = ReadState.step order (ParseState.read
          { kernels := kernels, inEntry := true, inBody := false, cur := cur
            bodyLines := bodyLines, lineNo := lineNo }) (readSignature t) := by
  unfold signatureLine readSignature
  dsimp only
  cases parseParamDecl t with
  | some p =>
    cases t.head? == some '\x7b' with
    | true => rfl
    | false => rfl
  | none =>
    cases t.head? == some '\x7b' with
    | true => rfl
    | false => rfl

theorem body_read :
    Except.ok (ParseState.read
        { kernels := kernels, inEntry := true, inBody := true, cur := cur
          bodyLines := bodyLines ++ [(lineNo + 1, t)], lineNo := lineNo + 1 })
      = ReadState.step order (ParseState.read
          { kernels := kernels, inEntry := true, inBody := true, cur := cur
            bodyLines := bodyLines, lineNo := lineNo }) (readBody t) := by
  have hrole : bodyRole (lineNo + 1, t) = bodyRole (0, t) := rfl
  unfold readBody
  simp only [ParseState.read, List.filterMap_append, List.filterMap_cons, List.filterMap_nil, hrole]
  cases bodyRole (0, t) with
  | none => simp [ReadState.step, ParseState.mode]
  | some role => rfl

end Steps

theorem parseLine_read (order : AliasOrder) (fileName : String) (st : ParseState) (line : Text) :
    (parseLine order fileName st line).map ParseState.read = readStep order st.read line := by
  obtain ⟨kernels, inEntry, inBody, cur, bodyLines, lineNo⟩ := st
  unfold parseLine readStep readLine
  dsimp only
  split
  · rfl
  · split
    · rfl
    · cases inEntry with
      | false => rfl
      | true =>
        rw [if_neg (by decide)]
        cases inBody with
        | false =>
          change _ = ReadState.step order _
            (if line.trim == ['\x7d'] then LineReading.closing else readSignature line.trim)
          split
          · rw [← closing_read order fileName kernels cur bodyLines lineNo false]
            cases closeKernel order fileName cur bodyLines <;> rfl
          · exact signature_read order kernels cur bodyLines lineNo line.trim
        | true =>
          change _ = ReadState.step order _
            (if line.trim == ['\x7d'] then LineReading.closing else readBody line.trim)
          split
          · rw [← closing_read order fileName kernels cur bodyLines lineNo true]
            cases closeKernel order fileName cur bodyLines <;> rfl
          · exact body_read order kernels cur bodyLines lineNo line.trim

theorem parseLines_read (order : AliasOrder) (fileName : String) (lines : List Text)
    (st : ParseState) :
    (lines.foldlM (parseLine order fileName) st).map ParseState.read
      = lines.foldlM (readStep order) st.read := by
  induction lines generalizing st with
  | nil => rfl
  | cons line lines ih =>
    rw [List.foldlM_cons, List.foldlM_cons, ← parseLine_read order fileName]
    cases parseLine order fileName st line with
    | error what => rfl
    | ok st' => exact ih st'

/-- **Texts.** What a text becomes is decided by the readings of its lines. -/
theorem parsePtxTextTokens_read (order : AliasOrder) (text : Text) (fileName : String) :
    (parsePtxTextTokens order text fileName).map ModuleTokens.erase
      = (text.getlines.foldlM (readStep order) {}).map fun st => { kernels := st.kernels } := by
  unfold parsePtxTextTokens
  have hread := parseLines_read order fileName text.getlines {}
  rw [show ParseState.read {} = {} from rfl] at hread
  rw [← hread]
  cases text.getlines.foldlM (parseLine order fileName) {} with
  | error what => rfl
  | ok st => rfl

end ProtoGpu

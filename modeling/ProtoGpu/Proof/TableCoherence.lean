import ProtoGpu.Proof.BodyPasses
import ProtoGpu.Proof.CheckedKernels
import ProtoGpu.Proof.NamedRegs
import ProtoGpu.Proof.OperandKinds
import ProtoGpu.Proof.UnitShapes

/-!
# Tables that fit together

The map of the PTX instructions names operations and operand kinds; the descriptors expand them for
units that take micro-ops of certain shapes. A check of the two tables against each other, before
any kernel is there. A kernel that the map lets through finds every descriptor, and no unit is given
a micro-op it does not take.
-/

namespace ProtoGpu

open Throwing Transitions

/-! ### The check -/

/-- The kinds a template names, an index outside the instruction being skipped. -/
def pickKinds (kinds : List String) (idxs : List Int) : List String :=
  idxs.filterMap fun idx => if idx < 0 then none else kinds[idx.toNat]?

def UopTemplate.fits (kinds : List String) (t : UopTemplate) : Bool :=
  unitTakes t.kind t.op (pickKinds kinds t.outOperandIdx) (pickKinds kinds t.inOperandIdx)

def UopTemplate.isBra (t : UopTemplate) : Bool := t.kind == .control && t.op == .bra

def InstDesc.fits (kinds : List String) (desc : InstDesc) : Bool :=
  desc.uops.all (UopTemplate.fits kinds) && decide (desc.uops.countP UopTemplate.isBra ≤ 1)

/-- The lookup of an instruction by what it depends on. -/
def DescriptorRegistry.find (registry : DescriptorRegistry) (opcode typeMod : String)
    (kinds : List String) : Option InstDesc :=
  registry.descs.find? fun d =>
    d.opcode == opcode && (d.typeMod == "" || d.typeMod == typeMod) && d.operandKinds == kinds

/-- The type modifiers of a parsed instruction. -/
def parsedTypeMods : List String := "" :: typeModNames.map String.ofList

/-- Every type modifier that leads to the entry has a descriptor. -/
def PtxIsaEntry.covered (registry : DescriptorRegistry) (e : PtxIsaEntry) : Bool :=
  parsedTypeMods.all fun typeMod =>
    !(e.typeMod.isEmpty || e.typeMod == typeMod.toList)
      || (registry.find e.irOp typeMod e.operandKinds).any (InstDesc.fits e.operandKinds)

def PtxIsaRegistry.coherent (isa : PtxIsaRegistry) (registry : DescriptorRegistry) : Bool :=
  isa.entries.all (PtxIsaEntry.covered registry)

/-! ### What the parser and the map make -/

/-- An operand as the map makes it. -/
structure Operand.Made (kind : String) (o : Operand) : Prop where
  kind : kindName o = kind
  readable : o.readable = true
  pred : o.kind = .pred → 0 ≤ o.predId

theorem specials_known :
    ∀ name ∈ scalarSpecials ++ vectorSpecials, knownSpecials.elem (String.ofList name) = true := by
  decide

section Made

variable {kind typeMod : String} {tok : Text} {loc : Option SourceLocation} {op : Operand}

theorem parsePredOperand_ok (hparse : parsePredOperand tok loc = .ok (.ok op)) :
    ∃ id : Nat, op = { kind := .pred, predId := id } := by
  unfold parsePredOperand at hparse
  split at hparse
  · cases hparse
  · obtain ⟨parsed, -, hrest⟩ := bind_ok.mp hparse
    cases parsed with
    | none => cases hrest
    | some id =>
        cases hrest
        exact ⟨id, rfl⟩

theorem parseSpecialOperand_ok (hparse : parseSpecialOperand tok loc = .ok (.ok op)) :
    ∃ name ∈ scalarSpecials ++ vectorSpecials,
      op = { kind := .special, type := .u32, special := String.ofList name } := by
  unfold parseSpecialOperand at hparse
  split at hparse
  · cases hparse
  · dsimp only at hparse
    split at hparse
    next hscalar =>
      cases hparse
      exact ⟨_, List.mem_append_left _ (List.mem_of_elem_eq_true hscalar), rfl⟩
    · split at hparse
      · cases hparse
      · split at hparse
        next hvector =>
          cases hparse
          exact ⟨_, List.mem_append_right _ (List.mem_of_elem_eq_true hvector), rfl⟩
        · cases hparse

theorem parseSymbolOperand_ok (hparse : parseSymbolOperand tok loc = .ok (.ok op)) :
    ∃ symbol, op = { kind := .symbol, symbol := symbol } := by
  unfold parseSymbolOperand at hparse
  split at hparse
  · cases hparse
  split at hparse
  · cases hparse
  dsimp only at hparse
  split at hparse
  · cases hparse
  generalize (if isBracketed tok then bracketInner tok else tok) = name at hparse
  split at hparse
  · cases hparse
  · cases hparse
    exact ⟨_, rfl⟩

/-- An operand of a kind with nothing more to it. -/
theorem Operand.Made.of_kind {k : OperandKind} (hop : op.kind = k)
    (hkind : operandKindToString k = kind)
    (hspecial : k ≠ .special) (hpred : k ≠ .pred) : op.Made kind where
  kind := by rw [kindName, hop, hkind]
  readable := by
    rw [Operand.readable, hop, Bool.or_eq_true, bne_iff_ne]
    exact .inl hspecial
  pred := fun h => absurd (hop.symm.trans h) hpred

theorem parse_made (hparse : parseOperandByKind kind tok typeMod loc = .ok (.ok op)) :
    op.Made kind := by
  have hne := ne_nil_of_parse hparse
  rw [parseOperandByKind, if_neg (by simpa using hne)] at hparse
  split at hparse
  next hkind =>
    obtain ⟨reg, -, -, rfl⟩ := parseRegOperand_ok hparse
    exact .of_kind (promoteWide_kind typeMod _) (beq_iff_eq.mp hkind).symm (by simp) (by simp)
  split at hparse
  next hkind =>
    obtain ⟨id, rfl⟩ := parsePredOperand_ok hparse
    exact ⟨(beq_iff_eq.mp hkind).symm, rfl, fun _ => Int.natCast_nonneg id⟩
  split at hparse
  next hkind =>
    exact .of_kind (parseImmOperand_kind hparse) (beq_iff_eq.mp hkind).symm (by simp) (by simp)
  split at hparse
  next hkind =>
    obtain ⟨-, off, hbase⟩ := parseAddrOperand_ok hparse
    obtain ⟨base, -, rfl⟩ := parseAddrBase_ok hbase
    exact .of_kind rfl (beq_iff_eq.mp hkind).symm (by simp) (by simp)
  split at hparse
  next hkind =>
    obtain ⟨symbol, rfl⟩ := parseSymbolOperand_ok hparse
    exact .of_kind rfl (beq_iff_eq.mp hkind).symm (by simp) (by simp)
  split at hparse
  next hkind =>
    obtain ⟨name, hname, rfl⟩ := parseSpecialOperand_ok hparse
    exact ⟨(beq_iff_eq.mp hkind).symm, specials_known name hname, fun h => by cases h⟩
  · cases hparse

end Made

section Mapped

variable {isa : PtxIsaRegistry} {inst : TokenizedPtxInst} {rec : InstRecord}

/-- A match is of a candidate. -/
theorem matchEntries_entry {cands : List PtxIsaEntry} {found found' : List PtxIsaMatch}
    {last last' : Option Diagnostic}
    (hrun : matchEntries inst cands found last = .ok (found', last')) :
    ∀ m ∈ found', m ∈ found ∨ m.entry ∈ cands := by
  induction cands generalizing found last with
  | nil =>
      cases hrun
      exact fun m hm => .inl hm
  | cons e cands ih =>
      obtain ⟨parsed, -, hrest⟩ := bind_ok.mp hrun
      intro m hm
      cases parsed with
      | error diag =>
          rcases ih hrest m hm with hmem | hmem
          · exact .inl hmem
          · exact .inr (List.mem_cons_of_mem e hmem)
      | ok ops =>
          rcases ih hrest m hm with hmem | hmem
          · rcases List.mem_append.mp hmem with hmem | hmem
            · exact .inl hmem
            · obtain rfl := List.mem_singleton.mp hmem
              exact .inr List.mem_cons_self
          · exact .inr (List.mem_cons_of_mem e hmem)

theorem mem_candidates {op typeMod : Text} {count : Nat} {e : PtxIsaEntry}
    (hmem : e ∈ isa.candidates op typeMod count) :
    e ∈ isa.entries ∧ e.operandKinds.length = count
      ∧ (e.typeMod.isEmpty || e.typeMod == toLower typeMod) = true := by
  have hfits : e ∈ isa.entries.filter fun e =>
      e.ptxOpcode == toLower op && e.operandKinds.length == count
        && (e.typeMod.isEmpty || e.typeMod == toLower typeMod) := by
    rcases List.mem_append.mp hmem with hmem | hmem
    · exact (List.mem_filter.mp hmem).1
    · exact (List.mem_filter.mp hmem).1
  rw [List.mem_filter, Bool.and_eq_true, Bool.and_eq_true, beq_iff_eq, beq_iff_eq] at hfits
  exact ⟨hfits.1, hfits.2.1.2, hfits.2.2⟩

/-- What the map makes of an instruction. -/
structure MappedBy (e : PtxIsaEntry) (inst : TokenizedPtxInst) (rec : InstRecord) : Prop where
  opcode : rec.opcode = e.irOp
  mods : rec.mods = inst.mods
  operands : List.Forall₂ Operand.Made e.operandKinds rec.operands
  typeMod : (e.typeMod.isEmpty || e.typeMod == toLower inst.mods.typeMod.toList) = true

theorem mapOne_entry (hmap : mapOne isa inst = .ok (.ok rec)) :
    ∃ e ∈ isa.entries, MappedBy e inst rec := by
  unfold mapOne at hmap
  dsimp only at hmap
  split at hmap
  · cases hmap
  · obtain ⟨⟨found, last⟩, hrun, hrest⟩ := bind_ok.mp hmap
    have hparsed := matchEntries_ok hrun
    have hentry := matchEntries_entry hrun
    cases found with
    | nil => cases last <;> cases hrest
    | cons m others =>
        cases others with
        | cons => cases hrest
        | nil =>
            cases hrest
            have hcand := (hentry m List.mem_cons_self).resolve_left List.not_mem_nil
            have hops := (hparsed m List.mem_cons_self).resolve_left List.not_mem_nil
            obtain ⟨hmem, hlength, htype⟩ := mem_candidates hcand
            refine ⟨m.entry, hmem, rfl, rfl, ?_, htype⟩
            have hall := parseOperands_ok hops
            have hmade : List.Forall₂ (fun pair op => Operand.Made pair.1 op)
                (m.entry.operandKinds.zip inst.operandTokens) m.operands :=
              hall.imp fun _ _ hone => parse_made hone
            rw [← List.forall₂_map_left_iff, List.map_fst_zip hlength.le] at hmade
            exact hmade

theorem mapKernelFrom_mem {insts : List TokenizedPtxInst} {i : Nat} {recs : List InstRecord}
    (hmap : mapKernelFrom isa i insts = .ok (.ok recs)) :
    ∀ rec ∈ recs, ∃ inst ∈ insts, mapOne isa inst = .ok (.ok rec) := by
  induction insts generalizing i recs with
  | nil =>
      cases hmap
      exact fun rec hrec => absurd hrec List.not_mem_nil
  | cons inst insts ih =>
      obtain ⟨first, hfirst, hrest⟩ := bind_ok.mp hmap
      cases first with
      | error diag => cases hrest
      | ok rec =>
          obtain ⟨rest, htail, hrecs⟩ := bind_ok.mp hrest
          cases rest with
          | error diag => cases hrecs
          | ok tail =>
              cases hrecs
              intro rec' hrec'
              rcases List.mem_cons.mp hrec' with rfl | hrec'
              · exact ⟨inst, List.mem_cons_self, hfirst⟩
              · obtain ⟨inst', hinst', hone⟩ := ih htail rec' hrec'
                exact ⟨inst', List.mem_cons_of_mem inst hinst', hone⟩

end Mapped

/-! ### Type modifiers of the parser -/

theorem addMod_typeMod {mods : InstMods} (h : mods.typeMod ∈ parsedTypeMods) (m : Text) :
    (addMod mods m).typeMod ∈ parsedTypeMods := by
  unfold addMod
  split
  next hm => exact List.mem_cons_of_mem _ (List.mem_map_of_mem (List.mem_of_elem_eq_true hm))
  · split
    · exact h
    · exact h

theorem foldl_addMod_typeMod {mods : InstMods} (h : mods.typeMod ∈ parsedTypeMods)
    (parts : List Text) : (parts.foldl addMod mods).typeMod ∈ parsedTypeMods := by
  induction parts generalizing mods with
  | nil => exact h
  | cons m parts ih => exact ih (addMod_typeMod h m)

theorem tokenizeGuarded_typeMod {inst : TokenizedPtxInst} (h : inst.mods.typeMod ∈ parsedTypeMods)
    (line : Text) : (tokenizeGuarded inst line).mods.typeMod ∈ parsedTypeMods := by
  unfold tokenizeGuarded
  split
  · exact h
  · dsimp only
    split
    · exact h
    · exact foldl_addMod_typeMod h _

theorem tokenizeInstLine_typeMod {raw : Text} {fileName : String} {lineNo : Nat}
    {inst : TokenizedPtxInst} (htok : tokenizeInstLine raw fileName lineNo = .ok inst) :
    inst.mods.typeMod ∈ parsedTypeMods := by
  unfold tokenizeInstLine at htok
  dsimp only at htok
  split at htok
  · cases htok
    exact List.mem_cons_self
  · obtain ⟨⟨pred, line⟩, -, hrest⟩ := bind_ok.mp htok
    cases hrest
    exact tokenizeGuarded_typeMod List.mem_cons_self _

theorem markLocal_typeMod (regAlias : List (Text × Text)) (inst : TokenizedPtxInst) :
    (markLocal regAlias inst).mods.typeMod = inst.mods.typeMod := by
  unfold markLocal
  split
  · split
    · rfl
    · split <;> rfl
  · rfl

theorem finishInst_typeMod (order : AliasOrder) (labelToPc : List (Text × Nat))
    (regAlias : List (Text × Text)) (inst : TokenizedPtxInst) :
    (finishInst order labelToPc regAlias inst).mods.typeMod = inst.mods.typeMod := by
  rw [finishInst, resolveBranch_mods, markLocal_typeMod]

theorem bodyInst_typeMod {fileName : String} {line : Nat × Text} {inst : TokenizedPtxInst}
    (hbody : bodyInst fileName line = .ok (some inst)) : inst.mods.typeMod ∈ parsedTypeMods := by
  unfold bodyInst at hbody
  split at hbody
  · obtain ⟨tokens, htok, hrest⟩ := bind_ok.mp hbody
    split at hrest
    · cases hrest
    · cases hrest
      exact tokenizeInstLine_typeMod htok
  · cases hbody

theorem parsed_typeMod {order : AliasOrder} {text : Text} {fileName : String} {m : ModuleTokens}
    (hparse : parsePtxTextTokens order text fileName = .ok m) {k : KernelTokens}
    (hk : k ∈ m.kernels) {inst : TokenizedPtxInst} (hinst : inst ∈ k.insts) :
    inst.mods.typeMod ∈ parsedTypeMods := by
  obtain ⟨cur, lines, hnil, hclose⟩ := kernels_closed hparse k hk
  obtain ⟨aliases, found, -, hfound, hinsts⟩ := closeKernel_insts hclose
  rw [hinsts, hnil, List.nil_append, List.mem_filterMap] at hinst
  obtain ⟨read, hread, hfinish⟩ := hinst
  obtain ⟨body, hbody, rfl⟩ := Option.map_eq_some_iff.mp hfinish
  obtain ⟨i, hi⟩ := List.getElem?_of_mem hread
  obtain ⟨line, -, hline⟩ := forall₂_getElem? hfound hi
  rw [finishInst_typeMod]
  exact bodyInst_typeMod (hbody ▸ hline)

/-! ### Instructions that the tables answer for -/

section Insts

variable {ctx : WarpContext} {inst : InstRecord}

/-- The tables answer for the instruction. -/
structure InstRecord.Answered (registry : DescriptorRegistry) (inst : InstRecord) : Prop where
  found : ∃ desc, registry.lookup inst = some desc ∧ desc.fits (instOperandKinds inst) = true
  readable : ∀ o ∈ inst.operands, o.readable = true
  preds : ∀ o ∈ inst.operands, o.kind = .pred → 0 ≤ o.predId

theorem pickKinds_eq (operands : List Operand) (idxs : List Int) :
    pickKinds (operands.map kindName) idxs = (pickOperands operands idxs).map kindName := by
  rw [pickKinds, pickOperands, List.map_filterMap]
  congr 1
  funext idx
  split
  · rfl
  · exact List.getElem?_map

/-- What an answered instruction expands to. -/
theorem InstRecord.Answered.uops {registry : DescriptorRegistry} (h : inst.Answered registry) :
    ∃ desc, registry.lookup inst = some desc
      ∧ (∀ warpSize, ∀ u ∈ expand inst desc warpSize, u.Taken)
      ∧ ∀ warpSize, (expand inst desc warpSize).countP MicroOp.isBra ≤ 1 := by
  obtain ⟨desc, hlookup, hfits⟩ := h.found
  rw [InstDesc.fits, Bool.and_eq_true, List.all_eq_true, decide_eq_true_eq] at hfits
  refine ⟨desc, hlookup, fun warpSize u hu => ?_, fun warpSize => ?_⟩
  · obtain ⟨hins, houts⟩ := operands_of_mem_expand hu
    refine ⟨?_, fun o ho => h.readable o (hins o ho), fun o ho => h.preds o (houts o ho)⟩
    obtain ⟨t, ht, rfl⟩ := List.mem_map.mp hu
    have hshape := hfits.1 t ht
    have hkinds : instOperandKinds inst = inst.operands.map kindName := rfl
    rw [UopTemplate.fits, hkinds, pickKinds_eq, pickKinds_eq] at hshape
    exact hshape
  · rw [expand, List.countP_map]
    exact hfits.2

end Insts

/-! ### Warps -/

section Warps

variable {ctx : WarpContext}

theorem issueInst_blameless (hanswered : ∀ inst ∈ ctx.kernel.insts, inst.Answered ctx.registry)
    (w : WarpState) (mem : MemState) :
    ∀ f, (issueInst ctx w mem).1 = .error f → f.blamesTables = false := by
  intro f hf
  unfold issueInst at hf
  split at hf
  · cases hf
    rfl
  split at hf
  · cases hf
    rfl
  next inst hinst =>
    obtain ⟨desc, hlookup, htaken, hone⟩ := (hanswered inst (List.mem_of_getElem? hinst)).uops
    rw [hlookup] at hf
    dsimp only at hf
    split at hf
    next hpredicate =>
      cases hf
      exact predicate_blameless hpredicate
    next uops hpredicate =>
      obtain ⟨guarded, rfl⟩ := predicate_uops hpredicate
      split at hf
      next hloop =>
        cases hf
        refine uopLoop_blameless ?_ ?_ (.inl rfl) hloop _ rfl
        · intro u hu
          obtain ⟨v, hv, rfl⟩ := List.mem_map.mp hu
          have hv := htaken ctx.warpSize v hv
          exact ⟨hv.shape, hv.readable, hv.preds⟩
        · rw [List.countP_map]
          exact hone ctx.warpSize
      · cases hf

/-- **The step lemma.** A step of a warp does not blame the tables that answer for the kernel. -/
theorem warpStep_blameless (hanswered : ∀ inst ∈ ctx.kernel.insts, inst.Answered ctx.registry)
    (w : WarpState) (mem : MemState) :
    ∀ f, (warpStep ctx w mem).1 = .error f → f.blamesTables = false := by
  intro f hf
  unfold warpStep at hf
  split at hf
  next hnormalize =>
    cases hf
    exact normalizeStack_blameless (congrArg Prod.fst hnormalize)
  · cases hf
  · split at hf
    next hissue =>
      cases hf
      exact issueInst_blameless hanswered _ _ _ (congrArg Prod.fst hissue)
    · cases hf

end Warps

/-! ### Launches -/

/-- A mapped instruction of a parsed kernel is answered for by tables that fit together. -/
theorem answered_of_mapped {isa : PtxIsaRegistry} {registry : DescriptorRegistry}
    (hcoherent : isa.coherent registry = true) {inst : TokenizedPtxInst} {rec : InstRecord}
    (htype : inst.mods.typeMod ∈ parsedTypeMods) (hmap : mapOne isa inst = .ok (.ok rec)) :
    rec.Answered registry := by
  obtain ⟨e, he, hmapped⟩ := mapOne_entry hmap
  have hkinds : instOperandKinds rec = e.operandKinds := by
    have hnames : List.Forall₂ (fun kind o => kind = kindName o) e.operandKinds rec.operands :=
      hmapped.operands.imp fun _ _ hmade => hmade.kind.symm
    rw [← List.forall₂_map_right_iff, List.forall₂_eq_eq_eq] at hnames
    exact hnames.symm
  have hmade : ∀ o ∈ rec.operands, ∃ kind, o.Made kind := by
    intro o ho
    obtain ⟨i, hi⟩ := List.getElem?_of_mem ho
    obtain ⟨kind, -, hmade⟩ := forall₂_getElem? hmapped.operands hi
    exact ⟨kind, hmade⟩
  refine ⟨?_, fun o ho => ?_, fun o ho => ?_⟩
  · rw [PtxIsaRegistry.coherent, List.all_eq_true] at hcoherent
    have hcovered := hcoherent e he
    rw [PtxIsaEntry.covered, List.all_eq_true] at hcovered
    have hone := hcovered _ htype
    have hlower : ∀ typeMod ∈ parsedTypeMods, toLower typeMod.toList = typeMod.toList := by decide
    have hleads := hmapped.typeMod
    rw [hlower _ htype] at hleads
    rw [hleads, Bool.not_true, Bool.false_or] at hone
    obtain ⟨desc, hfind, hfits⟩ := (Option.any_eq_true _ _).mp hone
    refine ⟨desc, ?_, hkinds ▸ hfits⟩
    rw [DescriptorRegistry.lookup, hmapped.opcode, hmapped.mods, hkinds]
    exact hfind
  · obtain ⟨kind, hmade⟩ := hmade o ho
    exact hmade.readable
  · obtain ⟨kind, hmade⟩ := hmade o ho
    exact hmade.pred

theorem blamesTables_diag {d : Diagnostic} :
    (Fault.diag d).blamesTables = false ↔ d.code ∉ tableCodes := by
  rw [Fault.blamesTables, ← Bool.not_eq_true, List.elem_iff]

section Launches

variable {env : RunEnv} {job : KernelJob} {k : StagedKernel} {isa : PtxIsaRegistry}
  {registry : DescriptorRegistry}

theorem bind_mem {m : ModuleTokens} {tokens : KernelTokens}
    (hbind : job.bind m = .ok (.ok tokens)) : tokens ∈ m.kernels := by
  unfold KernelJob.bind at hbind
  split at hbind
  · split at hbind
    next hfirst =>
      cases hbind
      unfold bindFirstKernel at hfirst
      split at hfirst
      next hkernels =>
        cases hfirst
        rw [hkernels]
        exact List.mem_cons_self
      · cases hfirst
    · cases hbind
  · split at hbind
    next hnamed =>
      cases hbind
      unfold bindKernelByName at hnamed
      split at hnamed
      next hfind =>
        cases hnamed
        exact List.mem_of_find?_eq_some hfind
      · cases hnamed
    · cases hbind

/-- A staged kernel has the loaded descriptors, and its instructions are mapped from parsed ones. -/
theorem stage_mapped (hstage : job.stage env = .ok (.ok k))
    (hisa : loaded (PtxIsaRegistry.loadJsonText job.ptxIsaJsonText) = .ok isa)
    (hregistry : loaded (DescriptorRegistry.loadJsonText env.platform false job.instDescJsonText)
      = .ok registry) :
    k.registry = registry ∧ ∀ rec ∈ k.image.insts, ∃ inst : TokenizedPtxInst,
      inst.mods.typeMod ∈ parsedTypeMods ∧ mapOne isa inst = .ok (.ok rec) := by
  obtain ⟨m, hparse, hrest⟩ := bind_ok.mp hstage
  obtain ⟨bound, hbind, hrest⟩ := bind_ok.mp hrest
  cases bound with
  | error diag => cases hrest
  | ok tokens =>
      obtain ⟨isa', hisa', hrest⟩ := bind_ok.mp hrest
      obtain rfl : isa' = isa := Except.ok.inj (hisa'.symm.trans hisa)
      obtain ⟨registry', hregistry', hrest⟩ := bind_ok.mp hrest
      obtain rfl : registry' = registry := Except.ok.inj (hregistry'.symm.trans hregistry)
      obtain ⟨mapped, hmap, hrest⟩ := bind_ok.mp hrest
      cases mapped with
      | error diag => cases hrest
      | ok insts =>
          dsimp only at hrest
          split at hrest
          · cases hrest
          · cases hrest
            refine ⟨rfl, fun rec hrec => ?_⟩
            obtain ⟨inst, hinst, hone⟩ := mapKernelFrom_mem hmap rec hrec
            exact ⟨inst, parsed_typeMod hparse (bind_mem hbind) hinst, hone⟩

/-- **Tables that fit together** answer for every kernel they map. In every state of a launch of a
kernel from any PTX text, under any number of workers and any order of their steps, the diagnostic
is none of a missing descriptor, or of a micro-op whose operation, number or kinds of operands its
unit does not take. -/
theorem coherent_tables_answer (hstage : job.stage env = .ok (.ok k))
    (hisa : loaded (PtxIsaRegistry.loadJsonText job.ptxIsaJsonText) = .ok isa)
    (hregistry : loaded (DescriptorRegistry.loadJsonText env.platform false job.instDescJsonText)
      = .ok registry)
    (hcoherent : isa.coherent registry = true) {plan : LaunchPlan} {mem : MemState}
    {es : List DriverEvent} {s : DriverState}
    (hrun : Run (DriverStep (env.driver job k plan)) ((env.driver job k plan).start mem) es s) :
    ∀ d, s.result.diag = some d → d.code ∉ tableCodes := by
  obtain ⟨hsame, hmapped⟩ := stage_mapped hstage hisa hregistry
  have hanswered : ∀ inst ∈ k.image.insts, inst.Answered k.registry := by
    intro rec hrec
    obtain ⟨inst, htype, hone⟩ := hmapped rec hrec
    rw [hsame]
    exact answered_of_mapped hcoherent htype hone
  refine hrun.invariant (I := fun _ s => ∀ d, s.diag = some d → d.code ∉ tableCodes) ?_ ?_
  · intro d hd
    cases hd
  · intro _ s e t hkept hstep
    cases hstep with
    | acquire => exact hkept
    | work smId hwork =>
        intro d hd
        rcases workerStep_diag hwork with hsame | ⟨d', hanalysis, hd'⟩ |
          ⟨cta, w, warp, d', -, -, hfault, hd'⟩
        · exact hkept d (hsame.symm.trans hd)
        · obtain rfl : d' = d := Option.some.inj (hd'.symm.trans hd)
          exact analyze_blameless hanalysis
        · obtain rfl : d' = d := Option.some.inj (hd'.symm.trans hd)
          exact blamesTables_diag.mp (warpStep_blameless hanswered _ _ _ hfault)

end Launches

/-! ### The shipped tables -/

/-- One form of the shipped map has no descriptor. -/
example : demoIsa.entries.filter (fun e => !e.covered demoDescs)
    = [isaForm "mov" "u32" ["reg", "symbol"] "mov"] := by decide +kernel

/-! ### A store that is out of range -/

/-- The workers run on memory without an allocation. -/
def strayTurns : List DriverEvent × DriverState :=
  storeDriver.turns (List.replicate 30 [0, 1]).flatten
    (storeDriver.start { mgr := storeJob.setParams storeKernel {} })

theorem coherent_tables_answer_store :
    ∃ d, strayTurns.2.result.diag = some d ∧ d.code ∉ tableCodes := by
  have hfault : strayTurns.2.result.diag.isSome = true := by decide +kernel
  obtain ⟨d, hd⟩ := Option.isSome_iff_exists.mp hfault
  have hcoherent : describedIsa.coherent demoDescs = true := by decide +kernel
  refine ⟨d, hd, ?_⟩
  exact coherent_tables_answer storeJob_stage storeJob_isa storeJob_registry hcoherent
    (turns_run storeDriver _ _) d hd

end ProtoGpu

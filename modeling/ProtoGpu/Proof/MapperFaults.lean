import ProtoGpu.Lib.Throwing
import ProtoGpu.Proof.OperandKinds

/-!
# When mapping a kernel throws

Only one conversion of the mapper is unguarded: the number of a register or predicate. A token
throws under a kind when it is a register whose number does not fit, and a kernel throws when its
first instruction that is not mapped has a form that comes to such a token, its operands before it
accepted.
-/

namespace ProtoGpu

open Throwing
open Json (isSpace isDigit)

/-! ### Tokens -/

/-- A register whose number, with the bias of its class, is no 64-bit integer. -/
def OversizedReg (tok : Text) : Prop :=
  ∃ reg, Spells tok reg ∧ 2 ^ 63 ≤ reg.cls.bias + reg.number

def OversizedPred (tok : Text) : Prop :=
  ∃ digits, tok = "%p".toList ++ digits ∧ digits ≠ [] ∧ (∀ c ∈ digits, isDigit c = true)
    ∧ 2 ^ 63 ≤ digitsValue digits

/-- The brackets hold an oversized base register and, behind a `+`, a number. -/
def OversizedAddr (tok : Text) : Prop :=
  isBracketed tok = true ∧ OversizedReg (cleanTok (addrBase (bracketInner tok)))
    ∧ ∀ offS, addrOffset (bracketInner tok) = some offS → (parseI64AutoBase offS).isSome = true

/-- A token that names a register or predicate the mapper cannot number. -/
def Oversized (kind : String) (tok : Text) : Prop :=
  kind = "reg" ∧ OversizedReg (cleanTok tok)
    ∨ kind = "pred" ∧ OversizedPred (cleanTok tok)
    ∨ kind = "addr" ∧ OversizedAddr (cleanTok tok)

theorem parseU64Dec_digits {s : Text} (hne : s ≠ []) (hdigits : ∀ c ∈ s, isDigit c = true) :
    parseU64Dec s
      = if digitsValue s < 2 ^ 63 then .ok (some (digitsValue s)) else .error "stoll" := by
  have hdec : ¬(s.isEmpty || !s.all isDigit) = true := by
    simp only [Bool.or_eq_true, List.isEmpty_iff, Bool.not_eq_true', not_or, Bool.not_eq_false,
      List.all_eq_true]
    exact ⟨hne, hdigits⟩
  rw [parseU64Dec, if_neg hdec, Text.stoll_digits hne hdigits]
  split
  · rfl
  · rfl

theorem parseU64Dec_other {s : Text} (h : ¬ (s ≠ [] ∧ ∀ c ∈ s, isDigit c = true)) :
    parseU64Dec s = .ok none := by
  have hdec : (s.isEmpty || !s.all isDigit) = true := by
    simp only [Bool.or_eq_true, List.isEmpty_iff, Bool.not_eq_true', List.all_eq_false]
    by_cases hne : s = []
    · exact .inl hne
    · right
      by_contra hall
      push Not at hall
      exact h ⟨hne, hall⟩
  rw [parseU64Dec, if_pos hdec]

theorem not_throws_fail {α : Type} {loc : Option SourceLocation} {what : String} {tok : Text} :
    ¬ Throws (operandParseFail loc what tok : Except String (Parsed α)) := not_throws_ok _

/-- The number of a register, or the exception when it does not fit. -/
theorem parseNumberedReg_throws {loc : Option SourceLocation} {tok pfx : Text} {what : String}
    {type : ValueType} {bias : Nat} :
    Throws (parseNumberedReg loc tok pfx what type bias) ↔
      tok.drop pfx.length ≠ [] ∧ (∀ c ∈ tok.drop pfx.length, isDigit c = true)
        ∧ 2 ^ 63 ≤ bias + digitsValue (tok.drop pfx.length) := by
  by_cases hdec : tok.drop pfx.length ≠ [] ∧ ∀ c ∈ tok.drop pfx.length, isDigit c = true
  · obtain ⟨hne, hdigits⟩ := hdec
    rw [parseNumberedReg, parseU64Dec_digits hne hdigits]
    split
    · next hfits =>
      dsimp only [bind, Except.bind]
      split
      · exact iff_of_false (not_throws_ok _) (by omega)
      · exact iff_of_true (throws_error _) ⟨hne, hdigits, by omega⟩
    · exact iff_of_true (throws_error _) ⟨hne, hdigits, by omega⟩
  · rw [parseNumberedReg, parseU64Dec_other hdec]
    exact iff_of_false (not_throws_ok _) fun h => hdec ⟨h.1, h.2.1⟩

theorem throws_numbered {loc : Option SourceLocation} {tok : Text} {what : String} (cls : RegClass)
    (hstart : tok.startsWith cls.pfx = true) :
    Throws (parseNumberedReg loc tok cls.pfx what cls.type cls.bias) ↔
      ∃ number, Spells tok { cls := cls, number := number } ∧ 2 ^ 63 ≤ cls.bias + number := by
  rw [parseNumberedReg_throws]
  constructor
  · rintro ⟨hne, hdigits, hbig⟩
    exact ⟨_, ⟨_, startsWith_iff.mp hstart, hne, hdigits, rfl⟩, hbig⟩
  · rintro ⟨number, ⟨digits, htok, hne, hdigits, rfl⟩, hbig⟩
    rw [htok, List.drop_left]
    exact ⟨hne, hdigits, hbig⟩

/-- The class of a spelled register is the one whose prefix the mapper finds first. -/
theorem Spells.startsWith {tok : Text} {reg : Register} (hspells : Spells tok reg) :
    tok.startsWith reg.cls.pfx = true := by
  obtain ⟨digits, rfl, -⟩ := hspells
  rw [Text.startsWith, List.isPrefixOf_iff_prefix]
  exact List.prefix_append ..

theorem Spells.not_startsWith {tok : Text} {reg : Register} (hspells : Spells tok reg)
    (cls : RegClass) (hne : cls ≠ reg.cls) (hcls : ¬ (cls = .r ∧ reg.cls = .rd)) :
    tok.startsWith cls.pfx = false := by
  obtain ⟨digits, rfl, hnil, hdigits, -⟩ := hspells
  obtain ⟨c, digits, rfl⟩ := List.exists_cons_of_ne_nil hnil
  have hc := hdigits c List.mem_cons_self
  have hd : 'd' ≠ c := by
    rintro rfl
    exact absurd hc (by decide)
  obtain ⟨rcls, number⟩ := reg
  cases cls <;> cases rcls <;> simp_all [Text.startsWith, RegClass.pfx, List.isPrefixOf]

theorem parseRegClass_throws {tok : Text} {loc : Option SourceLocation} :
    Throws (parseRegClass tok loc) ↔ OversizedReg tok := by
  unfold parseRegClass OversizedReg
  have hexists : ∀ cls : RegClass, (∀ reg, Spells tok reg → reg.cls = cls) →
      ((∃ number, Spells tok { cls := cls, number := number } ∧ 2 ^ 63 ≤ cls.bias + number) ↔
        ∃ reg, Spells tok reg ∧ 2 ^ 63 ≤ reg.cls.bias + reg.number) := by
    intro cls honly
    constructor
    · rintro ⟨number, hspells, hbig⟩
      exact ⟨_, hspells, hbig⟩
    · rintro ⟨reg, hspells, hbig⟩
      obtain rfl := honly reg hspells
      exact ⟨reg.number, hspells, hbig⟩
  split
  · next hstart =>
    refine (throws_numbered .rd hstart).trans (hexists .rd fun reg hspells => ?_)
    by_contra hne
    have := hspells.not_startsWith .rd (Ne.symm hne) (by simp)
    rw [show (RegClass.rd).pfx = "%rd".toList from rfl, hstart] at this
    cases this
  · split
    · next hstart =>
      refine (throws_numbered .f hstart).trans (hexists .f fun reg hspells => ?_)
      by_contra hne
      have := hspells.not_startsWith .f (Ne.symm hne) (by simp)
      rw [show (RegClass.f).pfx = "%f".toList from rfl, hstart] at this
      cases this
    · split
      · next hnrd hnf hstart =>
        refine (throws_numbered .r hstart).trans (hexists .r fun reg hspells => ?_)
        have := hspells.startsWith
        cases hcls : reg.cls with
        | r => rfl
        | rd =>
            rw [hcls] at this
            exact absurd this hnrd
        | f =>
            rw [hcls] at this
            exact absurd this hnf
      · next hnrd hnf hnr =>
        refine iff_of_false (not_throws_ok _) ?_
        rintro ⟨reg, hspells, -⟩
        have := hspells.startsWith
        cases hcls : reg.cls with
        | r =>
            rw [hcls] at this
            exact absurd this hnr
        | rd =>
            rw [hcls] at this
            exact absurd this hnrd
        | f =>
            rw [hcls] at this
            exact absurd this hnf

theorem parseRegOperand_throws {tok : Text} {typeMod : String} {loc : Option SourceLocation} :
    Throws (parseRegOperand tok typeMod loc) ↔ OversizedReg tok := by
  rw [parseRegOperand, throws_bind, parseRegClass_throws]
  constructor
  · rintro (hbig | ⟨parsed, -, hthrow⟩)
    · exact hbig
    · exact absurd hthrow (not_throws_ok _)
  · exact .inl

theorem parsePredOperand_throws {tok : Text} {loc : Option SourceLocation} :
    Throws (parsePredOperand tok loc) ↔ OversizedPred tok := by
  unfold parsePredOperand
  split
  · next hstart =>
    rw [Bool.not_eq_true'] at hstart
    refine iff_of_false (not_throws_ok _) ?_
    rintro ⟨digits, rfl, -⟩
    have hprefix : Text.startsWith ("%p".toList ++ digits) "%p".toList = true := by
      rw [Text.startsWith, List.isPrefixOf_iff_prefix]
      exact List.prefix_append ..
    rw [hstart] at hprefix
    cases hprefix
  · next hstart =>
    rw [Bool.not_eq_true', Bool.not_eq_false, startsWith_iff] at hstart
    have hlength : "%p".toList.length = 2 := rfl
    rw [hlength] at hstart
    have hpred : OversizedPred tok ↔ tok.drop 2 ≠ [] ∧ (∀ c ∈ tok.drop 2, isDigit c = true)
        ∧ 2 ^ 63 ≤ digitsValue (tok.drop 2) := by
      constructor
      · rintro ⟨digits, htok, hne, hdigits, hbig⟩
        have hdrop : tok.drop 2 = digits := by
          rw [htok]
          exact List.drop_left' rfl
        rw [hdrop]
        exact ⟨hne, hdigits, hbig⟩
      · rintro ⟨hne, hdigits, hbig⟩
        exact ⟨_, hstart, hne, hdigits, hbig⟩
    rw [hpred]
    by_cases hdec : tok.drop 2 ≠ [] ∧ ∀ c ∈ tok.drop 2, isDigit c = true
    · rw [parseU64Dec_digits hdec.1 hdec.2]
      split
      · exact iff_of_false (not_throws_ok _) (by omega)
      · exact iff_of_true (throws_error _) ⟨hdec.1, hdec.2, by omega⟩
    · rw [parseU64Dec_other hdec]
      exact iff_of_false (not_throws_ok _) fun h => hdec ⟨h.1, h.2.1⟩

theorem parseAddrBase_throws {inner : Text} {off : Int} :
    Throws (parseAddrBase inner off) ↔ OversizedReg (cleanTok (addrBase inner)) := by
  unfold parseAddrBase
  dsimp only
  split
  · next hnil =>
    refine iff_of_false (not_throws_ok _) ?_
    rintro ⟨reg, hspells, -⟩
    have hhead := hspells.head
    rw [List.isEmpty_iff.mp hnil] at hhead
    cases hhead
  · rw [throws_bind, parseRegOperand_throws]
    constructor
    · rintro (hbig | ⟨parsed, -, hthrow⟩)
      · exact hbig
      · cases parsed with
        | error diag => exact absurd hthrow (not_throws_ok _)
        | ok op => exact absurd hthrow (not_throws_ok _)
    · exact .inl

theorem parseAddrOperand_throws {tok : Text} {loc : Option SourceLocation} :
    Throws (parseAddrOperand tok loc) ↔ OversizedAddr tok := by
  unfold parseAddrOperand OversizedAddr
  split
  · next hbracket =>
    rw [Bool.not_eq_true'] at hbracket
    rw [hbracket]
    exact iff_of_false (not_throws_ok _) fun h => absurd h.1 (by decide)
  · next hbracket =>
    rw [Bool.not_eq_true', Bool.not_eq_false] at hbracket
    dsimp only
    split
    · next hoff =>
      rw [parseAddrBase_throws]
      exact ⟨fun hbig => ⟨hbracket, hbig, fun offS h => by rw [hoff] at h; cases h⟩, fun h => h.2.1⟩
    · next offS hoff =>
      split
      · next hnone =>
        refine iff_of_false (not_throws_ok _) fun h => ?_
        have hsome := h.2.2 offS hoff
        rw [hnone] at hsome
        cases hsome
      · next off hsome =>
        rw [parseAddrBase_throws]
        refine ⟨fun hbig => ⟨hbracket, hbig, fun offS' hoff' => ?_⟩, fun h => h.2.1⟩
        obtain rfl := Option.some.inj (hoff.symm.trans hoff')
        rw [hsome]
        rfl

theorem not_throws_imm (tok : Text) (loc : Option SourceLocation) :
    ¬ Throws (parseImmOperand tok loc) := by
  unfold parseImmOperand
  split <;> split <;> exact not_throws_ok _

theorem not_throws_symbol (tok : Text) (loc : Option SourceLocation) :
    ¬ Throws (parseSymbolOperand tok loc) := by
  unfold parseSymbolOperand
  dsimp only
  repeat' split
  all_goals exact not_throws_ok _

theorem not_throws_special (tok : Text) (loc : Option SourceLocation) :
    ¬ Throws (parseSpecialOperand tok loc) := by
  unfold parseSpecialOperand
  dsimp only
  repeat' split
  all_goals exact not_throws_ok _

theorem not_oversized_of_nil {kind : String} {tok : Text} (hnil : cleanTok tok = []) :
    ¬ Oversized kind tok := by
  unfold Oversized
  rw [hnil]
  rintro (⟨-, reg, hspells, -⟩ | ⟨-, digits, htok, -⟩ | ⟨-, hbracket, -⟩)
  · cases hspells.head
  · cases htok
  · cases hbracket

/-- **When an operand throws.** -/
theorem parseOperandByKind_throws {kind typeMod : String} {tok : Text}
    {loc : Option SourceLocation} :
    Throws (parseOperandByKind kind tok typeMod loc) ↔ Oversized kind tok := by
  unfold parseOperandByKind
  dsimp only
  split
  · next hnil =>
    exact iff_of_false (not_throws_ok _) (not_oversized_of_nil (List.isEmpty_iff.mp hnil))
  unfold Oversized
  split
  · next hkind =>
    obtain rfl := beq_iff_eq.mp hkind
    simp [parseRegOperand_throws]
  split
  · next hkind =>
    obtain rfl := beq_iff_eq.mp hkind
    simp [parsePredOperand_throws]
  split
  · next hkind =>
    obtain rfl := beq_iff_eq.mp hkind
    simp [not_throws_imm]
  split
  · next hkind =>
    obtain rfl := beq_iff_eq.mp hkind
    simp [parseAddrOperand_throws]
  split
  · next hkind =>
    obtain rfl := beq_iff_eq.mp hkind
    simp [not_throws_symbol]
  split
  · next hkind =>
    obtain rfl := beq_iff_eq.mp hkind
    simp [not_throws_special]
  · next hreg hpred _ haddr _ _ =>
    rw [beq_iff_eq] at hreg hpred haddr
    simp [hreg, hpred, haddr, not_throws_fail]

/-! ### Instructions -/

/-- The kind accepts the token in this instruction. -/
def acceptsIn (inst : TokenizedPtxInst) (pair : String × Text) : Bool :=
  match parseOperandByKind pair.1 pair.2 inst.mods.typeMod inst.dbg with
  | .ok (.ok _) => true
  | _ => false

/-- An oversized operand, all those before it accepted. -/
def Stumbles (inst : TokenizedPtxInst) : List (String × Text) → Prop
  | [] => False
  | pair :: rest => Oversized pair.1 pair.2 ∨ acceptsIn inst pair = true ∧ Stumbles inst rest

/-- The operands of the instruction under the kinds of an entry. -/
def operandPairs (inst : TokenizedPtxInst) (e : PtxIsaEntry) : List (String × Text) :=
  e.operandKinds.zip inst.operandTokens

def instCandidates (isa : PtxIsaRegistry) (inst : TokenizedPtxInst) : List PtxIsaEntry :=
  isa.candidates inst.ptxOpcode inst.mods.typeMod.toList inst.operandTokens.length

def takesAll (inst : TokenizedPtxInst) (e : PtxIsaEntry) : Bool :=
  (operandPairs inst e).all (acceptsIn inst)

/-- Exactly one form takes the operands. -/
def Mappable (isa : PtxIsaRegistry) (inst : TokenizedPtxInst) : Prop :=
  ((instCandidates isa inst).filter (takesAll inst)).length = 1

/-- No form of the instruction comes to an oversized operand. -/
def NoOversized (isa : PtxIsaRegistry) (inst : TokenizedPtxInst) : Prop :=
  ∀ e ∈ instCandidates isa inst, ¬ Stumbles inst (operandPairs inst e)

theorem parseOperands_throws {inst : TokenizedPtxInst} {pairs : List (String × Text)} :
    Throws (parseOperands inst.mods.typeMod inst.dbg pairs) ↔ Stumbles inst pairs := by
  induction pairs with
  | nil => exact iff_of_false (not_throws_ok _) id
  | cons pair rest ih =>
      obtain ⟨kind, tok⟩ := pair
      rw [parseOperands, throws_bind, parseOperandByKind_throws, Stumbles]
      refine or_congr_right ?_
      constructor
      · rintro ⟨parsed, hparsed, hthrow⟩
        cases parsed with
        | error diag => exact absurd hthrow (not_throws_ok _)
        | ok op =>
            rw [throws_bind, ih] at hthrow
            rcases hthrow with hrest | ⟨ops, -, hthrow⟩
            · exact ⟨by rw [acceptsIn, hparsed], hrest⟩
            · exact absurd hthrow (not_throws_ok _)
      · rintro ⟨haccepts, hrest⟩
        rw [acceptsIn] at haccepts
        split at haccepts
        · next op hparsed => exact ⟨_, hparsed, throws_bind.mpr (.inl (ih.mpr hrest))⟩
        · cases haccepts

/-- The operands of a form that does not throw are parsed when all are accepted. -/
theorem parseOperands_accepted {inst : TokenizedPtxInst} {pairs : List (String × Text)}
    {parsed : Parsed (List Operand)}
    (hparse : parseOperands inst.mods.typeMod inst.dbg pairs = .ok parsed) :
    pairs.all (acceptsIn inst) = parsed.isOk := by
  induction pairs generalizing parsed with
  | nil =>
      cases hparse
      rfl
  | cons pair rest ih =>
      obtain ⟨kind, tok⟩ := pair
      obtain ⟨first, hfirst, hrest⟩ := bind_ok.mp hparse
      rw [List.all_cons, acceptsIn, hfirst]
      cases first with
      | error diag =>
          cases hrest
          rfl
      | ok op =>
          obtain ⟨ops, hops, hparsed⟩ := bind_ok.mp hrest
          rw [ih hops, Bool.true_and]
          cases hparsed
          cases ops <;> rfl

theorem matchEntries_throws {inst : TokenizedPtxInst} {cands : List PtxIsaEntry}
    {found : List PtxIsaMatch} {last : Option Diagnostic} :
    Throws (matchEntries inst cands found last) ↔
      ∃ e ∈ cands, Stumbles inst (operandPairs inst e) := by
  induction cands generalizing found last with
  | nil => exact iff_of_false (not_throws_ok _) (by simp)
  | cons e cands ih =>
      have hfirst : Throws (parseOperands inst.mods.typeMod inst.dbg
          (e.operandKinds.zip inst.operandTokens)) ↔ Stumbles inst (operandPairs inst e) :=
        parseOperands_throws
      rw [matchEntries, throws_bind, hfirst, List.exists_mem_cons_iff]
      constructor
      · rintro (hstumbles | ⟨parsed, -, hthrow⟩)
        · exact .inl hstumbles
        · cases parsed with
          | error diag => exact .inr (ih.mp hthrow)
          | ok ops => exact .inr (ih.mp hthrow)
      · intro h
        cases hparsed : parseOperands inst.mods.typeMod inst.dbg
            (e.operandKinds.zip inst.operandTokens) with
        | error what => exact .inl (hfirst.mp (by rw [hparsed]; exact throws_error what))
        | ok parsed =>
            rcases h with hstumbles | hlater
            · exact .inl hstumbles
            · right
              refine ⟨parsed, rfl, ?_⟩
              cases parsed with
              | error diag => exact ih.mpr hlater
              | ok ops => exact ih.mpr hlater

theorem matchEntries_found {inst : TokenizedPtxInst} {cands : List PtxIsaEntry}
    {found found' : List PtxIsaMatch} {last last' : Option Diagnostic}
    (hrun : matchEntries inst cands found last = .ok (found', last')) :
    found'.length = found.length + (cands.filter (takesAll inst)).length := by
  induction cands generalizing found last with
  | nil =>
      cases hrun
      rfl
  | cons e cands ih =>
      obtain ⟨parsed, hparsed, hrest⟩ := bind_ok.mp hrun
      have haccepted : takesAll inst e = parsed.isOk := parseOperands_accepted hparsed
      rw [List.filter_cons, haccepted]
      cases parsed with
      | error diag =>
          have hlength := ih hrest
          exact hlength
      | ok ops =>
          have hlength := ih hrest
          rw [List.length_append, List.length_singleton] at hlength
          have hok : (Except.ok ops : Parsed (List Operand)).isOk = true := rfl
          rw [if_pos hok, List.length_cons]
          omega

theorem mapOne_throws {isa : PtxIsaRegistry} {inst : TokenizedPtxInst} :
    Throws (mapOne isa inst) ↔ ¬ NoOversized isa inst := by
  unfold mapOne NoOversized
  dsimp only
  have hcands : isa.candidates inst.ptxOpcode inst.mods.typeMod.toList inst.operandTokens.length
      = instCandidates isa inst := rfl
  rw [hcands]
  push Not
  split
  · next hnil =>
    rw [List.isEmpty_iff.mp hnil]
    exact iff_of_false (not_throws_ok _) (by simp)
  · rw [throws_bind, matchEntries_throws]
    constructor
    · rintro (hstumbles | ⟨⟨found, last⟩, -, hthrow⟩)
      · exact hstumbles
      · match found, last, hthrow with
        | [], some diag, hthrow => exact absurd hthrow (not_throws_ok _)
        | [], none, hthrow => exact absurd hthrow (not_throws_ok _)
        | [m], _, hthrow => exact absurd hthrow (not_throws_ok _)
        | _ :: _ :: _, _, hthrow => exact absurd hthrow (not_throws_ok _)
    · exact .inl

/-- An instruction that does not throw is mapped when it is mappable. -/
theorem mapOne_mapped {isa : PtxIsaRegistry} {inst : TokenizedPtxInst}
    {res : Except Diagnostic InstRecord} (hmap : mapOne isa inst = .ok res) :
    Mappable isa inst ↔ ∃ rec, res = .ok rec := by
  unfold mapOne at hmap
  dsimp only at hmap
  have hcands : isa.candidates inst.ptxOpcode inst.mods.typeMod.toList inst.operandTokens.length
      = instCandidates isa inst := rfl
  rw [hcands] at hmap
  unfold Mappable
  split at hmap
  · next hnil =>
    rw [List.isEmpty_iff.mp hnil]
    cases hmap
    exact iff_of_false (by simp) nofun
  · obtain ⟨⟨found, last⟩, hrun, hrest⟩ := bind_ok.mp hmap
    have hlength := matchEntries_found hrun
    rw [List.length_nil, Nat.zero_add] at hlength
    rw [← hlength]
    match found, last, hrest with
    | [], some diag, hrest =>
        cases hrest
        exact iff_of_false (by simp) nofun
    | [], none, hrest =>
        cases hrest
        exact iff_of_false (by simp) nofun
    | [m], _, hrest =>
        cases hrest
        exact iff_of_true rfl ⟨_, rfl⟩
    | _ :: _ :: _, _, hrest =>
        cases hrest
        exact iff_of_false (by simp) nofun

/-! ### Kernels -/

/-- Every instruction was mapped, or the diagnostic has the index of the first that could not be. -/
inductive Diagnosed (isa : PtxIsaRegistry) (insts : List TokenizedPtxInst) : Prop where
  | mapped (recs : List InstRecord) (hrun : mapKernel isa insts = .ok (.ok recs))
      (hall : List.Forall₂ (fun inst rec => mapOne isa inst = .ok (.ok rec)) insts recs)
  | stopped (before after : List TokenizedPtxInst) (inst : TokenizedPtxInst) (diag : Diagnostic)
      (hsplit : insts = before ++ inst :: after)
      (hrun : mapKernel isa insts = .ok (.error { diag with instIndex := some before.length }))
      (hbefore : ∀ x ∈ before, ∃ rec, mapOne isa x = .ok (.ok rec))
      (hinst : mapOne isa inst = .ok (.error diag))

/-- No instruction behind mappable ones comes to an oversized operand. -/
def NoOversizedReached (isa : PtxIsaRegistry) (insts : List TokenizedPtxInst) : Prop :=
  ∀ before inst after, insts = before ++ inst :: after → (∀ x ∈ before, Mappable isa x) →
    NoOversized isa inst

/-- `map_kernel` behind `before`, which is mapped. -/
theorem mapKernelFrom_diagnosed {isa : PtxIsaRegistry} {insts : List TokenizedPtxInst} (i : Nat)
    (hclean : NoOversizedReached isa insts) :
    (∃ recs, mapKernelFrom isa i insts = .ok (.ok recs)
        ∧ List.Forall₂ (fun inst rec => mapOne isa inst = .ok (.ok rec)) insts recs)
      ∨ ∃ before after inst diag, insts = before ++ inst :: after
        ∧ mapKernelFrom isa i insts
          = .ok (.error { diag with instIndex := some ((i + before.length : Nat) : Int) })
        ∧ (∀ x ∈ before, ∃ rec, mapOne isa x = .ok (.ok rec))
        ∧ mapOne isa inst = .ok (.error diag) := by
  induction insts generalizing i with
  | nil => exact .inl ⟨[], rfl, .nil⟩
  | cons inst insts ih =>
      have hfirst : NoOversized isa inst := hclean [] inst insts rfl (by simp)
      have hreturns : ¬ Throws (mapOne isa inst) := by
        rw [mapOne_throws, not_not]
        exact hfirst
      obtain ⟨res, hres⟩ := not_throws_iff.mp hreturns
      cases res with
      | error diag =>
          right
          refine ⟨[], insts, inst, diag, rfl, ?_, by simp, hres⟩
          rw [mapKernelFrom, hres]
          rfl
      | ok rec =>
          have hmappable : Mappable isa inst := (mapOne_mapped hres).mpr ⟨rec, rfl⟩
          have hrest : NoOversizedReached isa insts := by
            intro before x after hsplit hbefore
            refine hclean (inst :: before) x after (by rw [hsplit]; rfl) fun y hy => ?_
            rcases List.mem_cons.mp hy with rfl | hy
            · exact hmappable
            · exact hbefore y hy
          rcases ih (i + 1) hrest with ⟨recs, hrun, hall⟩ | ⟨before, after, x, diag, hsplit, hrun,
            hbefore, hx⟩
          · left
            refine ⟨rec :: recs, ?_, .cons hres hall⟩
            rw [mapKernelFrom, hres]
            dsimp only [bind, Except.bind]
            rw [hrun]
            rfl
          · right
            refine ⟨inst :: before, after, x, diag, by rw [hsplit]; rfl, ?_, ?_, hx⟩
            · have hindex : i + (inst :: before).length = i + 1 + before.length := by
                rw [List.length_cons]
                omega
              rw [mapKernelFrom, hres, hindex]
              dsimp only [bind, Except.bind]
              rw [hrun]
              rfl
            · intro y hy
              rcases List.mem_cons.mp hy with rfl | hy
              · exact ⟨rec, hres⟩
              · exact hbefore y hy

/-- A run that returns has come to no oversized operand. -/
theorem mapKernelFrom_noOversized {isa : PtxIsaRegistry} {insts : List TokenizedPtxInst} {i : Nat}
    (hreturns : ¬ Throws (mapKernelFrom isa i insts)) : NoOversizedReached isa insts := by
  induction insts generalizing i with
  | nil =>
      intro before inst after hsplit
      cases before <;> cases hsplit
  | cons first insts ih =>
      rw [mapKernelFrom, throws_bind, not_or] at hreturns
      obtain ⟨hfirst, hrest⟩ := hreturns
      intro before inst after hsplit hbefore
      cases before with
      | nil =>
          obtain ⟨rfl, -⟩ := List.cons.inj hsplit
          rwa [mapOne_throws, not_not] at hfirst
      | cons y before =>
          obtain ⟨rfl, rfl⟩ := List.cons.inj hsplit
          obtain ⟨res, hres⟩ := not_throws_iff.mp hfirst
          obtain ⟨rec, rfl⟩ := (mapOne_mapped hres).mp (hbefore first List.mem_cons_self)
          refine ih (i := i + 1)
            (fun hthrow => hrest ⟨_, hres, throws_bind.mpr (.inl hthrow)⟩) before
            inst after rfl fun x hx => hbefore x (List.mem_cons_of_mem first hx)

/-- **Malformed operands are diagnosed** but for registers whose number does not fit. -/
theorem mapKernel_diagnosed_iff (isa : PtxIsaRegistry) (insts : List TokenizedPtxInst) :
    Diagnosed isa insts ↔ NoOversizedReached isa insts := by
  constructor
  · intro hdiagnosed
    refine mapKernelFrom_noOversized (i := 0) (not_throws_iff.mpr ?_)
    cases hdiagnosed with
    | mapped recs hrun _ => exact ⟨_, hrun⟩
    | stopped _ _ _ _ _ hrun _ _ => exact ⟨_, hrun⟩
  · intro hclean
    rcases mapKernelFrom_diagnosed 0 hclean with ⟨recs, hrun, hall⟩ | ⟨before, after, inst, diag,
      hsplit, hrun, hbefore, hinst⟩
    · exact .mapped recs hrun hall
    · rw [Nat.zero_add] at hrun
      exact .stopped before after inst diag hsplit hrun hbefore hinst

/-- `mov.u32 %r9223372036854775808, 0` with a map that has `mov` of a register and an immediate. -/
theorem oversized_register_throws :
    ¬ Diagnosed
      { entries := [{ ptxOpcode := "mov".toList, operandKinds := ["reg", "imm"], irOp := "mov" }] }
      [{ ptxOpcode := "mov".toList, mods := { typeMod := "u32" }
         operandTokens := ["%r9223372036854775808".toList, "0".toList] }] := by
  intro hdiagnosed
  have hthrows : mapKernel
      { entries := [{ ptxOpcode := "mov".toList, operandKinds := ["reg", "imm"], irOp := "mov" }] }
      [{ ptxOpcode := "mov".toList, mods := { typeMod := "u32" }
         operandTokens := ["%r9223372036854775808".toList, "0".toList] }] = .error "stoll" := by
    rfl
  cases hdiagnosed with
  | mapped recs hrun _ =>
      rw [hthrows] at hrun
      cases hrun
  | stopped _ _ _ _ _ hrun _ _ =>
      rw [hthrows] at hrun
      cases hrun

end ProtoGpu

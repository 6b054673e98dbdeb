import ProtoGpu.PtxIsa
import ProtoGpu.Units.Warp
import ProtoGpu.Proof.TextSearch
import ProtoGpu.Proof.ParserRun

/-!
# Operand kinds and numeric literals

Each operand kind has a recognizer of its own. What a kind accepts is read off the head of the
token, so two kinds meet on one sort of token only: a float bit pattern is an immediate and a
symbol. An integer literal is kept from the symbols by the number parser, which takes no trailing
`U` and nothing outside the signed 64-bit range.
-/

namespace ProtoGpu

open Throwing

open Json (isSpace isDigit)

/-- The kind accepts the token, under some type modifier. -/
def Accepts (kind : String) (tok : Text) : Prop :=
  ∃ typeMod loc op, parseOperandByKind kind tok typeMod loc = .ok (.ok op)

/-! ### Numbers -/

theorem parseU64Dec_some {s : Text} {id : Nat} (hparse : parseU64Dec s = .ok (some id)) :
    s ≠ [] ∧ (∀ c ∈ s, isDigit c = true) ∧ id = digitsValue s ∧ id < 2 ^ 63 := by
  unfold parseU64Dec at hparse
  split at hparse
  · cases hparse
  · next hdec =>
    simp only [Bool.or_eq_true, List.isEmpty_iff, Bool.not_eq_true', not_or,
      Bool.not_eq_false, List.all_eq_true] at hdec
    obtain ⟨hne, hdigits⟩ := hdec
    obtain ⟨v, hv, hid⟩ := bind_ok.mp hparse
    rw [Text.stoll_digits hne hdigits] at hv
    split at hv
    · next hfits =>
      cases hv
      cases hid
      exact ⟨hne, hdigits, by simp, by simpa using hfits⟩
    · cases hv

/-! ### What each kind accepts -/

theorem parseNumberedReg_ok {loc : Option SourceLocation} {tok pfx : Text} {what : String}
    {type : ValueType} {bias : Nat} {op : Operand}
    (hparse : parseNumberedReg loc tok pfx what type bias = .ok (.ok op)) :
    tok.drop pfx.length ≠ [] ∧ (∀ c ∈ tok.drop pfx.length, isDigit c = true) ∧
      bias + digitsValue (tok.drop pfx.length) < 2 ^ 63 ∧
      op = { kind := .reg, type := type
             regId := (bias + digitsValue (tok.drop pfx.length) : Nat) } := by
  obtain ⟨parsed, hdec, hrest⟩ := bind_ok.mp hparse
  cases parsed with
  | none => cases hrest
  | some id =>
    obtain ⟨hne, hdigits, rfl, -⟩ := parseU64Dec_some hdec
    dsimp only at hrest
    split at hrest
    · next hfits =>
      cases hrest
      exact ⟨hne, hdigits, hfits, rfl⟩
    · cases hrest

/-- A register class: how it is written, the type of its operand, and the bias of its numbers. -/
inductive RegClass where
  | r | rd | f
deriving DecidableEq

def RegClass.pfx : RegClass → Text
  | .r => "%r".toList
  | .rd => "%rd".toList
  | .f => "%f".toList

def RegClass.type : RegClass → ValueType
  | .r => .u32
  | .rd => .u64
  | .f => .f32

def RegClass.bias : RegClass → Nat
  | .f => kF32RegIdBias
  | _ => 0

structure Register where
  cls : RegClass
  number : Nat
deriving DecidableEq

/-- The token is the register's class and a decimal of its number. -/
def Spells (tok : Text) (reg : Register) : Prop :=
  ∃ digits, tok = reg.cls.pfx ++ digits ∧ digits ≠ [] ∧ (∀ c ∈ digits, isDigit c = true) ∧
    digitsValue digits = reg.number

theorem startsWith_iff {tok pfx : Text} :
    tok.startsWith pfx = true ↔ tok = pfx ++ tok.drop pfx.length := by
  rw [Text.startsWith, List.isPrefixOf_iff_prefix, List.prefix_iff_eq_append, eq_comm]

/-- **Register tokens.** A register operand is a spelled register: its number under the bias of its
class, in the bank its type and the modifier choose. -/
theorem parseRegOperand_ok {tok : Text} {typeMod : String} {loc : Option SourceLocation}
    {op : Operand} (hparse : parseRegOperand tok typeMod loc = .ok (.ok op)) :
    ∃ reg : Register, Spells tok reg ∧ reg.cls.bias + reg.number < 2 ^ 63 ∧
      op = promoteWide typeMod
        { kind := .reg, type := reg.cls.type, regId := (reg.cls.bias + reg.number : Nat) } := by
  obtain ⟨parsed, hparsed, hpromote⟩ := bind_ok.mp hparse
  have hspelled : ∀ (cls : RegClass) (what : String), tok.startsWith cls.pfx = true →
      parseNumberedReg loc tok cls.pfx what cls.type cls.bias = .ok parsed →
      ∃ reg : Register, Spells tok reg ∧ reg.cls.bias + reg.number < 2 ^ 63 ∧
        op = promoteWide typeMod
          { kind := .reg, type := reg.cls.type, regId := (reg.cls.bias + reg.number : Nat) } := by
    intro cls what hstart hnumbered
    cases parsed with
    | error diag => cases hpromote
    | ok o =>
      obtain ⟨hne, hdigits, hfits, rfl⟩ := parseNumberedReg_ok hnumbered
      cases hpromote
      exact ⟨{ cls := cls, number := digitsValue (tok.drop cls.pfx.length) },
        ⟨_, startsWith_iff.mp hstart, hne, hdigits, rfl⟩, hfits, rfl⟩
  unfold parseRegClass at hparsed
  split at hparsed
  · next hrd => exact hspelled .rd _ hrd hparsed
  · split at hparsed
    · next hf => exact hspelled .f _ hf hparsed
    · split at hparsed
      · next hr => exact hspelled .r _ hr hparsed
      · cases hparsed
        cases hpromote

/-! ### Numbers in the base of their prefix -/

theorem autoBase_of_head {c : Char} {s : Text} (hc : c ≠ '0') : autoBase (c :: s) = (10, []) := by
  unfold autoBase
  split
  · next heq => exact absurd (List.cons.inj heq).1 hc
  · next heq => exact absurd (List.cons.inj heq).1 hc
  · rfl

theorem autoBase_octal {s : Text} (hs : ∀ x ∈ s.head?, x ≠ 'x' ∧ x ≠ 'X') :
    autoBase ('0' :: s) = (8, []) := by
  unfold autoBase
  split
  · next x d rest heq =>
    obtain ⟨-, rfl⟩ := List.cons.inj heq
    obtain ⟨hlower, hupper⟩ := hs x (by simp)
    simp [hlower, hupper]
  · rfl
  · next hnot => exact absurd rfl (hnot s)

/-- A number begins with a blank, a sign or a digit. -/
theorem parseI64AutoBase_head {c : Char} {s : Text} {v : Int}
    (hparse : parseI64AutoBase (c :: s) = some v) :
    isSpace c = true ∨ c = '-' ∨ c = '+' ∨ isDigit c = true := by
  by_contra hnot
  push Not at hnot
  obtain ⟨hspace, hminus, hplus, hdigit⟩ := hnot
  have hzero : c ≠ '0' := by
    rintro rfl
    exact hdigit (by decide)
  have hscan : scanAutoBase (c :: s) = none := by
    unfold scanAutoBase
    rw [List.dropWhile_cons_of_neg hspace]
    simp [hminus, hplus, autoBase_of_head hzero, isBaseDigit, hdigit]
  rw [parseI64AutoBase, hscan] at hparse
  cases hparse

theorem isF32Immediate_iff {tok : Text} :
    isF32Immediate tok = true ↔
      ∃ (f : Char) (rest : Text), (f = 'f' ∨ f = 'F') ∧ tok = '0' :: f :: rest ∧
        rest.length = 8 := by
  have hstart : ∀ f : Char, tok.startsWith ['0', f] = true ↔ ∃ rest, tok = '0' :: f :: rest := by
    intro f
    rw [Text.startsWith, List.isPrefixOf_iff_prefix]
    exact ⟨fun ⟨rest, hrest⟩ => ⟨rest, hrest.symm⟩, fun ⟨rest, hrest⟩ => ⟨rest, hrest.symm⟩⟩
  rw [isF32Immediate, Bool.and_eq_true, Bool.or_eq_true, beq_iff_eq]
  rw [show "0f".toList = ['0', 'f'] from rfl, show "0F".toList = ['0', 'F'] from rfl,
    hstart, hstart]
  constructor
  · rintro ⟨hlen, ⟨rest, rfl⟩ | ⟨rest, rfl⟩⟩
    · exact ⟨'f', rest, .inl rfl, rfl, by simpa using hlen⟩
    · exact ⟨'F', rest, .inr rfl, rfl, by simpa using hlen⟩
  · rintro ⟨f, rest, rfl | rfl, rfl, hlen⟩
    · exact ⟨by simp [hlen], .inl ⟨rest, rfl⟩⟩
    · exact ⟨by simp [hlen], .inr ⟨rest, rfl⟩⟩

def signText : Option Bool → Text
  | none => []
  | some false => ['+']
  | some true => ['-']

/-- A number is read up to the first character that is no digit of its base. -/
theorem scanAutoBase_text {sign : Option Bool} {c : Char} {body digits suffix skipped : Text}
    {base : Nat} (hspace : isSpace c = false) (hminus : c ≠ '-') (hplus : c ≠ '+')
    (hbase : autoBase (c :: body) = (base, skipped))
    (hdrop : (c :: body).drop skipped.length = digits ++ suffix) (hne : digits ≠ [])
    (hdigits : ∀ d ∈ digits, isBaseDigit base d = true)
    (hstop : ∀ d ∈ suffix.head?, isBaseDigit base d = false) :
    scanAutoBase (signText sign ++ c :: body) =
      some (sign == some true, valueInBase base digits,
        (signText sign).length + skipped.length + digits.length) := by
  have htake : (digits ++ suffix).takeWhile (isBaseDigit base) = digits := by
    rw [List.takeWhile_append_of_pos hdigits]
    cases suffix with
    | nil => simp
    | cons d suffix => simp [hstop d (by simp)]
  have hsigns : isSpace '-' = false ∧ isSpace '+' = false := by decide
  unfold scanAutoBase
  rcases sign with _ | _ | _
  · simp [signText, hspace, hminus, hplus, hbase, hdrop, htake, hne]
  · simp [signText, hsigns, hbase, hdrop, htake, hne]
  · simp [signText, hsigns, hbase, hdrop, htake, hne]

/-- The number parser reads the zero of a float bit pattern and stops. -/
theorem parseI64AutoBase_f32 {tok : Text} (hf32 : isF32Immediate tok = true) :
    parseI64AutoBase tok = none := by
  obtain ⟨f, rest, hf, rfl, hlen⟩ := isF32Immediate_iff.mp hf32
  have hx : ∀ x ∈ (f :: rest).head?, x ≠ 'x' ∧ x ≠ 'X' := by
    intro x hmem
    obtain rfl : f = x := by simpa using hmem
    rcases hf with rfl | rfl <;> decide
  have hoct : isBaseDigit 8 f = false := by rcases hf with rfl | rfl <;> decide
  have hzero : ∀ d ∈ ['0'], isBaseDigit 8 d = true := by
    intro d hd
    rw [List.mem_singleton.mp hd]
    decide
  have hscan : scanAutoBase (signText none ++ '0' :: f :: rest) = some (false, 0, 1) :=
    scanAutoBase_text (by decide) (by decide) (by decide) (autoBase_octal hx)
      (show ('0' :: f :: rest).drop 0 = ['0'] ++ (f :: rest) from rfl) (by simp) hzero
      (by simpa using hoct)
  rw [parseI64AutoBase, show '0' :: f :: rest = signText none ++ '0' :: f :: rest from rfl, hscan]
  simp [signText, hlen]

/-! ### Numeric literals -/

inductive IntBase where
  | dec | oct | hex | hexUpper
deriving DecidableEq

def IntBase.pfx : IntBase → Text
  | .hex => ['0', 'x']
  | .hexUpper => ['0', 'X']
  | _ => []

def IntBase.radix : IntBase → Nat
  | .dec => 10
  | .oct => 8
  | _ => 16

/-- An integer literal of up to 64 bits: a sign, digits behind the prefix of their base, and a
trailing `U`. A decimal begins with no zero, an octal with one; zero is an octal. -/
structure IntLiteral where
  sign : Option Bool
  base : IntBase
  digits : Text
  isUnsigned : Bool
  digits_ne : digits ≠ []
  digits_ok : ∀ c ∈ digits, isBaseDigit base.radix c = true
  dec_head : base = .dec → digits.head? ≠ some '0'
  oct_head : base = .oct → digits.head? = some '0'
  magnitude_lt : valueInBase base.radix digits < 2 ^ 64

def IntLiteral.suffix (l : IntLiteral) : Text := if l.isUnsigned then ['U'] else []

def IntLiteral.text (l : IntLiteral) : Text :=
  signText l.sign ++ (l.base.pfx ++ (l.digits ++ l.suffix))

def IntLiteral.value (l : IntLiteral) : Int :=
  if l.sign = some true then -(valueInBase l.base.radix l.digits : Int)
  else valueInBase l.base.radix l.digits

/-- No `U`, and a value of a signed 64-bit integer. -/
def IntLiteral.FitsI64 (l : IntLiteral) : Prop :=
  l.isUnsigned = false ∧ -(2 ^ 63) ≤ l.value ∧ l.value < 2 ^ 63

theorem isXDigit_of_isBaseDigit {base : IntBase} {c : Char}
    (hc : isBaseDigit base.radix c = true) : isXDigit c = true := by
  cases base with
  | dec => simp_all [IntBase.radix, isBaseDigit, isXDigit]
  | oct =>
    have hoct : isOctDigit c = true := hc
    simp only [isOctDigit, isXDigit, isDigit, Bool.and_eq_true, decide_eq_true_eq,
      Bool.or_eq_true] at hoct ⊢
    exact .inl (.inl ⟨hoct.1, hoct.2.trans (by decide)⟩)
  | hex | hexUpper => simpa [IntBase.radix, isBaseDigit] using hc

/-- A digit is no blank, no sign and none of the characters that mark other tokens. -/
theorem isXDigit_ne {c : Char} (hc : isXDigit c = true) :
    isSpace c = false ∧ c ≠ '-' ∧ c ≠ '+' ∧ c ≠ '%' ∧ c ≠ '[' ∧ c ≠ ';' ∧ c ≠ 'x' ∧ c ≠ 'X' := by
  have hblank : isSpace c = false := by
    by_contra hspace
    simp only [isSpace, Bool.not_eq_false, Bool.or_eq_true, beq_iff_eq] at hspace
    rcases hspace with ((((rfl | rfl) | rfl) | rfl) | rfl) | rfl <;> revert hc <;> decide
  refine ⟨hblank, ?_, ?_, ?_, ?_, ?_, ?_, ?_⟩ <;> rintro rfl <;> revert hc <;> decide

theorem not_isBaseDigit_U (base : IntBase) : isBaseDigit base.radix 'U' = false := by
  cases base <;> decide

theorem IntLiteral.autoBase_body (l : IntLiteral) :
    autoBase (l.base.pfx ++ (l.digits ++ l.suffix)) = (l.base.radix, l.base.pfx) := by
  obtain ⟨d, ds, hds⟩ := List.exists_cons_of_ne_nil l.digits_ne
  have hd := isXDigit_of_isBaseDigit (l.digits_ok d (by simp [hds]))
  cases hbase : l.base with
  | dec =>
    have hzero : d ≠ '0' := by simpa [hds] using l.dec_head hbase
    simpa [IntBase.pfx, IntBase.radix, hds] using autoBase_of_head hzero
  | oct =>
    obtain rfl : d = '0' := by simpa [hds] using l.oct_head hbase
    have hnext : ∀ x ∈ (ds ++ l.suffix).head?, x ≠ 'x' ∧ x ≠ 'X' := by
      intro x hx
      cases hcase : ds with
      | nil =>
        rw [hcase, List.nil_append, suffix] at hx
        split at hx
        · obtain rfl : 'U' = x := by simpa using hx
          decide
        · cases hx
      | cons e es =>
        obtain rfl : e = x := by simpa [hcase] using hx
        have he := isXDigit_ne (isXDigit_of_isBaseDigit (l.digits_ok e (by simp [hds, hcase])))
        exact ⟨he.2.2.2.2.2.2.1, he.2.2.2.2.2.2.2⟩
    simpa [IntBase.pfx, IntBase.radix, hds] using autoBase_octal hnext
  | hex => simp [IntBase.pfx, IntBase.radix, hds, autoBase, hd]
  | hexUpper => simp [IntBase.pfx, IntBase.radix, hds, autoBase, hd]

/-- The head of the text behind the sign. -/
theorem IntLiteral.body_head (l : IntLiteral) :
    ∃ c body, l.base.pfx ++ (l.digits ++ l.suffix) = c :: body ∧ isXDigit c = true := by
  obtain ⟨d, ds, hds⟩ := List.exists_cons_of_ne_nil l.digits_ne
  have hd := isXDigit_of_isBaseDigit (l.digits_ok d (by simp [hds]))
  cases hbase : l.base with
  | dec | oct => exact ⟨d, ds ++ l.suffix, by simp [IntBase.pfx, hds], hd⟩
  | hex => exact ⟨'0', 'x' :: (l.digits ++ l.suffix), by simp [IntBase.pfx], by decide⟩
  | hexUpper => exact ⟨'0', 'X' :: (l.digits ++ l.suffix), by simp [IntBase.pfx], by decide⟩

/-- **Integer literals.** The number parser takes the literals that fit a signed word. -/
theorem IntLiteral.parse_text (l : IntLiteral) :
    (parseI64AutoBase l.text).isSome = true ↔ l.FitsI64 := by
  obtain ⟨c, body, hbody, hc⟩ := l.body_head
  obtain ⟨hspace, hminus, hplus, -⟩ := isXDigit_ne hc
  have hstop : ∀ d ∈ l.suffix.head?, isBaseDigit l.base.radix d = false := by
    intro d hd
    rw [suffix] at hd
    split at hd
    · obtain rfl : 'U' = d := by simpa using hd
      exact not_isBaseDigit_U l.base
    · cases hd
  have hdrop : (c :: body).drop l.base.pfx.length = l.digits ++ l.suffix := by
    rw [← hbody, List.drop_left]
  have hscan : scanAutoBase (signText l.sign ++ c :: body) =
      some (l.sign == some true, valueInBase l.base.radix l.digits,
        (signText l.sign).length + l.base.pfx.length + l.digits.length) :=
    scanAutoBase_text hspace hminus hplus (hbody ▸ l.autoBase_body) hdrop l.digits_ne l.digits_ok
      hstop
  have hlen : (signText l.sign ++ c :: body).length =
      (signText l.sign).length + l.base.pfx.length + l.digits.length + l.suffix.length := by
    rw [← hbody]
    simp only [List.length_append]
    omega
  have hsuffix : l.suffix.length = 0 ↔ l.isUnsigned = false := by
    unfold suffix
    cases l.isUnsigned <;> simp
  rw [IntLiteral.text, hbody, parseI64AutoBase, hscan]
  dsimp only
  rw [hlen, FitsI64, value, ← hsuffix]
  simp only [beq_iff_eq]
  generalize (if l.sign = some true then -(valueInBase l.base.radix l.digits : Int)
    else valueInBase l.base.radix l.digits) = v
  rw [Option.isSome_ite]
  omega

/-! ### What each kind accepts -/

/-- `0f` or `0F` and eight hexadecimal digits. -/
def isF32Literal (t : Text) : Bool := isF32Immediate t && (t.drop 2).all isXDigit

def operandKinds : List String := ["reg", "pred", "imm", "addr", "symbol", "special"]

section Kinds
variable {tok : Text}

theorem RegClass.pfx_eq (cls : RegClass) :
    ∃ c rest, cls.pfx = '%' :: c :: rest ∧ (c = 'r' ∨ c = 'f') := by
  cases cls with
  | r => exact ⟨'r', [], rfl, .inl rfl⟩
  | rd => exact ⟨'r', ['d'], rfl, .inl rfl⟩
  | f => exact ⟨'f', [], rfl, .inr rfl⟩

theorem ne_nil_of_parse {kind typeMod : String} {loc : Option SourceLocation} {op : Operand}
    (hparse : parseOperandByKind kind tok typeMod loc = .ok (.ok op)) : cleanTok tok ≠ [] := by
  intro hnil
  simp [parseOperandByKind, hnil, operandParseFail] at hparse

section Dispatch
variable (hne : cleanTok tok ≠ []) (typeMod : String) (loc : Option SourceLocation)
include hne

theorem parse_reg : parseOperandByKind "reg" tok typeMod loc
    = parseRegOperand (cleanTok tok) typeMod loc := by
  simp [parseOperandByKind, hne]

theorem parse_pred : parseOperandByKind "pred" tok typeMod loc
    = parsePredOperand (cleanTok tok) loc := by
  simp [parseOperandByKind, hne]

theorem parse_imm : parseOperandByKind "imm" tok typeMod loc
    = parseImmOperand (cleanTok tok) loc := by
  simp [parseOperandByKind, hne]

theorem parse_addr : parseOperandByKind "addr" tok typeMod loc
    = parseAddrOperand (cleanTok tok) loc := by
  simp [parseOperandByKind, hne]

theorem parse_symbol : parseOperandByKind "symbol" tok typeMod loc
    = parseSymbolOperand (cleanTok tok) loc := by
  simp [parseOperandByKind, hne]

theorem parse_special : parseOperandByKind "special" tok typeMod loc
    = parseSpecialOperand (cleanTok tok) loc := by
  simp [parseOperandByKind, hne]

end Dispatch

theorem accepts_reg (h : Accepts "reg" tok) : ∃ reg, Spells (cleanTok tok) reg := by
  obtain ⟨typeMod, loc, op, hparse⟩ := h
  rw [parse_reg (ne_nil_of_parse hparse)] at hparse
  obtain ⟨reg, hspells, -⟩ := parseRegOperand_ok hparse
  exact ⟨reg, hspells⟩

theorem accepts_pred (h : Accepts "pred" tok) : ∃ rest, cleanTok tok = '%' :: 'p' :: rest := by
  obtain ⟨typeMod, loc, op, hparse⟩ := h
  rw [parse_pred (ne_nil_of_parse hparse), parsePredOperand] at hparse
  split at hparse
  · cases hparse
  · next hstart =>
    rw [Bool.not_eq_true', Bool.not_eq_false, startsWith_iff] at hstart
    exact ⟨_, hstart⟩

theorem accepts_imm_iff :
    Accepts "imm" tok ↔
      isF32Literal (cleanTok tok) = true ∨ (parseI64AutoBase (cleanTok tok)).isSome = true := by
  constructor
  · rintro ⟨typeMod, loc, op, hparse⟩
    rw [parse_imm (ne_nil_of_parse hparse), parseImmOperand] at hparse
    split at hparse
    · next hf32 =>
      split at hparse
      · cases hparse
      · next bits hbits =>
        simp only [parseU32HexExact, Option.ite_none_right_eq_some] at hbits
        exact .inl (by rw [isF32Literal, hf32, hbits.1.2]; rfl)
    · split at hparse
      · cases hparse
      · next v hv => exact .inr (by rw [hv]; rfl)
  · rintro (hf32 | hint)
    · rw [isF32Literal, Bool.and_eq_true] at hf32
      obtain ⟨f, rest, -, htok, hlen⟩ := isF32Immediate_iff.mp hf32.1
      have hhex : parseU32HexExact rest = some (valueInBase 16 rest % 2 ^ 32) := by
        rw [htok] at hf32
        exact if_pos ⟨hlen, hf32.2⟩
      refine ⟨"", none,
        { kind := .imm, type := .f32, immI64 := (valueInBase 16 rest % 2 ^ 32 : Nat) }, ?_⟩
      rw [parse_imm (by simp [htok]), parseImmOperand, if_pos hf32.1, htok]
      simp [hhex]
    · obtain ⟨v, hv⟩ := Option.isSome_iff_exists.mp hint
      have hf32 : ¬isF32Immediate (cleanTok tok) = true := by
        intro hf32
        rw [parseI64AutoBase_f32 hf32] at hv
        cases hv
      have hne : cleanTok tok ≠ [] := by
        intro hnil
        rw [hnil] at hv
        cases hv
      refine ⟨"", none, { kind := .imm, immI64 := v }, ?_⟩
      rw [parse_imm hne, parseImmOperand, if_neg hf32, hv]

/-! The base of an address is the head of what its brackets hold. -/

theorem cleanTok_pfx {s : Text} (hhead : ∀ c ∈ s.head?, isSpace c = false) :
    cleanTok s <+: s := by
  have htrim := Text.trim_pfx hhead
  unfold cleanTok
  dsimp only
  split
  · have hlast := List.dropLast_prefix s.trim
    exact ((Text.trim_pfx (Text.head_not_space (hlast.trans htrim) hhead)).trans hlast).trans htrim
  · exact (Text.trim_pfx (Text.trim_head s)).trans htrim

theorem addrBase_pfx {inner : Text} (hhead : ∀ c ∈ inner.head?, isSpace c = false) :
    addrBase inner <+: inner := by
  unfold addrBase
  split
  · next plus _ =>
    have htake := List.take_prefix plus inner
    exact (Text.trim_pfx (Text.head_not_space htake hhead)).trans htake
  · exact List.prefix_rfl

theorem parseAddrBase_ok {inner : Text} {off : Int} {op : Operand}
    (hparse : parseAddrBase inner off = .ok (.ok op)) :
    ∃ baseOp, parseRegOperand (cleanTok (addrBase inner)) "u64" none = .ok (.ok baseOp) ∧
      op = { kind := .addr, type := .u64, regId := baseOp.regId, immI64 := off } := by
  unfold parseAddrBase at hparse
  dsimp only at hparse
  split at hparse
  · cases hparse
  · obtain ⟨parsed, hparsed, hrest⟩ := bind_ok.mp hparse
    cases parsed with
    | error diag => cases hrest
    | ok baseOp =>
      cases hrest
      exact ⟨baseOp, hparsed, rfl⟩

theorem parseAddrOperand_ok {loc : Option SourceLocation} {op : Operand}
    (hparse : parseAddrOperand tok loc = .ok (.ok op)) :
    isBracketed tok = true ∧ ∃ off, parseAddrBase (bracketInner tok) off = .ok (.ok op) := by
  unfold parseAddrOperand at hparse
  split at hparse
  · cases hparse
  · next hbracket =>
    refine ⟨by simpa using hbracket, ?_⟩
    dsimp only at hparse
    split at hparse
    · exact ⟨0, hparse⟩
    · split at hparse
      · cases hparse
      · next off _ => exact ⟨off, hparse⟩

theorem Spells.head {reg : Register} (hspells : Spells tok reg) : tok.head? = some '%' := by
  obtain ⟨digits, rfl, -⟩ := hspells
  obtain ⟨c, rest, hpfx, -⟩ := reg.cls.pfx_eq
  rw [hpfx]
  rfl

theorem accepts_addr (h : Accepts "addr" tok) :
    isBracketed (cleanTok tok) = true ∧ (bracketInner (cleanTok tok)).head? = some '%' := by
  obtain ⟨typeMod, loc, op, hparse⟩ := h
  rw [parse_addr (ne_nil_of_parse hparse)] at hparse
  obtain ⟨hbracket, off, hbase⟩ := parseAddrOperand_ok hparse
  obtain ⟨baseOp, hreg, -⟩ := parseAddrBase_ok hbase
  obtain ⟨reg, hspells, -⟩ := parseRegOperand_ok hreg
  refine ⟨hbracket, ?_⟩
  have hinner : ∀ c ∈ (bracketInner (cleanTok tok)).head?, isSpace c = false := Text.trim_head _
  have hpre := addrBase_pfx hinner
  have hclean := (cleanTok_pfx (Text.head_not_space hpre hinner)).trans hpre
  have hne : cleanTok (addrBase (bracketInner (cleanTok tok))) ≠ [] := by
    intro hnil
    have hhead := hspells.head
    rw [hnil] at hhead
    cases hhead
  rw [← Text.head_of_pfx hclean hne, hspells.head]

theorem accepts_symbol_iff :
    Accepts "symbol" tok ↔ cleanTok tok ≠ [] ∧ (cleanTok tok).head? ≠ some '%' ∧
      parseI64AutoBase (cleanTok tok) = none ∧
      (isBracketed (cleanTok tok) = true →
        bracketInner (cleanTok tok) ≠ [] ∧ (bracketInner (cleanTok tok)).head? ≠ some '%') := by
  constructor
  · rintro ⟨typeMod, loc, op, hparse⟩
    have hne := ne_nil_of_parse hparse
    rw [parse_symbol hne, parseSymbolOperand] at hparse
    split at hparse
    · cases hparse
    · next hpercent =>
      split at hparse
      · cases hparse
      · next hint =>
        dsimp only at hparse
        split at hparse
        · cases hparse
        · next hinner =>
          refine ⟨hne, by simpa using hpercent, by simpa using hint, fun hbracket => ?_⟩
          rw [hbracket] at hparse hinner
          refine ⟨?_, by simpa using hinner⟩
          intro hnil
          simp [hnil, operandParseFail] at hparse
  · rintro ⟨hne, hpercent, hint, hinner⟩
    let name := if isBracketed (cleanTok tok) then bracketInner (cleanTok tok) else cleanTok tok
    refine ⟨"", none, { kind := .symbol, symbol := String.ofList name }, ?_⟩
    rw [parse_symbol hne, parseSymbolOperand, if_neg (by simpa using hpercent), hint]
    cases hbracket : isBracketed (cleanTok tok) with
    | true =>
      obtain ⟨hinnerNe, hinnerHead⟩ := hinner hbracket
      simp [hinnerNe, hinnerHead, name, hbracket]
    | false => simp [hne, name, hbracket]

theorem accepts_special (h : Accepts "special" tok) :
    ∃ rest, cleanTok tok = '%' :: rest ∧ rest.head? ≠ some 'r' ∧ rest.head? ≠ some 'p' ∧
      (toLower rest ∈ scalarSpecials ∨ '.' ∈ cleanTok tok) := by
  obtain ⟨typeMod, loc, op, hparse⟩ := h
  rw [parse_special (ne_nil_of_parse hparse), parseSpecialOperand] at hparse
  split at hparse
  · cases hparse
  · next hstart =>
    simp only [Bool.or_eq_true, not_or, bne_iff_ne, ne_eq, not_not, Bool.not_eq_true] at hstart
    obtain ⟨⟨⟨hhead, hr⟩, -⟩, hp⟩ := hstart
    obtain ⟨rest, hrest⟩ : ∃ rest, cleanTok tok = '%' :: rest := by
      cases hcase : cleanTok tok with
      | nil => simp [hcase] at hhead
      | cons c rest =>
        obtain rfl : c = '%' := by simpa [hcase] using hhead
        exact ⟨rest, rfl⟩
    have hnot : ∀ c : Char, Text.startsWith (cleanTok tok) ['%', c] = false →
        rest.head? ≠ some c := by
      intro c hfalse hsome
      obtain ⟨tail, rfl⟩ : ∃ tail, rest = c :: tail := by
        cases rest with
        | nil => cases hsome
        | cons d tail =>
          obtain rfl : d = c := by simpa using hsome
          exact ⟨tail, rfl⟩
      simp [hrest, Text.startsWith] at hfalse
    refine ⟨rest, hrest, hnot 'r' hr, hnot 'p' hp, ?_⟩
    dsimp only at hparse
    split at hparse
    · next hscalar =>
      refine .inl ?_
      rw [hrest, List.drop_one, List.tail_cons] at hscalar
      exact List.elem_iff.mp hscalar
    · split at hparse
      · cases hparse
      · next hdot =>
        rw [Bool.not_eq_true', Bool.not_eq_false, Text.contains_iff] at hdot
        obtain ⟨pre, post, hsplit⟩ := hdot
        exact .inr (by rw [hsplit]; simp)

/-- The one kind the shape of a token allows. -/
def tokenShape (t : Text) : String :=
  if t.head? = some '%' then
    if t[1]? = some 'p' then "pred"
    else if t[1]? = some 'r' then "reg"
    else if toLower (t.drop 1) ∈ scalarSpecials ∨ '.' ∈ t then "special"
    else "reg"
  else if isBracketed t = true ∧ (bracketInner t).head? = some '%' then "addr"
  else if (parseI64AutoBase t).isSome then "imm"
  else "symbol"

theorem isBracketed_head {t : Text} (hbracket : isBracketed t = true) : t.head? = some '[' := by
  simp only [isBracketed, Bool.and_eq_true, beq_iff_eq] at hbracket
  exact hbracket.1.2

theorem Spells.shape {t : Text} {reg : Register} (hspells : Spells t reg) :
    tokenShape t = "reg" := by
  obtain ⟨digits, rfl, -, hdigits, -⟩ := hspells
  have hdot : '.' ∉ digits := by
    intro hmem
    exact absurd (hdigits '.' hmem) (by decide)
  cases reg.cls with
  | r => simp [tokenShape, RegClass.pfx]
  | rd => simp [tokenShape, RegClass.pfx]
  | f => simp [tokenShape, RegClass.pfx, hdot, toLower, scalarSpecials]

theorem int_shape {t : Text} (hint : (parseI64AutoBase t).isSome = true) :
    tokenShape t = "imm" := by
  obtain ⟨v, hv⟩ := Option.isSome_iff_exists.mp hint
  have hhead : t.head? ≠ some '%' ∧ t.head? ≠ some '[' := by
    cases t with
    | nil => simp
    | cons c t =>
      simp only [List.head?_cons, ne_eq, Option.some.injEq]
      constructor <;> rintro rfl <;>
        exact absurd (parseI64AutoBase_head hv) (by decide)
  have hbracket : isBracketed t ≠ true := fun h => hhead.2 (isBracketed_head h)
  simp [tokenShape, hhead.1, hbracket, hint]

/-- Float bit patterns apart, a kind that accepts a token is the one of its shape. -/
theorem kind_eq_shape {kind : String} (hkind : kind ∈ operandKinds)
    (hf32 : isF32Literal (cleanTok tok) = false) (h : Accepts kind tok) :
    kind = tokenShape (cleanTok tok) := by
  simp only [operandKinds, List.mem_cons, List.not_mem_nil, or_false] at hkind
  rcases hkind with rfl | rfl | rfl | rfl | rfl | rfl
  · obtain ⟨reg, hspells⟩ := accepts_reg h
    exact hspells.shape.symm
  · obtain ⟨rest, hrest⟩ := accepts_pred h
    simp [tokenShape, hrest]
  · rw [accepts_imm_iff, hf32] at h
    exact (int_shape (by simpa using h)).symm
  · obtain ⟨hbracket, hinner⟩ := accepts_addr h
    simp [tokenShape, isBracketed_head hbracket, hbracket, hinner]
  · obtain ⟨-, hpercent, hint, hinner⟩ := accepts_symbol_iff.mp h
    have hnot : ¬(isBracketed (cleanTok tok) = true ∧
        (bracketInner (cleanTok tok)).head? = some '%') := fun hboth =>
      (hinner hboth.1).2 hboth.2
    simp [tokenShape, hpercent, hint, hnot]
  · obtain ⟨rest, hrest, hr, hp, hname⟩ := accepts_special h
    have hone : rest[0]? = rest.head? := List.head?_eq_getElem?.symm
    have hname' : toLower rest ∈ scalarSpecials ∨ '.' ∈ rest := by simpa [hrest] using hname
    simp [tokenShape, hrest, hone, hr, hp, hname']

/-- **Exclusive kinds.** No two kinds accept a token, except a float bit pattern. -/
theorem kinds_exclusive_iff (tok : Text) :
    (∀ k₁ ∈ operandKinds, ∀ k₂ ∈ operandKinds, k₁ ≠ k₂ → ¬(Accepts k₁ tok ∧ Accepts k₂ tok)) ↔
      isF32Literal (cleanTok tok) = false := by
  constructor
  · intro hall
    by_contra hf32
    rw [Bool.not_eq_false] at hf32
    have himm : Accepts "imm" tok := accepts_imm_iff.mpr (.inl hf32)
    have hf32' := hf32
    rw [isF32Literal, Bool.and_eq_true] at hf32'
    obtain ⟨f, rest, -, htok, -⟩ := isF32Immediate_iff.mp hf32'.1
    have hsymbol : Accepts "symbol" tok := by
      rw [accepts_symbol_iff]
      refine ⟨by simp [htok], by simp [htok], parseI64AutoBase_f32 hf32'.1, fun hbracket => ?_⟩
      have hhead := isBracketed_head hbracket
      simp [htok] at hhead
    exact hall "imm" (by decide) "symbol" (by decide) (by decide) ⟨himm, hsymbol⟩
  · rintro hf32 k₁ hk₁ k₂ hk₂ hne ⟨h₁, h₂⟩
    exact hne ((kind_eq_shape hk₁ hf32 h₁).trans (kind_eq_shape hk₂ hf32 h₂).symm)

end Kinds

/-! ### Literals -/

inductive NumericLiteral where
  | int (l : IntLiteral)
  | f32 (text : Text) (h : isF32Literal text = true)

def NumericLiteral.text : NumericLiteral → Text
  | .int l => l.text
  | .f32 text _ => text

/-- An integer literal without `U`, of a value a signed 64-bit integer holds. -/
def NumericLiteral.Plain : NumericLiteral → Prop
  | .int l => l.FitsI64
  | .f32 _ _ => False

theorem IntLiteral.text_head (l : IntLiteral) :
    ∃ c rest, l.text = c :: rest ∧ c ≠ '%' ∧ c ≠ '[' := by
  obtain ⟨c, body, hbody, hc⟩ := l.body_head
  obtain ⟨-, -, -, hpercent, hbracket, -⟩ := isXDigit_ne hc
  rw [text, hbody]
  rcases l.sign with _ | _ | _
  · exact ⟨c, body, rfl, hpercent, hbracket⟩
  · exact ⟨'+', c :: body, rfl, by decide, by decide⟩
  · exact ⟨'-', c :: body, rfl, by decide, by decide⟩

/-- A literal is a symbol unless the number parser takes it. -/
theorem literal_symbol_iff {tok : Text} {l : NumericLiteral} (htok : cleanTok tok = l.text) :
    Accepts "symbol" tok ↔ ¬l.Plain := by
  obtain ⟨c, rest, hhead, hpercent, hbracket⟩ :
      ∃ c rest, l.text = c :: rest ∧ c ≠ '%' ∧ c ≠ '[' := by
    cases l with
    | int l => exact l.text_head
    | f32 text hf32 =>
      rw [isF32Literal, Bool.and_eq_true] at hf32
      obtain ⟨f, rest, -, htext, -⟩ := isF32Immediate_iff.mp hf32.1
      exact ⟨'0', f :: rest, htext, by decide, by decide⟩
  have hnot : isBracketed (cleanTok tok) ≠ true := by
    intro hb
    have hopen := isBracketed_head hb
    rw [htok, hhead] at hopen
    exact hbracket (by simpa using hopen)
  have hsymbol : Accepts "symbol" tok ↔ parseI64AutoBase l.text = none := by
    rw [htok, hhead] at hnot
    rw [accepts_symbol_iff, htok, hhead]
    simp [hnot, hpercent]
  rw [hsymbol]
  cases l with
  | int l =>
    rw [NumericLiteral.Plain, ← l.parse_text, Bool.not_eq_true, Option.isSome_eq_false_iff,
      Option.isNone_iff_eq_none]
    rfl
  | f32 text hf32 =>
    rw [isF32Literal, Bool.and_eq_true] at hf32
    exact iff_of_true (parseI64AutoBase_f32 hf32.1) id

/-! ### The map -/

@[simp]
theorem promoteWide_kind (typeMod : String) (o : Operand) :
    (promoteWide typeMod o).kind = o.kind := by
  unfold promoteWide
  split <;> rfl

theorem parsePredOperand_kind {tok : Text} {loc : Option SourceLocation} {op : Operand}
    (hparse : parsePredOperand tok loc = .ok (.ok op)) : op.kind = .pred := by
  unfold parsePredOperand at hparse
  split at hparse
  · cases hparse
  · obtain ⟨parsed, -, hrest⟩ := bind_ok.mp hparse
    cases parsed with
    | none => cases hrest
    | some id =>
      cases hrest
      rfl

theorem parseImmOperand_kind {tok : Text} {loc : Option SourceLocation} {op : Operand}
    (hparse : parseImmOperand tok loc = .ok (.ok op)) : op.kind = .imm := by
  unfold parseImmOperand at hparse
  split at hparse <;> split at hparse <;> cases hparse <;> rfl

theorem parseSpecialOperand_kind {tok : Text} {loc : Option SourceLocation} {op : Operand}
    (hparse : parseSpecialOperand tok loc = .ok (.ok op)) : op.kind = .special := by
  unfold parseSpecialOperand at hparse
  split at hparse
  · cases hparse
  · dsimp only at hparse
    split at hparse
    · cases hparse
      rfl
    · split at hparse
      · cases hparse
      · split at hparse
        · cases hparse
          rfl
        · cases hparse

/-- Only the symbol kind makes symbols. -/
theorem accepts_symbol_of_parse {kind typeMod : String} {tok : Text}
    {loc : Option SourceLocation} {op : Operand}
    (hparse : parseOperandByKind kind tok typeMod loc = .ok (.ok op)) (hop : op.kind = .symbol) :
    Accepts "symbol" tok := by
  have hne := ne_nil_of_parse hparse
  have horig := hparse
  rw [parseOperandByKind, if_neg (by simpa using hne)] at hparse
  split at hparse
  · obtain ⟨reg, -, -, rfl⟩ := parseRegOperand_ok hparse
    simp at hop
  split at hparse
  · rw [parsePredOperand_kind hparse] at hop
    cases hop
  split at hparse
  · rw [parseImmOperand_kind hparse] at hop
    cases hop
  split at hparse
  · obtain ⟨-, off, hbase⟩ := parseAddrOperand_ok hparse
    obtain ⟨baseOp, -, rfl⟩ := parseAddrBase_ok hbase
    cases hop
  split at hparse
  · next hkind =>
    obtain rfl : kind = "symbol" := by simpa using hkind
    exact ⟨typeMod, loc, op, horig⟩
  split at hparse
  · rw [parseSpecialOperand_kind hparse] at hop
    cases hop
  · cases hparse

/-- The operands of an instruction are the parses of its tokens. -/
theorem parseOperands_ok {typeMod : String} {loc : Option SourceLocation}
    {pairs : List (String × Text)} {ops : List Operand}
    (hparse : parseOperands typeMod loc pairs = .ok (.ok ops)) :
    List.Forall₂ (fun pair op => parseOperandByKind pair.1 pair.2 typeMod loc = .ok (.ok op))
      pairs ops := by
  induction pairs generalizing ops with
  | nil =>
    cases hparse
    exact .nil
  | cons pair pairs ih =>
    obtain ⟨kind, tok⟩ := pair
    obtain ⟨first, hfirst, hrest⟩ := bind_ok.mp hparse
    cases first with
    | error diag => cases hrest
    | ok op =>
      obtain ⟨rest, htail, hops⟩ := bind_ok.mp hrest
      cases rest with
      | error diag => cases hops
      | ok tail =>
        cases hops
        exact .cons hfirst (ih htail)

theorem matchEntries_ok {inst : TokenizedPtxInst} {cands : List PtxIsaEntry}
    {found found' : List PtxIsaMatch} {last last' : Option Diagnostic}
    (hrun : matchEntries inst cands found last = .ok (found', last')) :
    ∀ m ∈ found', m ∈ found ∨ parseOperands inst.mods.typeMod inst.dbg
      (m.entry.operandKinds.zip inst.operandTokens) = .ok (.ok m.operands) := by
  induction cands generalizing found last with
  | nil =>
    cases hrun
    exact fun m hm => .inl hm
  | cons e cands ih =>
    obtain ⟨parsed, hparsed, hrest⟩ := bind_ok.mp hrun
    intro m hm
    cases parsed with
    | error diag => exact ih hrest m hm
    | ok ops =>
      rcases ih hrest m hm with hmem | hparse
      · rcases List.mem_append.mp hmem with hmem | hmem
        · exact .inl hmem
        · obtain rfl := List.mem_singleton.mp hmem
          exact .inr hparsed
      · exact .inr hparse

/-- A mapped instruction has an entry all of whose kinds accept. -/
theorem mapOne_ok {isa : PtxIsaRegistry} {inst : TokenizedPtxInst} {rec : InstRecord}
    (hmap : mapOne isa inst = .ok (.ok rec)) :
    ∃ e : PtxIsaEntry, parseOperands inst.mods.typeMod inst.dbg
      (e.operandKinds.zip inst.operandTokens) = .ok (.ok rec.operands) := by
  unfold mapOne at hmap
  dsimp only at hmap
  split at hmap
  · cases hmap
  · obtain ⟨⟨found, last⟩, hrun, hrest⟩ := bind_ok.mp hmap
    have hfound := matchEntries_ok hrun
    match found, last, hrest with
    | [], some diag, hrest => cases hrest
    | [], none, hrest => cases hrest
    | [m], _, hrest =>
      cases hrest
      rcases hfound m (by simp) with hmem | hparse
      · cases hmem
      · exact ⟨m.entry, hparse⟩
    | _ :: _ :: _, _, hrest => cases hrest

theorem forall₂_getElem? {α β : Type} {R : α → β → Prop} {xs : List α} {ys : List β}
    (hall : List.Forall₂ R xs ys) {i : Nat} {y : β} (hy : ys[i]? = some y) :
    ∃ x, xs[i]? = some x ∧ R x y := by
  induction hall generalizing i with
  | nil => cases hy
  | @cons x y' xs ys hxy _ ih =>
    cases i with
    | zero =>
      obtain rfl : y' = y := by simpa using hy
      exact ⟨x, rfl, hxy⟩
    | succ i => exact ih hy

/-- No operand of a mapped instruction is a symbol made of a plain literal. -/
theorem mapOne_plain_literal {isa : PtxIsaRegistry} {inst : TokenizedPtxInst} {rec : InstRecord}
    (hmap : mapOne isa inst = .ok (.ok rec)) {i : Nat} {tok : Text} {op : Operand}
    (htok : inst.operandTokens[i]? = some tok) (hop : rec.operands[i]? = some op)
    {l : NumericLiteral} (hl : cleanTok tok = l.text) (hplain : l.Plain) : op.kind ≠ .symbol := by
  obtain ⟨e, hparse⟩ := mapOne_ok hmap
  have hall := parseOperands_ok hparse
  intro hsymbol
  obtain ⟨⟨kind, tok'⟩, hpair, hone⟩ := forall₂_getElem? hall hop
  obtain ⟨-, htok'⟩ := List.getElem?_zip_eq_some.mp hpair
  obtain rfl : tok = tok' := Option.some.inj (htok.symm.trans htok')
  exact (literal_symbol_iff hl).mp (accepts_symbol_of_parse hone hsymbol) hplain

/-- **Literals and symbols.** At most one kind accepts a token, and it is no symbol when it is a
numeric literal, exactly when it is no literal or a plain one; and a mapped instruction makes no
symbol of a plain literal. -/
theorem literal_kinds_iff (tok : Text) :
    (((∀ k₁ ∈ operandKinds, ∀ k₂ ∈ operandKinds, k₁ ≠ k₂ → ¬(Accepts k₁ tok ∧ Accepts k₂ tok)) ∧
        ∀ l : NumericLiteral, cleanTok tok = l.text → ¬Accepts "symbol" tok) ↔
      ∀ l : NumericLiteral, cleanTok tok = l.text → l.Plain) ∧
    ∀ l : NumericLiteral, cleanTok tok = l.text → l.Plain →
      ∀ (isa : PtxIsaRegistry) (inst : TokenizedPtxInst) (rec : InstRecord) (i : Nat)
      (op : Operand),
        mapOne isa inst = .ok (.ok rec) → inst.operandTokens[i]? = some tok →
          rec.operands[i]? = some op → op.kind ≠ .symbol := by
  refine ⟨?_, ?_⟩
  · rw [kinds_exclusive_iff]
    constructor
    · rintro ⟨-, hsymbol⟩ l hl
      by_contra hplain
      exact hsymbol l hl ((literal_symbol_iff hl).mpr hplain)
    · intro hplain
      refine ⟨?_, fun l hl haccepts => (literal_symbol_iff hl).mp haccepts (hplain l hl)⟩
      by_contra hf32
      rw [Bool.not_eq_false] at hf32
      exact hplain (.f32 _ hf32) rfl
  · intro l hl hplain isa inst rec i op hmap htok hop
    exact mapOne_plain_literal hmap htok hop hl hplain

/-- The entries of the demo map for `mov.u32`. -/
def movIsa : PtxIsaRegistry where
  entries := ["imm", "special", "symbol", "reg"].map fun kind =>
    { ptxOpcode := "mov".toList, typeMod := "u32".toList, operandKinds := ["reg", kind]
      irOp := "mov" }

def movHexU : TokenizedPtxInst where
  ptxOpcode := "mov".toList
  mods := { typeMod := "u32" }
  operandTokens := ["%r1".toList, "0x10U".toList]

/-- `mov.u32 %r1, 0x10U` is mapped to a move of a symbol, which reads as zero; and a float bit
pattern is an immediate and a symbol. -/
theorem literal_accepted_as_symbol :
    (∃ rec op, mapOne movIsa movHexU = .ok (.ok rec) ∧ rec.operands[1]? = some op ∧
      op.kind = .symbol ∧ readOperandLane op {} 0 = some 0) ∧
    (∃ l : NumericLiteral, cleanTok "0x10U".toList = l.text) ∧
    Accepts "symbol" "0x10U".toList ∧
    Accepts "imm" "0f3F800000".toList ∧ Accepts "symbol" "0f3F800000".toList := by
  refine ⟨⟨_, _, rfl, rfl, rfl, rfl⟩, ?_, ⟨"", none, _, rfl⟩, ⟨"", none, _, rfl⟩,
    ⟨"", none, _, rfl⟩⟩
  let hexU : IntLiteral :=
    { sign := none, base := .hex, digits := "10".toList, isUnsigned := true
      digits_ne := by
        decide, digits_ok := List.all_eq_true.mp (by decide), dec_head := by
        decide, oct_head := by decide
      magnitude_lt := by decide }
  exact ⟨.int hexU, rfl⟩

end ProtoGpu

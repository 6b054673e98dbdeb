import ProtoGpu.Proof.IntegerWidth

/-!
# Comparison at the width of its type

SETP compares the low halves of its operands, as signed or unsigned 32-bit numbers, for all four
integer types. For a 32-bit type these are the operands. For a 64-bit type the result is right
exactly when the low halves are ordered as the whole words are, which the upper halves and, under a
sign, the top bits of the low halves decide.
-/

namespace ProtoGpu

/-! ### What the result should be -/

/-- A word as a number. -/
def wordValue {n : Nat} (signed : Bool) (x : BitVec n) : Int := if signed then x.toInt else x.toNat

/-- An operand at the width and signedness of a type. -/
def ValueType.valueOf (type : ValueType) (x : BitVec 64) : Int :=
  if type.isWide then wordValue type.isSigned x else wordValue type.isSigned (x.setWidth 32)

def SetpCmp.flag : SetpCmp → String
  | .le => "le"
  | .gt => "gt"
  | .ge => "ge"
  | .eq => "eq"
  | .ne => "ne"
  | .lt => "lt"

def SetpCmp.Relates : SetpCmp → Int → Int → Prop
  | .le, i, j => i ≤ j
  | .gt, i, j => j < i
  | .ge, i, j => j ≤ i
  | .eq, i, j => i = j
  | .ne, i, j => i ≠ j
  | .lt, i, j => i < j

theorem wordValue_inj {n : Nat} (signed : Bool) (x y : BitVec n) :
    wordValue signed x = wordValue signed y ↔ x = y := by
  unfold wordValue
  cases signed with
  | true => exact BitVec.toInt_inj
  | false => simp [← BitVec.toNat_inj]

theorem SetpCmp.holds_iff (cmp : SetpCmp) (signed : Bool) (aa bb : BitVec 32) :
    cmp.holds signed aa bb = true ↔ cmp.Relates (wordValue signed aa) (wordValue signed bb) := by
  have hinj := wordValue_inj signed aa bb
  cases cmp with
  | eq => simp [holds, Relates, hinj]
  | ne => simp [holds, Relates, hinj]
  | le | gt | ge | lt => cases signed <;> simp [holds, Relates, wordValue, BitVec.slt, BitVec.ult]

/-! ### Halves -/

def lowHalf (x : BitVec 64) : BitVec 32 := x.setWidth 32

def highHalf (x : BitVec 64) : BitVec 32 := (x >>> 32).setWidth 32

theorem wordValue_halves (signed : Bool) (x : BitVec 64) :
    wordValue signed x = wordValue signed (highHalf x) * 2 ^ 32 + (lowHalf x).toNat := by
  have hx := x.isLt
  have hhigh : (highHalf x).toNat = x.toNat / 2 ^ 32 := by
    rw [highHalf, BitVec.toNat_setWidth, BitVec.toNat_ushiftRight, Nat.shiftRight_eq_div_pow]
    omega
  have hlow : (lowHalf x).toNat = x.toNat % 2 ^ 32 := by rw [lowHalf, BitVec.toNat_setWidth]
  unfold wordValue
  cases signed with
  | true =>
    simp only [if_true, BitVec.toInt_eq_toNat_cond, hhigh, hlow]
    split <;> split <;> omega
  | false =>
    simp only [Bool.false_eq_true, if_false, hhigh, hlow]
    omega

theorem eq_halves_iff (x y : BitVec 64) :
    x = y ↔ highHalf x = highHalf y ∧ lowHalf x = lowHalf y := by
  rw [← wordValue_inj false x, wordValue_halves, wordValue_halves false y,
    ← wordValue_inj false (highHalf x), ← BitVec.toNat_inj (x := lowHalf x)]
  have hx := (lowHalf x).isLt
  have hy := (lowHalf y).isLt
  omega

theorem lt_halves_iff (signed : Bool) (x y : BitVec 64) :
    wordValue signed x < wordValue signed y ↔
      wordValue signed (highHalf x) < wordValue signed (highHalf y) ∨
        highHalf x = highHalf y ∧ (lowHalf x).toNat < (lowHalf y).toNat := by
  rw [wordValue_halves, wordValue_halves signed y, ← wordValue_inj signed (highHalf x)]
  have hx := (lowHalf x).isLt
  have hy := (lowHalf y).isLt
  omega

/-- Under a sign the order of the values is that of the words while the top bits agree. -/
theorem toInt_order_iff (x y : BitVec 32) :
    ((x.toInt < y.toInt) ↔ x.toNat < y.toNat) ↔ x.msb = y.msb := by
  have hx := x.isLt
  have hy := y.isLt
  rw [BitVec.msb_eq_decide, BitVec.msb_eq_decide, decide_eq_decide, BitVec.toInt_eq_toNat_cond,
    BitVec.toInt_eq_toNat_cond]
  split <;> split <;> omega

/-- The low halves are ordered as the words. -/
def OrderKept (signed : Bool) (x y : BitVec 64) : Prop :=
  if highHalf x = highHalf y then signed = true → (lowHalf x).msb = (lowHalf y).msb
  else wordValue signed (lowHalf x) < wordValue signed (lowHalf y) ↔
    wordValue signed (highHalf x) < wordValue signed (highHalf y)

theorem orderKept_iff (signed : Bool) (x y : BitVec 64) :
    (wordValue signed (lowHalf x) < wordValue signed (lowHalf y) ↔
      wordValue signed x < wordValue signed y) ↔ OrderKept signed x y := by
  rw [lt_halves_iff, OrderKept]
  split
  · next hhigh =>
    simp only [hhigh, lt_irrefl, true_and, false_or]
    cases signed with
    | true => simpa [wordValue] using toInt_order_iff (lowHalf x) (lowHalf y)
    | false => simp [wordValue]
  · next hhigh => simp only [hhigh, false_and, or_false]

/-- What the halves must satisfy for a comparison of the low ones to decide the words. -/
def SetpCmp.LowDecides (signed : Bool) : SetpCmp → BitVec 64 → BitVec 64 → Prop
  | .lt, x, y | .ge, x, y => OrderKept signed x y
  | .gt, x, y | .le, x, y => OrderKept signed y x
  | .eq, x, y | .ne, x, y => highHalf x = highHalf y ∨ lowHalf x ≠ lowHalf y

theorem SetpCmp.lowDecides_iff (cmp : SetpCmp) (signed : Bool) (x y : BitVec 64) :
    (cmp.Relates (wordValue signed (lowHalf x)) (wordValue signed (lowHalf y)) ↔
      cmp.Relates (wordValue signed x) (wordValue signed y)) ↔ cmp.LowDecides signed x y := by
  have heq : ((lowHalf x = lowHalf y) ↔ x = y) ↔
      (highHalf x = highHalf y ∨ lowHalf x ≠ lowHalf y) := by
    rw [eq_halves_iff]
    tauto
  cases cmp with
  | lt => exact orderKept_iff signed x y
  | gt => exact orderKept_iff signed y x
  | ge => simpa only [Relates, LowDecides, ← not_lt, not_iff_not] using orderKept_iff signed x y
  | le => simpa only [Relates, LowDecides, ← not_lt, not_iff_not] using orderKept_iff signed y x
  | eq => simpa only [Relates, LowDecides, wordValue_inj] using heq
  | ne => simpa only [Relates, LowDecides, wordValue_inj, ne_eq, not_iff_not] using heq

/-! ### The law -/

theorem setpCmp_of_flags {flags : List String} {cmp : SetpCmp}
    (hflags : ∀ c : SetpCmp, hasFlag flags c.flag = true ↔ c = cmp) : setpCmp flags = cmp := by
  have hle := hflags .le
  have hgt := hflags .gt
  have hge := hflags .ge
  have heq := hflags .eq
  have hne := hflags .ne
  simp only [SetpCmp.flag] at hle hgt hge heq hne
  unfold setpCmp
  simp only [hle, hgt, hge, heq, hne]
  cases cmp <;> rfl

/-- **SETP.** In a comparison that succeeds with one compare flag, each lane's predicate is the
named relation of its operands at the width and signedness of the type exactly when the type has 32
bits or the low halves of the operands decide it. -/
theorem setp_at_type_iff (F : FloatOps) (uop : MicroOp) (out a b : Operand) (w w' : WarpState)
    (sr : StepResult) (cmp : SetpCmp) (hop : uop.op = .setp)
    (hflags : ∀ c : SetpCmp, hasFlag uop.attrs.flags c.flag = true ↔ c = cmp)
    (hout : uop.outputs = [out]) (hin : uop.inputs = [a, b])
    (hstep : ExecCore.step F uop w = (.ok sr, w')) :
    ∀ lane, uop.RunsAt w lane → ∃ x y, readOperandLane a w lane = some x
      ∧ readOperandLane b w lane = some y
      ∧ ((w'.p.getD ((out.predId.toNat * w.active.width + lane) % 2 ^ 64) 0 ≠ 0 ↔
            cmp.Relates (uop.attrs.type.valueOf x) (uop.attrs.type.valueOf y)) ↔
          (uop.attrs.type.isWide = true → cmp.LowDecides uop.attrs.type.isSigned x y)) := by
  intro lane hlane
  obtain ⟨v, hvalue, hread⟩ :=
    (setp_simultaneous hlane.1 hop hstep lane hlane out (by simp [hout])).2 hop
  simp only [execValue, hop, hout, hin, setpCmp_of_flags hflags] at hvalue
  obtain ⟨pred, hpred, rfl⟩ := Option.map_eq_some_iff.mp hvalue
  unfold setpValue at hpred
  obtain ⟨x, hx, hpred⟩ := Option.bind_eq_some_iff.mp hpred
  obtain ⟨y, hy, hpred⟩ := Option.bind_eq_some_iff.mp hpred
  obtain rfl := Option.some.inj hpred
  refine ⟨x, y, hx, hy, ?_⟩
  have hcode : w'.p.getD ((out.predId.toNat * w.active.width + lane) % 2 ^ 64) 0 ≠ 0 ↔
      cmp.Relates (wordValue uop.attrs.type.isSigned (lowHalf x))
        (wordValue uop.attrs.type.isSigned (lowHalf y)) := by
    rw [hread, ← SetpCmp.holds_iff, ValueType.isSigned, lowHalf, lowHalf]
    split <;> simp_all
  rw [hcode, ValueType.valueOf, ValueType.valueOf]
  cases hwide : uop.attrs.type.isWide with
  | true => simpa using cmp.lowDecides_iff uop.attrs.type.isSigned x y
  | false => simp [lowHalf]

/-- `setp.eq.u64` of `2 ^ 32` and `0`, from immediates. -/
def setpEqU64Uop : MicroOp where
  op := .setp
  outputs := [{ kind := .pred, predId := 0 }]
  inputs := [{ kind := .imm, immI64 := 4294967296 }, { kind := .imm, immI64 := 0 }]
  attrs := { type := .u64, flags := ["eq"] }
  guard := laneMaskAll 1

def onePredWarp : WarpState where
  active := laneMaskAll 1
  p := [0]

theorem setpEqU64_flags (c : SetpCmp) :
    hasFlag setpEqU64Uop.attrs.flags c.flag = true ↔ c = .eq := by
  cases c <;> decide

theorem setp_at_type_iff_eq_u64 :
    ∃ x y, readOperandLane { kind := .imm, immI64 := 4294967296 } onePredWarp 0 = some x
      ∧ readOperandLane { kind := .imm, immI64 := 0 } onePredWarp 0 = some y
      ∧ (((ExecCore.step .unused setpEqU64Uop onePredWarp).2.p.getD 0 0 ≠ 0 ↔
            SetpCmp.eq.Relates (ValueType.u64.valueOf x) (ValueType.u64.valueOf y)) ↔
          SetpCmp.eq.LowDecides false x y) := by
  obtain ⟨x, y, hx, hy, hiff⟩ := setp_at_type_iff .unused setpEqU64Uop _ _ _ onePredWarp _
    { progressed := true } .eq rfl setpEqU64_flags rfl rfl rfl 0 ⟨rfl, by decide⟩
  exact ⟨x, y, hx, hy, hiff.trans ⟨fun h => h rfl, fun h _ => h⟩⟩

/-- The comparison holds, of two words that differ. -/
theorem setp_eq_u64_drops_upper_half :
    (ExecCore.step .unused setpEqU64Uop onePredWarp).1 = .ok { progressed := true }
      ∧ setpEqU64Uop.RunsAt onePredWarp 0
      ∧ (ExecCore.step .unused setpEqU64Uop onePredWarp).2.p.getD 0 0 ≠ 0
      ∧ ¬ SetpCmp.eq.Relates (ValueType.u64.valueOf 4294967296) (ValueType.u64.valueOf 0) := by
  refine ⟨rfl, ⟨rfl, by decide⟩, by decide, ?_⟩
  unfold SetpCmp.Relates
  decide

end ProtoGpu

import ProtoGpu.Proof.Simultaneity
import Mathlib.Data.BitVec
import Mathlib.Tactic.Ring

/-!
# Integer ADD and MUL at the width of their type

One ADD adds whole words and one MUL multiplies the extended low halves of its operands, for all
four integer types and both destination banks. A sum is right except for a 32-bit type into a 64-bit
register, where the carry stays; a product of a 32-bit type is always right. A product of a 64-bit
type is right exactly when what the halves leave of the operands cancels.
-/

namespace ProtoGpu

open LocalLoop CellLoop

/-! ### What the results should be -/

def ValueType.isSigned (type : ValueType) : Bool := type = .s32 ∨ type = .s64

/-- The sum modulo `2 ^ width`. -/
def SumAtWidth (type : ValueType) (x y r : BitVec 64) : Prop :=
  r.toNat = (x.toNat + y.toNat) % 2 ^ (8 * typeSize type)

/-- The product of the whole words for a 64-bit type. For a 32-bit type the low word of the product
in a 32-bit register, and in a 64-bit one the exact product at the signedness of the type. -/
def ProductAtWidth (type : ValueType) (wideOut : Bool) (x y r : BitVec 64) : Prop :=
  if type.isWide then r.toNat = x.toNat * y.toNat % 2 ^ 64
  else if wideOut = false then r.toNat = (x.setWidth 32).toNat * (y.setWidth 32).toNat % 2 ^ 32
  else if type.isSigned then r.toInt = (x.setWidth 32).toInt * (y.setWidth 32).toInt
  else r.toNat = (x.setWidth 32).toNat * (y.setWidth 32).toNat

/-! ### The halves of a word -/

/-- The low half of a word, extended. -/
def extendLow (signed : Bool) (v : BitVec 64) : BitVec 64 :=
  if signed then (v.setWidth 32).signExtend 64 else (v.setWidth 32).setWidth 64

/-- What the extended low half leaves of a word: the upper half, less the sign it extends. -/
def lostHalf (signed : Bool) (v : BitVec 64) : BitVec 32 :=
  (v >>> 32).setWidth 32 - (extendLow signed v >>> 32).setWidth 32

theorem setWidth_extendLow (signed : Bool) (v : BitVec 64) :
    (extendLow signed v).setWidth 32 = v.setWidth 32 := by
  unfold extendLow
  cases signed with
  | true =>
      apply BitVec.eq_of_getLsbD_eq
      intro i hi
      rw [if_pos rfl, BitVec.getLsbD_setWidth, BitVec.getLsbD_signExtend]
      simp [hi, show i < 64 by omega]
  | false => simp

theorem eq_extendLow_add (signed : Bool) (v : BitVec 64) :
    v = extendLow signed v + (lostHalf signed v).setWidth 64 <<< 32 := by
  have hlow := congrArg BitVec.toNat (setWidth_extendLow signed v)
  unfold lostHalf
  generalize extendLow signed v = e at hlow
  rw [BitVec.toNat_setWidth, BitVec.toNat_setWidth] at hlow
  apply BitVec.eq_of_toNat_eq
  rw [BitVec.toNat_add, BitVec.toNat_shiftLeft, BitVec.toNat_setWidth, BitVec.toNat_sub,
    BitVec.toNat_setWidth, BitVec.toNat_setWidth, BitVec.toNat_ushiftRight,
    BitVec.toNat_ushiftRight]
  simp only [Nat.shiftRight_eq_div_pow, Nat.shiftLeft_eq]
  have hv := v.isLt
  have he := e.isLt
  omega

/-- A word times `2 ^ 32` vanishes when its low half does. -/
theorem shiftLeft_eq_zero_iff {z : BitVec 64} : z <<< 32 = 0 ↔ z.setWidth 32 = 0 := by
  rw [← BitVec.toNat_inj, ← BitVec.toNat_inj, BitVec.toNat_shiftLeft, BitVec.toNat_setWidth,
    Nat.shiftLeft_eq]
  change z.toNat * 2 ^ 32 % 2 ^ 64 = 0 ↔ z.toNat % 2 ^ 32 = 0
  omega

/-- The product of the extended low halves is that of the words when the cross terms cancel. -/
theorem mul_extendLow_eq_iff (signed : Bool) (x y : BitVec 64) :
    extendLow signed x * extendLow signed y = x * y ↔
      lostHalf signed x * y.setWidth 32 + x.setWidth 32 * lostHalf signed y = 0 := by
  have hx := eq_extendLow_add signed x
  have hy := eq_extendLow_add signed y
  have hxlow := setWidth_extendLow signed x
  have hylow := setWidth_extendLow signed y
  generalize extendLow signed x = ex at hx hxlow
  generalize extendLow signed y = ey at hy hylow
  generalize lostHalf signed x = lx at hx
  generalize lostHalf signed y = ly at hy
  have hsquare : BitVec.twoPow 64 32 * BitVec.twoPow 64 32 = 0 := by decide
  have hproduct : x * y = ex * ey + (lx.setWidth 64 * ey + ex * ly.setWidth 64) <<< 32 := by
    rw [BitVec.shiftLeft_eq_mul_twoPow] at hx hy ⊢
    calc x * y = ex * ey + (lx.setWidth 64 * ey + ex * ly.setWidth 64) * BitVec.twoPow 64 32
          + lx.setWidth 64 * ly.setWidth 64 * (BitVec.twoPow 64 32 * BitVec.twoPow 64 32) := by
          rw [hx, hy]
          ring
      _ = _ := by rw [hsquare, mul_zero, add_zero]
  have hlow : (lx.setWidth 64 * ey + ex * ly.setWidth 64).setWidth 32
      = lx * y.setWidth 32 + x.setWidth 32 * ly := by
    rw [BitVec.setWidth_add _ _ (by decide), BitVec.setWidth_mul _ _ (by decide),
      BitVec.setWidth_mul _ _ (by decide), hxlow, hylow]
    simp
  rw [hproduct, left_eq_add, shiftLeft_eq_zero_iff, hlow]

/-! ### The results -/

theorem mulInt_eq (signed wideOut : Bool) (x y : BitVec 64) :
    mulInt signed wideOut x y
      = bankValue wideOut (extendLow signed x * extendLow signed y) := by
  unfold mulInt bankValue extendLow
  cases signed <;> rfl

theorem sumAtWidth_iff {type : ValueType} {wideOut : Bool}
    (hwide : type.isWide = true → wideOut = true) (x y : BitVec 64) :
    SumAtWidth type x y (bankValue wideOut (x + y)) ↔
      type.isWide = wideOut ∨ (x.toNat + y.toNat) % 2 ^ 64 < 2 ^ 32 := by
  unfold SumAtWidth bankValue
  cases hbank : type.isWide with
  | true =>
      have hsize : typeSize type = 8 := by
        cases type <;> simp_all [ValueType.isWide, typeSize]
      simp [hwide hbank, hsize, BitVec.toNat_add]
  | false =>
      have hsize : typeSize type = 4 := by
        cases type <;> simp_all [ValueType.isWide, typeSize]
      rw [hsize]
      cases wideOut with
      | true =>
          simp only [if_true, BitVec.toNat_add, Bool.false_eq_true, false_or]
          omega
      | false =>
          simp only [Bool.false_eq_true, if_false, true_or, iff_true, BitVec.toNat_setWidth,
            BitVec.toNat_add]
          omega

/-- The exact product of two 32-bit integers fits 64 bits. -/
theorem toInt_mul_signExtend (x y : BitVec 32) :
    (x.signExtend 64 * y.signExtend 64).toInt = x.toInt * y.toInt := by
  have hx := BitVec.toInt_lt (x := x)
  have hx' := BitVec.le_toInt x
  have hy := BitVec.toInt_lt (x := y)
  have hy' := BitVec.le_toInt y
  rw [BitVec.toInt_mul, BitVec.toInt_signExtend_of_le (by decide),
    BitVec.toInt_signExtend_of_le (by decide)]
  have habs : |x.toInt * y.toInt| ≤ 2 ^ 31 * 2 ^ 31 := by
    rw [abs_mul]
    exact mul_le_mul (abs_le.mpr ⟨by omega, by omega⟩) (abs_le.mpr ⟨by omega, by omega⟩)
      (abs_nonneg _) (by norm_num)
  obtain ⟨hlow, hhigh⟩ := abs_le.mp habs
  apply Int.bmod_eq_of_le <;> omega

theorem toNat_mul_setWidth (x y : BitVec 32) :
    (x.setWidth 64 * y.setWidth 64 : BitVec 64).toNat = x.toNat * y.toNat := by
  have hlt : x.toNat * y.toNat < 2 ^ 64 :=
    calc x.toNat * y.toNat < 2 ^ 32 * 2 ^ 32 := Nat.mul_lt_mul'' x.isLt y.isLt
      _ = 2 ^ 64 := by norm_num
  rw [BitVec.toNat_mul, BitVec.toNat_setWidth_of_le (by decide),
    BitVec.toNat_setWidth_of_le (by decide), Nat.mod_eq_of_lt hlt]

theorem productAtWidth_iff {type : ValueType} {wideOut : Bool}
    (hwide : type.isWide = true → wideOut = true) (x y : BitVec 64) :
    ProductAtWidth type wideOut x y
        (bankValue wideOut (extendLow type.isSigned x * extendLow type.isSigned y)) ↔
      (type.isWide = true → lostHalf type.isSigned x * y.setWidth 32
        + x.setWidth 32 * lostHalf type.isSigned y = 0) := by
  unfold ProductAtWidth
  cases hbank : type.isWide with
  | true =>
      rw [if_pos rfl, hwide hbank, bankValue, if_pos rfl, ← BitVec.toNat_mul, BitVec.toNat_inj,
        mul_extendLow_eq_iff]
      simp
  | false =>
      simp only [Bool.false_eq_true, if_false, false_implies, iff_true]
      cases wideOut with
      | false =>
          simp only [if_true, bankValue, Bool.false_eq_true, if_false]
          rw [BitVec.setWidth_mul _ _ (by decide), setWidth_extendLow, setWidth_extendLow,
            BitVec.toNat_setWidth, BitVec.toNat_mul, Nat.mod_eq_of_lt]
          exact (Nat.mod_lt _ (by decide)).trans (by decide)
      | true =>
          simp only [Bool.true_eq_false, if_false, bankValue, if_true, extendLow]
          cases type.isSigned with
          | true => exact toInt_mul_signExtend _ _
          | false => exact toNat_mul_setWidth _ _

/-! ### The operands of a turn -/

section Turn

variable {F : FloatOps} {uop : MicroOp} {out a b : Operand} {w w' : WarpState} {sr : StepResult}
  {lane : Nat}

/-- The state a micro-op has reached at a lane's turn. -/
def turnState (F : FloatOps) (uop : MicroOp) (out : Operand) (w : WarpState) (lane : Nat) :
    WarpState :=
  (laneLoopFrom (uop.execMask w)
    (writeLane out fun s l => orFault specialUnknown (execValue F uop (uop.execMask w) s l))
    (List.range lane) w).2

/-- The words a lane's turn reads. Where no row wraps they are those of the state before. -/
structure TurnReads (F : FloatOps) (uop : MicroOp) (out a b : Operand) (w : WarpState) (lane : Nat)
    (x y : BitVec 64) : Prop where
  left : readOperandLane a (turnState F uop out w lane) lane = some x
  right : readOperandLane b (turnState F uop out w lane) lane = some y
  before : out.Aligned w.active.width → a.Aligned w.active.width → b.Aligned w.active.width →
    readOperandLane a w lane = some x ∧ readOperandLane b w lane = some y

theorem execStep_turn (hreads : uop.op.readsDuringLoop = true)
    (hout : uop.outputs = [out]) (hkind : out.kind = .reg) (hlane : uop.RunsAt w lane)
    (hstep : ExecCore.step F uop w = (.ok sr, w')) :
    ∃ v lanes, execValue F uop (uop.execMask w) (turnState F uop out w lane) lane = some v
      ∧ readRegLane out w' lane = bankValue out.type.isWide v
      ∧ (∀ l ∈ lanes, l < lane) ∧ WroteLanes out lanes w (turnState F uop out w lane) := by
  have hop : uop.op ≠ .setp := by
    intro hsetp
    rw [hsetp] at hreads
    cases hreads
  obtain ⟨out', hout', hrun⟩ := execStep_loop hop hlane.1 hstep
  obtain rfl : out = out' := List.singleton_inj.mp (hout.symm.trans hout')
  simp only [hreads, if_true] at hrun
  have hloop := (laneLoop_eq_forEach _ _ _).trans hrun
  obtain ⟨t, v, ht, hv, hread⟩ := writeLoop_turn hkind
    (show (uop.execMask w).width = w.active.width from rfl) hlane.2 hloop
  have hstate : turnState F uop out w lane = t := congrArg Prod.snd ht
  rw [laneLoopFrom_eq_forEach] at ht
  have hlanes : ∀ l ∈ (List.range lane).filter (laneMaskTest (uop.execMask w)),
      l < lane ∧ laneMaskTest (uop.execMask w) l = true := by
    intro l hl
    rwa [List.mem_filter, List.mem_range] at hl
  rw [hstate]
  exact ⟨v, _, orFault_ok_iff.mp hv, hread, fun l hl => (hlanes l hl).1,
    writeRun_wrote (fun l hl => (laneMaskTest_lt (hlanes l hl).2).1) ht⟩

/-- The lower lanes write no entry of this lane's row. -/
theorem readOperandLane_of_wrote {o : Operand} {s : WarpState} {lanes : List Nat}
    (hwrote : WroteLanes out lanes w s) (hlanes : ∀ l ∈ lanes, l < lane)
    (hlane : lane < w.active.width) (hout : out.Aligned w.active.width)
    (ho : o.Aligned w.active.width) : readOperandLane o s lane = readOperandLane o w lane := by
  refine readOperandLane_of_onlyRegs hwrote.onlyRegs
    (hwrote.readRegLane_eq hlane fun hkind l hl hstored => ?_)
  have hlt := hlanes l hl
  have heq := hstored.of_aligned hout (fun hreg => ho.1 (.inl hreg)) hkind (by omega) hlane
  omega

theorem binaryValue_some {f : BitVec 64 → BitVec 64 → BitVec 64} {s : WarpState} {v : BitVec 64}
    (h : binaryValue f a b s lane = some v) :
    ∃ x y, readOperandLane a s lane = some x ∧ readOperandLane b s lane = some y ∧ v = f x y := by
  unfold binaryValue at h
  obtain ⟨x, hx, h⟩ := Option.bind_eq_some_iff.mp h
  obtain ⟨y, hy, h⟩ := Option.bind_eq_some_iff.mp h
  exact ⟨x, y, hx, hy, (Option.some.inj h).symm⟩

/-- A micro-op of two operands applies its function to the words its turn reads. -/
theorem binaryStep_turn {f : BitVec 64 → BitVec 64 → BitVec 64}
    (hreads : uop.op.readsDuringLoop = true) (hout : uop.outputs = [out]) (hkind : out.kind = .reg)
    (hvalue : ∀ s l, execValue F uop (uop.execMask w) s l = binaryValue f a b s l)
    (hlane : uop.RunsAt w lane) (hstep : ExecCore.step F uop w = (.ok sr, w')) :
    ∃ x y, TurnReads F uop out a b w lane x y
      ∧ readRegLane out w' lane = bankValue out.type.isWide (f x y) := by
  obtain ⟨v, lanes, hv, hread, hlanes, hwrote⟩ :=
    execStep_turn hreads hout hkind hlane hstep
  rw [hvalue] at hv
  obtain ⟨x, y, hx, hy, rfl⟩ := binaryValue_some hv
  have hwidth := (laneMaskTest_lt hlane.2).1
  refine ⟨x, y, ⟨hx, hy, fun hout ha hb => ?_⟩, hread⟩
  rw [← readOperandLane_of_wrote hwrote hlanes hwidth hout ha,
    ← readOperandLane_of_wrote hwrote hlanes hwidth hout hb]
  exact ⟨hx, hy⟩

end Turn

/-! ### The law -/

/-- **Integer ADD and MUL.** In a micro-op that succeeds each lane's sum is right exactly when it is
one of the type's own width, or carries nothing into a 64-bit register. A product of a 32-bit type
is right, and one of a 64-bit type exactly when the cross terms of the dropped halves cancel. -/
theorem integer_width_iff (F : FloatOps) (uop : MicroOp) (out a b : Operand) (w w' : WarpState)
    (sr : StepResult) (hop : uop.op = .add ∨ uop.op = .mul) (htype : uop.attrs.type ≠ .f32)
    (hout : uop.outputs = [out]) (hin : uop.inputs = [a, b]) (hkind : out.kind = .reg)
    (hwide : uop.attrs.type.isWide = true → out.type.isWide = true)
    (hstep : ExecCore.step F uop w = (.ok sr, w')) :
    ∀ lane, uop.RunsAt w lane → ∃ x y, TurnReads F uop out a b w lane x y
      ∧ (uop.op = .add → (SumAtWidth uop.attrs.type x y (readRegLane out w' lane) ↔
          uop.attrs.type.isWide = out.type.isWide ∨ (x.toNat + y.toNat) % 2 ^ 64 < 2 ^ 32))
      ∧ (uop.op = .mul →
          (ProductAtWidth uop.attrs.type out.type.isWide x y (readRegLane out w' lane) ↔
            (uop.attrs.type.isWide = true →
              lostHalf uop.attrs.type.isSigned x * y.setWidth 32
                + x.setWidth 32 * lostHalf uop.attrs.type.isSigned y = 0))) := by
  intro lane hlane
  rcases hop with hop | hop
  · have hvalue : ∀ s l, execValue F uop (uop.execMask w) s l = binaryValue (· + ·) a b s l := by
      intro s l
      simp only [execValue, hop, hout, hin, if_neg htype]
    obtain ⟨x, y, hreads, hread⟩ :=
      binaryStep_turn (by rw [hop]; rfl) hout hkind hvalue hlane hstep
    refine ⟨x, y, hreads, fun _ => ?_, fun hmul => by rw [hop] at hmul; cases hmul⟩
    rw [hread]
    exact sumAtWidth_iff hwide x y
  · have hvalue : ∀ s l, execValue F uop (uop.execMask w) s l
        = binaryValue (mulInt uop.attrs.type.isSigned out.type.isWide) a b s l := by
      intro s l
      simp only [execValue, hop, hout, hin, if_neg htype, ValueType.isSigned]
    obtain ⟨x, y, hreads, hread⟩ :=
      binaryStep_turn (by rw [hop]; rfl) hout hkind hvalue hlane hstep
    refine ⟨x, y, hreads, fun hadd => (by rw [hop] at hadd; cases hadd), fun _ => ?_⟩
    have hbank : ∀ v, bankValue out.type.isWide (bankValue out.type.isWide v)
        = bankValue out.type.isWide v := by
      intro v
      unfold bankValue
      split <;> simp
    rw [hread, mulInt_eq, hbank]
    exact productAtWidth_iff hwide x y

/-- `mul.u64` of `2 ^ 32` and `1`, from immediates. -/
def mulU64Uop : MicroOp where
  op := .mul
  outputs := [{ kind := .reg, type := .u64, regId := 0 }]
  inputs := [{ kind := .imm, immI64 := 4294967296 }, { kind := .imm, immI64 := 1 }]
  attrs := { type := .u64 }
  guard := laneMaskAll 1

def oneLaneWarp : WarpState where
  active := laneMaskAll 1
  rU64 := [7]

theorem integer_width_iff_mul_u64 :
    ∃ x y, TurnReads .unused mulU64Uop { kind := .reg, type := .u64, regId := 0 }
        { kind := .imm, immI64 := 4294967296 } { kind := .imm, immI64 := 1 } oneLaneWarp 0 x y
      ∧ (ProductAtWidth .u64 true x y 0 ↔
        lostHalf false x * y.setWidth 32 + x.setWidth 32 * lostHalf false y = 0) := by
  obtain ⟨x, y, hreads, -, hmul⟩ := integer_width_iff .unused mulU64Uop _ _ _ oneLaneWarp _
    { progressed := true } (.inr rfl) (by decide) rfl rfl rfl (fun _ => rfl) rfl 0
    ⟨rfl, by decide⟩
  exact ⟨x, y, hreads, (hmul rfl).trans ⟨fun h => h rfl, fun h _ => h⟩⟩

/-- The product is `0`. -/
theorem mul_u64_drops_upper_half :
    (ExecCore.step .unused mulU64Uop oneLaneWarp).1 = .ok { progressed := true }
      ∧ mulU64Uop.RunsAt oneLaneWarp 0
      ∧ readOperandLane { kind := .imm, immI64 := 4294967296 } oneLaneWarp 0 = some 4294967296
      ∧ readOperandLane { kind := .imm, immI64 := 1 } oneLaneWarp 0 = some 1
      ∧ ¬ ProductAtWidth .u64 true 4294967296 1
        (readRegLane { kind := .reg, type := .u64, regId := 0 }
          (ExecCore.step .unused mulU64Uop oneLaneWarp).2 0) := by
  refine ⟨rfl, ⟨rfl, by decide⟩, rfl, rfl, ?_⟩
  unfold ProductAtWidth
  decide

end ProtoGpu

import Mathlib

/-!
# The shared contracts

The value types every part of the simulator exchanges (`contracts.h`, `contracts.cpp`): diagnostics,
launch shapes, lane masks, operands, instructions and micro-ops. A register number, an immediate and
a program counter are `Int`, the source's `int64_t`; a data word is a `BitVec`; a 32-bit count that
the code never lets overflow is a `Nat`, and where it can overflow the reduction is written out.
-/

namespace ProtoGpu

structure SourceLocation where
  file : String
  line : Int := 0
  column : Int := 0
deriving DecidableEq, Repr

structure Diagnostic where
  module : String
  code : String
  message : String
  location : Option SourceLocation := none
  function : Option String := none
  instIndex : Option Int := none
deriving DecidableEq, Repr

/-- How an operation of the simulator ends early. The code reports a `Diagnostic`, throws what a
vector's `resize` throws, or uses a subscript past the end of a vector, behind which nothing is
known: what the state is afterwards is then not the state beside the fault. -/
inductive Fault where
  | diag (d : Diagnostic)
  | host
  | undefined
deriving DecidableEq, Repr

inductive AddrSpace where
  | global | shared | localMem | const | param
deriving DecidableEq, Repr

inductive ValueType where
  | u32 | s32 | u64 | s64 | f32
deriving DecidableEq, Repr

/-- The types whose registers live in the 64-bit bank. -/
def ValueType.isWide : ValueType → Bool
  | .u64 | .s64 => true
  | _ => false

structure LaneMask where
  width : Nat := 32
  bitsLo : BitVec 32 := BitVec.allOnes 32
deriving DecidableEq, Repr

@[ext]
structure Dim3 where
  x : BitVec 32 := 1
  y : BitVec 32 := 1
  z : BitVec 32 := 1
deriving DecidableEq, Repr

structure LaunchConfig where
  gridDim : Dim3 := {}
  blockDim : Dim3 := {}
  warpSize : Nat := 32
deriving DecidableEq, Repr

inductive OperandKind where
  | reg | pred | imm | addr | symbol | special
deriving DecidableEq, Repr

structure Operand where
  kind : OperandKind := .imm
  type : ValueType := .u32
  regId : Int := -1
  predId : Int := -1
  immI64 : Int := 0
  symbol : String := ""
  special : String := ""
deriving DecidableEq, Repr

structure PredGuard where
  predId : Int := -1
  isNegated : Bool := false
deriving DecidableEq, Repr

structure InstMods where
  typeMod : String := ""
  space : String := ""
  flags : List String := []
deriving DecidableEq, Repr

structure InstRecord where
  opcode : String
  mods : InstMods := {}
  pred : Option PredGuard := none
  operands : List Operand := []
  dbg : Option SourceLocation := none
deriving DecidableEq, Repr

inductive MicroOpKind where
  | exec | control | mem
deriving DecidableEq, Repr

inductive MicroOpOp where
  | mov | cvt | add | mul | shl | shfl | fma | warpReduceAdd | setp | ld | st | bra | ret
deriving DecidableEq, Repr

structure MicroOpAttrs where
  type : ValueType := .u32
  space : AddrSpace := .global
  flags : List String := []
deriving DecidableEq, Repr

structure MicroOp where
  kind : MicroOpKind := .exec
  op : MicroOpOp := .mov
  inputs : List Operand := []
  outputs : List Operand := []
  attrs : MicroOpAttrs := {}
  guard : LaneMask := {}
deriving DecidableEq, Repr

/-- The part of `StepResult` a step without a diagnostic fills in; a step that sets `diag` is an
`Except.error`. -/
structure StepResult where
  progressed : Bool := false
  warpDone : Bool := false
  nextPc : Option Int := none
deriving DecidableEq, Repr

/-! ### Lane masks -/

def laneMaskAll (warpSize : Nat) : LaneMask where
  width := warpSize
  bitsLo :=
    if warpSize ≥ 32 then BitVec.allOnes 32
    else if warpSize = 0 then 0#32
    else (1#32 <<< warpSize) - 1#32

def laneMaskAnd (a b : LaneMask) : LaneMask where
  width := a.width
  bitsLo := a.bitsLo &&& b.bitsLo

def laneMaskTest (m : LaneMask) (lane : Nat) : Bool :=
  if lane ≥ m.width then false
  else if lane ≥ 32 then false
  else (m.bitsLo >>> lane &&& 1#32) != 0#32

def laneMaskOrSameWidth (a b : LaneMask) : LaneMask where
  width := a.width
  bitsLo := a.bitsLo ||| b.bitsLo

def laneMaskNotWidth (m : LaneMask) : LaneMask where
  width := m.width
  bitsLo :=
    if m.width ≥ 32 then ~~~m.bitsLo
    else
      let mask := if m.width = 0 then 0#32 else (1#32 <<< m.width) - 1#32
      ~~~m.bitsLo &&& mask

def laneMaskEmpty (m : LaneMask) : Bool := m.bitsLo == 0#32

def laneMaskPrefix (warpSize lanesOn : Nat) : LaneMask where
  width := warpSize
  bitsLo :=
    if warpSize = 0 then 0#32
    else if lanesOn ≥ 32 then BitVec.allOnes 32
    else if lanesOn = 0 then 0#32
    else (1#32 <<< lanesOn) - 1#32

/-- The lane's bit, whatever the width says. -/
def LaneMask.has (m : LaneMask) (lane : Nat) : Bool := m.bitsLo.getLsbD lane

theorem getLsbD_prefix {k lane : Nat} (hk : k < 32) :
    ((1#32 <<< k) - 1#32).getLsbD lane = decide (lane < k) := by
  have hlt : 2 ^ k < 2 ^ 32 := Nat.pow_lt_pow_right (by omega) hk
  have hpos : 1 ≤ 2 ^ k := Nat.one_le_two_pow
  have hofNat : (1#32 <<< k) - 1#32 = BitVec.ofNat 32 (2 ^ k - 1) := by
    apply BitVec.eq_of_toNat_eq
    simp [BitVec.toNat_sub, BitVec.toNat_shiftLeft, Nat.shiftLeft_eq]
    omega
  rw [hofNat]
  simp [BitVec.getLsbD_ofNat, Nat.testBit_two_pow_sub_one]
  omega

@[simp]
theorem laneMaskAnd_width (a b : LaneMask) : (laneMaskAnd a b).width = a.width := rfl

@[simp]
theorem laneMaskOrSameWidth_width (a b : LaneMask) :
    (laneMaskOrSameWidth a b).width = a.width := rfl

@[simp]
theorem laneMaskNotWidth_width (m : LaneMask) : (laneMaskNotWidth m).width = m.width := rfl

@[simp]
theorem laneMaskAll_width (warpSize : Nat) : (laneMaskAll warpSize).width = warpSize := rfl

@[simp]
theorem laneMaskPrefix_width (warpSize lanesOn : Nat) :
    (laneMaskPrefix warpSize lanesOn).width = warpSize := rfl

@[simp]
theorem has_laneMaskAnd (a b : LaneMask) (lane : Nat) :
    (laneMaskAnd a b).has lane = (a.has lane && b.has lane) := by
  simp [LaneMask.has, laneMaskAnd]

@[simp]
theorem has_laneMaskOrSameWidth (a b : LaneMask) (lane : Nat) :
    (laneMaskOrSameWidth a b).has lane = (a.has lane || b.has lane) := by
  simp [LaneMask.has, laneMaskOrSameWidth]

/-- Complementing inside the width, for the widths a warp can have. -/
theorem has_laneMaskNotWidth {m : LaneMask} (hw : m.width ≤ 32) (lane : Nat) :
    (laneMaskNotWidth m).has lane = (decide (lane < m.width) && !m.has lane) := by
  unfold laneMaskNotWidth LaneMask.has
  split
  · rw [BitVec.getLsbD_not, show m.width = 32 by omega]
  · split
    · simp_all
    · rw [BitVec.getLsbD_and, BitVec.getLsbD_not, getLsbD_prefix (by omega)]
      by_cases hlane : lane < m.width <;> simp [hlane]
      omega

theorem has_laneMaskAll {warpSize : Nat} (hw : warpSize ≤ 32) (lane : Nat) :
    (laneMaskAll warpSize).has lane = decide (lane < warpSize) := by
  unfold laneMaskAll LaneMask.has
  split
  · simp only [BitVec.getLsbD_allOnes]
    congr 1
    simp only [eq_iff_iff]
    omega
  · split
    · simp_all
    · exact getLsbD_prefix (by omega)

theorem has_laneMaskPrefix {warpSize lanesOn : Nat} (hw : 0 < warpSize) (hle : lanesOn ≤ 32)
    (lane : Nat) : (laneMaskPrefix warpSize lanesOn).has lane = decide (lane < lanesOn) := by
  unfold laneMaskPrefix LaneMask.has
  rw [if_neg (by omega)]
  split
  · simp only [BitVec.getLsbD_allOnes]
    congr 1
    simp only [eq_iff_iff]
    omega
  · split
    · simp_all
    · exact getLsbD_prefix (by omega)

theorem LaneMask.has_lt {m : LaneMask} {lane : Nat} (h : m.has lane = true) : lane < 32 :=
  BitVec.lt_of_getLsbD h

theorem laneMaskTest_eq (m : LaneMask) (lane : Nat) :
    laneMaskTest m lane = (decide (lane < m.width) && m.has lane) := by
  unfold laneMaskTest LaneMask.has
  by_cases hwidth : lane < m.width
  · by_cases h32 : lane < 32
    · rw [if_neg (by omega), if_neg (by omega)]
      simp only [hwidth, decide_true, Bool.true_and]
      cases hbit : m.bitsLo.getLsbD lane
      · have hzero : m.bitsLo >>> lane &&& 1#32 = 0#32 := by
          apply BitVec.eq_of_getLsbD_eq
          intro i hi
          by_cases hi0 : i = 0 <;> simp_all
        simp [hzero]
      · have hone : (m.bitsLo >>> lane &&& 1#32).getLsbD 0 = true := by simp [hbit]
        simp only [bne_iff_ne, ne_eq]
        intro hzero
        simp [hzero] at hone
    · rw [if_neg (by omega), if_pos (by omega), BitVec.getLsbD_of_ge _ _ (by omega)]
      simp
  · rw [if_pos (by omega)]
    simp [hwidth]

theorem laneMaskEmpty_iff {m : LaneMask} :
    laneMaskEmpty m = true ↔ ∀ lane, m.has lane = false := by
  simp only [laneMaskEmpty, beq_iff_eq, LaneMask.has]
  constructor
  · intro hzero lane
    simp [hzero]
  · intro hall
    apply BitVec.eq_of_getLsbD_eq
    intro i _
    simp [hall i]

theorem laneMaskEmpty_eq_false_iff {m : LaneMask} :
    laneMaskEmpty m = false ↔ ∃ lane, m.has lane = true := by
  rw [← Bool.not_eq_true, laneMaskEmpty_iff]
  simp

theorem LaneMask.ext_has {a b : LaneMask} (hwidth : a.width = b.width)
    (hhas : ∀ lane, a.has lane = b.has lane) : a = b := by
  obtain ⟨wa, ba⟩ := a
  obtain ⟨wb, bb⟩ := b
  simp only at hwidth
  subst hwidth
  congr 1
  apply BitVec.eq_of_getLsbD_eq
  intro i _
  exact hhas i

/-! ### Types -/

def parseValueType (typeMod : String) : ValueType :=
  if typeMod == "u32" then .u32
  else if typeMod == "s32" then .s32
  else if typeMod == "b32" then .u32
  else if typeMod == "u64" then .u64
  else if typeMod == "s64" then .s64
  else if typeMod == "b64" then .u64
  else if typeMod == "f32" then .f32
  else .u32

def operandKindToString : OperandKind → String
  | .reg => "reg"
  | .pred => "pred"
  | .imm => "imm"
  | .addr => "addr"
  | .symbol => "symbol"
  | .special => "special"

end ProtoGpu

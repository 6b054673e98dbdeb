import ProtoGpu.Proof.OperandKinds
import ProtoGpu.Proof.LaneWrites

/-!
# Where registers are stored

A register token becomes a bank and a number in three places: the prefix gives a class and, for
`%f`, a bias; the type modifier or the brackets of an address move a narrow register to the wide
bank; and the number is scaled by the warp size modulo `2 ^ 64`. Two tokens meet in one cell, or one
register is split over two, by what these three give.
-/

namespace ProtoGpu

open Json (isDigit)

/-- The entry of a bank an operand denotes for a lane. -/
structure RegCell where
  wide : Bool
  index : Nat
deriving DecidableEq

def Operand.cell (o : Operand) (warpSize lane : Nat) : RegCell where
  wide := o.type.isWide
  index := regLaneIndex o.regNo lane warpSize

/-- A register operand reads its cell. -/
theorem readRegLane_cell {o : Operand} {w : WarpState} {lane : Nat} (hkind : o.kind = .reg)
    (hlane : lane < w.active.width) :
    readRegLane o w lane
      = w.entry (o.cell w.active.width lane).wide (o.cell w.active.width lane).index :=
  readRegLane_eq_entry hkind hlane

/-- An address adds its offset to the word of its base's cell. -/
theorem evalAddrLane_cell {o : Operand} {w : WarpState} {lane : Nat} (htype : o.type = .u64)
    (hreg : 0 ≤ o.regId) (hlane : lane < w.active.width) :
    evalAddrLane o w lane
      = w.entry (o.cell w.active.width lane).wide (o.cell w.active.width lane).index
        + BitVec.ofInt 64 o.immI64 := by
  rw [evalAddrLane, if_pos hreg, readRegLane_eq_entry rfl hlane, Operand.cell, htype]
  rfl

/-! ### What a token denotes -/

/-- The register's text within a token of the kind. -/
def regText (kind : String) (tok : Text) : Text :=
  if kind = "addr" then cleanTok (addrBase (bracketInner (cleanTok tok))) else cleanTok tok

/-- The wide bank holds `%rd`, and what else stands in an address or, for `%r`, under a 64-bit
type. -/
def Register.usedWide (reg : Register) (kind typeMod : String) : Bool :=
  match reg.cls with
  | .rd => true
  | .r => kind == "addr" || typeMod == "u64" || typeMod == "s64" || typeMod == "b64"
  | .f => kind == "addr"

/-- The number in the bank. -/
def Register.storage (reg : Register) : Nat := reg.cls.bias + reg.number

theorem RegClass.digit_not_pfx {digits : Text} (hdigits : ∀ c ∈ digits, isDigit c = true)
    (rest : Text) : digits ≠ 'd' :: rest := by
  rintro rfl
  exact absurd (hdigits 'd' (by simp)) (by decide)

theorem Spells.unique {tok : Text} {reg reg' : Register} (h : Spells tok reg)
    (h' : Spells tok reg') : reg = reg' := by
  obtain ⟨cls, number⟩ := reg
  obtain ⟨cls', number'⟩ := reg'
  obtain ⟨digits, htok, -, hdigits, rfl⟩ := h
  obtain ⟨digits', htok', -, hdigits', rfl⟩ := h'
  rw [htok] at htok'
  have hr := RegClass.digit_not_pfx hdigits
  have hr' := RegClass.digit_not_pfx hdigits'
  cases cls <;> cases cls' <;> simp_all [RegClass.pfx]
  exact hr' digits htok'.symm

theorem promoteWide_isWide (typeMod : String) (cls : RegClass) (n : Int) :
    (promoteWide typeMod { kind := .reg, type := cls.type, regId := n }).type.isWide
      = Register.usedWide ⟨cls, 0⟩ "reg" typeMod := by
  unfold promoteWide Register.usedWide
  cases cls with
  | r =>
    cases hwide : typeMod == "u64" || typeMod == "s64" || typeMod == "b64" with
    | true => simp_all [RegClass.type, ValueType.isWide]
    | false => simp_all [RegClass.type, ValueType.isWide]
  | rd => simp [RegClass.type, ValueType.isWide]
  | f => simp [RegClass.type, ValueType.isWide]

theorem promoteWide_regId (typeMod : String) (o : Operand) :
    (promoteWide typeMod o).regId = o.regId := by
  unfold promoteWide
  split <;> rfl

theorem regNo_of_regId {o : Operand} {n : Nat} (ho : o.regId = (n : Int)) : o.regNo = n := by
  simp [Operand.regNo, ho]

/-- **Cells of tokens.** An accepted register token denotes the cell of its register's storage
number, in the bank of its use. -/
theorem parse_cell {kind typeMod : String} {tok : Text} {loc : Option SourceLocation} {op : Operand}
    {reg : Register} (hkind : kind = "reg" ∨ kind = "addr")
    (hparse : parseOperandByKind kind tok typeMod loc = .ok (.ok op))
    (hspells : Spells (regText kind tok) reg) (warpSize lane : Nat) :
    op.cell warpSize lane
      = { wide := reg.usedWide kind typeMod, index := regLaneIndex reg.storage lane warpSize } := by
  have hne := ne_nil_of_parse hparse
  rcases hkind with rfl | rfl
  · rw [regText, if_neg (by decide)] at hspells
    rw [parse_reg hne] at hparse
    obtain ⟨reg', hspells', -, hop⟩ := parseRegOperand_ok hparse
    obtain rfl : reg = reg' := hspells.unique hspells'
    have hno : op.regNo = reg.storage := by
      apply regNo_of_regId
      rw [hop, promoteWide_regId, Register.storage]
    rw [Operand.cell, hno, hop, promoteWide_isWide]
    rfl
  · rw [regText, if_pos rfl] at hspells
    rw [parse_addr hne] at hparse
    obtain ⟨-, off, hbase⟩ := parseAddrOperand_ok hparse
    obtain ⟨baseOp, hreg, hop⟩ := parseAddrBase_ok hbase
    obtain ⟨reg', hspells', -, hbaseOp⟩ := parseRegOperand_ok hreg
    obtain rfl : reg = reg' := hspells.unique hspells'
    have hno : op.regNo = reg.storage := by
      apply regNo_of_regId
      rw [hop, hbaseOp, promoteWide_regId, Register.storage]
    have hwide : reg.usedWide "addr" typeMod = true := by
      unfold Register.usedWide
      cases reg.cls <;> rfl
    rw [Operand.cell, hno, hwide, hop]
    rfl

/-- **Register storage.** Two accepted tokens denote one cell of a lane just when they spell one
register, exactly under this condition: the same register is used in one bank, and different
registers are used in different banks or have storage numbers that the scaling keeps apart. -/
theorem register_storage_iff {kind₁ kind₂ typeMod₁ typeMod₂ : String} {tok₁ tok₂ : Text}
    {loc₁ loc₂ : Option SourceLocation} {op₁ op₂ : Operand} {reg₁ reg₂ : Register}
    (hkind₁ : kind₁ = "reg" ∨ kind₁ = "addr") (hkind₂ : kind₂ = "reg" ∨ kind₂ = "addr")
    (hparse₁ : parseOperandByKind kind₁ tok₁ typeMod₁ loc₁ = .ok (.ok op₁))
    (hparse₂ : parseOperandByKind kind₂ tok₂ typeMod₂ loc₂ = .ok (.ok op₂))
    (hspells₁ : Spells (regText kind₁ tok₁) reg₁) (hspells₂ : Spells (regText kind₂ tok₂) reg₂)
    (warpSize lane : Nat) :
    (op₁.cell warpSize lane = op₂.cell warpSize lane ↔ reg₁ = reg₂) ↔
      (reg₁ = reg₂ → reg₁.usedWide kind₁ typeMod₁ = reg₂.usedWide kind₂ typeMod₂) ∧
        (reg₁ ≠ reg₂ → reg₁.usedWide kind₁ typeMod₁ = reg₂.usedWide kind₂ typeMod₂ →
          (reg₁.storage * warpSize + lane) % 2 ^ 64
            ≠ (reg₂.storage * warpSize + lane) % 2 ^ 64) := by
  rw [parse_cell hkind₁ hparse₁ hspells₁, parse_cell hkind₂ hparse₂ hspells₂, RegCell.mk.injEq,
    regLaneIndex, regLaneIndex]
  by_cases hreg : reg₁ = reg₂
  · subst hreg
    simp
  · simp [hreg]

theorem spells_r1 : Spells (regText "reg" "%r1".toList) ⟨.r, 1⟩ :=
  ⟨['1'], rfl, by simp, by simp [isDigit], rfl⟩

theorem spells_r2 : Spells (regText "reg" "%r2".toList) ⟨.r, 2⟩ :=
  ⟨['2'], rfl, by simp, by simp [isDigit], rfl⟩

theorem register_storage_iff_r1_r2 :
    ∃ op₁ op₂, parseOperandByKind "reg" "%r1".toList "u32" none = .ok (.ok op₁) ∧
      parseOperandByKind "reg" "%r2".toList "u32" none = .ok (.ok op₂) ∧
      op₁.cell 32 0 ≠ op₂.cell 32 0 := by
  have hparse₁ : parseOperandByKind "reg" "%r1".toList "u32" none
      = .ok (.ok { kind := .reg, type := .u32, regId := 1 }) := by rfl
  have hparse₂ : parseOperandByKind "reg" "%r2".toList "u32" none
      = .ok (.ok { kind := .reg, type := .u32, regId := 2 }) := by rfl
  have hiff := register_storage_iff (.inl rfl) (.inl rfl) hparse₁ hparse₂ spells_r1 spells_r2 32 0
  refine ⟨_, _, hparse₁, hparse₂, fun heq => ?_⟩
  have hsame := (hiff.mpr ⟨fun h => absurd h (by decide), fun _ _ => by decide⟩).mp heq
  exact absurd hsame (by decide)

/-- One cell for `%r1` and `%rd1` under a 64-bit type, one for `%f0` and `%r4096`, which read the
same there, and two for `%r1` under a 32-bit type and in an address. -/
theorem registers_share_cells :
    (∃ op₁ op₂, parseOperandByKind "reg" "%r1".toList "u64" none = .ok (.ok op₁) ∧
      parseOperandByKind "reg" "%rd1".toList "u64" none = .ok (.ok op₂) ∧
      op₁.cell 32 0 = op₂.cell 32 0) ∧
    (∃ op₁ op₂, parseOperandByKind "reg" "%f0".toList "f32" none = .ok (.ok op₁) ∧
      parseOperandByKind "reg" "%r4096".toList "u32" none = .ok (.ok op₂) ∧
      op₁.cell 32 0 = op₂.cell 32 0 ∧
      ∀ w : WarpState, w.active.width = 32 → readRegLane op₁ w 0 = readRegLane op₂ w 0) ∧
    ∃ op₁ op₂, parseOperandByKind "reg" "%r1".toList "u32" none = .ok (.ok op₁) ∧
      parseOperandByKind "addr" "[%r1]".toList "u32" none = .ok (.ok op₂) ∧
      op₁.cell 32 0 ≠ op₂.cell 32 0 ∧
      ∀ w : WarpState, w.active.width = 32 →
        readRegLane op₁ w 0 = w.entry false 32 ∧ evalAddrLane op₂ w 0 = w.entry true 32 := by
  refine ⟨⟨_, _, rfl, rfl, rfl⟩, ⟨_, _, rfl, rfl, rfl, fun w hw => ?_⟩,
    ⟨_, _, rfl, rfl, by decide, fun w hw => ⟨?_, ?_⟩⟩⟩
  · rw [readRegLane_cell rfl (hw ▸ Nat.zero_lt_succ 31),
      readRegLane_cell rfl (hw ▸ Nat.zero_lt_succ 31)]
    rfl
  · rw [readRegLane_cell rfl (hw ▸ Nat.zero_lt_succ 31), hw]
    rfl
  · rw [evalAddrLane_cell rfl (by decide) (hw ▸ Nat.zero_lt_succ 31), hw]
    exact BitVec.add_zero _

end ProtoGpu

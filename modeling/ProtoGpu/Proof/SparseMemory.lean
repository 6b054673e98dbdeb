import ProtoGpu.Units.MemUnit

/-!
# Sparse memory and little-endian words

What the byte maps hold after a store and what a load makes of them. A range may wrap at `2 ^ 64`;
an address is in it when its distance from the start is less than the size.
-/

namespace ProtoGpu

/-! ### Ranges -/

/-- `a` is one of the `size` addresses from `addr` on. -/
def InRange (addr : Addr) (size : Nat) (a : Addr) : Prop := (a - addr).toNat < size

instance (addr : Addr) (size : Nat) (a : Addr) : Decidable (InRange addr size a) :=
  inferInstanceAs (Decidable (_ < _))

theorem toNat_add_ofNat_sub (addr : Addr) {i : Nat} (hi : i < 2 ^ 64) :
    (addr + BitVec.ofNat 64 i - addr).toNat = i := by
  rw [BitVec.add_comm, BitVec.add_sub_cancel, BitVec.toNat_ofNat, Nat.mod_eq_of_lt hi]

theorem inRange_iff {addr a : Addr} {size : Nat} (hsize : size ≤ 2 ^ 64) :
    InRange addr size a ↔ ∃ i < size, a = addr + BitVec.ofNat 64 i := by
  constructor
  · intro h
    refine ⟨_, h, ?_⟩
    rw [BitVec.ofNat_toNat, BitVec.setWidth_eq]
    bv_omega
  · rintro ⟨i, hi, rfl⟩
    unfold InRange
    rwa [toNat_add_ofNat_sub addr (by omega)]

/-! ### Bytes -/

theorem writeSparse_apply (mem : SparseMem) (addr a : Addr) {bytes : List Byte}
    (hlength : bytes.length ≤ 2 ^ 64) :
    writeSparse mem addr bytes a =
      if InRange addr bytes.length a then some (bytes.getD (a - addr).toNat 0) else mem a := by
  induction bytes generalizing mem addr with
  | nil => simp [writeSparse, InRange]
  | cons b bytes ih =>
      rw [List.length_cons] at hlength
      rw [writeSparse, ih _ _ (by omega)]
      by_cases heq : a = addr
      · subst heq
        have hfirst : InRange a (b :: bytes).length a := by simp [InRange]
        have hrest : ¬ InRange (a + 1) bytes.length a := by
          unfold InRange
          bv_omega
        rw [if_neg hrest, if_pos hfirst, Function.update_self]
        simp
      · have hdist : (a - addr).toNat = (a - (addr + 1)).toNat + 1 := by bv_omega
        have hiff : InRange addr (b :: bytes).length a ↔ InRange (addr + 1) bytes.length a := by
          unfold InRange
          rw [hdist, List.length_cons, Nat.add_lt_add_iff_right]
        rw [hdist, Function.update_of_ne heq, List.getD_cons_succ]
        exact if_congr hiff.symm rfl rfl

theorem writeSparse_of_not_inRange (mem : SparseMem) (addr : Addr) {a : Addr} {bytes : List Byte}
    (hlength : bytes.length ≤ 2 ^ 64) (h : ¬ InRange addr bytes.length a) :
    writeSparse mem addr bytes a = mem a := by
  rw [writeSparse_apply mem addr a hlength, if_neg h]

theorem readSparse_congr {mem mem' : SparseMem} {addr : Addr} {size : Nat} (hsize : size ≤ 2 ^ 64)
    (h : ∀ a, InRange addr size a → (mem a).getD 0 = (mem' a).getD 0) :
    readSparse mem addr size = readSparse mem' addr size := by
  refine List.map_congr_left fun i hi => h _ ?_
  exact (inRange_iff hsize).mpr ⟨i, List.mem_range.mp hi, rfl⟩

theorem length_readSparse (mem : SparseMem) (addr : Addr) (size : Nat) :
    (readSparse mem addr size).length = size := by
  simp [readSparse]

theorem getD_readSparse (mem : SparseMem) (addr : Addr) {size i : Nat} (hi : i < size) :
    (readSparse mem addr size).getD i 0 = (mem (addr + BitVec.ofNat 64 i)).getD 0 := by
  simp [readSparse, List.getD_eq_getElem?_getD, List.getElem?_map, List.getElem?_range hi]

/-! ### Words -/

theorem length_packLe (v : BitVec 64) (size : Nat) : (packLe v size).length = size := by
  simp [packLe]

theorem getD_packLe (v : BitVec 64) {size i : Nat} (hi : i < size) :
    (packLe v size).getD i 0 = (v >>> (8 * i)).setWidth 8 := by
  simp [packLe, List.getD_eq_getElem?_getD, List.getElem?_map, List.getElem?_range hi]

/-- Bit `k` of a word is bit `k % 8` of byte `k / 8`. -/
theorem getLsbD_unpackLe (bytes : List Byte) (k : Nat) :
    (unpackLe bytes).getLsbD k = (decide (k < 64) && (bytes.getD (k / 8) 0).getLsbD (k % 8)) := by
  induction bytes generalizing k with
  | nil => simp [unpackLe]
  | cons b bytes ih =>
      rw [unpackLe, BitVec.getLsbD_or, BitVec.getLsbD_setWidth, BitVec.getLsbD_shiftLeft]
      by_cases hlow : k < 8
      · rw [Nat.div_eq_of_lt hlow, Nat.mod_eq_of_lt hlow, List.getD_cons_zero]
        simp [hlow]
      · obtain ⟨k', rfl⟩ : ∃ k', k = k' + 8 := ⟨k - 8, by omega⟩
        rw [ih, Nat.add_sub_cancel, Nat.add_div_right _ (by omega), Nat.add_mod_right,
          List.getD_cons_succ, BitVec.getLsbD_of_ge b _ (by omega)]
        by_cases hk : k' + 8 < 64
        · simp [hk, show k' < 64 by omega]
        · simp [hk]

/-- The low `size` bytes of a word. -/
def lowBytes (v : BitVec 64) (size : Nat) : BitVec 64 := BitVec.ofNat 64 (v.toNat % 2 ^ (8 * size))

theorem unpackLe_packLe (v : BitVec 64) (size : Nat) :
    unpackLe (packLe v size) = lowBytes v size := by
  apply BitVec.eq_of_getLsbD_eq
  intro k hk
  rw [getLsbD_unpackLe, lowBytes, BitVec.getLsbD_ofNat, Nat.testBit_mod_two_pow,
    ← BitVec.getLsbD]
  by_cases hsize : k / 8 < size
  · rw [getD_packLe v hsize, BitVec.getLsbD_setWidth, BitVec.getLsbD_ushiftRight, Nat.div_add_mod]
    simp [hk, show k < 8 * size by omega, show k % 8 < 8 by omega]
  · rw [List.getD_eq_default _ _ (by rw [length_packLe]; omega)]
    simp [show ¬ k < 8 * size by omega]

theorem typeSize_le (t : ValueType) : typeSize t = 4 ∨ typeSize t = 8 := by
  cases t <;> simp [typeSize]

end ProtoGpu

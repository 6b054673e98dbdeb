import ProtoGpu.Proof.PostDominators
import ProtoGpu.Simt.BitSet

/-!
# The iteration on words

A set in words stands for its bits up to its size, and the bits behind are clear. So words that
stand for the same bits are equal, and the iteration on words makes the steps of the iteration on
bits.
-/

namespace ProtoGpu

namespace WordSet

/-- The bits of the set. -/
def bits (b : WordSet) : BitSet := (List.range b.n).map b.test

/-- As many words as the size asks for, and nothing behind it. -/
structure Ok (n : Nat) (b : WordSet) : Prop where
  size : b.n = n
  words : b.w.length = (n + 63) / 64
  tail : ∀ idx, n ≤ idx → b.test idx = false

section Words
variable {n : Nat} {a b : WordSet}

theorem getLsbD_bit {k : Nat} (hk : k < 64) (i : Nat) : (bit k).getLsbD i = decide (i = k) := by
  rw [bit, BitVec.getLsbD_shiftLeft, BitVec.getLsbD_one]
  by_cases heq : i = k
  · subst heq
    simp [hk]
  · have : ¬ (k ≤ i ∧ i - k = 0) := by omega
    by_cases hle : k ≤ i
    · have hne : i - k ≠ 0 := by omega
      simp [hne, heq]
    · simp [Nat.not_le.mp hle, heq]

/-- The mask of one bit picks it. -/
theorem and_bit_ne_zero (x : BitVec 64) {k : Nat} (hk : k < 64) :
    (x &&& bit k != 0) = x.getLsbD k := by
  by_cases hbit : x.getLsbD k = true
  · rw [hbit, bne_iff_ne]
    intro hzero
    have hone : (x &&& bit k).getLsbD k = true := by
      rw [BitVec.getLsbD_and, hbit, getLsbD_bit hk, decide_eq_true rfl, Bool.and_true]
    rw [hzero] at hone
    exact absurd hone (by simp)
  · rw [Bool.not_eq_true] at hbit
    rw [hbit, bne_eq_false_iff_eq]
    apply BitVec.eq_of_getLsbD_eq
    intro i hi
    rw [BitVec.getLsbD_and, getLsbD_bit hk]
    by_cases heq : i = k
    · rw [heq, hbit, Bool.false_and]
      exact BitVec.getLsbD_zero.symm
    · rw [decide_eq_false heq, Bool.and_false]
      exact BitVec.getLsbD_zero.symm

theorem test_eq (b : WordSet) (idx : Nat) :
    b.test idx = (b.w.getD (idx / 64) 0).getLsbD (idx % 64) :=
  and_bit_ne_zero _ (Nat.mod_lt _ (by decide))

theorem getD_modify {w : List (BitVec 64)} {i : Nat} (hi : i < w.length) (f : BitVec 64 → BitVec 64)
    (j : Nat) : (w.modify i f).getD j 0 = if i = j then f (w.getD j 0) else w.getD j 0 := by
  rw [List.getD_eq_getElem?_getD, List.getD_eq_getElem?_getD]
  by_cases heq : i = j
  · subst heq
    rw [if_pos rfl, List.getElem?_modify_eq, List.getElem?_eq_getElem hi]
    rfl
  · rw [if_neg heq, List.getElem?_modify_ne _ _ heq]

/-! ### Operations -/

theorem getLsbD_mask {k : Nat} (hk : k < 64) (i : Nat) :
    (bit k - 1).getLsbD i = decide (i < k) := by
  have hpow : 2 ^ k < 2 ^ 64 := Nat.pow_lt_pow_right (by decide) hk
  have hpos : 0 < 2 ^ k := Nat.two_pow_pos k
  have hbit : (bit k).toNat = 2 ^ k := by
    rw [bit, BitVec.toNat_shiftLeft, BitVec.toNat_ofNat, Nat.one_mod_eq_one.mpr (by decide),
      Nat.one_shiftLeft, Nat.mod_eq_of_lt hpow]
  have hmask : (bit k - 1).toNat = 2 ^ k - 1 := by
    rw [BitVec.toNat_sub, hbit]
    change (2 ^ 64 - 1 + 2 ^ k) % 2 ^ 64 = 2 ^ k - 1
    omega
  rw [BitVec.getLsbD, hmask, Nat.testBit_two_pow_sub_one]

theorem test_all (n idx : Nat) : (all n).test idx = decide (idx < n) := by
  have hword : ∀ j, (List.replicate ((n + 63) / 64) 0xFFFFFFFFFFFFFFFF#64).getD j 0
      = if j < (n + 63) / 64 then 0xFFFFFFFFFFFFFFFF#64 else 0 := fun j => by
    rw [List.getD_eq_getElem?_getD, List.getElem?_replicate]
    split <;> rfl
  have hones : ∀ i, i < 64 → (0xFFFFFFFFFFFFFFFF#64).getLsbD i = true := by decide
  have hlt : idx % 64 < 64 := Nat.mod_lt _ (by decide)
  rw [test_eq, all]
  by_cases hfull :
    (!(List.replicate ((n + 63) / 64) 0xFFFFFFFFFFFFFFFF#64).isEmpty && n % 64 != 0) = true
  · -- the last word has the bits of the last nodes only
    have hrest : n % 64 ≠ 0 := by
      rw [Bool.and_eq_true, bne_iff_ne] at hfull
      exact hfull.2
    rw [if_pos hfull]
    dsimp only
    rw [List.length_replicate, getD_modify (by rw [List.length_replicate]; omega), hword]
    by_cases hlast : (n + 63) / 64 - 1 = idx / 64
    · rw [if_pos hlast, if_pos (by omega), BitVec.getLsbD_and, hones _ hlt,
        getLsbD_mask (Nat.mod_lt _ (by decide)), Bool.true_and, decide_eq_decide]
      omega
    · rw [if_neg hlast]
      by_cases hin : idx / 64 < (n + 63) / 64
      · rw [if_pos hin, hones _ hlt, eq_comm, decide_eq_true_eq]
        omega
      · rw [if_neg hin, decide_eq_false (show ¬ idx < n by omega)]
        exact BitVec.getLsbD_zero
  · have hrest : n % 64 = 0 := by
      by_contra hrest
      apply hfull
      rw [Bool.and_eq_true, bne_iff_ne]
      refine ⟨?_, hrest⟩
      rw [Bool.not_eq_true', List.isEmpty_eq_false_iff]
      apply List.ne_nil_of_length_pos
      rw [List.length_replicate]
      omega
    rw [if_neg hfull, hword]
    by_cases hin : idx / 64 < (n + 63) / 64
    · rw [if_pos hin, hones _ hlt, eq_comm, decide_eq_true_eq]
      omega
    · rw [if_neg hin, decide_eq_false (show ¬ idx < n by omega)]
      exact BitVec.getLsbD_zero

theorem Ok.set_lt (h : Ok n b) {i : Nat} (hi : i < n) : i / 64 < b.w.length := by
  rw [h.words]
  omega

theorem Ok.test_set (h : Ok n b) {i : Nat} (hi : i < n) (c : Nat) :
    (b.set i).test c = (decide (c = i) || b.test c) := by
  rw [test_eq, test_eq, set, getD_modify (h.set_lt hi)]
  by_cases hword : i / 64 = c / 64
  · rw [if_pos hword, BitVec.getLsbD_or, getLsbD_bit (Nat.mod_lt _ (by decide)), Bool.or_comm]
    congr 1
    rw [decide_eq_decide]
    omega
  · rw [if_neg hword, decide_eq_false (by omega), Bool.false_or]

theorem Ok.set (h : Ok n b) {i : Nat} (hi : i < n) : Ok n (b.set i) where
  size := h.size
  words := by rw [WordSet.set, List.length_modify, h.words]
  tail := fun idx hidx => by rw [h.test_set hi, h.tail idx hidx, decide_eq_false (by omega)]; rfl

theorem test_iand (hlen : a.w.length = b.w.length) (c : Nat) :
    (a.iand b).test c = (a.test c && b.test c) := by
  rw [test_eq, test_eq, test_eq, iand, List.getD_eq_getElem?_getD, List.getD_eq_getElem?_getD,
    List.getD_eq_getElem?_getD, List.getElem?_zipWith]
  by_cases hin : c / 64 < a.w.length
  · rw [List.getElem?_eq_getElem hin, List.getElem?_eq_getElem (hlen ▸ hin)]
    exact BitVec.getLsbD_and
  · rw [List.getElem?_eq_none (Nat.le_of_not_lt hin),
      List.getElem?_eq_none (hlen ▸ Nat.le_of_not_lt hin)]
    exact (Bool.and_self _).symm

theorem Ok.iand (ha : Ok n a) (hb : Ok n b) : Ok n (a.iand b) where
  size := ha.size
  words := by rw [WordSet.iand, List.length_zipWith, ha.words, hb.words, Nat.min_self]
  tail := fun idx hidx => by
    rw [test_iand (ha.words.trans hb.words.symm), ha.tail idx hidx, Bool.false_and]

theorem ok_all (n : Nat) : Ok n (all n) where
  size := by
    unfold all
    dsimp only
    split <;> rfl
  words := by
    unfold all
    dsimp only
    split
    · rw [List.length_modify, List.length_replicate]
    · rw [List.length_replicate]
  tail := fun idx hidx => by
    rw [test_all]
    exact decide_eq_false (by omega)

theorem test_zeros (n idx : Nat) :
    (WordSet.mk n (List.replicate ((n + 63) / 64) 0)).test idx = false := by
  rw [test_eq, List.getD_eq_getElem?_getD, List.getElem?_replicate]
  split <;> exact BitVec.getLsbD_zero

theorem ok_zeros (n : Nat) : Ok n (WordSet.mk n (List.replicate ((n + 63) / 64) 0)) :=
  ⟨rfl, List.length_replicate .., fun idx _ => test_zeros n idx⟩

theorem ok_singleton {i : Nat} (hi : i < n) : Ok n (singleton n i) := (ok_zeros n).set hi

theorem test_singleton {i : Nat} (hi : i < n) (c : Nat) :
    (singleton n i).test c = decide (c = i) := by
  rw [singleton, (ok_zeros n).test_set hi, test_zeros, Bool.or_false]

/-! ### The bits the words stand for -/

@[simp]
theorem length_bits (b : WordSet) : b.bits.length = b.n := by
  rw [bits, List.length_map, List.length_range]

theorem test_bits (b : WordSet) {c : Nat} (hc : c < b.n) : b.bits.test c = b.test c := by
  have hlen : c < b.bits.length := by rwa [length_bits]
  rw [BitSet.test, List.getD_eq_getElem _ _ hlen]
  exact (List.getElem_map ..).trans (congrArg b.test (List.getElem_range _))

theorem bits_all (n : Nat) : (all n).bits = BitSet.all n := by
  have hsize := (ok_all n).size
  apply BitSet.ext_test
  · rw [length_bits, hsize, BitSet.all, List.length_replicate]
  · intro c hc
    rw [length_bits] at hc
    rw [test_bits _ hc, test_all]
    rw [hsize] at hc
    rw [decide_eq_true hc, BitSet.test, BitSet.all, List.getD_eq_getElem?_getD,
      List.getElem?_replicate,
      if_pos hc]
    rfl

theorem bits_singleton {i : Nat} (hi : i < n) : (singleton n i).bits = BitSet.singleton n i := by
  have hsize := (ok_singleton hi).size
  apply BitSet.ext_test
  · rw [length_bits, hsize, BitSet.singleton, BitSet.insert, List.length_set, List.length_replicate]
  · intro c hc
    rw [length_bits] at hc
    rw [test_bits _ hc, test_singleton hi, BitSet.test_singleton hi]

theorem Ok.bits_set (h : Ok n b) {i : Nat} (hi : i < n) : (b.set i).bits = b.bits.insert i := by
  have hsize := (h.set hi).size
  apply BitSet.ext_test
  · rw [length_bits, hsize, BitSet.insert, List.length_set, length_bits, h.size]
  · intro c hc
    rw [length_bits] at hc
    have hin : i < b.bits.length := by rwa [length_bits, h.size]
    rw [test_bits _ hc, h.test_set hi, BitSet.test_insert hin,
      test_bits _ (by rw [h.size, ← hsize]; exact hc)]

theorem Ok.bits_iand (ha : Ok n a) (hb : Ok n b) : (a.iand b).bits = a.bits.iand b.bits := by
  have hsize := (ha.iand hb).size
  apply BitSet.ext_test
  · rw [BitSet.length_iand, length_bits, length_bits, length_bits, hsize, ha.size, hb.size,
      Nat.min_self]
  · intro c hc
    rw [length_bits, hsize] at hc
    rw [test_bits _ (hsize ▸ hc), test_iand (ha.words.trans hb.words.symm), BitSet.test_iand,
      test_bits _ (ha.size ▸ hc), test_bits _ (hb.size ▸ hc)]

/-- Sets with the same bits have the same words. -/
theorem Ok.equals_iff (ha : Ok n a) (hb : Ok n b) : a.equals b = true ↔ a.bits = b.bits := by
  rw [equals, Bool.and_eq_true, beq_iff_eq, beq_iff_eq]
  constructor
  · rintro ⟨hn, hw⟩
    rw [show a = b from by cases a; cases b; cases hn; cases hw; rfl]
  · intro hbits
    have htest : ∀ c, a.test c = b.test c := by
      intro c
      by_cases hc : c < n
      · rw [← test_bits a (ha.size ▸ hc), hbits, test_bits b (hb.size ▸ hc)]
      · rw [ha.tail c (Nat.le_of_not_lt hc), hb.tail c (Nat.le_of_not_lt hc)]
    refine ⟨ha.size.trans hb.size.symm, ?_⟩
    apply List.ext_getElem (ha.words.trans hb.words.symm)
    intro j hj hj'
    apply BitVec.eq_of_getLsbD_eq
    intro i hi
    have hbit := htest (64 * j + i)
    rw [test_eq, test_eq, show (64 * j + i) / 64 = j by omega, show (64 * j + i) % 64 = i by omega,
      List.getD_eq_getElem _ _ hj, List.getD_eq_getElem _ _ hj'] at hbit
    exact hbit

end Words

/-! ### The iteration -/

/-- The sets of the iteration on words stand for those of the iteration on bits. -/
structure Stands (exitNode : Nat) (words : List WordSet) (postdom : List BitSet) : Prop where
  length : words.length = exitNode + 1
  ok : ∀ b ∈ words, Ok (exitNode + 1) b
  bits : words.map WordSet.bits = postdom

section Iteration
variable {exitNode : Nat} {words : List WordSet} {postdom : List BitSet} {succs : List (List Nat)}

theorem Stands.ok_getD (h : Stands exitNode words postdom) {i : Nat} (hi : i ≤ exitNode) :
    Ok (exitNode + 1) (words.getD i {}) := by
  have hlt : i < words.length := by
    rw [h.length]
    omega
  rw [List.getD_eq_getElem _ _ hlt]
  exact h.ok _ (List.getElem_mem hlt)

theorem Stands.bits_getD (h : Stands exitNode words postdom) {i : Nat} (hi : i ≤ exitNode) :
    (words.getD i {}).bits = postdom.getD i [] := by
  have hlt : i < words.length := by
    rw [h.length]
    omega
  have hlt' : i < (words.map WordSet.bits).length := by rwa [List.length_map]
  rw [← h.bits, List.getD_eq_getElem _ _ hlt, List.getD_eq_getElem _ _ hlt', List.getElem_map]

theorem Stands.foldl_iand (h : Stands exitNode words postdom) {ss : List Nat}
    (hss : ∀ s ∈ ss, s ≤ exitNode) {acc : WordSet} (hacc : Ok (exitNode + 1) acc) :
    Ok (exitNode + 1) (ss.foldl (fun acc t => acc.iand (words.getD t {})) acc)
      ∧ (ss.foldl (fun acc t => acc.iand (words.getD t {})) acc).bits
        = ss.foldl (fun acc t => acc.iand (postdom.getD t [])) acc.bits := by
  induction ss generalizing acc with
  | nil => exact ⟨hacc, rfl⟩
  | cons s ss ih =>
      rw [List.forall_mem_cons] at hss
      have hs := h.ok_getD hss.1
      obtain ⟨hok, hbits⟩ := ih hss.2 (hacc.iand hs)
      refine ⟨hok, ?_⟩
      rw [List.foldl_cons, List.foldl_cons, hbits, hacc.bits_iand hs, h.bits_getD hss.1]

theorem Stands.postdomOf (h : Stands exitNode words postdom) {succ : List Nat}
    (hsucc : ∀ s ∈ succ, s ≤ exitNode) {i : Nat} (hi : i ≤ exitNode) :
    Ok (exitNode + 1) (postdomOf words succ exitNode i)
      ∧ (postdomOf words succ exitNode i).bits = ProtoGpu.postdomOf postdom succ exitNode i := by
  have hlt : i < exitNode + 1 := by omega
  cases succ with
  | nil =>
      have hexit := h.ok_getD (le_refl exitNode)
      refine ⟨hexit.set hlt, ?_⟩
      rw [WordSet.postdomOf, ProtoGpu.postdomOf]
      rw [hexit.bits_set hlt, h.bits_getD (le_refl exitNode)]
  | cons s ss =>
      rw [List.forall_mem_cons] at hsucc
      obtain ⟨hok, hbits⟩ := h.foldl_iand hsucc.2 (h.ok_getD hsucc.1)
      refine ⟨hok.set hlt, ?_⟩
      rw [WordSet.postdomOf, ProtoGpu.postdomOf]
      rw [hok.bits_set hlt, hbits, h.bits_getD hsucc.1]

theorem Stands.set (h : Stands exitNode words postdom) {b : WordSet} (hb : Ok (exitNode + 1) b)
    (i : Nat) : Stands exitNode (words.set i b) (postdom.set i b.bits) where
  length := by rw [List.length_set, h.length]
  ok := fun x hx => by
    rcases List.mem_or_eq_of_mem_set hx with hx | rfl
    · exact h.ok x hx
    · exact hb
  bits := by rw [List.map_set, h.bits]

/-- A sweep over words changes the sets a sweep over bits does, and reports it when that does. -/
theorem Stands.sweep (hsuccs : SuccsOk succs exitNode) {nodes : List Nat}
    (hnodes : ∀ i ∈ nodes, i ≤ exitNode) (h : Stands exitNode words postdom) (changed : Bool) :
    Stands exitNode (postdomSweep succs exitNode nodes words changed).1
        (ProtoGpu.postdomSweep succs exitNode nodes postdom changed).1
      ∧ (postdomSweep succs exitNode nodes words changed).2
        = (ProtoGpu.postdomSweep succs exitNode nodes postdom changed).2 := by
  induction nodes generalizing words postdom changed with
  | nil => exact ⟨h, rfl⟩
  | cons i nodes ih =>
      rw [List.forall_mem_cons] at hnodes
      rw [WordSet.postdomSweep, ProtoGpu.postdomSweep]
      by_cases hexit : i = exitNode
      · rw [if_pos hexit, if_pos hexit]
        exact ih hnodes.2 h changed
      · have hi : i < exitNode := lt_of_le_of_ne hnodes.1 hexit
        obtain ⟨succ, hsucc, -, hle⟩ := hsuccs.get i hi
        have hgetD : succs.getD i [] = succ := by
          rw [List.getD_eq_getElem?_getD, hsucc, Option.getD_some]
        obtain ⟨hok, hbits⟩ := h.postdomOf hle hi.le
        have hequal := hok.equals_iff (h.ok_getD hi.le)
        rw [hbits, h.bits_getD hi.le] at hequal
        rw [if_neg hexit, if_neg hexit, hgetD]
        dsimp only
        by_cases hsame : ProtoGpu.postdomOf postdom succ exitNode i = postdom.getD i []
        · rw [if_pos hsame, if_pos (hequal.mpr hsame)]
          exact ih hnodes.2 h changed
        · rw [if_neg hsame, if_neg fun hsets => hsame (hequal.mp hsets), ← hbits]
          exact ih hnodes.2 (h.set hok i) true

/-- **The words run the iteration on bits.** -/
theorem Stands.loop (hsuccs : SuccsOk succs exitNode) (h : Stands exitNode words postdom)
    (iters : Nat) :
    (postdomLoop succs (exitNode + 1) exitNode iters words).map (List.map WordSet.bits)
      = ProtoGpu.postdomLoop succs (exitNode + 1) exitNode iters postdom := by
  have hnodes : ∀ i ∈ List.range (exitNode + 1), i ≤ exitNode := fun i hi =>
    Nat.le_of_lt_succ (List.mem_range.mp hi)
  induction iters generalizing words postdom with
  | zero => rfl
  | succ iters ih =>
      have hsweep := h.sweep hsuccs hnodes false
      rw [WordSet.postdomLoop, ProtoGpu.postdomLoop]
      obtain ⟨words', changed, hwords⟩ : ∃ words' changed,
          postdomSweep succs exitNode (List.range (exitNode + 1)) words false = (words', changed) :=
        ⟨_, _, rfl⟩
      obtain ⟨postdom', changed', hpostdom⟩ : ∃ postdom' changed',
          ProtoGpu.postdomSweep succs exitNode (List.range (exitNode + 1)) postdom false
            = (postdom', changed') := ⟨_, _, rfl⟩
      rw [hwords, hpostdom] at hsweep
      obtain ⟨hstands, rfl⟩ := hsweep
      rw [hwords, hpostdom]
      cases changed with
      | true => exact ih hstands
      | false => exact congrArg some hstands.bits

theorem stands_init (exitNode : Nat) :
    Stands exitNode (postdomInit (exitNode + 1) exitNode)
      (ProtoGpu.postdomInit (exitNode + 1) exitNode) where
  length := by rw [postdomInit, List.length_map, List.length_range]
  ok := fun b hb => by
    obtain ⟨i, -, rfl⟩ := List.mem_map.mp hb
    by_cases hexit : i = exitNode
    · rw [if_pos hexit]
      exact ok_singleton (Nat.lt_succ_self exitNode)
    · rw [if_neg hexit]
      exact ok_all _
  bits := by
    rw [postdomInit, ProtoGpu.postdomInit, List.map_map]
    apply List.map_congr_left
    intro i _
    rw [Function.comp_apply]
    by_cases hexit : i = exitNode
    · rw [if_pos hexit, if_pos hexit, bits_singleton (Nat.lt_succ_self exitNode)]
    · rw [if_neg hexit, if_neg hexit, bits_all]

end Iteration

end WordSet

end ProtoGpu

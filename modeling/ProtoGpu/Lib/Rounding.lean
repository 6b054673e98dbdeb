import Mathlib.Data.Int.Log
import Mathlib.Data.Rat.Floor
import Mathlib.Algebra.Order.Floor.Ring
import Mathlib.Tactic.Linarith
import Mathlib.Tactic.Positivity
import Mathlib.Tactic.FieldSimp
import Mathlib.Tactic.Ring

/-!
# Rounding to significant digits

A positive rational has a leading digit in every base, and rounding it to `p` digits is rounding the
quotient by the unit of its `p`-th digit to the nearest integer, ties to even. The rationals that
survive this are those with at most `p` digits.
-/

namespace Rounding

/-- The nearest integer, and the even one of two. -/
def halfEven (q : ℚ) : ℤ :=
  if Int.fract q < 1 / 2 then ⌊q⌋
  else if 1 / 2 < Int.fract q then ⌊q⌋ + 1
  else if Even ⌊q⌋ then ⌊q⌋
  else ⌊q⌋ + 1

theorem halfEven_intCast (n : ℤ) : halfEven n = n := by
  rw [halfEven, Int.fract_intCast, if_pos (by norm_num), Int.floor_intCast]

theorem floor_le_halfEven (q : ℚ) : ⌊q⌋ ≤ halfEven q := by
  unfold halfEven
  repeat' split
  all_goals omega

theorem halfEven_le_floor_add_one (q : ℚ) : halfEven q ≤ ⌊q⌋ + 1 := by
  unfold halfEven
  repeat' split
  all_goals omega

/-- The multiple of `b ^ e` nearest to `q`. -/
def toUnit (b : ℕ) (e : ℤ) (q : ℚ) : ℚ := halfEven (q / (b : ℚ) ^ e) * (b : ℚ) ^ e

/-- The exponent of the `p`-th significant digit. -/
def unitExp (b p : ℕ) (q : ℚ) : ℤ := Int.log b q - (p - 1)

/-- The digits kept, as an integer. -/
def significand (b p : ℕ) (q : ℚ) : ℤ := halfEven (q / (b : ℚ) ^ unitExp b p q)

/-- `q` to `p` significant digits. -/
def toDigits (b p : ℕ) (q : ℚ) : ℚ := toUnit b (unitExp b p q) q

theorem toDigits_eq (b p : ℕ) (q : ℚ) :
    toDigits b p q = significand b p q * (b : ℚ) ^ unitExp b p q := rfl

variable {b p : ℕ} {q : ℚ}

theorem base_pos (hb : 1 < b) : (0 : ℚ) < b := by
  have hpos : 0 < b := by omega
  exact_mod_cast hpos

/-- A multiple of a unit is a multiple of every finer one. -/
theorem toUnit_exact (hb : 1 < b) {m : ℤ} {k e : ℤ} (hq : q = m * (b : ℚ) ^ k) (hle : e ≤ k) :
    toUnit b e q = q := by
  have hb0 : (b : ℚ) ≠ 0 := (base_pos hb).ne'
  obtain ⟨n, hn⟩ : ∃ n : ℕ, k = e + n := ⟨(k - e).toNat, by omega⟩
  have hquot : q / (b : ℚ) ^ e = ((m * (b : ℤ) ^ n : ℤ) : ℚ) := by
    rw [hq, hn, zpow_add₀ hb0]
    field_simp
    push_cast
    rfl
  rw [toUnit, hquot, halfEven_intCast, ← hquot]
  field_simp

theorem unitExp_le (hb : 1 < b) (hq : 0 < q) {m k : ℤ} (heq : q = m * (b : ℚ) ^ k)
    (hm : m < (b : ℤ) ^ p) : unitExp b p q ≤ k := by
  have hb0 : (b : ℚ) ≠ 0 := (base_pos hb).ne'
  have hlt : q < (b : ℚ) ^ (k + p) := by
    rw [zpow_add₀ hb0, heq, mul_comm]
    have hpos : (0 : ℚ) < (b : ℚ) ^ k := zpow_pos (base_pos hb) k
    refine mul_lt_mul_of_pos_left ?_ hpos
    exact_mod_cast hm
  have hlog := (Int.lt_zpow_iff_log_lt hb hq).mp hlt
  unfold unitExp
  omega

/-- What has at most `p` digits is kept. -/
theorem toDigits_exact (hb : 1 < b) (hq : 0 < q) {m k : ℤ} (heq : q = m * (b : ℚ) ^ k)
    (hm : m < (b : ℤ) ^ p) : toDigits b p q = q :=
  toUnit_exact hb heq (unitExp_le hb hq heq hm)

theorem quotient_bounds (hb : 1 < b) (hp : 0 < p) (hq : 0 < q) :
    (b : ℚ) ^ (p - 1 : ℕ) ≤ q / (b : ℚ) ^ unitExp b p q
      ∧ q / (b : ℚ) ^ unitExp b p q < (b : ℚ) ^ p := by
  have hb0 : (b : ℚ) ≠ 0 := (base_pos hb).ne'
  have hlow := Int.zpow_log_le_self hb hq
  have hhigh := Int.lt_zpow_succ_log_self hb q
  have hpos : (0 : ℚ) < (b : ℚ) ^ unitExp b p q := zpow_pos (base_pos hb) _
  constructor
  · rw [le_div_iff₀ hpos, ← zpow_natCast, ← zpow_add₀ hb0]
    convert hlow using 2
    unfold unitExp
    omega
  · rw [div_lt_iff₀ hpos, ← zpow_natCast, ← zpow_add₀ hb0]
    convert hhigh using 2
    unfold unitExp
    omega

/-- The digits kept are `p` digits, or the power of the base that the rounding carried to. -/
theorem significand_bounds (hb : 1 < b) (hp : 0 < p) (hq : 0 < q) :
    (b : ℤ) ^ (p - 1) ≤ significand b p q ∧ significand b p q ≤ (b : ℤ) ^ p := by
  obtain ⟨hlow, hhigh⟩ := quotient_bounds hb hp hq
  constructor
  · calc (b : ℤ) ^ (p - 1) ≤ ⌊q / (b : ℚ) ^ unitExp b p q⌋ := by
          rw [Int.le_floor]
          exact_mod_cast hlow
      _ ≤ significand b p q := floor_le_halfEven _
  · have hfloor : ⌊q / (b : ℚ) ^ unitExp b p q⌋ < (b : ℤ) ^ p := by
      rw [Int.floor_lt]
      exact_mod_cast hhigh
    have := halfEven_le_floor_add_one (q / (b : ℚ) ^ unitExp b p q)
    unfold significand
    omega

/-- The rationals that survive the rounding. -/
theorem toDigits_eq_self_iff (hb : 1 < b) (hp : 0 < p) (hq : 0 < q) :
    toDigits b p q = q ↔ ∃ m k : ℤ, q = m * (b : ℚ) ^ k ∧ m < (b : ℤ) ^ p := by
  constructor
  · intro h
    have hb0 : (b : ℚ) ≠ 0 := (base_pos hb).ne'
    have hle := (significand_bounds hb hp hq).2
    rw [toDigits_eq] at h
    rcases hle.lt_or_eq with hlt | heq
    · exact ⟨_, _, h.symm, hlt⟩
    · refine ⟨1, unitExp b p q + p, ?_, ?_⟩
      · rw [heq] at h
        calc q = ((b : ℤ) ^ p : ℤ) * (b : ℚ) ^ unitExp b p q := h.symm
          _ = (1 : ℤ) * (b : ℚ) ^ (unitExp b p q + p) := by
              rw [zpow_add₀ hb0, zpow_natCast]
              push_cast
              ring
      · exact one_lt_pow₀ (by exact_mod_cast hb) (by omega)
  · rintro ⟨m, k, heq, hm⟩
    exact toDigits_exact hb hq heq hm

end Rounding

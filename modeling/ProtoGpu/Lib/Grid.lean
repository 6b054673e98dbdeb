import Mathlib

/-!
# Positions in a box

A box of `dx * dy * dz` cells counted with `x` fastest, and a row of cells cut into chunks of equal
size. A position determines the cell and the chunk, and is determined by them.
-/

namespace Grid

/-- The position of a cell. -/
def index (dx dy x y z : Nat) : Nat := (z * dy + y) * dx + x

section Box

variable {dx dy dz x y z n : Nat}

theorem index_mod (hx : x < dx) : index dx dy x y z % dx = x := by
  rw [index, Nat.add_comm, Nat.add_mul_mod_self_right, Nat.mod_eq_of_lt hx]

theorem index_div (hx : x < dx) : index dx dy x y z / dx = z * dy + y := by
  have hpos : 0 < dx := by omega
  rw [index, Nat.add_comm, Nat.add_mul_div_right _ _ hpos, Nat.div_eq_of_lt hx, Nat.zero_add]

theorem index_div_mod (hx : x < dx) (hy : y < dy) : index dx dy x y z / dx % dy = y := by
  rw [index_div hx, Nat.add_comm, Nat.add_mul_mod_self_right, Nat.mod_eq_of_lt hy]

theorem index_div_div (hx : x < dx) (hy : y < dy) : index dx dy x y z / (dx * dy) = z := by
  have hpos : 0 < dy := by omega
  rw [← Nat.div_div_eq_div_mul, index_div hx, Nat.add_comm, Nat.add_mul_div_right _ _ hpos,
    Nat.div_eq_of_lt hy, Nat.zero_add]

theorem index_lt (hx : x < dx) (hy : y < dy) (hz : z < dz) : index dx dy x y z < dx * dy * dz := by
  calc index dx dy x y z < (z * dy + y) * dx + dx := Nat.add_lt_add_left hx _
    _ = (z * dy + y + 1) * dx := by ring
    _ ≤ (z * dy + dy) * dx := Nat.mul_le_mul_right _ (by omega)
    _ = (z + 1) * (dx * dy) := by ring
    _ ≤ dz * (dx * dy) := Nat.mul_le_mul_right _ hz
    _ = dx * dy * dz := Nat.mul_comm _ _

/-- The cell at a position. -/
theorem index_coords (n : Nat) : index dx dy (n % dx) (n / dx % dy) (n / (dx * dy)) = n := by
  rw [index, ← Nat.div_div_eq_div_mul, Nat.mul_comm (n / dx / dy), Nat.div_add_mod,
    Nat.mul_comm (n / dx), Nat.div_add_mod]

theorem coords_lt (h : n < dx * dy * dz) : n % dx < dx ∧ n / dx % dy < dy ∧ n / (dx * dy) < dz := by
  have hdx : 0 < dx := Nat.pos_of_ne_zero (by rintro rfl; simp at h)
  have hdy : 0 < dy := Nat.pos_of_ne_zero (by rintro rfl; simp at h)
  exact ⟨Nat.mod_lt _ hdx, Nat.mod_lt _ hdy, Nat.div_lt_of_lt_mul h⟩

end Box

/-- Rows of equal length do not meet. -/
theorem row_inj {dx n m x y : Nat} (hx : x < dx) (hy : y < dx) (h : n * dx + x = m * dx + y) :
    n = m ∧ x = y := by
  have hpos : 0 < dx := by omega
  have hdiv := congrArg (· / dx) h
  simp only [Nat.mul_comm n, Nat.mul_comm m, Nat.mul_add_div hpos, Nat.div_eq_of_lt hx,
    Nat.div_eq_of_lt hy, Nat.add_zero] at hdiv
  subst hdiv
  exact ⟨rfl, Nat.add_left_cancel h⟩

/-- Two nested loops are one loop over the positions. -/
theorem flatMap_range_map {α : Type*} (f : Nat → Nat → α) (a b : Nat) :
    ((List.range a).flatMap fun i => (List.range b).map (f i))
      = (List.range (a * b)).map fun k => f (k / b) (k % b) := by
  induction a with
  | zero => simp
  | succ a ih =>
      rw [List.range_succ, List.flatMap_append, ih, Nat.succ_mul, List.range_add, List.map_append]
      congr 1
      simp only [List.flatMap_cons, List.flatMap_nil, List.append_nil, List.map_map]
      refine List.map_congr_left fun k hk => ?_
      have hk := List.mem_range.mp hk
      rw [Function.comp_apply, Nat.add_comm, Nat.add_mul_div_right _ _ (by omega),
        Nat.div_eq_of_lt hk, Nat.add_mul_mod_self_right, Nat.mod_eq_of_lt hk, Nat.zero_add]

/-- The chunks of `size` cells that cover `total` cells hold `total` cells. -/
theorem sum_chunks (size total count : Nat) :
    ((List.range count).map fun k => min size (total - k * size)).sum
      = min (count * size) total := by
  induction count with
  | zero => simp
  | succ count ih =>
      rw [List.range_succ, List.map_append, List.sum_append, ih, List.map_singleton,
        List.sum_singleton, Nat.succ_mul]
      omega

end Grid

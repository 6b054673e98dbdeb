import Mathlib.Data.List.Forall2
import Mathlib.Data.Nat.Init

/-!
# Bump allocation

Blocks handed out one behind the other, each at the next multiple of its alignment. Without a bound
on the addresses nothing can go wrong: the blocks are aligned and lie apart, in the order of the
requests.
-/

namespace Bump

structure Request where
  size : Nat
  align : Nat
deriving DecidableEq

structure Block where
  base : Nat
  size : Nat
deriving DecidableEq

def Block.limit (b : Block) : Nat := b.base + b.size

/-- No address lies in both blocks. -/
def Block.Apart (b c : Block) : Prop := b.limit ≤ c.base ∨ c.limit ≤ b.base

/-- The least multiple of `a` from `n` on. -/
def roundUp (n a : Nat) : Nat := if n % a = 0 then n else n + (a - n % a)

theorem le_roundUp (n a : Nat) : n ≤ roundUp n a := by
  unfold roundUp
  split <;> omega

theorem dvd_roundUp {a : Nat} (n : Nat) (ha : 0 < a) : a ∣ roundUp n a := by
  unfold roundUp
  split
  · next hzero => exact Nat.dvd_of_mod_eq_zero hzero
  · next hrest =>
    have hlt := Nat.mod_lt n ha
    have hsplit : n + (a - n % a) = a * (n / a + 1) := by
      have hdiv := Nat.div_add_mod n a
      rw [Nat.mul_add, Nat.mul_one]
      omega
    rw [hsplit]
    exact Nat.dvd_mul_right ..

/-- The blocks for the requests, from `next` on. -/
def blocks : Nat → List Request → List Block
  | _, [] => []
  | next, r :: rs =>
      let base := roundUp next r.align
      { base := base, size := r.size } :: blocks (base + r.size) rs

theorem le_base {next : Nat} {rs : List Request} {b : Block} (hb : b ∈ blocks next rs) :
    next ≤ b.base := by
  induction rs generalizing next with
  | nil => cases hb
  | cons r rs ih =>
      have hle := le_roundUp next r.align
      rcases List.mem_cons.mp hb with rfl | hb
      · exact hle
      · have hnext := ih hb
        omega

/-- **Blocks lie apart**, in the order of their requests. -/
theorem pairwise_blocks (next : Nat) (rs : List Request) :
    (blocks next rs).Pairwise fun b c => b.limit ≤ c.base := by
  induction rs generalizing next with
  | nil => exact .nil
  | cons r rs ih => exact .cons (fun c hc => le_base hc) (ih _)

theorem aligned_blocks {rs : List Request} (halign : ∀ r ∈ rs, 0 < r.align) (next : Nat) :
    List.Forall₂ (fun r b => r.align ∣ b.base ∧ b.size = r.size) rs (blocks next rs) := by
  induction rs generalizing next with
  | nil => exact .nil
  | cons r rs ih =>
      refine .cons ⟨dvd_roundUp next (halign r List.mem_cons_self), rfl⟩ ?_
      exact ih (fun r' hr' => halign r' (List.mem_cons_of_mem r hr')) _

end Bump

import Mathlib.Logic.Function.Basic
import Mathlib.Tactic.SplitIfs

/-!
# Buffers on two sides

Arrays under names, those of a host and those of a device, and the two copies of a range of one
array into a range of another. A range is read and replaced element by element.
-/

namespace Buffers

universe u v w

variable {α : Type u} {κ : Type v} {δ : Type w}

/-! ### Ranges of a list -/

/-- The `n` elements from `off` on. -/
def slice (l : List α) (off n : Nat) : List α := (l.drop off).take n

/-- The list with `new` from `off` on. -/
def splice (l : List α) (off : Nat) (new : List α) : List α :=
  l.take off ++ new ++ l.drop (off + new.length)

theorem length_slice {l : List α} {off n : Nat} (h : off + n ≤ l.length) :
    (slice l off n).length = n := by
  rw [slice, List.length_take, List.length_drop]
  omega

theorem getElem?_slice (l : List α) (off n i : Nat) :
    (slice l off n)[i]? = if i < n then l[off + i]? else none := by
  rw [slice, List.getElem?_take, List.getElem?_drop]

theorem getElem?_splice {l : List α} {off : Nat} {new : List α}
    (h : off + new.length ≤ l.length) (i : Nat) :
    (splice l off new)[i]?
      = if off ≤ i ∧ i < off + new.length then new[i - off]? else l[i]? := by
  have htake : (l.take off).length = off := by
    rw [List.length_take]
    omega
  rw [splice, List.append_assoc, List.getElem?_append, htake]
  split_ifs with hlow hin hin
  · omega
  · rw [List.getElem?_take, if_pos hlow]
  · rw [List.getElem?_append_left (by omega)]
  · rw [List.getElem?_append_right (by omega), List.getElem?_drop]
    congr 1
    omega

/-! ### Stores -/

structure Store (κ : Type v) (δ : Type w) (α : Type u) where
  host : κ → List α
  device : δ → List α

variable [DecidableEq κ] [DecidableEq δ]

/-- From a range of a host buffer into a range of a device buffer. -/
def Store.toDevice (s : Store κ δ α) (k : κ) (koff : Nat) (d : δ) (doff n : Nat) : Store κ δ α :=
  { s with
    device := Function.update s.device d (splice (s.device d) doff (slice (s.host k) koff n)) }

/-- From a range of a device buffer into a range of a host buffer. -/
def Store.toHost (s : Store κ δ α) (k : κ) (koff : Nat) (d : δ) (doff n : Nat) : Store κ δ α :=
  { s with host := Function.update s.host k (splice (s.host k) koff (slice (s.device d) doff n)) }

end Buffers

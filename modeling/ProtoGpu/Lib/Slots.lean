import Mathlib.Data.List.Basic
import Mathlib.Tactic.Common

/-!
# Slots of a buffer

A buffer filled slot by slot. What a cell holds in the end is what the last slot over it put there,
so a slot that no later one meets reads back as it was filled.
-/

namespace Slots

variable {α : Type*} {buf xs : List α} {off p : Nat}

/-- The buffer with `xs` laid over it from `off` on. -/
def overlay (buf : List α) (off : Nat) (xs : List α) : List α :=
  buf.take off ++ xs ++ buf.drop (off + xs.length)

theorem length_overlay (hfits : off + xs.length ≤ buf.length) :
    (overlay buf off xs).length = buf.length := by
  rw [overlay, List.length_append, List.length_append, List.length_take, List.length_drop]
  omega

theorem getElem?_overlay (hfits : off + xs.length ≤ buf.length) :
    (overlay buf off xs)[p]? = if off ≤ p ∧ p < off + xs.length then xs[p - off]? else buf[p]? := by
  have htake : (buf.take off).length = off := by
    rw [List.length_take]
    omega
  rw [overlay, List.append_assoc]
  rcases Nat.lt_or_ge p off with hbefore | hfrom
  · rw [List.getElem?_append_left (by omega), List.getElem?_take_of_lt hbefore, if_neg (by omega)]
  · rw [List.getElem?_append_right (by omega), htake]
    rcases Nat.lt_or_ge p (off + xs.length) with hin | hbehind
    · rw [List.getElem?_append_left (by omega), if_pos ⟨hfrom, hin⟩]
    · rw [List.getElem?_append_right (by omega), List.getElem?_drop, if_neg (by omega)]
      congr 1
      omega

/-- A range of a buffer and what goes there. -/
structure Slot (α : Type*) where
  off : Nat
  cells : List α

namespace Slot

def stop (s : Slot α) : Nat := s.off + s.cells.length

def Covers (s : Slot α) (p : Nat) : Prop := s.off ≤ p ∧ p < s.stop

instance (s : Slot α) (p : Nat) : Decidable (s.Covers p) := inferInstanceAs (Decidable (_ ∧ _))

theorem getElem?_put {s : Slot α} (hfits : s.stop ≤ buf.length) :
    (overlay buf s.off s.cells)[p]? = if s.Covers p then s.cells[p - s.off]? else buf[p]? :=
  getElem?_overlay hfits

/-- The slots share no cell. -/
def Apart (s t : Slot α) : Prop := s.stop ≤ t.off ∨ t.stop ≤ s.off

theorem Apart.not_covers {s t : Slot α} (h : s.Apart t) (hs : s.Covers p) : ¬ t.Covers p := by
  rcases h with h | h <;> rintro ⟨hle, hlt⟩
  · exact absurd hs.2 (by omega)
  · exact absurd hs.1 (by omega)

end Slot

def fill (buf : List α) (slots : List (Slot α)) : List α :=
  slots.foldl (fun buf s => overlay buf s.off s.cells) buf

variable {slots front back : List (Slot α)} {s : Slot α}

theorem fill_cons (buf : List α) (s : Slot α) (slots : List (Slot α)) :
    fill buf (s :: slots) = fill (overlay buf s.off s.cells) slots := rfl

theorem fill_append (buf : List α) (front back : List (Slot α)) :
    fill buf (front ++ back) = fill (fill buf front) back := by
  rw [fill, fill, fill, List.foldl_append]

theorem length_fill (hfits : ∀ s ∈ slots, s.stop ≤ buf.length) :
    (fill buf slots).length = buf.length := by
  induction slots generalizing buf with
  | nil => rfl
  | cons s slots ih =>
      have hlength := length_overlay (hfits s List.mem_cons_self)
      rw [fill_cons, ih, hlength]
      intro t ht
      rw [hlength]
      exact hfits t (List.mem_cons_of_mem s ht)

theorem getElem?_fill_outside (hfits : ∀ s ∈ slots, s.stop ≤ buf.length)
    (hout : ∀ s ∈ slots, ¬ s.Covers p) : (fill buf slots)[p]? = buf[p]? := by
  induction slots generalizing buf with
  | nil => rfl
  | cons s slots ih =>
      have hfit := hfits s List.mem_cons_self
      rw [fill_cons, ih, Slot.getElem?_put hfit, if_neg (hout s List.mem_cons_self)]
      · intro t ht
        rw [length_overlay hfit]
        exact hfits t (List.mem_cons_of_mem s ht)
      · exact fun t ht => hout t (List.mem_cons_of_mem s ht)

/-- The last slot over a cell decides it. -/
theorem getElem?_fill_last (hfits : ∀ t ∈ front ++ s :: back, t.stop ≤ buf.length)
    (hcovers : s.Covers p) (hback : ∀ t ∈ back, ¬ t.Covers p) :
    (fill buf (front ++ s :: back))[p]? = s.cells[p - s.off]? := by
  have hfront : (fill buf front).length = buf.length :=
    length_fill fun t ht => hfits t (List.mem_append_left _ ht)
  have hs : s.stop ≤ (fill buf front).length := by
    rw [hfront]
    exact hfits s (List.mem_append_right _ List.mem_cons_self)
  rw [fill_append, fill_cons, getElem?_fill_outside _ hback, Slot.getElem?_put hs, if_pos hcovers]
  intro t ht
  rw [length_overlay hs, hfront]
  exact hfits t (List.mem_append_right _ (List.mem_cons_of_mem s ht))

theorem exists_last_cover (hcover : ∃ s ∈ slots, s.Covers p) :
    ∃ front s back, slots = front ++ s :: back ∧ s.Covers p ∧ ∀ t ∈ back, ¬ t.Covers p := by
  induction slots with
  | nil => simp at hcover
  | cons s slots ih =>
      by_cases hrest : ∃ t ∈ slots, t.Covers p
      · obtain ⟨front, t, back, rfl, ht, hback⟩ := ih hrest
        exact ⟨s :: front, t, back, rfl, ht, hback⟩
      · obtain ⟨t, ht, hcovers⟩ := hcover
        rcases List.mem_cons.mp ht with rfl | ht
        · exact ⟨[], t, slots, rfl, hcovers, fun u hu hc => hrest ⟨u, hu, hc⟩⟩
        · exact absurd ⟨t, ht, hcovers⟩ hrest

/-- A slot that no later one meets reads back. -/
theorem read_fill (hfits : ∀ t ∈ front ++ s :: back, t.stop ≤ buf.length)
    (hapart : ∀ t ∈ back, s.Apart t) {i : Nat} (hi : i < s.cells.length) :
    (fill buf (front ++ s :: back))[s.off + i]? = s.cells[i]? := by
  have hcovers : s.Covers (s.off + i) := ⟨Nat.le_add_right .., Nat.add_lt_add_left hi _⟩
  rw [getElem?_fill_last hfits hcovers fun t ht => (hapart t ht).not_covers hcovers,
    Nat.add_sub_cancel_left]

end Slots

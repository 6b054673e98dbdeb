import Mathlib.Data.List.DropRight
import Mathlib.Data.List.GetD
import Mathlib.Data.List.Rotate

/-!
# Ring buffers

A ring takes entries at its end until it is full and overwrites the oldest one from then on. Read
once round from its head it holds the latest entries of everything written, in the order of the
writes.
-/

namespace RingBuffer

variable {α : Type*} {capacity head : Nat} {history ring : List α}

/-- The ring, read from `head` on, holds the latest entries of the history. -/
structure Holds (capacity : Nat) (history ring : List α) (head : Nat) : Prop where
  head_lt : head < capacity
  filling : ring.length < capacity → head = 0
  latest : ring.rotate head = history.rtake capacity

theorem length_rtake (l : List α) (n : Nat) : (l.rtake n).length = min l.length n := by
  rw [List.rtake, List.length_drop]
  omega

theorem Holds.length (h : Holds capacity history ring head) :
    ring.length = min history.length capacity := by
  rw [← List.length_rotate ring head, h.latest, length_rtake]

theorem Holds.nil (hpos : 0 < capacity) : Holds capacity ([] : List α) [] 0 where
  head_lt := hpos
  filling := fun _ => rfl
  latest := by rw [List.rotate_nil, List.rtake_nil]

theorem rtake_of_length_le {l : List α} {n : Nat} (hle : l.length ≤ n) : l.rtake n = l := by
  rw [List.rtake, Nat.sub_eq_zero_of_le hle, List.drop_zero]

/-- An entry at the end of a ring that is not full. -/
theorem Holds.append (h : Holds capacity history ring head)
    (hroom : ring.length < capacity) (e : α) : Holds capacity (history ++ [e]) (ring ++ [e]) 0 where
  head_lt := by omega
  filling := fun _ => rfl
  latest := by
    have hlength := h.length
    have hlatest := h.latest
    rw [h.filling hroom, List.rotate_zero, rtake_of_length_le (by omega)] at hlatest
    rw [List.rotate_zero, hlatest, rtake_of_length_le]
    rw [List.length_append, List.length_singleton]
    omega

theorem rotate_set_succ (hhead : head < ring.length) (e : α) :
    (ring.set head e).rotate (head + 1) = (ring.rotate head).tail ++ [e] := by
  have hset : head + 1 ≤ (ring.set head e).length := by
    rw [List.length_set]
    omega
  rw [List.rotate_eq_drop_append_take hset, List.rotate_eq_drop_append_take hhead.le,
    List.drop_set_of_lt (Nat.lt_succ_self head),
    List.take_succ_eq_append_getElem (by simpa using hhead), List.getElem_set_self,
    List.take_set_of_le le_rfl, List.drop_eq_getElem_cons hhead, List.cons_append, List.tail_cons,
    List.append_assoc]

/-- An entry over the oldest one of a full ring. -/
theorem Holds.overwrite (h : Holds capacity history ring head) (hfull : ¬ ring.length < capacity)
    (e : α) : Holds capacity (history ++ [e]) (ring.set head e) ((head + 1) % capacity) where
  head_lt := Nat.mod_lt _ (Nat.zero_lt_of_lt h.head_lt)
  filling := fun hroom => by
    rw [List.length_set] at hroom
    exact absurd hroom hfull
  latest := by
    have hlength := h.length
    have hring : ring.length = capacity := by omega
    obtain ⟨n, rfl⟩ : ∃ n, capacity = n + 1 := ⟨capacity - 1, by have := h.head_lt; omega⟩
    have htail : (history.rtake (n + 1)).tail = history.rtake n := by
      rw [List.rtake, List.rtake, List.tail_drop]
      congr 1
      omega
    calc (ring.set head e).rotate ((head + 1) % (n + 1))
        = (ring.set head e).rotate (head + 1) := by
          rw [← hring, ← List.length_set (i := head) (a := e), List.rotate_mod]
      _ = (ring.rotate head).tail ++ [e] := rotate_set_succ (hring ▸ h.head_lt) e
      _ = history.rtake n ++ [e] := by rw [h.latest, htail]
      _ = (history ++ [e]).rtake (n + 1) := (List.rtake_concat_succ ..).symm

/-- A full ring, read once round from its head. -/
theorem Holds.read (h : Holds capacity history ring head)
    (hfull : ¬ ring.length < capacity) (d : α) :
    (List.range capacity).map (fun k => ring.getD ((head + k) % capacity) d)
      = history.rtake capacity := by
  have hlength := h.length
  have hring : ring.length = capacity := by omega
  rw [← h.latest]
  apply List.ext_getElem
  · rw [List.length_map, List.length_range, List.length_rotate, hring]
  · intro k hk hk'
    have hlt : (head + k) % capacity < ring.length := by
      rw [hring]
      exact Nat.mod_lt _ (Nat.zero_lt_of_lt h.head_lt)
    rw [List.getElem_map, List.getElem_range, List.getD_eq_getElem _ _ hlt, List.getElem_rotate]
    congr 1
    rw [hring, Nat.add_comm]

end RingBuffer

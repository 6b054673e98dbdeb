import Mathlib

/-!
# Loops whose turns are local

A loop over indices in which the turn at `i` reads and writes only what belongs to `i`. What belongs
to an index is given by a relation, `agree i s t`: the states `s` and `t` have the same share of
`i`. Such a loop does at each index what the body does there in any state with that index's share,
and it succeeds when the body does so at each index apart.
-/

namespace LocalLoop

universe u v w

variable {ι : Type u} {σ : Type v} {ε : Type w}

/-- The body at each index in turn, up to the first failure. -/
def forEach (body : ι → σ → Except ε σ) : List ι → σ → Option ε × σ
  | [], s => (none, s)
  | i :: is, s =>
      match body i s with
      | .error e => (some e, s)
      | .ok s' => forEach body is s'

/-- A turn depends on its own share only, and keeps every other. -/
structure Local (agree : ι → σ → σ → Prop) (body : ι → σ → Except ε σ) : Prop where
  same : ∀ {i s t t'}, agree i s t → body i t = .ok t' → ∃ s', body i s = .ok s' ∧ agree i s' t'
  frame : ∀ {i j s t u s'}, agree i s u → body i s = .ok s' → j ≠ i → agree j s t → agree j s' t

variable {agree : ι → σ → σ → Prop} {body : ι → σ → Except ε σ}

theorem forEach_singleton_ok {i : ι} {s s' : σ} (h : forEach body [i] s = (none, s')) :
    body i s = .ok s' := by
  rw [forEach] at h
  split at h
  · cases h
  next t heq =>
    cases h
    exact heq

/-- **Local loops.** When the body succeeds at each index from a state with that index's share, so
does the loop; it leaves at each index the share the body leaves there, and every other share as it
was. -/
theorem Local.forEach_ok (hlocal : Local agree body) {is : List ι} (hnodup : is.Nodup) {s : σ}
    {own own' : ι → σ} (hagree : ∀ i ∈ is, agree i s (own i))
    (hown : ∀ i ∈ is, body i (own i) = .ok (own' i)) :
    ∃ s', forEach body is s = (none, s') ∧ (∀ i ∈ is, agree i s' (own' i))
      ∧ ∀ j t, j ∉ is → agree j s t → agree j s' t := by
  induction is generalizing s own with
  | nil => exact ⟨s, rfl, by simp, fun _ _ _ => id⟩
  | cons i is ih =>
      obtain ⟨hi, hnodup⟩ := List.nodup_cons.mp hnodup
      have hagreeI := hagree i (by simp)
      obtain ⟨s₁, hs₁, hagree₁⟩ := hlocal.same hagreeI (hown i (by simp))
      have hne : ∀ {j}, j ∈ is → j ≠ i := fun hj heq => hi (heq ▸ hj)
      obtain ⟨s', hs', hdone, hrest⟩ := ih hnodup
        (fun j hj => hlocal.frame hagreeI hs₁ (hne hj) (hagree j (by simp [hj])))
        (fun j hj => hown j (by simp [hj]))
      refine ⟨s', by rw [forEach, hs₁]; exact hs', fun j hj => ?_, fun j t hj hjs => ?_⟩
      · rcases List.mem_cons.mp hj with rfl | hj
        · exact hrest j _ hi hagree₁
        · exact hdone j hj
      · rw [List.mem_cons, not_or] at hj
        exact hrest j t hj.2 (hlocal.frame hagreeI hs₁ hj.1 hjs)

end LocalLoop

import Mathlib.Data.List.Basic

/-!
# Occurrences of a word in a list

An occurrence of `w` in a list is the list written as `pre ++ (w ++ post)`. A word that avoids a
separator lies on one side of it, a word that avoids the characters of a margin lies inside the
margin, and a word whose first letter does not come back cannot overlap itself.
-/

namespace Occurrence

variable {α : Type*} {w pre post a b s t : List α} {c x : α}

/-- An occurrence in `a ++ c :: b` of a word without `c` lies in `a` or in `b`. -/
theorem cases_sep (hw : c ∉ w) (h : pre ++ (w ++ post) = a ++ c :: b) :
    (∃ post', post = post' ++ c :: b ∧ a = pre ++ (w ++ post')) ∨
      ∃ pre', pre = a ++ c :: pre' ∧ b = pre' ++ (w ++ post) := by
  rw [List.append_eq_append_iff] at h
  rcases h with ⟨mid, ha, h⟩ | ⟨mid, hpre, h⟩
  · rw [List.append_eq_append_iff] at h
    rcases h with ⟨post', rfl, rfl⟩ | ⟨rest, hw', h⟩
    · exact .inl ⟨post', rfl, ha⟩
    · cases rest with
      | nil => exact .inl ⟨[], by simpa using h.symm, by simpa [hw'] using ha⟩
      | cons d rest =>
        rw [List.cons_append, List.cons.injEq] at h
        exact absurd (by rw [hw', ← h.1]; simp) hw
  · cases mid with
    | nil =>
      cases w with
      | nil => exact .inl ⟨[], by simpa using h.symm, by simpa using hpre.symm⟩
      | cons d w =>
        simp only [List.nil_append, List.cons_append, List.cons.injEq] at h
        exact absurd (by rw [h.1]; simp) hw
    | cons d mid =>
      rw [List.cons_append, List.cons.injEq] at h
      exact .inr ⟨mid, by rw [hpre, h.1], h.2⟩

/-- An occurrence behind a left margin none of whose characters is in the word. -/
theorem of_margin_left (hw : w ≠ []) (hdisj : ∀ x ∈ a, x ∉ w) (h : pre ++ (w ++ post) = a ++ t) :
    ∃ pre', pre = a ++ pre' ∧ t = pre' ++ (w ++ post) := by
  rw [List.append_eq_append_iff] at h
  rcases h with ⟨mid, ha, h⟩ | ⟨pre', hpre, ht⟩
  · cases mid with
    | nil => exact ⟨[], by simpa using ha.symm, by simpa using h.symm⟩
    | cons d mid =>
      cases w with
      | nil => exact absurd rfl hw
      | cons e w =>
        rw [List.cons_append, List.cons_append, List.cons.injEq] at h
        exact absurd (by rw [h.1]; simp) (hdisj d (by rw [ha]; simp))
  · exact ⟨pre', hpre, ht⟩

/-- An occurrence before a right margin none of whose characters is in the word. -/
theorem of_margin_right (hw : w ≠ []) (hdisj : ∀ x ∈ b, x ∉ w) (h : pre ++ (w ++ post) = t ++ b) :
    ∃ post', post = post' ++ b ∧ t = pre ++ (w ++ post') := by
  rw [← List.append_assoc, List.append_eq_append_iff] at h
  rcases h with ⟨post', ht, hpost⟩ | ⟨rest, h, hb⟩
  · exact ⟨post', hpost, by rw [ht, List.append_assoc]⟩
  · cases rest with
    | nil => exact ⟨[], by simpa using hb.symm, by simpa using h.symm⟩
    | cons d rest =>
      -- the last character of the word would be in the margin
      obtain ⟨x, hxw, hxb⟩ : ∃ x, x ∈ w ∧ x ∈ d :: rest := by
        rw [List.append_eq_append_iff] at h
        rcases h with ⟨mid, _, hmid⟩ | ⟨mid, _, hmid⟩
        · exact ⟨d, by rw [hmid]; simp, by simp⟩
        · obtain ⟨x, hx⟩ := List.exists_mem_of_ne_nil w hw
          exact ⟨x, hx, by rw [hmid]; simp [hx]⟩
      exact absurd hxw (hdisj x (by rw [hb]; exact List.mem_append_left _ hxb))

/-- Two occurrences of a word whose first letter does not come back do not overlap. -/
theorem no_overlap {w' pre' post' : List α} (hw : x ∉ w')
    (h : pre ++ (x :: w' ++ post) = pre' ++ (x :: w' ++ post')) (hlt : pre.length < pre'.length) :
    pre.length + (x :: w').length ≤ pre'.length := by
  by_contra hle
  simp only [List.length_cons] at hle
  have hhead : (pre' ++ (x :: w' ++ post'))[pre'.length]? = some x := by
    rw [List.getElem?_append_right (Nat.le_refl _)]
    simp
  rw [← h, List.getElem?_append_right (Nat.le_of_lt hlt), List.cons_append, List.getElem?_cons,
    if_neg (by omega), List.getElem?_append_left (by omega)] at hhead
  exact hw (List.mem_of_getElem? hhead)

end Occurrence

import Mathlib.Data.List.Basic

/-!
# Texts cut at a sigil

A sigil is a letter that begins every word of a kind. A text is what stands before its first sigil
and the tails that follow the sigils, so a word that begins with the sigil and has no other begins
at one of them, and a rewriting of such words works on each tail alone.
-/

namespace Sigil

variable {α : Type*} {c : α} {a w xs : List α} {segs : List (List α)}

/-- A text with the tails behind its sigils. -/
def join (c : α) (a : List α) (segs : List (List α)) : List α := a ++ segs.flatMap (c :: ·)

theorem join_cons (a s : List α) (segs : List (List α)) :
    join c a (s :: segs) = a ++ c :: join c s segs := by
  simp [join]

/-- What stands behind a text's tails begins with the sigil. -/
theorem prefix_join_iff (hw : c ∉ w) : w <+: join c a segs ↔ w <+: a := by
  constructor
  · rintro ⟨rest, hrest⟩
    rcases List.append_eq_append_iff.mp hrest with ⟨m, ha, -⟩ | ⟨m, hwm, hsegs⟩
    · exact ⟨m, ha.symm⟩
    · cases m with
      | nil => exact ⟨[], by simpa using hwm⟩
      | cons x m =>
        cases segs with
        | nil => simp at hsegs
        | cons s segs =>
          simp only [List.flatMap_cons, List.cons_append, List.cons.injEq] at hsegs
          exact absurd (by rw [hwm, ← hsegs.1]; simp) hw
  · intro hpre
    exact hpre.trans (List.prefix_append ..)

theorem takeWhile_join {p : α → Bool} (hp : p c = false) :
    (join c a segs).takeWhile p = a.takeWhile p := by
  induction a with
  | nil => cases segs <;> simp [join, hp]
  | cons x a ih =>
    rw [show join c (x :: a) segs = x :: join c a segs from rfl, List.takeWhile_cons,
      List.takeWhile_cons, ih]

variable [DecidableEq α]

def lead (c : α) (xs : List α) : List α := (xs.splitOn c).headD []

/-- What follows each sigil, up to the next. -/
def tails (c : α) (xs : List α) : List (List α) := (xs.splitOn c).tail

/-- Every tail replaced. -/
def mapTails (c : α) (f : List α → List α) (xs : List α) : List α :=
  join c (lead c xs) ((tails c xs).map f)

theorem splitOn_join (ha : c ∉ a) (hsegs : ∀ s ∈ segs, c ∉ s) :
    (join c a segs).splitOn c = a :: segs := by
  induction segs generalizing a with
  | nil => rw [join, List.flatMap_nil, List.append_nil, List.splitOn_eq_singleton ha]
  | cons s segs ih =>
    rw [List.forall_mem_cons] at hsegs
    rw [join_cons, List.splitOn_append_cons_self_of_not_mem ha, ih hsegs.1 hsegs.2]

theorem lead_join (ha : c ∉ a) (hsegs : ∀ s ∈ segs, c ∉ s) : lead c (join c a segs) = a := by
  rw [lead, splitOn_join ha hsegs, List.headD_cons]

theorem tails_join (ha : c ∉ a) (hsegs : ∀ s ∈ segs, c ∉ s) : tails c (join c a segs) = segs := by
  rw [tails, splitOn_join ha hsegs, List.tail_cons]

theorem mapTails_join (f : List α → List α) (ha : c ∉ a) (hsegs : ∀ s ∈ segs, c ∉ s) :
    mapTails c f (join c a segs) = join c a (segs.map f) := by
  rw [mapTails, lead_join ha hsegs, tails_join ha hsegs]

theorem exists_join (c : α) (xs : List α) :
    ∃ a segs, xs = join c a segs ∧ c ∉ a ∧ ∀ s ∈ segs, c ∉ s := by
  by_cases hmem : c ∈ xs
  · obtain ⟨a, b, hxs, ha⟩ := List.eq_append_cons_of_mem hmem
    have hshort : b.length < xs.length := by rw [hxs]; simp; omega
    obtain ⟨s, segs, rfl, hs, hsegs⟩ := exists_join c b
    exact ⟨a, s :: segs, by rw [hxs, join_cons], ha, List.forall_mem_cons.mpr ⟨hs, hsegs⟩⟩
  · exact ⟨xs, [], by simp [join], hmem, by simp⟩
termination_by xs.length

theorem not_mem_of_mem_tails {s : List α} (hs : s ∈ tails c xs) : c ∉ s := by
  obtain ⟨a, segs, rfl, ha, hsegs⟩ := exists_join c xs
  rw [tails_join ha hsegs] at hs
  exact hsegs s hs

section Maps
variable {f g : List α → List α}

theorem tails_mapTails (hf : ∀ s, c ∉ s → c ∉ f s) :
    tails c (mapTails c f xs) = (tails c xs).map f := by
  obtain ⟨a, segs, rfl, ha, hsegs⟩ := exists_join c xs
  have hmap : ∀ s ∈ segs.map f, c ∉ s := by simpa using fun s hs => hf s (hsegs s hs)
  rw [mapTails_join f ha hsegs, tails_join ha hsegs, tails_join ha hmap]

theorem mapTails_mapTails (hf : ∀ s, c ∉ s → c ∉ f s) :
    mapTails c g (mapTails c f xs) = mapTails c (fun s => g (f s)) xs := by
  obtain ⟨a, segs, rfl, ha, hsegs⟩ := exists_join c xs
  have hmap : ∀ s ∈ segs.map f, c ∉ s := by simpa using fun s hs => hf s (hsegs s hs)
  rw [mapTails_join f ha hsegs, mapTails_join g ha hmap, mapTails_join _ ha hsegs, List.map_map]
  rfl

theorem mapTails_id : mapTails c (fun s => s) xs = xs := by
  obtain ⟨a, segs, rfl, ha, hsegs⟩ := exists_join c xs
  rw [mapTails_join _ ha hsegs, List.map_id']

/-- **Rewriting tail by tail.** Two rewritings agree on a text when they agree on its tails. -/
theorem mapTails_eq_iff (hf : ∀ s, c ∉ s → c ∉ f s) (hg : ∀ s, c ∉ s → c ∉ g s) :
    mapTails c f xs = mapTails c g xs ↔ ∀ s ∈ tails c xs, f s = g s := by
  constructor
  · intro h
    rw [← List.map_inj_left, ← tails_mapTails hf, ← tails_mapTails hg, h]
  · intro h
    rw [mapTails, mapTails, List.map_congr_left h]

end Maps

theorem mem_mapTails_iff {d : α} {f : List α → List α} (hf : ∀ s, d ∈ f s ↔ d ∈ s) :
    d ∈ mapTails c f xs ↔ d ∈ xs := by
  obtain ⟨a, segs, rfl, ha, hsegs⟩ := exists_join c xs
  rw [mapTails_join f ha hsegs]
  simp [join, hf]

/-- The rest of a text behind a sigil begins with a tail. -/
theorem exists_tail (pre rest : List α) :
    ∃ s ∈ tails c (pre ++ c :: rest), ∃ segs, rest = join c s segs := by
  obtain ⟨a, segs, rfl, ha, hsegs⟩ := exists_join c pre
  obtain ⟨b, segs', rfl, hb, hsegs'⟩ := exists_join c rest
  have htext : join c a segs ++ c :: join c b segs' = join c a (segs ++ b :: segs') := by
    simp [join]
  refine ⟨b, ?_, segs', rfl⟩
  rw [htext, tails_join ha]
  · simp
  · intro s hs
    rcases List.mem_append.mp hs with hs | hs
    · exact hsegs s hs
    · rcases List.mem_cons.mp hs with rfl | hs
      · exact hb
      · exact hsegs' s hs

theorem exists_of_mem_tails {s : List α} (hs : s ∈ tails c xs) :
    ∃ pre post, xs = pre ++ c :: (s ++ post) ∧ ∀ x ∈ post.head?, x = c := by
  obtain ⟨a, segs, rfl, ha, hsegs⟩ := exists_join c xs
  rw [tails_join ha hsegs] at hs
  obtain ⟨before, after, rfl⟩ := List.append_of_mem hs
  refine ⟨join c a before, after.flatMap (c :: ·), by simp [join], ?_⟩
  cases after <;> simp

/-- A word without a second sigil begins a tail where it occurs. -/
theorem infix_iff (hw : c ∉ w) :
    (∃ pre post, xs = pre ++ ((c :: w) ++ post)) ↔ ∃ s ∈ tails c xs, w <+: s := by
  constructor
  · rintro ⟨pre, post, rfl⟩
    obtain ⟨s, hs, segs, hrest⟩ := exists_tail pre (w ++ post)
    exact ⟨s, hs, (prefix_join_iff hw).mp (hrest ▸ List.prefix_append w post)⟩
  · rintro ⟨s, hs, rest, rfl⟩
    obtain ⟨pre, post, rfl, -⟩ := exists_of_mem_tails hs
    exact ⟨pre, rest ++ post, by simp⟩

end Sigil

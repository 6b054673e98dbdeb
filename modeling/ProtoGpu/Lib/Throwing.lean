import Mathlib.Data.List.Forall2

/-!
# Computations that may throw

A sequence of steps throws at its first step that does, all the steps before it having returned.
What is ensured of the result and of the errors composes along the sequence.
-/

namespace Throwing

variable {ε α β : Type}

def Throws (x : Except ε α) : Prop := ∃ e, x = .error e

theorem throws_error (e : ε) : Throws (.error e : Except ε α) := ⟨e, rfl⟩

theorem not_throws_ok (a : α) : ¬ Throws (.ok a : Except ε α) := nofun

theorem not_throws_iff {x : Except ε α} : ¬ Throws x ↔ ∃ a, x = .ok a := by
  cases x with
  | error e => exact ⟨fun h => absurd (throws_error e) h, nofun⟩
  | ok a => exact ⟨fun _ => ⟨a, rfl⟩, fun _ => not_throws_ok a⟩

/-- A sequence throws with its first part, or with what follows it. -/
theorem throws_bind {x : Except ε α} {f : α → Except ε β} :
    Throws (x >>= f) ↔ Throws x ∨ ∃ a, x = .ok a ∧ Throws (f a) := by
  cases x with
  | error e => exact ⟨fun _ => .inl (throws_error e), fun _ => throws_error e⟩
  | ok a =>
      constructor
      · exact fun h => .inr ⟨a, rfl, h⟩
      · rintro (h | ⟨b, hb, h⟩)
        · exact absurd h (not_throws_ok a)
        · cases hb
          exact h

/-! ### Results -/

theorem bind_ok {x : Except ε α} {g : α → Except ε β} {b : β} :
    (x >>= g) = .ok b ↔ ∃ a, x = .ok a ∧ g a = .ok b := by
  cases x with
  | error e => simp [bind, Except.bind]
  | ok a => simp [bind, Except.bind]

section Fold
variable {σ : Type} {f : σ → α → Except ε σ} {P : σ → Prop} {s s' : σ} {xs : List α}

theorem foldlM_cons_ok {x : α} :
    (x :: xs).foldlM f s = .ok s' ↔ ∃ mid, f s x = .ok mid ∧ xs.foldlM f mid = .ok s' := by
  rw [List.foldlM_cons]
  cases f s x with
  | error e => simp [bind, Except.bind]
  | ok mid => simp [bind, Except.bind]

theorem foldlM_append_ok {ys : List α} :
    (xs ++ ys).foldlM f s = .ok s' ↔ ∃ mid, xs.foldlM f s = .ok mid ∧ ys.foldlM f mid = .ok s' := by
  rw [List.foldlM_append]
  cases xs.foldlM f s with
  | error e => simp [bind, Except.bind]
  | ok mid => simp [bind, Except.bind]

/-- What the steps over the elements keep, a fold keeps. -/
theorem foldlM_invariant_mem (hstep : ∀ x ∈ xs, ∀ s s', P s → f s x = .ok s' → P s') (hinit : P s)
    (hrun : xs.foldlM f s = .ok s') : P s' := by
  induction xs generalizing s with
  | nil =>
    obtain rfl : s = s' := by simpa [pure, Except.pure] using hrun
    exact hinit
  | cons x xs ih =>
    obtain ⟨mid, hmid, hrest⟩ := foldlM_cons_ok.mp hrun
    exact ih (fun y hy => hstep y (List.mem_cons_of_mem x hy))
      (hstep x List.mem_cons_self s mid hinit hmid) hrest

/-- What every step keeps, a fold keeps. -/
theorem foldlM_invariant (hstep : ∀ s x s', P s → f s x = .ok s' → P s') (hinit : P s)
    (hrun : xs.foldlM f s = .ok s') : P s' :=
  foldlM_invariant_mem (fun x _ s s' => hstep s x s') hinit hrun

/-- A fold whose steps cannot fail does not. -/
theorem foldlM_total (htotal : ∀ x ∈ xs, ∀ s, ∃ s', f s x = .ok s') (s : σ) :
    ∃ s', xs.foldlM f s = .ok s' := by
  induction xs generalizing s with
  | nil => exact ⟨s, rfl⟩
  | cons x xs ih =>
    obtain ⟨mid, hmid⟩ := htotal x (List.mem_cons_self ..) s
    obtain ⟨s', hs'⟩ := ih (fun y hy => htotal y (List.mem_cons_of_mem _ hy)) mid
    exact ⟨s', foldlM_cons_ok.mpr ⟨mid, hmid, hs'⟩⟩

end Fold

/-- A traversal returns a result for each element. -/
theorem mapM_ok {f : α → Except ε β} {xs : List α} {ys : List β} :
    xs.mapM f = .ok ys ↔ List.Forall₂ (fun x y => f x = .ok y) xs ys := by
  induction xs generalizing ys with
  | nil =>
      rw [List.mapM_nil, List.forall₂_nil_left_iff]
      exact ⟨fun h => (Except.ok.inj h).symm, fun h => congrArg _ h.symm⟩
  | cons x xs ih =>
      rw [List.mapM_cons, bind_ok, List.forall₂_cons_left_iff]
      constructor
      · rintro ⟨y, hy, hrest⟩
        obtain ⟨ys', hys', hok⟩ := bind_ok.mp hrest
        exact ⟨y, ys', hy, ih.mp hys', (Except.ok.inj hok).symm⟩
      · rintro ⟨y, ys', hy, hys', rfl⟩
        exact ⟨y, hy, bind_ok.mpr ⟨ys', ih.mpr hys', rfl⟩⟩

theorem forall₂_mem {R : α → β → Prop} {xs : List α} {ys : List β}
    (h : List.Forall₂ R xs ys) : (∀ x ∈ xs, ∃ y ∈ ys, R x y) ∧ ∀ y ∈ ys, ∃ x ∈ xs, R x y := by
  induction h with
  | nil => exact ⟨fun _ h => absurd h List.not_mem_nil, fun _ h => absurd h List.not_mem_nil⟩
  | cons hxy _ ih =>
      refine ⟨fun a ha => ?_, fun b hb => ?_⟩
      · rcases List.mem_cons.mp ha with rfl | ha
        · exact ⟨_, List.mem_cons_self, hxy⟩
        · obtain ⟨b, hb, hab⟩ := ih.1 a ha
          exact ⟨b, List.mem_cons_of_mem _ hb, hab⟩
      · rcases List.mem_cons.mp hb with rfl | hb
        · exact ⟨_, List.mem_cons_self, hxy⟩
        · obtain ⟨a, ha, hab⟩ := ih.2 b hb
          exact ⟨a, List.mem_cons_of_mem _ ha, hab⟩

/-! ### Outcomes -/

/-- The result satisfies `P`, or the error satisfies `E`. -/
structure Ensures (x : Except ε α) (E : ε → Prop) (P : α → Prop) : Prop where
  ok : ∀ a, x = .ok a → P a
  error : ∀ e, x = .error e → E e

variable {E : ε → Prop} {P : α → Prop} {Q : β → Prop}

theorem Ensures.pure {a : α} (ha : P a) : Ensures (.ok a) E P :=
  ⟨fun _ h => Except.ok.inj h ▸ ha, nofun⟩

theorem Ensures.throw {e : ε} (he : E e) : Ensures (.error e : Except ε α) E P :=
  ⟨nofun, fun _ h => Except.error.inj h ▸ he⟩

theorem Ensures.bind {x : Except ε α} {f : α → Except ε β} (hx : Ensures x E P)
    (hf : ∀ a, P a → Ensures (f a) E Q) : Ensures (x >>= f) E Q := by
  cases x with
  | error e => exact .throw (hx.error e rfl)
  | ok a => exact hf a (hx.ok a rfl)

theorem Ensures.mono {x : Except ε α} {P' : α → Prop} (hx : Ensures x E P) (hP : ∀ a, P a → P' a) :
    Ensures x E P' :=
  ⟨fun a h => hP a (hx.ok a h), hx.error⟩

end Throwing

import Mathlib.Data.List.Forall2

/-!
# Demands in order

A reader that checks its input as it goes throws at the first check that fails. What its input is
demanded to satisfy is a list, in the order of the checks: the class of the error is the class of
the first demand that is not met.
-/

namespace Demands

variable {ε φ α β σ : Type}

/-- A condition, and the class of the error where it does not hold. -/
structure Demand (φ : Type) where
  fault : φ
  met : Bool

/-- The class of the first demand that is not met. -/
def firstFault : List (Demand φ) → Option φ
  | [] => none
  | d :: ds => if d.met then firstFault ds else some d.fault

theorem firstFault_append (ds es : List (Demand φ)) :
    firstFault (ds ++ es) = (firstFault ds).or (firstFault es) := by
  induction ds with
  | nil => rfl
  | cons d ds ih =>
      rw [List.cons_append, firstFault, firstFault]
      split
      · exact ih
      · rfl

/-! ### Readers -/

/-- The class of the error, if there is one. -/
def faultOf (classify : ε → φ) : Except ε α → Option φ
  | .ok _ => none
  | .error e => some (classify e)

/-- The reader demands the list. -/
def Checks (classify : ε → φ) (x : Except ε α) (ds : List (Demand φ)) : Prop :=
  faultOf classify x = firstFault ds

variable {classify : ε → φ} {x : Except ε α} {f : α → Except ε β} {ds es : List (Demand φ)}

theorem Checks.pure (a : α) : Checks classify (.ok a) [] := rfl

theorem Checks.throw {e : ε} {c : φ} (hc : classify e = c) :
    Checks classify (.error e : Except ε α) [⟨c, false⟩] := congrArg some hc

/-- A sequence demands what its parts do. -/
theorem Checks.bind (hx : Checks classify x ds) (hf : ∀ a, x = .ok a → Checks classify (f a) es) :
    Checks classify (x >>= f) (ds ++ es) := by
  unfold Checks at hx ⊢
  rw [firstFault_append, ← hx]
  cases x with
  | error e => rfl
  | ok a => exact hf a rfl

theorem Checks.step {d : Demand φ} (hx : Checks classify x [d])
    (hf : ∀ a, x = .ok a → Checks classify (f a) es) : Checks classify (x >>= f) (d :: es) :=
  hx.bind hf

/-- What follows an element does not matter when nothing is left to fail. -/
theorem Checks.map (hx : Checks classify x ds) {g : α → β} :
    Checks classify (x >>= fun a => .ok (g a)) ds :=
  (List.append_nil ds) ▸ hx.bind fun a _ => .pure (g a)

/-- Two demands of one class are one. -/
theorem Checks.merge {c : φ} {p q : Bool} (hx : Checks classify x (⟨c, p⟩ :: ⟨c, q⟩ :: ds)) :
    Checks classify x (⟨c, p && q⟩ :: ds) := by
  unfold Checks at hx ⊢
  rw [hx]
  cases p with
  | true => rfl
  | false => rfl

variable {g : α → List (Demand φ)} {xs : List α}

theorem Checks.mapM {f : α → Except ε β} (hf : ∀ a ∈ xs, Checks classify (f a) (g a)) :
    Checks classify (xs.mapM f) (xs.flatMap g) := by
  induction xs with
  | nil => exact .pure []
  | cons a xs ih =>
      rw [List.mapM_cons, List.flatMap_cons]
      refine (hf a List.mem_cons_self).bind fun b _ => ?_
      exact (ih fun a' ha' => hf a' (List.mem_cons_of_mem _ ha')).map

/-- A fold demands what its steps do, when that does not depend on the state. -/
theorem Checks.foldlM_forall₂ {f : σ → β → Except ε σ} {ys : List β}
    (hf : List.Forall₂ (fun a b => ∀ s, Checks classify (f s b) (g a)) xs ys) (s : σ) :
    Checks classify (ys.foldlM f s) (xs.flatMap g) := by
  induction hf generalizing s with
  | nil => exact .pure s
  | cons hab _ ih =>
      rw [List.foldlM_cons, List.flatMap_cons]
      exact (hab s).bind fun s' _ => ih s'

theorem Checks.foldlM {f : σ → α → Except ε σ}
    (hf : ∀ a ∈ xs, ∀ s, Checks classify (f s a) (g a)) (s : σ) :
    Checks classify (xs.foldlM f s) (xs.flatMap g) :=
  .foldlM_forall₂ (List.forall₂_same.mpr hf) s

end Demands

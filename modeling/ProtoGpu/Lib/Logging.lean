import Mathlib.Data.List.Forall2

/-!
# Computations that log

A computation may throw, and what it has logged by then stays logged. A triple says what it returns
and what the whole log then is, the entries from before included.
-/

namespace Logging

variable {σ ι ε α β : Type}

/-- Computations that may throw, over a log `σ`. -/
abbrev LogM (σ ε α : Type) := ExceptT ε (StateM σ) α

/-- A computation that logs nothing. -/
def quietly (x : Except ε α) : LogM σ ε α := ExceptT.mk (pure x)

def record (add : σ → ι → σ) (i : ι) : LogM σ ε Unit := modify fun s => add s i

/-- The outcome and the log after it. -/
def exec (x : LogM σ ε α) (s : σ) : Except ε α × σ := (ExceptT.run x s).run

theorem exec_bind (x : LogM σ ε α) (f : α → LogM σ ε β) (s : σ) :
    exec (x >>= f) s = (ExceptT.bindCont f (exec x s).1).run (exec x s).2 := rfl

/-- With the entries `w` logged, `x` ends with `r`. Of a result and the log then `I` holds, of an
error and the log then `E`. -/
def Triple (add : σ → ι → σ) (w : List ι) (x : LogM σ ε α) (r : Except ε α)
    (I : α → List ι → Prop) (E : ε → List ι → Prop) : Prop :=
  ∃ w', (∀ s, exec x (w.foldl add s) = (r, w'.foldl add s))
    ∧ (∀ a, r = .ok a → I a w') ∧ ∀ e, r = .error e → E e w'

variable {add : σ → ι → σ} {w : List ι} {x : LogM σ ε α} {r : Except ε α} {I : α → List ι → Prop}
  {J : β → List ι → Prop} {E : ε → List ι → Prop}

theorem Triple.pure {a : α} (ha : I a w) : Triple add w (Pure.pure a) (.ok a) I E :=
  ⟨w, fun _ => rfl, fun _ h => Except.ok.inj h ▸ ha, nofun⟩

theorem Triple.bind {f : α → LogM σ ε β} {g : α → Except ε β} (hx : Triple add w x r I E)
    (hf : ∀ a w', r = .ok a → I a w' → Triple add w' (f a) (g a) J E) :
    Triple add w (x >>= f) (r >>= g) J E := by
  obtain ⟨w', hrun, hok, herror⟩ := hx
  cases r with
  | error e =>
      refine ⟨w', fun s => ?_, nofun, fun e' h => Except.error.inj h ▸ herror e rfl⟩
      rw [exec_bind, hrun]
      rfl
  | ok a =>
      obtain ⟨w'', hrest, hI, hE⟩ := hf a w' rfl (hok a rfl)
      refine ⟨w'', fun s => ?_, hI, hE⟩
      rw [exec_bind, hrun]
      exact hrest s

/-- An entry more. -/
theorem Triple.record_bind {i : ι} {f : Unit → LogM σ ε β} {r : Except ε β}
    (hf : Triple add (w ++ [i]) (f ()) r J E) : Triple add w (record add i >>= f) r J E := by
  obtain ⟨w', hrun, hok, herror⟩ := hf
  refine ⟨w', fun s => ?_, hok, herror⟩
  have h := hrun s
  rw [List.foldl_append] at h
  exact h

theorem Triple.ok_bind {a : α} {f : α → LogM σ ε β} {r : Except ε β}
    (hf : Triple add w (f a) r J E) : Triple add w (quietly (.ok a) >>= f) r J E := hf

theorem Triple.throw {e : ε} {f : α → LogM σ ε β} (he : E e w) :
    Triple add w (quietly (.error e) >>= f) (.error e) J E :=
  ⟨w, fun _ => rfl, nofun, fun _ h => Except.error.inj h ▸ he⟩

theorem Triple.quietly_bind {f : α → LogM σ ε β} {g : α → Except ε β}
    (hok : ∀ a, r = .ok a → Triple add w (f a) (g a) J E) (herror : ∀ e, r = .error e → E e w) :
    Triple add w (quietly r >>= f) (r >>= g) J E := by
  cases r with
  | error e => exact .throw (herror e rfl)
  | ok a => exact .ok_bind (hok a rfl)

/-- A fold keeps what each step keeps, of what is left, the result so far and the log. -/
theorem Triple.foldlM {f : β → α → LogM σ ε β} {g : β → α → Except ε β}
    {I : List α → β → List ι → Prop}
    (hstep : ∀ x xs b w, I (x :: xs) b w → Triple add w (f b x) (g b x) (I xs) E)
    (xs : List α) (b : β) (w : List ι) (hinit : I xs b w) :
    Triple add w (xs.foldlM f b) (xs.foldlM g b) (I []) E := by
  induction xs generalizing b w with
  | nil => exact .pure hinit
  | cons x xs ih =>
      rw [List.foldlM_cons, List.foldlM_cons]
      exact (hstep x xs b w hinit).bind fun b' w' _ h => ih b' w' h

end Logging

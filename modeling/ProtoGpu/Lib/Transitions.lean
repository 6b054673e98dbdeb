import Mathlib.Data.List.Induction

/-!
# Runs of a labelled transition system

A run is read from its start, one event at the end at a time, so that an invariant may speak of the
events so far.
-/

namespace Transitions

variable {σ ε : Type*} {step : σ → ε → σ → Prop}

inductive Run (step : σ → ε → σ → Prop) (s : σ) : List ε → σ → Prop
  | start : Run step s [] s
  | next {es : List ε} {t : σ} {e : ε} {u : σ} : Run step s es t → step t e u →
      Run step s (es ++ [e]) u

/-- **Rule of invariants.** -/
theorem Run.invariant {I : List ε → σ → Prop} {s : σ} (hstart : I [] s)
    (hstep : ∀ es t e u, I es t → step t e u → I (es ++ [e]) u) {es : List ε} {t : σ}
    (hrun : Run step s es t) : I es t := by
  induction hrun with
  | start => exact hstart
  | next _ hlast ih => exact hstep _ _ _ _ ih hlast

theorem Run.append {s t u : σ} {es es' : List ε} (hfirst : Run step s es t)
    (hrest : Run step t es' u) : Run step s (es ++ es') u := by
  induction hrest with
  | start => rwa [List.append_nil]
  | next _ hlast ih =>
      rw [← List.append_assoc]
      exact ih.next hlast

theorem Run.mono {step' : σ → ε → σ → Prop} (hmono : ∀ s e t, step s e t → step' s e t) {s t : σ}
    {es : List ε} (hrun : Run step s es t) : Run step' s es t := by
  induction hrun with
  | start => exact .start
  | next _ hlast ih => exact ih.next (hmono _ _ _ hlast)

/-- A run all of whose events satisfy `P`. -/
theorem Run.restrict {P : ε → Prop} {s t : σ} {es : List ε} (hrun : Run step s es t)
    (hall : ∀ e ∈ es, P e) : Run (fun s e t => step s e t ∧ P e) s es t := by
  induction hrun with
  | start => exact .start
  | next _ hlast ih =>
      have hprev := ih fun e he => hall e (List.mem_append_left _ he)
      exact hprev.next ⟨hlast, hall _ (List.mem_append_right _ (List.mem_singleton_self _))⟩

theorem Run.single {s t : σ} {e : ε} (h : step s e t) : Run step s [e] t := Run.start.next h

theorem Run.last {s u : σ} {es : List ε} {e : ε} (hrun : Run step s (es ++ [e]) u) :
    ∃ t, Run step s es t ∧ step t e u := by
  generalize hevents : es ++ [e] = events at hrun
  cases hrun with
  | start => exact absurd hevents (List.append_ne_nil_of_right_ne_nil _ (List.cons_ne_nil _ _))
  | next hprev hlast =>
      obtain ⟨rfl, hsame⟩ := List.append_inj' hevents rfl
      obtain rfl := List.singleton_inj.mp hsame
      exact ⟨_, hprev, hlast⟩

/-- A run passes through a state at every point of its events. -/
theorem Run.split {s u : σ} {es es' : List ε} (hrun : Run step s (es ++ es') u) :
    ∃ t, Run step s es t ∧ Run step t es' u := by
  induction es' using List.reverseRecOn generalizing u with
  | nil =>
      rw [List.append_nil] at hrun
      exact ⟨u, hrun, .start⟩
  | append_singleton es' e ih =>
      rw [← List.append_assoc] at hrun
      obtain ⟨t, hprev, hlast⟩ := hrun.last
      obtain ⟨mid, hfirst, hrest⟩ := ih hprev
      exact ⟨mid, hfirst, hrest.next hlast⟩

theorem Run.split_cons {s u : σ} {es es' : List ε} {e : ε} (hrun : Run step s (es ++ e :: es') u) :
    ∃ t t', Run step s es t ∧ step t e t' ∧ Run step t' es' u := by
  rw [List.append_cons] at hrun
  obtain ⟨t', hfirst, hrest⟩ := hrun.split
  obtain ⟨t, hprev, hlast⟩ := hfirst.last
  exact ⟨t, t', hprev, hlast, hrest⟩

end Transitions

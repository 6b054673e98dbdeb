import Mathlib
import ProtoGpu.Lib.Transitions

/-!
# Threads over one store

Deterministic threads, each with a state of its own, that step in any order on a store they share. A
step depends on the cells it touches only and changes none but those it writes. When no thread
writes a cell that another one touches, a thread cannot tell an order of the steps from being alone,
so every order does at each thread what one order did.
-/

namespace Interleaving

open Transitions

variable {ι L A V O : Type*}

/-- What a step of a thread shows, and what it leaves of its state and of the store. -/
structure Machine (L A V O : Type*) where
  step : L → (A → V) → Option (O × L × (A → V))
  touches : L → (A → V) → Set A
  writes : L → (A → V) → Set A
  writes_touched : ∀ l m, writes l m ⊆ touches l m
  frame : ∀ {l m o l' m' a}, step l m = some (o, l', m') → a ∉ writes l m → m' a = m a
  depends : ∀ {l m n o l' m'}, step l m = some (o, l', m') → Set.EqOn n m (touches l m) →
    touches l n = touches l m ∧ writes l n = writes l m
      ∧ ∃ n', step l n = some (o, l', n') ∧ Set.EqOn n' m' (touches l m)

structure Config (ι L A V : Type*) where
  threads : ι → L
  store : A → V

/-- What each thread may touch and write, so that no other thread is concerned. -/
structure Footprint (ι A : Type*) where
  touched : ι → Set A
  written : ι → Set A
  written_touched : ∀ i, written i ⊆ touched i
  apart : ∀ {i j}, i ≠ j → Disjoint (written i) (touched j)

section Steps

variable [DecidableEq ι]

/-- One step of one thread. -/
inductive Step (M : Machine L A V O) : Config ι L A V → ι × O → Config ι L A V → Prop
  | mk {c : Config ι L A V} (i : ι) {o : O} {l : L} {m : A → V} :
      M.step (c.threads i) c.store = some (o, l, m) →
      Step M c (i, o) { threads := Function.update c.threads i l, store := m }

/-- A thread that has stopped stays where it is. -/
theorem stopped_stays {M : Machine L A V O} {c₀ c : Config ι L A V} {es : List (ι × O)} {i : ι}
    (hrun : Run (Step M) c₀ es c) (hstopped : ∀ m, M.step (c₀.threads i) m = none) :
    c.threads i = c₀.threads i := by
  refine hrun.invariant (I := fun _ c => c.threads i = c₀.threads i) rfl fun es s e t hsame hstep =>
    ?_
  cases hstep with
  | mk j hstep =>
      have hne : i ≠ j := by
        rintro rfl
        rw [hsame, hstopped] at hstep
        cases hstep
      exact (Function.update_of_ne hne ..).trans hsame

/-- One step of one thread, inside its footprint. -/
def StepWithin (M : Machine L A V O) (F : Footprint ι A) (c : Config ι L A V) (e : ι × O)
    (d : Config ι L A V) : Prop :=
  Step M c e d ∧ M.touches (c.threads e.1) c.store ⊆ F.touched e.1
    ∧ M.writes (c.threads e.1) c.store ⊆ F.written e.1

/-- What one thread has shown. -/
def outputs (i : ι) (es : List (ι × O)) : List O :=
  es.filterMap fun e => if e.1 = i then some e.2 else none

theorem outputs_concat (i j : ι) (o : O) (es : List (ι × O)) :
    outputs i (es ++ [(j, o)]) = if j = i then outputs i es ++ [o] else outputs i es := by
  unfold outputs
  rw [List.filterMap_append]
  split
  next h => simp [h]
  next h => simp [h]

theorem count_outputs [DecidableEq O] (i : ι) (o : O) (es : List (ι × O)) :
    es.count (i, o) = (outputs i es).count o := by
  induction es with
  | nil => rfl
  | cons e es ih =>
      obtain ⟨j, o'⟩ := e
      have hcons :
          outputs i ((j, o') :: es) = if j = i then o' :: outputs i es else outputs i es := by
        unfold outputs
        rw [List.filterMap_cons]
        split <;> simp_all
      rw [List.count_cons, ih, hcons]
      by_cases hj : j = i
      · rw [if_pos hj, List.count_cons]
        simp [hj]
      · rw [if_neg hj, if_neg (by simp [hj]), Nat.add_zero]

end Steps

/-! ### One thread alone -/

/-- The first `k` steps of a thread that has the store for itself. -/
def Machine.solo (M : Machine L A V O) (l : L) (m : A → V) : Nat → Option (List O × L × (A → V))
  | 0 => some ([], l, m)
  | k + 1 =>
      (M.solo l m k).bind fun s => (M.step s.2.1 s.2.2).map fun r => (s.1 ++ [r.1], r.2.1, r.2.2)

section Solo

variable {M : Machine L A V O} {l₀ l l' : L} {m₀ m m' : A → V} {os os' : List O} {o : O} {k n : Nat}

theorem solo_succ (h : M.solo l₀ m₀ k = some (os, l, m)) (hstep : M.step l m = some (o, l', m')) :
    M.solo l₀ m₀ (k + 1) = some (os ++ [o], l', m') := by
  rw [Machine.solo, h, Option.bind_some, hstep, Option.map_some]

/-- Before its end, a thread steps on. -/
theorem solo_prev (h : M.solo l₀ m₀ n = some (os', l', m')) (hlt : k < n) :
    ∃ os l m r, M.solo l₀ m₀ k = some (os, l, m) ∧ M.step l m = some r ∧ os ++ [r.1] <+: os' := by
  induction n generalizing os' l' m' with
  | zero => exact absurd hlt (Nat.not_lt_zero k)
  | succ n ih =>
      obtain ⟨⟨os, l, m⟩, hprev, hlast⟩ := Option.bind_eq_some_iff.mp h
      obtain ⟨r, hstep, hr⟩ := Option.map_eq_some_iff.mp hlast
      obtain ⟨rfl, -⟩ := Prod.mk.inj hr
      rcases Nat.lt_succ_iff_lt_or_eq.mp hlt with hearlier | rfl
      · obtain ⟨os₁, l₁, m₁, r₁, hsolo, hnext, hprefix⟩ := ih hprev hearlier
        exact ⟨os₁, l₁, m₁, r₁, hsolo, hnext, hprefix.trans (List.prefix_append ..)⟩
      · exact ⟨os, l, m, r, hprev, hstep, List.prefix_refl _⟩

/-- A thread that has come to its end after `n` steps is nowhere past them. -/
theorem solo_le (hend : M.solo l₀ m₀ n = some (os', l', m')) (hhalted : ∀ m, M.step l' m = none)
    (h : M.solo l₀ m₀ k = some (os, l, m)) : k ≤ n := by
  by_contra hgt
  obtain ⟨os₁, l₁, m₁, r, hsolo, hstep, -⟩ := solo_prev h (Nat.lt_of_not_le hgt)
  obtain ⟨-, rfl, -⟩ : os' = os₁ ∧ l' = l₁ ∧ m' = m₁ := by
    simpa using Option.some.inj (hend.symm.trans hsolo)
  rw [hhalted] at hstep
  cases hstep

end Solo

/-! ### In company -/

section Company

variable [DecidableEq ι] {M : Machine L A V O} {F : Footprint ι A} {c₀ c d : Config ι L A V}
  {es es' : List (ι × O)} {i : ι} {o : O} {l : L} {m : A → V}

/-- Each thread is where it would be alone after as many steps, with the same store in what it may
touch, and stayed in there on the way. -/
structure Follows (M : Machine L A V O) (F : Footprint ι A) (c₀ : Config ι L A V)
    (es : List (ι × O)) (c : Config ι L A V) : Prop where
  solo : ∀ i, ∃ m, M.solo (c₀.threads i) c₀.store (outputs i es).length
    = some (outputs i es, c.threads i, m) ∧ Set.EqOn c.store m (F.touched i)
  inside : ∀ i k os l m, k < (outputs i es).length →
    M.solo (c₀.threads i) c₀.store k = some (os, l, m) →
      M.touches l m ⊆ F.touched i ∧ M.writes l m ⊆ F.written i
  kept : ∀ a, (∀ i, a ∉ F.written i) → c.store a = c₀.store a

theorem Follows.start : Follows M F c₀ [] c₀ where
  solo _ := ⟨c₀.store, rfl, fun _ _ => rfl⟩
  inside _ k _ _ _ hk := absurd hk (Nat.not_lt_zero k)
  kept _ _ := rfl

theorem Follows.step (h : Follows M F c₀ es c)
    (hstep : M.step (c.threads i) c.store = some (o, l, m))
    (htouches : M.touches (c.threads i) c.store ⊆ F.touched i)
    (hwrites : M.writes (c.threads i) c.store ⊆ F.written i) :
    Follows M F c₀ (es ++ [(i, o)]) { threads := Function.update c.threads i l, store := m } := by
  obtain ⟨n, hsolo, hsame⟩ := h.solo i
  obtain ⟨htouchesEq, hwritesEq, n', hstep', hsame'⟩ :=
    M.depends hstep fun a ha => (hsame (htouches ha)).symm
  refine ⟨fun j => ?_, fun j k os l₁ m₁ hk hsolo₁ => ?_, fun a ha => ?_⟩
  · rw [outputs_concat]
    dsimp only
    by_cases hij : i = j
    · subst hij
      rw [if_pos rfl, Function.update_self, List.length_append]
      refine ⟨n', solo_succ hsolo hstep', fun a ha => ?_⟩
      by_cases htouched : a ∈ M.touches (c.threads i) c.store
      · exact (hsame' htouched).symm
      · have hunwritten : a ∉ M.writes (c.threads i) c.store :=
          fun hw => htouched (M.writes_touched _ _ hw)
        calc m a = c.store a := M.frame hstep hunwritten
          _ = n a := hsame ha
          _ = n' a := (M.frame hstep' (hwritesEq ▸ hunwritten)).symm
    · obtain ⟨n, hsolo, hsame⟩ := h.solo j
      rw [if_neg hij, Function.update_of_ne (Ne.symm hij)]
      refine ⟨n, hsolo, fun a ha => ?_⟩
      have hunwritten : a ∉ M.writes (c.threads i) c.store :=
        fun hw => Set.disjoint_left.mp (F.apart hij) (hwrites hw) ha
      exact (M.frame hstep hunwritten).trans (hsame ha)
  · rw [outputs_concat] at hk
    by_cases hij : i = j
    · subst hij
      rw [if_pos rfl, List.length_append] at hk
      rcases Nat.lt_succ_iff_lt_or_eq.mp hk with hearlier | rfl
      · exact h.inside i k os l₁ m₁ hearlier hsolo₁
      · obtain ⟨-, rfl, rfl⟩ : outputs i es = os ∧ c.threads i = l₁ ∧ n = m₁ := by
          simpa using Option.some.inj (hsolo.symm.trans hsolo₁)
        rw [htouchesEq, hwritesEq]
        exact ⟨htouches, hwrites⟩
    · rw [if_neg hij] at hk
      exact h.inside j k os l₁ m₁ hk hsolo₁
  · exact (M.frame hstep fun hw => ha i (hwrites hw)).trans (h.kept a ha)

theorem follows_run (hrun : Run (StepWithin M F) c₀ es c) : Follows M F c₀ es c := by
  refine hrun.invariant Follows.start fun es s e t hfollows hstep => ?_
  obtain ⟨hstep, htouches, hwrites⟩ := hstep
  cases hstep with
  | mk i hstep => exact hfollows.step hstep htouches hwrites

/-- A run inside the footprints, to where no thread can step whatever the store. -/
structure Complete (M : Machine L A V O) (F : Footprint ι A) (c₀ : Config ι L A V)
    (es : List (ι × O)) (d : Config ι L A V) : Prop where
  run : Run (StepWithin M F) c₀ es d
  halted : ∀ i m, M.step (d.threads i) m = none

/-- A thread of any other order has still to go, or is where the complete run left it. -/
theorem Complete.turn (hd : Complete M F c₀ es d) (hc : Follows M F c₀ es' c) (i : ι) :
    outputs i es' <+: outputs i es
      ∧ ((∃ r, M.step (c.threads i) c.store = some r
            ∧ M.touches (c.threads i) c.store ⊆ F.touched i
            ∧ M.writes (c.threads i) c.store ⊆ F.written i)
        ∨ c.threads i = d.threads i ∧ outputs i es' = outputs i es
            ∧ Set.EqOn c.store d.store (F.touched i)) := by
  have hfollows := follows_run hd.run
  obtain ⟨m, hsolo, hsame⟩ := hc.solo i
  obtain ⟨n, hend, hsameEnd⟩ := hfollows.solo i
  rcases Nat.lt_or_eq_of_le (solo_le hend (hd.halted i) hsolo) with hlt | heq
  · obtain ⟨os, l, m₁, r, hsolo', hstep, hprefix⟩ := solo_prev hend hlt
    obtain ⟨rfl, rfl, rfl⟩ : outputs i es' = os ∧ c.threads i = l ∧ m = m₁ := by
      simpa using Option.some.inj (hsolo.symm.trans hsolo')
    obtain ⟨htouches, hwrites⟩ := hfollows.inside i _ _ _ _ hlt hsolo
    obtain ⟨htouchesEq, hwritesEq, m', hstep', -⟩ :=
      M.depends hstep fun a ha => hsame (htouches ha)
    refine ⟨(List.prefix_append ..).trans hprefix, .inl ⟨_, hstep', ?_, ?_⟩⟩
    · rwa [htouchesEq]
    · rwa [hwritesEq]
  · rw [heq] at hsolo
    obtain ⟨houtputs, hthread, rfl⟩ : outputs i es' = outputs i es ∧ c.threads i = d.threads i
        ∧ m = n := by
      simpa using Option.some.inj (hsolo.symm.trans hend)
    refine ⟨houtputs ▸ List.prefix_refl _, .inr ⟨hthread, houtputs, fun a ha => ?_⟩⟩
    exact (hsame ha).trans (hsameEnd ha).symm

/-- Every order stays inside the footprints of one complete order. -/
theorem Complete.follows (hd : Complete M F c₀ es d) (hrun : Run (Step M) c₀ es' c) :
    Follows M F c₀ es' c := by
  refine hrun.invariant Follows.start fun es s e t hfollows hstep => ?_
  cases hstep with
  | mk i hstep =>
      rcases (hd.turn hfollows i).2 with ⟨r, -, htouches, hwrites⟩ | ⟨hthread, -⟩
      · exact hfollows.step hstep htouches hwrites
      · rw [hthread, hd.halted] at hstep
        cases hstep

/-- No order is longer than a complete one, at any thread and for any output. -/
theorem Complete.subperm (hd : Complete M F c₀ es d) (hrun : Run (Step M) c₀ es' c) :
    es'.Subperm es := by
  classical
  refine List.subperm_ext_iff.mpr fun e _ => ?_
  obtain ⟨i, o⟩ := e
  rw [count_outputs, count_outputs]
  exact (hd.turn (hd.follows hrun) i).1.sublist.count_le o

/-- **Confluence.** Where no thread can step any more, any order has come to the end of the complete
one, with the same steps. -/
theorem Complete.confluent (hd : Complete M F c₀ es d) (hrun : Run (Step M) c₀ es' c)
    (hstuck : ∀ i, M.step (c.threads i) c.store = none) : c = d ∧ es'.Perm es := by
  have hfollows := hd.follows hrun
  have hturn : ∀ i, c.threads i = d.threads i ∧ outputs i es' = outputs i es
      ∧ Set.EqOn c.store d.store (F.touched i) := by
    intro i
    refine (hd.turn hfollows i).2.resolve_left ?_
    rintro ⟨r, hstep, -⟩
    rw [hstuck] at hstep
    cases hstep
  constructor
  · obtain ⟨threads, store⟩ := c
    obtain ⟨threads', store'⟩ := d
    have hthreads : threads = threads' := funext fun i => (hturn i).1
    have hstore : store = store' := by
      funext a
      by_cases howned : ∃ i, a ∈ F.written i
      · obtain ⟨i, hi⟩ := howned
        exact (hturn i).2.2 (F.written_touched i hi)
      · push Not at howned
        exact (hfollows.kept a howned).trans ((follows_run hd.run).kept a howned).symm
    rw [hthreads, hstore]
  · classical
    refine List.perm_iff_count.mpr fun e => ?_
    obtain ⟨i, o⟩ := e
    rw [count_outputs, count_outputs, (hturn i).2.1]

end Company

end Interleaving

import ProtoGpu.Lib.LocalLoop

/-!
# Loops that write one cell a turn

A loop over indices whose turn at `i` computes a value from the state it has reached and stores it
in the cell of `i`. Such a loop is simultaneous when each cell ends with the value computed from the
state the loop started in. That is a condition on the start alone: no value changes when the cells
before it already hold the values of the start.
-/

namespace CellLoop

open LocalLoop

universe u v w x

variable {ι : Type u} {σ : Type v} {ε : Type w} {V : Type x}

/-- Compute the value of `i` and store it. -/
def store (write : ι → V → σ → Except ε σ) (value : σ → ι → Except ε V) (i : ι) (s : σ) :
    Except ε σ :=
  match value s i with
  | .error e => .error e
  | .ok v => write i v s

/-- The loop body that stores the values of one fixed state. -/
def frozen (write : ι → V → σ → Except ε σ) (value : σ → ι → Except ε V) (s₀ : σ) :
    ι → σ → Except ε σ :=
  store write fun _ i => value s₀ i

/-- Storing in one cell leaves the others; of a value a cell keeps its `norm`. The laws hold in the
states of `inv` at the indices of `dom`. -/
structure Cells (inv : σ → Prop) (dom : ι → Prop) (write : ι → V → σ → Except ε σ)
    (read : ι → σ → V) (norm : V → V) : Prop where
  keep : ∀ {i v s s'}, inv s → dom i → write i v s = .ok s' → inv s'
  read_self : ∀ {i v s s'}, inv s → dom i → write i v s = .ok s' → read i s' = norm v
  read_other : ∀ {i j v s s'}, inv s → dom i → dom j → write i v s = .ok s' → j ≠ i →
    read j s' = read j s
  write_congr : ∀ {i v v' s}, norm v = norm v' → write i v s = write i v' s

section Split

variable {body : ι → σ → Except ε σ}

theorem forEach_append_ok {l₁ l₂ : List ι} {s s' : σ} :
    forEach body (l₁ ++ l₂) s = (none, s') ↔
      ∃ t, forEach body l₁ s = (none, t) ∧ forEach body l₂ t = (none, s') := by
  induction l₁ generalizing s with
  | nil => simp [forEach]
  | cons i l₁ ih =>
      rw [List.cons_append, forEach, forEach]
      cases body i s with
      | error e => simp
      | ok t => exact ih

theorem forEach_append_of_ok {l₁ l₂ : List ι} {s t : σ} (h : forEach body l₁ s = (none, t)) :
    forEach body (l₁ ++ l₂) s = forEach body l₂ t := by
  induction l₁ generalizing s with
  | nil =>
      cases h
      rfl
  | cons i l₁ ih =>
      rw [forEach] at h
      rw [List.cons_append, forEach]
      cases hturn : body i s with
      | error e =>
          rw [hturn] at h
          cases h
      | ok u =>
          rw [hturn] at h
          exact ih h

theorem forEach_cons_ok {i : ι} {is : List ι} {s s' : σ} :
    forEach body (i :: is) s = (none, s') ↔
      ∃ t, body i s = .ok t ∧ forEach body is t = (none, s') := by
  rw [forEach]
  cases body i s <;> simp

/-- The state a turn starts in, and the one it leaves. -/
theorem forEach_turn {pre post : List ι} {i : ι} {s s' : σ}
    (h : forEach body (pre ++ i :: post) s = (none, s')) :
    ∃ t t', forEach body pre s = (none, t) ∧ body i t = .ok t'
      ∧ forEach body post t' = (none, s') := by
  obtain ⟨t, hpre, hrest⟩ := forEach_append_ok.mp h
  obtain ⟨t', hturn, hpost⟩ := forEach_cons_ok.mp hrest
  exact ⟨t, t', hpre, hturn, hpost⟩

end Split

variable {inv : σ → Prop} {dom : ι → Prop} {write : ι → V → σ → Except ε σ} {read : ι → σ → V}
  {norm : V → V} {value : σ → ι → Except ε V} {is pre post : List ι} {i : ι} {s s' : σ}

theorem store_ok (h : store write value i s = .ok s') :
    ∃ v, value s i = .ok v ∧ write i v s = .ok s' := by
  unfold store at h
  split at h
  · cases h
  next v hv => exact ⟨v, hv, h⟩

namespace Cells

variable (hcells : Cells inv dom write read norm)
include hcells

theorem run_keep (value : σ → ι → Except ε V) (hinv : inv s) (hdom : ∀ i ∈ is, dom i) :
    inv (forEach (store write value) is s).2 := by
  induction is generalizing s with
  | nil => exact hinv
  | cons i is ih =>
      rw [forEach]
      split
      · exact hinv
      next t hturn =>
        obtain ⟨v, -, hwrite⟩ := store_ok hturn
        exact ih (hcells.keep hinv (hdom i (by simp)) hwrite) fun j hj => hdom j (by simp [hj])

/-- A loop keeps the cells of the other indices, wherever it stops. -/
theorem run_other (value : σ → ι → Except ε V) {j : ι} (hinv : inv s) (hdom : ∀ i ∈ is, dom i)
    (hj : dom j) (hnot : j ∉ is) : read j (forEach (store write value) is s).2 = read j s := by
  induction is generalizing s with
  | nil => rfl
  | cons i is ih =>
      rw [List.mem_cons, not_or] at hnot
      rw [forEach]
      split
      · rfl
      next t hturn =>
        obtain ⟨v, -, hwrite⟩ := store_ok hturn
        have hi := hdom i (by simp)
        rw [ih (hcells.keep hinv hi hwrite) (fun k hk => hdom k (by simp [hk])) hnot.2]
        exact hcells.read_other hinv hi hj hwrite hnot.1

/-- A turn that ran leaves its value in its cell, wherever the loop stops. -/
theorem run_ran {t t' : σ} (hinv : inv s) (hdom : ∀ j ∈ pre ++ i :: post, dom j)
    (hnodup : (pre ++ i :: post).Nodup) (hpre : forEach (store write value) pre s = (none, t))
    (hturn : store write value i t = .ok t') :
    ∃ v, value t i = .ok v
      ∧ read i (forEach (store write value) (pre ++ i :: post) s).2 = norm v := by
  obtain ⟨v, hv, hwrite⟩ := store_ok hturn
  have hi : dom i := hdom i (by simp)
  have hinvt : inv t := by
    have h := hcells.run_keep value hinv fun j hj => hdom j (List.mem_append_left _ hj)
    rwa [hpre] at h
  have hnot : i ∉ post := (List.nodup_cons.mp (List.nodup_append.mp hnodup).2.1).1
  refine ⟨v, hv, ?_⟩
  rw [forEach_append_of_ok hpre, forEach, hturn]
  dsimp only
  rw [hcells.run_other value (hcells.keep hinvt hi hwrite) (fun j hj => hdom j (by simp [hj])) hi
    hnot, hcells.read_self hinvt hi hwrite]

/-- A cell ends with the value its turn computed. -/
theorem run_self (hinv : inv s) (hdom : ∀ i ∈ is, dom i) (hnodup : is.Nodup)
    (hsplit : is = pre ++ i :: post) (hrun : forEach (store write value) is s = (none, s')) :
    ∃ t v, forEach (store write value) pre s = (none, t) ∧ value t i = .ok v
      ∧ read i s' = norm v := by
  subst hsplit
  obtain ⟨t, t', hpre, hturn, -⟩ := forEach_turn hrun
  obtain ⟨v, hv, hread⟩ := hcells.run_ran hinv hdom hnodup hpre hturn
  rw [hrun] at hread
  exact ⟨t, v, hpre, hv, hread⟩

/-- While each turn computes what it would have computed at the start, the loop stores what the
frozen loop stores. -/
theorem run_eq_frozen (hrun : forEach (store write value) is s = (none, s'))
    (hagree : ∀ pre i post, is = pre ++ i :: post →
      forEach (store write value) pre s = forEach (frozen write value s) pre s →
        (value (forEach (store write value) pre s).2 i).map norm = (value s i).map norm)
    (hsplit : is = pre ++ post) :
    forEach (store write value) pre s = forEach (frozen write value s) pre s := by
  induction pre using List.reverseRecOn generalizing post with
  | nil => rfl
  | append_singleton pre i ih =>
      rw [List.append_assoc, List.singleton_append] at hsplit
      have hpre := ih hsplit
      obtain ⟨t, t', ht, hturn, -⟩ := forEach_turn (hsplit ▸ hrun)
      obtain ⟨v, hv, hwrite⟩ := store_ok hturn
      have heq := hagree pre i post hsplit hpre
      rw [ht, hv] at heq
      cases hv₀ : value s i with
      | error e =>
          rw [hv₀] at heq
          cases heq
      | ok v₀ =>
          rw [hv₀] at heq
          have hnorm : norm v = norm v₀ := Except.ok.inj heq
          have hfrozen : frozen write value s i t = .ok t' := by
            rw [frozen, store, hv₀]
            exact (hcells.write_congr hnorm).symm.trans hwrite
          rw [forEach_append_ok.mpr ⟨t, ht, forEach_cons_ok.mpr ⟨t', hturn, rfl⟩⟩,
            forEach_append_ok.mpr ⟨t, hpre ▸ ht, forEach_cons_ok.mpr ⟨t', hfrozen, rfl⟩⟩]

/-- **Simultaneous loops.** Each cell ends with the value of the start exactly when no value changes
by the cells before it already holding theirs. -/
theorem simultaneous_iff (hinv : inv s) (hdom : ∀ i ∈ is, dom i) (hnodup : is.Nodup)
    (hrun : forEach (store write value) is s = (none, s')) :
    (∀ i ∈ is, ∃ v, value s i = .ok v ∧ read i s' = norm v) ↔
      ∀ pre i post, is = pre ++ i :: post →
        (value (forEach (frozen write value s) pre s).2 i).map norm = (value s i).map norm := by
  constructor
  · intro hall
    -- the turn at `i` computes what `i` ends with, which is the value of the start
    have hagree : ∀ pre i post, is = pre ++ i :: post →
        (value (forEach (store write value) pre s).2 i).map norm = (value s i).map norm := by
      intro pre i post hsplit
      obtain ⟨t, v, ht, hv, hread⟩ := hcells.run_self hinv hdom hnodup hsplit hrun
      obtain ⟨v₀, hv₀, hread₀⟩ := hall i (by simp [hsplit])
      rw [ht, hv, hv₀]
      exact congrArg Except.ok (hread.symm.trans hread₀)
    intro pre i post hsplit
    rw [← hcells.run_eq_frozen hrun (fun pre i post h _ => hagree pre i post h) hsplit]
    exact hagree pre i post hsplit
  · intro hstart i hi
    obtain ⟨pre, post, hsplit⟩ := List.append_of_mem hi
    have hfrozen := hcells.run_eq_frozen hrun
      (fun pre i post h heq => heq ▸ hstart pre i post h) hsplit
    obtain ⟨t, v, ht, hv, hread⟩ := hcells.run_self hinv hdom hnodup hsplit hrun
    have heq := hstart pre i post hsplit
    rw [← hfrozen, ht, hv] at heq
    cases hv₀ : value s i with
    | error e =>
        rw [hv₀] at heq
        cases heq
    | ok v₀ =>
        rw [hv₀] at heq
        exact ⟨v₀, rfl, hread.trans (Except.ok.inj heq)⟩

end Cells

end CellLoop

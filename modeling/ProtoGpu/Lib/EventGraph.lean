import Mathlib

/-!
# Queues with events

Commands stand in queues; some signal an event and some wait for one. A command that waits runs only
behind one that signals its event. Working the queues off by their heads loses nothing: where it
gets stuck, no order of all the commands does better.
-/

namespace EventGraph

universe u v w

/-- The queue of a command, the event it signals and the event it waits for. -/
structure System (α : Type u) (κ : Type v) (ε : Type w) where
  queueOf : α → κ
  signals : α → Option ε
  waits : α → Option ε

variable {α : Type u} {κ : Type v} {ε : Type w}

namespace System

variable (s : System α κ ε)

/-- Some command signals the event. -/
def Signaled (ran : List α) (e : ε) : Prop := ∃ r ∈ ran, s.signals r = some e

/-- Every wait stands behind a signal of its event. -/
def Respects (order : List α) : Prop :=
  ∀ pre c post, order = pre ++ c :: post → ∀ e, s.waits c = some e → s.Signaled pre e

variable {s}

theorem Respects.nil : s.Respects [] := by
  intro pre c post hsplit
  exact absurd hsplit (by simp)

theorem Respects.snoc {ran : List α} {c : α} (h : s.Respects ran)
    (hready : ∀ e, s.waits c = some e → s.Signaled ran e) : s.Respects (ran ++ [c]) := by
  intro pre d post hsplit e he
  rcases List.eq_nil_or_concat post with rfl | ⟨post, last, rfl⟩
  · obtain ⟨rfl, hlast⟩ := List.append_inj' hsplit rfl
    obtain rfl := List.singleton_inj.mp hlast
    exact hready e he
  · rw [List.concat_eq_append, ← List.cons_append, ← List.append_assoc] at hsplit
    exact h pre d post (List.append_inj' hsplit rfl).1 e he

variable [DecidableEq κ] (s)

/-- The commands of one queue, in their order. -/
def onQueue (k : κ) (order : List α) : List α := order.filter fun c => s.queueOf c = k

/-- The order runs each queue from its head to its end. -/
structure Schedules (queue : κ → List α) (order : List α) : Prop where
  fifo : ∀ k, s.onQueue k order = queue k
  respects : s.Respects order

/-- Of the queues, `ran` is behind and `rest` ahead. -/
structure Progress (queue rest : κ → List α) (ran : List α) : Prop where
  fifo : ∀ k, s.onQueue k ran ++ rest k = queue k
  respects : s.Respects ran

variable {s} {queue rest : κ → List α} {ran order : List α} {k : κ} {c : α} {cs : List α}

theorem onQueue_append (k : κ) (xs ys : List α) :
    s.onQueue k (xs ++ ys) = s.onQueue k xs ++ s.onQueue k ys :=
  List.filter_append ..

theorem onQueue_singleton_self (c : α) : s.onQueue (s.queueOf c) [c] = [c] :=
  List.filter_cons_of_pos (decide_eq_true rfl)

theorem onQueue_singleton_ne (hne : s.queueOf c ≠ k) : s.onQueue k [c] = [] :=
  List.filter_cons_of_neg (by simpa using hne)

theorem mem_onQueue (c : α) : c ∈ s.onQueue (s.queueOf c) ran ↔ c ∈ ran := by
  simp [onQueue]

theorem Progress.start (queue : κ → List α) : s.Progress queue queue [] where
  fifo _ := rfl
  respects := Respects.nil

/-- The head of a queue runs. -/
theorem Progress.step (h : s.Progress queue rest ran) (hhead : rest k = c :: cs)
    (hqueue : s.queueOf c = k) (hready : ∀ e, s.waits c = some e → s.Signaled ran e) :
    s.Progress queue (Function.update rest k cs) (ran ++ [c]) where
  fifo j := by
    rw [onQueue_append]
    by_cases hj : j = k
    · subst hj
      rw [Function.update_self, ← hqueue, onQueue_singleton_self, List.append_assoc,
        List.singleton_append,
        hqueue, ← hhead, h.fifo]
    · rw [Function.update_of_ne hj, onQueue_singleton_ne (by rw [hqueue]; exact Ne.symm hj),
        List.append_nil, h.fifo]
  respects := h.respects.snoc hready

theorem Progress.complete (h : s.Progress queue rest ran) (hempty : ∀ k, rest k = []) :
    s.Schedules queue ran where
  fifo k := by rw [← h.fifo k, hempty k, List.append_nil]
  respects := h.respects

/-- Every order of all the commands keeps to what has run, as far as it goes. -/
theorem Progress.prefix_ran (h : s.Progress queue rest ran)
    (hstuck : ∀ k c cs, rest k = c :: cs → ∃ e, s.waits c = some e ∧ ¬ s.Signaled ran e)
    (horder : s.Schedules queue order) {pre post : List α} (hsplit : order = pre ++ post) :
    ∀ k, s.onQueue k pre <+: s.onQueue k ran := by
  induction pre using List.reverseRecOn generalizing post with
  | nil => exact fun k => List.nil_prefix
  | append_singleton pre c ih =>
      rw [List.append_assoc, List.singleton_append] at hsplit
      have hpre := ih hsplit
      intro k
      by_cases hk : s.queueOf c = k
      · subst hk
        have hqueue : queue (s.queueOf c) = s.onQueue (s.queueOf c) pre ++ c
            :: s.onQueue (s.queueOf c) post := by
          rw [← horder.fifo, hsplit, onQueue_append, ← List.singleton_append, onQueue_append,
            onQueue_singleton_self, List.singleton_append]
        have hran := h.fifo (s.queueOf c)
        rw [onQueue_append, onQueue_singleton_self]
        by_cases hlength : (s.onQueue (s.queueOf c) pre).length
          < (s.onQueue (s.queueOf c) ran).length
        · have hfront : s.onQueue (s.queueOf c) pre ++ [c] <+: queue (s.queueOf c) := by
            rw [hqueue]
            exact ⟨_, by rw [List.append_assoc, List.singleton_append]⟩
          refine List.prefix_of_prefix_length_le hfront ⟨_, hran⟩ ?_
          rw [List.length_append]
          exact hlength
        · -- then `c` is the head of its queue, and nothing before it has signaled its event
          have hsame := (hpre (s.queueOf c)).eq_of_length_le (Nat.not_lt.mp hlength)
          rw [hqueue, ← hsame] at hran
          obtain ⟨e, hwaits, hnot⟩ := hstuck _ c _ (List.append_cancel_left hran)
          obtain ⟨r, hr, hsignals⟩ := horder.respects pre c post hsplit e hwaits
          have hmem := (hpre (s.queueOf r)).subset ((mem_onQueue r).mpr hr)
          exact absurd ⟨r, (mem_onQueue r).mp hmem, hsignals⟩ hnot
      · rw [onQueue_append, onQueue_singleton_ne hk, List.append_nil]
        exact hpre k

/-- **Greedy schedules.** When every head waits for an event that nothing has signaled, and there is
an order of all the commands, nothing is left. -/
theorem Progress.stuck (h : s.Progress queue rest ran)
    (hstuck : ∀ k c cs, rest k = c :: cs → ∃ e, s.waits c = some e ∧ ¬ s.Signaled ran e)
    (horder : s.Schedules queue order) (k : κ) : rest k = [] := by
  have hprefix := h.prefix_ran hstuck horder (List.append_nil order).symm k
  rw [horder.fifo, ← h.fifo] at hprefix
  have hlength := hprefix.length_le
  rw [List.length_append] at hlength
  exact List.length_eq_zero_iff.mp (by omega)

/-- A list is no longer than its parts on the queues that its commands stand in. -/
theorem length_le_onQueue {ks : List κ} (hks : ∀ c ∈ ran, s.queueOf c ∈ ks) :
    ran.length ≤ (ks.map fun k => (s.onQueue k ran).length).sum := by
  induction ks generalizing ran with
  | nil =>
      cases ran with
      | nil => exact Nat.zero_le _
      | cons c ran => exact absurd (hks c List.mem_cons_self) List.not_mem_nil
  | cons k ks ih =>
      have hrest : ∀ c ∈ ran.filter (fun c => !decide (s.queueOf c = k)), s.queueOf c ∈ ks := by
        intro c hc
        obtain ⟨hmem, hne⟩ := List.mem_filter.mp hc
        have hne' : s.queueOf c ≠ k := by simpa using hne
        exact (List.mem_cons.mp (hks c hmem)).resolve_left hne'
      have hparts :
          (ks.map fun j => (s.onQueue j (ran.filter fun c => !decide (s.queueOf c = k))).length).sum
          ≤ (ks.map fun j => (s.onQueue j ran).length).sum :=
        List.sum_le_sum fun j _ => (List.filter_sublist.filter _).length_le
      calc ran.length
          = (s.onQueue k ran).length + (ran.filter fun c => !decide (s.queueOf c = k)).length :=
            List.length_eq_length_filter_add _
        _ ≤ (s.onQueue k ran).length + (ks.map fun j => (s.onQueue j ran).length).sum :=
            Nat.add_le_add_left ((ih hrest).trans hparts) _
        _ = ((k :: ks).map fun j => (s.onQueue j ran).length).sum := by
            rw [List.map_cons, List.sum_cons]

/-- No more runs than the queues hold. -/
theorem Progress.length_le (h : s.Progress queue rest ran) {ks : List κ}
    (hks : ∀ k, queue k ≠ [] → k ∈ ks) : ran.length ≤ (ks.map fun k => (queue k).length).sum := by
  have hmem : ∀ c ∈ ran, s.queueOf c ∈ ks := by
    intro c hc
    refine hks _ fun hempty => ?_
    have hfifo := h.fifo (s.queueOf c)
    rw [hempty, List.append_eq_nil_iff] at hfifo
    exact List.ne_nil_of_mem ((mem_onQueue c).mpr hc) hfifo.1
  refine (length_le_onQueue hmem).trans (List.sum_le_sum fun k _ => ?_)
  rw [← h.fifo k, List.length_append]
  exact Nat.le_add_right ..

end System

end EventGraph

import ProtoGpu.Lib.Transitions
import ProtoGpu.Runtime.CtaScheduler

/-!
# Handing out CTAs

For each deque, what went in is what came out and then what is still there, in this order, whatever
the threads did. A worker that is turned away without a stop leaves a closed scheduler and an empty
deque behind.
-/

namespace ProtoGpu

open Transitions

variable {p : CtaPolicy} {smCount : Nat}

/-! ### One operation -/

/-- The items of one deque, among those of a history. -/
def inQueue (p : CtaPolicy) (k : Nat) (items : List CtaWorkItem) : List CtaWorkItem :=
  items.filter fun item => p.submitQueue item = k

theorem inQueue_append (k : Nat) (a b : List CtaWorkItem) :
    inQueue p k (a ++ b) = inQueue p k a ++ inQueue p k b := List.filter_append a b

theorem inQueue_self (item : CtaWorkItem) : inQueue p (p.submitQueue item) [item] = [item] := by
  simp [inQueue]

theorem inQueue_other {item : CtaWorkItem} {k : Nat} (h : p.submitQueue item ≠ k) :
    inQueue p k [item] = [] := by
  simp [inQueue, h]

theorem submit_q (s : CtaScheduler) (item : CtaWorkItem) (k : Nat) :
    (s.submit p item).q k = s.q k ++ inQueue p k [item] := by
  rw [CtaScheduler.submit]
  dsimp only
  by_cases hk : p.submitQueue item = k
  · rw [← hk, Function.update_self, inQueue_self]
  · rw [Function.update_of_ne (Ne.symm hk), inQueue_other hk, List.append_nil]

/-- `popFront` takes the first item of the worker's own deque, if there is one. -/
theorem popFront_cases (s : CtaScheduler) (smId : SmId) :
    (s.q (p.acquireQueue smId) = [] ∧ s.popFront p smId = (none, s))
    ∨ ∃ item rest, s.q (p.acquireQueue smId) = item :: rest
      ∧ s.popFront p smId
        = (some item, { s with q := Function.update s.q (p.acquireQueue smId) rest }) := by
  rw [CtaScheduler.popFront]
  cases hq : s.q (p.acquireQueue smId) with
  | nil => exact .inl ⟨rfl, rfl⟩
  | cons item rest => exact .inr ⟨item, rest, rfl, rfl⟩

/-! ### Histories -/

@[simp]
theorem submitted_append (a b : List CtaEvent) : submitted (a ++ b) = submitted a ++ submitted b :=
  List.filterMap_append

@[simp]
theorem acquired_append (a b : List CtaEvent) : acquired (a ++ b) = acquired a ++ acquired b :=
  List.filterMap_append

theorem mem_acquired {events : List CtaEvent} {smId : SmId} {item : CtaWorkItem} :
    (smId, item) ∈ acquired events ↔ .ret smId (some item) ∈ events := by
  rw [acquired, List.mem_filterMap]
  constructor
  · rintro ⟨e, hmem, heq⟩
    split at heq
    · obtain ⟨rfl, rfl⟩ := Prod.mk.inj (Option.some.inj heq)
      exact hmem
    · cases heq
  · exact fun hmem => ⟨_, hmem, rfl⟩

def acquiredItems (events : List CtaEvent) : List CtaWorkItem := (acquired events).map Prod.snd

theorem acquiredItems_append (a b : List CtaEvent) :
    acquiredItems (a ++ b) = acquiredItems a ++ acquiredItems b := by
  rw [acquiredItems, acquired_append, List.map_append]
  rfl

/-- Everything is submitted before `close`. -/
def SubmitsFirst (events : List CtaEvent) : Prop :=
  ∀ before after, events = before ++ .close :: after → submitted after = []

theorem SubmitsFirst.init {events : List CtaEvent} {e : CtaEvent}
    (h : SubmitsFirst (events ++ [e])) : SubmitsFirst events := by
  intro before after hevents
  have hall := h before (after ++ [e]) (by rw [hevents, List.append_assoc, List.cons_append])
  rw [submitted_append] at hall
  exact (List.append_eq_nil_iff.mp hall).1

theorem SubmitsFirst.not_submit {events : List CtaEvent} {item : CtaWorkItem}
    (h : SubmitsFirst (events ++ [.submit item])) : .close ∉ events := by
  intro hclose
  obtain ⟨before, after, rfl⟩ := List.append_of_mem hclose
  have hall := h before (after ++ [.submit item]) (by rw [List.append_assoc, List.cons_append])
  rw [submitted_append] at hall
  exact absurd (List.append_eq_nil_iff.mp hall).2 (List.cons_ne_nil _ _)

theorem submitsFirst_of_close {before after : List CtaEvent} (hbefore : .close ∉ before)
    (hafter : submitted after = []) : SubmitsFirst (before ++ .close :: after) := by
  intro before' after' hevents
  have hsuffix : ∀ start, after = start ++ after' → submitted after' = [] := by
    rintro start rfl
    rw [submitted_append] at hafter
    exact (List.append_eq_nil_iff.mp hafter).2
  rcases List.append_eq_append_iff.mp hevents with ⟨mid, -, hmid⟩ | ⟨mid, hstart, hmid⟩
  · cases mid with
    | nil => exact hsuffix [] (List.cons.inj hmid).2
    | cons e mid => exact hsuffix (mid ++ [.close]) (by simpa using (List.cons.inj hmid).2)
  · cases mid with
    | nil => exact hsuffix [] (List.cons.inj hmid).2.symm
    | cons e mid =>
        obtain ⟨rfl, -⟩ := List.cons.inj hmid
        exact absurd (by simp [hstart]) hbefore

/-! ### The invariant -/

structure CtaInv (p : CtaPolicy) (events : List CtaEvent) (s : CtaSystem) : Prop where
  holder : ∀ smId, s.phase smId = .ready ∨ s.phase smId = .taking → s.mutex = some smId
  stop : s.sched.stop = true ↔ .requestStop ∈ events
  closed : s.sched.closed = true ↔ .close ∈ events
  /-- What went into a deque is what came out of it and what it holds. -/
  order : ∀ k, inQueue p k (submitted events) = inQueue p k (acquiredItems events) ++ s.sched.q k
  place : ∀ smId item, (smId, item) ∈ acquired events → p.submitQueue item = p.acquireQueue smId
  ready : ∀ smId, s.phase smId = .ready → s.sched.awaited p smId = true
  taking : ∀ smId, s.phase smId = .taking →
    s.sched.q (p.acquireQueue smId) ≠ [] ∨ s.sched.closed = true
  /-- Unless there was a stop, a worker is turned away from a closed and empty deque. -/
  turnedAway : ∀ smId, .ret smId none ∈ events → SubmitsFirst events → s.sched.stop = false →
    s.sched.closed = true ∧ s.sched.q (p.acquireQueue smId) = []

theorem CtaInv.start : CtaInv p [] {} := by
  refine ⟨?_, ?_, ?_, ?_, ?_, ?_, ?_, ?_⟩
  all_goals simp [submitted, acquired, acquiredItems, inQueue]

section Step

variable {es : List CtaEvent} {e : CtaEvent} {s t : CtaSystem}

theorem moveTo_phase (s : CtaSystem) (smId smId' : SmId) (phase : AcquirePhase) :
    (s.moveTo smId phase).phase smId' = if smId' = smId then phase else s.phase smId' := by
  rw [CtaSystem.moveTo]
  exact Function.update_apply s.phase smId phase smId'

/-- While nobody has the mutex, nobody is past the wait. -/
theorem CtaInv.nobody_inside (hinv : CtaInv p es s) (hfree : s.mutex = none) (smId : SmId) :
    s.phase smId ≠ .ready ∧ s.phase smId ≠ .taking := by
  constructor
  · intro hphase
    have hmutex := hinv.holder smId (.inl hphase)
    rw [hfree] at hmutex
    cases hmutex
  · intro hphase
    have hmutex := hinv.holder smId (.inr hphase)
    rw [hfree] at hmutex
    cases hmutex

/-- A step that leaves the scheduler alone keeps what the invariant says of it. -/
theorem CtaInv.same_sched (hinv : CtaInv p es s) (hsched : t.sched = s.sched)
    (hsubmitted : submitted [e] = []) (hacquired : acquired [e] = [])
    (hstop : e ≠ .requestStop) (hclose : e ≠ .close)
    (hholder : ∀ smId, t.phase smId = .ready ∨ t.phase smId = .taking → t.mutex = some smId)
    (hready : ∀ smId, t.phase smId = .ready → s.sched.awaited p smId = true)
    (htaking : ∀ smId, t.phase smId = .taking →
      s.sched.q (p.acquireQueue smId) ≠ [] ∨ s.sched.closed = true)
    (hret : ∀ smId, e = .ret smId none → s.sched.stop = false →
      s.sched.closed = true ∧ s.sched.q (p.acquireQueue smId) = []) :
    CtaInv p (es ++ [e]) t := by
  have hacquiredItems : acquiredItems (es ++ [e]) = acquiredItems es := by
    rw [acquiredItems, acquired_append, hacquired, List.append_nil, ← acquiredItems]
  refine
    { holder := hholder
      stop := ?_
      closed := ?_
      order := ?_
      place := ?_
      ready := by rwa [hsched]
      taking := by rwa [hsched]
      turnedAway := ?_ }
  · rw [hsched, hinv.stop, List.mem_append, List.mem_singleton, or_iff_left hstop.symm]
  · rw [hsched, hinv.closed, List.mem_append, List.mem_singleton, or_iff_left hclose.symm]
  · intro k
    rw [hsched, submitted_append, hsubmitted, List.append_nil, hacquiredItems, hinv.order k]
  · intro smId item hmem
    rw [acquired_append, hacquired, List.append_nil] at hmem
    exact hinv.place smId item hmem
  · intro smId hmem hfirst hnostop
    rw [hsched] at hnostop ⊢
    rcases List.mem_append.mp hmem with hmem | hmem
    · exact hinv.turnedAway smId hmem hfirst.init hnostop
    · exact hret smId (List.mem_singleton.mp hmem).symm hnostop

/-- A worker moves without the mutex. -/
theorem CtaInv.move (hinv : CtaInv p es s) {smId : SmId} {phase : AcquirePhase}
    (hphase : phase ≠ .ready ∧ phase ≠ .taking) (hsubmitted : submitted [e] = [])
    (hacquired : acquired [e] = []) (hstop : e ≠ .requestStop) (hclose : e ≠ .close)
    (hret : ∀ smId, e ≠ .ret smId none) : CtaInv p (es ++ [e]) (s.moveTo smId phase) := by
  have hother : ∀ smId' phase', phase' = .ready ∨ phase' = .taking →
      (s.moveTo smId phase).phase smId' = phase' → s.phase smId' = phase' := by
    intro smId' phase' hinside hmoved
    rw [moveTo_phase] at hmoved
    split at hmoved
    · rcases hinside with rfl | rfl
      · exact absurd hmoved hphase.1
      · exact absurd hmoved hphase.2
    · exact hmoved
  refine hinv.same_sched rfl hsubmitted hacquired hstop hclose ?_ ?_ ?_ ?_
  · rintro smId' (hready | htaking)
    · exact hinv.holder smId' (.inl (hother smId' .ready (.inl rfl) hready))
    · exact hinv.holder smId' (.inr (hother smId' .taking (.inr rfl) htaking))
  · exact fun smId' hready => hinv.ready smId' (hother smId' .ready (.inl rfl) hready)
  · exact fun smId' htaking => hinv.taking smId' (hother smId' .taking (.inr rfl) htaking)
  · exact fun smId' heq => absurd heq (hret smId')

/-- A worker moves with the mutex: all others are outside of it. -/
theorem CtaInv.move_inside (hinv : CtaInv p es s) {smId : SmId} {phase : AcquirePhase}
    (hmutex : s.mutex = none ∨ s.mutex = some smId)
    (hmutex' : t.mutex = some smId ∨ t.mutex = none ∧ phase = .outside) (hsched : t.sched = s.sched)
    (ht : t.phase = (s.moveTo smId phase).phase)
    (hready : phase = .ready → s.sched.awaited p smId = true)
    (htaking : phase = .taking → s.sched.q (p.acquireQueue smId) ≠ [] ∨ s.sched.closed = true)
    (hsubmitted : submitted [e] = []) (hacquired : acquired [e] = []) (hstop : e ≠ .requestStop)
    (hclose : e ≠ .close)
    (hret : ∀ smId, e = .ret smId none → s.sched.stop = false →
      s.sched.closed = true ∧ s.sched.q (p.acquireQueue smId) = []) :
    CtaInv p (es ++ [e]) t := by
  -- only the worker itself can be past the wait
  have honly : ∀ smId', t.phase smId' = .ready ∨ t.phase smId' = .taking →
      smId' = smId ∧ t.phase smId' = phase := by
    intro smId' hinside
    rw [ht, moveTo_phase] at hinside ⊢
    split at hinside
    next heq => exact ⟨heq, if_pos heq⟩
    next hne =>
      have hholder := hinv.holder smId' hinside
      rcases hmutex with hfree | hown
      · rw [hfree] at hholder
        cases hholder
      · rw [hown] at hholder
        exact absurd (Option.some.inj hholder).symm hne
  refine hinv.same_sched hsched hsubmitted hacquired hstop hclose ?_ ?_ ?_ hret
  · intro smId' hinside
    obtain ⟨rfl, hphase⟩ := honly smId' hinside
    rcases hmutex' with hown | ⟨-, rfl⟩
    · exact hown
    · rw [hphase] at hinside
      rcases hinside with hinside | hinside
      all_goals cases hinside
  · intro smId' hphase
    obtain ⟨rfl, hsame⟩ := honly smId' (.inl hphase)
    exact hready (hsame.symm.trans hphase)
  · intro smId' hphase
    obtain ⟨rfl, hsame⟩ := honly smId' (.inr hphase)
    exact htaking (hsame.symm.trans hphase)

theorem CtaInv.submit (hinv : CtaInv p es s) {item : CtaWorkItem} (hfree : s.mutex = none) :
    CtaInv p (es ++ [.submit item]) { s with sched := s.sched.submit p item } := by
  have hacquired : acquired (es ++ [.submit item]) = acquired es := by
    rw [acquired_append]
    exact List.append_nil _
  refine
    { holder := hinv.holder
      stop := ?_
      closed := ?_
      order := ?_
      place := ?_
      ready := fun smId hphase => absurd hphase (hinv.nobody_inside hfree smId).1
      taking := fun smId hphase => absurd hphase (hinv.nobody_inside hfree smId).2
      turnedAway := ?_ }
  · simpa [CtaScheduler.submit] using hinv.stop
  · simpa [CtaScheduler.submit] using hinv.closed
  · intro k
    rw [acquiredItems, hacquired, ← acquiredItems, submit_q, submitted_append, inQueue_append,
      hinv.order k, List.append_assoc]
    rfl
  · intro smId item' hmem
    rw [hacquired] at hmem
    exact hinv.place smId item' hmem
  · intro smId hmem hfirst hnostop
    have hmem : .ret smId none ∈ es := by simpa using hmem
    have hclosed := (hinv.turnedAway smId hmem hfirst.init hnostop).1
    exact absurd (hinv.closed.mp hclosed) hfirst.not_submit

theorem CtaInv.close (hinv : CtaInv p es s) (hfree : s.mutex = none) :
    CtaInv p (es ++ [.close]) { s with sched := s.sched.close } := by
  have hacquired : acquired (es ++ [.close]) = acquired es := by
    rw [acquired_append]
    exact List.append_nil _
  refine
    { holder := hinv.holder
      stop := ?_
      closed := ?_
      order := ?_
      place := ?_
      ready := fun smId hphase => absurd hphase (hinv.nobody_inside hfree smId).1
      taking := fun smId hphase => absurd hphase (hinv.nobody_inside hfree smId).2
      turnedAway := ?_ }
  · simpa [CtaScheduler.close] using hinv.stop
  · simp [CtaScheduler.close]
  · intro k
    rw [acquiredItems, hacquired, ← acquiredItems, submitted_append]
    exact (congrArg (inQueue p k) (List.append_nil _)).trans (hinv.order k)
  · intro smId item hmem
    rw [hacquired] at hmem
    exact hinv.place smId item hmem
  · intro smId hmem hfirst hnostop
    have hmem : .ret smId none ∈ es := by simpa using hmem
    exact ⟨rfl, (hinv.turnedAway smId hmem hfirst.init hnostop).2⟩

theorem CtaInv.requestStop (hinv : CtaInv p es s) :
    CtaInv p (es ++ [.requestStop]) { s with sched := s.sched.requestStop } := by
  have hacquired : acquired (es ++ [.requestStop]) = acquired es := by
    rw [acquired_append]
    exact List.append_nil _
  refine
    { holder := hinv.holder
      stop := ?_
      closed := ?_
      order := ?_
      place := ?_
      ready := fun smId _ => rfl
      taking := hinv.taking
      turnedAway := fun smId _ _ hnostop => absurd hnostop (Bool.true_eq_false_eq_False) }
  · simp [CtaScheduler.requestStop]
  · simpa [CtaScheduler.requestStop] using hinv.closed
  · intro k
    rw [acquiredItems, hacquired, ← acquiredItems, submitted_append]
    exact (congrArg (inQueue p k) (List.append_nil _)).trans (hinv.order k)
  · intro smId item hmem
    rw [hacquired] at hmem
    exact hinv.place smId item hmem

/-- A worker leaves with the first item of its deque. -/
theorem CtaInv.take (hinv : CtaInv p es s) {smId : SmId} {item : CtaWorkItem}
    {rest : List CtaWorkItem} (hphase : s.phase smId = .taking)
    (hq : s.sched.q (p.acquireQueue smId) = item :: rest) :
    CtaInv p (es ++ [.ret smId (some item)])
      { s.moveTo smId .outside with
        sched := { s.sched with q := Function.update s.sched.q (p.acquireQueue smId) rest }
        mutex := none } := by
  have hnobody : ∀ smId', (s.moveTo smId .outside).phase smId' ≠ .ready
      ∧ (s.moveTo smId .outside).phase smId' ≠ .taking := by
    intro smId'
    rw [moveTo_phase]
    split
    · exact ⟨by decide, by decide⟩
    next hne =>
      have hmutex := hinv.holder smId (.inr hphase)
      constructor
      · intro hinside
        rw [hinv.holder smId' (.inl hinside)] at hmutex
        exact hne (Option.some.inj hmutex)
      · intro hinside
        rw [hinv.holder smId' (.inr hinside)] at hmutex
        exact hne (Option.some.inj hmutex)
  have hsubmitted : submitted (es ++ [.ret smId (some item)]) = submitted es := by
    rw [submitted_append]
    exact List.append_nil _
  -- the item is in the deque that its number chose
  have hitem : p.submitQueue item = p.acquireQueue smId := by
    have hmem : item ∈ inQueue p (p.acquireQueue smId) (submitted es) := by
      rw [hinv.order, hq]
      exact List.mem_append_right _ List.mem_cons_self
    simpa [inQueue] using (List.mem_filter.mp hmem).2
  refine
    { holder := fun smId' hinside =>
        hinside.elim (absurd · (hnobody smId').1) (absurd · (hnobody smId').2)
      stop := ?_
      closed := ?_
      order := ?_
      place := ?_
      ready := fun smId' hinside => absurd hinside (hnobody smId').1
      taking := fun smId' hinside => absurd hinside (hnobody smId').2
      turnedAway := ?_ }
  · simpa using hinv.stop
  · simpa using hinv.closed
  · intro k
    rw [hsubmitted, acquiredItems_append, inQueue_append, hinv.order k, List.append_assoc]
    congr 1
    have hone : acquiredItems [.ret smId (some item)] = [item] := rfl
    rw [hone]
    dsimp only
    by_cases hk : p.acquireQueue smId = k
    · rw [← hk, Function.update_self, hq, ← hitem, inQueue_self, List.singleton_append]
    · rw [Function.update_of_ne (Ne.symm hk), inQueue_other (hitem ▸ hk), List.nil_append]
  · intro smId' item' hmem
    rw [acquired_append, List.mem_append] at hmem
    rcases hmem with hmem | hmem
    · exact hinv.place smId' item' hmem
    · obtain ⟨rfl, rfl⟩ := Prod.mk.inj (List.mem_singleton.mp hmem)
      exact hitem
  · intro smId' hmem hfirst hnostop
    have hmem : .ret smId' none ∈ es := by simpa using hmem
    obtain ⟨hclosed, hempty⟩ := hinv.turnedAway smId' hmem hfirst.init hnostop
    refine ⟨hclosed, ?_⟩
    dsimp only
    by_cases hk : p.acquireQueue smId' = p.acquireQueue smId
    · rw [hk, hq] at hempty
      cases hempty
    · rw [Function.update_of_ne hk, hempty]

theorem CtaInv.step (hinv : CtaInv p es s) (hstep : CtaStep p smCount s e t) :
    CtaInv p (es ++ [e]) t := by
  cases hstep with
  | submit item hfree => exact hinv.submit hfree
  | close hfree => exact hinv.close hfree
  | requestStop => exact hinv.requestStop
  | call smId' hworker hphase =>
      apply hinv.move (by decide) rfl rfl
      all_goals simp
  | sleep smId' hphase hfree hwait =>
      apply hinv.move (by decide) rfl rfl
      all_goals simp
  | wake smId' hphase =>
      apply hinv.move (by decide) rfl rfl
      all_goals simp
  | pass smId hphase hfree hgo =>
      refine hinv.move_inside (.inl hfree) (.inl rfl) rfl rfl (fun _ => hgo) ?_ ?_ ?_ ?_ ?_ ?_
      all_goals simp [submitted, acquired]
  | stopped smId hphase hstop =>
      refine hinv.move_inside (.inr (hinv.holder smId (.inl hphase))) (.inr ⟨rfl, rfl⟩) rfl rfl
        ?_ ?_ ?_ ?_ ?_ ?_ ?_
      all_goals simp [submitted, acquired, hstop]
  | goOn smId hphase hnostop =>
      have hgo := hinv.ready smId hphase
      rw [CtaScheduler.awaited, hnostop] at hgo
      have hmutex := hinv.holder smId (.inl hphase)
      refine hinv.move_inside (.inr hmutex) (.inl hmutex) rfl rfl ?_ ?_ ?_ ?_ ?_ ?_ ?_
      all_goals simp [submitted, acquired]
      simpa using hgo
  | take smId hphase =>
      rcases popFront_cases (p := p) s.sched smId with ⟨hempty, hpop⟩ | ⟨item, rest, hq, hpop⟩
      · rw [hpop]
        have hmutex := hinv.holder smId (.inr hphase)
        have hclosed := (hinv.taking smId hphase).resolve_left (not_not_intro hempty)
        refine hinv.move_inside (.inr hmutex) (.inr ⟨rfl, rfl⟩) rfl rfl ?_ ?_ ?_ ?_ ?_ ?_ ?_
        all_goals simp [submitted, acquired, hclosed]
        exact fun _ => hempty
      · rw [hpop]
        exact hinv.take hphase hq

end Step

theorem ctaInv_run {events : List CtaEvent} {s : CtaSystem}
    (hrun : Run (CtaStep p smCount) {} events s) : CtaInv p events s :=
  hrun.invariant CtaInv.start fun _ _ _ _ hinv hstep => hinv.step hstep

/-! ### After a stop -/

theorem popFront_stop (s : CtaScheduler) (smId : SmId) : (s.popFront p smId).2.stop = s.stop := by
  rcases popFront_cases (p := p) s smId with ⟨-, hpop⟩ | ⟨item, rest, -, hpop⟩
  all_goals rw [hpop]

theorem popFront_closed (s : CtaScheduler) (smId : SmId) :
    (s.popFront p smId).2.closed = s.closed := by
  rcases popFront_cases (p := p) s smId with ⟨-, hpop⟩ | ⟨item, rest, -, hpop⟩
  all_goals rw [hpop]

/-- A worker outside of `acquire`, or before its second look, gets nothing after a stop. -/
structure Barred (smId : SmId) (events : List CtaEvent) (s : CtaSystem) : Prop where
  stop : s.sched.stop = true
  phase : s.phase smId ≠ .taking
  nothing : ∀ item, .ret smId (some item) ∉ events

theorem Barred.step {smId : SmId} {es : List CtaEvent} {e : CtaEvent} {s t : CtaSystem}
    (hbarred : Barred smId es s) (hstep : CtaStep p smCount s e t) : Barred smId (es ++ [e]) t := by
  obtain ⟨hstop, hphase, hnothing⟩ := hbarred
  have hmoved : ∀ smId' phase, phase ≠ .taking → (s.moveTo smId' phase).phase smId ≠ .taking := by
    intro smId' phase hne
    rw [moveTo_phase]
    split
    · exact hne
    · exact hphase
  have hquiet :
      (∀ item, e ≠ .ret smId (some item)) → ∀ item, .ret smId (some item) ∉ es ++ [e] := by
    intro hne item hmem
    rcases List.mem_append.mp hmem with hmem | hmem
    · exact hnothing item hmem
    · exact hne item (List.mem_singleton.mp hmem).symm
  cases hstep with
  | submit item hfree => exact ⟨hstop, hphase, hquiet (by simp)⟩
  | close hfree => exact ⟨hstop, hphase, hquiet (by simp)⟩
  | requestStop => exact ⟨rfl, hphase, hquiet (by simp)⟩
  | call smId' hworker hcall => exact ⟨hstop, hmoved _ _ (by decide), hquiet (by simp)⟩
  | sleep smId' hentered hfree hwait => exact ⟨hstop, hmoved _ _ (by decide), hquiet (by simp)⟩
  | wake smId' hwaiting => exact ⟨hstop, hmoved _ _ (by decide), hquiet (by simp)⟩
  | pass smId' hentered hfree hgo => exact ⟨hstop, hmoved _ _ (by decide), hquiet (by simp)⟩
  | stopped smId' hready hseen => exact ⟨hstop, hmoved _ _ (by decide), hquiet (by simp)⟩
  | goOn smId' hready hunseen =>
      rw [hstop] at hunseen
      cases hunseen
  | take smId' htaking =>
      refine ⟨(popFront_stop s.sched smId').trans hstop, hmoved _ _ (by decide), hquiet ?_⟩
      rintro item heq
      obtain rfl := (CtaEvent.ret.inj heq).1
      exact hphase htaking

theorem nothing_after_stop {smId : SmId} {before between after : List CtaEvent} {s : CtaSystem}
    (hrun : Run (CtaStep p smCount) {} (before ++ .requestStop :: between ++ .call smId :: after) s)
    (item : CtaWorkItem) : .ret smId (some item) ∉ after := by
  obtain ⟨t, t', hfirst, hcall, hlater⟩ := hrun.split_cons
  have hstop : t.sched.stop = true := (ctaInv_run hfirst).stop.mpr (by simp)
  have hbarred : Barred smId [] t' := by
    cases hcall with
    | call smId' hworker houtside =>
        refine ⟨hstop, ?_, by simp⟩
        rw [moveTo_phase, if_pos rfl]
        decide
  exact (hlater.invariant hbarred fun _ _ _ _ hinv hstep => hinv.step hstep).nothing item

/-! ### Exactly once -/

variable {events : List CtaEvent} {s : CtaSystem}

theorem count_inQueue (item : CtaWorkItem) (items : List CtaWorkItem) :
    (inQueue p (p.submitQueue item) items).count item = items.count item := by
  rw [inQueue, List.count_filter]
  simp

/-- What came out had gone in. -/
theorem CtaInv.count_le (hinv : CtaInv p events s) (item : CtaWorkItem) :
    (acquiredItems events).count item ≤ (submitted events).count item := by
  rw [← count_inQueue (p := p) item (submitted events), hinv.order, List.count_append,
    count_inQueue]
  exact Nat.le_add_right _ _

theorem CtaInv.count_eq (hinv : CtaInv p events s) {item : CtaWorkItem}
    (hempty : s.sched.q (p.submitQueue item) = []) :
    (acquiredItems events).count item = (submitted events).count item := by
  rw [← count_inQueue (p := p) item (submitted events), hinv.order, hempty, List.append_nil,
    count_inQueue]

/-- Only the workers of the launch are in `acquire`. -/
structure OwnWorkers (smCount : Nat) (events : List CtaEvent) (s : CtaSystem) : Prop where
  inside : ∀ smId, s.phase smId ≠ .outside → smId.toNat < smCount
  returned : ∀ smId item, .ret smId item ∈ events → smId.toNat < smCount

theorem OwnWorkers.step {es : List CtaEvent} {e : CtaEvent} {s t : CtaSystem}
    (hown : OwnWorkers smCount es s) (hstep : CtaStep p smCount s e t) :
    OwnWorkers smCount (es ++ [e]) t := by
  obtain ⟨hinside, hreturned⟩ := hown
  have hmoved : ∀ smId phase, smId.toNat < smCount →
      ∀ smId', (s.moveTo smId phase).phase smId' ≠ .outside → smId'.toNat < smCount := by
    intro smId phase hworker smId' hphase
    rw [moveTo_phase] at hphase
    split at hphase
    next heq => exact heq ▸ hworker
    · exact hinside smId' hphase
  have hret : (∀ smId item, e = .ret smId item → smId.toNat < smCount) →
      ∀ smId item, .ret smId item ∈ es ++ [e] → smId.toNat < smCount := by
    intro hlast smId item hmem
    rcases List.mem_append.mp hmem with hmem | hmem
    · exact hreturned smId item hmem
    · exact hlast smId item (List.mem_singleton.mp hmem).symm
  have hbusy : ∀ {smId phase}, s.phase smId = phase → phase ≠ .outside →
      smId.toNat < smCount := fun hphase hne => hinside _ (hphase ▸ hne)
  cases hstep with
  | submit item hfree => exact ⟨hinside, hret (by simp)⟩
  | close hfree => exact ⟨hinside, hret (by simp)⟩
  | requestStop => exact ⟨hinside, hret (by simp)⟩
  | call smId' hworker houtside => exact ⟨hmoved _ _ hworker, hret (by simp)⟩
  | sleep smId' hentered _ _ => exact ⟨hmoved _ _ (hbusy hentered (by decide)), hret (by simp)⟩
  | wake smId' hwaiting => exact ⟨hmoved _ _ (hbusy hwaiting (by decide)), hret (by simp)⟩
  | pass smId' hentered _ _ => exact ⟨hmoved _ _ (hbusy hentered (by decide)), hret (by simp)⟩
  | goOn smId' hready _ => exact ⟨hmoved _ _ (hbusy hready (by decide)), hret (by simp)⟩
  | stopped smId' hready _ =>
      have hworker := hbusy hready (by decide)
      refine ⟨hmoved _ _ hworker, hret fun smId' item heq => ?_⟩
      exact (CtaEvent.ret.inj heq).1 ▸ hworker
  | take smId' htaking =>
      have hworker := hbusy htaking (by decide)
      refine ⟨hmoved _ _ hworker, hret fun smId' item heq => ?_⟩
      exact (CtaEvent.ret.inj heq).1 ▸ hworker

theorem ownWorkers_run (hrun : Run (CtaStep p smCount) {} events s) :
    OwnWorkers smCount events s :=
  hrun.invariant ⟨by simp, by simp⟩ fun _ _ _ _ hinv hstep => hinv.step hstep

/-- The two schedulers' choices, with the number of workers they were made for. -/
theorem policy_queues (kind : CtaSchedulerKind) (hcount : 1 ≤ smCount) :
    kind = .fifo ∧ kind.policy smCount = fifoCtaScheduler
    ∨ kind = .smRoundRobin
      ∧ (∀ item, (kind.policy smCount).submitQueue item = item.ctaLinear.toNat % smCount)
      ∧ ∀ smId, (kind.policy smCount).acquireQueue smId = smId.toNat % smCount := by
  cases kind with
  | fifo => exact .inl ⟨rfl, rfl⟩
  | smRoundRobin =>
      have hne : smCount ≠ 0 := by
        rintro rfl
        exact absurd hcount (by decide)
      refine .inr ⟨rfl, fun item => ?_, fun smId => ?_⟩
      all_goals rw [CtaSchedulerKind.policy, smRoundRobinCtaScheduler, if_neg hne]

/-- Every deque that takes items has a worker. -/
theorem exists_worker (kind : CtaSchedulerKind) (hcount : 1 ≤ smCount) (item : CtaWorkItem) :
    ∃ smId : SmId, smId.toNat < smCount
      ∧ (kind.policy smCount).acquireQueue smId = (kind.policy smCount).submitQueue item := by
  rcases policy_queues kind hcount with ⟨-, hfifo⟩ | ⟨-, hsubmit, hacquire⟩
  · rw [hfifo]
    exact ⟨0, hcount, rfl⟩
  · have hlt : item.ctaLinear.toNat % smCount < smCount := Nat.mod_lt _ hcount
    have hsmall : item.ctaLinear.toNat % smCount < 2 ^ 64 :=
      (Nat.mod_le _ _).trans_lt item.ctaLinear.isLt
    refine ⟨BitVec.ofNat 64 (item.ctaLinear.toNat % smCount), ?_, ?_⟩
    · rwa [BitVec.toNat_ofNat, Nat.mod_eq_of_lt hsmall]
    · rw [hsubmit, hacquire, BitVec.toNat_ofNat, Nat.mod_eq_of_lt hsmall, Nat.mod_mod]

/-- **Exactly once.** -/
theorem cta_handed_out_once (kind : CtaSchedulerKind) (hcount : 1 ≤ smCount)
    (hrun : Run (CtaStep (kind.policy smCount) smCount) {} events s)
    (hset : ((submitted events).map CtaWorkItem.ctaLinear).Nodup) (hfirst : SubmitsFirst events) :
    ((acquired events).map fun a => a.2.ctaLinear).Nodup
    ∧ (kind = .smRoundRobin → ∀ smId item, (smId, item) ∈ acquired events →
        smId.toNat = item.ctaLinear.toNat % smCount)
    ∧ (.requestStop ∉ events → (∀ smId : SmId, smId.toNat < smCount → .ret smId none ∈ events) →
        ∀ item ∈ submitted events, ((acquired events).map Prod.snd).count item = 1)
    ∧ ∀ before between after smId item,
        events = before ++ .requestStop :: between ++ .call smId :: after →
        .ret smId (some item) ∉ after := by
  have hinv := ctaInv_run hrun
  have hsubperm : (acquiredItems events).Subperm (submitted events) :=
    List.subperm_ext_iff.mpr fun item _ => hinv.count_le item
  refine ⟨?_, ?_, ?_, ?_⟩
  · obtain ⟨items, hperm, hsub⟩ := hsubperm
    have hnodup : (items.map CtaWorkItem.ctaLinear).Nodup := (hsub.map _).nodup hset
    rw [(hperm.map CtaWorkItem.ctaLinear).nodup_iff, acquiredItems, List.map_map] at hnodup
    exact hnodup
  · rintro rfl smId item hmem
    have hplace := hinv.place smId item hmem
    rcases policy_queues .smRoundRobin hcount with ⟨hkind, -⟩ | ⟨-, hsubmit, hacquire⟩
    · cases hkind
    · have hlt := (ownWorkers_run hrun).returned smId _ (mem_acquired.mp hmem)
      rw [hsubmit, hacquire, Nat.mod_eq_of_lt hlt] at hplace
      exact hplace.symm
  · intro hnostop hdone item hmem
    obtain ⟨smId, hlt, hqueue⟩ := exists_worker kind hcount item
    have hrunning : s.sched.stop = false :=
      Bool.eq_false_iff.mpr fun hstop => hnostop (hinv.stop.mp hstop)
    have hempty := (hinv.turnedAway smId (hdone smId hlt) hfirst hrunning).2
    rw [hqueue] at hempty
    calc ((acquired events).map Prod.snd).count item
        = (submitted events).count item := hinv.count_eq hempty
      _ = 1 := List.count_eq_one_of_mem (List.Nodup.of_map _ hset) hmem
  · rintro before between after smId item rfl
    exact nothing_after_stop hrun item

/-- The second of two CTAs. -/
def secondCta : CtaWorkItem := { cx := 1, ctaLinear := 1 }

/-- Two workers take a CTA each: the second one sleeps until there is work, and wakes up while the
first one holds the mutex. Both are turned away when they come again. -/
def twoCtaRun : List CtaEvent :=
  [.call 1, .look 1, .submit {}, .submit secondCta, .call 0, .look 0, .wake 1, .goOn 0,
    .ret 0 (some {}), .look 1, .call 0, .goOn 1, .ret 1 (some secondCta), .close, .look 0, .call 1,
    .goOn 0, .ret 0 none, .look 1, .goOn 1, .ret 1 none]

theorem twoCtaRun_run : ∃ s, Run (CtaStep (CtaSchedulerKind.smRoundRobin.policy 2) 2) {}
    twoCtaRun s := by
  have hasleep : Run (CtaStep (CtaSchedulerKind.smRoundRobin.policy 2) 2) {} [.call 1, .look 1] _ :=
    (Run.start.next (.call 1 (by decide) rfl)).next (.sleep 1 rfl rfl rfl)
  have hwork := (hasleep.next (.submit {} rfl)).next (.submit secondCta rfl)
  have hheld := (hwork.next (.call 0 (by decide) rfl)).next (.pass 0 rfl rfl rfl)
  have hfirst := ((hheld.next (.wake 1 rfl)).next (.goOn 0 rfl rfl)).next (.take 0 rfl)
  have hsecond := (((hfirst.next (.pass 1 rfl rfl rfl)).next (.call 0 (by decide) rfl)).next
    (.goOn 1 rfl rfl)).next (.take 1 rfl)
  have hclosed := (hsecond.next (.close rfl)).next (.pass 0 rfl rfl rfl)
  have hleft := ((hclosed.next (.call 1 (by decide) rfl)).next (.goOn 0 rfl rfl)).next (.take 0 rfl)
  exact ⟨_, ((hleft.next (.pass 1 rfl rfl rfl)).next (.goOn 1 rfl rfl)).next (.take 1 rfl)⟩

theorem cta_handed_out_once_two :
    (∀ item ∈ [{}, secondCta], ((acquired twoCtaRun).map Prod.snd).count item = 1)
      ∧ ∀ smId item, (smId, item) ∈ acquired twoCtaRun → smId.toNat = item.ctaLinear.toNat % 2 := by
  obtain ⟨s, hrun⟩ := twoCtaRun_run
  have hset : ((submitted twoCtaRun).map CtaWorkItem.ctaLinear).Nodup := by decide
  have hfirst : SubmitsFirst twoCtaRun :=
    submitsFirst_of_close (show .close ∉ twoCtaRun.take 13 by decide) rfl
  obtain ⟨-, hplaced, honce, -⟩ :=
    cta_handed_out_once .smRoundRobin (show 1 ≤ 2 by decide) hrun hset hfirst
  refine ⟨honce (by decide) ?_, hplaced rfl⟩
  intro smId hlt
  have hid : smId = 0 ∨ smId = 1 := by
    rcases Nat.le_one_iff_eq_zero_or_eq_one.mp (Nat.lt_succ_iff.mp hlt) with hid | hid
    · exact .inl (BitVec.eq_of_toNat_eq hid)
    · exact .inr (BitVec.eq_of_toNat_eq hid)
  rcases hid with rfl | rfl
  · decide
  · decide

end ProtoGpu

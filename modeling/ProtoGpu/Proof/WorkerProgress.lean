import ProtoGpu.Proof.Completion

/-!
# No worker waits for ever

Between two steps of warps a worker only comes closer to its end, except that it may take one more
CTA; and as long as some worker has not ended, some worker can go on: nobody sleeps in `acquire`
once the scheduler is closed, and whoever has the mutex is past the wait.
-/

namespace ProtoGpu

open Transitions

variable {env : DriverEnv} {smId : SmId} {s t : DriverState} {e : DriverEvent}
  {phase phase' : WorkerPhase}

theorem WorkerMove.not_acquiring (h : WorkerMove env smId s phase e phase' t) :
    phase ≠ .acquiring := by
  cases h with
  | _ => simp

theorem WorkerMove.not_ended (h : WorkerMove env smId s phase e phase' t) : phase ≠ .ended := by
  cases h with
  | _ => simp

theorem DriverState.moveTo_self (s : DriverState) (smId : SmId) (phase : WorkerPhase) :
    (s.moveTo smId phase).worker smId = phase := by
  unfold DriverState.moveTo
  exact Function.update_self ..

theorem DriverState.moveTo_others (s : DriverState) (phase : WorkerPhase) {j : SmId}
    (hne : j ≠ smId) : (s.moveTo smId phase).worker j = s.worker j := by
  unfold DriverState.moveTo
  exact Function.update_of_ne hne ..

/-! ### The mutex -/

structure Admitting (env : DriverEnv) (s : DriverState) : Prop where
  closed : s.cta.sched.closed = true
  awake : ∀ smId, s.cta.phase smId ≠ .waiting
  holder : ∀ smId, s.cta.mutex = some smId →
    s.cta.phase smId = .ready ∨ s.cta.phase smId = .taking
  inside : ∀ smId, s.cta.phase smId ≠ .outside → s.worker smId = .acquiring
  own : ∀ smId, s.worker smId ≠ .ended → smId.toNat < env.plan.smCount

theorem Admitting.start (mem : MemState) : Admitting env (env.start mem) := by
  refine ⟨rfl, fun smId => ?_, fun smId hmutex => ?_, fun smId hphase => ?_, fun smId hwork => ?_⟩
  · exact fun hphase => by cases hphase
  · cases hmutex
  · exact absurd rfl hphase
  · by_contra hge
    exact hwork (if_neg hge)

theorem Admitting.work (h : Admitting env s)
    (hmove : WorkerMove env smId s (s.worker smId) e phase' t) : Admitting env t := by
  have hcta : t.cta.sched.closed = s.cta.sched.closed ∧ t.cta.phase = s.cta.phase
      ∧ t.cta.mutex = s.cta.mutex := by
    rcases workerMove_sched hmove with ⟨-, hcta⟩ | ⟨-, hcta⟩
    · rw [hcta]
      exact ⟨rfl, rfl, rfl⟩
    · rw [hcta]
      exact ⟨rfl, rfl, rfl⟩
  obtain ⟨hclosed, hphases, hmutex⟩ := hcta
  refine ⟨hclosed.trans h.closed, fun j => ?_, fun j hj => ?_, fun j hj => ?_, fun j hj => ?_⟩
  · rw [hphases]
    exact h.awake j
  · rw [hmutex] at hj
    rw [hphases]
    exact h.holder j hj
  · rw [hphases] at hj
    have hacquiring := h.inside j hj
    have hne : j ≠ smId := by
      rintro rfl
      exact hmove.not_acquiring hacquiring
    rw [hmove.others hne, hacquiring]
  · by_cases heq : j = smId
    · rw [heq]
      exact h.own smId hmove.not_ended
    · rw [hmove.others heq] at hj
      exact h.own j hj

/-- A step in `acquire`, where nobody sleeps. -/
theorem Admitting.acquire (h : Admitting env s) {e : CtaEvent} {cta : CtaSystem}
    (hphase : s.worker smId = .acquiring) (hworker : e.worker? = some smId)
    (hstep : CtaStep env.policy env.plan.smCount s.cta e cta) :
    Admitting env ({ s with cta := cta }.moveTo smId e.phaseAfter) := by
  have hown : ∀ j, ({ s with cta := cta }.moveTo smId e.phaseAfter).worker j ≠ .ended →
      j.toNat < env.plan.smCount := by
    intro j hj
    by_cases heq : j = smId
    · rw [heq]
      exact h.own smId (by rw [hphase]; simp)
    · exact h.own j (by rwa [DriverState.moveTo_others _ _ heq] at hj)
  have hinside : ∀ phase', (phase' ≠ .outside → e.phaseAfter = .acquiring) →
      ∀ j, (s.cta.moveTo smId phase').phase j ≠ .outside →
        ({ s with cta := cta }.moveTo smId e.phaseAfter).worker j = .acquiring := by
    intro phase' hafter j hj
    rw [moveTo_phase] at hj
    by_cases heq : j = smId
    · rw [if_pos heq] at hj
      rw [heq, DriverState.moveTo_self, hafter hj]
    · rw [if_neg heq] at hj
      rw [DriverState.moveTo_others _ _ heq]
      exact h.inside j hj
  have hawake :
      ∀ phase', phase' ≠ .waiting → ∀ j, (s.cta.moveTo smId phase').phase j ≠ .waiting := by
    intro phase' hne j
    rw [moveTo_phase]
    split
    · exact hne
    · exact h.awake j
  have hawaited : s.cta.sched.awaited env.policy smId = true := by
    rw [CtaScheduler.awaited, h.closed, Bool.or_true]
  cases hstep with
  | submit item hfree => cases hworker
  | close hfree => cases hworker
  | requestStop => cases hworker
  | call smId' hlt houtside =>
      obtain rfl := Option.some.inj hworker
      refine ⟨h.closed, hawake _ (by decide), fun j hj => ?_, hinside _ fun _ => rfl, hown⟩
      have hheld := h.holder j hj
      have hne : j ≠ smId' := by
        rintro rfl
        rw [houtside] at hheld
        simp at hheld
      have hsame := moveTo_phase s.cta smId' j .entered
      rw [if_neg hne] at hsame
      exact hsame ▸ hheld
  | sleep smId' hentered hfree hwait =>
      obtain rfl := Option.some.inj hworker
      rw [hawaited] at hwait
      cases hwait
  | wake smId' hwaiting => exact absurd hwaiting (h.awake smId')
  | pass smId' hentered hfree hgo =>
      obtain rfl := Option.some.inj hworker
      refine ⟨h.closed, hawake _ (by decide), fun j hj => ?_, hinside _ fun _ => rfl, hown⟩
      obtain rfl := Option.some.inj hj
      exact .inl (Function.update_self ..)
  | stopped smId' hready hstop =>
      obtain rfl := Option.some.inj hworker
      exact ⟨h.closed, hawake _ (by decide), fun j hj => (by cases hj),
        hinside .outside fun hne => absurd rfl hne, hown⟩
  | goOn smId' hready hstop =>
      obtain rfl := Option.some.inj hworker
      refine ⟨h.closed, hawake _ (by decide), fun j hj => ?_, hinside _ fun _ => rfl, hown⟩
      by_cases heq : j = smId'
      · rw [heq]
        exact .inr (Function.update_self ..)
      · have hsame := moveTo_phase s.cta smId' j .taking
        rw [if_neg heq] at hsame
        exact hsame ▸ h.holder j hj
  | take smId' htaking =>
      obtain rfl := Option.some.inj hworker
      have hclosed : (s.cta.sched.popFront env.policy smId').2.closed = true :=
        (popFront_closed _ _).trans h.closed
      exact ⟨hclosed, hawake _ (by decide), fun j hj => (by cases hj),
        hinside .outside fun hne => absurd rfl hne, hown⟩

theorem Admitting.step (h : Admitting env s) (hstep : DriverStep env s e t) : Admitting env t := by
  cases hstep with
  | work smId hstep =>
      obtain ⟨phase', hmove⟩ := workerStep_moves hstep
      exact h.work hmove
  | acquire smId hphase hworker hstep => exact h.acquire hphase hworker hstep

/-- A worker past the wait can go on. -/
theorem steps_of_inside (hphase : s.cta.phase smId = .ready ∨ s.cta.phase smId = .taking)
    (hacquiring : s.worker smId = .acquiring) : ∃ e t, DriverStep env s e t := by
  rcases hphase with hready | htaking
  · cases hstop : s.cta.sched.stop with
    | true => exact ⟨_, _, .acquire smId hacquiring rfl (.stopped smId hready hstop)⟩
    | false => exact ⟨_, _, .acquire smId hacquiring rfl (.goOn smId hready hstop)⟩
  · exact ⟨_, _, .acquire smId hacquiring rfl (.take smId htaking)⟩

/-- While a worker is in `acquire`, it or the one with the mutex can go on. -/
theorem Admitting.acquire_steps (h : Admitting env s) (hacquiring : s.worker smId = .acquiring) :
    ∃ e t, DriverStep env s e t := by
  cases hphase : s.cta.phase smId with
  | outside =>
      have hlt := h.own smId (by rw [hacquiring]; simp)
      exact ⟨_, _, .acquire smId hacquiring rfl (.call smId hlt hphase)⟩
  | entered =>
      cases hmutex : s.cta.mutex with
      | none =>
          have hawaited : s.cta.sched.awaited env.policy smId = true := by
            rw [CtaScheduler.awaited, h.closed, Bool.or_true]
          exact ⟨_, _, .acquire smId hacquiring rfl (.pass smId hphase hmutex hawaited)⟩
      | some holder =>
          have hheld := h.holder holder hmutex
          exact steps_of_inside hheld
            (h.inside holder (by rcases hheld with hheld | hheld <;> simp [hheld]))
  | waiting => exact absurd hphase (h.awake smId)
  | ready => exact steps_of_inside (.inl hphase) hacquiring
  | taking => exact steps_of_inside (.inr hphase) hacquiring

/-! ### How far a worker is from its end -/

/-- The warp steps a worker is about to take. -/
def WorkerPhase.turns : WorkerPhase → Nat
  | .stepping _ _ => 1
  | _ => 0

def AcquirePhase.rank : AcquirePhase → Nat
  | .outside | .waiting => 4
  | .entered => 3
  | .ready => 2
  | .taking => 1

/-- The steps to the worker's end, unless it takes a CTA or a step of a warp. -/
def WorkerPhase.rank (acquire : AcquirePhase) : WorkerPhase → Nat
  | .ended => 0
  | .leaving => 1
  | .acquiring => acquire.rank
  | .top => 5
  | .returned => 6
  | .stopping => 7
  | .stepping _ _ => 8
  | .picking _ => 9
  | .stopTest _ => 10
  | .looping _ => 11
  | .received _ | .retired _ | .counting _ => 12

def DriverState.rank (s : DriverState) (smId : SmId) : Nat :=
  (s.worker smId).rank (s.cta.phase smId)

theorem WorkerMove.rank (h : WorkerMove env smId s phase e phase' t) (hgood : phase.Good env) :
    phase'.rank .outside + 1 ≤ phase.rank .outside + 5 * phase.turns := by
  cases h with
  | @skip cta cta' w hpick hdone =>
      obtain ⟨-, -, hlive⟩ := (hgood.run _ rfl).pick hpick
      rw [hdone] at hlive
      cases hlive
  | _ => simp [WorkerPhase.rank, WorkerPhase.turns, AcquirePhase.rank]

theorem Admitting.work_rank (h : Admitting env s) (hgood : (s.worker smId).Good env)
    (hmove : WorkerMove env smId s (s.worker smId) e phase' t) :
    (∀ j, j ≠ smId → t.rank j = s.rank j)
      ∧ t.rank smId + 1 ≤ s.rank smId + 5 * (s.worker smId).turns := by
  have hphases : t.cta.phase = s.cta.phase := by
    rcases workerMove_sched hmove with ⟨-, hcta⟩ | ⟨-, hcta⟩
    · rw [hcta]
    · rw [hcta]
  have houtside : s.cta.phase smId = .outside := by
    by_contra hinside
    exact hmove.not_acquiring (h.inside smId hinside)
  constructor
  · intro j hne
    rw [DriverState.rank, DriverState.rank, hmove.others hne, hphases]
  · rw [DriverState.rank, DriverState.rank, hmove.self, hphases, houtside]
    exact hmove.rank hgood

/-- Only taking a CTA leads a worker in `acquire` away from its end. -/
theorem Admitting.acquire_rank (h : Admitting env s) {e : CtaEvent} {cta : CtaSystem}
    (hphase : s.worker smId = .acquiring) (hworker : e.worker? = some smId)
    (hstep : CtaStep env.policy env.plan.smCount s.cta e cta) :
    (∀ j, j ≠ smId → ({ s with cta := cta }.moveTo smId e.phaseAfter).rank j = s.rank j)
      ∧ ({ s with cta := cta }.moveTo smId e.phaseAfter).rank smId + 1
        ≤ s.rank smId + 12 * (acquired [e]).length := by
  have hothers : ∀ phase', cta.phase = (s.cta.moveTo smId phase').phase → ∀ j, j ≠ smId →
      ({ s with cta := cta }.moveTo smId e.phaseAfter).rank j = s.rank j := by
    intro phase' hcta j hne
    have hphases : cta.phase j = s.cta.phase j := by rw [hcta, moveTo_phase, if_neg hne]
    rw [DriverState.rank, DriverState.rank, DriverState.moveTo_others _ _ hne]
    exact congrArg (WorkerPhase.rank · _) hphases
  have hself : ∀ phase', cta.phase = (s.cta.moveTo smId phase').phase →
      ({ s with cta := cta }.moveTo smId e.phaseAfter).rank smId = e.phaseAfter.rank phase' := by
    intro phase' hcta
    have hphases : cta.phase smId = phase' := by rw [hcta, moveTo_phase, if_pos rfl]
    rw [DriverState.rank, DriverState.moveTo_self]
    exact congrArg (WorkerPhase.rank · _) hphases
  have hbefore : s.rank smId = (s.cta.phase smId).rank := by
    rw [DriverState.rank, hphase]
    rfl
  cases hstep with
  | submit item hfree => cases hworker
  | close hfree => cases hworker
  | requestStop => cases hworker
  | call smId' hlt houtside =>
      obtain rfl := Option.some.inj hworker
      refine ⟨hothers _ rfl, ?_⟩
      rw [hself _ rfl, hbefore, houtside]
      exact le_rfl
  | sleep smId' hentered hfree hwait =>
      obtain rfl := Option.some.inj hworker
      rw [CtaScheduler.awaited, h.closed, Bool.or_true] at hwait
      cases hwait
  | wake smId' hwaiting => exact absurd hwaiting (h.awake smId')
  | pass smId' hentered hfree hgo =>
      obtain rfl := Option.some.inj hworker
      refine ⟨hothers .ready rfl, ?_⟩
      rw [hself .ready rfl, hbefore, hentered]
      exact le_rfl
  | stopped smId' hready hstop =>
      obtain rfl := Option.some.inj hworker
      refine ⟨hothers .outside rfl, ?_⟩
      rw [hself .outside rfl, hbefore, hready]
      exact (Nat.le_succ 1 : 1 ≤ 2)
  | goOn smId' hready hstop =>
      obtain rfl := Option.some.inj hworker
      refine ⟨hothers _ rfl, ?_⟩
      rw [hself _ rfl, hbefore, hready]
      exact le_rfl
  | take smId' htaking =>
      obtain rfl := Option.some.inj hworker
      refine ⟨hothers .outside rfl, ?_⟩
      rw [hself .outside rfl, hbefore, htaking]
      cases (s.cta.sched.popFront env.policy smId').1 with
      | none => exact le_rfl
      | some item => exact le_rfl

/-! ### All workers -/

def DriverEnv.workers (env : DriverEnv) : Finset SmId :=
  (Finset.range env.plan.smCount).image (BitVec.ofNat 64)

theorem mem_workers (h : smId.toNat < env.plan.smCount) : smId ∈ env.workers := by
  refine Finset.mem_image.mpr ⟨smId.toNat, Finset.mem_range.mpr h, ?_⟩
  rw [BitVec.ofNat_toNat, BitVec.setWidth_eq]

/-- A sum over the workers when one of them changes. -/
theorem sum_workers {f g : SmId → Nat} (hlt : smId.toNat < env.plan.smCount)
    (hothers : ∀ j, j ≠ smId → g j = f j) :
    (∑ j ∈ env.workers, g j) + f smId = (∑ j ∈ env.workers, f j) + g smId := by
  have hmem := mem_workers hlt
  have hrest : ∑ j ∈ env.workers.erase smId, g j = ∑ j ∈ env.workers.erase smId, f j :=
    Finset.sum_congr rfl fun j hj => hothers j (Finset.ne_of_mem_erase hj)
  rw [← Finset.add_sum_erase _ g hmem, ← Finset.add_sum_erase _ f hmem, hrest]
  omega

/-- The steps the workers can take without another CTA or step of a warp. -/
def DriverEnv.potential (env : DriverEnv) (s : DriverState) : Nat :=
  ∑ smId ∈ env.workers, s.rank smId

theorem potential_step (hlt : smId.toNat < env.plan.smCount)
    (hothers : ∀ j, j ≠ smId → t.rank j = s.rank j) {k : Nat}
    (hself : t.rank smId + 1 ≤ s.rank smId + k) : env.potential t + 1 ≤ env.potential s + k := by
  have hsum : env.potential t + s.rank smId = env.potential s + t.rank smId :=
    sum_workers hlt hothers
  omega

end ProtoGpu

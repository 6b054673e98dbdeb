import ProtoGpu.Proof.WorkerSteps
import ProtoGpu.Proof.CtaScheduling
import ProtoGpu.Simt.Turns

/-!
# What a completed run has executed

The flag is computed from the diagnostic alone. Without one, a worker ends because the scheduler has
nothing for it, or because of a stop; and as long as the step limit is only found reached with no
work left, a stop without a diagnostic means that no work is left.
-/

namespace ProtoGpu

open Transitions

variable {env : DriverEnv}

/-! ### The scheduler inside the run -/

def DriverEvent.sched? : DriverEvent → Option CtaEvent
  | .sched e => some e
  | _ => none

/-- Everything that happened to the CTA scheduler. -/
def ctaEvents (env : DriverEnv) (events : List DriverEvent) : List CtaEvent :=
  (ctaItems env.launch.gridDim).map .submit ++ .close :: events.filterMap DriverEvent.sched?

theorem filterMap_sched (e : DriverEvent) :
    [e].filterMap DriverEvent.sched? = e.sched?.toList := by
  cases e <;> rfl

theorem ctaEvents_concat (events : List DriverEvent) (e : DriverEvent) :
    ctaEvents env (events ++ [e]) = ctaEvents env events ++ e.sched?.toList := by
  rw [ctaEvents, ctaEvents, List.filterMap_append, filterMap_sched, List.append_assoc,
    List.cons_append]

theorem submits_run (p : CtaPolicy) (smCount : Nat) (items : List CtaWorkItem) {s : CtaSystem}
    (hfree : s.mutex = none) :
    Run (CtaStep p smCount) s (items.map .submit)
      { s with sched := items.foldl (CtaScheduler.submit p) s.sched } := by
  induction items generalizing s with
  | nil => exact .start
  | cons item items ih =>
      exact (Run.single (.submit item hfree)).append
        (ih (s := { s with sched := s.sched.submit p item }) hfree)

theorem workerMove_sched {smId : SmId} {s t : DriverState} {phase phase' : WorkerPhase}
    {e : DriverEvent} (h : WorkerMove env smId s phase e phase' t) :
    e.sched? = none ∧ t.cta = s.cta
    ∨ e.sched? = some .requestStop ∧ t.cta = { s.cta with sched := s.cta.sched.requestStop } := by
  cases h with
  | leave => exact .inr ⟨rfl, rfl⟩
  | stop => exact .inr ⟨rfl, rfl⟩
  | _ => exact .inl ⟨rfl, rfl⟩

theorem driverStep_sched {events : List DriverEvent} {s t : DriverState} {e : DriverEvent}
    (hrun : Run (CtaStep env.policy env.plan.smCount) {} (ctaEvents env events) s.cta)
    (hstep : DriverStep env s e t) :
    Run (CtaStep env.policy env.plan.smCount) {} (ctaEvents env (events ++ [e])) t.cta := by
  rw [ctaEvents_concat]
  cases hstep with
  | work smId hstep =>
      obtain ⟨phase', hmove⟩ := workerStep_moves hstep
      rcases workerMove_sched hmove with ⟨hnone, hsame⟩ | ⟨hstop, hcta⟩
      · rw [hnone, hsame, Option.toList_none, List.append_nil]
        exact hrun
      · rw [hstop, hcta]
        exact hrun.next .requestStop
  | acquire smId hphase hworker hstep => exact hrun.next hstep

theorem start_sched (mem : MemState) :
    Run (CtaStep env.policy env.plan.smCount) {} (ctaEvents env []) (env.start mem).cta := by
  have hsubmits := submits_run env.policy env.plan.smCount (ctaItems env.launch.gridDim)
    (s := {}) rfl
  exact hsubmits.next (.close rfl)

/-! ### Work left -/

/-- The worker has a CTA with something to do. -/
def WorkerPhase.Unfinished (phase : WorkerPhase) : Prop :=
  (∃ item, phase = .received item)
    ∨ ∃ cta, phase.cta? = some cta ∧ ∃ warp ∈ cta.warps, warp.done = false

/-- A CTA is still queued, or some worker's CTA is not done. -/
def DriverState.WorkLeft (s : DriverState) : Prop :=
  (∃ k, s.cta.sched.q k ≠ []) ∨ ∃ smId, (s.worker smId).Unfinished

/-- A stop was requested or is about to be. -/
def DriverState.Halting (s : DriverState) : Prop :=
  s.cta.sched.stop = true ∨ ∃ smId, s.worker smId = .stopping ∨ s.worker smId = .leaving

section Moves

variable {smId : SmId} {s t : DriverState} {phase phase' : WorkerPhase} {e : DriverEvent}

theorem WorkerMove.self (h : WorkerMove env smId s phase e phase' t) : t.worker smId = phase' := by
  rw [h.worker_eq, Function.update_self]

theorem WorkerMove.others (h : WorkerMove env smId s phase e phase' t) {smId' : SmId}
    (hne : smId' ≠ smId) : t.worker smId' = s.worker smId' := by
  rw [h.worker_eq, Function.update_of_ne hne]

theorem WorkerMove.diag_none (h : WorkerMove env smId s phase e phase' t) (hdiag : t.diag = none) :
    s.diag = none := by
  cases h with
  | analysisFault => cases hdiag
  | fault => cases hdiag
  | _ => exact hdiag

/-- Without a diagnostic, only the step limit halts the system. -/
theorem WorkerMove.halting (h : WorkerMove env smId s phase e phase' t)
    (hphase : s.worker smId = phase) (hdiag : t.diag = none) (hhalting : t.Halting) :
    s.Halting ∨ ∃ cta, e = .limit smId cta := by
  have hstays : s.cta.sched.stop = t.cta.sched.stop → phase' ≠ .stopping ∧ phase' ≠ .leaving →
      s.Halting := by
    intro hstop hgoes
    rcases hhalting with hstopped | ⟨smId', hstops⟩
    · exact .inl (hstop.trans hstopped)
    · by_cases heq : smId' = smId
      · rw [heq, h.self] at hstops
        exact (hstops.elim hgoes.1 hgoes.2).elim
      · rw [h.others heq] at hstops
        exact .inr ⟨smId', hstops⟩
  cases h with
  | topLimit hlimit => exact .inr ⟨_, rfl⟩
  | loopLimit hlimit => exact .inr ⟨_, rfl⟩
  | leave => exact .inl (.inr ⟨smId, .inr hphase⟩)
  | stop => exact .inl (.inr ⟨smId, .inl hphase⟩)
  | analysisFault => cases hdiag
  | fault => cases hdiag
  | retiredFault hfault =>
      have hnone : s.diag = none := hdiag
      rw [hnone] at hfault
      cases hfault
  | _ => exact .inl (hstays rfl (by simp))

theorem unfinished_of_cta {cta : CtaRun} (hcta : phase.cta? = some cta) :
    phase.Unfinished ↔ ∃ warp ∈ cta.warps, warp.done = false := by
  constructor
  · rintro (⟨item, rfl⟩ | ⟨cta', hcta', hlive⟩)
    · cases hcta
    · rw [hcta] at hcta'
      exact Option.some.inj hcta' ▸ hlive
  · exact fun hlive => .inr ⟨cta, hcta, hlive⟩

theorem not_unfinished_of_none (hcta : phase.cta? = none) (hitem : ∀ item, phase ≠ .received item) :
    ¬ phase.Unfinished := by
  rintro (⟨item, heq⟩ | ⟨cta, hsome, -⟩)
  · exact hitem item heq
  · rw [hcta] at hsome
    cases hsome

/-- A worker without work gets none by itself. -/
theorem WorkerMove.finished (h : WorkerMove env smId s phase e phase' t) (hgood : phase.Good env)
    (hfinished : ¬ phase.Unfinished) : ¬ phase'.Unfinished := by
  have hsame : ∀ {cta cta' : CtaRun}, phase.cta? = some cta → phase'.cta? = some cta' →
      cta'.warps = cta.warps → ¬ phase'.Unfinished := by
    intro cta cta' hcta hcta' hwarps
    rw [unfinished_of_cta hcta', hwarps]
    rwa [unfinished_of_cta hcta] at hfinished
  have hstepping : ∀ cta w, phase ≠ .stepping cta w := by
    rintro cta w rfl
    obtain ⟨hlt, hlive⟩ := hgood.live cta w rfl
    obtain ⟨warp, hwarp, hdone⟩ := (hgood.run cta rfl).isWarpDone_eq hlt
    exact hfinished (.inr ⟨cta, rfl, warp, List.mem_of_getElem? hwarp, hdone.symm.trans hlive⟩)
  cases h with
  | start hwarps hanalysis hcta => exact absurd (.inl ⟨_, rfl⟩) hfinished
  | loopGo => exact hsame rfl rfl rfl
  | stopUnseen => exact hsame rfl rfl rfl
  | @skip cta cta' w hpick hdone =>
      obtain rfl : (cta.pickNext env.plan.warpCount).2 = cta' := congrArg Prod.snd hpick
      exact hsame rfl rfl rfl
  | @pick cta cta' w hpick =>
      obtain rfl : (cta.pickNext env.plan.warpCount).2 = cta' := congrArg Prod.snd hpick
      exact hsame rfl rfl rfl
  | retire hwarp hstep => exact absurd rfl (hstepping _ _)
  | issue hwarp hstep => exact absurd rfl (hstepping _ _)
  | retiredGo => exact hsame rfl rfl rfl
  | count => exact hsame rfl rfl rfl
  | _ => exact not_unfinished_of_none rfl (by simp)

/-- The CTA the worker is on. -/
def WorkerPhase.item? (phase : WorkerPhase) : Option CtaWorkItem :=
  match phase with
  | .received item => some item
  | phase => phase.cta?.map CtaRun.item

/-- A worker keeps its CTA until it leaves the step loop. -/
theorem WorkerMove.item (h : WorkerMove env smId s phase e phase' t) (hdiag : t.diag = none)
    {item : CtaWorkItem} (hitem : phase.item? = some item) :
    phase'.item? = some item
    ∨ (∃ cta, phase.cta? = some cta ∧ cta.item = item
        ∧ (e = .limit smId (some cta) ∨ s.cta.sched.stop = true ∧ e = .left smId cta))
    ∨ ∃ cta cta', phase = .picking cta ∧ cta'.item = item
        ∧ cta.pickNext env.plan.warpCount = (none, cta') ∧ e = .left smId cta' := by
  cases h with
  | analysisFault => cases hdiag
  | fault => cases hdiag
  | start hwarps hanalysis hcta =>
      obtain rfl := Option.some.inj hitem
      exact .inl (by rw [hcta]; rfl)
  | loopLimit hlimit => exact .inr (.inl ⟨_, rfl, Option.some.inj hitem, .inl rfl⟩)
  | loopGo => exact .inl hitem
  | stopSeen hstop => exact .inr (.inl ⟨_, rfl, Option.some.inj hitem, .inr ⟨hstop, rfl⟩⟩)
  | stopUnseen => exact .inl hitem
  | @noWarp cta cta' hpick =>
      obtain rfl : (cta.pickNext env.plan.warpCount).2 = cta' := congrArg Prod.snd hpick
      have hof : (cta.pickNext env.plan.warpCount).2.item = item := Option.some.inj hitem
      exact .inr (.inr ⟨cta, _, rfl, hof, hpick, rfl⟩)
  | @skip cta cta' w hpick hdone =>
      obtain rfl : (cta.pickNext env.plan.warpCount).2 = cta' := congrArg Prod.snd hpick
      exact .inl hitem
  | @pick cta cta' w hpick =>
      obtain rfl : (cta.pickNext env.plan.warpCount).2 = cta' := congrArg Prod.snd hpick
      exact .inl hitem
  | retire hwarp hstep => exact .inl hitem
  | issue hwarp hstep => exact .inl hitem
  | retiredFault hfault =>
      have hnone : s.diag = none := hdiag
      rw [hnone] at hfault
      cases hfault
  | retiredGo => exact .inl hitem
  | count => exact .inl hitem
  | _ => cases hitem

theorem WorkerMove.ended (h : WorkerMove env smId s phase e .ended t) (hdiag : t.diag = none) :
    t.cta.sched.stop = true := by
  cases h with
  | leave => rfl
  | ends hends =>
      have hnone : s.diag = none := hdiag
      rw [hnone] at hends
      exact hends.resolve_right (by simp)

end Moves

/-! ### The invariant -/

/-- The step, with its limit tests only succeeding when no work is left. -/
def StepInTime (env : DriverEnv) (s : DriverState) (e : DriverEvent) (t : DriverState) : Prop :=
  DriverStep env s e t ∧ ∀ smId cta, e = .limit smId cta → ¬ s.WorkLeft

/-- A worker left the step loop of the item's CTA with every lane returned. -/
def ItemExecuted (env : DriverEnv) (events : List DriverEvent) (item : CtaWorkItem) : Prop :=
  ∃ smId cta, (.left smId cta ∈ events ∨ .limit smId (some cta) ∈ events)
    ∧ cta.item = item ∧ cta.Executed env

structure DriverInv (env : DriverEnv) (events : List DriverEvent) (s : DriverState) : Prop where
  run : Run (CtaStep env.policy env.plan.smCount) {} (ctaEvents env events) s.cta
  good : ∀ smId, (s.worker smId).Good env
  halted : s.diag = none → s.Halting → ¬ s.WorkLeft
  accounted : s.diag = none → ∀ smId item, (smId, item) ∈ acquired (ctaEvents env events) →
    (s.worker smId).item? = some item ∨ ItemExecuted env events item
  ended : s.diag = none → ∀ smId, smId.toNat < env.plan.smCount → s.worker smId = .ended →
    s.cta.sched.stop = true ∨ .ret smId none ∈ ctaEvents env events

theorem ItemExecuted.concat {events : List DriverEvent} {item : CtaWorkItem}
    (h : ItemExecuted env events item) (e : DriverEvent) :
    ItemExecuted env (events ++ [e]) item := by
  obtain ⟨smId, cta, hleft, hitem, hexecuted⟩ := h
  refine ⟨smId, cta, ?_, hitem, hexecuted⟩
  exact hleft.imp (List.mem_append_left _) (List.mem_append_left _)

theorem acquired_ctaEvents_concat (events : List DriverEvent) (e : DriverEvent) :
    acquired (ctaEvents env (events ++ [e]))
      = acquired (ctaEvents env events) ++ acquired e.sched?.toList := by
  rw [ctaEvents_concat, acquired_append]

section Step

variable {events : List DriverEvent} {s t : DriverState} {e : DriverEvent} {smId : SmId}

theorem WorkerMove.workLeft {phase' : WorkerPhase}
    (hmove : WorkerMove env smId s (s.worker smId) e phase' t) (hgood : (s.worker smId).Good env)
    (hnone : ¬ s.WorkLeft) : ¬ t.WorkLeft := by
  have hqueues : t.cta.sched.q = s.cta.sched.q := by
    rcases workerMove_sched hmove with ⟨-, hcta⟩ | ⟨-, hcta⟩
    · rw [hcta]
    · rw [hcta]
      rfl
  rintro (⟨k, hk⟩ | ⟨smId', hunfinished⟩)
  · rw [hqueues] at hk
    exact hnone (.inl ⟨k, hk⟩)
  · by_cases heq : smId' = smId
    · rw [heq, hmove.self] at hunfinished
      exact hmove.finished hgood (fun h => hnone (.inr ⟨smId, h⟩)) hunfinished
    · rw [hmove.others heq] at hunfinished
      exact hnone (.inr ⟨smId', hunfinished⟩)

/-- The CTA of a worker when no work is left. -/
theorem executed_of_no_work {cta : CtaRun} (hgood : (s.worker smId).Good env)
    (hchecked : env.plan.Checked env.launch) (hnone : ¬ s.WorkLeft)
    (hcta : (s.worker smId).cta? = some cta) : cta.Executed env := by
  refine (hgood.run cta hcta).executed_of_finished hchecked fun warp hwarp => ?_
  by_contra hlive
  exact hnone (.inr ⟨smId, .inr ⟨cta, hcta, warp, hwarp, Bool.eq_false_of_not_eq_true hlive⟩⟩)

theorem DriverInv.work (hinv : DriverInv env events s) (hchecked : env.plan.Checked env.launch)
    (hkind : env.plan.warpSched = .inOrderRunToCompletion ∨ env.plan.warpCount ≤ 2 ^ 31)
    (hstep : workerStep env smId s = some (e, t))
    (hinTime : ∀ smId cta, e = .limit smId cta → ¬ s.WorkLeft) :
    DriverInv env (events ++ [e]) t := by
  obtain ⟨phase', hmove⟩ := workerStep_moves hstep
  have hgood := hinv.good smId
  have hacquired : acquired (ctaEvents env (events ++ [e])) = acquired (ctaEvents env events) := by
    rw [acquired_ctaEvents_concat]
    rcases workerMove_sched hmove with ⟨hnone, -⟩ | ⟨hstop, -⟩
    · rw [hnone]
      exact List.append_nil _
    · rw [hstop]
      exact List.append_nil _
  have hstops : s.cta.sched.stop = true → t.cta.sched.stop = true := by
    intro hstop
    rcases workerMove_sched hmove with ⟨-, hcta⟩ | ⟨-, hcta⟩
    · rw [hcta]
      exact hstop
    · rw [hcta]
      rfl
  refine ⟨driverStep_sched hinv.run (.work smId hstep), fun smId' => ?_, fun hdiag hhalting => ?_,
    fun hdiag smId' item hmem => ?_, fun hdiag smId' hlt hended => ?_⟩
  · by_cases heq : smId' = smId
    · rw [heq, hmove.self]
      exact hmove.good hgood
    · rw [hmove.others heq]
      exact hinv.good smId'
  · refine hmove.workLeft hgood ?_
    rcases hmove.halting rfl hdiag hhalting with hold | ⟨cta, hlimit⟩
    · exact hinv.halted (hmove.diag_none hdiag) hold
    · exact hinTime _ _ hlimit
  · rw [hacquired] at hmem
    have hdiag' := hmove.diag_none hdiag
    rcases hinv.accounted hdiag' smId' item hmem with hitem | hexecuted
    · by_cases heq : smId' = smId
      · rw [heq] at hitem ⊢
        rw [hmove.self]
        rcases hmove.item hdiag hitem with hkeeps | ⟨cta, hcta, hof, hleft⟩
          | ⟨cta, cta', hphase, hof, hpick, hleft⟩
        · exact .inl hkeeps
        · -- a limit reached in time, or a stop: no work is left
          refine .inr ⟨smId, cta, ?_, hof, ?_⟩
          · rcases hleft with rfl | ⟨-, rfl⟩
            · exact .inr (List.mem_append_right _ List.mem_cons_self)
            · exact .inl (List.mem_append_right _ List.mem_cons_self)
          · have hnone : ¬ s.WorkLeft := by
              rcases hleft with hlimit | ⟨hstop, -⟩
              · exact hinTime _ _ hlimit
              · exact hinv.halted hdiag' (.inl hstop)
            exact executed_of_no_work hgood hchecked hnone hcta
        · refine .inr ⟨smId, cta', ?_, hof, ?_⟩
          · rw [hleft]
            exact .inl (List.mem_append_right _ List.mem_cons_self)
          · exact (hgood.run cta (by rw [hphase]; rfl)).executed_of_noWarp hchecked hkind hpick
      · rw [hmove.others heq]
        exact .inl hitem
    · exact .inr (hexecuted.concat e)
  · by_cases heq : smId' = smId
    · rw [heq, hmove.self] at hended
      subst hended
      exact .inl (hmove.ended hdiag)
    · rw [hmove.others heq] at hended
      rw [ctaEvents_concat]
      exact (hinv.ended (hmove.diag_none hdiag) smId' hlt hended).imp hstops
        (List.mem_append_left _)

/-- What an event of `acquire` does to the deques and the stop flag. -/
theorem ctaStep_acquire {p : CtaPolicy} {smCount : Nat} {c c' : CtaSystem} {e : CtaEvent}
    (hworker : e.worker? = some smId) (hstep : CtaStep p smCount c e c') :
    c'.sched.stop = c.sched.stop ∧ ((∀ k, c.sched.q k = []) →
      c'.sched.q = c.sched.q ∧ ∀ item, e ≠ .ret smId (some item)) := by
  cases hstep with
  | submit item hfree => cases hworker
  | close hfree => cases hworker
  | requestStop => cases hworker
  | take smId' htaking =>
      refine ⟨popFront_stop _ _, fun hempty => ?_⟩
      rcases popFront_cases (p := p) c.sched smId' with ⟨-, hpop⟩ | ⟨item, rest, hq, -⟩
      · rw [hpop]
        exact ⟨rfl, by simp⟩
      · rw [hempty] at hq
        cases hq
  | _ => exact ⟨rfl, fun _ => ⟨rfl, by simp⟩⟩

/-- A worker comes out of `acquire` with a CTA, comes out without one, or is still in it. -/
theorem CtaEvent.phaseAfter_cases {e : CtaEvent} (hworker : e.worker? = some smId) :
    (∃ item, e = .ret smId (some item) ∧ e.phaseAfter = .received item)
      ∨ (e = .ret smId none ∧ e.phaseAfter = .ended)
      ∨ acquired [e] = [] ∧ e.phaseAfter = .acquiring := by
  cases e with
  | submit item => cases hworker
  | close => cases hworker
  | requestStop => cases hworker
  | ret smId' item =>
      obtain rfl := Option.some.inj hworker
      cases item with
      | none => exact .inr (.inl ⟨rfl, rfl⟩)
      | some item => exact .inl ⟨item, rfl, rfl⟩
  | _ => exact .inr (.inr ⟨rfl, rfl⟩)

theorem DriverInv.acquire (hinv : DriverInv env events s) {e : CtaEvent} {cta : CtaSystem}
    (hphase : s.worker smId = .acquiring) (hworker : e.worker? = some smId)
    (hstep : CtaStep env.policy env.plan.smCount s.cta e cta) :
    DriverInv env (events ++ [.sched e]) ({ s with cta := cta }.moveTo smId e.phaseAfter) := by
  obtain ⟨hstop, hempty⟩ := ctaStep_acquire hworker hstep
  have hself : ({ s with cta := cta }.moveTo smId e.phaseAfter).worker smId = e.phaseAfter :=
    Function.update_self smId _ s.worker
  have hothers : ∀ smId', smId' ≠ smId →
      ({ s with cta := cta }.moveTo smId e.phaseAfter).worker smId' = s.worker smId' :=
    fun smId' hne => Function.update_of_ne hne _ s.worker
  have hafter := CtaEvent.phaseAfter_cases hworker
  refine ⟨driverStep_sched hinv.run (.acquire smId hphase hworker hstep), fun smId' => ?_,
    fun hdiag hhalting => ?_, fun hdiag smId' item hmem => ?_, fun hdiag smId' hlt hended => ?_⟩
  · by_cases heq : smId' = smId
    · rw [heq, hself]
      apply WorkerPhase.Good.of_none
      rcases hafter with ⟨item, -, hreceived⟩ | ⟨-, hend⟩ | ⟨-, hagain⟩
      · rw [hreceived]
        rfl
      · rw [hend]
        rfl
      · rw [hagain]
        rfl
    · rw [hothers smId' heq]
      exact hinv.good smId'
  · have hhalting' : s.Halting := by
      rcases hhalting with hstopped | ⟨smId', hstops⟩
      · exact .inl (hstop.symm.trans hstopped)
      · by_cases heq : smId' = smId
        · rw [heq, hself] at hstops
          rcases hafter with ⟨item, -, hreceived⟩ | ⟨-, hend⟩ | ⟨-, hagain⟩
          · rw [hreceived] at hstops
            simp at hstops
          · rw [hend] at hstops
            simp at hstops
          · rw [hagain] at hstops
            simp at hstops
        · rw [hothers smId' heq] at hstops
          exact .inr ⟨smId', hstops⟩
    have hnone := hinv.halted hdiag hhalting'
    have hqueues : ∀ k, s.cta.sched.q k = [] := fun k => by
      by_contra hk
      exact hnone (.inl ⟨k, hk⟩)
    obtain ⟨hsame, hnothing⟩ := hempty hqueues
    rintro (⟨k, hk⟩ | ⟨smId', hunfinished⟩)
    · have hk' : cta.sched.q k ≠ [] := hk
      rw [hsame] at hk'
      exact hk' (hqueues k)
    · by_cases heq : smId' = smId
      · rw [heq, hself] at hunfinished
        rcases hafter with ⟨item, hret, -⟩ | ⟨-, hend⟩ | ⟨-, hagain⟩
        · exact hnothing item hret
        · rw [hend] at hunfinished
          exact not_unfinished_of_none rfl (by simp) hunfinished
        · rw [hagain] at hunfinished
          exact not_unfinished_of_none rfl (by simp) hunfinished
      · rw [hothers smId' heq] at hunfinished
        exact hnone (.inr ⟨smId', hunfinished⟩)
  · rw [acquired_ctaEvents_concat, List.mem_append] at hmem
    rcases hmem with hold | hnew
    · refine (hinv.accounted hdiag smId' item hold).imp (fun hitem => ?_) (·.concat _)
      have hne : smId' ≠ smId := by
        rintro rfl
        rw [hphase] at hitem
        cases hitem
      rwa [hothers smId' hne]
    · have hret : e = .ret smId' (some item) := (List.mem_singleton.mp (mem_acquired.mp hnew)).symm
      subst hret
      obtain rfl : smId' = smId := Option.some.inj hworker
      rw [hself]
      exact .inl rfl
  · rw [ctaEvents_concat]
    by_cases heq : smId' = smId
    · rw [heq, hself] at hended
      rcases hafter with ⟨item, -, hreceived⟩ | ⟨hret, -⟩ | ⟨-, hagain⟩
      · rw [hreceived] at hended
        cases hended
      · rw [heq, hret]
        exact .inr (List.mem_append_right _ List.mem_cons_self)
      · rw [hagain] at hended
        cases hended
    · rw [hothers smId' heq] at hended
      exact (hinv.ended hdiag smId' hlt hended).imp (hstop.trans ·) (List.mem_append_left _)

end Step

theorem acquired_start : acquired (ctaEvents env []) = [] := by
  rw [List.eq_nil_iff_forall_not_mem]
  rintro ⟨smId, item⟩ hmem
  simpa [ctaEvents] using mem_acquired.mp hmem

theorem DriverInv.start (mem : MemState) : DriverInv env [] (env.start mem) := by
  have hphase : ∀ smId, (env.start mem).worker smId = .top
      ∨ smId.toNat ≥ env.plan.smCount ∧ (env.start mem).worker smId = .ended := by
    intro smId
    rw [DriverEnv.start]
    dsimp only
    split
    · exact .inl rfl
    next hge => exact .inr ⟨Nat.le_of_not_lt hge, rfl⟩
  have hnostop : (env.start mem).cta.sched.stop = false := by
    have hinv : CtaInv env.policy (ctaEvents env []) (env.start mem).cta :=
      ctaInv_run (start_sched mem)
    rw [Bool.eq_false_iff, Ne, hinv.stop]
    simp [ctaEvents]
  refine ⟨start_sched mem, fun smId => ?_, fun _ hhalting => ?_, fun _ smId item hmem => ?_,
    fun _ smId hlt hended => ?_⟩
  · apply WorkerPhase.Good.of_none
    rcases hphase smId with htop | ⟨-, hend⟩
    · rw [htop]
      rfl
    · rw [hend]
      rfl
  · rcases hhalting with hstop | ⟨smId, hstops⟩
    · rw [hnostop] at hstop
      cases hstop
    · rcases hphase smId with htop | ⟨-, hend⟩
      · rw [htop] at hstops
        simp at hstops
      · rw [hend] at hstops
        simp at hstops
  · rw [acquired_start] at hmem
    cases hmem
  · rcases hphase smId with htop | ⟨hge, -⟩
    · rw [htop] at hended
      cases hended
    · omega

/-- **The run lemma.** -/
theorem driverInv_run {mem : MemState} {events : List DriverEvent} {s : DriverState}
    (hchecked : env.plan.Checked env.launch)
    (hkind : env.plan.warpSched = .inOrderRunToCompletion ∨ env.plan.warpCount ≤ 2 ^ 31)
    (hrun : Run (StepInTime env) (env.start mem) events s) : DriverInv env events s := by
  refine hrun.invariant (DriverInv.start mem) fun es s e t hinv hstep => ?_
  obtain ⟨hstep, hinTime⟩ := hstep
  cases hstep with
  | work smId hstep => exact hinv.work hchecked hkind hstep hinTime
  | acquire smId hphase hworker hstep => exact hinv.acquire hphase hworker hstep

theorem checkLaunch_smCount {cfg : SimConfig} {kernel : KernelImage} {launch : LaunchConfig}
    {plan : LaunchPlan} (h : checkLaunch cfg kernel launch = .ok plan) : 1 ≤ plan.smCount := by
  have hcount : plan.smCount = if cfg.parallelEnabled then cfg.smCount else 1 := by
    unfold checkLaunch at h
    dsimp only at h
    split_ifs at h
    all_goals
      obtain rfl := Except.ok.inj h
      simp [*]
  rw [hcount]
  split
  next hparallel =>
    rw [SimConfig.parallelEnabled, Bool.and_eq_true, decide_eq_true_eq] at hparallel
    omega
  · exact le_refl 1

@[simp]
theorem submitted_map (items : List CtaWorkItem) : submitted (items.map .submit) = items := by
  rw [submitted, List.filterMap_map]
  exact List.filterMap_some

/-- Workers submit nothing. -/
theorem driverStep_submits {s t : DriverState} {e : DriverEvent} (hstep : DriverStep env s e t) :
    submitted e.sched?.toList = [] := by
  cases hstep with
  | work smId hstep =>
      obtain ⟨phase', hmove⟩ := workerStep_moves hstep
      rcases workerMove_sched hmove with ⟨hsched, -⟩ | ⟨hsched, -⟩
      all_goals
        rw [hsched]
        rfl
  | @acquire e cta smId hphase hworker hstep =>
      cases e with
      | submit item => cases hworker
      | _ => rfl

theorem submitted_sched {mem : MemState} {events : List DriverEvent} {s : DriverState}
    (hrun : Run (StepInTime env) (env.start mem) events s) :
    submitted (events.filterMap DriverEvent.sched?) = [] := by
  refine hrun.invariant (I := fun events _ => submitted (events.filterMap DriverEvent.sched?) = [])
    rfl fun es s e t hnone hstep => ?_
  obtain ⟨hstep, -⟩ := hstep
  rw [List.filterMap_append, submitted_append, hnone, filterMap_sched, driverStep_submits hstep,
    List.nil_append]

theorem submitsFirst_ctaEvents {mem : MemState} {events : List DriverEvent} {s : DriverState}
    (hrun : Run (StepInTime env) (env.start mem) events s) :
    SubmitsFirst (ctaEvents env events) :=
  submitsFirst_of_close (by simp) (submitted_sched hrun)

/-- **Completed runs.** If the step limit is only found reached when no work is left, a run that
reports completion has executed every CTA: every warp of it returned all the lanes it began with. -/
theorem completed_executes_all {env : DriverEnv} {mem : MemState} {events : List DriverEvent}
    {s : DriverState} (hplan : checkLaunch env.cfg env.kernel env.launch = .ok env.plan)
    (hkind : env.plan.warpSched = .inOrderRunToCompletion ∨ env.plan.warpCount ≤ 2 ^ 31)
    (hrun : Run (StepInTime env) (env.start mem) events s) (hended : s.Ended)
    (hcompleted : s.result.completed = true) :
    ∀ item ∈ ctaItems env.launch.gridDim, ItemExecuted env events item := by
  have hinv := driverInv_run (checkLaunch_ok hplan) hkind hrun
  have hdiag : s.diag = none := by
    rw [DriverState.result, Bool.not_eq_true'] at hcompleted
    exact Option.not_isSome_iff_eq_none.mp (Bool.eq_false_iff.mp hcompleted)
  have hsched := ctaInv_run hinv.run
  intro item hitem
  have hsubmitted : item ∈ submitted (ctaEvents env events) := by
    rw [ctaEvents, submitted_append, submitted_map]
    exact List.mem_append_left _ hitem
  have hempty : s.cta.sched.q (env.policy.submitQueue item) = [] := by
    by_cases hstop : s.cta.sched.stop = true
    · have hnone := hinv.halted hdiag (.inl hstop)
      by_contra hk
      exact hnone (.inl ⟨_, hk⟩)
    · -- the worker of the deque was turned away
      obtain ⟨smId, hlt, hqueue⟩ :=
        exists_worker env.plan.ctaSched (checkLaunch_smCount hplan) item
      have hret := (hinv.ended hdiag smId hlt (hended smId)).resolve_left hstop
      have haway := hsched.turnedAway smId hret (submitsFirst_ctaEvents hrun)
        (Bool.eq_false_of_not_eq_true hstop)
      exact hqueue ▸ haway.2
  have hcount : 0 < (acquiredItems (ctaEvents env events)).count item := by
    rw [hsched.count_eq hempty]
    exact List.count_pos_iff.mpr hsubmitted
  obtain ⟨⟨smId, item'⟩, hmem, rfl⟩ := List.mem_map.mp (List.count_pos_iff.mp hcount)
  refine (hinv.accounted hdiag smId item' hmem).resolve_left ?_
  rw [hended smId]
  exact fun h => by cases h

/-! ### Two runs -/

theorem idle_workers_ended {mem : MemState} {events : List DriverEvent} {s : DriverState}
    (hrun : Run (DriverStep env) (env.start mem) events s) {smId : SmId}
    (hge : env.plan.smCount ≤ smId.toNat) : s.worker smId = .ended := by
  refine hrun.invariant (I := fun _ s => s.worker smId = .ended) ?_ fun es s e t hended hstep => ?_
  · rw [DriverEnv.start]
    exact if_neg (Nat.not_lt_of_le hge)
  · cases hstep with
    | work smId' hstep =>
        obtain ⟨phase', hmove⟩ := workerStep_moves hstep
        by_cases heq : smId = smId'
        · rw [← heq, workerStep, hended] at hstep
          cases hstep
        · rwa [hmove.others heq]
    | acquire smId' hphase hworker hstep =>
        have hne : smId ≠ smId' := by
          rintro rfl
          rw [hended] at hphase
          cases hphase
        exact (Function.update_of_ne hne _ s.worker).trans hended

def DriverEvent.isLimit : DriverEvent → Bool
  | .limit _ _ => true
  | _ => false

def WorkerPhase.isEnded : WorkerPhase → Bool
  | .ended => true
  | _ => false

theorem WorkerPhase.eq_ended {phase : WorkerPhase} (h : phase.isEnded = true) : phase = .ended := by
  cases phase with
  | ended => rfl
  | _ => cases h

/-- Only the workers of the launch need a look. -/
theorem ended_of_workers {mem : MemState} {events : List DriverEvent} {s : DriverState}
    (hrun : Run (DriverStep env) (env.start mem) events s)
    (hworkers : ∀ i < env.plan.smCount, (s.worker (BitVec.ofNat 64 i)).isEnded = true) :
    s.Ended := by
  intro smId
  by_cases hworker : smId.toNat < env.plan.smCount
  · have hended := hworkers smId.toNat hworker
    rw [BitVec.ofNat_toNat, BitVec.setWidth_eq] at hended
    exact WorkerPhase.eq_ended hended
  · exact idle_workers_ended hrun (Nat.le_of_not_lt hworker)

/-- A run that never finds the step limit reached. -/
theorem inTime_of_no_limit {s t : DriverState} {es : List DriverEvent}
    (hrun : Run (DriverStep env) s es t) (hlimit : es.all (fun e => !e.isLimit) = true) :
    Run (StepInTime env) s es t := by
  have hall : ∀ e ∈ es, e.isLimit = false := fun e he =>
    Bool.not_eq_true' _ |>.mp (List.all_eq_true.mp hlimit e he)
  refine (hrun.restrict hall).mono fun s e t hstep => ⟨hstep.1, ?_⟩
  rintro smId cta rfl
  cases hstep.2

def retEnv (maxSteps : Nat) : DriverEnv where
  cfg := { maxSteps := maxSteps, warpSize := 1 }
  plan :=
    { threadsPerBlock := 1
      warpSize := 1
      warpCount := 1
      smCount := 1
      ctaSched := .fifo
      warpSched := .inOrderRunToCompletion }
  kernel := { insts := [{ opcode := "ret" }] }
  launch := { warpSize := 1 }
  registry := demoDescs
  floatOps := .unused

/-- The one CTA before its first step. -/
def retCta : CtaRun where
  item := {}
  reconvPc := [none]
  warps := [(retEnv 0).initWarp {} 0]
  sched := WarpScheduler.onCtaStart .inOrderRunToCompletion

theorem retEnv_ended {maxSteps : Nat} {mem : MemState} {events : List DriverEvent} {s : DriverState}
    (hrun : Run (DriverStep (retEnv maxSteps)) ((retEnv maxSteps).start mem) events s)
    (hended : s.worker 0 = .ended) : s.Ended := by
  intro smId
  by_cases hzero : smId = 0
  · rw [hzero, hended]
  · refine idle_workers_ended hrun (Nat.one_le_iff_ne_zero.mpr fun hnat => hzero ?_)
    exact BitVec.eq_of_toNat_eq hnat

/-- No step is allowed: the CTA is dropped before its first instruction. -/
def limitRun : List DriverEvent :=
  [.internal 0, .sched (.call 0), .sched (.look 0), .sched (.goOn 0), .sched (.ret 0 (some {})),
    .internal 0, .limit 0 (some retCta), .sched .requestStop, .internal 0, .internal 0,
    .sched (.call 0), .sched (.look 0), .sched (.ret 0 none)]

theorem limitRun_run : ∃ s, Run (DriverStep (retEnv 0)) ((retEnv 0).start {}) limitRun s
    ∧ s.worker 0 = .ended ∧ s.result.completed = true := by
  have hstart : Run (DriverStep (retEnv 0)) ((retEnv 0).start {}) [.internal 0] _ :=
    Run.start.next (.work 0 rfl)
  have hcalled := hstart.next (.acquire 0 rfl rfl (.call 0 (by decide) rfl))
  have hreceived := ((hcalled.next (.acquire 0 rfl rfl (.pass 0 rfl rfl rfl))).next
    (.acquire 0 rfl rfl (.goOn 0 rfl rfl))).next (.acquire 0 rfl rfl (.take 0 rfl))
  have hlimit := (hreceived.next (.work 0 rfl)).next (.work 0 rfl)
  have hback := ((hlimit.next (.work 0 rfl)).next (.work 0 rfl)).next (.work 0 rfl)
  have hagain := (hback.next (.acquire 0 rfl rfl (.call 0 (by decide) rfl))).next
    (.acquire 0 rfl rfl (.pass 0 rfl rfl rfl))
  exact ⟨_, hagain.next (.acquire 0 rfl rfl (.stopped 0 rfl rfl)), rfl, rfl⟩

theorem limit_reports_completed :
    checkLaunch (retEnv 0).cfg (retEnv 0).kernel (retEnv 0).launch = .ok (retEnv 0).plan
      ∧ ∃ events s, Run (DriverStep (retEnv 0)) ((retEnv 0).start {}) events s ∧ s.Ended
        ∧ s.result.completed = true ∧ s.result.diag = none
        ∧ ¬ ∀ item ∈ ctaItems (retEnv 0).launch.gridDim, ItemExecuted (retEnv 0) events item := by
  obtain ⟨s, hrun, hended, hcompleted⟩ := limitRun_run
  have hdiag : s.result.diag = none := by
    rw [DriverState.result, Bool.not_eq_true'] at hcompleted
    exact Option.not_isSome_iff_eq_none.mp (Bool.eq_false_iff.mp hcompleted)
  refine ⟨by decide, limitRun, s, hrun, retEnv_ended hrun hended, hcompleted, hdiag, fun hall => ?_⟩
  obtain ⟨smId, cta, hleft, -, hexecuted⟩ := hall {} (by decide)
  obtain ⟨-, hcta⟩ : smId = 0 ∧ cta = retCta := by simpa [limitRun] using hleft
  obtain ⟨warp, hwarp, hexited⟩ := hexecuted 0 (by decide)
  rw [hcta] at hwarp hexited
  obtain rfl := Option.some.inj hwarp
  revert hexited
  decide

/-- Two workers and two CTAs of two lanes; the second lane takes the branch. -/
def forkEnv : DriverEnv where
  cfg := { maxSteps := 100, warpSize := 2, smCount := 2, parallel := true }
  plan :=
    { threadsPerBlock := 2
      warpSize := 2
      warpCount := 1
      smCount := 2
      ctaSched := .fifo
      warpSched := .inOrderRunToCompletion }
  kernel := { insts := [movLaneid 1, setpLt 0 1 1, braIf 0 4, movImm 1 7, retInst] }
  launch := { gridDim := { x := 2 }, blockDim := { x := 2 }, warpSize := 2 }
  registry := demoDescs
  floatOps := .unused

/-- The two workers step in turn. -/
def forkTurns : List DriverEvent × DriverState :=
  forkEnv.turns (List.replicate 48 [0, 1]).flatten (forkEnv.start {})

theorem forkEnv_ends : forkTurns.2.Ended := by
  apply ended_of_workers (turns_run forkEnv _ _)
  decide +kernel

theorem completed_executes_all_fork :
    Run (StepInTime forkEnv) (forkEnv.start {}) forkTurns.1 forkTurns.2
      ∧ forkTurns.2.result = { completed := true, steps := 10, diag := none }
      ∧ ∀ item ∈ ctaItems forkEnv.launch.gridDim, ItemExecuted forkEnv forkTurns.1 item := by
  have hresult : forkTurns.2.result = { completed := true, steps := 10, diag := none } := by
    decide +kernel
  have hrun : Run (StepInTime forkEnv) (forkEnv.start {}) forkTurns.1 forkTurns.2 := by
    apply inTime_of_no_limit (turns_run forkEnv _ _)
    decide +kernel
  refine ⟨hrun, hresult, ?_⟩
  apply completed_executes_all (by decide) (.inl rfl) hrun forkEnv_ends
  rw [hresult]

end ProtoGpu

import ProtoGpu.Proof.WarpAccesses
import ProtoGpu.Proof.WorkerProgress

/-!
# A run of the workers is an order of warp steps

As long as there is neither a diagnostic nor a stop, a step of the system is a step of one warp of
the launch or none at all: each CTA is held by one worker at most, whose copies of its warps are
where the steps of these warps have brought them. What is not started yet is as `initWarp` makes it,
and what was left stays as it was.
-/

namespace ProtoGpu

open Transitions Interleaving

/-- A warp of a launch: its CTA and its number there. -/
abbrev WarpId := CtaWorkItem × BitVec 32

variable {env : DriverEnv} {smId : SmId} {s t : DriverState} {e : DriverEvent}
  {phase phase' : WorkerPhase}

/-! ### Calm steps -/

/-- The worker has a step to count. -/
def WorkerPhase.pending : WorkerPhase → Nat
  | .counting _ => 1
  | _ => 0

/-- Whether the step loop counts the step. -/
def StepOutcome.counts : StepOutcome → Bool
  | .retired => false
  | .issued _ => true

/-- `reconv_pc`, where the analysis gives one. -/
def DriverEnv.reconvPc (env : DriverEnv) : List (Option Int) :=
  match analyzeControlFlow env.kernel env.registry env.plan.warpSize with
  | .ok reconvPc => reconvPc
  | .error _ => []

/-- A step of a worker, without a diagnostic, a stop or the step limit. -/
inductive CalmMove (env : DriverEnv) (smId : SmId) (s : DriverState) :
    WorkerPhase → DriverEvent → WorkerPhase → DriverState → Prop
  | idle {phase phase' : WorkerPhase} (hitem : phase.item? = none) (hitem' : phase'.item? = none)
      (hlive : phase ≠ .ended) (hphase : phase' = .acquiring ∨ phase' = .top) :
      CalmMove env smId s phase (.internal smId) phase' (s.moveTo smId phase')
  | start {item : CtaWorkItem} {warps : List WarpState} (hwarps : env.initWarps item = some warps)
      {cta : CtaRun} (hitem : cta.item = item)
      (hanalysis : analyzeControlFlow env.kernel env.registry env.plan.warpSize = .ok cta.reconvPc)
      (hcta : cta.warps = warps) :
      CalmMove env smId s (.received item) (.internal smId) (.looping cta)
        (s.moveTo smId (.looping cta))
  | go {phase phase' : WorkerPhase} {cta cta' : CtaRun} (hcta : phase.cta? = some cta)
      (hcta' : phase'.cta? = some cta') (hitem : cta'.item = cta.item)
      (hreconv : cta'.reconvPc = cta.reconvPc) (hwarps : cta'.warps = cta.warps)
      (hpending : phase.pending = 0) (hpending' : phase'.pending = 0)
      (hphase : ∀ cta w, phase ≠ .stepping cta w) :
      CalmMove env smId s phase (.internal smId) phase' (s.moveTo smId phase')
  | count {cta : CtaRun} :
      CalmMove env smId s (.counting cta) (.internal smId) (.looping cta)
        { s.moveTo smId (.looping cta) with steps := s.steps + 1 }
  | warp {cta : CtaRun} {w : BitVec 32} {warp warp' : WarpState} {mem : MemState}
      {outcome : StepOutcome} {phase' : WorkerPhase} (hwarp : cta.warps[w.toNat]? = some warp)
      (hlt : w.toNat < env.plan.warpCount) (hlive : warp.done = false)
      (hstep : warpStep (env.warpContext cta.reconvPc) warp s.mem = (.ok outcome, warp', mem))
      (hphase : outcome.counts = false ∧ phase' = .retired (cta.setWarp w warp')
        ∨ outcome.counts = true ∧ phase' = .counting (cta.setWarp w warp')) :
      CalmMove env smId s (.stepping cta w) (.internal smId) phase'
        { s.moveTo smId phase' with mem := mem }
  | leave {cta cta' : CtaRun} (hitem : cta'.item = cta.item)
      (hreconv : cta'.reconvPc = cta.reconvPc) (hwarps : cta'.warps = cta.warps)
      (hpick : cta.pickNext env.plan.warpCount = (none, cta')) :
      CalmMove env smId s (.picking cta) (.left smId cta') .returned (s.moveTo smId .returned)

theorem WorkerMove.calm (h : WorkerMove env smId s phase e phase' t) (hgood : phase.Good env)
    (hphase : s.worker smId = phase) (hhalting : ¬ s.Halting) (hdiag : t.diag = none)
    (hlimit : s.limitReached env = false) : CalmMove env smId s phase e phase' t := by
  have hnostop : s.cta.sched.stop ≠ true := fun hstop => hhalting (.inl hstop)
  cases h with
  | topLimit hreached =>
      rw [hlimit] at hreached
      cases hreached
  | topGo => exact .idle rfl rfl (by simp) (.inl rfl)
  | leave => exact absurd (.inr ⟨smId, .inr hphase⟩) hhalting
  | analysisFault => cases hdiag
  | start hwarps hanalysis hcta =>
      exact .start hwarps (by rw [hcta]) (by rw [hcta, hanalysis]) (by rw [hcta])
  | loopLimit hreached =>
      rw [hlimit] at hreached
      cases hreached
  | loopGo => exact .go rfl rfl rfl rfl rfl rfl rfl (by simp)
  | stopSeen hstop => exact absurd hstop hnostop
  | stopUnseen => exact .go rfl rfl rfl rfl rfl rfl rfl (by simp)
  | @noWarp cta cta' hpick =>
      obtain rfl : (cta.pickNext env.plan.warpCount).2 = cta' := congrArg Prod.snd hpick
      exact .leave rfl rfl rfl hpick
  | @skip cta cta' w hpick hdone =>
      obtain ⟨-, -, hlive⟩ := (hgood.run _ rfl).pick hpick
      rw [hdone] at hlive
      cases hlive
  | @pick cta cta' w hpick =>
      obtain rfl : (cta.pickNext env.plan.warpCount).2 = cta' := congrArg Prod.snd hpick
      exact .go rfl rfl rfl rfl rfl rfl rfl (by simp)
  | fault => cases hdiag
  | @retire cta w warp warp' mem hwarp hstep =>
      obtain ⟨hlt, hlive⟩ := hgood.live _ _ rfl
      rw [CtaRun.isWarpDone, hwarp] at hlive
      exact .warp hwarp hlt hlive hstep (.inl ⟨rfl, rfl⟩)
  | @issue cta w warp warp' mem issue hwarp hstep =>
      obtain ⟨hlt, hlive⟩ := hgood.live _ _ rfl
      rw [CtaRun.isWarpDone, hwarp] at hlive
      exact .warp hwarp hlt hlive hstep (.inr ⟨rfl, rfl⟩)
  | retiredFault hfault =>
      have hnone : s.diag = none := hdiag
      rw [hnone] at hfault
      cases hfault
  | retiredGo => exact .go rfl rfl rfl rfl rfl rfl rfl (by simp)
  | count => exact .count
  | stop => exact absurd (.inr ⟨smId, .inl hphase⟩) hhalting
  | ends hends =>
      have hnone : s.diag = none := hdiag
      rw [hnone] at hends
      exact absurd (hends.resolve_right (by simp)) hnostop
  | again => exact .idle rfl rfl (by simp) (.inr rfl)

namespace CalmMove

theorem worker_eq (h : CalmMove env smId s phase e phase' t) :
    t.worker = Function.update s.worker smId phase' := by
  cases h with
  | _ => rfl

theorem self (h : CalmMove env smId s phase e phase' t) : t.worker smId = phase' := by
  rw [h.worker_eq, Function.update_self]

theorem others (h : CalmMove env smId s phase e phase' t) {j : SmId} (hne : j ≠ smId) :
    t.worker j = s.worker j := by
  rw [h.worker_eq, Function.update_of_ne hne]

theorem cta_eq (h : CalmMove env smId s phase e phase' t) : t.cta = s.cta := by
  cases h with
  | _ => rfl

theorem diag_eq (h : CalmMove env smId s phase e phase' t) : t.diag = s.diag := by
  cases h with
  | _ => rfl

theorem sched_none (h : CalmMove env smId s phase e phase' t) : e.sched? = none := by
  cases h with
  | _ => rfl

theorem not_ended (h : CalmMove env smId s phase e phase' t) : phase' ≠ .ended := by
  cases h with
  | idle hitem hitem' hlive hphase =>
      rintro rfl
      simp at hphase
  | go hcta hcta' =>
      rintro rfl
      cases hcta'
  | warp hwarp hlt hlive hstep hphase =>
      rintro rfl
      simp at hphase
  | _ => simp

theorem live (h : CalmMove env smId s phase e phase' t) : phase ≠ .ended := by
  cases h with
  | idle hitem hitem' hlive => exact hlive
  | go hcta =>
      rintro rfl
      cases hcta
  | _ => simp

theorem left_worker {j : SmId} {cta : CtaRun}
    (h : CalmMove env smId s phase (.left j cta) phase' t) : j = smId := by
  cases h with
  | leave => rfl

end CalmMove

/-! ### Who holds which CTA -/

/-- The items of a grid differ. -/
theorem nodup_ctaItems (grid : Dim3) : (ctaItems grid).Nodup := by
  rw [ctaItems_eq]
  refine List.Nodup.map_on (fun k hk m hm heq => ?_) List.nodup_range
  have hcoords : grid.coords k = grid.coords m := by
    simp only [ctaItem, CtaWorkItem.mk.injEq] at heq
    obtain ⟨hx, hy, hz, -⟩ := heq
    simp only [Dim3.coords, hx, hy, hz]
  calc k = grid.position (grid.coords k) := (Dim3.position_coords (List.mem_range.mp hk)).symm
    _ = grid.position (grid.coords m) := congrArg _ hcoords
    _ = m := Dim3.position_coords (List.mem_range.mp hm)

theorem submitted_ctaEvents {es : List DriverEvent}
    (h : submitted (es.filterMap DriverEvent.sched?) = []) :
    submitted (ctaEvents env es) = ctaItems env.launch.gridDim := by
  have hclose : submitted (.close :: es.filterMap DriverEvent.sched?) = [] := h
  rw [ctaEvents, submitted_append, submitted_map, hclose, List.append_nil]

theorem acquiredItems_ctaEvents_concat (es : List DriverEvent) (e : DriverEvent) :
    acquiredItems (ctaEvents env (es ++ [e]))
      = acquiredItems (ctaEvents env es) ++ acquiredItems e.sched?.toList := by
  rw [ctaEvents_concat, acquiredItems_append]

theorem WorkerPhase.item?_of_cta {cta : CtaRun} (hcta : phase.cta? = some cta) :
    phase.item? = some cta.item := by
  cases phase with
  | received item => cases hcta
  | _ => exact congrArg (Option.map CtaRun.item) hcta

/-- A run so far, without a diagnostic, a stop or the step limit. -/
structure Orderly (env : DriverEnv) (es : List DriverEvent) (s : DriverState) : Prop where
  run : Run (CtaStep env.policy env.plan.smCount) {} (ctaEvents env es) s.cta
  submits : submitted (es.filterMap DriverEvent.sched?) = []
  admitting : Admitting env s
  good : ∀ smId, (s.worker smId).Good env
  diag : s.diag = none
  running : ¬ s.Halting
  owner : ∀ smId item, (s.worker smId).item? = some item →
    (smId, item) ∈ acquired (ctaEvents env es)
  left : ∀ smId cta, .left smId cta ∈ es → cta.item ∈ acquiredItems (ctaEvents env es)
    ∧ ∀ j, (s.worker j).item? ≠ some cta.item
  accounted : ∀ item ∈ acquiredItems (ctaEvents env es),
    (∃ smId, (s.worker smId).item? = some item) ∨ ∃ smId cta, .left smId cta ∈ es ∧ cta.item = item
  ended : ∀ smId, smId.toNat < env.plan.smCount → s.worker smId = .ended →
    .ret smId none ∈ ctaEvents env es

/-- No item is handed out twice, and none that was not submitted. -/
theorem acquiredItems_subperm {es : List DriverEvent}
    (hrun : Run (CtaStep env.policy env.plan.smCount) {} (ctaEvents env es) s.cta)
    (hsubmits : submitted (es.filterMap DriverEvent.sched?) = []) :
    (acquiredItems (ctaEvents env es)).Subperm (ctaItems env.launch.gridDim) := by
  rw [← submitted_ctaEvents hsubmits]
  exact List.subperm_ext_iff.mpr fun item _ => (ctaInv_run hrun).count_le item

theorem nodup_acquiredItems {es : List DriverEvent}
    (hrun : Run (CtaStep env.policy env.plan.smCount) {} (ctaEvents env es) s.cta)
    (hsubmits : submitted (es.filterMap DriverEvent.sched?) = []) :
    (acquiredItems (ctaEvents env es)).Nodup := by
  obtain ⟨items, hperm, hsub⟩ := acquiredItems_subperm hrun hsubmits
  exact hperm.nodup_iff.mp (hsub.nodup (nodup_ctaItems _))

namespace Orderly

variable {es : List DriverEvent}

theorem mem_acquiredItems (h : Orderly env es s) {item : CtaWorkItem}
    (hitem : (s.worker smId).item? = some item) : item ∈ acquiredItems (ctaEvents env es) :=
  List.mem_map_of_mem (f := Prod.snd) (h.owner smId item hitem)

theorem mem_ctaItems (h : Orderly env es s) {item : CtaWorkItem}
    (hitem : item ∈ acquiredItems (ctaEvents env es)) : item ∈ ctaItems env.launch.gridDim :=
  (acquiredItems_subperm h.run h.submits).subset hitem

/-- A CTA has one worker. -/
theorem owner_unique (h : Orderly env es s) {i j : SmId} {item : CtaWorkItem}
    (hi : (s.worker i).item? = some item) (hj : (s.worker j).item? = some item) : i = j := by
  have hnodup : ((acquired (ctaEvents env es)).map Prod.snd).Nodup :=
    nodup_acquiredItems h.run h.submits
  have heq := List.inj_on_of_nodup_map hnodup (h.owner i item hi) (h.owner j item hj) rfl
  exact congrArg Prod.fst heq

theorem start (mem : MemState) : Orderly env [] (env.start mem) := by
  have hphase : ∀ smId, (env.start mem).worker smId = .top
      ∨ env.plan.smCount ≤ smId.toNat ∧ (env.start mem).worker smId = .ended := by
    intro smId
    rcases Nat.lt_or_ge smId.toNat env.plan.smCount with hlt | hge
    · exact .inl (if_pos hlt)
    · exact .inr ⟨hge, if_neg (Nat.not_lt_of_le hge)⟩
  have hnone : ∀ smId, ((env.start mem).worker smId).item? = none := by
    intro smId
    rcases hphase smId with htop | ⟨-, hended⟩
    · rw [htop]
      rfl
    · rw [hended]
      rfl
  have hacquired : acquiredItems (ctaEvents env []) = [] := by
    rw [acquiredItems, acquired_start, List.map_nil]
  have hinv : DriverInv env [] (env.start mem) := .start mem
  refine
    { run := start_sched mem
      submits := rfl
      admitting := Admitting.start mem
      good := hinv.good
      diag := rfl
      running := ?_
      owner := fun smId item hitem => ?_
      left := fun smId cta hleft => absurd hleft List.not_mem_nil
      accounted := fun item hitem => ?_
      ended := fun smId hlt hended => ?_ }
  · rintro (hstop | ⟨smId, hstops⟩)
    · have hsched : CtaInv env.policy (ctaEvents env []) (env.start mem).cta :=
        ctaInv_run (start_sched mem)
      have hstops := hsched.stop.mp hstop
      simp [ctaEvents] at hstops
    · rcases hphase smId with htop | ⟨-, hended⟩
      · rw [htop] at hstops
        simp at hstops
      · rw [hended] at hstops
        simp at hstops
  · rw [hnone] at hitem
    cases hitem
  · rw [hacquired] at hitem
    cases hitem
  · rcases hphase smId with htop | ⟨hge, -⟩
    · rw [htop] at hended
      cases hended
    · omega

/-- A step that keeps or leaves the worker's CTA. -/
theorem work (h : Orderly env es s) (hmove : WorkerMove env smId s (s.worker smId) e phase' t)
    (hcalm : CalmMove env smId s (s.worker smId) e phase' t) : Orderly env (es ++ [e]) t := by
  have hevents : ctaEvents env (es ++ [e]) = ctaEvents env es := by
    rw [ctaEvents_concat, hcalm.sched_none]
    exact List.append_nil _
  have hkept : ∀ item, phase'.item? = some item → (s.worker smId).item? = some item := by
    intro item hitem
    generalize s.worker smId = phase at hcalm
    cases hcalm with
    | idle hnone hnone' =>
        rw [hnone'] at hitem
        cases hitem
    | start hwarps hof =>
        obtain rfl := Option.some.inj hitem
        exact congrArg some hof.symm
    | go hcta hcta' hof =>
        rw [WorkerPhase.item?_of_cta hcta'] at hitem
        rw [WorkerPhase.item?_of_cta hcta, ← hof, hitem]
    | count => exact hitem
    | warp hwarp hlt hlive hstep hphase =>
        rcases hphase with ⟨-, rfl⟩ | ⟨-, rfl⟩
        · exact hitem
        · exact hitem
    | leave => cases hitem
  have hbefore : ∀ j item, (t.worker j).item? = some item → (s.worker j).item? = some item := by
    intro j item hitem
    by_cases heq : j = smId
    · rw [heq, hcalm.self] at hitem
      rw [heq]
      exact hkept item hitem
    · rwa [hcalm.others heq] at hitem
  refine
    { run := by rw [hevents, hcalm.cta_eq]; exact h.run
      submits := ?_
      admitting := h.admitting.work hmove
      good := fun j => ?_
      diag := hcalm.diag_eq.trans h.diag
      running := ?_
      owner := fun j item hitem => by rw [hevents]; exact h.owner j item (hbefore j item hitem)
      left := fun j cta hmem => ?_
      accounted := fun item hitem => ?_
      ended := fun j hlt hended => ?_ }
  · rw [List.filterMap_append, filterMap_sched, hcalm.sched_none, Option.toList_none,
      List.append_nil]
    exact h.submits
  · by_cases heq : j = smId
    · rw [heq, hcalm.self]
      exact hmove.good (h.good smId)
    · rw [hcalm.others heq]
      exact h.good j
  · intro hhalting
    have hdiag := hcalm.diag_eq.trans h.diag
    rcases hmove.halting rfl hdiag hhalting with hold | ⟨cta, rfl⟩
    · exact h.running hold
    · generalize s.worker smId = phase at hcalm
      cases hcalm
  · rw [hevents]
    rcases List.mem_append.mp hmem with hold | hnew
    · obtain ⟨hacquired, hfree⟩ := h.left j cta hold
      exact ⟨hacquired, fun k hk => hfree k (hbefore k _ hk)⟩
    · obtain rfl := List.mem_singleton.mp hnew
      generalize hphase : s.worker smId = phase at hcalm
      cases hcalm with
      | @leave ctaBefore _ hof hreconv hwarps hpick =>
          have hheld : (s.worker smId).item? = some cta.item := by
            rw [hphase, hof]
            rfl
          refine ⟨h.mem_acquiredItems hheld, fun k hk => ?_⟩
          obtain rfl := h.owner_unique (hbefore k _ hk) hheld
          rw [DriverState.moveTo_self] at hk
          cases hk
  · rw [hevents] at hitem
    rcases h.accounted item hitem with ⟨j, hj⟩ | ⟨j, cta, hleft, hof⟩
    · by_cases heq : j = smId
      · rw [heq] at hj
        have hself := hcalm.self
        generalize s.worker smId = phase at hcalm hj
        cases hcalm with
        | idle hnone =>
            rw [hnone] at hj
            cases hj
        | start hwarps hof =>
            refine .inl ⟨smId, ?_⟩
            rw [hself, ← hj]
            exact congrArg some hof
        | go hcta hcta' hof =>
            refine .inl ⟨smId, ?_⟩
            rw [hself, WorkerPhase.item?_of_cta hcta', hof, ← WorkerPhase.item?_of_cta hcta, hj]
        | count => exact .inl ⟨smId, by rw [hself]; exact hj⟩
        | warp hwarp hlt hlive hstep hphase =>
            refine .inl ⟨smId, ?_⟩
            rw [hself]
            rcases hphase with ⟨-, rfl⟩ | ⟨-, rfl⟩
            · exact hj
            · exact hj
        | @leave cta cta' hof hreconv hwarps hpick =>
            refine .inr ⟨smId, cta', List.mem_append_right _ List.mem_cons_self, ?_⟩
            exact hof.trans (Option.some.inj hj)
      · exact .inl ⟨j, by rwa [hcalm.others heq]⟩
    · exact .inr ⟨j, cta, List.mem_append_left _ hleft, hof⟩
  · rw [hevents]
    by_cases heq : j = smId
    · rw [heq, hcalm.self] at hended
      exact absurd hended hcalm.not_ended
    · rw [hcalm.others heq] at hended
      exact h.ended j hlt hended

/-- The item a worker takes is new. -/
theorem taken_new {item : CtaWorkItem} {cta : CtaSystem} (h : Orderly env es s)
    (hstep : CtaStep env.policy env.plan.smCount s.cta (.ret smId (some item)) cta) :
    item ∉ acquiredItems (ctaEvents env es) ∧ item ∈ ctaItems env.launch.gridDim := by
  have hrun : Run (CtaStep env.policy env.plan.smCount) {}
      (ctaEvents env (es ++ [.sched (.ret smId (some item))])) cta := by
    rw [ctaEvents_concat]
    exact h.run.next hstep
  have hsubmits : submitted
      ((es ++ [DriverEvent.sched (.ret smId (some item))]).filterMap DriverEvent.sched?) = [] := by
    rw [List.filterMap_append, submitted_append, h.submits]
    rfl
  have hnew : acquiredItems (ctaEvents env (es ++ [.sched (.ret smId (some item))]))
      = acquiredItems (ctaEvents env es) ++ [item] := acquiredItems_ctaEvents_concat _ _
  have hnodup := nodup_acquiredItems (s := { s with cta := cta }) hrun hsubmits
  have hsub := acquiredItems_subperm (s := { s with cta := cta }) hrun hsubmits
  rw [hnew] at hnodup hsub
  refine ⟨fun hmem => ?_, hsub.subset (by simp)⟩
  exact (List.nodup_append.mp hnodup).2.2 item hmem item (by simp) rfl

theorem acquire (h : Orderly env es s) {e : CtaEvent} {cta : CtaSystem}
    (hphase : s.worker smId = .acquiring) (hworker : e.worker? = some smId)
    (hstep : CtaStep env.policy env.plan.smCount s.cta e cta) :
    Orderly env (es ++ [.sched e]) ({ s with cta := cta }.moveTo smId e.phaseAfter) := by
  have hdriver := DriverStep.acquire smId hphase hworker hstep
  have hself : ({ s with cta := cta }.moveTo smId e.phaseAfter).worker smId = e.phaseAfter :=
    DriverState.moveTo_self _ _ _
  have hothers : ∀ j, j ≠ smId →
      ({ s with cta := cta }.moveTo smId e.phaseAfter).worker j = s.worker j :=
    fun j hne => DriverState.moveTo_others _ _ hne
  have hevents : acquired (ctaEvents env (es ++ [.sched e]))
      = acquired (ctaEvents env es) ++ acquired [e] := acquired_ctaEvents_concat es (.sched e)
  have hitems : acquiredItems (ctaEvents env (es ++ [.sched e]))
      = acquiredItems (ctaEvents env es) ++ acquiredItems [e] :=
    acquiredItems_ctaEvents_concat es (.sched e)
  have hafter := CtaEvent.phaseAfter_cases hworker
  have hidle : (s.worker smId).item? = none := by
    rw [hphase]
    rfl
  have hheld : ∀ item, e.phaseAfter.item? = some item → e = .ret smId (some item) := by
    intro item hitem
    rcases hafter with ⟨taken, hret, hreceived⟩ | ⟨-, hend⟩ | ⟨-, hagain⟩
    · rw [hreceived] at hitem
      obtain rfl := Option.some.inj hitem
      exact hret
    · rw [hend] at hitem
      cases hitem
    · rw [hagain] at hitem
      cases hitem
  refine
    { run := driverStep_sched h.run hdriver
      submits := ?_
      admitting := h.admitting.acquire hphase hworker hstep
      good := fun j => ?_
      diag := h.diag
      running := ?_
      owner := fun j item hitem => ?_
      left := fun j run hmem => ?_
      accounted := fun item hitem => ?_
      ended := fun j hlt hended => ?_ }
  · have hnone : submitted [e] = [] := driverStep_submits hdriver
    rw [List.filterMap_append, submitted_append, h.submits, filterMap_sched]
    exact hnone
  · by_cases heq : j = smId
    · rw [heq, hself]
      rcases hafter with ⟨taken, -, hreceived⟩ | ⟨-, hend⟩ | ⟨-, hagain⟩
      · rw [hreceived]
        exact .of_none rfl
      · rw [hend]
        exact .of_none rfl
      · rw [hagain]
        exact .of_none rfl
    · rw [hothers j heq]
      exact h.good j
  · rintro (hstop | ⟨j, hstops⟩)
    · exact h.running (.inl ((ctaStep_acquire hworker hstep).1.symm.trans hstop))
    · by_cases heq : j = smId
      · rw [heq, hself] at hstops
        rcases hafter with ⟨taken, -, hreceived⟩ | ⟨-, hend⟩ | ⟨-, hagain⟩
        · rw [hreceived] at hstops
          simp at hstops
        · rw [hend] at hstops
          simp at hstops
        · rw [hagain] at hstops
          simp at hstops
      · rw [hothers j heq] at hstops
        exact h.running (.inr ⟨j, hstops⟩)
  · rw [hevents]
    by_cases heq : j = smId
    · rw [heq, hself] at hitem
      rw [heq, hheld item hitem]
      exact List.mem_append_right _ List.mem_cons_self
    · rw [hothers j heq] at hitem
      exact List.mem_append_left _ (h.owner j item hitem)
  · have hold : .left j run ∈ es := by simpa using hmem
    obtain ⟨hacquired, hfree⟩ := h.left j run hold
    rw [hitems]
    refine ⟨List.mem_append_left _ hacquired, fun k hk => ?_⟩
    by_cases heq : k = smId
    · rw [heq, hself] at hk
      obtain rfl := hheld _ hk
      exact (h.taken_new hstep).1 hacquired
    · rw [hothers k heq] at hk
      exact hfree k hk
  · rw [hitems, List.mem_append] at hitem
    rcases hitem with hold | hnew
    · rcases h.accounted item hold with ⟨j, hj⟩ | ⟨j, run, hleft, hof⟩
      · have hne : j ≠ smId := by
          rintro rfl
          rw [hidle] at hj
          cases hj
        exact .inl ⟨j, by rwa [hothers j hne]⟩
      · exact .inr ⟨j, run, List.mem_append_left _ hleft, hof⟩
    · refine .inl ⟨smId, ?_⟩
      rcases hafter with ⟨taken, hret, hreceived⟩ | ⟨hret, -⟩ | ⟨hnone, -⟩
      · rw [hret] at hnew
        obtain rfl : item = taken := List.mem_singleton.mp hnew
        rw [hself, hreceived]
        rfl
      · rw [hret] at hnew
        cases hnew
      · rw [acquiredItems, hnone] at hnew
        cases hnew
  · rw [ctaEvents_concat]
    by_cases heq : j = smId
    · rw [heq, hself] at hended
      rcases hafter with ⟨taken, -, hreceived⟩ | ⟨hret, -⟩ | ⟨-, hagain⟩
      · rw [hreceived] at hended
        cases hended
      · rw [heq, hret]
        exact List.mem_append_right _ List.mem_cons_self
      · rw [hagain] at hended
        cases hended
    · rw [hothers j heq] at hended
      exact List.mem_append_left _ (h.ended j hlt hended)

end Orderly

/-! ### The order of warp steps -/

def DriverEnv.machine (env : DriverEnv) (mem : MemState) :
    Machine WarpState Cell (Option Byte) StepOutcome :=
  warpMachine (env.warpContext env.reconvPc) mem

/-- A warp before its first step; what is no warp of the launch takes none. -/
def DriverEnv.fresh (env : DriverEnv) (i : WarpId) : WarpState :=
  if i.1 ∈ ctaItems env.launch.gridDim ∧ i.2.toNat < env.plan.warpCount then env.initWarp i.1 i.2
  else { done := true }

def DriverEnv.startConfig (env : DriverEnv) (mem : MemState) :
    Config WarpId WarpState Cell (Option Byte) where
  threads := env.fresh
  store := mem.byte

/-- The steps that count. -/
def issued (ms : List (WarpId × StepOutcome)) : Nat := ms.countP fun m => m.2.counts

/-- A CTA in its step loop, with its warps where the order of steps has them. -/
structure CtaRun.At (env : DriverEnv) (c : Config WarpId WarpState Cell (Option Byte))
    (cta : CtaRun) : Prop where
  analysed : analyzeControlFlow env.kernel env.registry env.plan.warpSize = .ok cta.reconvPc
  count : env.plan.warpCount < 2 ^ 32
  length : cta.warps.length = env.plan.warpCount
  warp : ∀ w : BitVec 32, w.toNat < env.plan.warpCount →
    cta.warps[w.toNat]? = some (c.threads (cta.item, w))

theorem CtaRun.At.reconvPc_eq {c : Config WarpId WarpState Cell (Option Byte)} {cta : CtaRun}
    (h : cta.At env c) : cta.reconvPc = env.reconvPc := by
  rw [DriverEnv.reconvPc, h.analysed]

/-- What a step of the system accesses, with the warp whose step it is. -/
def DriverEnv.stepAccesses (env : DriverEnv) (s : DriverState) :
    DriverEvent → List (WarpId × Access)
  | .internal smId =>
      match s.worker smId with
      | .stepping cta w =>
          match cta.warps[w.toNat]? with
          | some warp =>
              (warpAccesses (env.warpContext cta.reconvPc) warp s.mem).map (Prod.mk (cta.item, w))
          | none => []
      | _ => []
  | _ => []

/-- The warp step, if any, that a step of the system is. -/
inductive Advance (env : DriverEnv) (mem : MemState) (s : DriverState) (e : DriverEvent)
    (c : Config WarpId WarpState Cell (Option Byte)) (ms : List (WarpId × StepOutcome)) :
    Config WarpId WarpState Cell (Option Byte) → List (WarpId × StepOutcome) → Prop
  | stay (haccesses : env.stepAccesses s e = []) : Advance env mem s e c ms c ms
  | warp {i : WarpId} {outcome : StepOutcome} {c' : Config WarpId WarpState Cell (Option Byte)}
      (haccesses : env.stepAccesses s e
        = (warpAccesses (env.warpContext env.reconvPc) (c.threads i) s.mem).map (Prod.mk i))
      (hstep : Step (env.machine mem) c (i, outcome) c') :
      Advance env mem s e c ms c' (ms ++ [(i, outcome)])

theorem stepAccesses_idle (h : ∀ cta w, s.worker smId ≠ .stepping cta w) :
    env.stepAccesses s (.internal smId) = [] := by
  unfold DriverEnv.stepAccesses
  dsimp only
  split
  next cta w hphase => exact absurd hphase (h cta w)
  · rfl

/-- The state of the system after a run, and the order of warp steps the run was. -/
structure Tracked (env : DriverEnv) (mem : MemState) (es : List DriverEvent)
    (ms : List (WarpId × StepOutcome)) (s : DriverState)
    (c : Config WarpId WarpState Cell (Option Byte)) : Prop where
  mem : s.mem = mem.withBytes c.store
  held : ∀ smId cta, (s.worker smId).cta? = some cta → cta.At env c
  untaken : ∀ item, item ∉ acquiredItems (ctaEvents env es) →
    ∀ w, c.threads (item, w) = env.fresh (item, w)
  received : ∀ smId item, s.worker smId = .received item →
    ∀ w, c.threads (item, w) = env.fresh (item, w)
  left : ∀ smId cta, .left smId cta ∈ es → cta.At env c
  steps : ∃ n, s.steps = BitVec.ofNat 64 n
    ∧ n + ∑ smId ∈ env.workers, (s.worker smId).pending = issued ms
    ∧ ∀ k < n, (BitVec.ofNat 64 k).toNat < env.cfg.maxSteps

namespace Tracked

variable {es : List DriverEvent} {ms ms' : List (WarpId × StepOutcome)} {mem : MemState}
  {c c' : Config WarpId WarpState Cell (Option Byte)}

theorem start (mem : MemState) : Tracked env mem [] [] (env.start mem) (env.startConfig mem) := by
  have hphase : ∀ smId, (env.start mem).worker smId = .top
      ∨ (env.start mem).worker smId = .ended := fun smId => ite_eq_or_eq ..
  refine ⟨rfl, fun smId cta hcta => ?_, fun _ _ _ => rfl, fun _ _ _ _ => rfl, nofun, 0, rfl, ?_,
    nofun⟩
  · rcases hphase smId with htop | hended
    · rw [htop] at hcta
      cases hcta
    · rw [hended] at hcta
      cases hcta
  · rw [Nat.zero_add]
    refine Finset.sum_eq_zero fun smId _ => ?_
    rcases hphase smId with htop | hended
    · rw [htop]
      rfl
    · rw [hended]
      rfl

/-- The counter, and the steps that are about to be counted. -/
theorem steps_of (h : Tracked env mem es ms s c) (hlt : smId.toNat < env.plan.smCount)
    (hlimit : s.limitReached env = false)
    (hothers : ∀ j, j ≠ smId → t.worker j = s.worker j) {k : Nat}
    (hk : k ≤ 1) (hsteps : t.steps = s.steps + BitVec.ofNat 64 k)
    (hpending : k + (t.worker smId).pending + issued ms = (s.worker smId).pending + issued ms') :
    ∃ n, t.steps = BitVec.ofNat 64 n
      ∧ n + ∑ smId ∈ env.workers, (t.worker smId).pending = issued ms'
      ∧ ∀ k < n, (BitVec.ofNat 64 k).toNat < env.cfg.maxSteps := by
  obtain ⟨n, hn, htotal, hbelow⟩ := h.steps
  refine ⟨n + k, by rw [hsteps, hn, BitVec.ofNat_add], ?_, fun m hm => ?_⟩
  · have hsum := sum_workers (f := fun j => (s.worker j).pending)
      (g := fun j => (t.worker j).pending) hlt fun j hne => by rw [hothers j hne]
    omega
  · rcases Nat.lt_or_ge m n with hearlier | hnow
    · exact hbelow m hearlier
    · obtain rfl : m = n := by omega
      rw [← hn]
      exact Nat.lt_of_not_ge (of_decide_eq_false hlimit)

/-- A step that is no step of a warp. -/
theorem stay (h : Tracked env mem es ms s c) (horderly : Orderly env es s)
    (hlimit : s.limitReached env = false)
    (hcalm : CalmMove env smId s (s.worker smId) e phase' t) (hmem : t.mem = s.mem)
    (hheld : ∀ cta, phase'.cta? = some cta → cta.At env c)
    (hreceived : ∀ item, phase' ≠ .received item)
    (hleft : ∀ cta, e = .left smId cta → cta.At env c) {k : Nat} (hk : k ≤ 1)
    (hsteps : t.steps = s.steps + BitVec.ofNat 64 k)
    (hpending : k + phase'.pending = (s.worker smId).pending) :
    Tracked env mem (es ++ [e]) ms t c := by
  have hevents : ctaEvents env (es ++ [e]) = ctaEvents env es := by
    rw [ctaEvents_concat, hcalm.sched_none]
    exact List.append_nil _
  refine
    { mem := hmem.trans h.mem
      held := fun j cta hcta => ?_
      untaken := fun item hitem => ?_
      received := fun j item hphase => ?_
      left := fun j cta hmem => ?_
      steps := ?_ }
  · by_cases heq : j = smId
    · rw [heq, hcalm.self] at hcta
      exact hheld cta hcta
    · rw [hcalm.others heq] at hcta
      exact h.held j cta hcta
  · rw [hevents] at hitem
    exact h.untaken item hitem
  · by_cases heq : j = smId
    · rw [heq, hcalm.self] at hphase
      exact absurd hphase (hreceived item)
    · rw [hcalm.others heq] at hphase
      exact h.received j item hphase
  · rcases List.mem_append.mp hmem with hold | hnew
    · exact h.left j cta hold
    · obtain rfl := List.mem_singleton.mp hnew
      obtain rfl := hcalm.left_worker
      exact hleft cta rfl
  · have hlive := horderly.admitting.own smId hcalm.live
    refine h.steps_of hlive hlimit (fun j hne => hcalm.others hne) hk hsteps ?_
    rw [hcalm.self, hpending]

/-- A step of a live warp where the order of steps has it. -/
theorem machine_step (h : Tracked env mem es ms s c) {i : WarpId} {warp' : WarpState}
    {mem' : MemState} {outcome : StepOutcome} (hlive : (c.threads i).done = false)
    (hstep : warpStep (env.warpContext env.reconvPc) (c.threads i) s.mem
      = (.ok outcome, warp', mem')) :
    Step (env.machine mem) c (i, outcome)
        { threads := Function.update c.threads i warp', store := mem'.byte }
      ∧ mem' = mem.withBytes mem'.byte := by
  rw [h.mem] at hstep
  obtain ⟨-, -, -, -, hkeeps⟩ := warpStep_agree (.refl Set.univ _) (Set.subset_univ _) hstep
  have hrest : mem' = mem.withBytes mem'.byte := hkeeps.rest
  refine ⟨.mk i (warpMove_iff.mpr ⟨hlive, ?_⟩), hrest⟩
  rw [hstep, ← hrest]

theorem At.update_of_ne {cta : CtaRun} {i : WarpId} (hat : cta.At env c) (hne : cta.item ≠ i.1)
    (warp' : WarpState) (bytes : Cell → Option Byte) :
    cta.At env { threads := Function.update c.threads i warp', store := bytes } := by
  refine ⟨hat.analysed, hat.count, hat.length, fun w hw => ?_⟩
  have hother : (cta.item, w) ≠ i := fun heq => hne (congrArg Prod.fst heq)
  rw [hat.warp w hw]
  exact congrArg some (Function.update_of_ne hother ..).symm

/-- A step of the warp that the worker has picked. -/
theorem turn (h : Tracked env mem es ms s c) (horderly : Orderly env es s)
    (hlimit : s.limitReached env = false) {cta : CtaRun} {w : BitVec 32}
    (hphase : s.worker smId = .stepping cta w) {warp warp' : WarpState}
    {mem' : MemState} {outcome : StepOutcome} (hwarp : cta.warps[w.toNat]? = some warp)
    (hlt : w.toNat < env.plan.warpCount) (hlive : warp.done = false)
    (hstep : warpStep (env.warpContext cta.reconvPc) warp s.mem = (.ok outcome, warp', mem'))
    (hphase' : outcome.counts = false ∧ phase' = .retired (cta.setWarp w warp')
      ∨ outcome.counts = true ∧ phase' = .counting (cta.setWarp w warp')) :
    ∃ c', Step (env.machine mem) c ((cta.item, w), outcome) c'
      ∧ Tracked env mem (es ++ [.internal smId]) (ms ++ [((cta.item, w), outcome)])
          { s.moveTo smId phase' with mem := mem' } c' := by
  have hat := h.held smId cta (by rw [hphase]; rfl)
  have hthread :
      warp = c.threads (cta.item, w) := Option.some.inj (hwarp.symm.trans (hat.warp w hlt))
  subst hthread
  rw [hat.reconvPc_eq] at hstep
  obtain ⟨hmachine, hrest⟩ := h.machine_step hlive hstep
  refine ⟨_, hmachine, ?_⟩
  have hself : ({ s.moveTo smId phase' with mem := mem' } : DriverState).worker smId = phase' :=
    DriverState.moveTo_self ..
  have hothers : ∀ j, j ≠ smId →
      ({ s.moveTo smId phase' with mem := mem' } : DriverState).worker j = s.worker j :=
    fun j hne => DriverState.moveTo_others _ _ hne
  have hcta : phase'.cta? = some (cta.setWarp w warp') := by
    rcases hphase' with ⟨-, rfl⟩ | ⟨-, rfl⟩
    · rfl
    · rfl
  have hitem : (s.worker smId).item? = some cta.item := by
    rw [hphase]
    rfl
  have hkept : ∀ item, item ≠ cta.item → ∀ v,
      Function.update c.threads (cta.item, w) warp' (item, v) = c.threads (item, v) :=
    fun item hne v => Function.update_of_ne (fun heq => hne (congrArg Prod.fst heq)) ..
  refine
    { mem := hrest
      held := fun j run hrun => ?_
      untaken := fun item hnew v => ?_
      received := fun j item hreceived v => ?_
      left := fun j run hmem => ?_
      steps := ?_ }
  · by_cases heq : j = smId
    · rw [heq, hself, hcta] at hrun
      obtain rfl := Option.some.inj hrun
      refine ⟨hat.analysed, hat.count, List.length_set.trans hat.length, fun v hv => ?_⟩
      have hlength : w.toNat < cta.warps.length := (List.getElem?_eq_some_iff.mp hwarp).1
      dsimp only [CtaRun.setWarp]
      by_cases hvw : v = w
      · rw [hvw, List.getElem?_set_self hlength, Function.update_self]
      · have hne : w.toNat ≠ v.toNat := fun heq => hvw (BitVec.eq_of_toNat_eq heq.symm)
        have hother : (cta.item, v) ≠ (cta.item, w) := fun heq => hvw (Prod.mk.inj heq).2
        rw [List.getElem?_set_ne hne, Function.update_of_ne hother, hat.warp v hv]
    · rw [hothers j heq] at hrun
      refine At.update_of_ne (h.held j run hrun) (fun hsame => heq ?_) _ _
      have hitem' := WorkerPhase.item?_of_cta hrun
      rw [hsame] at hitem'
      exact horderly.owner_unique hitem' hitem
  · have hevents : ctaEvents env (es ++ [.internal smId]) = ctaEvents env es := by
      rw [ctaEvents_concat]
      exact List.append_nil _
    rw [hevents] at hnew
    have hne : item ≠ cta.item := by
      rintro rfl
      exact hnew (horderly.mem_acquiredItems hitem)
    exact (hkept item hne v).trans (h.untaken item hnew v)
  · have hne : j ≠ smId := by
      rintro rfl
      rw [hself] at hreceived
      rw [hreceived] at hcta
      cases hcta
    rw [hothers j hne] at hreceived
    have hne' : item ≠ cta.item := by
      rintro rfl
      exact hne (horderly.owner_unique (by rw [hreceived]; rfl) hitem)
    exact (hkept item hne' v).trans (h.received j item hreceived v)
  · have hold : .left j run ∈ es := by simpa using hmem
    refine At.update_of_ne (h.left j run hold) (fun hsame => ?_) _ _
    exact (horderly.left j run hold).2 smId (hsame ▸ hitem)
  · have hlive' := horderly.admitting.own smId (by rw [hphase]; simp)
    refine h.steps_of hlive' hlimit hothers (Nat.zero_le 1) (BitVec.add_zero _).symm ?_
    rw [hself, hphase]
    rcases hphase' with ⟨hcounts, rfl⟩ | ⟨hcounts, rfl⟩
    · simp [issued, hcounts, WorkerPhase.pending]
    · simp [issued, hcounts, WorkerPhase.pending]
      omega

theorem work (h : Tracked env mem es ms s c) (horderly : Orderly env es s)
    (hlimit : s.limitReached env = false)
    (hcalm : CalmMove env smId s (s.worker smId) e phase' t) :
    ∃ c' ms', Advance env mem s e c ms c' ms' ∧ Tracked env mem (es ++ [e]) ms' t c'
      ∧ ms'.length = ms.length + (s.worker smId).turns := by
  have hmove := hcalm
  generalize hphase : s.worker smId = phase at hcalm
  cases hcalm with
  | idle hitem hitem' hlive hnext =>
      have hnone : ∀ cta, phase'.cta? ≠ some cta := by
        intro cta hcta
        rw [WorkerPhase.item?_of_cta hcta] at hitem'
        cases hitem'
      have hturns : phase.turns = 0 ∧ phase.pending = 0 ∧ ∀ cta w, phase ≠ .stepping cta w := by
        cases phase with
        | stepping cta w => cases hitem
        | counting cta => cases hitem
        | _ => exact ⟨rfl, rfl, by simp⟩
      have hpending : phase'.pending = 0 := by
        rcases hnext with rfl | rfl
        · rfl
        · rfl
      refine ⟨c, ms, .stay (stepAccesses_idle (hphase ▸ hturns.2.2)), ?_, by rw [hturns.1]; rfl⟩
      refine h.stay horderly hlimit hmove rfl (fun cta hcta => absurd hcta (hnone cta)) ?_ nofun
        (Nat.zero_le 1) (BitVec.add_zero _).symm (by rw [hphase, hturns.2.1, hpending])
      rintro item rfl
      cases hitem'
  | @start item warps hwarps cta hof hanalysis hcta =>
      refine ⟨c, ms, .stay (stepAccesses_idle (by rw [hphase]; simp)), ?_, rfl⟩
      refine h.stay horderly hlimit hmove rfl (fun cta' hcta' => ?_) (by simp) nofun
        (Nat.zero_le 1) (BitVec.add_zero _).symm (by rw [hphase]; rfl)
      obtain rfl := Option.some.inj hcta'
      refine ⟨hanalysis, (initWarps_eq hwarps).1, ?_, fun w hw => ?_⟩
      · rw [hcta, (initWarps_eq hwarps).2, List.length_map, List.length_range]
      have hheld : (s.worker smId).item? = some item := by
        rw [hphase]
        rfl
      have hitem := horderly.mem_ctaItems (horderly.mem_acquiredItems hheld)
      rw [hof, h.received smId item hphase w, DriverEnv.fresh, if_pos ⟨hitem, hw⟩, hcta,
        (initWarps_eq hwarps).2, List.getElem?_map, List.getElem?_range hw, Option.map_some,
        BitVec.ofNat_toNat, BitVec.setWidth_eq]
  | @go _ _ cta cta' hcta hcta' hof hreconv hwarps hpending hpending' hstepping =>
      have hturns : phase.turns = 0 := by
        cases phase with
        | stepping cta w => exact absurd rfl (hstepping cta w)
        | _ => rfl
      refine ⟨c, ms, .stay (stepAccesses_idle (hphase ▸ hstepping)), ?_, by rw [hturns]; rfl⟩
      refine h.stay horderly hlimit hmove rfl (fun run hrun => ?_) ?_ nofun (Nat.zero_le 1)
        (BitVec.add_zero _).symm (by rw [hphase, hpending, hpending'])
      · obtain rfl := Option.some.inj (hcta'.symm.trans hrun)
        have hat := h.held smId cta (by rw [hphase, hcta])
        refine ⟨by rw [hreconv, hat.analysed], hat.count, by rw [hwarps, hat.length],
          fun w hw => ?_⟩
        rw [hwarps, hof]
        exact hat.warp w hw
      · rintro item rfl
        cases hcta'
  | @count cta =>
      refine ⟨c, ms, .stay (stepAccesses_idle (by rw [hphase]; simp)), ?_, rfl⟩
      refine h.stay (k := 1) horderly hlimit hmove rfl (fun run hrun => ?_) (by simp)
        nofun le_rfl rfl
        (by rw [hphase]; rfl)
      exact h.held smId run (by rw [hphase]; exact hrun)
  | @warp cta w warp warp' mem' outcome _ hwarp hlt hlive hstep hnext =>
      have hat := h.held smId cta (by rw [hphase]; rfl)
      have hthread :
          c.threads (cta.item, w) = warp := Option.some.inj ((hat.warp w hlt).symm.trans hwarp)
      obtain ⟨c', hmachine, htracked⟩ := h.turn horderly hlimit hphase hwarp hlt hlive hstep hnext
      refine ⟨c', _, .warp ?_ hmachine, htracked, List.length_append⟩
      unfold DriverEnv.stepAccesses
      simp only [hphase, hwarp, hat.reconvPc_eq, hthread]
  | @leave cta cta' hof hreconv hwarps hpick =>
      refine ⟨c, ms, .stay rfl, ?_, rfl⟩
      refine h.stay horderly hlimit hmove rfl nofun (by simp) (fun run hrun => ?_) (Nat.zero_le 1)
        (BitVec.add_zero _).symm (by rw [hphase]; rfl)
      obtain rfl : cta' = run := (DriverEvent.left.inj hrun).2
      have hat := h.held smId cta (by rw [hphase]; rfl)
      refine ⟨by rw [hreconv, hat.analysed], hat.count, by rw [hwarps, hat.length], fun w hw => ?_⟩
      rw [hwarps, hof]
      exact hat.warp w hw

theorem acquire (h : Tracked env mem es ms s c) (horderly : Orderly env es s)
    (hlimit : s.limitReached env = false) {e : CtaEvent} {cta : CtaSystem}
    (hphase : s.worker smId = .acquiring) (hworker : e.worker? = some smId)
    (hstep : CtaStep env.policy env.plan.smCount s.cta e cta) :
    Tracked env mem (es ++ [.sched e]) ms ({ s with cta := cta }.moveTo smId e.phaseAfter) c := by
  have hself : ({ s with cta := cta }.moveTo smId e.phaseAfter).worker smId = e.phaseAfter :=
    DriverState.moveTo_self _ _ _
  have hothers : ∀ j, j ≠ smId →
      ({ s with cta := cta }.moveTo smId e.phaseAfter).worker j = s.worker j :=
    fun j hne => DriverState.moveTo_others _ _ hne
  have hafter : e.phaseAfter.cta? = none ∧ e.phaseAfter.pending = 0
      ∧ ∀ item, e.phaseAfter = .received item → e = .ret smId (some item) := by
    rcases CtaEvent.phaseAfter_cases hworker with ⟨taken, hret, hreceived⟩ | ⟨-, hend⟩ | ⟨-, hagain⟩
    · rw [hreceived]
      exact ⟨rfl, rfl, fun item heq => by rwa [← WorkerPhase.received.inj heq]⟩
    · rw [hend]
      exact ⟨rfl, rfl, nofun⟩
    · rw [hagain]
      exact ⟨rfl, rfl, nofun⟩
  obtain ⟨hnone, hpending, htaken⟩ := hafter
  refine
    { mem := h.mem
      held := fun j run hrun => ?_
      untaken := fun item hitem => ?_
      received := fun j item hreceived => ?_
      left := fun j run hmem => h.left j run (by simpa using hmem)
      steps := ?_ }
  · by_cases heq : j = smId
    · rw [heq, hself, hnone] at hrun
      cases hrun
    · rw [hothers j heq] at hrun
      exact h.held j run hrun
  · rw [acquiredItems_ctaEvents_concat, List.mem_append, not_or] at hitem
    exact h.untaken item hitem.1
  · by_cases heq : j = smId
    · rw [heq, hself] at hreceived
      obtain rfl := htaken item hreceived
      exact h.untaken item (horderly.taken_new hstep).1
    · rw [hothers j heq] at hreceived
      exact h.received j item hreceived
  · have hlive := horderly.admitting.own smId (by rw [hphase]; simp)
    refine h.steps_of hlive hlimit hothers (Nat.zero_le 1) (BitVec.add_zero _).symm ?_
    rw [hself, hpending, hphase]
    rfl

/-- **Simulation.** A step of the system is a step of a warp or none, and brings the workers closer
to their end unless it is one or takes a CTA. -/
theorem step (h : Tracked env mem es ms s c) (horderly : Orderly env es s)
    (hstep : DriverStep env s e t) (hdiag : t.diag = none) (hlimit : s.limitReached env = false) :
    Orderly env (es ++ [e]) t ∧ ∃ c' ms', Advance env mem s e c ms c' ms'
      ∧ Tracked env mem (es ++ [e]) ms' t c'
      ∧ env.potential t + 1 + 5 * ms.length + 12 * (acquiredItems (ctaEvents env es)).length
        ≤ env.potential s + 5 * ms'.length
          + 12 * (acquiredItems (ctaEvents env (es ++ [e]))).length := by
  cases hstep with
  | work smId hstep =>
      obtain ⟨phase', hmove⟩ := workerStep_moves hstep
      have hgood := horderly.good smId
      have hcalm := hmove.calm hgood rfl horderly.running hdiag hlimit
      obtain ⟨c', ms', hadvance, htracked, hlength⟩ := h.work horderly hlimit hcalm
      refine ⟨horderly.work hmove hcalm, c', ms', hadvance, htracked, ?_⟩
      have hlt := horderly.admitting.own smId hmove.not_ended
      obtain ⟨hothers, hself⟩ := horderly.admitting.work_rank hgood hmove
      have hpotential := potential_step hlt hothers hself
      rw [acquiredItems_ctaEvents_concat, List.length_append]
      omega
  | @acquire e cta smId hphase hworker hstep =>
      refine ⟨horderly.acquire hphase hworker hstep, c, ms, .stay rfl,
        h.acquire horderly hlimit hphase hworker hstep, ?_⟩
      have hlt := horderly.admitting.own smId (by rw [hphase]; simp)
      obtain ⟨hothers, hself⟩ := horderly.admitting.acquire_rank hphase hworker hstep
      have hpotential := potential_step hlt hothers hself
      have hitems : (acquiredItems (DriverEvent.sched e).sched?.toList).length
          = (acquired [e]).length := List.length_map _
      rw [acquiredItems_ctaEvents_concat, List.length_append, hitems]
      omega

end Tracked

end ProtoGpu

import ProtoGpu.Proof.LocalRaces

/-!
# Every launch ends

A worker passes the test of the step limit before it issues an instruction and counts the step
afterwards, so the workers issue fewer instructions than the limit and the number of workers
together. A turn of a warp that issues nothing ends the warp. Between two turns a worker only comes
closer to its end or takes one more CTA. So the steps of all workers together are bounded, whoever
steps when, and a worker that cannot go on has ended or has thrown.
-/

namespace ProtoGpu

open Transitions

variable {env : DriverEnv} {smId : SmId} {s t : DriverState} {e : DriverEvent}
  {phase phase' : WorkerPhase} {mem : MemState} {es : List DriverEvent}

/-! ### What a worker may still spend -/

/-- The worker is past the limit test of its loop and has issued nothing since. -/
def WorkerPhase.admitted : WorkerPhase → Nat
  | .stopTest _ | .picking _ | .stepping _ _ => 1
  | _ => 0

/-- The warps of a CTA that are not done. -/
def CtaRun.liveWarps (cta : CtaRun) : Nat := cta.warps.countP fun warp => !warp.done

def WorkerPhase.liveWarps (env : DriverEnv) : WorkerPhase → Nat
  | .received _ => env.plan.warpCount
  | phase => (phase.cta?.map CtaRun.liveWarps).getD 0

theorem WorkerPhase.busy_le (phase : WorkerPhase) : phase.pending + phase.admitted ≤ 1 := by
  cases phase <;> simp [WorkerPhase.pending, WorkerPhase.admitted]

theorem WorkerPhase.liveWarps_of_cta {cta : CtaRun} (hcta : phase.cta? = some cta) :
    phase.liveWarps env = cta.liveWarps := by
  cases phase with
  | received item => cases hcta
  | _ => exact congrArg (fun run => (run.map CtaRun.liveWarps).getD 0) hcta

theorem WorkerPhase.liveWarps_of_none (hitem : phase.item? = none) : phase.liveWarps env = 0 := by
  cases phase with
  | received item => cases hitem
  | looping cta => cases hitem
  | stopTest cta => cases hitem
  | picking cta => cases hitem
  | stepping cta w => cases hitem
  | retired cta => cases hitem
  | counting cta => cases hitem
  | _ => rfl

/-! ### The turns of the warps of a CTA -/

section Turns

variable {cta : CtaRun} {w : BitVec 32} {warp warp' : WarpState}

theorem CtaRun.liveWarps_setWarp (warp' : WarpState) (hwarp : cta.warps[w.toNat]? = some warp)
    (hlive : warp.done = false) :
    (cta.setWarp w warp').liveWarps + 1 = cta.liveWarps + (!warp'.done).toNat := by
  obtain ⟨hlt, hget⟩ := List.getElem?_eq_some_iff.mp hwarp
  have hmem : warp ∈ cta.warps := List.mem_of_getElem? hwarp
  have hpos : 0 < cta.warps.countP fun warp => !warp.done := by
    apply List.countP_pos_iff.mpr
    exact ⟨warp, hmem, by rw [hlive]; rfl⟩
  unfold CtaRun.liveWarps CtaRun.setWarp
  rw [List.countP_set hlt, hget, hlive]
  cases warp'.done with
  | true => simp; omega
  | false => simp; omega

theorem CtaRun.liveWarps_pos (hwarp : cta.warps[w.toNat]? = some warp) (hlive : warp.done = false) :
    1 ≤ cta.liveWarps := by
  apply List.countP_pos_iff.mpr
  exact ⟨warp, List.mem_of_getElem? hwarp, by rw [hlive]; rfl⟩

theorem done_of_retired {ctx : WarpContext} {mem mem' : MemState}
    (hstep : warpStep ctx warp mem = (.ok .retired, warp', mem')) : warp'.done = true := by
  have hnorm := (warpStep_retired hstep).1
  unfold normalizeStack at hnorm
  split at hnorm
  · cases hnorm
  · cases hnorm
    rfl
  · cases hnorm

end Turns

/-- What a move costs: `c` steps counted, `i` instructions issued, `r` warps ended. -/
structure WorkerMove.Costs (env : DriverEnv) (s t : DriverState) (phase phase' : WorkerPhase)
    (c i r : Nat) : Prop where
  steps : t.steps = s.steps + BitVec.ofNat 64 c
  pending : c + phase'.pending = phase.pending + i
  counted : c ≤ phase.pending
  admitted : i + phase'.admitted ≤ phase.admitted ∨ phase.pending = 0 ∧ i = 0
    ∧ ∃ cta, phase = .looping cta ∧ phase' = .stopTest cta
  live : r + phase'.liveWarps env ≤ phase.liveWarps env
  turns : phase.turns ≤ i + r

/-- A move that neither counts nor issues nor ends a warp. -/
theorem WorkerMove.Costs.idle (hsteps : t.steps = s.steps)
    (hpending : phase'.pending = phase.pending) (hadmitted : phase'.admitted ≤ phase.admitted)
    (hlive : phase'.liveWarps env ≤ phase.liveWarps env) (hturns : phase.turns = 0) :
    WorkerMove.Costs env s t phase phase' 0 0 0 where
  steps := by rw [hsteps, BitVec.add_zero]
  pending := by omega
  counted := Nat.zero_le _
  admitted := .inl (by omega)
  live := by omega
  turns := by omega

theorem WorkerMove.costs (h : WorkerMove env smId s phase e phase' t) (hgood : phase.Good env) :
    ∃ c i r, WorkerMove.Costs env s t phase phase' c i r := by
  have hsame : s.steps = s.steps + BitVec.ofNat 64 0 := by
    rw [BitVec.add_zero]
  have hempty : ∀ {phase : WorkerPhase}, phase.item? = none → phase.liveWarps env ≤ 0 :=
    fun hitem => Nat.le_of_eq (WorkerPhase.liveWarps_of_none hitem)
  cases h with
  | @start item warps reconvPc cta hwarps hanalysis hcta =>
      have hstarted : cta.Good env := by
        rw [hcta]
        exact .start hwarps
      exact ⟨0, 0, 0, .idle rfl rfl le_rfl
        (List.countP_le_length.trans (Nat.le_of_eq hstarted.length)) rfl⟩
  | loopGo =>
    exact ⟨0, 0, 0, hsame, rfl, le_rfl, .inr ⟨rfl, rfl, _, rfl, rfl⟩, by simp; rfl, le_rfl⟩
  | @skip cta cta' w hpick hdone =>
      obtain rfl : (cta.pickNext env.plan.warpCount).2 = cta' := congrArg Prod.snd hpick
      exact ⟨0, 0, 0, .idle rfl rfl (Nat.zero_le _) le_rfl rfl⟩
  | @pick cta cta' w hpick =>
      obtain rfl : (cta.pickNext env.plan.warpCount).2 = cta' := congrArg Prod.snd hpick
      exact ⟨0, 0, 0, .idle rfl rfl le_rfl le_rfl rfl⟩
  | @fault cta w mem d =>
      obtain ⟨hlt, hlive⟩ := hgood.live _ _ rfl
      obtain ⟨warp, hwarp, hdone⟩ := (hgood.run _ rfl).isWarpDone_eq hlt
      exact ⟨0, 0, 1, hsame, rfl, le_rfl, .inl (Nat.zero_le _),
        CtaRun.liveWarps_pos hwarp (hdone.symm.trans hlive), le_rfl⟩
  | @retire cta w warp warp' mem hwarp hstep =>
      obtain ⟨-, hlive⟩ := hgood.live _ _ rfl
      rw [CtaRun.isWarpDone, hwarp] at hlive
      have hcount := CtaRun.liveWarps_setWarp warp' hwarp hlive
      rw [done_of_retired hstep] at hcount
      refine ⟨0, 0, 1, hsame, rfl, le_rfl, .inl (Nat.zero_le _), ?_, le_rfl⟩
      rw [WorkerPhase.liveWarps_of_cta rfl, WorkerPhase.liveWarps_of_cta rfl, Nat.add_comm]
      exact Nat.le_of_eq hcount
  | @issue cta w warp warp' mem issue hwarp hstep =>
      obtain ⟨-, hlive⟩ := hgood.live _ _ rfl
      rw [CtaRun.isWarpDone, hwarp] at hlive
      have hcount := CtaRun.liveWarps_setWarp warp' hwarp hlive
      have hbit := Bool.toNat_le (!warp'.done)
      refine ⟨0, 1, 0, hsame, rfl, le_rfl, .inl le_rfl, ?_, le_rfl⟩
      rw [WorkerPhase.liveWarps_of_cta rfl, WorkerPhase.liveWarps_of_cta rfl]
      omega
  | count => exact ⟨1, 0, 0, rfl, rfl, le_rfl, .inl le_rfl, by simp; rfl, le_rfl⟩
  | stopUnseen => exact ⟨0, 0, 0, .idle rfl rfl le_rfl le_rfl rfl⟩
  | retiredGo => exact ⟨0, 0, 0, .idle rfl rfl le_rfl le_rfl rfl⟩
  | _ => exact ⟨0, 0, 0, .idle rfl rfl (Nat.zero_le _) ((hempty rfl).trans (Nat.zero_le _)) rfl⟩

/-- A worker enters a turn of its loop below the limit only. -/
theorem limit_unreached {cta cta' : CtaRun} (hstep : workerStep env smId s = some (e, t))
    (hphase : s.worker smId = .looping cta) (hgo : t.worker smId = .stopTest cta') :
    s.steps.toNat < env.cfg.maxSteps := by
  have hlimit : s.limitReached env = false := by
    unfold workerStep at hstep
    rw [hphase] at hstep
    dsimp only at hstep
    split at hstep
    · cases hstep
      rw [DriverState.moveTo_self] at hgo
      cases hgo
    next hlimit => exact Bool.eq_false_of_not_eq_true hlimit
  exact Nat.lt_of_not_le (of_decide_eq_false hlimit)

/-! ### The account of a run -/

/-- What a run has spent, and what the workers may still spend. -/
structure Account (env : DriverEnv) (mem : MemState) (es : List DriverEvent) (s : DriverState) :
    Prop where
  admitting : Admitting env s
  good : ∀ smId, (s.worker smId).Good env
  run : Run (CtaStep env.policy env.plan.smCount) {} (ctaEvents env es) s.cta
  submits : submitted (es.filterMap DriverEvent.sched?) = []
  counted : s.steps.toNat
      + ∑ smId ∈ env.workers, ((s.worker smId).pending + (s.worker smId).admitted) + 1
    ≤ env.cfg.maxSteps + env.plan.smCount
  spent : ∃ retired,
    retired + ∑ smId ∈ env.workers, (s.worker smId).liveWarps env
        ≤ env.plan.warpCount * (acquired (ctaEvents env es)).length
      ∧ es.length + env.potential s ≤ env.potential (env.start mem)
        + 5 * (s.steps.toNat + ∑ smId ∈ env.workers, (s.worker smId).pending + retired)
        + 12 * (acquired (ctaEvents env es)).length

theorem card_workers_le (env : DriverEnv) : env.workers.card ≤ env.plan.smCount := by
  calc env.workers.card ≤ (Finset.range env.plan.smCount).card := Finset.card_image_le
    _ = env.plan.smCount := Finset.card_range _

/-- A sum over the workers that are all at the head of their loops, or have ended. -/
theorem sum_start {f : WorkerPhase → Nat} (htop : f .top = 0) (hended : f .ended = 0) :
    ∑ smId ∈ env.workers, f ((env.start mem).worker smId) = 0 := by
  apply Finset.sum_eq_zero
  intro smId _
  unfold DriverEnv.start
  dsimp only
  split
  · exact htop
  · exact hended

theorem Account.start (hcount : 1 ≤ env.plan.smCount) : Account env mem [] (env.start mem) := by
  have hinv : DriverInv env [] (env.start mem) := .start mem
  refine ⟨.start mem, hinv.good, hinv.run, rfl, ?_, 0, ?_, ?_⟩
  · rw [sum_start (f := fun phase => phase.pending + phase.admitted) rfl rfl]
    have hzero : (env.start mem).steps.toNat = 0 := rfl
    omega
  · rw [sum_start (f := WorkerPhase.liveWarps env) rfl rfl]
    exact Nat.zero_le _
  · rw [List.length_nil, Nat.zero_add]
    exact Nat.le_add_right_of_le (Nat.le_add_right _ _)

/-- Where one worker is busy, the others are busy once each at most. -/
theorem busy_others (hlt : smId.toNat < env.plan.smCount) :
    ∑ j ∈ env.workers, ((s.worker j).pending + (s.worker j).admitted) + 1
      ≤ env.plan.smCount + ((s.worker smId).pending + (s.worker smId).admitted) := by
  have hmem := mem_workers hlt
  have hrest : ∑ j ∈ env.workers.erase smId, ((s.worker j).pending + (s.worker j).admitted)
      ≤ (env.workers.erase smId).card := by
    apply (Finset.sum_le_card_nsmul _ _ 1 fun j _ => (s.worker j).busy_le).trans
    simp
  have hcard := Finset.card_erase_of_mem hmem
  have hpos := Finset.card_pos.mpr ⟨smId, hmem⟩
  have hle := card_workers_le env
  rw [← Finset.add_sum_erase _ _ hmem]
  omega

theorem Account.work (h : Account env mem es s)
    (hfits : env.cfg.maxSteps + env.plan.smCount ≤ 2 ^ 64)
    (hstep : workerStep env smId s = some (e, t)) : Account env mem (es ++ [e]) t := by
  obtain ⟨phase', hmove⟩ := workerStep_moves hstep
  have hlt := h.admitting.own smId hmove.not_ended
  obtain ⟨c, i, r, hcosts⟩ := hmove.costs (h.good smId)
  obtain ⟨hranks, hrank⟩ := h.admitting.work_rank (h.good smId) hmove
  have hpotential := potential_step hlt hranks hrank
  have hacquired : acquired (ctaEvents env (es ++ [e])) = acquired (ctaEvents env es) := by
    rw [acquired_ctaEvents_concat]
    rcases workerMove_sched hmove with ⟨hnone, -⟩ | ⟨hstop, -⟩
    · rw [hnone]
      exact List.append_nil _
    · rw [hstop]
      exact List.append_nil _
  have hsum : ∀ f : WorkerPhase → Nat, (∑ j ∈ env.workers, f (t.worker j)) + f (s.worker smId)
      = (∑ j ∈ env.workers, f (s.worker j)) + f phase' := by
    intro f
    have hself := hmove.self
    rw [← hself]
    exact sum_workers hlt fun j hne => congrArg f (hmove.others hne)
  have hpending := hsum WorkerPhase.pending
  have hbusy := hsum fun phase => phase.pending + phase.admitted
  have hlive := hsum (WorkerPhase.liveWarps env)
  have hothers := busy_others (s := s) hlt
  have hone := (s.worker smId).busy_le
  have hcounted := h.counted
  have hcostCounted := hcosts.counted
  have hcostPending := hcosts.pending
  have hcostLive := hcosts.live
  have hcostTurns := hcosts.turns
  have hmine : (s.worker smId).pending
      ≤ ∑ j ∈ env.workers, ((s.worker j).pending + (s.worker j).admitted) :=
    (Nat.le_add_right _ _).trans
      (Finset.single_le_sum (f := fun j => (s.worker j).pending + (s.worker j).admitted)
        (fun _ _ => Nat.zero_le _) (mem_workers hlt))
  have hsteps : t.steps.toNat = s.steps.toNat + c := by
    rw [hcosts.steps, BitVec.toNat_add, BitVec.toNat_ofNat, Nat.add_mod_mod]
    exact Nat.mod_eq_of_lt (by omega)
  refine ⟨h.admitting.work hmove, fun j =>
    ?_, driverStep_sched h.run (.work smId hstep), ?_, ?_, ?_⟩
  · by_cases heq : j = smId
    · rw [heq, hmove.self]
      exact hmove.good (h.good smId)
    · rw [hmove.others heq]
      exact h.good j
  · rw [List.filterMap_append, filterMap_sched, submitted_append, h.submits, List.nil_append]
    exact driverStep_submits (.work smId hstep)
  · rcases hcosts.admitted with hadmitted | ⟨hnone, hissued, cta, hfrom, hto⟩
    · omega
    · -- the only way in is through the test of the limit
      subst hto
      have hbelow := limit_unreached hstep hfrom hmove.self
      have hpaused :
          (WorkerPhase.stopTest cta).pending + (WorkerPhase.stopTest cta).admitted = 1 := rfl
      omega
  · obtain ⟨retired, hretired, hspent⟩ := h.spent
    refine ⟨retired + r, ?_, ?_⟩
    · rw [hacquired]
      omega
    · rw [hacquired, List.length_append, List.length_singleton]
      omega

theorem Account.acquire (h : Account env mem es s) {e : CtaEvent} {cta : CtaSystem}
    (hphase : s.worker smId = .acquiring) (hworker : e.worker? = some smId)
    (hstep : CtaStep env.policy env.plan.smCount s.cta e cta) :
    Account env mem (es ++ [.sched e]) ({ s with cta := cta }.moveTo smId e.phaseAfter) := by
  have hlt := h.admitting.own smId (by rw [hphase]; simp)
  obtain ⟨hranks, hrank⟩ := h.admitting.acquire_rank hphase hworker hstep
  have hpotential := potential_step hlt hranks hrank
  have hacquired : acquired (ctaEvents env (es ++ [.sched e]))
      = acquired (ctaEvents env es) ++ acquired [e] := acquired_ctaEvents_concat es (.sched e)
  have hlength : (acquired (ctaEvents env (es ++ [.sched e]))).length
      = (acquired (ctaEvents env es)).length + (acquired [e]).length := by
    rw [hacquired, List.length_append]
  have hsum : ∀ f : WorkerPhase → Nat,
      (∑ j ∈ env.workers, f (({ s with cta := cta }.moveTo smId e.phaseAfter).worker j))
        + f .acquiring
        = (∑ j ∈ env.workers, f (s.worker j)) + f e.phaseAfter := by
    intro f
    have hself := DriverState.moveTo_self { s with cta := cta } smId e.phaseAfter
    rw [← hphase]
    nth_rewrite 2 [← hself]
    exact sum_workers hlt fun j hne => congrArg f (DriverState.moveTo_others _ _ hne)
  have hidle : e.phaseAfter.pending = 0 ∧ e.phaseAfter.admitted = 0
      ∧ e.phaseAfter.liveWarps env = env.plan.warpCount * (acquired [e]).length := by
    rcases CtaEvent.phaseAfter_cases hworker
      with ⟨item, hret, hafter⟩ | ⟨hret, hafter⟩ | ⟨hnone, hafter⟩
    · rw [hafter, hret]
      exact ⟨rfl, rfl, (Nat.mul_one _).symm⟩
    · rw [hafter, hret]
      exact ⟨rfl, rfl, rfl⟩
    · rw [hafter, hnone]
      exact ⟨rfl, rfl, rfl⟩
  obtain ⟨hpendingAfter, hadmittedAfter, hliveAfter⟩ := hidle
  have hpending := hsum WorkerPhase.pending
  have hbusy := hsum fun phase => phase.pending + phase.admitted
  have hlive := hsum (WorkerPhase.liveWarps env)
  have hbefore : WorkerPhase.acquiring.pending = 0 ∧ WorkerPhase.acquiring.admitted = 0
      ∧ WorkerPhase.acquiring.liveWarps env = 0 := ⟨rfl, rfl, rfl⟩
  obtain ⟨hpendingBefore, hadmittedBefore, hliveBefore⟩ := hbefore
  have hinv : DriverStep env s (.sched e) ({ s with cta := cta }.moveTo smId e.phaseAfter) :=
    .acquire smId hphase hworker hstep
  have hsteps : ({ s with cta := cta }.moveTo smId e.phaseAfter).steps.toNat = s.steps.toNat := rfl
  refine ⟨h.admitting.acquire hphase hworker hstep, fun j =>
    ?_, driverStep_sched h.run hinv, ?_, ?_, ?_⟩
  · by_cases heq : j = smId
    · rw [heq, DriverState.moveTo_self]
      apply WorkerPhase.Good.of_none
      rcases CtaEvent.phaseAfter_cases hworker with ⟨item, -, hafter⟩ | ⟨-, hafter⟩ | ⟨-, hafter⟩
      · rw [hafter]
        rfl
      · rw [hafter]
        rfl
      · rw [hafter]
        rfl
    · rw [DriverState.moveTo_others _ _ heq]
      exact h.good j
  · rw [List.filterMap_append, filterMap_sched, submitted_append, h.submits, List.nil_append]
    exact driverStep_submits hinv
  · have hcounted := h.counted
    omega
  · obtain ⟨retired, hretired, hspent⟩ := h.spent
    refine ⟨retired, ?_, ?_⟩
    · rw [hlength, Nat.mul_add]
      omega
    · rw [List.length_append, List.length_singleton]
      omega

theorem account_run (hcount : 1 ≤ env.plan.smCount)
    (hfits : env.cfg.maxSteps + env.plan.smCount ≤ 2 ^ 64)
    (hrun : Run (DriverStep env) (env.start mem) es s) : Account env mem es s := by
  refine hrun.invariant (.start hcount) fun es s e t h hstep => ?_
  cases hstep with
  | work smId hstep => exact h.work hfits hstep
  | acquire smId hphase hworker hstep => exact h.acquire hphase hworker hstep

/-! ### The bound -/

/-- The most steps the workers of a launch take together. -/
def DriverEnv.stepBound (env : DriverEnv) : Nat :=
  5 * env.plan.smCount + 5 * (env.cfg.maxSteps + env.plan.smCount)
    + (5 * env.plan.warpCount + 12) * (ctaItems env.launch.gridDim).length

theorem potential_start_le (env : DriverEnv) (mem : MemState) :
    env.potential (env.start mem) ≤ 5 * env.plan.smCount := by
  have hrank : ∀ smId, (env.start mem).rank smId ≤ 5 := by
    intro smId
    unfold DriverState.rank DriverEnv.start
    dsimp only
    split
    · exact le_rfl
    · exact Nat.zero_le 5
  calc env.potential (env.start mem) ≤ env.workers.card * 5 :=
        Finset.sum_le_card_nsmul _ _ 5 fun smId _ => hrank smId
    _ ≤ 5 * env.plan.smCount := by
        rw [Nat.mul_comm]
        exact Nat.mul_le_mul_left 5 (card_workers_le env)

theorem Account.length_le (h : Account env mem es s) : es.length ≤ env.stepBound := by
  obtain ⟨retired, hretired, hspent⟩ := h.spent
  have hcounted := h.counted
  have hitems : (acquired (ctaEvents env es)).length ≤ (ctaItems env.launch.gridDim).length := by
    have hsub := (acquiredItems_subperm h.run h.submits).length_le
    rwa [acquiredItems, List.length_map] at hsub
  have hstart := potential_start_le env mem
  have hsum : ∑ j ∈ env.workers, (s.worker j).pending
      ≤ ∑ j ∈ env.workers, ((s.worker j).pending + (s.worker j).admitted) :=
    Finset.sum_le_sum fun j _ => Nat.le_add_right _ _
  have hretiredLe : retired ≤ env.plan.warpCount * (ctaItems env.launch.gridDim).length :=
    (Nat.le_of_add_right_le hretired).trans (Nat.mul_le_mul_left _ hitems)
  unfold DriverEnv.stepBound
  rw [Nat.add_mul, Nat.mul_assoc]
  omega

/-- A worker is at a step of a warp that throws, or that uses a subscript past the end of a
vector. -/
def DriverState.Threw (env : DriverEnv) (s : DriverState) : Prop :=
  ∃ smId cta w warp, s.worker smId = .stepping cta w ∧ cta.warps[w.toNat]? = some warp
    ∧ ∃ f, (∀ d, f ≠ .diag d) ∧ (warpStep (env.warpContext cta.reconvPc) warp s.mem).1 = .error f

/-- Outside of `acquire` a worker goes on, unless it throws or has ended. -/
theorem workerStep_or_threw (hwarps : env.plan.warpCount < 2 ^ 32)
    (hgood : (s.worker smId).Good env)
    (hlive : s.worker smId ≠ .ended) (hacquiring : s.worker smId ≠ .acquiring) :
    s.Threw env ∨ ∃ e t, workerStep env smId s = some (e, t) := by
  cases hphase : s.worker smId with
  | acquiring => exact absurd hphase hacquiring
  | ended => exact absurd hphase hlive
  | received item =>
      have hinit : env.initWarps item = _ := initWarps_ok item hwarps
      unfold workerStep
      simp only [hphase, hinit]
      cases analyzeControlFlow env.kernel env.registry env.plan.warpSize with
      | error d => exact .inr ⟨_, _, rfl⟩
      | ok reconvPc => exact .inr ⟨_, _, rfl⟩
  | picking cta =>
      unfold workerStep
      simp only [hphase]
      cases cta.pickNext env.plan.warpCount with
      | mk pick cta' =>
          cases pick with
          | none => exact .inr ⟨_, _, rfl⟩
          | some w => exact .inr ⟨_, _, rfl⟩
  | stepping cta w =>
      rw [hphase] at hgood
      obtain ⟨hlt, -⟩ := hgood.live cta w rfl
      obtain ⟨warp, hwarp, -⟩ := (hgood.run cta rfl).isWarpDone_eq hlt
      cases hstep : warpStep (env.warpContext cta.reconvPc) warp s.mem with
      | mk result left =>
          obtain ⟨warp', mem'⟩ := left
          cases result with
          | error f =>
              cases f with
              | host =>
                  exact .inl ⟨smId, cta, w, warp, hphase, hwarp, _, fun d hd => (by cases hd),
                    congrArg Prod.fst hstep⟩
              | undefined =>
                  exact .inl ⟨smId, cta, w, warp, hphase, hwarp, _, fun d hd => (by cases hd),
                    congrArg Prod.fst hstep⟩
              | diag d =>
                  unfold workerStep
                  simp only [hphase, hwarp, hstep]
                  exact .inr ⟨_, _, rfl⟩
          | ok outcome =>
              unfold workerStep
              simp only [hphase, hwarp, hstep]
              cases outcome with
              | retired => exact .inr ⟨_, _, rfl⟩
              | issued issue => exact .inr ⟨_, _, rfl⟩
  | top =>
      unfold workerStep
      simp only [hphase]
      split
      · exact .inr ⟨_, _, rfl⟩
      · exact .inr ⟨_, _, rfl⟩
  | looping cta =>
      unfold workerStep
      simp only [hphase]
      split
      · exact .inr ⟨_, _, rfl⟩
      · exact .inr ⟨_, _, rfl⟩
  | stopTest cta =>
      unfold workerStep
      simp only [hphase]
      split
      · exact .inr ⟨_, _, rfl⟩
      · exact .inr ⟨_, _, rfl⟩
  | _ =>
      unfold workerStep
      simp only [hphase]
      exact .inr ⟨_, _, rfl⟩

theorem Account.goesOn (h : Account env mem es s) (hwarps : env.plan.warpCount < 2 ^ 32) :
    s.Ended ∨ s.Threw env ∨ ∃ e t, DriverStep env s e t := by
  by_cases hended : s.Ended
  · exact .inl hended
  · apply Or.inr
    unfold DriverState.Ended at hended
    push Not at hended
    obtain ⟨smId, hlive⟩ := hended
    by_cases hacquiring : s.worker smId = .acquiring
    · exact .inr (h.admitting.acquire_steps hacquiring)
    · apply (workerStep_or_threw hwarps (h.good smId) hlive hacquiring).imp_right
      rintro ⟨e, t, hstep⟩
      exact ⟨e, t, .work smId hstep⟩

/-- **Every launch ends.** Whatever the kernel does and in whatever order the workers step, they
take no more than `stepBound` steps together and count fewer than the limit and their number; and as
long as some worker has not ended, one of them can step or has thrown. -/
theorem launch_ends {env : DriverEnv} {mem : MemState} {es : List DriverEvent} {s : DriverState}
    (hplan : checkLaunch env.cfg env.kernel env.launch = .ok env.plan)
    (hwarps : env.plan.warpCount < 2 ^ 32)
    (hfits : env.cfg.maxSteps + env.plan.smCount ≤ 2 ^ 64)
    (hrun : env.DefinedRun mem es s) :
    es.length ≤ env.stepBound ∧ s.result.steps.toNat < env.cfg.maxSteps + env.plan.smCount
      ∧ (s.Ended ∨ s.Threw env ∨ ∃ e t, DriverStep env s e t) := by
  have haccount := account_run (checkLaunch_smCount hplan) hfits hrun.run
  have hcounted : s.result.steps.toNat + _ + 1 ≤ _ := haccount.counted
  exact ⟨haccount.length_le, by omega, haccount.goesOn hwarps⟩

theorem forkEnv_raceFree (mem : MemState) : forkEnv.RaceFree mem :=
  raceFree_of_leavesLocal (by decide) (by decide)

theorem launch_ends_fork : forkTurns.2.Ended ∧ forkTurns.2.result.steps = 10
    ∧ forkTurns.1.length ≤ forkEnv.stepBound ∧ forkTurns.2.result.steps.toNat < 102 := by
  have hrun : forkEnv.DefinedRun {} forkTurns.1 forkTurns.2 :=
    ⟨turns_run forkEnv _ _, forkEnv_raceFree {}⟩
  have hends := launch_ends (by decide) (by decide) (by decide) hrun
  exact ⟨forkEnv_ends, by decide +kernel, hends.1, hends.2.1⟩

end ProtoGpu

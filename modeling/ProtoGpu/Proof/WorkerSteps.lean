import ProtoGpu.Simt.Driver
import ProtoGpu.Proof.WarpScheduling
import ProtoGpu.Proof.MaskPartition
import ProtoGpu.Proof.ThreadCoverage

/-!
# What a worker can do next

The worker's step function taken apart once, and the CTA it works on: every warp of it is in a run
of its own, and the warp scheduler has passed over none.
-/

namespace ProtoGpu

variable {env : DriverEnv} {smId : SmId} {s t : DriverState} {e : DriverEvent}

/-- The cases of `workerStep`, with the phase each starts from and the phase it goes to. -/
inductive WorkerMove (env : DriverEnv) (smId : SmId) (s : DriverState) :
    WorkerPhase → DriverEvent → WorkerPhase → DriverState → Prop
  | topLimit (hlimit : s.limitReached env = true) :
      WorkerMove env smId s .top (.limit smId none) .leaving (s.moveTo smId .leaving)
  | topGo : WorkerMove env smId s .top (.internal smId) .acquiring (s.moveTo smId .acquiring)
  | leave :
      WorkerMove env smId s .leaving (.sched .requestStop) .ended
        (s.requestStop.moveTo smId .ended)
  | analysisFault {item : CtaWorkItem} {d : Diagnostic} :
      WorkerMove env smId s (.received item) (.internal smId) .stopping
        { s.moveTo smId .stopping with diag := some d }
  | start {item : CtaWorkItem} {warps : List WarpState} {reconvPc : List (Option Int)}
      {cta : CtaRun} (hwarps : env.initWarps item = some warps)
      (hanalysis : analyzeControlFlow env.kernel env.registry env.plan.warpSize = .ok reconvPc)
      (hcta : cta =
        { item := item
          reconvPc := reconvPc
          warps := warps
          sched := WarpScheduler.onCtaStart env.plan.warpSched }) :
      WorkerMove env smId s (.received item) (.internal smId) (.looping cta)
        (s.moveTo smId (.looping cta))
  | loopLimit {cta : CtaRun} (hlimit : s.limitReached env = true) :
      WorkerMove env smId s (.looping cta) (.limit smId (some cta)) .stopping
        (s.moveTo smId .stopping)
  | loopGo {cta : CtaRun} :
      WorkerMove env smId s (.looping cta) (.internal smId) (.stopTest cta)
        (s.moveTo smId (.stopTest cta))
  | stopSeen {cta : CtaRun} (hstop : s.cta.sched.stop = true) :
      WorkerMove env smId s (.stopTest cta) (.left smId cta) .returned (s.moveTo smId .returned)
  | stopUnseen {cta : CtaRun} :
      WorkerMove env smId s (.stopTest cta) (.internal smId) (.picking cta)
        (s.moveTo smId (.picking cta))
  | noWarp {cta cta' : CtaRun} (hpick : cta.pickNext env.plan.warpCount = (none, cta')) :
      WorkerMove env smId s (.picking cta) (.left smId cta') .returned (s.moveTo smId .returned)
  | skip {cta cta' : CtaRun} {w : BitVec 32}
      (hpick : cta.pickNext env.plan.warpCount = (some w, cta'))
        (hdone : cta'.isWarpDone w = true) :
      WorkerMove env smId s (.picking cta) (.internal smId) (.looping cta')
        (s.moveTo smId (.looping cta'))
  | pick {cta cta' : CtaRun} {w : BitVec 32}
      (hpick : cta.pickNext env.plan.warpCount = (some w, cta')) :
      WorkerMove env smId s (.picking cta) (.internal smId) (.stepping cta' w)
        (s.moveTo smId (.stepping cta' w))
  | fault {cta : CtaRun} {w : BitVec 32} {mem : MemState} {d : Diagnostic} :
      WorkerMove env smId s (.stepping cta w) (.internal smId) .stopping
        { s.moveTo smId .stopping with mem := mem, diag := some d }
  | retire {cta : CtaRun} {w : BitVec 32} {warp warp' : WarpState} {mem : MemState}
      (hwarp : cta.warps[w.toNat]? = some warp)
      (hstep : warpStep (env.warpContext cta.reconvPc) warp s.mem = (.ok .retired, warp', mem)) :
      WorkerMove env smId s (.stepping cta w) (.internal smId) (.retired (cta.setWarp w warp'))
        { s.moveTo smId (.retired (cta.setWarp w warp')) with mem := mem }
  | issue {cta : CtaRun} {w : BitVec 32} {warp warp' : WarpState} {mem : MemState} {issue : Issue}
      (hwarp : cta.warps[w.toNat]? = some warp)
      (hstep : warpStep (env.warpContext cta.reconvPc) warp s.mem
        = (.ok (.issued issue), warp', mem)) :
      WorkerMove env smId s (.stepping cta w) (.internal smId) (.counting (cta.setWarp w warp'))
        { s.moveTo smId (.counting (cta.setWarp w warp')) with mem := mem }
  | retiredFault {cta : CtaRun} (hdiag : s.diag.isSome = true) :
      WorkerMove env smId s (.retired cta) (.internal smId) .stopping (s.moveTo smId .stopping)
  | retiredGo {cta : CtaRun} :
      WorkerMove env smId s (.retired cta) (.internal smId) (.looping cta)
        (s.moveTo smId (.looping cta))
  | count {cta : CtaRun} :
      WorkerMove env smId s (.counting cta) (.internal smId) (.looping cta)
        { s.moveTo smId (.looping cta) with steps := s.steps + 1 }
  | stop :
      WorkerMove env smId s .stopping (.sched .requestStop) .returned
        (s.requestStop.moveTo smId .returned)
  | ends (hends : s.cta.sched.stop = true ∨ s.diag.isSome = true) :
      WorkerMove env smId s .returned (.internal smId) .ended (s.moveTo smId .ended)
  | again : WorkerMove env smId s .returned (.internal smId) .top (s.moveTo smId .top)

theorem WorkerMove.worker_eq {phase phase' : WorkerPhase}
    (h : WorkerMove env smId s phase e phase' t) :
    t.worker = Function.update s.worker smId phase' := by
  cases h with
  | _ => rfl

theorem workerStep_moves (h : workerStep env smId s = some (e, t)) :
    ∃ phase', WorkerMove env smId s (s.worker smId) e phase' t := by
  rw [workerStep] at h
  cases hphase : s.worker smId with
  | top =>
      simp only [hphase] at h
      split at h
      next hlimit =>
        cases h
        exact ⟨_, .topLimit (Bool.and_eq_true_iff.mp hlimit).2⟩
      · cases h
        exact ⟨_, .topGo⟩
  | leaving =>
      simp only [hphase] at h
      cases h
      exact ⟨_, .leave⟩
  | acquiring => simp only [hphase, reduceCtorEq] at h
  | received item =>
      simp only [hphase] at h
      split at h
      · cases h
      next warps hwarps =>
        split at h
        · cases h
          exact ⟨_, .analysisFault⟩
        next reconvPc hanalysis =>
          cases h
          exact ⟨_, .start hwarps hanalysis rfl⟩
  | looping cta =>
      simp only [hphase] at h
      split at h
      next hlimit =>
        cases h
        exact ⟨_, .loopLimit hlimit⟩
      · cases h
        exact ⟨_, .loopGo⟩
  | stopTest cta =>
      simp only [hphase] at h
      split at h
      next hstop =>
        cases h
        exact ⟨_, .stopSeen hstop⟩
      · cases h
        exact ⟨_, .stopUnseen⟩
  | picking cta =>
      simp only [hphase] at h
      split at h
      next cta' hpick =>
        cases h
        exact ⟨_, .noWarp hpick⟩
      next w cta' hpick =>
        cases h
        split
        next hdone => exact ⟨_, .skip hpick hdone⟩
        next hlive => exact ⟨_, .pick hpick⟩
  | stepping cta w =>
      simp only [hphase] at h
      split at h
      · cases h
      next warp hwarp =>
        split at h
        · cases h
        · cases h
        · cases h
          exact ⟨_, .fault⟩
        next warp' mem hstep =>
          cases h
          exact ⟨_, .retire hwarp hstep⟩
        next issue warp' mem hstep =>
          cases h
          exact ⟨_, .issue hwarp hstep⟩
  | retired cta =>
      simp only [hphase] at h
      split at h
      next hdiag =>
        cases h
        exact ⟨_, .retiredFault hdiag⟩
      · cases h
        exact ⟨_, .retiredGo⟩
  | counting cta =>
      simp only [hphase] at h
      cases h
      exact ⟨_, .count⟩
  | stopping =>
      simp only [hphase] at h
      cases h
      exact ⟨_, .stop⟩
  | returned =>
      simp only [hphase] at h
      cases h
      by_cases hends : (if env.parallel = true then s.cta.sched.stop else s.diag.isSome) = true
      · rw [if_pos hends]
        split at hends
        · exact ⟨_, .ends (.inl hends)⟩
        · exact ⟨_, .ends (.inr hends)⟩
      · rw [if_neg hends]
        exact ⟨_, .again⟩
  | ended => simp only [hphase, reduceCtorEq] at h

/-- Of the steps of a worker, one of a warp alone touches memory. -/
theorem workerStep_mem (h : workerStep env smId s = some (e, t)) :
    t.mem = s.mem ∨ ∃ cta w warp, s.worker smId = .stepping cta w ∧ cta.warps[w.toNat]? = some warp
      ∧ t.mem = (warpStep (env.warpContext cta.reconvPc) warp s.mem).2.2 := by
  cases hphase : s.worker smId with
  | stepping cta w =>
      rw [workerStep] at h
      simp only [hphase] at h
      split at h
      · cases h
      next warp hwarp =>
        refine .inr ⟨cta, w, warp, rfl, hwarp, ?_⟩
        split at h
        · cases h
        · cases h
        all_goals
          next hstep =>
            cases h
            rw [hstep]
  | _ =>
      obtain ⟨phase', hmove⟩ := workerStep_moves h
      rw [hphase] at hmove
      left
      cases hmove <;> rfl

/-! ### The CTA of a worker -/

/-- The CTA a worker is in the step loop of. -/
def WorkerPhase.cta? : WorkerPhase → Option CtaRun
  | .looping cta | .stopTest cta | .picking cta | .stepping cta _ | .retired cta
  | .counting cta => some cta
  | _ => none

/-- A CTA in its step loop. -/
structure CtaRun.Good (env : DriverEnv) (cta : CtaRun) : Prop where
  count : env.plan.warpCount < 2 ^ 32
  length : cta.warps.length = env.plan.warpCount
  runs : ∀ (w : BitVec 32) warp, cta.warps[w.toNat]? = some warp →
    ∃ trace, WarpRun (env.warpContext cta.reconvPc) (env.initWarp cta.item w) trace warp
  kind : cta.sched.kind = env.plan.warpSched
  sound : cta.sched.Sound (BitVec.ofNat 32 env.plan.warpCount) cta.isWarpDone

/-- Every warp of the CTA has returned the lanes it began with. -/
def CtaRun.Executed (env : DriverEnv) (cta : CtaRun) : Prop :=
  ∀ w : BitVec 32, w.toNat < env.plan.warpCount → ∃ warp, cta.warps[w.toNat]? = some warp
    ∧ warp.exited = (env.initWarp cta.item w).active

/-- What the loop that initialises the warps leaves, when it ends. -/
theorem initWarps_eq {item : CtaWorkItem} {warps : List WarpState}
    (hwarps : env.initWarps item = some warps) :
    env.plan.warpCount < 2 ^ 32
      ∧ warps = (List.range env.plan.warpCount).map fun w =>
          env.initWarp item (BitVec.ofNat 32 w) := by
  have hcount : env.plan.warpCount < 2 ^ 32 := by
    by_contra hge
    have hnone : env.initWarps item = none := initLoop_diverges (Nat.le_of_not_lt hge) _ _ _
    rw [hnone] at hwarps
    cases hwarps
  exact ⟨hcount, Option.some.inj (hwarps.symm.trans (initWarps_ok item hcount))⟩

namespace CtaRun.Good

variable {cta : CtaRun} {w : BitVec 32}

theorem warpCount_toNat (hgood : cta.Good env) :
    (BitVec.ofNat 32 env.plan.warpCount).toNat = env.plan.warpCount := by
  rw [BitVec.toNat_ofNat, Nat.mod_eq_of_lt hgood.count]

theorem start {item : CtaWorkItem} {warps : List WarpState} {reconvPc : List (Option Int)}
    (hwarps : env.initWarps item = some warps) :
    CtaRun.Good env
      { item := item
        reconvPc := reconvPc
        warps := warps
        sched := WarpScheduler.onCtaStart env.plan.warpSched } := by
  obtain ⟨hcount, rfl⟩ := initWarps_eq hwarps
  refine ⟨hcount, ?_, fun w warp hwarp => ?_, rfl, WarpScheduler.sound_onCtaStart _⟩
  · rw [List.length_map, List.length_range]
  · rw [List.getElem?_map, Option.map_eq_some_iff] at hwarp
    obtain ⟨n, hn, rfl⟩ := hwarp
    obtain ⟨hlt, rfl⟩ := List.getElem?_eq_some_iff.mp hn
    rw [List.getElem_range, BitVec.ofNat_toNat, BitVec.setWidth_eq]
    exact ⟨[], .start⟩

theorem isWarpDone_eq (hgood : cta.Good env) (hw : w.toNat < env.plan.warpCount) :
    ∃ warp, cta.warps[w.toNat]? = some warp ∧ cta.isWarpDone w = warp.done := by
  rw [← hgood.length] at hw
  refine ⟨cta.warps[w.toNat], List.getElem?_eq_getElem hw, ?_⟩
  rw [CtaRun.isWarpDone, List.getElem?_eq_getElem hw]

/-- The scheduler's pick of a live warp. -/
theorem pick (hgood : cta.Good env) {cta' : CtaRun}
    (hpick : cta.pickNext env.plan.warpCount = (some w, cta')) :
    cta'.Good env ∧ w.toNat < env.plan.warpCount ∧ cta'.isWarpDone w = false := by
  obtain rfl : (cta.pickNext env.plan.warpCount).2 = cta' := congrArg Prod.snd hpick
  have hfst : (cta.pickNext env.plan.warpCount).1 = some w := congrArg Prod.fst hpick
  obtain ⟨hlt, hlive, hsound⟩ := WarpScheduler.pickNext_some hgood.sound hfst
  rw [hgood.warpCount_toNat] at hlt
  exact ⟨⟨hgood.count, hgood.length, hgood.runs, hgood.kind, hsound⟩, hlt, hlive⟩

/-- A step of a live warp without a diagnostic. -/
theorem step (hgood : cta.Good env) (hw : w.toNat < env.plan.warpCount)
    (hlive : cta.isWarpDone w = false) {warp warp' : WarpState} {mem mem' : MemState}
    {outcome : StepOutcome} (hwarp : cta.warps[w.toNat]? = some warp)
    (hstep : warpStep (env.warpContext cta.reconvPc) warp mem = (.ok outcome, warp', mem')) :
    (cta.setWarp w warp').Good env := by
  have hdone : warp.done = false := by
    rw [CtaRun.isWarpDone, hwarp] at hlive
    exact hlive
  have hlength : w.toNat < cta.warps.length := by rwa [hgood.length]
  refine ⟨hgood.count, ?_, fun v other hother => ?_, hgood.kind, hgood.sound.mono fun v hv => ?_⟩
  · rw [CtaRun.setWarp, List.length_set, hgood.length]
  · rw [CtaRun.setWarp, List.getElem?_set] at hother
    split at hother
    next heq =>
      obtain rfl := Option.some.inj hother
      obtain rfl : w = v := BitVec.eq_of_toNat_eq heq
      obtain ⟨trace, hrun⟩ := hgood.runs w warp hwarp
      cases outcome with
      | retired => exact ⟨trace, hrun.retire hdone trivial hstep⟩
      | issued issue => exact ⟨issue :: trace, hrun.issue hdone trivial hstep⟩
    · exact hgood.runs v other hother
  · -- only the warp that stepped changed, and it was live
    have hne : w.toNat ≠ v.toNat := by
      intro heq
      obtain rfl : w = v := BitVec.eq_of_toNat_eq heq
      rw [hlive] at hv
      cases hv
    rw [CtaRun.isWarpDone] at hv ⊢
    rwa [CtaRun.setWarp, List.getElem?_set_ne hne]

/-- With every warp done, every lane has returned. -/
theorem executed (hgood : cta.Good env) (hchecked : env.plan.Checked env.launch)
    (hdone : ∀ w : BitVec 32, w.toNat < env.plan.warpCount → cta.isWarpDone w = true) :
    cta.Executed env := by
  intro w hw
  obtain ⟨warp, hwarp, hisDone⟩ := hgood.isWarpDone_eq hw
  refine ⟨warp, hwarp, ?_⟩
  obtain ⟨trace, hrun⟩ := hgood.runs w warp hwarp
  have hws : (env.warpContext cta.reconvPc).warpSize = env.plan.warpSize := rfl
  have hinv := initWarp_inv hchecked hw hws cta.item
  obtain ⟨hwarpInv, hreturned⟩ := warpRun_inv hchecked.warpSizeLe hinv rfl hrun
  have hwidth : warp.exited.width = (env.initWarp cta.item w).active.width :=
    hwarpInv.exitedFits.width
  exact LaneMask.ext_has hwidth (hreturned (hisDone.symm.trans (hdone w hw)))

theorem executed_of_finished (hgood : cta.Good env) (hchecked : env.plan.Checked env.launch)
    (hfinished : ∀ warp ∈ cta.warps, warp.done = true) : cta.Executed env := by
  refine hgood.executed hchecked fun w hw => ?_
  obtain ⟨warp, hwarp, hdone⟩ := hgood.isWarpDone_eq hw
  exact hdone.trans (hfinished warp (List.mem_of_getElem? hwarp))

/-- Without a warp to pick, every warp is done. -/
theorem finished_of_noWarp (hgood : cta.Good env)
    (hkind : env.plan.warpSched = .inOrderRunToCompletion ∨ env.plan.warpCount ≤ 2 ^ 31)
    {cta' : CtaRun} (hpick : cta.pickNext env.plan.warpCount = (none, cta')) :
    ∀ warp ∈ cta.warps, warp.done = true := by
  intro warp hwarp
  obtain ⟨n, hn, rfl⟩ := List.mem_iff_getElem.mp hwarp
  have hlt : n < env.plan.warpCount := hgood.length ▸ hn
  have hfits : (BitVec.ofNat 32 n).toNat = n := by
    rw [BitVec.toNat_ofNat, Nat.mod_eq_of_lt (hlt.trans hgood.count)]
  have hdone : cta.isWarpDone (BitVec.ofNat 32 n) = true := by
    refine WarpScheduler.pickNext_none hgood.sound (congrArg Prod.fst hpick) ?_ ?_
    · rw [hgood.kind, hgood.warpCount_toNat]
      exact hkind
    · rwa [hfits, hgood.warpCount_toNat]
  rw [CtaRun.isWarpDone, hfits, List.getElem?_eq_getElem hn] at hdone
  exact hdone

theorem executed_of_noWarp (hgood : cta.Good env) (hchecked : env.plan.Checked env.launch)
    (hkind : env.plan.warpSched = .inOrderRunToCompletion ∨ env.plan.warpCount ≤ 2 ^ 31)
    {cta' : CtaRun} (hpick : cta.pickNext env.plan.warpCount = (none, cta')) :
    cta'.Executed env := by
  obtain rfl : (cta.pickNext env.plan.warpCount).2 = cta' := congrArg Prod.snd hpick
  exact hgood.executed_of_finished hchecked (hgood.finished_of_noWarp hkind hpick)

end CtaRun.Good

/-! ### The phase of a worker -/

structure WorkerPhase.Good (env : DriverEnv) (phase : WorkerPhase) : Prop where
  run : ∀ cta, phase.cta? = some cta → cta.Good env
  live : ∀ cta w, phase = .stepping cta w →
    w.toNat < env.plan.warpCount ∧ cta.isWarpDone w = false

theorem WorkerPhase.Good.of_cta {phase : WorkerPhase} {cta : CtaRun} (hcta : phase.cta? = some cta)
    (hgood : cta.Good env) (hphase : ∀ cta w, phase ≠ .stepping cta w) : phase.Good env := by
  refine ⟨fun cta' hcta' => ?_, fun cta' w heq => absurd heq (hphase cta' w)⟩
  rw [hcta] at hcta'
  exact Option.some.inj hcta' ▸ hgood

theorem WorkerPhase.Good.of_none {phase : WorkerPhase} (hcta : phase.cta? = none) :
    phase.Good env := by
  refine ⟨fun cta hsome => ?_, fun cta w heq => ?_⟩
  · rw [hcta] at hsome
    cases hsome
  · rw [heq] at hcta
    cases hcta

theorem WorkerMove.good {phase phase' : WorkerPhase} (h : WorkerMove env smId s phase e phase' t)
    (hgood : phase.Good env) : phase'.Good env := by
  cases h with
  | start hwarps hanalysis hcta => exact .of_cta rfl (hcta ▸ .start hwarps) (by simp)
  | loopGo => exact .of_cta rfl (hgood.run _ rfl) (by simp)
  | stopUnseen => exact .of_cta rfl (hgood.run _ rfl) (by simp)
  | skip hpick hdone => exact .of_cta rfl ((hgood.run _ rfl).pick hpick).1 (by simp)
  | pick hpick =>
      obtain ⟨hrun, hlt, hlive⟩ := (hgood.run _ rfl).pick hpick
      refine ⟨fun cta hcta => Option.some.inj hcta ▸ hrun, fun cta w heq => ?_⟩
      obtain ⟨rfl, rfl⟩ := WorkerPhase.stepping.inj heq
      exact ⟨hlt, hlive⟩
  | retire hwarp hstep =>
      obtain ⟨hlt, hlive⟩ := hgood.live _ _ rfl
      exact .of_cta rfl ((hgood.run _ rfl).step hlt hlive hwarp hstep) (by simp)
  | issue hwarp hstep =>
      obtain ⟨hlt, hlive⟩ := hgood.live _ _ rfl
      exact .of_cta rfl ((hgood.run _ rfl).step hlt hlive hwarp hstep) (by simp)
  | retiredGo => exact .of_cta rfl (hgood.run _ rfl) (by simp)
  | count => exact .of_cta rfl (hgood.run _ rfl) (by simp)
  | _ => exact .of_none rfl

end ProtoGpu

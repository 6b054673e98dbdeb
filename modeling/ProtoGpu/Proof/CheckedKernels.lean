import ProtoGpu.Proof.CheckedUnits

/-!
# Kernels that fault on accesses alone

A check of a kernel against a descriptor table, a warp size and the parameters of a run. It looks at
one instruction after the other and at the control flow, never at a value. A launch of a kernel that
passes ends with one diagnostic at most, an access of global memory that is misaligned or outside of
the allocations, however its workers are scheduled; and none of its steps throws.
-/

namespace ProtoGpu

open Transitions

/-! ### The check -/

/-- A branch names an instruction of the kernel. -/
def MicroOp.staysIn (nInsts : Nat) (u : MicroOp) : Bool :=
  !u.isBra || u.inputs.all fun o => decide (0 ≤ o.immI64) && decide (o.immI64 < nInsts)

def MicroOp.passes (warpSize nInsts : Nat) (params : AddrSpaceManager) (u : MicroOp) : Bool :=
  u.checked warpSize params && u.staysIn nInsts

def InstRecord.checked (registry : DescriptorRegistry) (warpSize nInsts : Nat)
    (params : AddrSpaceManager) (inst : InstRecord) : Bool :=
  inst.pred.all (fun g => isPredNumber g.predId)
    && (registry.lookup inst).any fun desc =>
      (expand inst desc warpSize).all (MicroOp.passes warpSize nInsts params)
        && decide ((expand inst desc warpSize).countP MicroOp.isBra ≤ 1)

/-- Control does not fall through. -/
def InstRecord.leaves (registry : DescriptorRegistry) (warpSize : Nat) (inst : InstRecord) : Bool :=
  (classifyInst inst registry warpSize).all fun info =>
    !info.isPredicated && (info.hasBra || info.hasRet)

def KernelImage.checked (kernel : KernelImage) (registry : DescriptorRegistry) (warpSize : Nat)
    (params : AddrSpaceManager) : Bool :=
  kernel.insts.all (InstRecord.checked registry warpSize kernel.insts.length params)
    && kernel.insts.getLast?.any (InstRecord.leaves registry warpSize)
    && (analyzeControlFlow kernel registry warpSize).isOk

/-! ### What it says -/

section Passes

variable {registry : DescriptorRegistry} {warpSize nInsts : Nat} {params : AddrSpaceManager}
  {inst : InstRecord} {desc : InstDesc}

theorem InstRecord.pred_of_checked (h : inst.checked registry warpSize nInsts params = true)
    {g : PredGuard} (hg : inst.pred = some g) : isPredNumber g.predId = true := by
  rw [InstRecord.checked, Bool.and_eq_true, hg] at h
  exact h.1

theorem InstRecord.lookup_of_checked (h : inst.checked registry warpSize nInsts params = true) :
    ∃ desc, registry.lookup inst = some desc := by
  rw [InstRecord.checked, Bool.and_eq_true] at h
  cases hlookup : registry.lookup inst with
  | none =>
      rw [hlookup] at h
      cases h.2
  | some desc => exact ⟨desc, rfl⟩

theorem InstRecord.uops_of_checked (h : inst.checked registry warpSize nInsts params = true)
    (hdesc : registry.lookup inst = some desc) :
    (∀ u ∈ expand inst desc warpSize, u.checked warpSize params = true ∧ u.staysIn nInsts = true)
      ∧ (expand inst desc warpSize).countP MicroOp.isBra ≤ 1 := by
  rw [InstRecord.checked, Bool.and_eq_true, hdesc, Option.any_some, Bool.and_eq_true,
    List.all_eq_true, decide_eq_true_eq] at h
  exact ⟨fun u hu => Bool.and_eq_true_iff.mp (h.2.1 u hu), h.2.2⟩

end Passes

section Kernel

variable {ctx : WarpContext} {params : AddrSpaceManager}

theorem KernelImage.inst_of_checked
    (h : ctx.kernel.checked ctx.registry ctx.warpSize params = true) {inst : InstRecord}
    (hinst : inst ∈ ctx.kernel.insts) :
    inst.checked ctx.registry ctx.warpSize ctx.nInsts params = true := by
  rw [KernelImage.checked, Bool.and_eq_true, Bool.and_eq_true, List.all_eq_true] at h
  exact h.1.1 inst hinst

theorem KernelImage.last_of_checked
    (h : ctx.kernel.checked ctx.registry ctx.warpSize params = true) :
    ∃ inst, ctx.kernel.insts.getLast? = some inst ∧ inst.leaves ctx.registry ctx.warpSize
      = true := by
  rw [KernelImage.checked, Bool.and_eq_true, Bool.and_eq_true] at h
  exact (Option.any_eq_true _ _).mp h.1.2

/-- The flow of a checked kernel stays in it. -/
theorem flowStays_of_checked (ctx : WarpContext)
    (h : ctx.kernel.checked ctx.registry ctx.warpSize params = true) :
    FlowStays ctx where
  targets := by
    rintro inst hinst desc hdesc target ⟨u, hu, hbra, o, hinputs, -, rfl⟩
    have hpasses := InstRecord.uops_of_checked (KernelImage.inst_of_checked h hinst) hdesc
    have hstays := (hpasses.1 u hu).2
    have hrange : 0 ≤ o.immI64 ∧ o.immI64 < (ctx.nInsts : Int) := by
      simpa [MicroOp.staysIn, hbra, hinputs] using hstays
    exact hrange
  lastLeaves := by
    intro inst hinst info hinfo
    obtain ⟨last, hlast, hleaves⟩ := KernelImage.last_of_checked h
    rw [List.getLast?_eq_getElem?] at hlast
    obtain rfl : last = inst := Option.some.inj (hlast.symm.trans hinst)
    simpa [InstRecord.leaves, hinfo] using hleaves

theorem nInsts_pos_of_checked (ctx : WarpContext)
    (h : ctx.kernel.checked ctx.registry ctx.warpSize params = true) :
    0 < ctx.nInsts := by
  obtain ⟨last, hlast, -⟩ := KernelImage.last_of_checked h
  exact List.length_pos_of_mem (List.mem_of_getLast? hlast)

end Kernel

/-! ### One step of a warp -/

section Step

variable {ctx : WarpContext} {params : AddrSpaceManager} {initial : LaneMask} {w w' : WarpState}
  {mem mem' : MemState} {inst : InstRecord} {desc : InstDesc}

/-- The predicate of a checked instruction is read for every lane. -/
theorem predicate_returns (hws : 0 < ctx.warpSize ∧ ctx.warpSize ≤ 32) (hw : w.Sized ctx.warpSize)
    (hpred : ∀ g, inst.pred = some g → isPredNumber g.predId = true) (uops : List MicroOp) :
    ∃ uops', predicate ctx inst w uops = .ok uops' := by
  unfold predicate
  split
  · exact ⟨_, rfl⟩
  next g hg =>
    obtain ⟨hbase, hend, hrow⟩ := predRow_fits hws.2 (hpred g hg) le_rfl
    have hnonneg : ¬ g.predId < 0 := by
      have hnumber := hpred g hg
      rw [isPredNumber, Bool.and_eq_true, decide_eq_true_eq] at hnumber
      exact Int.not_lt.mpr hnumber.1
    rw [if_neg hnonneg]
    dsimp only
    rw [hbase, hend, if_neg (by rw [hw.preds]; exact Nat.not_lt.mpr hrow)]
    have hturn : ∀ lane m, laneMaskTest w.active lane = true → True →
        ∃ m', predTurn w g (g.predId.toNat * ctx.warpSize) lane m = .ok m' ∧ True := by
      intro lane m htest _
      rw [laneMaskTest_eq, Bool.and_eq_true, decide_eq_true_eq, hw.width] at htest
      obtain ⟨-, hindex, -⟩ := predRow_fits hws.2 (hpred g hg) htest.1.le
      have hlt : g.predId.toNat * ctx.warpSize + lane < w.p.length := by
        rw [hw.preds]
        exact (Nat.add_lt_add_left htest.1 _).trans_le hrow
      rw [predTurn, hindex, List.getElem?_eq_getElem hlt]
      dsimp only
      repeat' split
      all_goals exact ⟨_, rfl, trivial⟩
    obtain ⟨mask, hloop, -⟩ := laneLoop_returns hturn trivial
      (s := { width := ctx.warpSize, bitsLo := 0 })
    have hmask : predMask ctx w g (g.predId.toNat * ctx.warpSize) = (none, mask) := by
      rw [← hloop, laneLoop, hw.width]
      rfl
    rw [hmask]
    exact ⟨_, rfl⟩

theorem normalizeStack_p (h : normalizeStack ctx w = (.ok .ready, w')) : w'.p = w.p := by
  unfold normalizeStack at h
  split at h
  · cases h
    rfl
  · cases h
  · cases h

theorem commit_p (nextPc : Option Int) (split : Option PendingSplit) (w : WarpState) :
    (commit ctx nextPc split w).p = w.p := by
  unfold commit
  split
  · rfl
  · dsimp only
    split <;> rfl

variable {lanes : Finset Nat} {reconvPc : Int} {rest : List SimtFrame}

theorem loop_sound (hws : 0 < ctx.warpSize ∧ ctx.warpSize ≤ 32)
    (hchecked : ctx.kernel.checked ctx.registry ctx.warpSize params = true)
    (hparams : params.SameParams mem.mgr) (hrun : RunInv ctx initial lanes reconvPc rest w)
    (hpreds : w.p.length = predCount * ctx.warpSize) {guard : LaneMask}
    (hdecoded : Decoded ctx w inst desc guard) {f : Option Fault} {s : IssueState}
    (hloop : uopLoop ctx inst (guardedUops ctx inst desc guard) { warp := w, mem := mem }
      = (f, s)) :
    s.warp.p.length = predCount * ctx.warpSize
      ∧ ∀ fault, f = some fault → fault.isAccess = true ∨ fault.blamesFlow = true := by
  have hinst := KernelImage.inst_of_checked hchecked (List.mem_of_getElem? hdecoded.fetched)
  obtain ⟨huops, hone⟩ := InstRecord.uops_of_checked hinst hdecoded.looked
  refine uopLoop_sound hws ⟨hrun, by simp⟩ hpreds hparams (guards_fit hdecoded)
    (.inl rfl) ?_ ?_ hloop
  · rw [guardedUops, List.countP_map]
    exact hone
  · intro u hu
    obtain ⟨v, hv, rfl⟩ := List.mem_map.mp hu
    exact (huops v hv).1

theorem issueInst_checked (hws : 0 < ctx.warpSize ∧ ctx.warpSize ≤ 32)
    (hchecked : ctx.kernel.checked ctx.registry ctx.warpSize params = true)
    (hparams : params.SameParams mem.mgr) (hrun : RunInv ctx initial lanes reconvPc rest w)
    (hpreds : w.p.length = predCount * ctx.warpSize) {r : Except Fault Issue}
    (hissue : issueInst ctx w mem = (r, w', mem')) :
    w'.p.length = predCount * ctx.warpSize
      ∧ ∀ f, r = .error f → f.isAccess = true ∨ f.blamesFlow = true := by
  unfold issueInst at hissue
  split at hissue
  · cases hissue
    exact ⟨hpreds, fun f hf => by cases hf; exact .inr rfl⟩
  next hpc =>
    split at hissue
    · cases hissue
      exact ⟨hpreds, fun f hf => by cases hf; exact .inr rfl⟩
    next inst hfetched =>
      have hinst := KernelImage.inst_of_checked hchecked (List.mem_of_getElem? hfetched)
      obtain ⟨desc, hdesc⟩ := InstRecord.lookup_of_checked hinst
      rw [hdesc] at hissue
      dsimp only at hissue
      obtain ⟨uops, huops⟩ := predicate_returns hws ⟨hrun.activeFits.width, hpreds⟩
        (fun g hg => InstRecord.pred_of_checked hinst hg) (expand inst desc ctx.warpSize)
      obtain ⟨guard, hguard, rfl⟩ := predicate_ok hws.2 huops
      have hdecoded : Decoded ctx w inst desc guard := ⟨Int.not_lt.mp hpc, hfetched, hdesc, hguard⟩
      rw [huops] at hissue
      dsimp only at hissue
      split at hissue
      next f s hloop =>
        cases hissue
        obtain ⟨hlength, hfault⟩ := loop_sound hws hchecked hparams hrun hpreds hdecoded hloop
        refine ⟨hlength, fun f' hf' => ?_⟩
        cases hf'
        exact hfault _ rfl
      next s hloop =>
        cases hissue
        rw [commit_p]
        exact ⟨(loop_sound hws hchecked hparams hrun hpreds hdecoded hloop).1,
          fun f hf => by cases hf⟩

/-- **The step lemma.** A step of a checked kernel keeps the number of predicates, and reports
accesses alone. -/
theorem warpStep_checked (hws : 0 < ctx.warpSize ∧ ctx.warpSize ≤ 32)
    (hchecked : ctx.kernel.checked ctx.registry ctx.warpSize params = true)
    (hanalysis : analyzeControlFlow ctx.kernel ctx.registry ctx.warpSize = .ok ctx.reconvPc)
    (hparams : params.SameParams mem.mgr) (hdone : w.done = false) (hflow : FlowInv ctx initial w)
    (hpreds : w.p.length = predCount * ctx.warpSize) {r : Except Fault StepOutcome}
    (hstep : warpStep ctx w mem = (r, w', mem')) :
    (∀ outcome, r = .ok outcome → w'.p.length = predCount * ctx.warpSize)
      ∧ ∀ f, r = .error f → f.isAccess = true := by
  have hblameless := (warpStep_flow hws.2 hanalysis (flowStays_of_checked ctx hchecked) hdone hflow
    hstep).1
  constructor
  · rintro outcome rfl
    cases outcome with
    | retired =>
        have hretired := (warpStep_retired hstep).1
        unfold normalizeStack at hretired
        split at hretired <;> cases hretired
        exact hpreds
    | issued issue =>
        obtain ⟨w₁, hnormalize, hissue⟩ := warpStep_issued hstep
        obtain ⟨lanes, reconvPc, rest, hrun⟩ :=
          normalizeStack_ready hws.2 hdone hflow.warp hnormalize
        have hpreds₁ : w₁.p.length = predCount * ctx.warpSize := by
          rw [normalizeStack_p hnormalize, hpreds]
        exact (issueInst_checked hws hchecked hparams hrun hpreds₁ hissue).1
  · rintro f rfl
    have hblame : f.isAccess = true ∨ f.blamesFlow = true := by
      rcases warpStep_error hstep with hnormalize | ⟨w₁, hnormalize, hissue⟩
      · rw [normalizeStack_error hws.2 hflow.warp hnormalize]
        exact .inr rfl
      · obtain ⟨lanes, reconvPc, rest, hrun⟩ :=
          normalizeStack_ready hws.2 hdone hflow.warp hnormalize
        have hpreds₁ : w₁.p.length = predCount * ctx.warpSize := by
          rw [normalizeStack_p hnormalize, hpreds]
        exact (issueInst_checked hws hchecked hparams hrun hpreds₁ hissue).2 f rfl
    rw [hblameless f rfl] at hblame
    exact hblame.resolve_right Bool.false_ne_true

end Step

/-! ### Launches -/

/-- The branches of the CTA's kernel were analysed, and its warps have all their predicates. -/
structure CtaRun.Ready (env : DriverEnv) (cta : CtaRun) : Prop where
  analysed : analyzeControlFlow env.kernel env.registry env.plan.warpSize = .ok cta.reconvPc
  preds : ∀ warp ∈ cta.warps, warp.p.length = predCount * env.plan.warpSize

/-- A state of a launch whose only diagnostic is an access. -/
structure AccessesOnly (env : DriverEnv) (params : AddrSpaceManager) (s : DriverState) : Prop where
  params : params.SameParams s.mem.mgr
  good : ∀ smId, (s.worker smId).Good env
  ready : ∀ smId cta, (s.worker smId).cta? = some cta → cta.Ready env
  diag : ∀ d, s.diag = some d → (Fault.diag d).isAccess = true

section Launches

variable {env : DriverEnv} {params : AddrSpaceManager} {s t : DriverState} {e : DriverEvent}
  {smId : SmId} {phase phase' : WorkerPhase}

theorem initWarp_flow (hplan : env.plan.Checked env.launch) {reconvPc : List (Option Int)}
    (hpos : 0 < env.kernel.insts.length) (item : CtaWorkItem) {w : BitVec 32}
    (hw : w.toNat < env.plan.warpCount) :
    FlowInv (env.warpContext reconvPc) (env.initWarp item w).active (env.initWarp item w) where
  warp := initWarp_inv hplan hw rfl item
  pcs := by
    intro f hf lane _
    rw [List.mem_singleton.mp hf]
    exact ⟨le_rfl, Int.natCast_pos.mpr hpos⟩

/-- A worker's next step of a warp reports an access, or nothing. -/
theorem AccessesOnly.warpStep_sound (h : AccessesOnly env params s)
    (hplan : env.plan.Checked env.launch)
    (hchecked : env.kernel.checked env.registry env.plan.warpSize params = true) {cta : CtaRun}
    {w : BitVec 32} {warp w' : WarpState} {mem' : MemState} {r : Except Fault StepOutcome}
    (hphase : s.worker smId = .stepping cta w) (hwarp : cta.warps[w.toNat]? = some warp)
    (hstep : warpStep (env.warpContext cta.reconvPc) warp s.mem = (r, w', mem')) :
    (∀ outcome, r = .ok outcome → w'.p.length = predCount * env.plan.warpSize)
      ∧ ∀ f, r = .error f → f.isAccess = true := by
  have hgood := h.good smId
  rw [hphase] at hgood
  have hready : cta.Ready env := h.ready smId cta (by rw [hphase]; rfl)
  obtain ⟨hlt, hlive⟩ := hgood.live cta w rfl
  have hdone : warp.done = false := by
    rwa [CtaRun.isWarpDone, hwarp] at hlive
  obtain ⟨trace, hrun⟩ := (hgood.run cta rfl).runs w warp hwarp
  have hws : 0 < env.plan.warpSize ∧ env.plan.warpSize ≤ 32 :=
    ⟨hplan.warpSizePos, hplan.warpSizeLe⟩
  have hpos := nInsts_pos_of_checked (env.warpContext cta.reconvPc) hchecked
  have hstays := flowStays_of_checked (env.warpContext cta.reconvPc) hchecked
  have hflow := warpRun_flow hws.2 hready.analysed hstays (initWarp_flow hplan hpos cta.item hlt)
    hrun hdone
  exact warpStep_checked hws hchecked hready.analysed h.params hdone hflow
    (hready.preds warp (List.mem_of_getElem? hwarp)) hstep

/-- A diagnostic comes from the analysis or from a step of a warp. -/
theorem workerStep_diag (h : workerStep env smId s = some (e, t)) :
    t.diag = s.diag
      ∨ (∃ d, analyzeControlFlow env.kernel env.registry env.plan.warpSize = .error d
        ∧ t.diag = some d)
      ∨ ∃ cta w warp d, s.worker smId = .stepping cta w ∧ cta.warps[w.toNat]? = some warp
        ∧ (warpStep (env.warpContext cta.reconvPc) warp s.mem).1 = .error (.diag d)
        ∧ t.diag = some d := by
  cases hphase : s.worker smId with
  | received item =>
      rw [workerStep] at h
      simp only [hphase] at h
      split at h
      · cases h
      · split at h
        next d hanalysis =>
          cases h
          exact .inr (.inl ⟨d, hanalysis, rfl⟩)
        · cases h
          exact .inl rfl
  | stepping cta w =>
      rw [workerStep] at h
      simp only [hphase] at h
      split at h
      · cases h
      next warp hwarp =>
        split at h
        · cases h
        · cases h
        next d _ mem hstep =>
          cases h
          exact .inr (.inr ⟨cta, w, warp, d, rfl, hwarp, congrArg Prod.fst hstep, rfl⟩)
        · cases h
          exact .inl rfl
        · cases h
          exact .inl rfl
  | _ =>
      obtain ⟨phase', hmove⟩ := workerStep_moves h
      rw [hphase] at hmove
      left
      cases hmove <;> rfl

namespace CtaRun.Ready

variable {cta : CtaRun}

theorem start {item : CtaWorkItem} {warps : List WarpState} {reconvPc : List (Option Int)}
    (hwarps : env.initWarps item = some warps)
    (hanalysis : analyzeControlFlow env.kernel env.registry env.plan.warpSize = .ok reconvPc) :
    CtaRun.Ready env
      { item := item
        reconvPc := reconvPc
        warps := warps
        sched := WarpScheduler.onCtaStart env.plan.warpSched } := by
  refine ⟨hanalysis, fun warp hwarp => ?_⟩
  rw [(initWarps_eq hwarps).2] at hwarp
  obtain ⟨n, -, rfl⟩ := List.mem_map.mp hwarp
  exact List.length_replicate

theorem pick (h : cta.Ready env) {w : Option (BitVec 32)} {cta' : CtaRun}
    (hpick : cta.pickNext env.plan.warpCount = (w, cta')) : cta'.Ready env := by
  obtain rfl : (cta.pickNext env.plan.warpCount).2 = cta' := congrArg Prod.snd hpick
  exact ⟨h.analysed, h.preds⟩

theorem setWarp (h : cta.Ready env) {w : BitVec 32} {warp : WarpState}
    (hwarp : warp.p.length = predCount * env.plan.warpSize) : (cta.setWarp w warp).Ready env := by
  refine ⟨h.analysed, fun other hother => ?_⟩
  rcases List.mem_or_eq_of_mem_set hother with hother | rfl
  · exact h.preds other hother
  · exact hwarp

end CtaRun.Ready

theorem WorkerMove.ready (h : WorkerMove env smId s phase e phase' t)
    (hready : ∀ cta, phase.cta? = some cta → cta.Ready env)
    (hsound : ∀ cta w warp outcome w' mem', phase = .stepping cta w →
      cta.warps[w.toNat]? = some warp →
      warpStep (env.warpContext cta.reconvPc) warp s.mem = (.ok outcome, w', mem') →
      w'.p.length = predCount * env.plan.warpSize) :
    ∀ cta, phase'.cta? = some cta → cta.Ready env := by
  intro cta hcta
  cases h with
  | start hwarps hanalysis heq =>
      obtain rfl := Option.some.inj hcta
      exact heq ▸ .start hwarps hanalysis
  | loopGo => exact hready cta hcta
  | stopUnseen => exact hready cta hcta
  | skip hpick hdone =>
      obtain rfl := Option.some.inj hcta
      exact (hready _ rfl).pick hpick
  | pick hpick =>
      obtain rfl := Option.some.inj hcta
      exact (hready _ rfl).pick hpick
  | retire hwarp hstep =>
      obtain rfl := Option.some.inj hcta
      exact (hready _ rfl).setWarp (hsound _ _ _ _ _ _ rfl hwarp hstep)
  | issue hwarp hstep =>
      obtain rfl := Option.some.inj hcta
      exact (hready _ rfl).setWarp (hsound _ _ _ _ _ _ rfl hwarp hstep)
  | retiredGo => exact hready cta hcta
  | count => exact hready cta hcta
  | _ => cases hcta

theorem AccessesOnly.work (h : AccessesOnly env params s) (hplan : env.plan.Checked env.launch)
    (hchecked : env.kernel.checked env.registry env.plan.warpSize params = true)
    (hstep : workerStep env smId s = some (e, t)) : AccessesOnly env params t := by
  obtain ⟨phase', hmove⟩ := workerStep_moves hstep
  have hwrites := writesInside_driverStep (.work smId hstep)
  refine ⟨⟨hwrites.layout.trans h.params.layout, hwrites.blob.trans h.params.blob⟩,
    fun smId' => ?good, fun smId' cta hcta => ?ready, fun d hd => ?diag⟩
  case good =>
    by_cases heq : smId' = smId
    · rw [heq, hmove.self]
      exact hmove.good (h.good smId)
    · rw [hmove.others heq]
      exact h.good smId'
  case ready =>
    by_cases heq : smId' = smId
    · rw [heq, hmove.self] at hcta
      refine hmove.ready (h.ready smId) ?_ cta hcta
      intro _ _ _ outcome _ _ hphase hwarp hok
      exact (h.warpStep_sound hplan hchecked hphase hwarp hok).1 outcome rfl
    · rw [hmove.others heq] at hcta
      exact h.ready smId' cta hcta
  case diag =>
    rcases workerStep_diag hstep
      with hsame | ⟨d', hanalysis, -⟩ | ⟨cta, w, warp, d', hphase, hwarp, hfault, hd'⟩
    · exact h.diag d (hsame.symm.trans hd)
    · -- the check analysed the kernel
      rw [KernelImage.checked, Bool.and_eq_true, hanalysis] at hchecked
      cases hchecked.2
    · obtain rfl : d' = d := Option.some.inj (hd'.symm.trans hd)
      exact (h.warpStep_sound hplan hchecked hphase hwarp (Prod.ext hfault rfl)).2 _ rfl

theorem AccessesOnly.step (h : AccessesOnly env params s) (hplan : env.plan.Checked env.launch)
    (hchecked : env.kernel.checked env.registry env.plan.warpSize params = true)
    (hstep : DriverStep env s e t) : AccessesOnly env params t := by
  cases hstep with
  | work smId hstep => exact h.work hplan hchecked hstep
  | @acquire e' cta smId hphase hworker hcta =>
      have hnone : e'.phaseAfter.cta? = none := by
        unfold CtaEvent.phaseAfter
        split <;> rfl
      have hself : ({ s with cta := cta }.moveTo smId e'.phaseAfter).worker smId = e'.phaseAfter :=
        Function.update_self ..
      have hothers : ∀ smId' ≠ smId,
          ({ s with cta := cta }.moveTo smId e'.phaseAfter).worker smId' = s.worker smId' :=
        fun smId' hne => Function.update_of_ne hne ..
      refine ⟨h.params, fun smId' => ?_, fun smId' cta' hcta' => ?_, h.diag⟩
      · by_cases heq : smId' = smId
        · rw [heq, hself]
          exact .of_none hnone
        · rw [hothers smId' heq]
          exact h.good smId'
      · by_cases heq : smId' = smId
        · rw [heq, hself, hnone] at hcta'
          cases hcta'
        · rw [hothers smId' heq] at hcta'
          exact h.ready smId' cta' hcta'

theorem accessesOnly_start (mem : AddrSpaceManager) :
    AccessesOnly env mem (env.start { mgr := mem }) := by
  have hnone : ∀ smId, ((env.start { mgr := mem }).worker smId).cta? = none := by
    intro smId
    change (if smId.toNat < env.plan.smCount then WorkerPhase.top else .ended).cta? = none
    split <;> rfl
  refine ⟨⟨rfl, rfl⟩, fun smId => .of_none (hnone smId), fun smId cta hcta => ?_, fun d hd => ?_⟩
  · rw [hnone smId] at hcta
    cases hcta
  · cases hd

end Launches

/-- **Checked kernels fault on accesses alone.** In every state of a launch of a kernel that passes
the check, under any number of workers and any order of their steps, a diagnostic is an access of
global memory that is misaligned or outside of the allocations, and no worker is at a step that
throws or whose outcome is not defined. -/
theorem checked_kernels_fault_on_access {env : DriverEnv} {mem : AddrSpaceManager}
    {es : List DriverEvent} {s : DriverState}
    (hplan : checkLaunch env.cfg env.kernel env.launch = .ok env.plan)
    (hchecked : env.kernel.checked env.registry env.plan.warpSize mem = true)
    (hrun : Run (DriverStep env) (env.start { mgr := mem }) es s) :
    (∀ d, s.result.diag = some d → (Fault.diag d).isAccess = true) ∧ ¬ s.Threw env := by
  have hok := checkLaunch_ok hplan
  have hinv : AccessesOnly env mem s := by
    refine hrun.invariant (I := fun _ s => AccessesOnly env mem s) (accessesOnly_start mem) ?_
    intro _ _ _ _ hkept hstep
    exact hkept.step hok hchecked hstep
  refine ⟨hinv.diag, ?_⟩
  rintro ⟨smId, cta, w, warp, hphase, hwarp, f, hdiag, hthrew⟩
  have haccess := (hinv.warpStep_sound hok hchecked hphase hwarp (Prod.ext hthrew rfl)).2 _ rfl
  cases f with
  | host => cases haccess
  | undefined => cases haccess
  | diag d => exact hdiag d rfl

/-! ### A store at address zero -/

/-- `ld.param.u32 %r0, [n]; setp.lt.u32 %p0, %r0, 9; @%p0 st.global.u32 [0], %r0; ret`. -/
def nullStoreKernel : KernelImage where
  regU32Count := 1
  insts :=
    [ { opcode := "ld", mods := { typeMod := "u32", space := "param" }
        operands := [.reg 0, { kind := .symbol, symbol := "n" }] },
      setpLt 0 0 9,
      { opcode := "st", mods := { typeMod := "u32", space := "global" }
        pred := some { predId := 0 }
        operands := [{ kind := .addr }, .reg 0] },
      retInst ]

def nullStoreMem : AddrSpaceManager :=
  (({} : AddrSpaceManager).setParamLayout [{ name := "n", size := 4, align := 4 }]).setParamBlob
    [7, 0, 0, 0]

def nullStoreEnv : DriverEnv := { retEnv 100 with kernel := nullStoreKernel }

theorem nullStoreKernel_checked : nullStoreKernel.checked demoDescs 1 nullStoreMem = true := by
  decide

theorem nullStoreEnv_faults : ∃ es s d,
    Run (DriverStep nullStoreEnv) (nullStoreEnv.start { mgr := nullStoreMem }) es s ∧
      s.result.diag = some d := by
  have hstart :
      Run (DriverStep nullStoreEnv) (nullStoreEnv.start { mgr := nullStoreMem }) [.internal 0] _ :=
    Run.start.next (.work 0 rfl)
  have hcalled := hstart.next (.acquire 0 rfl rfl (.call 0 (by decide) rfl))
  have hreceived := ((hcalled.next (.acquire 0 rfl rfl (.pass 0 rfl rfl rfl))).next
    (.acquire 0 rfl rfl (.goOn 0 rfl rfl))).next (.acquire 0 rfl rfl (.take 0 rfl))
  have hpicked := (((hreceived.next (.work 0 rfl)).next (.work 0 rfl)).next (.work 0 rfl)).next
    (.work 0 rfl)
  have hloaded := (hpicked.next (.work 0 rfl)).next (.work 0 rfl)
  have hpicked₁ := ((hloaded.next (.work 0 rfl)).next (.work 0 rfl)).next (.work 0 rfl)
  have hcompared := (hpicked₁.next (.work 0 rfl)).next (.work 0 rfl)
  have hpicked₂ := ((hcompared.next (.work 0 rfl)).next (.work 0 rfl)).next (.work 0 rfl)
  exact ⟨_, _, _, hpicked₂.next (.work 0 rfl), rfl⟩

theorem checked_kernels_fault_on_access_store : ∃ es s d,
    Run (DriverStep nullStoreEnv) (nullStoreEnv.start { mgr := nullStoreMem }) es s ∧
      s.result.diag = some d
      ∧ (Fault.diag d).isAccess = true ∧ ¬ s.Threw nullStoreEnv := by
  obtain ⟨es, s, d, hrun, hdiag⟩ := nullStoreEnv_faults
  obtain ⟨hdiags, hnever⟩ :=
    checked_kernels_fault_on_access (by decide) nullStoreKernel_checked hrun
  exact ⟨es, s, d, hrun, hdiag, hdiags d hdiag, hnever⟩

end ProtoGpu

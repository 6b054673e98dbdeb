import ProtoGpu.Proof.LocalRaces

/-!
# Local memory in a launch

In a launch without a race on local memory every step of a worker takes the map on by local stores
of the warp that steps, so what was shown of one store and one load, and of runs of the memory unit,
is shown of the kernel's threads: none sees what another stored outside of its own range, and each
loads what it last stored itself.
-/

namespace ProtoGpu

open Transitions

/-! ### The stores of the workers -/

section Workers

variable {env : DriverEnv} {mem : MemState} {es : List DriverEvent} {s t : DriverState}
  {e : DriverEvent} {smId : SmId} {phase phase' : WorkerPhase}

/-- A worker has no CTA that it did not have before. -/
theorem WorkerMove.item_before (h : WorkerMove env smId s phase e phase' t) {item : CtaWorkItem}
    (hitem : phase'.item? = some item) : phase.item? = some item := by
  cases h with
  | start hwarps hanalysis hcta =>
      rw [hcta] at hitem
      exact hitem
  | skip hpick hdone =>
      obtain rfl := congrArg Prod.snd hpick
      exact hitem
  | pick hpick =>
      obtain rfl := congrArg Prod.snd hpick
      exact hitem
  | loopGo => exact hitem
  | stopUnseen => exact hitem
  | retire hwarp hstep => exact hitem
  | issue hwarp hstep => exact hitem
  | retiredGo => exact hitem
  | count => exact hitem
  | _ => cases hitem

/-- Behind a step a worker is where it was, or has made the step, or is where `acquire` left it. -/
theorem driverStep_worker (hstep : DriverStep env s e t) (j : SmId) :
    t.worker j = s.worker j ∨ WorkerMove env j s (s.worker j) e (t.worker j) t
      ∨ ∃ ev, e = .sched ev ∧ ev.worker? = some j ∧ t.worker j = ev.phaseAfter := by
  cases hstep with
  | work smId hstep =>
      obtain ⟨phase', hmove⟩ := workerStep_moves hstep
      by_cases heq : j = smId
      · rw [heq, hmove.self]
        exact .inr (.inl hmove)
      · exact .inl (hmove.others heq)
  | @acquire ev cta smId hphase hworker hstep =>
      by_cases heq : j = smId
      · rw [heq, DriverState.moveTo_self]
        exact .inr (.inr ⟨ev, rfl, hworker, rfl⟩)
      · exact .inl (DriverState.moveTo_others _ _ heq)

/-- The CTAs that the workers hold are CTAs of the launch, and their warps are where runs of them
are. -/
structure HeldItems (env : DriverEnv) (es : List DriverEvent) (s : DriverState) : Prop where
  sched : Run (CtaStep env.policy env.plan.smCount) {} (ctaEvents env es) s.cta
  submits : submitted (es.filterMap DriverEvent.sched?) = []
  good : ∀ smId, (s.worker smId).Good env
  items : ∀ smId item, (s.worker smId).item? = some item → item ∈ ctaItems env.launch.gridDim

theorem HeldItems.start (mem : MemState) : HeldItems env [] (env.start mem) := by
  refine ⟨start_sched mem, rfl, (DriverInv.start mem).good, fun smId item hitem => ?_⟩
  have hnone : ((env.start mem).worker smId).item? = none := by
    change (if smId.toNat < env.plan.smCount then WorkerPhase.top else .ended).item? = none
    split <;> rfl
  rw [hnone] at hitem
  cases hitem

theorem HeldItems.step (h : HeldItems env es s) (hstep : DriverStep env s e t) :
    HeldItems env (es ++ [e]) t := by
  have hsched := driverStep_sched h.sched hstep
  have hsubmits : submitted ((es ++ [e]).filterMap DriverEvent.sched?) = [] := by
    rw [List.filterMap_append, filterMap_sched, submitted_append, h.submits, List.nil_append]
    exact driverStep_submits hstep
  refine ⟨hsched, hsubmits, fun j => ?_, fun j item hitem => ?_⟩
  · rcases driverStep_worker hstep j with hsame | hmove | ⟨ev, -, hworker, hafter⟩
    · rw [hsame]
      exact h.good j
    · exact hmove.good (h.good j)
    · rw [hafter]
      apply WorkerPhase.Good.of_none
      rcases CtaEvent.phaseAfter_cases hworker with ⟨_, -, hphase⟩ | ⟨-, hphase⟩ | ⟨-, hphase⟩
      · rw [hphase]
        rfl
      · rw [hphase]
        rfl
      · rw [hphase]
        rfl
  · rcases driverStep_worker hstep j with hsame | hmove | ⟨ev, rfl, hworker, hafter⟩
    · rw [hsame] at hitem
      exact h.items j item hitem
    · exact h.items j item (hmove.item_before hitem)
    · rw [hafter] at hitem
      rcases CtaEvent.phaseAfter_cases hworker with
        ⟨taken, hret, hphase⟩ | ⟨-, hphase⟩ | ⟨-, hphase⟩
      · -- what is handed out was submitted
        rw [hphase] at hitem
        obtain rfl := Option.some.inj hitem
        refine (acquiredItems_subperm hsched hsubmits).subset ?_
        rw [acquiredItems_ctaEvents_concat, hret]
        exact List.mem_append_right _ List.mem_cons_self
      · rw [hphase] at hitem
        cases hitem
      · rw [hphase] at hitem
        cases hitem

theorem heldItems_run (hrun : Run (DriverStep env) (env.start mem) es s) : HeldItems env es s :=
  hrun.invariant (.start mem) fun _ _ _ _ h hstep => h.step hstep

/-- The warp that a worker steps is a warp of the launch. -/
theorem HeldItems.warpOf (h : HeldItems env es s) {cta : CtaRun} {w : BitVec 32} {warp : WarpState}
    (hphase : s.worker smId = .stepping cta w) (hwarp : cta.warps[w.toNat]? = some warp) :
    ∃ item : Nat, (ctaItems env.launch.gridDim)[item]? = some cta.item
      ∧ WarpOf env.kernel env.launch env.plan item w.toNat warp := by
  have hgood := h.good smId
  have hitem := h.items smId cta.item (by rw [hphase]; rfl)
  rw [hphase] at hgood
  obtain ⟨item, hitem⟩ := List.mem_iff_getElem?.mp hitem
  obtain ⟨trace, hrun⟩ := (hgood.run cta rfl).runs w warp hwarp
  refine ⟨item, hitem, cta.item, _, hitem, ?_, hrun.sameThreads⟩
  rw [plannedWarps, List.getElem?_map, List.getElem?_range (hgood.live cta w rfl).1,
    Option.map_some,
    BitVec.ofNat_toNat, BitVec.setWidth_eq]
  rfl

/-- A step of the workers takes local memory on by stores of the warp that steps. -/
theorem HeldItems.localRun (h : HeldItems env es s) (hstep : DriverStep env s e t)
    {stores : List LocalStore}
    (hrun : LocalRun env.kernel env.launch env.plan stores s.mem.localMem) :
    ∃ more, LocalRun env.kernel env.launch env.plan (stores ++ more) t.mem.localMem
      ∧ ∀ st ∈ more, ∃ smId cta w, s.worker smId = .stepping cta w
        ∧ (ctaItems env.launch.gridDim)[st.slot.item]? = some cta.item ∧
          st.slot.warp = w.toNat := by
  have hkept : t.mem = s.mem → ∃ more,
      LocalRun env.kernel env.launch env.plan (stores ++ more) t.mem.localMem
        ∧ ∀ st ∈ more, ∃ smId cta w, s.worker smId = .stepping cta w
          ∧ (ctaItems env.launch.gridDim)[st.slot.item]? = some cta.item
          ∧ st.slot.warp = w.toNat := by
    intro hmem
    refine ⟨[], ?_, fun st hst => absurd hst List.not_mem_nil⟩
    rw [hmem, List.append_nil]
    exact hrun
  cases hstep with
  | work smId hstep =>
      rcases workerStep_mem hstep with hmem | ⟨cta, w, warp, hphase, hwarp, hmem⟩
      · exact hkept hmem
      · obtain ⟨item, hitem, hof⟩ := h.warpOf hphase hwarp
        have hbefore : Continues env.kernel env.launch env.plan item w.toNat stores warp s.mem := by
          refine ⟨hof, [], ?_, fun st hst => absurd hst List.not_mem_nil⟩
          rw [List.append_nil]
          exact hrun
        obtain ⟨-, more, hafter, hslots⟩ :=
          warpStep_continues (env.warpContext cta.reconvPc) hbefore
        rw [hmem]
        refine ⟨more, hafter, fun st hst => ⟨smId, cta, w, hphase, ?_, (hslots st hst).2⟩⟩
        rw [(hslots st hst).1]
        exact hitem
  | acquire => exact hkept rfl

end Workers

/-! ### The law -/

/-- No thread of the launch sees another's local stores, and each loads its own. -/
structure LocalMemoryPrivate (kernel : KernelImage) (launch : LaunchConfig) (plan : LaunchPlan) :
    Prop where
  invisible : ∀ (slot₁ slot₂ : ThreadSlot) (w₁ w₂ : WarpState), slot₁ ≠ slot₂ →
    slot₁.Owns kernel launch plan w₁ → slot₂.Owns kernel launch plan w₂ →
      ∀ (dst src : Operand) (t₁ t₂ : ValueType),
        StoreInvisible dst (typeSize t₁) w₁ slot₁.lane src (typeSize t₂) w₂ slot₂.lane
  own : ∀ (stores : List LocalStore) (mem : MemState) (slot : ThreadSlot) (w : WarpState),
    LocalRun kernel launch plan stores mem.localMem → slot.Owns kernel launch plan w →
      ∀ (src : Operand) (t : ValueType),
        ldLocalValue src (typeSize t) mem w slot.lane
          = .ok (unpackLe (readSparse (ownLocal slot stores) (evalAddrLane src w slot.lane)
            (typeSize t)))

/-- **Local memory.** A store of one thread is invisible to a load of another exactly when their
ranges do not meet, which they do not inside the windows of threads that can be numbered; and in any
run, a load that no store of another thread meets gives what the thread itself last stored. The
workers of a launch without a race on local memory make such a run, by the stores of the warps they
step. -/
theorem local_memory_private_iff {cfg : SimConfig} {kernel : KernelImage} {launch : LaunchConfig}
    {plan : LaunchPlan} (hplan : checkLaunch cfg kernel launch = .ok plan) :
    (∀ (slot₁ slot₂ : ThreadSlot) (w₁ w₂ : WarpState), slot₁ ≠ slot₂ →
      slot₁.Owns kernel launch plan w₁ → slot₂.Owns kernel launch plan w₂ →
        ∀ (dst src : Operand) (t₁ t₂ : ValueType),
          (StoreInvisible dst (typeSize t₁) w₁ slot₁.lane src (typeSize t₂) w₂ slot₂.lane ↔
            RangesDisjoint (localStart dst w₁ slot₁.lane) (typeSize t₁)
              (localStart src w₂ slot₂.lane) (typeSize t₂))
          ∧ (plan.threadsPerBlock ≤ 2 ^ 32 →
              launch.gridDim.volume * plan.threadsPerBlock ≤ 2 ^ 52 →
                (evalAddrLane dst w₁ slot₁.lane).toNat + typeSize t₁ ≤ 4096 →
                  (evalAddrLane src w₂ slot₂.lane).toNat + typeSize t₂ ≤ 4096 →
                    RangesDisjoint (localStart dst w₁ slot₁.lane) (typeSize t₁)
                      (localStart src w₂ slot₂.lane) (typeSize t₂)))
      ∧ (∀ (stores : List LocalStore) (mem : MemState) (slot : ThreadSlot) (w : WarpState),
        LocalRun kernel launch plan stores mem.localMem → slot.Owns kernel launch plan w →
          ∀ (src : Operand) (t : ValueType),
            (∀ s ∈ stores, s.slot ≠ slot → RangesDisjoint s.start s.bytes.length
              (localStart src w slot.lane) (typeSize t)) →
                ldLocalValue src (typeSize t) mem w slot.lane
                  = .ok (unpackLe (readSparse (ownLocal slot stores)
                    (evalAddrLane src w slot.lane) (typeSize t))))
      ∧ ∀ (env : DriverEnv) (mgr : AddrSpaceManager) (es : List DriverEvent) (s : DriverState),
        env.kernel = kernel → env.launch = launch → env.plan = plan →
          env.DefinedRun { mgr := mgr } es s →
            ∀ e t stores, DriverStep env s e t → LocalRun kernel launch plan stores s.mem.localMem →
              ∃ more, LocalRun kernel launch plan (stores ++ more) t.mem.localMem
                ∧ ∀ st ∈ more, ∃ smId cta w, s.worker smId = .stepping cta w
                  ∧ (ctaItems launch.gridDim)[st.slot.item]? = some cta.item
                  ∧ st.slot.warp = w.toNat := by
  have h := checkLaunch_ok hplan
  refine ⟨fun slot₁ slot₂ w₁ w₂ hne howns₁ howns₂ dst src t₁ t₂ => ⟨?_, ?_⟩, ?_, ?_⟩
  · exact storeInvisible_iff dst src t₁ t₂ w₁ w₂ slot₁.lane slot₂.lane
  · intro hthreads htotal hstore hload
    exact h.windows_disjoint hthreads htotal hne howns₁ howns₂ hstore hload
  · intro stores mem slot w hrun howns src t hclear
    exact hrun.ldLocalValue_eq howns.warpOf src t hclear
  · rintro env mgr es s rfl rfl rfl hdefined e t stores hstep hrun
    exact (heldItems_run hdefined.run).localRun hstep hrun

/-! ### Two threads -/

def twoThreadLaunch : LaunchConfig where
  blockDim := { x := 2 }
  warpSize := 2

def twoThreadPlan : LaunchPlan where
  threadsPerBlock := 2
  warpSize := 2
  warpCount := 1
  smCount := 1
  ctaSched := .fifo
  warpSched := .inOrderRunToCompletion

def twoThreadWarp : WarpState := initWarp {} twoThreadLaunch twoThreadPlan (ctaItem {} 0 0 0) 0

theorem twoThread_plan : checkLaunch {} {} twoThreadLaunch = .ok twoThreadPlan := by decide

theorem twoThread_owns {lane : Nat} (hlane : lane < 2) :
    ThreadSlot.Owns ⟨0, 0, lane⟩ {} twoThreadLaunch twoThreadPlan twoThreadWarp := by
  refine ⟨twoThreadWarp, ⟨ctaItem {} 0 0 0, rfl, rfl, ?_⟩, .refl _⟩
  interval_cases lane <;> decide

/-- Inside the windows the second thread does not see the store of the first. -/
theorem local_memory_private_two_threads :
    StoreInvisible { kind := .addr, immI64 := 4092 } (typeSize .u32) twoThreadWarp 0
      { kind := .addr, immI64 := 0 } (typeSize .u32) twoThreadWarp 1 := by
  obtain ⟨hpairs, -⟩ := local_memory_private_iff twoThread_plan
  obtain ⟨hiff, hwindows⟩ := hpairs ⟨0, 0, 0⟩ ⟨0, 0, 1⟩ twoThreadWarp twoThreadWarp (by decide)
    (twoThread_owns (by decide)) (twoThread_owns (by decide))
    { kind := .addr, immI64 := 4092 } { kind := .addr, immI64 := 0 } .u32 .u32
  exact hiff.mpr (hwindows (by decide) (by decide) (by decide) (by decide))

/-- The first thread's address `4096` is the second thread's address `0`. -/
theorem local_store_past_window :
    checkLaunch {} {} twoThreadLaunch = .ok twoThreadPlan
      ∧ ¬ LocalMemoryPrivate {} twoThreadLaunch twoThreadPlan := by
  refine ⟨twoThread_plan, fun h => ?_⟩
  have hinvisible := h.invisible ⟨0, 0, 0⟩ ⟨0, 0, 1⟩ twoThreadWarp twoThreadWarp (by decide)
    (twoThread_owns (by decide)) (twoThread_owns (by decide))
    { kind := .addr, immI64 := 4096 } { kind := .addr, immI64 := 0 } .u32 .u32
  have hword := Except.ok.inj (hinvisible { immI64 := 7 } {} _ rfl)
  revert hword
  decide

end ProtoGpu

import ProtoGpu.Proof.LocalRaces
import ProtoGpu.Proof.QuietRuns
import ProtoGpu.Proof.SchedulerFairness

/-!
# The order of the warps does not matter

When no byte of global memory is written by one warp and accessed by another, and local addresses
stay inside the windows of their threads, the warps of a launch are threads with a footprint each.
One run of the workers that brings all of them to their ends is then one complete order of their
steps, and every other order, under any scheduler and any number of workers, comes to the same end.
The workers do not race for local memory either, where the CTA that stores to it is the only one to
access it, or where there is one worker.
-/

namespace ProtoGpu

open Transitions Interleaving

/-! ### The property -/

/-- A quiet run to the end, in which every CTA was left with all its warps done. -/
structure CompleteRun (env : DriverEnv) (mem : MemState)
    (log : List (DriverEvent × List (WarpId × Access))) (s : DriverState) : Prop where
  run : Run (QuietStep env) (env.start mem) log s
  ended : s.Ended
  done : ∀ item ∈ ctaItems env.launch.gridDim, ∃ smId cta, .left smId cta ∈ runEvents log
    ∧ cta.item = item ∧ ∀ warp ∈ cta.warps, warp.done = true

/-- No byte of global memory is accessed by two warps one of which stores to it, and local accesses
end inside the window of `4096` bytes. -/
structure ConflictFree (accs : List (WarpId × Access)) : Prop where
  apart : ∀ {i j : WarpId} {acc acc' : Access}, (i, acc) ∈ accs → (j, acc') ∈ accs → i ≠ j →
    acc.stores = true → ∀ a, .global a ∈ acc.cells → .global a ∉ acc'.cells
  window : ∀ {i : WarpId} {acc : Access} {a : Addr}, (i, acc) ∈ accs → acc.first = .localMem a →
    acc.addr.toNat + acc.size ≤ 4096

/-- No access to local memory. -/
def NoLocal (accs : List (WarpId × Access)) : Prop :=
  ∀ {i : WarpId} {acc : Access} {a : Addr}, (i, acc) ∈ accs → acc.first ≠ .localMem a

/-- Where a CTA stores to local memory, no other CTA accesses it. -/
def LocalApart (accs : List (WarpId × Access)) : Prop :=
  ∀ {i j : WarpId} {acc acc' : Access} {a b : Addr}, (i, acc) ∈ accs → (j, acc') ∈ accs →
    i.1 ≠ j.1 → acc.stores = true → acc.first = .localMem a → acc'.first ≠ .localMem b

/-- The same kernel, launched the same way; the schedulers, the number of workers and whether they
run in parallel may differ. -/
structure DriverEnv.SameLaunch (env env' : DriverEnv) : Prop where
  kernel : env'.kernel = env.kernel
  launch : env'.launch = env.launch
  registry : env'.registry = env.registry
  floatOps : env'.floatOps = env.floatOps
  warpSize : env'.cfg.warpSize = env.cfg.warpSize
  maxSteps : env'.cfg.maxSteps = env.cfg.maxSteps

/-- Whatever its workers do, the system comes to an end without a diagnostic and below the step
limit, and there to what the run with the events `es` to the state `s` came to. -/
structure SameOutcome (env : DriverEnv) (mem : MemState) (es : List DriverEvent) (s : DriverState) :
    Prop where
  bounded : ∃ bound, ∀ es' s', Run (DriverStep env) (env.start mem) es' s' → es'.length ≤ bound
  quiet : ∀ es' s', Run (DriverStep env) (env.start mem) es' s' → s'.Quiet env
  goesOn : ∀ es' s', Run (DriverStep env) (env.start mem) es' s' →
    s'.Ended ∨ ∃ e t, DriverStep env s' e t
  memory : ∀ es' s', Run (DriverStep env) (env.start mem) es' s' → s'.Ended → s'.mem = s.mem
  steps : ∀ es' s', Run (DriverStep env) (env.start mem) es' s' → s'.Ended → s'.steps = s.steps
  done : ∀ es' s', Run (DriverStep env) (env.start mem) es' s' → s'.Ended →
    ∀ item ∈ ctaItems env.launch.gridDim, ∃ smId cta, .left smId cta ∈ es' ∧ cta.item = item
  warps : ∀ es' s', Run (DriverStep env) (env.start mem) es' s' → ∀ smId cta, .left smId cta ∈ es' →
    (∀ warp ∈ cta.warps, warp.done = true)
      ∧ ∀ smId₀ cta₀, .left smId₀ cta₀ ∈ es → cta₀.item = cta.item → cta.warps = cta₀.warps

/-- Whatever warp steps next, each time, no step fails, none reaches the step limit, and the end is
what the run with the events `es` to the state `s` came to. -/
structure EveryOrder (env : DriverEnv) (mem : MemState) (es : List DriverEvent) (s : DriverState) :
    Prop where
  bounded : ∃ bound, ∀ ms c, Run (Step (env.machine mem)) (env.startConfig mem) ms c →
    ms.length ≤ bound
  goesOn : ∀ ms c, Run (Step (env.machine mem)) (env.startConfig mem) ms c → ∀ i,
    (c.threads i).done = true ∨ ∃ outcome c', Step (env.machine mem) c (i, outcome) c'
  below : ∀ ms c, Run (Step (env.machine mem)) (env.startConfig mem) ms c →
    (BitVec.ofNat 64 (issued ms)).toNat < env.cfg.maxSteps
  ends : ∀ ms c, Run (Step (env.machine mem)) (env.startConfig mem) ms c →
    (∀ i, (c.threads i).done = true) → s.mem = mem.withBytes c.store
      ∧ s.steps = BitVec.ofNat 64 (issued ms)
      ∧ ∀ smId cta, .left smId cta ∈ es → cta.At env c

/-- Every run of the second system and every order of the warp steps come to what the run of the
first came to. -/
structure ScheduleIndependent (env env' : DriverEnv) (mem : MemState) (es : List DriverEvent)
    (s : DriverState) : Prop where
  runs : SameOutcome env' mem es s
  orders : EveryOrder env mem es s

/-! ### Footprints -/

section Footprints

variable {env : DriverEnv} {mem : MemState} {accs : List (WarpId × Access)} {i j : WarpId}

def DriverEnv.Launched (env : DriverEnv) (i : WarpId) : Prop :=
  i.1 ∈ ctaItems env.launch.gridDim ∧ i.2.toNat < env.plan.warpCount

/-- The warp has accesses of the kind to local memory. -/
def UsesLocal (accs : List (WarpId × Access)) (kind : Access → Prop) (i : WarpId) : Prop :=
  ∃ acc a, (i, acc) ∈ accs ∧ kind acc ∧ acc.first = .localMem a

/-- The windows in local memory of the threads of a warp that uses it. -/
def DriverEnv.window (env : DriverEnv) (accs : List (WarpId × Access)) (kind : Access → Prop)
    (i : WarpId) : Set Cell :=
  {c | UsesLocal accs kind i ∧ env.Launched i ∧ ∃ lane addr size a,
    (env.initWarp i.1 i.2).active.has lane = true ∧ (addr : Addr).toNat + size ≤ 4096
      ∧ c = .localMem a ∧ InRange (localEffectiveAddr (env.initWarp i.1 i.2) lane addr) size a}

/-- The bytes of global memory that some of the warp's accesses of this kind are to. -/
def globalCells (accs : List (WarpId × Access)) (i : WarpId) (kind : Access → Prop) : Set Cell :=
  {c | ∃ acc a, (i, acc) ∈ accs ∧ kind acc ∧ c = .global a ∧ c ∈ acc.cells}

/-- The windows of different warps do not meet. -/
theorem window_apart (hchecked : env.plan.Checked env.launch)
    (hlocal : env.plan.threadsPerBlock ≤ 2 ^ 32 ∨ NoLocal accs)
    (htotal : env.launch.gridDim.volume * env.plan.threadsPerBlock < 2 ^ 52) (hne : i ≠ j)
    {kind kind' : Access → Prop} {c : Cell} (hi : c ∈ env.window accs kind i) :
    c ∉ env.window accs kind' j := by
  rintro ⟨-, ⟨hitem', hw'⟩, lane', addr', size', a', hlane', hend', hc', hin'⟩
  obtain ⟨⟨acc, b, hacc, -, hfirst⟩, ⟨hitem, hw⟩, lane, addr, size, a, hlane, hend, rfl, hin⟩ := hi
  have hthreads := hlocal.resolve_right fun hnone => hnone hacc hfirst
  obtain rfl := Cell.localMem.inj hc'
  obtain ⟨k, hk⟩ := List.mem_iff_getElem?.mp hitem
  obtain ⟨k', hk'⟩ := List.mem_iff_getElem?.mp hitem'
  have howns : ∀ {n : Nat} {i : WarpId} {lane : Nat}, (ctaItems env.launch.gridDim)[n]? = some i.1 →
      i.2.toNat < env.plan.warpCount → (env.initWarp i.1 i.2).active.has lane = true →
        ThreadSlot.Owns ⟨n, i.2.toNat, lane⟩ env.kernel env.launch env.plan
          (env.initWarp i.1 i.2) := by
    intro n i lane hn hw hlane
    refine ⟨_, ⟨i.1, hn, ?_, hlane⟩, .refl _⟩
    rw [plannedWarps, List.getElem?_map, List.getElem?_range hw, Option.map_some,
      BitVec.ofNat_toNat,
      BitVec.setWidth_eq]
    rfl
  have hslots : (⟨k, i.2.toNat, lane⟩ : ThreadSlot) ≠ ⟨k', j.2.toNat, lane'⟩ := by
    intro heq
    obtain ⟨rfl, hwarp, -⟩ := ThreadSlot.mk.inj heq
    exact hne (Prod.ext (Option.some.inj (hk.symm.trans hk')) (BitVec.eq_of_toNat_eq hwarp))
  exact hchecked.windows_disjoint hthreads htotal.le hslots (howns hk hw hlane)
    (howns hk' hw' hlane')
    hend hend' a ⟨hin, hin'⟩

theorem window_not_global {kind kind' : Access → Prop} {c : Cell}
    (hi : c ∈ globalCells accs i kind) : c ∉ env.window accs kind' j := by
  rintro ⟨-, -, lane, addr, size, a, -, -, rfl, -⟩
  obtain ⟨acc, a', -, -, hc, -⟩ := hi
  cases hc

/-- The bytes of one kind of access in global memory, and the windows. -/
def DriverEnv.ownCells (env : DriverEnv) (accs : List (WarpId × Access)) (kind : Access → Prop)
    (i : WarpId) : Set Cell :=
  globalCells accs i kind ∪ env.window accs kind i

theorem usesLocal_of_mem {kind : Access → Prop} {a : Addr}
    (h : Cell.localMem a ∈ env.ownCells accs kind i) : UsesLocal accs kind i := by
  rcases h with ⟨acc, b, -, -, hc, -⟩ | hwindow
  · cases hc
  · exact hwindow.1

theorem ownCells_mono {kind kind' : Access → Prop} (hkind : ∀ acc, kind acc → kind' acc)
    (i : WarpId) : env.ownCells accs kind i ⊆ env.ownCells accs kind' i := by
  apply Set.union_subset_union
  · rintro c ⟨acc, a, hmem, hacc, hc, hin⟩
    exact ⟨acc, a, hmem, hkind acc hacc, hc, hin⟩
  · rintro c ⟨⟨acc, a, hmem, hacc, hfirst⟩, hwindow⟩
    exact ⟨⟨acc, a, hmem, hkind acc hacc, hfirst⟩, hwindow⟩

/-- What a warp may store to, no other warp may access. -/
theorem ownCells_apart (hchecked : env.plan.Checked env.launch)
    (hlocal : env.plan.threadsPerBlock ≤ 2 ^ 32 ∨ NoLocal accs)
    (htotal : env.launch.gridDim.volume * env.plan.threadsPerBlock < 2 ^ 52)
    (hfree : ConflictFree accs) (hne : i ≠ j) :
    Disjoint (env.ownCells accs (fun acc => acc.stores = true) i)
      (env.ownCells accs (fun _ => True) j) := by
  rw [Set.disjoint_left]
  rintro c (hglobal | hwindow) (hglobal' | hwindow')
  · obtain ⟨acc, a, hmem, hstores, rfl, hin⟩ := hglobal
    obtain ⟨acc', a', hmem', -, hc, hin'⟩ := hglobal'
    exact hfree.apart hmem hmem' hne hstores a hin hin'
  · exact window_not_global hglobal hwindow'
  · exact window_not_global hglobal' hwindow
  · exact window_apart hchecked hlocal htotal hne hwindow hwindow'

/-- Each warp's own bytes, when there is no conflict. -/
def DriverEnv.footprint (env : DriverEnv) (hchecked : env.plan.Checked env.launch)
    (hlocal : env.plan.threadsPerBlock ≤ 2 ^ 32 ∨ NoLocal accs)
    (htotal : env.launch.gridDim.volume * env.plan.threadsPerBlock < 2 ^ 52)
    (hfree : ConflictFree accs) : Footprint WarpId Cell where
  touched := env.ownCells accs fun _ => True
  written := env.ownCells accs fun acc => acc.stores = true
  written_touched := ownCells_mono fun _ _ => trivial
  apart := ownCells_apart hchecked hlocal htotal hfree

end Footprints

/-! ### One complete run is one complete order -/

section Complete

variable {env : DriverEnv} {mem : MemState} {i : WarpId} {ms : List (WarpId × StepOutcome)}
  {c : Config WarpId WarpState Cell (Option Byte)} {accs : List (WarpId × Access)}

/-- In any order of steps each warp of the launch is in a run of its own. -/
theorem launched_run (hrun : Run (Step (env.machine mem)) (env.startConfig mem) ms c)
    (hlaunched : env.Launched i) :
    ∃ trace, WarpRun (env.warpContext env.reconvPc) (env.initWarp i.1 i.2) trace (c.threads i) := by
  refine hrun.invariant (I := fun _ c => ∃ trace, WarpRun (env.warpContext env.reconvPc)
    (env.initWarp i.1 i.2) trace (c.threads i)) ⟨[], ?_⟩ fun ms c m c' hprev hstep => ?_
  · have hfresh : (env.startConfig mem).threads i = env.initWarp i.1 i.2 := if_pos hlaunched
    rw [hfresh]
    exact .start
  · cases hstep with
    | @mk j outcome w bytes hstep =>
        dsimp only
        by_cases heq : i = j
        · subst heq
          obtain ⟨trace, hprev⟩ := hprev
          obtain ⟨hlive, hstep⟩ := warpMove_iff.mp hstep
          rw [Function.update_self]
          cases outcome with
          | retired => exact ⟨trace, hprev.retire hlive trivial hstep⟩
          | issued issue => exact ⟨issue :: trace, hprev.issue hlive trivial hstep⟩
        · rwa [Function.update_of_ne heq]

theorem machine_done {w : WarpState} (hdone : w.done = true) (bytes : Cell → Option Byte) :
    (env.machine mem).step w bytes = none := if_pos hdone

theorem live_of_step {outcome : StepOutcome} {c' : Config WarpId WarpState Cell (Option Byte)}
    (hstep : Step (env.machine mem) c (i, outcome) c') : (c.threads i).done = false := by
  cases hstep with
  | mk i hstep => exact (warpMove_iff.mp hstep).1

/-- Nothing else steps. -/
theorem idle_thread (hrun : Run (Step (env.machine mem)) (env.startConfig mem) ms c)
    (hidle : ¬ env.Launched i) : (c.threads i).done = true := by
  have hfresh : (env.startConfig mem).threads i = { done := true } := if_neg hidle
  rw [stopped_stays hrun fun m => by rw [hfresh]; exact machine_done rfl m, hfresh]

/-- What a step of a warp accesses is inside its footprint. -/
theorem accesses_inside (hchecked : env.plan.Checked env.launch) (hfree : ConflictFree accs)
    {w : WarpState} {trace : List Issue} {m : MemState} (hlaunched : env.Launched i)
    (hrun : WarpRun (env.warpContext env.reconvPc) (env.initWarp i.1 i.2) trace w)
    (hlive : w.done = false)
    (hlogged : ∀ acc ∈ warpAccesses (env.warpContext env.reconvPc) w m, (i, acc) ∈ accs)
    {acc : Access} (hacc : acc ∈ warpAccesses (env.warpContext env.reconvPc) w m) {a : Cell}
    (ha : a ∈ acc.cells) {kind : Access → Prop} (hkind : kind acc) :
    a ∈ env.ownCells accs kind i := by
  have hws : (env.warpContext env.reconvPc).warpSize = env.plan.warpSize := rfl
  have hstart := initWarp_inv hchecked hlaunched.2 hws i.1
  obtain ⟨hinv, -⟩ := warpRun_inv hchecked.warpSizeLe hstart rfl hrun
  obtain ⟨hlane, hfirst⟩ := warpAccesses_of hchecked.warpSizeLe hinv hlive hacc
  have hin : acc.first.InRange acc.size a := ha
  cases hcell : acc.first with
  | global start =>
      rw [hcell] at hin
      cases a with
      | global a => exact .inl ⟨acc, a, hlogged acc hacc, hkind, rfl, ha⟩
      | localMem a => cases hin
  | localMem start =>
      rw [hcell] at hin
      cases a with
      | global a => cases hin
      | localMem a =>
          have hsame : localEffectiveAddr w acc.lane acc.addr
              = localEffectiveAddr (env.initWarp i.1 i.2) acc.lane acc.addr := by
            rw [localEffectiveAddr, localEffectiveAddr, hrun.sameThreads.threadLinearGlobal_eq]
          rw [hfirst start hcell, hsame] at hin
          exact .inr ⟨⟨acc, start, hlogged acc hacc, hkind, hcell⟩, hlaunched, acc.lane, acc.addr,
            acc.size, a, hlane, hfree.window (hlogged acc hacc) hcell, rfl, hin⟩

theorem mem_runAccesses {log : List (DriverEvent × List (WarpId × Access))}
    {l : DriverEvent × List (WarpId × Access)} {x : WarpId × Access} :
    x ∈ runAccesses (log ++ [l]) ↔ x ∈ runAccesses log ∨ x ∈ l.2 := by
  simp [runAccesses]

/-- A quiet run is an order of warp steps, each inside the footprint of its warp. -/
theorem quiet_run (hchecked : env.plan.Checked env.launch)
    (hlocal : env.plan.threadsPerBlock ≤ 2 ^ 32 ∨ NoLocal accs)
    (htotal : env.launch.gridDim.volume * env.plan.threadsPerBlock < 2 ^ 52)
    (hfree : ConflictFree accs) {log : List (DriverEvent × List (WarpId × Access))}
    {s : DriverState}
    (hrun : Run (QuietStep env) (env.start mem) log s) (hlogged : ∀ x ∈ runAccesses log, x ∈ accs) :
    Orderly env (runEvents log) s ∧ ∃ ms c, Tracked env mem (runEvents log) ms s c
      ∧ Run (StepWithin (env.machine mem) (env.footprint hchecked hlocal htotal hfree))
          (env.startConfig mem) ms c := by
  induction hrun with
  | start => exact ⟨.start mem, [], _, .start mem, .start⟩
  | @next log s l t hprev hstep ih =>
      obtain ⟨horderly, ms, c, htracked, horder⟩ :=
        ih fun x hx => hlogged x (mem_runAccesses.mpr (.inl hx))
      have hevents : runEvents (log ++ [l]) = runEvents log ++ [l.1] := List.map_append
      obtain ⟨horderly', c', ms', hadvance, htracked', -⟩ :=
        htracked.step horderly hstep.step hstep.after.1 hstep.before.2
      rw [hevents]
      refine ⟨horderly', ms', c', htracked', ?_⟩
      cases hadvance with
      | stay => exact horder
      | @warp i outcome c' haccesses hmove =>
          have hplain := horder.mono fun _ _ _ h => h.1
          have hlive := live_of_step hmove
          have hlaunched : env.Launched i := by
            by_contra hidle
            rw [idle_thread hplain hidle] at hlive
            cases hlive
          obtain ⟨trace, hown⟩ := launched_run hplain hlaunched
          have hmem : ∀ acc ∈ warpAccesses (env.warpContext env.reconvPc) (c.threads i)
              (mem.withBytes c.store), (i, acc) ∈ accs := by
            intro acc hacc
            refine hlogged _ (mem_runAccesses.mpr (.inr ?_))
            rw [hstep.accesses, haccesses, htracked.mem]
            exact List.mem_map_of_mem hacc
          refine horder.next ⟨hmove, ?_, ?_⟩
          · rintro a ⟨acc, hacc, ha⟩
            exact accesses_inside hchecked hfree hlaunched hown hlive hmem hacc ha trivial
          · rintro a ⟨acc, hacc, hstores, ha⟩
            exact accesses_inside hchecked hfree hlaunched hown hlive hmem hacc ha hstores

/-- An order of steps that brings every warp to its end, below the step limit. -/
structure Reaches (env : DriverEnv) (mem : MemState) (F : Footprint WarpId Cell)
    (ms : List (WarpId × StepOutcome)) (d : Config WarpId WarpState Cell (Option Byte)) : Prop where
  complete : Complete (env.machine mem) F (env.startConfig mem) ms d
  done : ∀ i, (d.threads i).done = true
  below : ∀ n ≤ issued ms, (BitVec.ofNat 64 n).toNat < env.cfg.maxSteps
  analysed : analyzeControlFlow env.kernel env.registry env.plan.warpSize = .ok env.reconvPc
  count : env.plan.warpCount < 2 ^ 32

theorem ctaItems_nonempty (hchecked : env.plan.Checked env.launch) :
    ∃ item, item ∈ ctaItems env.launch.gridDim := by
  have hpos : 0 < env.launch.gridDim.volume :=
    Nat.mul_pos (Nat.mul_pos hchecked.gridPos.1 hchecked.gridPos.2.1) hchecked.gridPos.2.2
  exact ⟨_, List.mem_of_getElem? (ctaItems_getElem?.mpr ⟨hpos, rfl⟩)⟩

/-- Nothing waits to be counted once the workers have ended. -/
theorem Tracked.steps_ended {es : List DriverEvent} {s : DriverState}
    (h : Tracked env mem es ms s c) (hended : s.Ended) :
    s.steps = BitVec.ofNat 64 (issued ms)
      ∧ ∀ k < issued ms, (BitVec.ofNat 64 k).toNat < env.cfg.maxSteps := by
  obtain ⟨n, hn, htotal, hbelow⟩ := h.steps
  have hnone : ∑ smId ∈ env.workers, (s.worker smId).pending = 0 :=
    Finset.sum_eq_zero fun smId _ => by rw [hended smId]; rfl
  rw [hnone, Nat.add_zero] at htotal
  rw [← htotal]
  exact ⟨hn, hbelow⟩

/-- A warp has local memory in its footprint only if it accesses it, and stores there only if it
may. -/
structure Traces (accs : List (WarpId × Access)) (F : Footprint WarpId Cell) : Prop where
  touched : ∀ {i a}, Cell.localMem a ∈ F.touched i → UsesLocal accs (fun _ => True) i
  written : ∀ {i a}, Cell.localMem a ∈ F.written i → UsesLocal accs (fun acc => acc.stores = true) i

theorem CompleteRun.reaches {log : List (DriverEvent × List (WarpId × Access))} {s : DriverState}
    (hplan : checkLaunch env.cfg env.kernel env.launch = .ok env.plan)
    (hlocal : env.plan.threadsPerBlock ≤ 2 ^ 32 ∨ NoLocal (runAccesses log))
    (htotal : env.launch.gridDim.volume * env.plan.threadsPerBlock < 2 ^ 52)
    (hrun : CompleteRun env mem log s) (hfree : ConflictFree (runAccesses log)) :
    ∃ F ms d, Reaches env mem F ms d ∧ Traces (runAccesses log) F
      ∧ Tracked env mem (runEvents log) ms s d := by
  have hchecked := checkLaunch_ok hplan
  obtain ⟨horderly, ms, d, htracked, horder⟩ :=
    quiet_run hchecked hlocal htotal hfree hrun.run fun _ hx => hx
  have hdone : ∀ i, (d.threads i).done = true := by
    intro i
    by_cases hlaunched : env.Launched i
    · obtain ⟨smId, cta, hleft, hitem, hall⟩ := hrun.done i.1 hlaunched.1
      have hwarp := (htracked.left smId cta hleft).warp i.2 hlaunched.2
      rw [hitem] at hwarp
      exact hall _ (List.mem_of_getElem? hwarp)
    · exact idle_thread (horder.mono fun _ _ _ h => h.1) hlaunched
  obtain ⟨item, hitem⟩ := ctaItems_nonempty hchecked
  obtain ⟨smId, cta, hleft, -, -⟩ := hrun.done item hitem
  have hat := htracked.left smId cta hleft
  have hquiet : s.Quiet env := by
    obtain ⟨hrun, hended, -⟩ := hrun
    cases hrun with
    | start =>
        have hstart : (env.start mem).worker 0 = .top := if_pos (checkLaunch_smCount hplan)
        rw [hended 0] at hstart
        cases hstart
    | next hprev hlast => exact hlast.after
  obtain ⟨hsteps, hbelow⟩ := htracked.steps_ended hrun.ended
  refine ⟨_, ms, d,
    ⟨⟨horder, fun i bytes => machine_done (hdone i) bytes⟩, hdone, fun n hn => ?_, ?_,
    hat.count⟩, ⟨usesLocal_of_mem, usesLocal_of_mem⟩, htracked⟩
  · rcases Nat.lt_or_eq_of_le hn with hlt | rfl
    · exact hbelow n hlt
    · rw [← hsteps]
      exact Nat.lt_of_not_ge (of_decide_eq_false hquiet.2)
  · rw [hat.analysed, hat.reconvPc_eq]

end Complete

/-! ### The same launch -/

section Same

variable {env env' : DriverEnv} {mem : MemState}

theorem checkLaunch_warpSize {cfg : SimConfig} {kernel : KernelImage} {launch : LaunchConfig}
    {plan : LaunchPlan} (h : checkLaunch cfg kernel launch = .ok plan) :
    plan.warpSize = if launch.warpSize = 0 then cfg.warpSize else launch.warpSize := by
  unfold checkLaunch at h
  dsimp only at h
  split_ifs at h
  all_goals
    obtain rfl := Except.ok.inj h
    simp [*]

/-- What the two launches have in common. -/
structure DriverEnv.SamePlan (env env' : DriverEnv) : Prop where
  warpSize : env'.plan.warpSize = env.plan.warpSize
  threadsPerBlock : env'.plan.threadsPerBlock = env.plan.threadsPerBlock
  warpCount : env'.plan.warpCount = env.plan.warpCount

theorem DriverEnv.SameLaunch.plan (h : env.SameLaunch env')
    (hplan : checkLaunch env.cfg env.kernel env.launch = .ok env.plan)
    (hplan' : checkLaunch env'.cfg env'.kernel env'.launch = .ok env'.plan) :
    env.SamePlan env' := by
  have hchecked := checkLaunch_ok hplan
  have hchecked' := checkLaunch_ok hplan'
  have hsize : env'.plan.warpSize = env.plan.warpSize := by
    rw [checkLaunch_warpSize hplan, checkLaunch_warpSize hplan', h.launch, h.warpSize]
  have hthreads : env'.plan.threadsPerBlock = env.plan.threadsPerBlock := by
    rw [hchecked.threadsPerBlock, hchecked'.threadsPerBlock, h.launch]
  refine ⟨hsize, hthreads, ?_⟩
  rw [hchecked.warpCount, hchecked'.warpCount, hsize, hthreads]

theorem DriverEnv.SameLaunch.reconvPc (h : env.SameLaunch env') (hplan : env.SamePlan env') :
    env'.reconvPc = env.reconvPc := by
  unfold DriverEnv.reconvPc
  rw [h.kernel, h.registry, hplan.warpSize]

theorem DriverEnv.SameLaunch.machine (h : env.SameLaunch env') (hplan : env.SamePlan env') :
    env'.machine mem = env.machine mem := by
  unfold DriverEnv.machine DriverEnv.warpContext
  rw [h.kernel, h.registry, h.floatOps, hplan.warpSize, h.reconvPc hplan]

theorem DriverEnv.SameLaunch.startConfig (h : env.SameLaunch env') (hplan : env.SamePlan env') :
    env'.startConfig mem = env.startConfig mem := by
  have hwarp : ∀ item w, env'.initWarp item w = env.initWarp item w := by
    intro item w
    unfold DriverEnv.initWarp ProtoGpu.initWarp
    rw [h.kernel, h.launch, hplan.warpSize, hplan.threadsPerBlock]
  have hfresh : env'.fresh = env.fresh := by
    funext i
    unfold DriverEnv.fresh
    rw [h.launch, hplan.warpCount, hwarp]
  unfold DriverEnv.startConfig
  rw [hfresh]

theorem Reaches.sameLaunch {F : Footprint WarpId Cell} {ms : List (WarpId × StepOutcome)}
    {d : Config WarpId WarpState Cell (Option Byte)} (hreaches : Reaches env mem F ms d)
    (h : env.SameLaunch env') (hplan : env.SamePlan env') : Reaches env' mem F ms d where
  complete := by
    rw [h.machine hplan, h.startConfig hplan]
    exact hreaches.complete
  done := hreaches.done
  below := by
    rw [h.maxSteps]
    exact hreaches.below
  analysed := by
    rw [h.kernel, h.registry, hplan.warpSize, h.reconvPc hplan]
    exact hreaches.analysed
  count := by
    rw [hplan.warpCount]
    exact hreaches.count

end Same

/-! ### Every run is part of the complete order -/

section Runs

variable {env : DriverEnv} {mem : MemState} {F : Footprint WarpId Cell} {smId : SmId}
  {es : List DriverEvent} {ms ms' : List (WarpId × StepOutcome)} {s t : DriverState}
  {e : DriverEvent} {c d : Config WarpId WarpState Cell (Option Byte)} {i : WarpId}

theorem Reaches.issued_le (h : Reaches env mem F ms d)
    (hrun : Run (Step (env.machine mem)) (env.startConfig mem) ms' c) : issued ms' ≤ issued ms :=
  (h.complete.subperm hrun).countP_le _

theorem Reaches.limit (h : Reaches env mem F ms d) (htracked : Tracked env mem es ms' s c)
    (hrun : Run (Step (env.machine mem)) (env.startConfig mem) ms' c) :
    s.limitReached env = false := by
  obtain ⟨n, hn, htotal, -⟩ := htracked.steps
  have hle := h.issued_le hrun
  have hbelow := h.below n (by omega)
  rw [DriverState.limitReached, hn]
  exact decide_eq_false (Nat.not_le_of_lt hbelow)

/-- A warp that is not done can step. -/
theorem Reaches.warp_steps (h : Reaches env mem F ms d)
    (hrun : Run (Step (env.machine mem)) (env.startConfig mem) ms' c)
    (hlive : (c.threads i).done = false) :
    ∃ r, (env.machine mem).step (c.threads i) c.store = some r := by
  rcases (h.complete.turn (h.complete.follows hrun) i).2 with ⟨r, hstep, -⟩ | ⟨hsame, -⟩
  · exact ⟨r, hstep⟩
  · rw [hsame, h.done] at hlive
    cases hlive

/-- A worker outside of `acquire` that has not ended can go on, without a diagnostic. -/
theorem Reaches.work (h : Reaches env mem F ms d) (horderly : Orderly env es s)
    (htracked : Tracked env mem es ms' s c)
    (hrun : Run (Step (env.machine mem)) (env.startConfig mem) ms' c)
    (hended : s.worker smId ≠ .ended) (hacquiring : s.worker smId ≠ .acquiring) :
    ∃ e t, workerStep env smId s = some (e, t) ∧ t.diag = none := by
  have hdiag := horderly.diag
  rw [workerStep]
  cases hphase : s.worker smId with
  | top =>
      dsimp only
      split
      · exact ⟨_, _, rfl, hdiag⟩
      · exact ⟨_, _, rfl, hdiag⟩
  | leaving => exact ⟨_, _, rfl, hdiag⟩
  | acquiring => exact absurd hphase hacquiring
  | received item =>
      have hwarps : env.initWarps item = some _ := initWarps_ok item h.count
      dsimp only
      rw [hwarps, h.analysed]
      exact ⟨_, _, rfl, hdiag⟩
  | looping cta =>
      dsimp only
      split
      · exact ⟨_, _, rfl, hdiag⟩
      · exact ⟨_, _, rfl, hdiag⟩
  | stopTest cta =>
      dsimp only
      split
      · exact ⟨_, _, rfl, hdiag⟩
      · exact ⟨_, _, rfl, hdiag⟩
  | picking cta =>
      dsimp only
      split
      · exact ⟨_, _, rfl, hdiag⟩
      · exact ⟨_, _, rfl, hdiag⟩
  | stepping cta w =>
      obtain ⟨hlt, hlive⟩ := (horderly.good smId).live cta w hphase
      have hat := htracked.held smId cta (by rw [hphase]; rfl)
      have hwarp := hat.warp w hlt
      rw [CtaRun.isWarpDone, hwarp] at hlive
      obtain ⟨⟨outcome, warp', bytes⟩, hmove⟩ := h.warp_steps hrun hlive
      obtain ⟨-, hstep⟩ := warpMove_iff.mp hmove
      rw [← htracked.mem, ← hat.reconvPc_eq] at hstep
      dsimp only
      rw [hwarp]
      dsimp only
      rw [hstep]
      cases outcome with
      | retired => exact ⟨_, _, rfl, hdiag⟩
      | issued issue => exact ⟨_, _, rfl, hdiag⟩
  | retired cta =>
      dsimp only
      exact ⟨_, _, rfl, hdiag⟩
  | counting cta => exact ⟨_, _, rfl, hdiag⟩
  | stopping => exact ⟨_, _, rfl, hdiag⟩
  | returned => exact ⟨_, _, rfl, hdiag⟩
  | ended => exact absurd hphase hended

theorem Reaches.diag_none (h : Reaches env mem F ms d) (horderly : Orderly env es s)
    (htracked : Tracked env mem es ms' s c)
    (hrun : Run (Step (env.machine mem)) (env.startConfig mem) ms' c)
    (hstep : DriverStep env s e t) : t.diag = none := by
  cases hstep with
  | work smId hstep =>
      obtain ⟨phase', hmove⟩ := workerStep_moves hstep
      obtain ⟨e', t', hstep', hdiag⟩ :=
        h.work horderly htracked hrun hmove.not_ended hmove.not_acquiring
      obtain ⟨rfl, rfl⟩ := Prod.mk.inj (Option.some.inj (hstep.symm.trans hstep'))
      exact hdiag
  | acquire => exact horderly.diag

/-- Every run is orderly, an order of warp steps, and no longer than these and the CTAs allow. -/
theorem Reaches.tracked (h : Reaches env mem F ms d)
    (hrun : Run (DriverStep env) (env.start mem) es s) :
    Orderly env es s ∧ ∃ ms' c, Tracked env mem es ms' s c
      ∧ Run (Step (env.machine mem)) (env.startConfig mem) ms' c
      ∧ es.length + env.potential s ≤ env.potential (env.start mem) + 5 * ms'.length
          + 12 * (acquiredItems (ctaEvents env es)).length := by
  induction hrun with
  | start => exact ⟨.start mem, [], _, .start mem, .start, by simp⟩
  | @next es s e t hprev hstep ih =>
      obtain ⟨horderly, ms', c, htracked, horder, hlength⟩ := ih
      obtain ⟨horderly', c', ms'', hadvance, htracked', hpotential⟩ :=
        htracked.step horderly hstep (h.diag_none horderly htracked horder hstep)
          (h.limit htracked horder)
      refine ⟨horderly', ms'', c', htracked', ?_, ?_⟩
      · cases hadvance with
        | stay => exact horder
        | warp haccesses hmove => exact horder.next hmove
      · rw [List.length_append, List.length_singleton]
        omega

theorem Reaches.bounded (h : Reaches env mem F ms d)
    (hrun : Run (DriverStep env) (env.start mem) es s) :
    es.length ≤ env.potential (env.start mem) + 5 * ms.length
      + 12 * (ctaItems env.launch.gridDim).length := by
  obtain ⟨horderly, ms', c, -, horder, hlength⟩ := h.tracked hrun
  have hsteps := (h.complete.subperm horder).length_le
  have hitems := (acquiredItems_subperm horderly.run horderly.submits).length_le
  omega

theorem Reaches.goesOn (h : Reaches env mem F ms d)
    (hrun : Run (DriverStep env) (env.start mem) es s) : s.Ended ∨ ∃ e t, DriverStep env s e t := by
  obtain ⟨horderly, ms', c, htracked, horder, -⟩ := h.tracked hrun
  by_cases hended : s.Ended
  · exact .inl hended
  · unfold DriverState.Ended at hended
    push Not at hended
    obtain ⟨smId, hlive⟩ := hended
    refine .inr ?_
    by_cases hacquiring : s.worker smId = .acquiring
    · exact horderly.admitting.acquire_steps hacquiring
    · obtain ⟨e, t, hstep, -⟩ := h.work horderly htracked horder hlive hacquiring
      exact ⟨e, t, .work smId hstep⟩

/-- A worker at an access of local memory is inside the footprint of its warp. -/
theorem Reaches.atLocal (h : Reaches env mem F ms d) (hws : env.plan.warpSize ≤ 32)
    (hrun : Run (DriverStep env) (env.start mem) es s) {how : Access → Prop}
    (hat : s.AtLocal env smId how) :
    ∃ cta w acc a, s.worker smId = .stepping cta w ∧ how acc
      ∧ .localMem a ∈ F.touched (cta.item, w)
      ∧ (acc.stores = true → .localMem a ∈ F.written (cta.item, w)) := by
  obtain ⟨cta, w, warp, acc, a, hphase, hwarp, hacc, hfirst, hhow⟩ := hat.stepping
  obtain ⟨horderly, ms', c, htracked, horder, -⟩ := h.tracked hrun
  obtain ⟨hlt, hlive⟩ := (horderly.good smId).live cta w hphase
  have hat := htracked.held smId cta (by rw [hphase]; rfl)
  have hthread := hat.warp w hlt
  rw [CtaRun.isWarpDone, hthread] at hlive
  obtain rfl := Option.some.inj (hthread.symm.trans hwarp)
  rw [hat.reconvPc_eq, htracked.mem] at hacc
  have hcell : Cell.localMem a ∈ acc.cells := by
    have hself : InRange a acc.size a := by
      rw [InRange, BitVec.sub_self]
      exact warpAccesses_size_pos hws hacc
    change acc.first.InRange acc.size (.localMem a)
    rw [hfirst]
    exact hself
  rcases (h.complete.turn (h.complete.follows horder) (cta.item, w)).2
    with ⟨-, -, htouches, hwrites⟩ | ⟨hsame, -⟩
  · exact ⟨cta, w, acc, a, hphase, hhow, htouches ⟨acc, hacc, hcell⟩,
      fun hstores => hwrites ⟨acc, hacc, hstores, hcell⟩⟩
  · rw [hsame] at hlive
    exact absurd (h.done (cta.item, w)) (Bool.eq_false_iff.mp hlive)

/-- The workers hold different CTAs, so they race only where two CTAs use local memory. -/
theorem Reaches.raceFree (h : Reaches env mem F ms d) (hws : env.plan.warpSize ≤ 32)
    {accs : List (WarpId × Access)} (htraces : Traces accs F) (hapart : LocalApart accs) :
    env.RaceFree mem := by
  rintro es s hrun ⟨i, j, hne, hi, hj⟩
  obtain ⟨cta, w, acc, a, hphase, hstores, -, hwritten⟩ := h.atLocal hws hrun hi
  obtain ⟨cta', w', -, b, hphase', -, htouched, -⟩ := h.atLocal hws hrun hj
  obtain ⟨horderly, -⟩ := h.tracked hrun
  have hitems : cta.item ≠ cta'.item := fun hsame =>
    hne (horderly.owner_unique (by rw [hphase]; rfl) (by rw [hphase', hsame]; rfl))
  obtain ⟨acc₁, a₁, hmem₁, hstores₁, hfirst₁⟩ := htraces.written (hwritten hstores)
  obtain ⟨acc₂, a₂, hmem₂, -, hfirst₂⟩ := htraces.touched htouched
  exact hapart hmem₁ hmem₂ hitems hstores₁ hfirst₁ hfirst₂

/-- A CTA is left when all its warps are done. -/
theorem Reaches.left_done (h : Reaches env mem F ms d)
    (hkind : env.plan.warpSched = .inOrderRunToCompletion ∨ env.plan.warpCount ≤ 2 ^ 31)
    (hrun : Run (DriverStep env) (env.start mem) es s) {cta : CtaRun}
    (hleft : .left smId cta ∈ es) : ∀ warp ∈ cta.warps, warp.done = true := by
  induction hrun with
  | start => cases hleft
  | @next es s e t hprev hstep ih =>
      rcases List.mem_append.mp hleft with hold | hnew
      · exact ih hold
      · obtain rfl := List.mem_singleton.mp hnew
        obtain ⟨horderly, -⟩ := h.tracked hprev
        cases hstep with
        | work j hstep =>
            obtain ⟨phase', hmove⟩ := workerStep_moves hstep
            have hgood := horderly.good j
            generalize s.worker j = phase at hmove hgood
            cases hmove with
            | stopSeen hstop => exact absurd (.inl hstop) horderly.running
            | @noWarp before _ hpick =>
                obtain rfl : (before.pickNext env.plan.warpCount).2 = cta := congrArg Prod.snd hpick
                exact (hgood.run before rfl).finished_of_noWarp hkind hpick

/-- Once the workers have ended, every CTA has been left. -/
theorem Orderly.all_left (horderly : Orderly env es s) (hcount : 1 ≤ env.plan.smCount)
    (hended : s.Ended) {item : CtaWorkItem} (hitem : item ∈ ctaItems env.launch.gridDim) :
    ∃ smId cta, .left smId cta ∈ es ∧ cta.item = item := by
  have hinv := ctaInv_run horderly.run
  have hsubmitted : submitted (ctaEvents env es) = ctaItems env.launch.gridDim :=
    submitted_ctaEvents horderly.submits
  -- the worker of the item's deque was turned away
  obtain ⟨smId, hlt, hqueue⟩ := exists_worker env.plan.ctaSched hcount item
  have hret := horderly.ended smId hlt (hended smId)
  have hfirst : SubmitsFirst (ctaEvents env es) :=
    submitsFirst_of_close (by simp) horderly.submits
  have hnostop : s.cta.sched.stop = false :=
    Bool.eq_false_iff.mpr fun hstop => horderly.running (.inl hstop)
  have hempty := (hinv.turnedAway smId hret hfirst hnostop).2
  rw [DriverEnv.policy, hqueue] at hempty
  have hacquired : 0 < (acquiredItems (ctaEvents env es)).count item := by
    rw [hinv.count_eq hempty, hsubmitted]
    exact List.count_pos_iff.mpr hitem
  refine (horderly.accounted item (List.count_pos_iff.mp hacquired)).resolve_left ?_
  rintro ⟨j, hj⟩
  rw [hended j] at hj
  cases hj

/-- **Every run comes to the same end.** -/
theorem Reaches.confluent (h : Reaches env mem F ms d) (hcount : 1 ≤ env.plan.smCount)
    (hkind : env.plan.warpSched = .inOrderRunToCompletion ∨ env.plan.warpCount ≤ 2 ^ 31)
    (hrun : Run (DriverStep env) (env.start mem) es s) (hended : s.Ended) :
    s.mem = mem.withBytes d.store ∧ s.steps = BitVec.ofNat 64 (issued ms) := by
  obtain ⟨horderly, ms', c, htracked, horder, -⟩ := h.tracked hrun
  have hdone : ∀ i, (c.threads i).done = true := by
    intro i
    by_cases hlaunched : env.Launched i
    · obtain ⟨smId, cta, hleft, hitem⟩ := horderly.all_left hcount hended hlaunched.1
      have hwarp := (htracked.left smId cta hleft).warp i.2 hlaunched.2
      rw [hitem] at hwarp
      exact h.left_done hkind hrun hleft _ (List.mem_of_getElem? hwarp)
    · exact idle_thread horder hlaunched
  obtain ⟨rfl, hperm⟩ := h.complete.confluent horder fun i => machine_done (hdone i) _
  refine ⟨htracked.mem, ?_⟩
  rw [(htracked.steps_ended hended).1, issued, hperm.countP_eq]
  rfl

/-- A warp that is done is where the complete order leaves it. -/
theorem Reaches.thread_eq (h : Reaches env mem F ms d)
    (hrun : Run (Step (env.machine mem)) (env.startConfig mem) ms' c)
    (hdone : (c.threads i).done = true) : c.threads i = d.threads i := by
  rcases (h.complete.turn (h.complete.follows hrun) i).2 with ⟨r, hstep, -⟩ | ⟨hsame, -⟩
  · rw [machine_done hdone] at hstep
    cases hstep
  · exact hsame

end Runs

/-- Two copies of a CTA agree when they are where equal threads are. -/
theorem CtaRun.At.warps_eq {env env' : DriverEnv} {c d : Config WarpId WarpState Cell (Option Byte)}
    {cta cta₀ : CtaRun} (hat : cta.At env c) (hat₀ : cta₀.At env' d) (hitem : cta₀.item = cta.item)
    (hcount : env.plan.warpCount = env'.plan.warpCount)
    (hsame : ∀ w : BitVec 32, w.toNat < env.plan.warpCount →
      c.threads (cta.item, w) = d.threads (cta.item, w)) : cta.warps = cta₀.warps := by
  refine List.ext_getElem? fun n => ?_
  by_cases hn : n < env.plan.warpCount
  · have hw : (BitVec.ofNat 32 n).toNat = n := by
      rw [BitVec.toNat_ofNat]
      exact Nat.mod_eq_of_lt (hn.trans hat.count)
    have hlt : (BitVec.ofNat 32 n).toNat < env.plan.warpCount := hw.symm ▸ hn
    have hwarp := hat.warp _ hlt
    have hwarp₀ := hat₀.warp _ (hcount ▸ hlt)
    rw [hw] at hwarp hwarp₀
    rw [hwarp, hwarp₀, hitem, hsame _ hlt]
  · rw [List.getElem?_eq_none (by rw [hat.length]; omega),
      List.getElem?_eq_none (by rw [hat₀.length]; omega)]

/-! ### Schedule independence -/

section Independence

variable {env env' : DriverEnv} {mem : MemState} {F : Footprint WarpId Cell} {es : List DriverEvent}
  {ms : List (WarpId × StepOutcome)} {s : DriverState}
  {d : Config WarpId WarpState Cell (Option Byte)}

theorem Reaches.everyOrder (h : Reaches env mem F ms d) (htracked : Tracked env mem es ms s d)
    (hended : s.Ended) : EveryOrder env mem es s where
  bounded := ⟨ms.length, fun _ _ hrun => (h.complete.subperm hrun).length_le⟩
  goesOn _ c hrun i := by
    cases hdone : (c.threads i).done with
    | true => exact .inl rfl
    | false =>
        obtain ⟨⟨outcome, w, bytes⟩, hstep⟩ := h.warp_steps hrun hdone
        exact .inr ⟨outcome, _, .mk i hstep⟩
  below _ _ hrun := h.below _ (h.issued_le hrun)
  ends _ c hrun hdone := by
    obtain ⟨rfl, hperm⟩ := h.complete.confluent hrun fun i => machine_done (hdone i) _
    refine ⟨htracked.mem, ?_, htracked.left⟩
    rw [(htracked.steps_ended hended).1, issued, issued, hperm.countP_eq]

theorem Reaches.sameOutcome (h : Reaches env' mem F ms d) (htracked : Tracked env mem es ms s d)
    (hended : s.Ended) (hplan : env.SamePlan env') (hcount : 1 ≤ env'.plan.smCount)
    (hkind : env'.plan.warpSched = .inOrderRunToCompletion ∨ env'.plan.warpCount ≤ 2 ^ 31) :
    SameOutcome env' mem es s where
  bounded := ⟨_, fun _ _ hrun => h.bounded hrun⟩
  quiet _ _ hrun := by
    obtain ⟨horderly, ms', c, htracked', horder, -⟩ := h.tracked hrun
    exact ⟨horderly.diag, h.limit htracked' horder⟩
  goesOn _ _ hrun := h.goesOn hrun
  memory _ _ hrun hended' := (h.confluent hcount hkind hrun hended').1.trans htracked.mem.symm
  steps _ _ hrun hended' :=
    (h.confluent hcount hkind hrun hended').2.trans (htracked.steps_ended hended).1.symm
  done _ _ hrun hended' _ hitem := (h.tracked hrun).1.all_left hcount hended' hitem
  warps _ _ hrun smId cta hleft := by
    have hdone := h.left_done hkind hrun hleft
    refine ⟨hdone, fun smId₀ cta₀ hleft₀ hitem => ?_⟩
    obtain ⟨-, ms', c, htracked', horder, -⟩ := h.tracked hrun
    have hat := htracked'.left smId cta hleft
    refine hat.warps_eq (htracked.left smId₀ cta₀ hleft₀) hitem hplan.warpCount fun w hw => ?_
    exact h.thread_eq horder (hdone _ (List.mem_of_getElem? (hat.warp w hw)))

/-- **Schedule independence.** What one quiet run without conflicts came to, every order of the warp
steps comes to, and every run of the workers under any schedulers whose warp scheduler picks in
order or has `2 ^ 31` warps at most; and none of these runs has a race. -/
theorem schedule_independent {log : List (DriverEvent × List (WarpId × Access))}
    (hplan : checkLaunch env.cfg env.kernel env.launch = .ok env.plan)
    (hplan' : checkLaunch env'.cfg env'.kernel env'.launch = .ok env'.plan)
    (hsame : env.SameLaunch env')
    (htotal : env.launch.gridDim.volume * env.plan.threadsPerBlock < 2 ^ 52)
    (hlocal : env.plan.threadsPerBlock ≤ 2 ^ 32 ∨ NoLocal (runAccesses log))
    (hraces : LocalApart (runAccesses log) ∨ env.plan.smCount = 1 ∧ env'.plan.smCount = 1)
    (hkind : env'.plan.warpSched = .inOrderRunToCompletion ∨ env'.plan.warpCount ≤ 2 ^ 31)
    (hrun : CompleteRun env mem log s) (hfree : ConflictFree (runAccesses log)) :
    ScheduleIndependent env env' mem (runEvents log) s ∧ env.RaceFree mem ∧ env'.RaceFree mem := by
  obtain ⟨F, ms, d, hreaches, htraces, htracked⟩ := hrun.reaches hplan hlocal htotal hfree
  have hboth := hsame.plan hplan hplan'
  have hreaches' := hreaches.sameLaunch hsame hboth
  have hws := (checkLaunch_ok hplan).warpSizeLe
  refine ⟨⟨hreaches'.sameOutcome htracked hrun.ended hboth (checkLaunch_smCount hplan') hkind,
    hreaches.everyOrder htracked hrun.ended⟩, ?_⟩
  rcases hraces with hapart | ⟨hone, hone'⟩
  · exact ⟨hreaches.raceFree hws htraces hapart,
      hreaches'.raceFree (hboth.warpSize.le.trans hws) htraces hapart⟩
  · exact ⟨raceFree_of_one_worker hone.le, raceFree_of_one_worker hone'.le⟩

end Independence

/-! ### What is checked of a log -/

section Checks

variable {accs : List (WarpId × Access)} {acc acc' : Access}

/-- No byte of the first access in global memory is one of the second. -/
def Access.clearOf (acc acc' : Access) : Bool :=
  match acc.first, acc'.first with
  | .global start, .global start' =>
      (List.range acc.size).all fun k =>
        decide (acc'.size ≤ (start + BitVec.ofNat 64 k - start').toNat)
  | _, _ => true

def Access.inWindow (acc : Access) : Bool :=
  match acc.first with
  | .global _ => true
  | .localMem _ => decide (acc.addr.toNat + acc.size ≤ 4096)

def Access.isLocal (acc : Access) : Bool :=
  match acc.first with
  | .global _ => false
  | .localMem _ => true

theorem not_mem_of_clearOf (h : acc.clearOf acc' = true) {a : Addr}
    (ha : Cell.global a ∈ acc.cells) : Cell.global a ∉ acc'.cells := by
  intro ha'
  change acc.first.InRange acc.size (.global a) at ha
  change acc'.first.InRange acc'.size (.global a) at ha'
  unfold Access.clearOf at h
  cases hfirst : acc.first with
  | localMem start =>
      rw [hfirst] at ha
      cases ha
  | global start =>
      cases hfirst' : acc'.first with
      | localMem start' =>
          rw [hfirst'] at ha'
          cases ha'
      | global start' =>
          rw [hfirst] at ha h
          rw [hfirst'] at ha' h
          have hk := List.all_eq_true.mp h (a - start).toNat (List.mem_range.mpr ha)
          rw [decide_eq_true_eq, BitVec.ofNat_toNat, BitVec.setWidth_eq, BitVec.add_comm,
            BitVec.sub_add_cancel] at hk
          exact Nat.not_lt_of_le hk ha'

theorem conflictFree_of_checks
    (happart : ∀ x ∈ accs, ∀ y ∈ accs, x.1 ≠ y.1 → x.2.stores = true → x.2.clearOf y.2 = true)
    (hwindow : ∀ x ∈ accs, x.2.inWindow = true) : ConflictFree accs where
  apart := fun hx hy hne hstores _ ha => not_mem_of_clearOf (happart _ hx _ hy hne hstores) ha
  window := by
    intro i acc a hx hfirst
    have hin := hwindow _ hx
    unfold Access.inWindow at hin
    dsimp only at hin
    rw [hfirst] at hin
    exact of_decide_eq_true hin

theorem localApart_of_checks
    (happart : ∀ x ∈ accs, ∀ y ∈ accs, x.1.1 ≠ y.1.1 → x.2.stores = true → x.2.isLocal = true →
      y.2.isLocal = false) : LocalApart accs := by
  intro i j acc acc' a b hx hy hne hstores hfirst hfirst'
  have hother := happart _ hx _ hy hne hstores
  unfold Access.isLocal at hother
  dsimp only at hother
  rw [hfirst, hfirst'] at hother
  cases hother rfl

end Checks

/-- A CTA that is left with all its warps done. -/
def DriverEvent.leavesDone (item : CtaWorkItem) : DriverEvent → Bool
  | .left _ cta => decide (cta.item = item) && cta.warps.all fun warp => warp.done
  | _ => false

theorem left_of_leavesDone {item : CtaWorkItem} {es : List DriverEvent}
    (h : es.any (DriverEvent.leavesDone item) = true) :
    ∃ smId cta, .left smId cta ∈ es ∧ cta.item = item ∧ ∀ warp ∈ cta.warps, warp.done = true := by
  obtain ⟨e, hmem, hleaves⟩ := List.any_eq_true.mp h
  cases e with
  | left smId cta =>
      obtain ⟨hitem, hdone⟩ := Bool.and_eq_true_iff.mp hleaves
      exact ⟨smId, cta, hmem, of_decide_eq_true hitem, List.all_eq_true.mp hdone⟩
  | _ => cases hleaves

/-! ### Two CTAs of two warps -/

/-- `mov.u32 %rN, %special`. -/
def movSpecial (regId : Int) (special : String) : InstRecord where
  opcode := "mov"
  mods := { typeMod := "u32" }
  operands := [.reg regId, { kind := .special, special := special }]

/-- The instruction under `@%p0`. -/
def InstRecord.guarded (inst : InstRecord) : InstRecord :=
  { inst with pred := some { predId := 0 } }

/-- `st.u32` of `%rN` to the address `offset`, past `%rdM` when that is a register. -/
def stU32 (space : String) (base offset regId : Int) : InstRecord where
  opcode := "st"
  mods := { typeMod := "u32", space := space }
  operands := [{ kind := .addr, regId := base, immI64 := offset }, .reg regId]

/-- Each thread of the first CTA puts together the offset `4 * tid` in local memory and stores it
there in global memory:

`mov.u32 %r0, %tid.x; mul.u32 %r0, %r0, 4; mov.u32 %r1, %ctaid.x; setp.lt.u32 %p0, %r1, 1;`
`@%p0 st.local.u32 [0], %r0; @%p0 st.local.u32 [4], %r1; @%p0 ld.local.u64 %rd0, [0];`
`@%p0 st.global.u32 [%rd0+4096], %r0; ret`. -/
def shareKernel : KernelImage where
  regU32Count := 2
  regU64Count := 1
  insts :=
    [ movSpecial 0 "tid.x",
      { opcode := "mul", mods := { typeMod := "u32" }, operands := [.reg 0, .reg 0, .imm 4] },
      movSpecial 1 "ctaid.x", setpLt 0 1 1, (stU32 "local" (-1) 0 0).guarded,
      (stU32 "local" (-1) 4 1).guarded,
      { opcode := "ld", mods := { typeMod := "u64", space := "local" }, pred := some { predId := 0 }
        operands := [{ kind := .reg, type := .u64, regId := 0 }, { kind := .addr }] },
      (stU32 "global" 0 4096 0).guarded, retInst ]

/-- One worker, one warp after the other. -/
def inOrderEnv : DriverEnv where
  cfg := { maxSteps := 100, warpSize := 2 }
  plan :=
    { threadsPerBlock := 4
      warpSize := 2
      warpCount := 2
      smCount := 1
      ctaSched := .fifo
      warpSched := .inOrderRunToCompletion }
  kernel := shareKernel
  launch := { gridDim := { x := 2 }, blockDim := { x := 4 }, warpSize := 2 }
  registry := demoDescs
  floatOps := .unused

/-- Two workers in parallel, the warps of each CTA in turn. -/
def interleavedEnv : DriverEnv :=
  { inOrderEnv with
    cfg :=
      { inOrderEnv.cfg with
        smCount := 2
        parallel := true
        ctaScheduler := "sm_round_robin"
        warpScheduler := "round_robin_interleave_step" }
    plan :=
      { inOrderEnv.plan with
        smCount := 2
        ctaSched := .smRoundRobin
        warpSched := .roundRobinInterleaveStep } }

/-- Sixteen bytes of global memory, at `0x1000`. -/
def shareMem : MemState where
  mgr := (({} : AddrSpaceManager).allocGlobal 16 4).2

def inOrderTurns : List (DriverEvent × List (WarpId × Access)) × DriverState :=
  inOrderEnv.quietTurns (List.replicate 225 0) (inOrderEnv.start shareMem)

def interleavedTurns : List DriverEvent × DriverState :=
  interleavedEnv.turns (List.replicate 120 [0, 1]).flatten (interleavedEnv.start shareMem)

theorem inOrderTurns_complete : CompleteRun inOrderEnv shareMem inOrderTurns.1 inOrderTurns.2 := by
  have hrun : Run (QuietStep inOrderEnv) (inOrderEnv.start shareMem) inOrderTurns.1
      inOrderTurns.2 := quietTurns_run (List.replicate 225 0) ⟨rfl, rfl⟩
  refine ⟨hrun, ?_, fun item hitem => left_of_leavesDone ?_⟩
  · refine ended_of_workers (quiet_driver hrun) ?_
    decide +kernel
  · revert item
    decide +kernel

theorem inOrderTurns_free : ConflictFree (runAccesses inOrderTurns.1) := by
  apply conflictFree_of_checks
  · decide +kernel
  · decide +kernel

theorem inOrderTurns_apart : LocalApart (runAccesses inOrderTurns.1) := by
  apply localApart_of_checks
  decide +kernel

theorem interleavedTurns_ended : interleavedTurns.2.Ended := by
  apply ended_of_workers (turns_run interleavedEnv _ _)
  decide +kernel

/-- The interleaved workers end with the memory and the step count of the first run. -/
theorem schedule_independent_interleaved :
    ScheduleIndependent inOrderEnv interleavedEnv shareMem (runEvents inOrderTurns.1) inOrderTurns.2
      ∧ interleavedEnv.RaceFree shareMem ∧ interleavedTurns.2.mem = inOrderTurns.2.mem
      ∧ interleavedTurns.2.steps = inOrderTurns.2.steps := by
  have hplan : checkLaunch inOrderEnv.cfg inOrderEnv.kernel inOrderEnv.launch
      = .ok inOrderEnv.plan := by decide
  have hplan' : checkLaunch interleavedEnv.cfg interleavedEnv.kernel interleavedEnv.launch
      = .ok interleavedEnv.plan := by decide
  obtain ⟨hsame, -, hfree⟩ := schedule_independent hplan hplan' ⟨rfl, rfl, rfl, rfl, rfl, rfl⟩
    (by decide) (.inl (by decide)) (.inl inOrderTurns_apart) (.inr (by decide))
    inOrderTurns_complete inOrderTurns_free
  have hrun := turns_run interleavedEnv (List.replicate 120 [0, 1]).flatten
    (interleavedEnv.start shareMem)
  exact ⟨hsame, hfree, hsame.runs.memory _ _ hrun interleavedTurns_ended,
    hsame.runs.steps _ _ hrun interleavedTurns_ended⟩

/-! ### More than `2 ^ 31` warps -/

/-- A silent run of the one CTA is a complete run without a conflict. -/
theorem complete_of_silent {env : DriverEnv} {mem : MemState} {item : CtaWorkItem}
    {es : List DriverEvent} {s : DriverState} {cta : CtaRun}
    (hrun : Run (SilentStep env) (env.start mem) es s) (hended : s.Ended)
    (hitems : ctaItems env.launch.gridDim = [item]) (hleft : .left 0 cta ∈ es)
    (hitem : cta.item = item) (hdone : ∀ warp ∈ cta.warps, warp.done = true) :
    ∃ log, CompleteRun env mem log s ∧ ConflictFree (runAccesses log) := by
  obtain ⟨hevents, hnone⟩ := silent_log es
  refine ⟨_, ⟨silent_quiet hrun, hended, fun item' hmem => ?_⟩, ?_⟩
  · rw [hitems, List.mem_singleton] at hmem
    rw [hevents]
    exact ⟨0, cta, hleft, hitem.trans hmem.symm, hdone⟩
  · rw [hnone]
    exact ⟨nofun, nofun⟩

/-- `mov.u32 %r0, %warpid`. -/
def movWarpid : InstRecord where
  opcode := "mov"
  mods := { typeMod := "u32" }
  operands := [.reg 0, { kind := .special, special := "warpid" }]

/-- `setp.ne.u32 %p0, %r0, v`. -/
def setpNe (v : Int) : InstRecord where
  opcode := "setp"
  mods := { typeMod := "u32", flags := ["ne"] }
  operands := [.pred 0, .reg 0, .imm v]

/-- `@%p0 ret`. -/
def retIf : InstRecord where
  opcode := "ret"
  pred := some { predId := 0 }

/-- The warp that returns later than the others. -/
def lateId : BitVec 32 := 0x7FFFFFFF

def lateKernel : KernelImage where
  regU32Count := 1
  insts := [movWarpid, setpNe 0x7FFFFFFF, retIf, movWarpid, retInst]

/-- A block of `2 ^ 31 + 1` warps of one thread. -/
def lateEnv (kind : WarpSchedulerKind) : DriverEnv where
  cfg :=
    { warpSize := 1
      maxSteps := 2 ^ 40
      warpScheduler :=
        match kind with
        | .inOrderRunToCompletion => "in_order_run_to_completion"
        | .roundRobinInterleaveStep => "round_robin_interleave_step" }
  plan :=
    { threadsPerBlock := 0x80000001
      warpSize := 1
      warpCount := 0x80000001
      smCount := 1
      ctaSched := .fifo
      warpSched := kind }
  kernel := lateKernel
  launch := { blockDim := { x := 0x80000001 }, warpSize := 1 }
  registry := demoDescs
  floatOps := .unused

section Late

variable {kind : WarpSchedulerKind} {w r : BitVec 32} {p : Byte} {pc : Int} {mem : MemState}
  {reconvPc : List (Option Int)}

/-- A warp before the instruction at `pc`. -/
def lateWarp (w : BitVec 32) (pc : Int) (r : BitVec 32) (p : Byte) : WarpState where
  launch := { blockDim := { x := 0x80000001 }, warpSize := 1 }
  ctaid := { x := 0, y := 0, z := 0 }
  warpid := w
  laneBaseThreadLinear := w
  pc := pc
  active := { width := 1, bitsLo := 1 }
  exited := { width := 1, bitsLo := 0 }
  simtStack := [{ pc := pc, active := { width := 1, bitsLo := 1 }, reconvPc := 5 }]
  rU32 := [r]
  p := p :: List.replicate 7 1

/-- The warp when its thread has returned. -/
def returnedWarp (w : BitVec 32) (pc : Int) (r : BitVec 32) (p : Byte) : WarpState :=
  { lateWarp w pc r p with
    active := { width := 1, bitsLo := 0 }
    exited := { width := 1, bitsLo := 1 }
    simtStack := [{ pc := pc, active := { width := 1, bitsLo := 0 }, reconvPc := 5 }] }

def doneWarp (w : BitVec 32) (pc : Int) (r : BitVec 32) (p : Byte) : WarpState :=
  { returnedWarp w pc r p with done := true, simtStack := [] }

theorem late_init (hw : w.toNat < 0x80000001) :
    (lateEnv kind).initWarp {} w = lateWarp w 0 0 1 := by
  have hbase : w * BitVec.ofNat 32 1 = w := BitVec.mul_one w
  have hlane : 0x80000001 - w.toNat ≥ 1 := Nat.sub_pos_of_lt hw
  unfold DriverEnv.initWarp initWarp lateEnv
  dsimp only
  rw [hbase, if_pos hw, if_pos hlane]
  rfl

theorem late_ready {ctx : WarpContext} (pc : Int) (hpc : pc ≠ 5) :
    normalizeStack ctx (lateWarp w pc r p) = (.ok .ready, lateWarp w pc r p) := by
  simp [normalizeStack, normalizeFrames, lateWarp, SimtFrame.refresh, laneMaskAnd, laneMaskNotWidth,
    laneMaskEmpty, hpc]

theorem late_mov (pc : Int) (hpc : 0 ≤ pc ∧ pc < 5)
    (hinst : lateKernel.insts[pc.toNat]? = some movWarpid) :
    ∃ outcome, WarpTurn ((lateEnv kind).warpContext reconvPc) mem (lateWarp w pc r p) outcome
      (lateWarp w (pc + 1) w p) := by
  have hstep : uopStep ((lateEnv kind).warpContext reconvPc) movWarpid
      (expandOne movWarpid 1 { op := .mov, inOperandIdx := [1], outOperandIdx := [0] })
      { warp := lateWarp w pc r p, mem := mem }
        = (none, { warp := lateWarp w pc w p, mem := mem }) := by
    simp [uopStep, ExecCore.step, expandOne, movWarpid, pickOperands, lateWarp, laneMaskAnd,
      laneMaskAll, execLanes, laneLoop, laneLoopFrom, laneMaskTest, writeLane, unaryValue,
      readOperandLane, orFault, stepOfLoop, writeRegLane, Operand.reg, Operand.regNo, regLaneIndex,
      ValueType.isWide, growAndSet, readSpecialU32]
  exact warpTurn_single rfl (late_ready pc hpc.2.ne) hpc.1 hinst rfl rfl rfl hstep rfl

theorem late_setp :
    ∃ outcome, WarpTurn ((lateEnv kind).warpContext reconvPc) mem (lateWarp w 1 r p) outcome
      (lateWarp w 2 r (if r != lateId then 1 else 0)) := by
  have hstep : uopStep ((lateEnv kind).warpContext reconvPc) (setpNe 0x7FFFFFFF)
      (expandOne (setpNe 0x7FFFFFFF) 1
        { op := .setp, inOperandIdx := [1, 2], outOperandIdx := [0] })
      { warp := lateWarp w 1 r p, mem := mem }
      = (none, { warp := lateWarp w 1 r (if r != lateId then 1 else 0), mem := mem }) := by
    simp [uopStep, ExecCore.step, setpStep, setpNe, expandOne, pickOperands, lateWarp, lateId,
      laneMaskAnd, laneMaskAll, laneLoop, laneLoopFrom, laneMaskTest, readOperandLane, readRegLane,
      stepOfLoop, Operand.reg, Operand.regNo, Operand.pred, Operand.imm, regLaneIndex,
      ValueType.isWide, writePredLane, setpValue, SetpCmp.holds, setpCmp, setpOpCount, hasFlag]
  exact warpTurn_single rfl (late_ready 1 (by decide)) Int.one_nonneg rfl rfl rfl rfl hstep rfl

/-- The one lane goes on where its predicate is clear, and returns where it is set. -/
theorem late_predicate (b : Bool) :
    predicate ((lateEnv kind).warpContext reconvPc) retIf (lateWarp w 2 r (if b then 1 else 0))
        [expandOne retIf 1 { kind := .control, op := .ret }]
      = .ok [{ expandOne retIf 1 { kind := .control, op := .ret } with
          guard := { width := 1, bitsLo := if b then 1 else 0 } }] := by
  cases b with
  | false =>
      simp [predicate, predMask, retIf, lateEnv, DriverEnv.warpContext, lateWarp, laneLoopFrom,
        laneMaskTest, expandOne, laneMaskAnd, laneMaskAll]
  | true =>
      simp [predicate, predMask, retIf, lateEnv, DriverEnv.warpContext, lateWarp, laneLoopFrom,
        laneMaskTest, expandOne, laneMaskAnd, laneMaskAll]

/-- A `ret` under a guard. -/
theorem late_uop {ctx : WarpContext} {inst : InstRecord} {uop : MicroOp}
    (hkind : uop.kind = .control) (hop : uop.op = .ret) {b : Bool}
    (hguard : uop.guard = { width := 1, bitsLo := if b then 1 else 0 }) :
    uopStep ctx inst uop { warp := lateWarp w pc r p, mem := mem }
      = (none, { warp := if b then returnedWarp w pc r p else lateWarp w pc r p, mem := mem }) := by
  have hstep : ∀ s, uopStep ctx inst uop s = (none, ctrlRet uop s) := fun s => by
    rw [uopStep, hkind]
    exact if_pos hop
  rw [hstep]
  cases b with
  | false => simp [ctrlRet, hguard, lateWarp, laneMaskAnd]
  | true =>
      simp [ctrlRet, hguard, lateWarp, returnedWarp, laneMaskAnd, laneMaskNotWidth,
        laneMaskOrSameWidth]

theorem late_stays :
    ∃ outcome, WarpTurn ((lateEnv kind).warpContext reconvPc) mem (lateWarp w 2 r 0) outcome
      (lateWarp w 3 r 0) :=
  warpTurn_single rfl (late_ready 2 (by decide)) (Int.natCast_nonneg 2) rfl rfl
    (late_predicate false) rfl (late_uop (b := false) rfl rfl rfl) rfl

theorem late_returns :
    ∃ outcome, WarpTurn ((lateEnv kind).warpContext reconvPc) mem (lateWarp w 2 r 1) outcome
      (returnedWarp w 3 r 1) :=
  warpTurn_single rfl (late_ready 2 (by decide)) (Int.natCast_nonneg 2) rfl rfl
    (late_predicate true) rfl (late_uop (b := true) rfl rfl rfl) rfl

theorem late_ret :
    ∃ outcome, WarpTurn ((lateEnv kind).warpContext reconvPc) mem (lateWarp w 4 r p) outcome
      (returnedWarp w 5 r p) := by
  have hguard : laneMaskAll 1 = { width := 1, bitsLo := if true then 1 else 0 } := by decide
  exact warpTurn_single rfl (late_ready 4 (by decide)) (Int.natCast_nonneg 4) rfl rfl rfl rfl
    (late_uop (b := true) rfl rfl hguard) rfl

theorem late_retire :
    ∃ outcome, WarpTurn ((lateEnv kind).warpContext reconvPc) mem (returnedWarp w pc r p) outcome
      (doneWarp w pc r p) := by
  have hempty : normalizeStack ((lateEnv kind).warpContext reconvPc) (returnedWarp w pc r p)
      = (.ok .retired, doneWarp w pc r p) := by
    simp [normalizeStack, normalizeFrames, lateWarp, returnedWarp, doneWarp, SimtFrame.refresh,
      laneMaskAnd, laneMaskNotWidth, laneMaskEmpty, lateEnv, DriverEnv.warpContext]
  refine ⟨.retired, rfl, ?_, ?_⟩
  · rw [warpStep, hempty]
  · rw [warpAccesses, hempty]

/-- A warp after so many rounds, the fourth of which retires all the others. -/
def lateStage (round : Nat) (w : BitVec 32) : WarpState :=
  match round with
  | 0 => lateWarp w 0 0 1
  | 1 => lateWarp w 1 w 1
  | 2 => lateWarp w 2 w (if w != lateId then 1 else 0)
  | 3 => if w = lateId then lateWarp w 3 w 0 else returnedWarp w 3 w 1
  | _ => if w = lateId then lateWarp w 4 w 0 else doneWarp w 3 w 1

theorem late_round {round : Nat} (hround : round < 4) (w : BitVec 32) :
    ∃ outcome, WarpTurn ((lateEnv kind).warpContext reconvPc) mem (lateStage round w) outcome
      (lateStage (round + 1) w) := by
  unfold lateStage
  interval_cases round
  · exact late_mov 0 (by decide) rfl
  · exact late_setp
  · by_cases hw : w = lateId
    · rw [hw, bne_self_eq_false]
      exact late_stays
    · rw [if_neg hw, bne_iff_ne.mpr hw]
      exact late_returns
  · by_cases hw : w = lateId
    · rw [if_pos hw, if_pos hw]
      exact late_mov 3 (by decide) rfl
    · rw [if_neg hw, if_neg hw]
      exact late_retire

/-- The end of each warp. -/
def lateEnd (w : BitVec 32) : WarpState :=
  if w = lateId then doneWarp w 5 w 0 else doneWarp w 3 w 1

theorem late_life (w : BitVec 32) :
    ∃ os, os.length ≤ 6
      ∧ Run (WarpTurn ((lateEnv kind).warpContext reconvPc) mem)
      (lateStage 0 w) os (lateEnd w) := by
  have hround : ∀ round < 4, ∃ outcome, WarpTurn ((lateEnv kind).warpContext reconvPc) mem
      (lateStage round w) outcome (lateStage (round + 1) w) := fun _ hlt => late_round hlt w
  obtain ⟨o₀, h₀⟩ := hround 0 (by decide)
  obtain ⟨o₁, h₁⟩ := hround 1 (by decide)
  obtain ⟨o₂, h₂⟩ := hround 2 (by decide)
  obtain ⟨o₃, h₃⟩ := hround 3 (by decide)
  have hfour := (((Run.single h₀).next h₁).next h₂).next h₃
  by_cases hw : w = lateId
  · obtain ⟨o₄, h₄⟩ : ∃ outcome, WarpTurn ((lateEnv kind).warpContext reconvPc) mem
        (lateWarp w 4 w 0) outcome (returnedWarp w 5 w 0) := late_ret
    obtain ⟨o₅, h₅⟩ : ∃ outcome, WarpTurn ((lateEnv kind).warpContext reconvPc) mem
        (returnedWarp w 5 w 0) outcome (doneWarp w 5 w 0) := late_retire
    have hstage : lateStage 4 w = lateWarp w 4 w 0 := if_pos hw
    rw [hstage] at hfour
    rw [lateEnd, if_pos hw]
    exact ⟨_, le_rfl, (hfour.next h₄).next h₅⟩
  · have hstage : lateStage 4 w = lateEnd w := by
      rw [lateEnd, if_neg hw]
      exact if_neg hw
    rw [hstage] at hfour
    exact ⟨[o₀] ++ [o₁] ++ [o₂] ++ [o₃], Nat.le_add_right 4 2, hfour⟩

theorem lateEnd_done (w : BitVec 32) : (lateEnd w).done = true := by
  unfold lateEnd
  split
  · rfl
  · rfl

end Late

section Wide

variable {kind : WarpSchedulerKind}

theorem late_plan (kind : WarpSchedulerKind) :
    checkLaunch (lateEnv kind).cfg (lateEnv kind).kernel (lateEnv kind).launch
      = .ok (lateEnv kind).plan := by
  cases kind with
  | inOrderRunToCompletion => decide
  | roundRobinInterleaveStep => decide

theorem late_items : ctaItems (lateEnv kind).launch.gridDim = [{}] := rfl

theorem late_analysis :
    analyzeControlFlow (lateEnv kind).kernel (lateEnv kind).registry (lateEnv kind).plan.warpSize
      = .ok (lateEnv kind).reconvPc := by
  have hok : analyzeControlFlow lateKernel demoDescs 1 = .ok [none, none, none, none, none] := by
    decide
  have hanalysis : analyzeControlFlow (lateEnv kind).kernel (lateEnv kind).registry
      (lateEnv kind).plan.warpSize = .ok [none, none, none, none, none] := hok
  rw [DriverEnv.reconvPc, hanalysis]

theorem late_start {sched : WarpScheduler} :
    (lateEnv kind).ctaOf {} ((lateEnv kind).initWarp {}) sched
      = (lateEnv kind).ctaOf {} (lateStage 0) sched :=
  ctaOf_congr fun _ hw => late_init hw

/-- In order the warps all come to their ends. -/
theorem late_completes : ∃ log s, CompleteRun (lateEnv .inOrderRunToCompletion) {} log s
    ∧ ConflictFree (runAccesses log) := by
  have hwarps : (lateEnv .inOrderRunToCompletion).plan.warpCount < 2 ^ 32 := by decide
  have hlives : ∀ w : BitVec 32, w.toNat < (lateEnv .inOrderRunToCompletion).plan.warpCount →
      ∃ os, os.length ≤ 6 ∧ Run (WarpTurn ((lateEnv .inOrderRunToCompletion).warpContext
        (lateEnv .inOrderRunToCompletion).reconvPc) {}) (lateStage 0 w) os (lateEnd w) :=
    fun w _ => late_life w
  obtain ⟨os, sched, sched', hlength, hturns, hnone⟩ :=
    inOrder_sweep {} hwarps hlives fun w _ => lateEnd_done w
  rw [← late_start] at hturns
  have hbelow : ∀ k ≤ os.length, (lateEnv .inOrderRunToCompletion).Below k :=
    fun k hk => below_of_lt ((hk.trans hlength).trans_lt (by decide))
  obtain ⟨es, s, hrun, hended, hleft⟩ :=
    alone_run rfl late_items hwarps late_analysis hturns hnone hbelow
  have hall : ∀ warp ∈ ((lateEnv .inOrderRunToCompletion).ctaOf {} lateEnd sched').warps,
      warp.done = true := by
    intro warp hmem
    obtain ⟨w, rfl⟩ := mem_ctaOf hmem
    exact lateEnd_done w
  obtain ⟨log, hcomplete, hfree⟩ := complete_of_silent hrun hended late_items hleft rfl hall
  exact ⟨log, s, hcomplete, hfree⟩

/-- Round robin leaves the CTA with one warp still to go. -/
theorem late_left : ∃ es s cta, Run (DriverStep (lateEnv .roundRobinInterleaveStep))
    ((lateEnv .roundRobinInterleaveStep).start {}) es s ∧ .left 0 cta ∈ es
      ∧ ∃ warp ∈ cta.warps, warp.done = false := by
  have hwarps : (lateEnv .roundRobinInterleaveStep).plan.warpCount < 2 ^ 32 := by decide
  have hround : ∀ round < 4, ∃ os, os.length = (lateEnv .roundRobinInterleaveStep).plan.warpCount
      ∧ Run (Turn (lateEnv .roundRobinInterleaveStep) {})
          ((lateEnv .roundRobinInterleaveStep).ctaOf {} (lateStage round)
            (.onCtaStart .roundRobinInterleaveStep)) os
          ((lateEnv .roundRobinInterleaveStep).ctaOf {} (lateStage (round + 1))
            (.onCtaStart .roundRobinInterleaveStep)) :=
    fun round hlt => roundRobin_round {} hwarps fun w _ => late_round hlt w
  obtain ⟨os₀, hlength₀, hrun₀⟩ := hround 0 (by decide)
  obtain ⟨os₁, hlength₁, hrun₁⟩ := hround 1 (by decide)
  obtain ⟨os₂, hlength₂, hrun₂⟩ := hround 2 (by decide)
  obtain ⟨os₃, hlength₃, hrun₃⟩ := hround 3 (by decide)
  have hfour := ((hrun₀.append hrun₁).append hrun₂).append hrun₃
  rw [← late_start] at hfour
  -- the late warp is picked once more
  have hseen : ∀ f, (f lateId).done = false → (∀ w, w ≠ lateId → (f w).done = true) →
      (lateEnv .roundRobinInterleaveStep).doneAt f
        = WarpScheduler.onlyLive ((0x80000001 : BitVec 32) - 2) 0 := by
    intro f hlive hdone
    have hlate : (0x80000001 : BitVec 32) - 2 = lateId := by decide
    funext w
    rw [DriverEnv.doneAt, WarpScheduler.onlyLive, hlate]
    by_cases hw : w = lateId
    · rw [hw, if_pos (by decide), hlive, bne_self_eq_false]
    · rw [hdone w hw, ite_self, bne_iff_ne.mpr hw]
  have hwide : 2 ^ 31 < (0x80000001 : BitVec 32).toNat := by decide
  have hlast : (lateStage 4 lateId).done = false := rfl
  have hothers : ∀ w, w ≠ lateId → (lateStage 4 w).done = true := by
    intro w hw
    have hstage : lateStage 4 w = doneWarp w 3 w 1 := if_neg hw
    rw [hstage]
    rfl
  have hpick := WarpScheduler.roundRobin_first hwide 0
  rw [← hseen _ hlast hothers] at hpick
  obtain ⟨outcome, hret⟩ : ∃ outcome, WarpTurn ((lateEnv .roundRobinInterleaveStep).warpContext
      (lateEnv .roundRobinInterleaveStep).reconvPc) {} (lateStage 4 lateId) outcome
      (returnedWarp lateId 5 lateId 0) := late_ret
  have hturns := hfour.next (ctaOf_turn {} (w := lateId) hwarps (by decide) hpick hret)
  -- and then passed over
  have hpass := WarpScheduler.roundRobin_passes hwide 0
  rw [← hseen (Function.update (lateStage 4) lateId (returnedWarp lateId 5 lateId 0))
    (by rw [Function.update_self]; rfl)
    (fun w hw => by rw [Function.update_of_ne hw]; exact hothers w hw)] at hpass
  have hlength : (os₀ ++ os₁ ++ os₂ ++ os₃ ++ [outcome]).length = 0x200000005 := by
    simp only [List.length_append, hlength₀, hlength₁, hlength₂, hlength₃]
    rfl
  have hbelow : ∀ k ≤ (os₀ ++ os₁ ++ os₂ ++ os₃ ++ [outcome]).length,
      (lateEnv .roundRobinInterleaveStep).Below k := by
    rw [hlength]
    exact fun k hk => below_of_lt (hk.trans_lt (by decide))
  obtain ⟨es, s, hrun, -, hleft⟩ := alone_run rfl late_items hwarps late_analysis hturns
    (ctaOf_pickNext {} hpass) hbelow
  refine ⟨es, s, _, silent_driver hrun, hleft, _, List.mem_of_getElem?
    (ctaOf_getElem? (w := lateId) (by decide)), ?_⟩
  rw [Function.update_self]
  rfl

/-- Round robin does not run to its end what runs to its end in order. -/
theorem round_robin_leaves_a_warp :
    ¬ ∀ (env env' : DriverEnv) (mem : MemState) (log : List (DriverEvent × List (WarpId × Access)))
        (s : DriverState), checkLaunch env.cfg env.kernel env.launch = .ok env.plan →
      checkLaunch env'.cfg env'.kernel env'.launch = .ok env'.plan → env.SameLaunch env' →
      env.launch.gridDim.volume * env.plan.threadsPerBlock < 2 ^ 52 → CompleteRun env mem log s →
      ConflictFree (runAccesses log) → ScheduleIndependent env env' mem (runEvents log) s := by
  intro hclaim
  obtain ⟨log, s, hrun, hfree⟩ := late_completes
  have hsame :=
    hclaim (lateEnv .inOrderRunToCompletion) (lateEnv .roundRobinInterleaveStep) {} log s
      (late_plan _) (late_plan _) ⟨rfl, rfl, rfl, rfl, rfl, rfl⟩ (by decide) hrun hfree
  obtain ⟨es, s', cta, hrun', hleft, warp, hwarp, hlive⟩ := late_left
  rw [(hsame.runs.warps es s' hrun' 0 cta hleft).1 warp hwarp] at hlive
  cases hlive

end Wide

end ProtoGpu

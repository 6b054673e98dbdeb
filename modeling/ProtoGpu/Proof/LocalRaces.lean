import ProtoGpu.Proof.LaunchOrder

/-!
# Races on local memory

The workers of a launch share the hash table behind local memory, and nothing locks it. A store may
insert, so two workers race where one is about to store to local memory while another is about to
access it; two loads only look bytes up. What a launch with a race does is not defined. One worker
has nobody to race with, and a kernel whose micro-ops leave local memory alone has nothing to race
for.
-/

namespace ProtoGpu

open Transitions

/-! ### The race -/

/-- The step that the worker is at accesses local memory, in the given way. -/
def DriverState.AtLocal (env : DriverEnv) (s : DriverState) (smId : SmId) (how : Access → Prop) :
    Prop :=
  ∃ i acc a, (i, acc) ∈ env.stepAccesses s (.internal smId) ∧ acc.first = .localMem a ∧ how acc

/-- Of two workers that may step next, one stores to local memory and the other accesses it. -/
def DriverState.Races (env : DriverEnv) (s : DriverState) : Prop :=
  ∃ i j, i ≠ j ∧ s.AtLocal env i (fun acc => acc.stores = true) ∧ s.AtLocal env j fun _ => True

/-- In whatever order the workers step, they never come to a race. -/
def DriverEnv.RaceFree (env : DriverEnv) (mem : MemState) : Prop :=
  ∀ es s, Run (DriverStep env) (env.start mem) es s → ¬ s.Races env

/-- A run of the workers in a launch that the source defines. -/
structure DriverEnv.DefinedRun (env : DriverEnv) (mem : MemState) (es : List DriverEvent)
    (s : DriverState) : Prop where
  run : Run (DriverStep env) (env.start mem) es s
  raceFree : env.RaceFree mem

section Races

variable {env : DriverEnv} {mem : MemState} {es : List DriverEvent} {s : DriverState} {smId : SmId}
  {how : Access → Prop}

theorem DriverState.AtLocal.mono {how' : Access → Prop} (h : s.AtLocal env smId how)
    (himp : ∀ acc, how acc → how' acc) : s.AtLocal env smId how' := by
  obtain ⟨i, acc, a, hacc, hfirst, hhow⟩ := h
  exact ⟨i, acc, a, hacc, hfirst, himp acc hhow⟩

/-- A worker at an access is at a step of a warp. -/
theorem DriverState.AtLocal.stepping (h : s.AtLocal env smId how) :
    ∃ cta w warp acc a, s.worker smId = .stepping cta w ∧ cta.warps[w.toNat]? = some warp
      ∧ acc ∈ warpAccesses (env.warpContext cta.reconvPc) warp s.mem ∧ acc.first = .localMem a
      ∧ how acc := by
  obtain ⟨i, acc, a, hacc, hfirst, hhow⟩ := h
  unfold DriverEnv.stepAccesses at hacc
  dsimp only at hacc
  split at hacc
  next cta w hphase =>
    split at hacc
    next warp hwarp =>
      obtain ⟨acc', hacc', heq⟩ := List.mem_map.mp hacc
      obtain rfl := congrArg Prod.snd heq
      exact ⟨cta, w, warp, _, a, hphase, hwarp, hacc', hfirst, hhow⟩
    · cases hacc
  · cases hacc

/-! ### One worker -/

theorem admitting_run (hrun : Run (DriverStep env) (env.start mem) es s) : Admitting env s := by
  refine hrun.invariant (I := fun _ s => Admitting env s) (Admitting.start mem) ?_
  intro _ s _ t h hstep
  cases hstep with
  | work smId hstep =>
      obtain ⟨phase', hmove⟩ := workerStep_moves hstep
      exact h.work hmove
  | acquire smId hphase hworker hstep => exact h.acquire hphase hworker hstep

theorem raceFree_of_one_worker (hone : env.plan.smCount ≤ 1) : env.RaceFree mem := by
  rintro es s hrun ⟨i, j, hne, hi, hj⟩
  have hown := (admitting_run hrun).own
  have hzero : ∀ {smId : SmId} {how : Access → Prop}, s.AtLocal env smId how → smId.toNat = 0 := by
    intro smId how hat
    obtain ⟨cta, w, -, -, -, hphase, -⟩ := hat.stepping
    have hlt := hown smId (by rw [hphase]; simp)
    omega
  exact hne (BitVec.eq_of_toNat_eq ((hzero hi).trans (hzero hj).symm))

/-! ### No micro-op on local memory -/

/-- Whether the instructions expand to micro-ops on other spaces alone. -/
def KernelImage.leavesLocal (kernel : KernelImage) (registry : DescriptorRegistry)
    (warpSize : Nat) : Bool :=
  kernel.insts.all fun inst =>
    (registry.lookup inst).all fun desc =>
      (expand inst desc warpSize).all fun uop => uop.attrs.space != .localMem

/-- An access of the size of the micro-op, and to local memory only if its space is. -/
structure Access.From (uop : MicroOp) (acc : Access) : Prop where
  size : acc.size = typeSize uop.attrs.type
  space : ∀ a, acc.first = .localMem a → uop.attrs.space = .localMem

theorem typeSize_pos (t : ValueType) : 0 < typeSize t := by
  rcases typeSize_le t with h | h <;> rw [h] <;> decide

theorem turnAccesses_forall {σ : Type} {access : Nat → σ → Access}
    {body : Nat → σ → Except Fault σ} {lanes : List Nat} {t : σ} {P : Access → Prop}
    (haccess : ∀ lane t, P (access lane t)) :
    ∀ acc ∈ turnAccesses access body lanes t, P acc := by
  intro acc hacc
  induction lanes generalizing t with
  | nil => cases hacc
  | cons lane lanes ih =>
      rcases List.mem_cons.mp hacc with rfl | hrest
      · exact haccess lane t
      · split at hrest
        · cases hrest
        · exact ih hrest

theorem accesses_from {uop : MicroOp} {w : WarpState} {m : MemState} {acc : Access}
    (hacc : acc ∈ uop.accesses w m) : acc.From uop := by
  have hglobal : ∀ (o : Operand) (stores : Bool) (lane : Nat) (w : WarpState),
      (o.globalAccess stores (typeSize uop.attrs.type) lane w).From uop :=
    fun o stores lane w => ⟨rfl, fun a h => by cases h⟩
  have hlocal : ∀ (o : Operand) (stores : Bool) (lane : Nat) (w : WarpState),
      uop.attrs.space = .localMem →
        (o.localAccess stores (typeSize uop.attrs.type) lane w).From uop :=
    fun o stores lane w hspace => ⟨rfl, fun _ _ => hspace⟩
  unfold MicroOp.accesses at hacc
  split at hacc
  · cases hacc
  split at hacc
  · split at hacc
    next out src _ _ =>
      unfold ldAccesses at hacc
      dsimp only at hacc
      split at hacc
      · split at hacc
        · cases hacc
        · exact turnAccesses_forall (fun lane w => hglobal src false lane w) acc hacc
      next hspace =>
        split at hacc
        · cases hacc
        · exact turnAccesses_forall (fun lane w => hlocal src false lane w hspace) acc hacc
      · cases hacc
    · cases hacc
  · split at hacc
    next dst val _ _ =>
      unfold stAccesses at hacc
      dsimp only at hacc
      split at hacc
      · split at hacc
        · cases hacc
        · exact turnAccesses_forall (fun lane _ => hglobal dst true lane w) acc hacc
      next hspace =>
        split at hacc
        · cases hacc
        · exact turnAccesses_forall (fun lane _ => hlocal dst true lane w hspace) acc hacc
      · cases hacc
    · cases hacc
  · cases hacc

theorem uopLoopAccesses_from {ctx : WarpContext} {inst : InstRecord} {uops : List MicroOp}
    {i : IssueState} {acc : Access} (hacc : acc ∈ uopLoopAccesses ctx inst uops i) :
    ∃ uop ∈ uops, acc.From uop := by
  induction uops generalizing i with
  | nil => cases hacc
  | cons uop uops ih =>
      rw [uopLoopAccesses] at hacc
      rcases List.mem_append.mp hacc with hhead | hrest
      · refine ⟨uop, List.mem_cons_self, ?_⟩
        unfold uopAccesses at hhead
        split at hhead
        · exact accesses_from hhead
        · cases hhead
      · split at hrest
        · cases hrest
        · obtain ⟨uop', hmem, hfrom⟩ := ih hrest
          exact ⟨uop', List.mem_cons_of_mem _ hmem, hfrom⟩

/-- An access of a warp is from a micro-op of one of the kernel's instructions. -/
theorem warpAccesses_from {ctx : WarpContext} (hws : ctx.warpSize ≤ 32) {w : WarpState}
    {m : MemState} {acc : Access} (hacc : acc ∈ warpAccesses ctx w m) :
    ∃ inst ∈ ctx.kernel.insts, ∃ desc, ctx.registry.lookup inst = some desc
      ∧ ∃ uop ∈ expand inst desc ctx.warpSize, acc.From uop := by
  unfold warpAccesses at hacc
  split at hacc
  · unfold issueAccesses at hacc
    split at hacc
    · cases hacc
    split at hacc
    · cases hacc
    next inst hinst =>
      split at hacc
      · cases hacc
      next desc hdesc =>
        split at hacc
        · cases hacc
        next uops huops =>
          obtain ⟨guard, -, rfl⟩ := predicate_ok hws huops
          obtain ⟨uop, hmem, hfrom⟩ := uopLoopAccesses_from hacc
          obtain ⟨u, hu, rfl⟩ := List.mem_map.mp hmem
          exact ⟨inst, List.mem_of_getElem? hinst, desc, hdesc, u, hu, hfrom.size, hfrom.space⟩
  · cases hacc

theorem warpAccesses_size_pos {ctx : WarpContext} (hws : ctx.warpSize ≤ 32) {w : WarpState}
    {m : MemState} {acc : Access} (hacc : acc ∈ warpAccesses ctx w m) : 0 < acc.size := by
  obtain ⟨-, -, -, -, uop, -, hfrom⟩ := warpAccesses_from hws hacc
  exact hfrom.size ▸ typeSize_pos _

theorem warpAccesses_space (ctx : WarpContext) (hws : ctx.warpSize ≤ 32)
    (hleaves : ctx.kernel.leavesLocal ctx.registry ctx.warpSize = true) {w : WarpState}
    {m : MemState} {acc : Access} {a : Addr} (hacc : acc ∈ warpAccesses ctx w m) :
    acc.first ≠ .localMem a := by
  intro hfirst
  obtain ⟨inst, hinst, desc, hdesc, uop, hmem, hfrom⟩ := warpAccesses_from hws hacc
  have hinsts := List.all_eq_true.mp hleaves inst hinst
  rw [hdesc, Option.all_some] at hinsts
  have hother := List.all_eq_true.mp hinsts uop hmem
  rw [hfrom.space a hfirst] at hother
  cases hother

theorem raceFree_of_leavesLocal (hws : env.plan.warpSize ≤ 32)
    (hleaves : env.kernel.leavesLocal env.registry env.plan.warpSize = true) :
    env.RaceFree mem := by
  rintro es s - ⟨i, j, -, hi, -⟩
  obtain ⟨cta, w, warp, acc, a, -, -, hacc, hfirst, -⟩ := hi.stepping
  exact warpAccesses_space (env.warpContext cta.reconvPc) hws hleaves hacc hfirst

end Races

end ProtoGpu

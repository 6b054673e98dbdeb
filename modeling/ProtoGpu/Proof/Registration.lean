import ProtoGpu.Shim.Registration
import ProtoGpu.Lib.Transitions

/-!
# What a launch finds

The registries against a description without module numbers: the live modules by their handles, and
each host function with the module it was registered under. A handle may come back for another
module, a number does not, so however registrations, launches and removals follow each other, a
launch finds the texts of the very module its function was registered under, or that the function is
gone; never a number without a module.
-/

namespace ProtoGpu

open Transitions

/-! ### Linkage -/

/-- The live modules, and the host functions with handle and module, if the handle was live, and
name. -/
structure Linkage where
  live : Addr → Option FatbinModule := fun _ => none
  bound : Addr → Option (Option (Addr × FatbinModule) × Text) := fun _ => none

namespace Linkage

def register (a : Linkage) (m : FatbinModule) (handle : Addr) : Linkage :=
  if handle = 0 then a else { a with live := Function.update a.live handle (some m) }

/-- The functions of a module go with it. -/
def unregister (a : Linkage) (handle : Addr) : Linkage :=
  if handle = 0 then a
  else
    { live := Function.update a.live handle none
      bound := fun func => (a.bound func).filter fun b => b.1.all (·.1 != handle) }

def bind (a : Linkage) (handle hostFun : Addr) (deviceName : Option Text) : Linkage :=
  match deviceName with
  | none => a
  | some name =>
      if hostFun = 0 then a
      else
        { a with
          bound := Function.update a.bound hostFun
            (some ((a.live handle).map fun m => (handle, m), name)) }

def call (a : Linkage) : HostCall → Linkage
  | .registerFatBinary m handle => a.register m handle
  | .unregisterFatBinary handle => a.unregister handle
  | .registerFunction handle hostFun deviceName => a.bind handle hostFun deviceName
  | _ => a

/-- The entry and the text of a launch. -/
def selectKernel (a : Linkage) (func : Addr) (c : CallConfig) : Except PackError (Text × Text) :=
  if func = 0 then .error (.cudaErrorInvalidDeviceFunction, "cudaLaunchKernel: func is null")
  else if c.grid.x = 0 ∨ c.grid.y = 0 ∨ c.grid.z = 0 then
    .error (.cudaErrorInvalidValue, "cudaLaunchKernel: invalid gridDim")
  else if c.block.x = 0 ∨ c.block.y = 0 ∨ c.block.z = 0 then
    .error (.cudaErrorInvalidValue, "cudaLaunchKernel: invalid blockDim")
  else
    match a.bound func with
    | none => .error (.cudaErrorInvalidDeviceFunction, "cudaLaunchKernel: kernel not registered")
    | some (none, _) =>
        .error (.cudaErrorInvalidDeviceFunction, "cudaLaunchKernel: kernel module unknown")
    | some (some (_, mod), name) =>
        if mod.ptxTexts.isEmpty then
          .error (.cudaErrorInvalidDeviceFunction, Shim.noPtxMessage (some mod))
        else
          match choosePtx mod.ptxTexts name with
          | none => .error (.cudaErrorInvalidDeviceFunction, Shim.noEntryMessage mod name)
          | some ptx => .ok (name, ptx)

end Linkage

/-! ### Calls that leave the registries alone -/

/-- The registries are the same. -/
structure Shim.SameRegistries (st st' : Shim) : Prop where
  kernels : st'.kernels = st.kernels
  modules : st'.modules = st.modules

namespace Shim

variable {st st' : Shim} {out : Outside}

theorem SameRegistries.refl (st : Shim) : SameRegistries st st := ⟨rfl, rfl⟩

theorem SameRegistries.trans {st'' : Shim} (h : SameRegistries st st')
    (h' : SameRegistries st' st'') : SameRegistries st st'' :=
  ⟨h'.kernels.trans h.kernels, h'.modules.trans h.modules⟩

theorem fail_registries (st : Shim) (err : CudaError) (msg : String) :
    SameRegistries st (st.fail err msg).2 := ⟨rfl, rfl⟩

theorem succeed_registries (st : Shim) : SameRegistries st st.succeed.2 := ⟨rfl, rfl⟩

theorem returned_registries (hsame : SameRegistries st st') (rc : CudaError) :
    SameRegistries st (returned rc st').2 := by
  unfold returned
  split
  · exact hsame.trans ⟨rfl, rfl⟩
  · exact hsame

theorem guarded_registries {name : String} {body : CudaError × Shim}
    (hthrown : ∀ thrown left, out.thrown = some (thrown, left) → SameRegistries st left)
    (hbody : SameRegistries st body.2) : SameRegistries st (guarded name out body).2 := by
  unfold guarded
  split
  · exact hbody
  next left heq => exact (hthrown _ left heq).trans (fail_registries left _ _)
  next left heq => exact (hthrown _ left heq).trans (fail_registries left _ _)

theorem initialized_registries {body : Shim → CudaError × Shim}
    (hbody : ∀ st', SameRegistries st st' → SameRegistries st (body st').2) :
    SameRegistries st (st.initialized out body).2 := by
  unfold initialized ensureInitialized
  split
  next heq =>
    split at heq
    · cases heq
      exact fail_registries st _ _
    · split at heq
      · cases heq
      · split at heq
        · cases heq
          exact ⟨rfl, rfl⟩
        · cases heq
  next heq =>
    split at heq
    · cases heq
    · split at heq
      · cases heq
        exact hbody _ (.refl _)
      · split at heq
        · cases heq
        · cases heq
          exact hbody _ ⟨rfl, rfl⟩

theorem reportRun_registries (st : Shim) (sim : SimResult) :
    SameRegistries st (reportRun st sim).2 := by
  unfold reportRun
  split
  · exact fail_registries st _ _
  · split
    · exact fail_registries st _ _
    · exact succeed_registries st

theorem launch_registries (hsame : SameRegistries st st') (func : Addr) (c : CallConfig)
    (args : Option (Nat → Addr)) : SameRegistries st (launch out st' func c args).2 := by
  apply hsame.trans
  unfold launch
  split
  · exact fail_registries st' _ _
  · split
    · exact fail_registries st' _ _
    · dsimp only
      split
      · exact ⟨rfl, rfl⟩
      next rt _ =>
        have hset : SameRegistries st' { st' with memory := { st'.memory with runtime := rt } } :=
          ⟨rfl, rfl⟩
        exact hset.trans (reportRun_registries _ _)

theorem copy_registries (dst src count : Addr) (kind : CudaMemcpyKind) :
    SameRegistries st (st.copy out dst src count kind).2 := by
  refine initialized_registries fun st' hsame => hsame.trans ?_
  split
  apply returned_registries
  exact ⟨rfl, rfl⟩

theorem synchronize_registries : SameRegistries st (st.synchronize out).2 := by
  refine initialized_registries fun st' hsame => hsame.trans ?_
  split
  · exact fail_registries st' _ _
  · exact succeed_registries st'

/-- No call of the API changes the registries. -/
theorem call_registries
    (hthrown : ∀ thrown left, out.thrown = some (thrown, left) → SameRegistries st left)
    (call : ApiCall) : SameRegistries st (st.call out call).2 := by
  cases call with
  | malloc devPtr size =>
      refine guarded_registries hthrown (initialized_registries fun st' hsame => hsame.trans ?_)
      split
      apply returned_registries
      exact ⟨rfl, rfl⟩
  | free devPtr =>
      refine guarded_registries hthrown (initialized_registries fun st' hsame => hsame.trans ?_)
      split
      apply returned_registries
      exact ⟨rfl, rfl⟩
  | memcpy dst src count kind =>
    exact guarded_registries hthrown (copy_registries dst src count kind)
  | memcpyAsync dst src count kind stream =>
      exact guarded_registries hthrown (copy_registries dst src count kind)
  | streamCreate pStream =>
      apply guarded_registries hthrown
      split
      · exact fail_registries st _ _
      · refine initialized_registries fun st' hsame => hsame.trans ?_
        split
        · exact fail_registries st' _ _
        · exact ⟨rfl, rfl⟩
  | streamDestroy stream =>
      apply guarded_registries hthrown
      split
      · exact fail_registries st _ _
      · exact succeed_registries st
  | streamSynchronize stream => exact synchronize_registries
  | streamQuery stream =>
      exact initialized_registries fun st' hsame => hsame.trans (succeed_registries st')
  | deviceSynchronize => exact synchronize_registries
  | launchKernel func config args =>
      refine guarded_registries hthrown (initialized_registries fun st' hsame => hsame.trans ?_)
      split
      apply launch_registries
      exact ⟨rfl, rfl⟩
  | getLastError => exact ⟨rfl, rfl⟩

end Shim

/-! ### The correspondence -/

/-- A host function of the registry and of the description. -/
inductive FunctionLinks (s : RegistryState) :
    Option KernelInfo → Option (Option (Addr × FatbinModule) × Text) → Prop
  | unregistered : FunctionLinks s none none
  | unknown {name : Text} :
      FunctionLinks s (some { moduleId := 0, deviceName := name }) (some (none, name))
  | known {handle : Addr} {id : ModuleId} {m : FatbinModule} {name : Text} (hhandle : handle ≠ 0)
      (hid : s.handleToId handle = some id) (hmodule : s.shim.modules id = some m) :
      FunctionLinks s (some { moduleId := id, deviceName := name }) (some (some (handle, m), name))

/-- The registries after `used` registrations of modules. -/
structure Links (s : RegistryState) (a : Linkage) (used : Nat) : Prop where
  next : s.nextId.toNat = used + 1
  modules : ∀ id m, s.shim.modules id = some m → 0 < id.toNat ∧ id.toNat ≤ used
  handles : ∀ h id, s.handleToId h = some id → 0 < id.toNat ∧ id.toNat ≤ used
  injective : ∀ h h' id, s.handleToId h = some id → s.handleToId h' = some id → h = h'
  alive : ∀ h id, s.handleToId h = some id → ∃ m, s.shim.modules id = some m
  live : ∀ h, h ≠ 0 → a.live h = (s.handleToId h).bind s.shim.modules
  null : a.live 0 = none
  bound : ∀ func, FunctionLinks s (s.shim.kernels func) (a.bound func)

section Links

variable {s : RegistryState} {a : Linkage} {used : Nat}

theorem links_start : Links {} {} 0 where
  next := rfl
  modules := fun _ _ h => by cases h
  handles := fun _ _ h => by cases h
  injective := fun _ _ _ h => by cases h
  alive := fun _ _ h => by cases h
  live := fun _ _ => rfl
  null := rfl
  bound := fun _ => .unregistered

/-- The number of a live handle, and its module. -/
theorem Links.lookup (h : Links s a used) (handle : Addr) :
    (s.lookupByHandle handle = none ∧ a.live handle = none)
      ∨ ∃ id m, handle ≠ 0 ∧ s.handleToId handle = some id ∧ s.shim.modules id = some m
        ∧ s.lookupByHandle handle = some id ∧ a.live handle = some m := by
  unfold RegistryState.lookupByHandle
  by_cases hnull : handle = 0
  · rw [if_pos hnull, hnull]
    exact .inl ⟨rfl, h.null⟩
  · rw [if_neg hnull]
    have hlive := h.live handle hnull
    cases hid : s.handleToId handle with
    | none =>
        rw [hid] at hlive
        exact .inl ⟨rfl, hlive⟩
    | some id =>
        obtain ⟨m, hm⟩ := h.alive handle id hid
        rw [hid, Option.bind_some, hm] at hlive
        refine .inr ⟨id, m, hnull, rfl, hm, ?_, hlive⟩
        dsimp only
        rw [hm]
        rfl

theorem Links.fresh (h : Links s a used) : s.shim.modules s.nextId = none := by
  cases hm : s.shim.modules s.nextId with
  | none => rfl
  | some m =>
      have hused := (h.modules _ m hm).2
      rw [h.next] at hused
      omega

theorem FunctionLinks.mono {s s' : RegistryState} {ki : Option KernelInfo}
    {b : Option (Option (Addr × FatbinModule) × Text)} (h : FunctionLinks s ki b)
    (hkept : ∀ handle id, handle ≠ 0 → s.handleToId handle = some id →
      s'.handleToId handle = some id ∧ s'.shim.modules id = s.shim.modules id) :
    FunctionLinks s' ki b := by
  cases h with
  | unregistered => exact .unregistered
  | unknown => exact .unknown
  | known hhandle hid hmodule =>
      obtain ⟨hid', hmodule'⟩ := hkept _ _ hhandle hid
      exact .known hhandle hid' (hmodule'.trans hmodule)

/-- A new module gets a number of its own. -/
theorem Links.register (h : Links s a used) (hused : used + 2 < 2 ^ 64) (m : FatbinModule)
    {handle : Addr} (hnew : handle = 0 ∨ s.handleToId handle = none) :
    Links (s.cudaRegisterFatBinary m handle) (a.register m handle) (used + 1) := by
  have hmodules : (s.cudaRegisterFatBinary m handle).shim.modules
      = Function.update s.shim.modules s.nextId (some m) := by
    change RegistryState.emplaceModule s.shim.modules s.nextId m = _
    rw [RegistryState.emplaceModule, h.fresh, Option.getD_none]
  have hhandles : (s.cudaRegisterFatBinary m handle).handleToId
      = Function.update s.handleToId handle (some s.nextId) := rfl
  have hbefore : ∀ id : ModuleId, id.toNat ≤ used → id ≠ s.nextId := by
    intro id hid heq
    rw [heq, h.next] at hid
    omega
  have hother : ∀ handle' id, handle' ≠ 0 → s.handleToId handle' = some id → handle' ≠ handle := by
    rintro handle' id hne hid rfl
    rcases hnew with hnull | hfree
    · exact hne hnull
    · rw [hfree] at hid
      cases hid
  have hlive : ∀ handle', handle' ≠ handle →
      (s.handleToId handle').bind (Function.update s.shim.modules s.nextId (some m))
        = (s.handleToId handle').bind s.shim.modules := by
    intro handle' hne
    cases hid : s.handleToId handle' with
    | none => rfl
    | some id => exact Function.update_of_ne (hbefore id (h.handles _ id hid).2) ..
  refine ⟨?next, ?mods, ?tokens, ?injective, ?alive, ?live, ?null, ?bound⟩
  case next =>
    change (s.nextId + 1).toNat = used + 1 + 1
    rw [BitVec.toNat_add, h.next]
    exact Nat.mod_eq_of_lt hused
  case mods =>
    intro id m' hm'
    rw [hmodules] at hm'
    by_cases hid : id = s.nextId
    · rw [hid, h.next]
      omega
    · rw [Function.update_of_ne hid] at hm'
      have hold := h.modules id m' hm'
      omega
  case tokens =>
    intro handle' id hid
    rw [hhandles] at hid
    by_cases heq : handle' = handle
    · rw [heq, Function.update_self, Option.some.injEq] at hid
      rw [← hid, h.next]
      omega
    · rw [Function.update_of_ne heq] at hid
      have hold := h.handles handle' id hid
      omega
  case injective =>
    intro h₁ h₂ id hid₁ hid₂
    rw [hhandles] at hid₁ hid₂
    by_cases heq₁ : h₁ = handle
    · by_cases heq₂ : h₂ = handle
      · rw [heq₁, heq₂]
      · rw [heq₁, Function.update_self, Option.some.injEq] at hid₁
        rw [Function.update_of_ne heq₂] at hid₂
        exact absurd hid₁.symm (hbefore id (h.handles h₂ id hid₂).2)
    · rw [Function.update_of_ne heq₁] at hid₁
      by_cases heq₂ : h₂ = handle
      · rw [heq₂, Function.update_self, Option.some.injEq] at hid₂
        exact absurd hid₂.symm (hbefore id (h.handles h₁ id hid₁).2)
      · rw [Function.update_of_ne heq₂] at hid₂
        exact h.injective h₁ h₂ id hid₁ hid₂
  case alive =>
    intro handle' id hid
    rw [hhandles] at hid
    rw [hmodules]
    by_cases heq : handle' = handle
    · rw [heq, Function.update_self, Option.some.injEq] at hid
      exact ⟨m, by rw [← hid, Function.update_self]⟩
    · rw [Function.update_of_ne heq] at hid
      rw [Function.update_of_ne (hbefore id (h.handles handle' id hid).2)]
      exact h.alive handle' id hid
  case live =>
    intro handle' hne
    rw [hhandles, hmodules]
    by_cases heq : handle' = handle
    · have hnull : handle ≠ 0 := heq ▸ hne
      rw [heq, Function.update_self, Option.bind_some, Function.update_self, Linkage.register,
        if_neg hnull]
      exact Function.update_self ..
    · rw [Function.update_of_ne heq, hlive handle' heq, ← h.live handle' hne, Linkage.register]
      split
      · rfl
      · exact Function.update_of_ne heq ..
  case null =>
    rw [Linkage.register]
    split
    · exact h.null
    next hnull => exact (Function.update_of_ne (Ne.symm hnull) ..).trans h.null
  case bound =>
    intro func
    have hsame : (a.register m handle).bound = a.bound := by
      rw [Linkage.register]
      split <;> rfl
    rw [hsame]
    refine (h.bound func).mono fun handle' id hne hid => ?_
    rw [hhandles, hmodules, Function.update_of_ne (hother handle' id hne hid),
      Function.update_of_ne (hbefore id (h.handles handle' id hid).2)]
    exact ⟨hid, rfl⟩

/-- A handle that is not live takes nothing with it. -/
theorem Links.unregister_dead (h : Links s a used) {handle : Addr} (hdead : a.live handle = none) :
    Links s (a.unregister handle) used := by
  rw [Linkage.unregister]
  by_cases hnull : handle = 0
  · rw [if_pos hnull]
    exact h
  · rw [if_neg hnull]
    have hlive : Function.update a.live handle none = a.live := by
      rw [← hdead, Function.update_eq_self]
    have hbound :
        (fun func => (a.bound func).filter fun b => b.1.all (·.1 != handle)) = a.bound := by
      funext func
      have hlinks := h.bound func
      generalize s.shim.kernels func = ki at hlinks
      generalize a.bound func = b at hlinks ⊢
      cases hlinks with
      | unregistered => rfl
      | unknown => rfl
      | @known handle' id m name hhandle hid hmodule =>
          have hne : handle' ≠ handle := by
            rintro rfl
            rw [h.live _ hnull, hid, Option.bind_some, hmodule] at hdead
            cases hdead
          simp [Option.filter, hne]
    rw [hlive, hbound]
    exact h

section Unregister

variable {handle : Addr} {id : ModuleId} {m : FatbinModule}

theorem unregisterFatbin_known (hnull : handle ≠ 0) (hid : s.handleToId handle = some id) :
    s.unregisterFatbin handle =
      { s with
        shim := { s.shim with modules := Function.update s.shim.modules id none }
        handleToId := Function.update s.handleToId handle none } := by
  rw [RegistryState.unregisterFatbin, if_neg hnull]
  simp only [hid]

/-- What a live module leaves. -/
theorem cudaUnregisterFatBinary_live (hnull : handle ≠ 0) (hid : s.handleToId handle = some id)
    (hm : s.shim.modules id = some m) :
    s.cudaUnregisterFatBinary handle =
      { s with
        shim := { s.shim with
          kernels := fun func => (s.shim.kernels func).filter (·.moduleId != id)
          modules := Function.update s.shim.modules id none }
        handleToId := Function.update s.handleToId handle none } := by
  have hlookup : s.lookupByHandle handle = some id := by
    rw [RegistryState.lookupByHandle, if_neg hnull, hid]
    dsimp only
    rw [hm]
    rfl
  rw [RegistryState.cudaUnregisterFatBinary, hlookup]
  have hkept : (s.unregisterModule id).handleToId handle = some id := hid
  exact unregisterFatbin_known hnull hkept

/-- A module goes with its functions and its handle. -/
theorem Links.unregister_live (h : Links s a used) (hnull : handle ≠ 0)
    (hid : s.handleToId handle = some id) (hm : s.shim.modules id = some m) :
    Links (s.cudaUnregisterFatBinary handle) (a.unregister handle) used := by
  have hother : ∀ handle' id', handle' ≠ handle → s.handleToId handle' = some id' → id' ≠ id := by
    rintro handle' id' hne hid' rfl
    exact hne (h.injective handle' handle id' hid' hid)
  have hremaining : ∀ {handle' id'},
      Function.update s.handleToId handle none handle' = some id' →
        handle' ≠ handle ∧ s.handleToId handle' = some id' := by
    intro handle' id' hid'
    by_cases heq : handle' = handle
    · rw [heq, Function.update_self] at hid'
      cases hid'
    · rw [Function.update_of_ne heq] at hid'
      exact ⟨heq, hid'⟩
  rw [cudaUnregisterFatBinary_live hnull hid hm, Linkage.unregister, if_neg hnull]
  refine ⟨h.next, fun id' m' hm' => ?mods, fun handle' id' hid' => ?tokens,
    fun h₁ h₂ id' hid₁ hid₂ => ?injective, fun handle' id' hid' => ?alive,
    fun handle' hne => ?live, ?null, fun func => ?bound⟩
  case mods =>
    by_cases heq : id' = id
    · exact h.modules id' m (heq ▸ hm)
    · have hold : s.shim.modules id' = some m' := (Function.update_of_ne heq ..).symm.trans hm'
      exact h.modules id' m' hold
  case tokens => exact h.handles handle' id' (hremaining hid').2
  case injective => exact h.injective h₁ h₂ id' (hremaining hid₁).2 (hremaining hid₂).2
  case alive =>
    obtain ⟨hne, hold⟩ := hremaining hid'
    obtain ⟨m', hm'⟩ := h.alive handle' id' hold
    exact ⟨m', (Function.update_of_ne (hother handle' id' hne hold) ..).trans hm'⟩
  case live =>
    change Function.update a.live handle none handle' = (Function.update s.handleToId handle none
      handle').bind (Function.update s.shim.modules id none)
    by_cases heq : handle' = handle
    · rw [heq, Function.update_self, Function.update_self, Option.bind_none]
    · rw [Function.update_of_ne heq, Function.update_of_ne heq, h.live handle' hne]
      cases hid' : s.handleToId handle' with
      | none => rfl
      | some id' => exact (Function.update_of_ne (hother handle' id' heq hid') ..).symm
  case null => exact (Function.update_of_ne (Ne.symm hnull) ..).trans h.null
  case bound =>
    have hlinks := h.bound func
    change FunctionLinks _ ((s.shim.kernels func).filter _) ((a.bound func).filter _)
    generalize s.shim.kernels func = ki at hlinks ⊢
    generalize a.bound func = b at hlinks ⊢
    cases hlinks with
    | unregistered => exact .unregistered
    | unknown =>
        have hpos : (0 : ModuleId) ≠ id := by
          rintro rfl
          exact absurd (h.handles handle 0 hid).1 (by decide)
        simp only [Option.filter, Option.all_none, bne_iff_ne.mpr hpos, if_true]
        exact .unknown
    | @known handle' id' m' name hhandle hid' hmodule =>
        by_cases heq : handle' = handle
        · have hsame : id' = id := by
            rw [heq, hid, Option.some.injEq] at hid'
            exact hid'.symm
          simp only [Option.filter, Option.all_some, heq, hsame, bne_self_eq_false,
            Bool.false_eq_true, if_false]
          exact .unregistered
        · have hne := hother handle' id' heq hid'
          simp only [Option.filter, Option.all_some, bne_iff_ne.mpr heq,
            bne_iff_ne.mpr hne, if_true]
          exact .known hhandle ((Function.update_of_ne heq ..).trans hid')
            ((Function.update_of_ne hne ..).trans hmodule)

end Unregister

theorem Links.unregister (h : Links s a used) (handle : Addr) :
    Links (s.cudaUnregisterFatBinary handle) (a.unregister handle) used := by
  rcases h.lookup handle with ⟨hnone, hdead⟩ | ⟨id, m, hnull, hid, hm, -, -⟩
  · have hsame : s.cudaUnregisterFatBinary handle = s := by
      rw [RegistryState.cudaUnregisterFatBinary, hnone]
      dsimp only
      rw [RegistryState.unregisterFatbin]
      split
      · rfl
      next hnull =>
        cases hid : s.handleToId handle with
        | none => rfl
        | some id =>
            obtain ⟨m, hm⟩ := h.alive handle id hid
            rw [h.live handle hnull, hid, Option.bind_some, hm] at hdead
            cases hdead
    rw [hsame]
    exact h.unregister_dead hdead
  · exact h.unregister_live hnull hid hm

/-- A function is linked to the module its handle stands for now. -/
theorem Links.bind (h : Links s a used) (handle hostFun : Addr) (deviceName : Option Text) :
    Links (s.cudaRegisterFunction handle hostFun deviceName) (a.bind handle hostFun deviceName)
      used := by
  unfold RegistryState.cudaRegisterFunction RegistryState.registerFunction Linkage.bind
  cases deviceName with
  | none =>
      dsimp only
      split <;> exact h
  | some name =>
      dsimp only
      by_cases hfun : hostFun = 0
      · rw [if_pos hfun, if_pos hfun]
        exact h
      · rw [if_neg hfun, if_neg hfun]
        refine ⟨h.next, h.modules, h.handles, h.injective, h.alive, h.live, h.null, fun func => ?_⟩
        change FunctionLinks _ (Function.update s.shim.kernels hostFun _ func)
          (Function.update a.bound hostFun _ func)
        by_cases heq : func = hostFun
        · rw [heq, Function.update_self, Function.update_self]
          rcases h.lookup handle with ⟨hnone, hdead⟩ | ⟨id, m, hnull, hid, hm, hsome, hlive⟩
          · rw [hnone, hdead]
            exact .unknown
          · rw [hsome, hlive]
            exact .known hnull hid hm
        · rw [Function.update_of_ne heq, Function.update_of_ne heq]
          exact (h.bound func).mono fun _ _ _ hid => ⟨hid, rfl⟩

theorem Links.of_same (h : Links s a used) {st : Shim} (hsame : s.shim.SameRegistries st) :
    Links { s with shim := st } a used := by
  refine ⟨h.next, ?_, h.handles, h.injective, ?_, ?_, h.null, fun func => ?_⟩
  · change ∀ id m, st.modules id = some m → _
    rw [hsame.modules]
    exact h.modules
  · change ∀ handle id, s.handleToId handle = some id → ∃ m, st.modules id = some m
    rw [hsame.modules]
    exact h.alive
  · change ∀ handle, handle ≠ 0 → a.live handle = (s.handleToId handle).bind st.modules
    rw [hsame.modules]
    exact h.live
  · change FunctionLinks _ (st.kernels func) (a.bound func)
    rw [hsame.kernels]
    exact (h.bound func).mono fun _ _ _ hid => ⟨hid, congrFun hsame.modules _⟩

/-- **The step lemma.** A call does to the registries what it does to the description. -/
theorem Links.call (h : Links s a used) (hused : used + 2 < 2 ^ 64) {call : HostCall}
    (hallowed : call.Allowed s) :
    ∃ used' ≤ used + 1, Links (s.call call) (a.call call) used' := by
  cases call with
  | registerFatBinary m handle => exact ⟨used + 1, le_rfl, h.register hused m hallowed⟩
  | unregisterFatBinary handle => exact ⟨used, Nat.le_succ used, h.unregister handle⟩
  | registerFunction handle hostFun deviceName =>
      exact ⟨used, Nat.le_succ used, h.bind handle hostFun deviceName⟩
  | pushCallConfiguration c => exact ⟨used, Nat.le_succ used, h.of_same ⟨rfl, rfl⟩⟩
  | popCallConfiguration =>
      refine ⟨used, Nat.le_succ used, ?_⟩
      change Links s.cudaPopCallConfiguration.2 a used
      rw [RegistryState.cudaPopCallConfiguration]
      split
      · exact h
      · exact h.of_same ⟨rfl, rfl⟩
  | api out call =>
      refine ⟨used, Nat.le_succ used, h.of_same (Shim.call_registries ?_ call)⟩
      intro thrown left hthrown
      obtain ⟨hkernels, hmodules⟩ := hallowed thrown left hthrown
      exact ⟨hkernels, hmodules⟩

/-- The run lemma. -/
theorem links_run {calls : List HostCall} (hrun : Run HostStep {} calls s)
    (hfew : calls.length + 1 < 2 ^ 64) :
    ∃ used ≤ calls.length, Links s (calls.foldl Linkage.call {}) used := by
  refine hrun.invariant (I := fun calls s => calls.length + 1 < 2 ^ 64 →
    ∃ used ≤ calls.length, Links s (calls.foldl Linkage.call {}) used) ?_ ?_ hfew
  · exact fun _ => ⟨0, le_rfl, links_start⟩
  · intro calls s call t hkept hstep hfew
    rw [List.length_append, List.length_singleton] at hfew ⊢
    obtain ⟨used, hused, hlinks⟩ := hkept (by omega)
    cases hstep with
    | mk hallowed =>
        obtain ⟨used', hused', hlinks'⟩ := hlinks.call (by omega) hallowed
        rw [List.foldl_append]
        exact ⟨used', by omega, hlinks'⟩

/-- A launch finds what the description says. -/
theorem Links.selectKernel_eq (h : Links s a used) (func : Addr) (c : CallConfig) :
    s.shim.selectKernel func c = a.selectKernel func c := by
  have hlinks := h.bound func
  unfold Shim.selectKernel Linkage.selectKernel
  generalize s.shim.kernels func = ki at hlinks ⊢
  generalize a.bound func = b at hlinks ⊢
  cases hlinks with
  | unregistered => rfl
  | unknown => rfl
  | @known handle id m name hhandle hid hmodule =>
      have hpos : id ≠ 0 := by
        rintro rfl
        exact absurd (h.handles handle 0 hid).1 (by decide)
      dsimp only
      rewrite [if_neg hpos, hmodule]
      rfl

end Links

/-- **What a launch finds.** After any calls, fewer than the numbers there are, a launch finds for
its function exactly what the description says: the texts of the module it was registered under
last, as that module was registered, or that it is not registered or was without a module. No
function is left with the number of a module that is gone, and no two handles stand for one
module. -/
theorem launches_follow_linkage {calls : List HostCall} {s : RegistryState}
    (hrun : Run HostStep {} calls s) (hfew : calls.length + 1 < 2 ^ 64) :
    (∀ func c, s.shim.selectKernel func c = (calls.foldl Linkage.call {}).selectKernel func c)
      ∧ (∀ func ki, s.shim.kernels func = some ki →
          ki.moduleId = 0 ∨ ∃ m, s.shim.modules ki.moduleId = some m)
      ∧ ∀ h h' id, s.lookupByHandle h = some id → s.lookupByHandle h' = some id → h = h' := by
  obtain ⟨used, -, hlinks⟩ := links_run hrun hfew
  refine ⟨hlinks.selectKernel_eq, fun func ki hki => ?_, fun h h' id hid hid' => ?_⟩
  · have hfunction := hlinks.bound func
    rw [hki] at hfunction
    generalize (calls.foldl Linkage.call {}).bound func = b at hfunction
    cases hfunction with
    | unknown => exact .inl rfl
    | known _ _ hmodule => exact .inr ⟨_, hmodule⟩
  · have hhandle : ∀ h, s.lookupByHandle h = some id → s.handleToId h = some id := by
      intro h hid
      rcases hlinks.lookup h with ⟨hnone, -⟩ | ⟨id', m, -, hid', -, hsome, -⟩
      · rw [hnone] at hid
        cases hid
      · rw [hsome] at hid
        rwa [← hid]
    exact hlinks.injective h h' id (hhandle h hid) (hhandle h' hid')

/-! ### A handle that comes back -/

def moduleOf (text : String) : FatbinModule where
  ptxTexts := [text.toList]

/-- A module goes, and its handle comes back for another one. -/
def handleReuse : List HostCall :=
  [.registerFatBinary (moduleOf ".entry k a") 64, .registerFunction 64 8 (some ['k']),
    .unregisterFatBinary 64, .registerFatBinary (moduleOf ".entry k b") 64,
    .registerFunction 64 16 (some ['k'])]

theorem handleReuse_runs : ∃ s, Run HostStep {} handleReuse s := by
  have hregistered := Run.single (HostStep.mk (s := {})
    (.registerFatBinary (moduleOf ".entry k a") 64) (.inr rfl))
  have hlinked := hregistered.next (.mk (.registerFunction 64 8 (some ['k'])) trivial)
  have hremoved := hlinked.next (.mk (.unregisterFatBinary 64) (.inr (by decide)))
  have hreused := hremoved.next
    (.mk (.registerFatBinary (moduleOf ".entry k b") 64) (.inr rfl))
  exact ⟨_, hreused.next (.mk (.registerFunction 64 16 (some ['k'])) trivial)⟩

theorem launches_follow_linkage_reuse : ∃ s, Run HostStep {} handleReuse s
    ∧ s.shim.selectKernel 8 { grid := {}, block := {} }
      = .error (.cudaErrorInvalidDeviceFunction, "cudaLaunchKernel: kernel not registered")
    ∧ s.shim.selectKernel 16 { grid := {}, block := {} } = .ok (['k'], ".entry k b".toList) := by
  obtain ⟨s, hrun⟩ := handleReuse_runs
  obtain ⟨hselect, -⟩ := launches_follow_linkage hrun (by decide)
  refine ⟨s, hrun, (hselect 8 _).trans ?_, (hselect 16 _).trans ?_⟩
  · rfl
  · rfl

end ProtoGpu

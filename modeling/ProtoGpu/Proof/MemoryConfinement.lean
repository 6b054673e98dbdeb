import ProtoGpu.Proof.AssetTables
import ProtoGpu.Proof.GlobalAccess
import ProtoGpu.Proof.LaunchTermination
import ProtoGpu.Runtime.KernelRun

/-!
# Memory over the calls of a runtime

Kernels and copies write global memory through the allocator's check, so whatever the calls and
however the workers of their kernels are scheduled, every byte that is there lies in an allocation.
The memory a new allocation gets has then never been written, and reads as zero.
-/

namespace ProtoGpu

open Transitions

/-! ### Writes through the check -/

/-- What a sequence of checked writes leaves alone: the allocator, the parameters, every byte
outside of the allocations, and the presence of the others. -/
structure WritesInside (mem mem' : AddrSpaceManager) : Prop where
  next : mem'.nextGlobalAddr = mem.nextGlobalAddr
  allocs : mem'.allocs = mem.allocs
  layout : mem'.paramLayout = mem.paramLayout
  blob : mem'.paramBlob = mem.paramBlob
  outside : ∀ addr, (∀ a ∈ mem.allocs, ¬ a.Covers addr 1) → mem'.global addr = mem.global addr
  kept : ∀ addr, (mem.global addr).isSome = true → (mem'.global addr).isSome = true

namespace WritesInside

variable {mem mem' mem'' : AddrSpaceManager}

theorem refl (mem : AddrSpaceManager) : WritesInside mem mem :=
  ⟨rfl, rfl, rfl, rfl, fun _ _ => rfl, fun _ => id⟩

theorem trans (h : WritesInside mem mem') (h' : WritesInside mem' mem'') :
    WritesInside mem mem'' where
  next := h'.next.trans h.next
  allocs := h'.allocs.trans h.allocs
  layout := h'.layout.trans h.layout
  blob := h'.blob.trans h.blob
  outside := fun addr haddr => by
    rw [h'.outside addr (by rwa [h.allocs]), h.outside addr haddr]
  kept := fun addr haddr => h'.kept addr (h.kept addr haddr)

end WritesInside

/-- A byte of an allocated range lies in an allocation. -/
theorem covers_of_inRange {mem : AddrSpaceManager} {addr a : Addr} {size : Nat}
    (hsize : size < 2 ^ 64)
    (hallocated : mem.globalRangeAllocated addr (BitVec.ofNat 64 size) = true)
    (hin : InRange addr size a) : ∃ block ∈ mem.allocs, block.Covers a 1 := by
  have hpos : 0 < size := Nat.zero_lt_of_lt hin
  have hnat : (BitVec.ofNat 64 size).toNat = size := by
    rw [BitVec.toNat_ofNat, Nat.mod_eq_of_lt hsize]
  have hne : BitVec.ofNat 64 size ≠ 0 := by
    intro hzero
    rw [hzero] at hnat
    exact hpos.ne hnat
  obtain ⟨block, hblock, hbelow, hlow, hhigh⟩ := (globalRangeAllocated_iff hne).mp hallocated
  rw [hnat] at hhigh
  unfold InRange at hin
  exact ⟨block, hblock, hbelow, by bv_omega, by bv_omega⟩

theorem writesInside_sparse {mem : AddrSpaceManager} {addr : Addr} {bytes : List Byte}
    (hlength : bytes.length < 2 ^ 64)
    (hallocated : mem.globalRangeAllocated addr (BitVec.ofNat 64 bytes.length) = true) :
    WritesInside mem { mem with global := writeSparse mem.global addr bytes } := by
  refine ⟨rfl, rfl, rfl, rfl, fun a ha => ?_, fun a ha => ?_⟩
  · apply writeSparse_of_not_inRange _ _ hlength.le
    intro hin
    obtain ⟨block, hblock, hcovers⟩ := covers_of_inRange hlength hallocated hin
    exact ha block hblock hcovers
  · change (writeSparse mem.global addr bytes a).isSome = true
    rw [writeSparse_apply _ _ _ hlength.le]
    split
    · rfl
    · exact ha

theorem writesInside_writeGlobal {mem mem' : AddrSpaceManager} {addr : Addr} {bytes : List Byte}
    (hlength : bytes.length < 2 ^ 64) (hwrite : mem.writeGlobal addr bytes = some mem') :
    WritesInside mem mem' := by
  unfold AddrSpaceManager.writeGlobal at hwrite
  split at hwrite
  next hallocated =>
    obtain rfl := Option.some.inj hwrite
    exact writesInside_sparse hlength hallocated
  · cases hwrite

/-! ### The executor -/

theorem typeSize_lt (type : ValueType) : typeSize type < 2 ^ 64 := by
  cases type <;> decide

theorem writesInside_stGlobalLane {dst val : Operand} {size lane : Nat} {w : WarpState}
    {mem mem' : MemState} (hsize : size < 2 ^ 64)
    (hturn : stGlobalLane dst val size w lane mem = .ok mem') : WritesInside mem.mgr mem'.mgr := by
  obtain ⟨-, hallocated, v, -, rfl⟩ := stGlobalLane_ok hturn
  rw [← length_packLe v size] at hsize hallocated
  exact writesInside_sparse hsize hallocated

theorem writesInside_stStep (uop : MicroOp) (mask : LaneMask) (dst val : Operand) (w : WarpState)
    (mem : MemState) : WritesInside mem.mgr (stStep uop mask dst val w mem).2.mgr := by
  unfold stStep
  dsimp only
  split
  · split
    · exact .refl _
    · rw [stepOfLoop_snd]
      refine laneLoop_induct (P := fun m : MemState => WritesInside mem.mgr m.mgr) ?_ (.refl _)
      intro _ _ _ hturn hkept
      exact hkept.trans (writesInside_stGlobalLane (typeSize_lt _) hturn)
  · split
    · exact .refl _
    · rw [stepOfLoop_snd]
      refine laneLoop_induct (P := fun m : MemState => WritesInside mem.mgr m.mgr) ?_ (.refl _)
      intro _ _ _ hturn hkept
      rwa [stLocalLane_mgr hturn]
  · exact .refl _

theorem writesInside_memUnit (uop : MicroOp) (w : WarpState) (mem : MemState) :
    WritesInside mem.mgr (MemUnit.step uop w mem).2.2.mgr := by
  unfold MemUnit.step
  split
  · exact .refl _
  · dsimp only
    split
    · split <;> exact .refl _
    · split
      · exact writesInside_stStep ..
      · exact .refl _
    · exact .refl _

section Steps

variable {ctx : WarpContext} {inst : InstRecord}

theorem detectSplit_mem {uop : MicroOp} {target : Int} {s s' : IssueState}
    (h : detectSplit ctx inst uop target s = .ok s') : s'.mem = s.mem := by
  unfold detectSplit at h
  dsimp only at h
  split at h
  · cases h
    rfl
  · split at h
    · cases h
    · split at h
      · cases h
        rfl
      · cases h

theorem setNextPc_mem {target : Int} {s s' : IssueState}
    (h : setNextPc ctx inst target s = .ok s') : s'.mem = s.mem := by
  unfold setNextPc at h
  split at h
  · cases h
    rfl
  · split at h
    · cases h
    · cases h
      rfl

theorem ctrlStep_mem (uop : MicroOp) (s : IssueState) :
    (ctrlStep ctx inst uop s).2.mem = s.mem := by
  unfold ctrlStep
  dsimp only
  split
  · rfl
  · split
    · rfl
    · split
      · rfl
      next s'' hdetected =>
        have hsplit : s''.mem = s.mem := by
          split at hdetected
          · exact (detectSplit_mem hdetected).trans rfl
          · cases hdetected
            rfl
        split
        · exact hsplit
        next hnext => exact (setNextPc_mem hnext).trans hsplit

theorem ctrlRet_mem (uop : MicroOp) (s : IssueState) : (ctrlRet uop s).mem = s.mem := by
  unfold ctrlRet
  dsimp only
  split
  · rfl
  · split <;> rfl

theorem writesInside_uopStep (ctx : WarpContext) (inst : InstRecord) (uop : MicroOp)
    (s : IssueState) : WritesInside s.mem.mgr (uopStep ctx inst uop s).2.mem.mgr := by
  unfold uopStep
  split
  · split <;> exact .refl _
  · split
    · rw [ctrlRet_mem]
      exact .refl _
    · rw [ctrlStep_mem]
      exact .refl _
  · have hunit := writesInside_memUnit uop s.warp s.mem
    split
    next hstep =>
      rw [hstep] at hunit
      exact hunit
    next hstep =>
      rw [hstep] at hunit
      exact hunit

theorem writesInside_uopLoop (ctx : WarpContext) (inst : InstRecord) (uops : List MicroOp)
    (s : IssueState) : WritesInside s.mem.mgr (uopLoop ctx inst uops s).2.mem.mgr := by
  induction uops generalizing s with
  | nil => exact .refl _
  | cons uop uops ih =>
      have hfirst := writesInside_uopStep ctx inst uop s
      rw [uopLoop]
      split
      next hstep =>
        rw [hstep] at hfirst
        exact hfirst
      next hstep =>
        rw [hstep] at hfirst
        exact hfirst.trans (ih _)

theorem writesInside_issueInst (ctx : WarpContext) (w : WarpState) (mem : MemState) :
    WritesInside mem.mgr (issueInst ctx w mem).2.2.mgr := by
  unfold issueInst
  split
  · exact .refl _
  · split
    · exact .refl _
    · split
      · exact .refl _
      · split
        · exact .refl _
        next uops _ =>
          have hloop : ∀ inst f s, uopLoop ctx inst uops { warp := w, mem := mem } = (f, s) →
              WritesInside mem.mgr s.mem.mgr := by
            intro inst f s hrun
            have hwrites := writesInside_uopLoop ctx inst uops
              { warp := w, mem := mem }
            rwa [hrun] at hwrites
          split
          next hrun =>
            exact hloop _ _ _ hrun
          next hrun =>
            exact hloop _ _ _ hrun

/-- A step of a warp writes inside the allocations, also where it ends in a fault. -/
theorem writesInside_warpStep (ctx : WarpContext) (w : WarpState) (mem : MemState) :
    WritesInside mem.mgr (warpStep ctx w mem).2.2.mgr := by
  unfold warpStep
  split
  · exact .refl _
  · exact .refl _
  next w' _ =>
    have hissue := writesInside_issueInst ctx w' mem
    split
    next hrun =>
      rw [hrun] at hissue
      exact hissue
    next hrun =>
      rw [hrun] at hissue
      exact hissue

end Steps

/-! ### Launches -/

section Launches

variable {env : DriverEnv} {smId : SmId} {s t : DriverState} {e : DriverEvent}

theorem writesInside_driverStep (h : DriverStep env s e t) : WritesInside s.mem.mgr t.mem.mgr := by
  cases h with
  | work smId hstep =>
      rcases workerStep_mem hstep with hsame | ⟨cta, w, warp, -, -, hmem⟩
      · rw [hsame]
        exact .refl _
      · rw [hmem]
        exact writesInside_warpStep _ warp s.mem
  | acquire => exact .refl _

theorem writesInside_run {mem : AddrSpaceManager} {es : List DriverEvent}
    (hrun : Run (DriverStep env) (env.start { mgr := mem }) es s) : WritesInside mem s.mem.mgr := by
  refine hrun.invariant (I := fun _ s => WritesInside mem s.mem.mgr) (.refl mem) ?_
  intro _ _ _ _ hkept hstep
  exact hkept.trans (writesInside_driverStep hstep)

theorem ExecutorRun.writesInside {mem mem' : AddrSpaceManager} {r : Except String SimResult}
    (h : ExecutorRun env mem r mem') : WritesInside mem mem' := by
  cases h with
  | ended hrun _ => exact writesInside_run hrun
  | @threw es s smId cta w warp warp' mem' what hrun hsequential hphase hwarp hstep =>
      have hlast := writesInside_warpStep (env.warpContext cta.reconvPc) warp s.mem
      rw [hstep] at hlast
      exact (writesInside_run hrun).trans hlast

end Launches

/-! ### One kernel run -/

/-- What a kernel run leaves alone, however it ends. -/
structure KernelFrame (env : RunEnv) (job : KernelJob) (rt rt' : Runtime) : Prop where
  hostBufs : rt'.hostBufs = rt.hostBufs
  nextHostBufId : rt'.nextHostBufId = rt.nextHostBufId
  next : rt'.mem.nextGlobalAddr = rt.mem.nextGlobalAddr
  allocs : rt'.mem.allocs = rt.mem.allocs
  outside : ∀ addr, (∀ a ∈ rt.mem.allocs, ¬ a.Covers addr 1) →
    rt'.mem.global addr = rt.mem.global addr
  kept : ∀ addr, (rt.mem.global addr).isSome = true → (rt'.mem.global addr).isSome = true
  /-- A run that is refused before its parameters are set changes nothing. -/
  refused : (∀ k, job.stage env ≠ .ok (.ok k)) → rt' = rt
  /-- A launch the executor refuses changes the parameters only. -/
  rejected : ∀ k, job.stage env = .ok (.ok k) →
    (∀ plan, checkLaunch env.sim k.image job.launch ≠ .ok plan) → rt'.mem.global = rt.mem.global
  /-- The parameters are those of this run, whatever ran before. -/
  params : ∀ k, job.stage env = .ok (.ok k) →
    rt'.mem.paramLayout = (job.setParams k {}).paramLayout
      ∧ rt'.mem.paramBlob = (job.setParams k {}).paramBlob

section Frame

variable {env : RunEnv} {job : KernelJob} {rt rt' : Runtime} {k : StagedKernel}

theorem KernelFrame.of_unstaged (hstage : ∀ k, job.stage env ≠ .ok (.ok k)) :
    KernelFrame env job rt rt where
  hostBufs := rfl
  nextHostBufId := rfl
  next := rfl
  allocs := rfl
  outside := fun _ _ => rfl
  kept := fun _ => id
  refused := fun _ => rfl
  rejected := fun _ _ _ => rfl
  params := fun k hk => absurd hk (hstage k)

/-- The writes of a staged kernel, behind its parameters. -/
theorem KernelFrame.of_staged {mem : AddrSpaceManager} (hstage : job.stage env = .ok (.ok k))
    (hwrites : WritesInside (job.setParams k rt.mem) mem)
    (hrejected : (∀ plan, checkLaunch env.sim k.image job.launch ≠ .ok plan) →
      mem.global = rt.mem.global) :
    KernelFrame env job rt { rt with mem := mem } where
  hostBufs := rfl
  nextHostBufId := rfl
  next := hwrites.next
  allocs := hwrites.allocs
  outside := hwrites.outside
  kept := hwrites.kept
  refused := fun h => absurd hstage (h k)
  rejected := fun k' hk' => by
    rw [hstage] at hk'
    cases hk'
    exact hrejected
  params := fun k' hk' => by
    rw [hstage] at hk'
    cases hk'
    exact ⟨hwrites.layout, hwrites.blob⟩

end Frame

theorem KernelRun.frame {env : RunEnv} {job : KernelJob} {rt rt' : Runtime}
    {r : Except String SimResult} (hrun : KernelRun env job rt r rt') :
    KernelFrame env job rt rt' := by
  cases hrun with
  | threw hstage =>
      refine .of_unstaged fun k hk => ?_
      rw [hstage] at hk
      cases hk
  | diagnosed hstage =>
      refine .of_unstaged fun k hk => ?_
      rw [hstage] at hk
      cases hk
  | rejected hstage hcheck => exact .of_staged hstage (.refl _) fun _ => rfl
  | executed hstage hcheck hexec =>
      exact .of_staged hstage hexec.writesInside fun hnone => absurd hcheck (hnone _)

/-! ### Copies -/

section Copies

variable {rt rt' : Runtime}

theorem hostWrite_mem {id : HostBufId} {offset : BitVec 64} {bytes : List Byte}
    (hwrite : rt.hostWrite id offset bytes = .ok rt') : rt'.mem = rt.mem := by
  unfold Runtime.hostWrite at hwrite
  split at hwrite
  · cases hwrite
  · split at hwrite
    · cases hwrite
    · cases hwrite
      rfl

theorem memcpyD2h_mem {dst : HostBufId} {dstOffset : BitVec 64} {src : Addr} {bytes : BitVec 64}
    (hcopy : rt.memcpyD2h dst dstOffset src bytes = .ok rt') : rt'.mem = rt.mem := by
  unfold Runtime.memcpyD2h at hcopy
  split at hcopy
  · cases hcopy
  · exact hostWrite_mem hcopy

theorem length_hostRead {id : HostBufId} {offset bytes : BitVec 64} {data : List Byte}
    (hread : rt.hostRead id offset bytes = some data) : data.length = bytes.toNat := by
  unfold Runtime.hostRead at hread
  split at hread
  · cases hread
  · split at hread
    · cases hread
    · rw [← Option.some.inj hread, List.length_map, List.length_range]

theorem writesInside_memcpyH2d {dst : Addr} {src : HostBufId} {srcOffset bytes : BitVec 64}
    (hcopy : rt.memcpyH2d dst src srcOffset bytes = .ok rt') : WritesInside rt.mem rt'.mem := by
  unfold Runtime.memcpyH2d at hcopy
  split at hcopy
  · cases hcopy
  next data hread =>
    split at hcopy
    · cases hcopy
    next mem hwrite =>
      cases hcopy
      apply writesInside_writeGlobal _ hwrite
      rw [length_hostRead hread]
      exact bytes.isLt

end Copies

/-! ### Histories of calls -/

/-- Every byte that is there lies in an allocation. -/
def Confined (mem : AddrSpaceManager) : Prop :=
  ∀ addr, (mem.global addr).isSome = true → ∃ a ∈ mem.allocs, a.Covers addr 1

/-- Bytes appear inside the allocations only. -/
theorem Confined.of_outside {mem mem' : AddrSpaceManager} (h : Confined mem)
    (hallocs : ∀ a ∈ mem.allocs, a ∈ mem'.allocs)
    (houtside : ∀ addr, (∀ a ∈ mem.allocs, ¬ a.Covers addr 1) → mem'.global addr
      = mem.global addr) : Confined mem' := by
  intro addr haddr
  by_cases hcovered : ∃ a ∈ mem.allocs, a.Covers addr 1
  · obtain ⟨a, ha, hcovers⟩ := hcovered
    exact ⟨a, hallocs a ha, hcovers⟩
  · have hfree : ∀ a ∈ mem.allocs, ¬ a.Covers addr 1 := fun a ha hcovers =>
      hcovered ⟨a, ha, hcovers⟩
    rw [houtside addr hfree] at haddr
    exact absurd (h addr haddr) hcovered

/-- What the source defines of a call on the runtime: a sum of an offset and a length does not wrap
past the range check of a host buffer, and the workers of a kernel do not race. -/
def RuntimeCall.Defined (rt : Runtime) : RuntimeCall → Prop
  | .hostWrite _ offset bytes => offset.toNat + bytes.length < 2 ^ 64
  | .memcpyH2d _ _ srcOffset bytes => srcOffset.toNat + bytes.toNat < 2 ^ 64
  | .memcpyD2h _ dstOffset _ bytes => dstOffset.toNat + bytes.toNat < 2 ^ 64
  | .runKernel env job => ∀ k plan, job.stage env = .ok (.ok k) →
      checkLaunch env.sim k.image job.launch = .ok plan →
        (env.driver job k plan).RaceFree { mgr := job.setParams k rt.mem }
  | _ => True

def DefinedStep (hostFits : Nat → Bool) (rt : Runtime) (call : RuntimeCall) (rt' : Runtime) :
    Prop :=
  RuntimeStep hostFits rt call rt' ∧ call.Defined rt

/-- What the calls asked of the allocator. -/
def requestsOf : List RuntimeCall → List AllocRequest
  | [] => []
  | .deviceMalloc bytes align :: calls => { bytes := bytes, align := align } :: requestsOf calls
  | _ :: calls => requestsOf calls

theorem requestsOf_append (calls calls' : List RuntimeCall) :
    requestsOf (calls ++ calls') = requestsOf calls ++ requestsOf calls' := by
  induction calls with
  | nil => rfl
  | cons call calls ih =>
      cases call with
      | deviceMalloc bytes align => exact congrArg (_ :: ·) ih
      | _ => exact ih

/-- The allocator behind a sequence of requests. -/
def allocAll (mem : AddrSpaceManager) (rs : List AllocRequest) : AddrSpaceManager :=
  rs.foldl (fun mem r => (mem.allocGlobal r.bytes r.align).2) mem

def granted (r : AllocRequest) (base : Addr) : Allocation := { base := base, size := r.bytes }

theorem allocs_allocAll (mem : AddrSpaceManager) (rs : List AllocRequest) :
    (allocAll mem rs).allocs = mem.allocs ++ List.zipWith granted rs (grants mem rs) := by
  induction rs generalizing mem with
  | nil => exact (List.append_nil _).symm
  | cons r rs ih =>
      calc
        (allocAll mem (r :: rs)).allocs =
            (mem.allocGlobal r.bytes r.align).2.allocs
              ++ List.zipWith granted rs (grants (mem.allocGlobal r.bytes r.align).2 rs) := ih _
        _ = mem.allocs ++ List.zipWith granted (r :: rs) (grants mem (r :: rs)) :=
          List.append_assoc ..

theorem grants_snoc (mem : AddrSpaceManager) (rs : List AllocRequest) (r : AllocRequest) :
    grants mem (rs ++ [r])
      = grants mem rs ++ [((allocAll mem rs).allocGlobal r.bytes r.align).1] := by
  induction rs generalizing mem with
  | nil => rfl
  | cons first rs ih => exact congrArg (_ :: ·) (ih _)

/-- Where a request is granted depends on the next free address alone. -/
theorem allocGlobal_congr {mem mem' : AddrSpaceManager}
    (hnext : mem'.nextGlobalAddr = mem.nextGlobalAddr) (bytes align : Addr) :
    (mem'.allocGlobal bytes align).1 = (mem.allocGlobal bytes align).1
      ∧ (mem'.allocGlobal bytes align).2.nextGlobalAddr
        = (mem.allocGlobal bytes align).2.nextGlobalAddr := by
  unfold AddrSpaceManager.allocGlobal
  rw [hnext]
  exact ⟨rfl, rfl⟩

/-- What holds of the memory behind every sequence of calls. -/
structure MemoryInv (calls : List RuntimeCall) (rt : Runtime) : Prop where
  confined : Confined rt.mem
  next : rt.mem.nextGlobalAddr = (allocAll {} (requestsOf calls)).nextGlobalAddr
  allocs : rt.mem.allocs = (allocAll {} (requestsOf calls)).allocs

namespace MemoryInv

variable {calls : List RuntimeCall} {call : RuntimeCall} {rt rt' : Runtime} {hostFits : Nat → Bool}

/-- A call that allocates nothing and writes inside the allocations. -/
theorem keep (h : MemoryInv calls rt) (hcall : requestsOf [call] = [])
    (hnext : rt'.mem.nextGlobalAddr = rt.mem.nextGlobalAddr)
    (hallocs : rt'.mem.allocs = rt.mem.allocs)
    (houtside : ∀ addr, (∀ a ∈ rt.mem.allocs, ¬ a.Covers addr 1) →
      rt'.mem.global addr = rt.mem.global addr) : MemoryInv (calls ++ [call]) rt' := by
  have hrequests : requestsOf (calls ++ [call]) = requestsOf calls := by
    rw [requestsOf_append, hcall, List.append_nil]
  refine ⟨h.confined.of_outside (fun a ha => ?_) houtside, ?_, ?_⟩
  · rwa [hallocs]
  · rw [hrequests, hnext, h.next]
  · rw [hrequests, hallocs, h.allocs]

theorem same (h : MemoryInv calls rt) (hcall : requestsOf [call] = []) (hmem : rt'.mem = rt.mem) :
    MemoryInv (calls ++ [call]) rt' :=
  h.keep hcall (by rw [hmem]) (by rw [hmem]) fun _ _ => by rw [hmem]

theorem malloc (h : MemoryInv calls rt) (bytes align : Addr) :
    MemoryInv (calls ++ [.deviceMalloc bytes align]) (rt.deviceMalloc bytes align).2 := by
  have hrequests : allocAll {} (requestsOf (calls ++ [.deviceMalloc bytes align]))
      = ((allocAll {} (requestsOf calls)).allocGlobal bytes align).2 := by
    rw [requestsOf_append, allocAll, List.foldl_append]
    rfl
  obtain ⟨hbase, hnext⟩ := allocGlobal_congr h.next bytes align
  refine ⟨h.confined.of_outside (fun a ha => List.mem_append_left _ ha) fun _ _ => rfl, ?_, ?_⟩
  · rw [hrequests]
    exact hnext
  · rw [hrequests]
    change rt.mem.allocs ++ [granted ⟨bytes, align⟩ (rt.mem.allocGlobal bytes align).1]
      = (allocAll {} (requestsOf calls)).allocs
        ++ [granted ⟨bytes, align⟩ ((allocAll {} (requestsOf calls)).allocGlobal bytes align).1]
    rw [hbase, h.allocs]

theorem step (h : MemoryInv calls rt) (hstep : RuntimeStep hostFits rt call rt') :
    MemoryInv (calls ++ [call]) rt' := by
  cases hstep with
  | hostAlloc bytes =>
      refine h.same rfl ?_
      unfold Runtime.hostAlloc
      dsimp only
      split <;> rfl
  | hostWrite id offset bytes =>
      apply h.same rfl
      cases hwrite : rt.hostWrite id offset bytes with
      | error what => rfl
      | ok rt' => exact hostWrite_mem hwrite
  | deviceMalloc bytes align => exact h.malloc bytes align
  | memcpyH2d dst src srcOffset bytes =>
      cases hcopy : rt.memcpyH2d dst src srcOffset bytes with
      | error what => exact h.same rfl rfl
      | ok rt' =>
          have hwrites := writesInside_memcpyH2d hcopy
          exact h.keep rfl hwrites.next hwrites.allocs hwrites.outside
  | memcpyD2h dst dstOffset src bytes =>
      apply h.same rfl
      cases hcopy : rt.memcpyD2h dst dstOffset src bytes with
      | error what => rfl
      | ok rt' => exact memcpyD2h_mem hcopy
  | runKernel hrun =>
      have hframe := hrun.frame
      exact h.keep rfl hframe.next hframe.allocs hframe.outside

end MemoryInv

theorem confined_empty : Confined {} := by
  intro addr haddr
  cases haddr

theorem memoryInv_run {calls : List RuntimeCall} {rt : Runtime} {hostFits : Nat → Bool}
    (hrun : Run (RuntimeStep hostFits) {} calls rt) : MemoryInv calls rt :=
  hrun.invariant ⟨confined_empty, rfl, rfl⟩ fun _ _ _ _ hinv hstep => hinv.step hstep

/-! ### Fresh memory -/

/-- While the requests fit, a new block begins at or behind the end of every block before it. -/
theorem granted_behind {rs : List AllocRequest} {r : AllocRequest}
    (hfits : FitsBelow ({} : AddrSpaceManager).nextGlobalAddr.toNat (rs ++ [r])) {a : Allocation}
    (ha : a ∈ (allocAll {} rs).allocs) :
    a.base.toNat + a.size.toNat ≤ ((allocAll {} rs).allocGlobal r.bytes r.align).1.toNat := by
  have hblocks := grants_eq_blocks hfits
  rw [grants_snoc, List.zipWith_append (length_grants ..).symm] at hblocks
  have hpairwise := Bump.pairwise_blocks ({} : AddrSpaceManager).nextGlobalAddr.toNat
    ((rs ++ [r]).map AllocRequest.effective)
  rw [← hblocks] at hpairwise
  rw [allocs_allocAll, List.nil_append, ← List.map_uncurry_zip_eq_zipWith] at ha
  obtain ⟨⟨r', base⟩, hpair, rfl⟩ := List.mem_map.mp ha
  have hearlier : grantedBlock r' base ∈ List.zipWith grantedBlock rs (grants {} rs) := by
    rw [← List.map_uncurry_zip_eq_zipWith]
    exact List.mem_map.mpr ⟨(r', base), hpair, rfl⟩
  have hbehind : (grantedBlock r' base).limit
      ≤ (grantedBlock r ((allocAll {} rs).allocGlobal r.bytes r.align).1).base :=
    (List.pairwise_append.mp hpairwise).2.2 _ hearlier _ List.mem_cons_self
  have hsize : r'.bytes.toNat ≤ r'.effective.size := Nat.le_max_left ..
  exact (Nat.add_le_add_left hsize _).trans hbehind

/-- The bytes of a new block are not there. -/
theorem fresh_absent {calls : List RuntimeCall} {rt : Runtime} {hostFits : Nat → Bool}
    (hrun : Run (RuntimeStep hostFits) {} calls rt) {r : AllocRequest}
    (hfits : FitsBelow ({} : AddrSpaceManager).nextGlobalAddr.toNat (requestsOf calls ++ [r]))
    {addr : Addr} (haddr : (rt.deviceMalloc r.bytes r.align).1.toNat ≤ addr.toNat) :
    rt.mem.global addr = none := by
  have hinv := memoryInv_run hrun
  obtain ⟨hbase, -⟩ := allocGlobal_congr hinv.next r.bytes r.align
  by_contra hpresent
  obtain ⟨a, ha, -, -, hend⟩ := hinv.confined addr (Option.isSome_iff_ne_none.mpr hpresent)
  rw [hinv.allocs] at ha
  have hbehind := granted_behind hfits ha
  have hsame : (rt.deviceMalloc r.bytes r.align).1
      = ((allocAll {} (requestsOf calls)).allocGlobal r.bytes r.align).1 := hbase
  rw [hsame] at haddr
  omega

/-- A range of a new block reads as zeros. -/
theorem fresh_reads {calls : List RuntimeCall} {rt : Runtime} {hostFits : Nat → Bool}
    (hrun : Run (RuntimeStep hostFits) {} calls rt) {r : AllocRequest}
    (hfits : FitsBelow ({} : AddrSpaceManager).nextGlobalAddr.toNat (requestsOf calls ++ [r]))
    {addr size : Addr} (hlow : (rt.deviceMalloc r.bytes r.align).1.toNat ≤ addr.toNat)
    (hhigh : addr.toNat + size.toNat ≤ (rt.deviceMalloc r.bytes r.align).1.toNat + r.bytes.toNat)
    (hbelow : (rt.deviceMalloc r.bytes r.align).1.toNat + r.bytes.toNat < 2 ^ 64) :
    (rt.deviceMalloc r.bytes r.align).2.mem.readGlobal addr size
      = some (List.replicate size.toNat 0) := by
  have hallocated :
      (rt.deviceMalloc r.bytes r.align).2.mem.globalRangeAllocated addr size = true := by
    by_cases hzero : size = 0
    · rw [AddrSpaceManager.globalRangeAllocated, if_pos hzero]
    · refine (globalRangeAllocated_iff hzero).mpr
        ⟨granted r (rt.deviceMalloc r.bytes r.align).1, ?_, ?_⟩
      · exact List.mem_append_right _ List.mem_cons_self
      · exact ⟨hbelow, hlow, hhigh⟩
  rw [AddrSpaceManager.readGlobal, if_pos hallocated, readSparse]
  congr 1
  refine List.eq_replicate_iff.mpr ⟨by rw [List.length_map, List.length_range], fun b hb => ?_⟩
  obtain ⟨i, hi, rfl⟩ := List.mem_map.mp hb
  have hlt := List.mem_range.mp hi
  have habsent : rt.mem.global (addr + BitVec.ofNat 64 i) = none := by
    apply fresh_absent hrun hfits
    rw [BitVec.toNat_add, BitVec.toNat_ofNat]
    omega
  change (rt.mem.global (addr + BitVec.ofNat 64 i)).getD 0 = 0
  rw [habsent]
  rfl

/-- **Memory over the calls of a runtime**, kernels with any schedule among them. Every byte that is
there lies in an allocation; the memory of a new allocation reads as zeros while the requests fit
the address space; and a kernel run, however it ends, keeps its frame. -/
theorem runtime_memory_safe {hostFits : Nat → Bool} {calls : List RuntimeCall} {rt : Runtime}
    (hrun : Run (DefinedStep hostFits) {} calls rt) :
    Confined rt.mem
      ∧ (∀ r : AllocRequest,
        FitsBelow ({} : AddrSpaceManager).nextGlobalAddr.toNat (requestsOf calls ++ [r]) →
        ∀ addr size : Addr, (rt.deviceMalloc r.bytes r.align).1.toNat ≤ addr.toNat →
          addr.toNat + size.toNat ≤ (rt.deviceMalloc r.bytes r.align).1.toNat + r.bytes.toNat →
          (rt.deviceMalloc r.bytes r.align).1.toNat + r.bytes.toNat < 2 ^ 64 →
          (rt.deviceMalloc r.bytes r.align).2.mem.readGlobal addr size
            = some (List.replicate size.toNat 0))
      ∧ ∀ env job r rt', (RuntimeCall.runKernel env job).Defined rt → KernelRun env job rt r rt' →
          KernelFrame env job rt rt' := by
  have hplain := hrun.mono fun _ _ _ hstep => hstep.1
  exact ⟨(memoryInv_run hplain).confined,
    fun _ hfits _ _ hlow hhigh hbelow => fresh_reads hplain hfits hlow hhigh hbelow,
    fun _ _ _ _ _ hkernel => hkernel.frame⟩

/-! ### Two CTAs that store -/

/-- What is staged with tables that are loaded. -/
def KernelJob.stageWith (env : RunEnv) (job : KernelJob) (isa : PtxIsaRegistry)
    (registry : DescriptorRegistry) : Except String (Except Diagnostic StagedKernel) := do
  let tokens ← parsePtxTextTokens env.aliasOrder job.ptxText "<ptx>"
  match ← job.bind tokens with
  | .error diag => return .error diag
  | .ok kernel => stageTokens kernel isa registry job.launch

theorem stage_of_tables {env : RunEnv} {job : KernelJob} {isa : PtxIsaRegistry}
    {registry : DescriptorRegistry}
    (hisa : loaded (PtxIsaRegistry.loadJsonText job.ptxIsaJsonText) = .ok isa)
    (hregistry : loaded (DescriptorRegistry.loadJsonText env.platform false job.instDescJsonText)
      = .ok registry) : job.stage env = job.stageWith env isa registry := by
  unfold KernelJob.stage
  rw [hisa, hregistry]
  rfl

/-- The shipped map without the form that has no descriptor. -/
def describedIsa : PtxIsaRegistry where
  entries := demoIsa.entries.erase (isaForm "mov" "u32" ["reg", "symbol"] "mov")

/-- Every thread stores its lane to `*p`. -/
def storeJob : KernelJob where
  ptxText := (".visible .entry k(\n.param .u64 p\n)\n\x7b\nld.param.u64 %rd0, [p];\n"
    ++ "mov.u32 %r0, %laneid;\nst.global.u32 [%rd0], %r0;\nret;\n\x7d\n").toList
  ptxIsaJsonText := Json.stringify describedIsa.document
  instDescJsonText := Json.stringify demoDescs.document
  entry := some "k".toList
  args := some { layout := [{ name := "p", type := .u64, size := 8, align := 8 }]
                 blob := [0, 0x10, 0, 0, 0, 0, 0, 0] }
  launch := { gridDim := { x := 2 }, blockDim := { x := 2 }, warpSize := 2 }

/-- Two workers in parallel. -/
def storeRunEnv : RunEnv where
  sim := { maxSteps := 100, warpSize := 2, smCount := 2, parallel := true }
  aliasOrder := .inserted
  platform := { outOfRange := fun _ => 0, visit := id }
  floatOps := .unused

def storeLine (n : Int) : SourceLocation := { file := "<ptx>", line := n, column := 1 }

def storeKernel : StagedKernel where
  image :=
    { name := "k"
      insts :=
        [ { opcode := "ld", mods := { typeMod := "u64", space := "param" }
            operands :=
              [{ kind := .reg, type := .u64, regId := 0 }, { kind := .symbol, symbol := "p" }]
            dbg := some (storeLine 5) },
          { movLaneid 0 with dbg := some (storeLine 6) },
          { opcode := "st", mods := { typeMod := "u32", space := "global" }
            operands := [{ kind := .addr, type := .u64, regId := 0 }, .reg 0]
            dbg := some (storeLine 7) },
          { retInst with dbg := some (storeLine 8) } ] }
  params := [{ name := "p", type := .u64, size := 8, align := 8 }]
  registry := demoDescs

theorem storeJob_isa :
    loaded (PtxIsaRegistry.loadJsonText storeJob.ptxIsaJsonText) = .ok describedIsa := by
  have hlower : describedIsa.Lower := by
    unfold PtxIsaRegistry.Lower
    decide +kernel
  have htext : storeJob.ptxIsaJsonText = Json.stringify describedIsa.document := rfl
  rw [htext, PtxIsaRegistry.load_document hlower]
  rfl

theorem storeJob_registry :
    loaded (DescriptorRegistry.loadJsonText storeRunEnv.platform false storeJob.instDescJsonText)
      = .ok demoDescs := by
  have htext : storeJob.instDescJsonText = Json.stringify demoDescs.document := rfl
  rw [htext, DescriptorRegistry.load_document _ false writable_demoDescs]
  rfl

theorem storeJob_stage : storeJob.stage storeRunEnv = .ok (.ok storeKernel) := by
  rw [stage_of_tables storeJob_isa storeJob_registry]
  decide +kernel

def storePlan : LaunchPlan where
  threadsPerBlock := 2
  warpSize := 2
  warpCount := 1
  smCount := 2
  ctaSched := .fifo
  warpSched := .inOrderRunToCompletion

theorem storeJob_plan :
    checkLaunch storeRunEnv.sim storeKernel.image storeJob.launch = .ok storePlan := by
  decide

def storeDriver : DriverEnv := storeRunEnv.driver storeJob storeKernel storePlan

theorem storeDriver_raceFree (mem : MemState) : storeDriver.RaceFree mem :=
  raceFree_of_leavesLocal (by decide) (by decide)

theorem storeJob_defined (rt : Runtime) :
    (RuntimeCall.runKernel storeRunEnv storeJob).Defined rt := by
  intro k plan hstage hcheck
  obtain rfl := Except.ok.inj (Except.ok.inj (storeJob_stage.symm.trans hstage))
  obtain rfl := Except.ok.inj (storeJob_plan.symm.trans hcheck)
  exact storeDriver_raceFree _

/-- The runtime before the kernel: four bytes are copied to `0x1000`. -/
def copiedIn : Runtime :=
  let rt := (({} : Runtime).hostAlloc (fun _ => true) 4).2
  let rt := rt.after (rt.hostWrite 1 0 [9, 9, 9, 9])
  let rt := (rt.deviceMalloc 4 16).2
  rt.after (rt.memcpyH2d 0x1000 1 0 4)

def storeTurns : List DriverEvent × DriverState :=
  storeDriver.turns (List.replicate 50 [0, 1]).flatten
    (storeDriver.start { mgr := storeJob.setParams storeKernel copiedIn.mem })

theorem storeTurns_ended : storeTurns.2.Ended := by
  apply ended_of_workers (turns_run storeDriver _ _)
  decide +kernel

theorem storeTurns_result : storeTurns.2.result = { completed := true, steps := 8 } := by
  decide +kernel

/-- The runtime behind the kernel. -/
def stored : Runtime := { copiedIn with mem := storeTurns.2.mem.mgr }

theorem storeJob_runs :
    KernelRun storeRunEnv storeJob copiedIn (.ok { completed := true, steps := 8 }) stored := by
  have hexec := ExecutorRun.ended (s := storeTurns.2) (turns_run storeDriver _ _) storeTurns_ended
  rw [storeTurns_result] at hexec
  exact .executed storeJob_stage storeJob_plan hexec

/-- The lane of the last store is copied back, and sixteen more bytes read as zeros. -/
theorem runtime_memory_safe_store :
    ∃ rt, Run (DefinedStep fun _ => true) {} [.hostAlloc 4, .hostWrite 1 0 [9, 9, 9, 9],
        .deviceMalloc 4 16, .memcpyH2d 0x1000 1 0 4, .runKernel storeRunEnv storeJob,
        .memcpyD2h 1 0 0x1000 4] rt
      ∧ rt.hostBufs 1 = some [1, 0, 0, 0]
      ∧ (rt.deviceMalloc 16 16).2.mem.readGlobal 0x1010 16 = some (List.replicate 16 0)
      ∧ Confined rt.mem := by
  have hcopied : Run (DefinedStep fun _ => true) {} [.hostAlloc 4, .hostWrite 1 0 [9, 9, 9, 9],
      .deviceMalloc 4 16, .memcpyH2d 0x1000 1 0 4] copiedIn :=
    (((Run.start.next ⟨.hostAlloc 4, trivial⟩).next
      ⟨.hostWrite 1 0 [9, 9, 9, 9], show 0 + 4 < 2 ^ 64 by decide⟩).next
      ⟨.deviceMalloc 4 16, trivial⟩).next ⟨.memcpyH2d 0x1000 1 0 4, show 0 + 4 < 2 ^ 64 by decide⟩
  have hstored := hcopied.next ⟨.runKernel storeJob_runs, storeJob_defined copiedIn⟩
  have hrun := hstored.next ⟨.memcpyD2h 1 0 0x1000 4, show 0 + 4 < 2 ^ 64 by decide⟩
  obtain ⟨hconfined, hfresh, -⟩ := runtime_memory_safe hrun
  refine ⟨_, hrun, by decide +kernel, ?_, hconfined⟩
  exact hfresh ⟨16, 16⟩ (by decide) 0x1010 16 (by decide +kernel) (by decide +kernel)
    (by decide +kernel)

end ProtoGpu

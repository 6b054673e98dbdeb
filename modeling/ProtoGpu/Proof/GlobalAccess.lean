import ProtoGpu.Proof.DeviceRefinement
import ProtoGpu.Proof.GlobalStore
import ProtoGpu.Shim.KernelArgs

/-!
# Global accesses after allocations

`cudaFree` takes an allocation out of the map of the shim only; the allocator below keeps every
block it has handed out. So a kernel reaches exactly the allocations that `cudaMalloc` has returned,
freed or not.
-/

namespace ProtoGpu

open LocalLoop CellLoop

/-! ### Histories -/

/-- What changes device memory: a call of the shim, the parameters of a launch, a micro-op of a
kernel. -/
inductive DeviceEvent where
  | call (site : CallSite)
  | setParams (kargs : KernelArgs)
  | microOp (uop : MicroOp) (warp : WarpState) (localMem : SparseMem)

/-- The shim, and the allocations that `cudaMalloc` has returned so far. -/
structure DeviceHistory where
  shim : ShimMemory := {}
  returned : List (Addr × Addr) := []

namespace DeviceHistory

def setMem (h : DeviceHistory) (mem : AddrSpaceManager) : DeviceHistory :=
  { h with shim := { h.shim with runtime := { h.shim.runtime with mem := mem } } }

/-- The memory that a micro-op works on. -/
def memState (h : DeviceHistory) (localMem : SparseMem) : MemState where
  mgr := h.shim.runtime.mem
  localMem := localMem

/-- `malloc(0)` returns a null pointer and allocates nothing. -/
def newlyReturned : DeviceCall → Option Addr → List (Addr × Addr)
  | .malloc _ bytes, some p => if bytes = 0 then [] else [(p, bytes)]
  | _, _ => []

def step (h : DeviceHistory) : DeviceEvent → DeviceHistory
  | .call site =>
      let (_, out, shim) := h.shim.callAt site
      { shim := shim, returned := h.returned ++ newlyReturned site.call out }
  | .setParams kargs => h.setMem (h.shim.runtime.mem.setParams kargs)
  | .microOp uop warp localMem => h.setMem (MemUnit.step uop warp (h.memState localMem)).2.2.mgr

def run (events : List DeviceEvent) : DeviceHistory := events.foldl step {}

/-- One returned allocation holds the whole range. -/
def Covers (h : DeviceHistory) (addr : Addr) (size : Nat) : Prop :=
  ∃ pn ∈ h.returned, Allocation.Covers { base := pn.1, size := pn.2 } addr size

end DeviceHistory

/-! ### The allocations below the shim -/

theorem malloc_allocs (st : ShimMemory) (outDevPtr bytes : Addr) :
    (st.malloc outDevPtr bytes).2.2.runtime.mem.allocs = st.runtime.mem.allocs
      ++ (DeviceHistory.newlyReturned (.malloc outDevPtr bytes) (st.malloc outDevPtr bytes).2.1).map
        fun pn => { base := pn.1, size := pn.2 } := by
  unfold ShimMemory.malloc
  split
  · exact (List.append_nil _).symm
  · split
    · next hzero =>
      subst hzero
      exact (List.append_nil _).symm
    · next hnonzero =>
      unfold DeviceHistory.newlyReturned
      dsimp only
      rw [if_neg hnonzero]
      rfl

theorem free_runtime (st : ShimMemory) (devPtr : Addr) :
    (st.free devPtr).2.runtime = st.runtime := by
  unfold ShimMemory.free
  split
  · rfl
  · split <;> rfl

theorem allocs_memcpy {st st' : ShimMemory} {dst src n : Addr} {kind : CudaMemcpyKind}
    {err : CudaError} (heffect : CopyEffect st dst src n st' kind err) :
    st'.runtime.mem.allocs = st.runtime.mem.allocs := by
  cases heffect with
  | failed _ _ _ hmem _ => rw [hmem]
  | empty _ _ hst => rw [hst]
  | toDevice hmem _ => rw [hmem]
  | toHost hmem _ => rw [hmem]
  | onDevice hmem _ => rw [hmem]
  | onHost hmem _ => rw [hmem]

theorem callAt_allocs (st : ShimMemory) (site : CallSite) :
    (st.callAt site).2.2.runtime.mem.allocs = st.runtime.mem.allocs
      ++ (DeviceHistory.newlyReturned site.call (st.callAt site).2.1).map
        fun pn => { base := pn.1, size := pn.2 } := by
  obtain ⟨call, host, hostFits⟩ := site
  cases call with
  | malloc outDevPtr bytes => exact malloc_allocs { st with host := host } outDevPtr bytes
  | free devPtr =>
      calc ({ st with host := host }.free devPtr).2.runtime.mem.allocs
          = st.runtime.mem.allocs :=
            congrArg (fun rt : Runtime => rt.mem.allocs)
              (free_runtime { st with host := host } devPtr)
        _ = st.runtime.mem.allocs ++ [] := (List.append_nil _).symm
  | memcpy dst src bytes kind =>
      have heffect := ShimMemory.memcpy_effect hostFits { st with host := host } dst src bytes kind
      have hsame := allocs_memcpy heffect
      exact hsame.trans (List.append_nil _).symm

theorem stGlobalLane_allocs {dst val : Operand} {size lane : Nat} {w : WarpState}
    {mem mem' : MemState} (hturn : stGlobalLane dst val size w lane mem = .ok mem') :
    mem'.mgr.allocs = mem.mgr.allocs := by
  obtain ⟨-, -, v, -, rfl⟩ := stGlobalLane_ok hturn
  rfl

theorem stLocalLane_mgr {dst val : Operand} {size lane : Nat} {w : WarpState}
    {mem mem' : MemState} (hturn : stLocalLane dst val size w lane mem = .ok mem') :
    mem'.mgr = mem.mgr := by
  unfold stLocalLane at hturn
  dsimp only at hturn
  split at hturn
  · cases hturn
  · cases hturn
    rfl

theorem stStep_allocs (uop : MicroOp) (mask : LaneMask) (dst val : Operand) (w : WarpState)
    (mem : MemState) : (stStep uop mask dst val w mem).2.mgr.allocs = mem.mgr.allocs := by
  unfold stStep
  dsimp only
  split
  · split
    · rfl
    · rw [stepOfLoop_snd]
      exact laneLoop_induct (P := fun m => m.mgr.allocs = mem.mgr.allocs)
        (fun _ _ _ hturn hkept => (stGlobalLane_allocs hturn).trans hkept) rfl
  · split
    · rfl
    · rw [stepOfLoop_snd]
      exact laneLoop_induct (P := fun m => m.mgr.allocs = mem.mgr.allocs)
        (fun _ _ _ hturn hkept => (congrArg _ (stLocalLane_mgr hturn)).trans hkept) rfl
  · rfl

/-- A micro-op allocates nothing. -/
theorem memUnit_allocs (uop : MicroOp) (w : WarpState) (mem : MemState) :
    (MemUnit.step uop w mem).2.2.mgr.allocs = mem.mgr.allocs := by
  unfold MemUnit.step
  split
  · rfl
  · dsimp only
    split
    · split <;> rfl
    · split
      · exact stStep_allocs ..
      · rfl
    · rfl

/-- The allocator knows exactly the allocations that `cudaMalloc` has returned. -/
theorem DeviceHistory.allocs_step {h : DeviceHistory} (e : DeviceEvent)
    (hallocs : h.shim.runtime.mem.allocs = h.returned.map fun pn =>
      { base := pn.1, size := pn.2 }) :
    (h.step e).shim.runtime.mem.allocs
      = (h.step e).returned.map fun pn => { base := pn.1, size := pn.2 } := by
  cases e with
  | call site =>
      calc (h.step (.call site)).shim.runtime.mem.allocs
          = h.shim.runtime.mem.allocs ++ (newlyReturned site.call (h.shim.callAt site).2.1).map _ :=
            callAt_allocs h.shim site
        _ = (h.step (.call site)).returned.map fun pn => { base := pn.1, size := pn.2 } := by
            rw [hallocs, ← List.map_append]
            rfl
  | setParams kargs => exact hallocs
  | microOp uop w localMem => exact (memUnit_allocs ..).trans hallocs

theorem DeviceHistory.allocs_run (events : List DeviceEvent) :
    (run events).shim.runtime.mem.allocs
      = (run events).returned.map fun pn => { base := pn.1, size := pn.2 } := by
  have hrun : ∀ (es : List DeviceEvent) (h : DeviceHistory),
      h.shim.runtime.mem.allocs = (h.returned.map fun pn => { base := pn.1, size := pn.2 }) →
        (es.foldl step h).shim.runtime.mem.allocs
          = (es.foldl step h).returned.map fun pn => { base := pn.1, size := pn.2 } := by
    intro es
    induction es with
    | nil => exact fun _ => id
    | cons e es ih => exact fun h hallocs => ih _ (allocs_step e hallocs)
  exact hrun events {} rfl

/-! ### Turns -/

/-- A lane's turn in an access of global memory: the fault of the lanes below it, the address it
comes to, whether the value to store is known, and the verb of the diagnostic. -/
structure GlobalTurn where
  before : Option Fault
  addr : Addr
  known : Bool
  verb : String

def ldGlobalTurn (uop : MicroOp) (out src : Operand) (w : WarpState) (mem : MemState) (lane : Nat) :
    GlobalTurn :=
  let r := laneLoopFrom (uop.execMask w)
      (writeLane out (ldGlobalValue src (typeSize uop.attrs.type) mem))
    (List.range lane) w
  { before := r.1, addr := evalAddrLane src r.2 lane, known := true, verb := "read" }

def stGlobalTurn (uop : MicroOp) (dst val : Operand) (w : WarpState) (mem : MemState) (lane : Nat) :
    GlobalTurn where
  before := (laneLoopFrom (uop.execMask w) (stGlobalLane dst val (typeSize uop.attrs.type) w)
    (List.range lane) mem).1
  addr := evalAddrLane dst w lane
  known := (readOperandLane val w lane).isSome
  verb := "write"

/-- None for a micro-op with the wrong operands. -/
def globalTurn (uop : MicroOp) (w : WarpState) (mem : MemState) (lane : Nat) : Option GlobalTurn :=
  match uop.op, uop.outputs, uop.inputs with
  | .ld, [out], [src] =>
    if src.kind = .addr then some (ldGlobalTurn uop out src w mem lane) else none
  | .st, [], [dst, val] =>
    if dst.kind = .addr then some (stGlobalTurn uop dst val w mem lane) else none
  | _, _, _ => none

section Loop

variable {σ : Type} {mask : LaneMask} {body : Nat → σ → Except Fault σ} {s s' t : σ} {lane : Nat}
  {f : Fault}

theorem laneLoop_turn (hlane : laneMaskTest mask lane = true)
    (hrun : laneLoop mask body s = (none, s')) :
    ∃ t t', laneLoopFrom mask body (List.range lane) s = (none, t) ∧ body lane t = .ok t' := by
  obtain ⟨pre, post, hsplit⟩ := List.append_of_mem (mem_loopLanes_iff.mpr hlane)
  have hloop :
      forEach body (loopLanes mask) s = (none, s') := (laneLoop_eq_forEach ..).symm.trans hrun
  rw [hsplit] at hloop
  obtain ⟨t, t', hpre, hturn, -⟩ := forEach_turn hloop
  refine ⟨t, t', ?_, hturn⟩
  rw [laneLoopFrom_eq_forEach, ← loopLanes_split hsplit]
  exact hpre

theorem laneLoop_fault (hlane : laneMaskTest mask lane = true)
    (hbefore : laneLoopFrom mask body (List.range lane) s = (none, t))
    (hturn : body lane t = .error f) : laneLoop mask body s = (some f, t) := by
  obtain ⟨pre, post, hsplit⟩ := List.append_of_mem (mem_loopLanes_iff.mpr hlane)
  rw [laneLoopFrom_eq_forEach, ← loopLanes_split hsplit] at hbefore
  calc laneLoop mask body s = forEach body (loopLanes mask) s := laneLoop_eq_forEach ..
    _ = forEach body (lane :: post) t := by rw [hsplit, forEach_append_of_ok hbefore]
    _ = (some f, t) := by rw [forEach, hturn]

end Loop

theorem writeLane_of_fault (out : Operand) {value : WarpState → Nat → Except Fault (BitVec 64)}
    {w : WarpState} {lane : Nat} {f : Fault} (hvalue : value w lane = .error f) :
    writeLane out value lane w = .error f := by
  rw [writeLane, hvalue]

section Turn

variable {mem mem' : MemState} {addr : Addr} {t : ValueType}

theorem DeviceHistory.rangeAllocated_iff {h : DeviceHistory}
    (hallocs : mem.mgr.allocs = h.returned.map fun pn => { base := pn.1, size := pn.2 }) :
    mem.mgr.globalRangeAllocated addr (BitVec.ofNat 64 (typeSize t)) = true
      ↔ h.Covers addr (typeSize t) := by
  have hsize :
      BitVec.ofNat 64 (typeSize t) ≠ 0 ∧ (BitVec.ofNat 64 (typeSize t)).toNat = typeSize t := by
    rcases typeSize_le t with h | h <;> rw [h] <;> decide
  rw [globalRangeAllocated_iff hsize.1, hsize.2, hallocs]
  exact ⟨fun ⟨a, ha, hcovers⟩ => by
      obtain ⟨pn, hpn, rfl⟩ := List.mem_map.mp ha
      exact ⟨pn, hpn, hcovers⟩,
    fun ⟨pn, hpn, hcovers⟩ => ⟨_, List.mem_map.mpr ⟨pn, hpn, rfl⟩, hcovers⟩⟩

theorem ldGlobalValue_miss {src : Operand} {size lane : Nat} {w : WarpState}
    (haligned : misaligned (evalAddrLane src w lane) size = false)
    (hmiss : mem.mgr.globalRangeAllocated (evalAddrLane src w lane) (BitVec.ofNat 64 size) ≠ true) :
    ldGlobalValue src size mem w lane
      = .error (globalFailure "read" (evalAddrLane src w lane) size) := by
  unfold ldGlobalValue AddrSpaceManager.readGlobal
  dsimp only
  rw [haligned, if_neg Bool.false_ne_true, if_neg hmiss]

theorem ldGlobalValue_allocated {src : Operand} {size lane : Nat} {w : WarpState} {v : BitVec 64}
    (hvalue : ldGlobalValue src size mem w lane = .ok v) :
    mem.mgr.globalRangeAllocated (evalAddrLane src w lane) (BitVec.ofNat 64 size) = true := by
  by_contra hmiss
  unfold ldGlobalValue AddrSpaceManager.readGlobal at hvalue
  dsimp only at hvalue
  rw [if_neg hmiss] at hvalue
  split at hvalue <;> cases hvalue

theorem stGlobalLane_miss {dst val : Operand} {size lane : Nat} {w : WarpState}
    (haligned : misaligned (evalAddrLane dst w lane) size = false)
    (hknown : (readOperandLane val w lane).isSome = true)
    (hmiss : mem.mgr.globalRangeAllocated (evalAddrLane dst w lane) (BitVec.ofNat 64 size) ≠ true) :
    stGlobalLane dst val size w lane mem
      = .error (globalFailure "write" (evalAddrLane dst w lane) size) := by
  obtain ⟨v, hv⟩ := Option.isSome_iff_exists.mp hknown
  unfold stGlobalLane AddrSpaceManager.writeGlobal
  dsimp only
  rw [haligned, if_neg Bool.false_ne_true, hv]
  dsimp only
  rw [length_packLe, if_neg hmiss]

end Turn

/-! ### The step -/

/-- A global access is one loop over the executing lanes, or is refused whatever they are. -/
inductive GlobalForm (uop : MicroOp) (w : WarpState) (mem : MemState) : Prop where
  | load (out src : Operand)
      (hturn : globalTurn uop w mem = fun lane => some (ldGlobalTurn uop out src w mem lane))
      (hstep : MemUnit.step uop w mem
        = let r := stepOfLoop (laneLoop (uop.execMask w)
            (writeLane out (ldGlobalValue src (typeSize uop.attrs.type) mem)) w)
          (r.1, r.2, mem))
  | store (dst val : Operand)
      (hturn : globalTurn uop w mem = fun lane => some (stGlobalTurn uop dst val w mem lane))
      (hstep : MemUnit.step uop w mem
        = let r := stepOfLoop (laneLoop (uop.execMask w)
            (stGlobalLane dst val (typeSize uop.attrs.type) w) mem)
          (r.1, w, r.2))
  | refused (f : Fault) (hturn : globalTurn uop w mem = fun _ => none)
      (hstep : MemUnit.step uop w mem = (.error f, w, mem))

/-- A load, behind the check for a finished warp. -/
def stepLd (uop : MicroOp) (w : WarpState) (mem : MemState) :
    Except Fault StepResult × WarpState × MemState :=
  match uop.outputs, uop.inputs with
  | [out], [src] =>
      let r := ldStep uop (uop.execMask w) out src w mem
      (r.1, r.2, mem)
  | _, _ => (.error (memDiag "E_UOP_ARITY" "LD expects 1 in, 1 out"), w, mem)

/-- A store, behind the check for a finished warp. -/
def stepSt (uop : MicroOp) (w : WarpState) (mem : MemState) :
    Except Fault StepResult × WarpState × MemState :=
  match uop.outputs, uop.inputs with
  | [], [dst, val] =>
      let r := stStep uop (uop.execMask w) dst val w mem
      (r.1, w, r.2)
  | _, _ => (.error (memDiag "E_UOP_ARITY" "ST expects 2 in, 0 out"), w, mem)

theorem globalForm_ld {uop : MicroOp} {w : WarpState} (mem : MemState) (hop : uop.op = .ld)
    (hspace : uop.attrs.space = .global) (hdone : w.done = false) : GlobalForm uop w mem := by
  have hstep : MemUnit.step uop w mem = stepLd uop w mem := by
    unfold MemUnit.step
    rw [hdone, if_neg Bool.false_ne_true, hop]
    rfl
  unfold stepLd at hstep
  split at hstep
  · next out src hout hin =>
    have hturn : globalTurn uop w mem = fun lane =>
        if src.kind = .addr then some (ldGlobalTurn uop out src w mem lane) else none := by
      funext lane
      rw [globalTurn, hop, hout, hin]
    by_cases hkind : src.kind = .addr
    · refine .load out src ?_ ?_
      · rw [hturn]
        exact funext fun _ => if_pos hkind
      · rw [hstep]
        simp only [ldStep, hspace, hkind, ne_eq, not_true, if_false]
    · refine .refused (memDiag "E_LD_GLOBAL_KIND" "ld.global expects addr source") ?_ ?_
      · rw [hturn]
        exact funext fun _ => if_neg hkind
      · rw [hstep]
        simp only [ldStep, hspace, ne_eq, hkind, not_false_eq_true, if_true]
  · next hno =>
    refine .refused _ ?_ hstep
    funext lane
    rw [globalTurn, hop]
    split
    · next out src _ hout hin => exact absurd hin (hno out src hout)
    · next heq _ _ => cases heq
    · rfl

theorem globalForm_st {uop : MicroOp} {w : WarpState} (mem : MemState) (hop : uop.op = .st)
    (hspace : uop.attrs.space = .global) (hdone : w.done = false) : GlobalForm uop w mem := by
  have hstep : MemUnit.step uop w mem = stepSt uop w mem := by
    unfold MemUnit.step
    rw [hdone, if_neg Bool.false_ne_true, hop]
    rfl
  unfold stepSt at hstep
  split at hstep
  · next dst val hout hin =>
    have hturn : globalTurn uop w mem = fun lane =>
        if dst.kind = .addr then some (stGlobalTurn uop dst val w mem lane) else none := by
      funext lane
      rw [globalTurn, hop, hout, hin]
    by_cases hkind : dst.kind = .addr
    · refine .store dst val ?_ ?_
      · rw [hturn]
        exact funext fun _ => if_pos hkind
      · rw [hstep]
        simp only [stStep, hspace, hkind, ne_eq, not_true, if_false]
    · refine .refused (memDiag "E_ST_GLOBAL_KIND" "st.global expects addr dest") ?_ ?_
      · rw [hturn]
        exact funext fun _ => if_neg hkind
      · rw [hstep]
        simp only [stStep, hspace, ne_eq, hkind, not_false_eq_true, if_true]
  · next hno =>
    refine .refused _ ?_ hstep
    funext lane
    rw [globalTurn, hop]
    split
    · next heq _ _ => cases heq
    · next dst val _ hout hin => exact absurd hin (hno dst val hout)
    · rfl

/-! ### The law -/

/-- What an access of global memory does after a history. -/
structure AccessLaw (h : DeviceHistory) (uop : MicroOp) (w : WarpState) (mem : MemState) :
    Prop where
  /-- It succeeds only inside returned allocations. -/
  succeeds : ∀ sr, (MemUnit.step uop w mem).1 = .ok sr → ∀ lane, uop.RunsAt w lane →
    ∃ t, globalTurn uop w mem lane = some t ∧ h.Covers t.addr (typeSize uop.attrs.type)
  /-- A lane whose turn comes, with an aligned address and a known value, misses outside them. -/
  misses : ∀ lane t, uop.RunsAt w lane → globalTurn uop w mem lane = some t → t.before = none →
    misaligned t.addr (typeSize uop.attrs.type) = false → t.known = true →
      ¬ h.Covers t.addr (typeSize uop.attrs.type) →
        (MemUnit.step uop w mem).1
          = .error (globalFailure t.verb t.addr (typeSize uop.attrs.type))
  /-- A byte changes only in the range of a lane inside them. -/
  keeps : ∀ a, (MemUnit.step uop w mem).2.2.mgr.global a ≠ mem.mgr.global a →
    ∃ lane t, uop.RunsAt w lane ∧ globalTurn uop w mem lane = some t
      ∧ InRange t.addr (typeSize uop.attrs.type) a ∧ h.Covers t.addr (typeSize uop.attrs.type)

section Law

variable {h : DeviceHistory} {uop : MicroOp} {w : WarpState} {mem : MemState}
  (hallocs : mem.mgr.allocs = h.returned.map fun pn => { base := pn.1, size := pn.2 })
include hallocs

theorem accessLaw_load {out src : Operand}
    (hturn : globalTurn uop w mem = fun lane => some (ldGlobalTurn uop out src w mem lane))
    (hstep : MemUnit.step uop w mem
      = let r := stepOfLoop (laneLoop (uop.execMask w)
          (writeLane out (ldGlobalValue src (typeSize uop.attrs.type) mem)) w)
        (r.1, r.2, mem)) : AccessLaw h uop w mem := by
  constructor
  · intro sr hok lane hlane
    rw [hstep] at hok
    have hrun := stepOfLoop_ok_iff.mp ⟨sr, hok⟩
    have hmask : laneMaskTest (uop.execMask w) lane = true := hlane.2
    obtain ⟨t, t', hbefore, hlaneTurn⟩ := laneLoop_turn hmask (Prod.ext hrun rfl)
    refine ⟨_, congrFun hturn lane, ?_⟩
    rw [← store_writeLane] at hlaneTurn
    obtain ⟨v, hv, -⟩ := store_ok hlaneTurn
    have haddr : (ldGlobalTurn uop out src w mem lane).addr = evalAddrLane src t lane := by
      unfold ldGlobalTurn
      rw [hbefore]
    rw [haddr]
    exact (DeviceHistory.rangeAllocated_iff hallocs).mp (ldGlobalValue_allocated hv)
  · intro lane t hlane ht hbefore haligned _ hmiss
    rw [hturn] at ht
    obtain rfl := Option.some.inj ht
    have hfault := ldGlobalValue_miss haligned
      fun halloc => hmiss ((DeviceHistory.rangeAllocated_iff hallocs).mp halloc)
    have hlaneTurn := writeLane_of_fault out hfault
    have hmask : laneMaskTest (uop.execMask w) lane = true := hlane.2
    have hloop := laneLoop_fault hmask (Prod.ext hbefore rfl) hlaneTurn
    rw [hstep]
    dsimp only
    rw [hloop]
    rfl
  · intro a hchanged
    rw [hstep] at hchanged
    exact absurd rfl hchanged

theorem accessLaw_store {dst val : Operand} (hdone : w.done = false)
    (hturn : globalTurn uop w mem = fun lane => some (stGlobalTurn uop dst val w mem lane))
    (hstep : MemUnit.step uop w mem
      = let r := stepOfLoop (laneLoop (uop.execMask w)
          (stGlobalLane dst val (typeSize uop.attrs.type) w) mem)
        (r.1, w, r.2)) : AccessLaw h uop w mem := by
  have hsize : typeSize uop.attrs.type ≤ 2 ^ 64 := by
    rcases typeSize_le uop.attrs.type with h | h <;> rw [h] <;> decide
  constructor
  · intro sr hok lane hlane
    rw [hstep] at hok
    have hrun := stepOfLoop_ok_iff.mp ⟨sr, hok⟩
    refine ⟨_, congrFun hturn lane, ?_⟩
    rw [laneLoop_eq_forEach] at hrun
    obtain ⟨-, halloc, -⟩ := storeRun_access (Prod.ext hrun rfl)
      ((mem_loopLanes_runsAt hdone).mpr hlane)
    exact (DeviceHistory.rangeAllocated_iff hallocs).mp halloc
  · intro lane t hlane ht hbefore haligned hknown hmiss
    rw [hturn] at ht
    obtain rfl := Option.some.inj ht
    -- the lanes below stored, and stores allocate nothing
    have hmem : (laneLoopFrom (uop.execMask w) (stGlobalLane dst val (typeSize uop.attrs.type) w)
        (List.range lane) mem).2.mgr.allocs = mem.mgr.allocs :=
      laneLoopFrom_induct (P := fun m => m.mgr.allocs = mem.mgr.allocs)
        (fun _ _ _ hturn hkept => (stGlobalLane_allocs hturn).trans hkept) _ rfl
    have hfault := stGlobalLane_miss haligned hknown
      fun halloc => hmiss ((DeviceHistory.rangeAllocated_iff (hmem.trans hallocs)).mp halloc)
    have hmask : laneMaskTest (uop.execMask w) lane = true := hlane.2
    have hloop := laneLoop_fault hmask (Prod.ext hbefore rfl) hfault
    rw [hstep]
    dsimp only
    rw [hloop]
    rfl
  · intro a hchanged
    rw [hstep] at hchanged
    dsimp only at hchanged
    rw [stepOfLoop_snd, laneLoop_eq_forEach] at hchanged
    obtain ⟨pre, post, hsplit, hran⟩ :=
      forEach_ran (stGlobalLane dst val (typeSize uop.attrs.type) w)
        (loopLanes (uop.execMask w)) mem
    by_contra hnone
    refine hchanged (storeRun_other hsize hran fun lane hlane hin => hnone ?_)
    have hruns : uop.RunsAt w lane :=
      (mem_loopLanes_runsAt hdone).mp (by rw [hsplit]; exact List.mem_append_left _ hlane)
    refine ⟨lane, _, hruns, congrFun hturn lane, hin, ?_⟩
    exact (DeviceHistory.rangeAllocated_iff hallocs).mp (storeRun_access hran hlane).2.1

end Law

/-- **Global accesses.** After every history a load or store of global memory reaches just the
allocations that `cudaMalloc` has returned, freed or not. -/
theorem global_access_law (events : List DeviceEvent) (uop : MicroOp) (w : WarpState)
    (localMem : SparseMem) (hop : uop.op = .ld ∨ uop.op = .st)
    (hspace : uop.attrs.space = .global) :
    AccessLaw (DeviceHistory.run events) uop w ((DeviceHistory.run events).memState localMem) := by
  have hallocs := DeviceHistory.allocs_run events
  cases hdone : w.done with
  | true =>
      have hquiet : ∀ lane, ¬ uop.RunsAt w lane := fun lane hlane =>
        Bool.false_ne_true (hlane.1.symm.trans hdone)
      constructor
      · exact fun _ _ lane hlane => absurd hlane (hquiet lane)
      · exact fun lane _ hlane => absurd hlane (hquiet lane)
      · intro a hchanged
        rw [MemUnit.step, if_pos hdone] at hchanged
        exact absurd rfl hchanged
  | false =>
      have hform : GlobalForm uop w ((DeviceHistory.run events).memState localMem) := by
        cases hop with
        | inl hld => exact globalForm_ld _ hld hspace hdone
        | inr hst => exact globalForm_st _ hst hspace hdone
      cases hform with
      | load out src hturn hstep => exact accessLaw_load hallocs hturn hstep
      | store dst val hturn hstep => exact accessLaw_store hallocs hdone hturn hstep
      | refused f hturn hstep =>
          constructor
          · intro sr hok
            rw [hstep] at hok
            cases hok
          · intro lane t _ ht
            rw [hturn] at ht
            cases ht
          · intro a hchanged
            rw [hstep] at hchanged
            exact absurd rfl hchanged

/-- `cudaMalloc(64)`, then `cudaFree` of what it returned. -/
def freedHistory : List DeviceEvent :=
  [.call ⟨.malloc 8 64, fun _ => 0, fun _ => true⟩, .call ⟨.free 0x1000, fun _ => 0, fun _ => true⟩]

/-- One lane loads the first word of the allocation. -/
def freedLoad : MicroOp where
  kind := .mem
  op := .ld
  outputs := [{ kind := .reg, regId := 0 }]
  inputs := [{ kind := .addr, regId := 0 }]
  guard := laneMaskAll 1

def freedWarp : WarpState where
  active := laneMaskAll 1
  rU32 := [0]
  rU64 := [0x1000]

theorem global_access_law_freed :
    AccessLaw (DeviceHistory.run freedHistory) freedLoad freedWarp
      ((DeviceHistory.run freedHistory).memState fun _ => none) :=
  global_access_law freedHistory freedLoad freedWarp (fun _ => none) (.inl rfl) rfl

/-- Lane 0 stores inside the allocation, lane 1 outside. -/
def halfInside : WarpState where
  active := laneMaskAll 2
  rU32 := [5, 9]
  rU64 := [0x1000, 0x9000]

/-- Off every allocation, and misaligned. -/
def oddAddress : WarpState where
  active := laneMaskAll 1
  rU32 := [0]
  rU64 := [0x9001]

/-- The shim has no allocation left, and the load succeeds. A store that misses at its second lane
has changed the bytes of the first, and a misaligned load is not a miss. -/
theorem freed_load_succeeds :
    (DeviceHistory.run freedHistory).shim.deviceMemory.allocs = []
      ∧ (MemUnit.step freedLoad freedWarp
          ((DeviceHistory.run freedHistory).memState fun _ => none)).1 = .ok { progressed := true }
      ∧ (let mem := (DeviceHistory.run (freedHistory.take 1)).memState fun _ => none
        let r := MemUnit.step storeUop halfInside mem
        r.1 = .error (globalFailure "write" 0x9000 4)
          ∧ mem.mgr.global 0x1000 = none ∧ r.2.2.mgr.global 0x1000 = some 5)
      ∧ (MemUnit.step freedLoad oddAddress
          ((DeviceHistory.run freedHistory).memState fun _ => none)).1
        = .error (memDiag "E_GLOBAL_ALIGN" "global read is misaligned") :=
  ⟨rfl, rfl, ⟨rfl, rfl, rfl⟩, rfl⟩

end ProtoGpu

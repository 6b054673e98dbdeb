import ProtoGpu.Proof.GlobalStore
import ProtoGpu.Proof.ThreadCoverage

/-!
# Local memory is private up to the window

The local memories of all threads are one byte map: thread `n` of the launch keeps its address `a`
at `n * 4096 + a`, reduced to 64 bits, and nothing bounds `a`. A store of one thread is invisible to
a load of another exactly when the two ranges do not meet there. They do not when both addresses
stay in the window and the threads of the launch can be numbered; a run in which no store of another
thread meets a load's range gives the load the thread's own bytes.
-/

namespace ProtoGpu

open LocalLoop CellLoop

/-! ### One store and one load -/

/-- Two ranges without a common address. -/
def RangesDisjoint (x : Addr) (m : Nat) (y : Addr) (n : Nat) : Prop :=
  ∀ a, ¬ (InRange x m a ∧ InRange y n a)

/-- Whatever a lane of one warp stores through `dst`, a lane of another warp loads through `src`
what it loaded before. -/
def StoreInvisible (dst : Operand) (m : Nat) (w₁ : WarpState) (lane₁ : Nat)
    (src : Operand) (n : Nat) (w₂ : WarpState) (lane₂ : Nat) : Prop :=
  ∀ val mem mem', stLocalLane dst val m w₁ lane₁ mem = .ok mem' →
    ldLocalValue src n mem' w₂ lane₂ = ldLocalValue src n mem w₂ lane₂

/-- The range of a lane's local access. -/
def localStart (o : Operand) (w : WarpState) (lane : Nat) : Addr :=
  localEffectiveAddr w lane (evalAddrLane o w lane)

theorem stLocalLane_ok {dst val : Operand} {size lane : Nat} {w : WarpState} {mem mem' : MemState} :
    stLocalLane dst val size w lane mem = .ok mem' ↔
      ∃ v, readOperandLane val w lane = some v
        ∧ mem' = { mem with
            localMem := writeSparse mem.localMem (localStart dst w lane) (packLe v size) } := by
  unfold stLocalLane localStart
  cases readOperandLane val w lane with
  | none => simp
  | some v => simp [eq_comm]

theorem getLsbD_byte_allOnes {k : Nat} (hk : k < 8) :
    ((BitVec.allOnes 64 >>> (8 * k)).setWidth 8 : Byte).getLsbD 0 = true := by
  rw [BitVec.getLsbD_setWidth, BitVec.getLsbD_ushiftRight, BitVec.getLsbD_allOnes]
  simp only [Nat.ofNat_pos, decide_true, Bool.true_and, decide_eq_true_eq]
  omega

theorem storeInvisible_iff (dst src : Operand) (t₁ t₂ : ValueType) (w₁ w₂ : WarpState)
    (lane₁ lane₂ : Nat) :
    StoreInvisible dst (typeSize t₁) w₁ lane₁ src (typeSize t₂) w₂ lane₂ ↔
      RangesDisjoint (localStart dst w₁ lane₁) (typeSize t₁)
        (localStart src w₂ lane₂) (typeSize t₂) := by
  have hsize : ∀ t, typeSize t ≤ 2 ^ 64 := by
    intro t
    rcases typeSize_le t with h | h <;> rw [h] <;> decide
  constructor
  · rintro hinvisible a ⟨hstore, hload⟩
    -- all ones into empty memory
    have hall : readOperandLane { immI64 := -1 } w₁ lane₁ = some (BitVec.allOnes 64) := rfl
    have heq := hinvisible { immI64 := -1 } {} _ (stLocalLane_ok.mpr ⟨_, hall, rfl⟩)
    obtain ⟨i, hi, rfl⟩ := (inRange_iff (hsize t₂)).mp hload
    have hword := Except.ok.inj heq
    -- the two words differ in the byte both ranges hold
    have hi8 : i < 8 := by rcases typeSize_le t₂ with h | h <;> omega
    have hbit := congrArg (fun v : BitVec 64 => v.getLsbD (8 * i)) hword
    simp only [getLsbD_unpackLe, Nat.mul_div_cancel_left i (show 0 < 8 by omega),
      Nat.mul_mod_right, getD_readSparse _ _ hi] at hbit
    change (_ && ((writeSparse _ _ _ (localStart src w₂ lane₂ + _)).getD 0).getLsbD 0)
      = (_ && ((none : Option Byte).getD 0).getLsbD 0) at hbit
    rw [writeSparse_apply _ _ _ (by rw [length_packLe]; exact hsize t₁), length_packLe,
      if_pos hstore, getD_packLe _ hstore] at hbit
    have hoff : (localStart src w₂ lane₂ + BitVec.ofNat 64 i
        - localStart dst w₁ lane₁).toNat < 8 := by
      have hlt : (localStart src w₂ lane₂ + BitVec.ofNat 64 i
        - localStart dst w₁ lane₁).toNat < typeSize t₁ := hstore
      rcases typeSize_le t₁ with h | h <;> omega
    rw [Option.getD_some, getLsbD_byte_allOnes hoff, decide_eq_true (by omega : 8 * i < 64)] at hbit
    simp at hbit
  · intro hdisjoint val mem mem' hstore
    obtain ⟨v, -, rfl⟩ := stLocalLane_ok.mp hstore
    unfold ldLocalValue
    congr 2
    refine readSparse_congr (hsize t₂) fun a ha => ?_
    dsimp only
    rw [writeSparse_of_not_inRange _ _ (by rw [length_packLe]; exact hsize t₁)]
    rw [length_packLe]
    exact fun hstored => hdisjoint a ⟨hstored, ha⟩

/-! ### The threads of a launch -/

/-- The lanes of the two states are the same threads. -/
structure WarpState.SameThreads (w w' : WarpState) : Prop where
  launch : w.launch = w'.launch
  ctaid : w.ctaid = w'.ctaid
  laneBase : w.laneBaseThreadLinear = w'.laneBaseThreadLinear

/-- `w` is that warp of the launch, at any point of its run. -/
def WarpOf (kernel : KernelImage) (launch : LaunchConfig) (plan : LaunchPlan) (item warp : Nat)
    (w : WarpState) : Prop :=
  ∃ it w₀, (ctaItems launch.gridDim)[item]? = some it
    ∧ (plannedWarps kernel launch plan it)[warp]? = some w₀ ∧ w.SameThreads w₀

/-- `w` is the warp of the thread, at any point of its run. -/
def ThreadSlot.Owns (slot : ThreadSlot) (kernel : KernelImage) (launch : LaunchConfig)
    (plan : LaunchPlan) (w : WarpState) : Prop :=
  ∃ w₀, slot.Starts (ctaItems launch.gridDim) (plannedWarps kernel launch plan) w₀
    ∧ w.SameThreads w₀

section Threads

variable {kernel : KernelImage} {launch : LaunchConfig} {plan : LaunchPlan}
  {slot slot₁ slot₂ : ThreadSlot} {w w' w₁ w₂ : WarpState}

theorem WarpState.SameThreads.trans {w w' w'' : WarpState} (h : w.SameThreads w')
    (h' : w'.SameThreads w'') : w.SameThreads w'' :=
  ⟨h.launch.trans h'.launch, h.ctaid.trans h'.ctaid, h.laneBase.trans h'.laneBase⟩

theorem WarpState.SameThreads.symm (h : w.SameThreads w') : w'.SameThreads w :=
  ⟨h.launch.symm, h.ctaid.symm, h.laneBase.symm⟩

theorem WarpState.SameThreads.threadLinearGlobal_eq (h : w.SameThreads w') (lane : Nat) :
    threadLinearGlobal w lane = threadLinearGlobal w' lane := by
  simp only [threadLinearGlobal, h.launch, h.ctaid, h.laneBase]

theorem ThreadSlot.Owns.warpOf (h : slot.Owns kernel launch plan w) :
    WarpOf kernel launch plan slot.item slot.warp w := by
  obtain ⟨w₀, ⟨it, hitem, hwarp, -⟩, hsame⟩ := h
  exact ⟨it, w₀, hitem, hwarp, hsame⟩

theorem WarpOf.sameThreads {item warp : Nat} (h : WarpOf kernel launch plan item warp w)
    (h' : WarpOf kernel launch plan item warp w') : w.SameThreads w' := by
  obtain ⟨it, w₀, hitem, hwarp, hsame⟩ := h
  obtain ⟨it', w₀', hitem', hwarp', hsame'⟩ := h'
  obtain rfl := Option.some.inj (hitem.symm.trans hitem')
  obtain rfl := Option.some.inj (hwarp.symm.trans hwarp')
  exact hsame.trans hsame'.symm

theorem setWidth_eq_ofNat (x : BitVec 32) :
    (x.setWidth 64 : BitVec 64) = BitVec.ofNat 64 x.toNat := by
  apply BitVec.eq_of_toNat_eq
  simp

/-- The number of a thread: its position in the row of all threads. -/
theorem LaunchPlan.Checked.threadLinearGlobal_eq (h : plan.Checked launch)
    (hthreads : plan.threadsPerBlock ≤ 2 ^ 32) (howns : slot.Owns kernel launch plan w) :
    threadLinearGlobal w slot.lane
        = BitVec.ofNat 64 (slot.item * plan.threadsPerBlock
          + (slot.warp * plan.warpSize + slot.lane))
      ∧ slot.item < launch.gridDim.volume ∧ slot.lane < plan.warpSize
      ∧ slot.warp * plan.warpSize + slot.lane < plan.threadsPerBlock := by
  obtain ⟨w₀, hstarts, hsame⟩ := howns
  obtain ⟨hitem, hlane, hthread, hwarp, item, hget, rfl⟩ := (h.starts_iff hthreads).mp hstarts
  refine ⟨?_, hitem, hlane, hthread⟩
  obtain ⟨-, rfl⟩ := ctaItems_getElem?.mp hget
  have hx : slot.item % launch.gridDim.x.toNat < 2 ^ 32 :=
    (Nat.mod_lt _ h.gridPos.1).trans launch.gridDim.x.isLt
  have hy : slot.item / launch.gridDim.x.toNat % launch.gridDim.y.toNat < 2 ^ 32 :=
    (Nat.mod_lt _ h.gridPos.2.1).trans launch.gridDim.y.isLt
  have hz : slot.item / (launch.gridDim.x.toNat * launch.gridDim.y.toNat) < 2 ^ 32 :=
    (Nat.div_lt_of_lt_mul hitem).trans launch.gridDim.z.isLt
  have hfirst : slot.warp * plan.warpSize < 2 ^ 32 := by omega
  have hcta : slot.item % launch.gridDim.x.toNat + launch.gridDim.x.toNat
      * (slot.item / launch.gridDim.x.toNat % launch.gridDim.y.toNat + launch.gridDim.y.toNat
        * (slot.item / (launch.gridDim.x.toNat * launch.gridDim.y.toNat))) = slot.item := by
    have hindex : Grid.index launch.gridDim.x.toNat launch.gridDim.y.toNat _ _ _ = slot.item :=
      Grid.index_coords slot.item
    rw [Grid.index] at hindex
    linarith
  rw [hsame.threadLinearGlobal_eq, threadLinearGlobal]
  simp only [initWarp, ctaItem, setWidth_eq_ofNat, ← BitVec.ofNat_mul, ← BitVec.ofNat_add,
    BitVec.toNat_ofNat, Nat.mod_eq_of_lt hx, Nat.mod_eq_of_lt hy, Nat.mod_eq_of_lt hz,
    Nat.mod_eq_of_lt hfirst]
  rw [hcta, h.threadsPerBlock]

/-- Two accesses inside the windows of two threads do not meet. -/
theorem LaunchPlan.Checked.windows_disjoint (h : plan.Checked launch)
    (hthreads : plan.threadsPerBlock ≤ 2 ^ 32)
    (htotal : launch.gridDim.volume * plan.threadsPerBlock ≤ 2 ^ 52) (hne : slot₁ ≠ slot₂)
    (howns₁ : slot₁.Owns kernel launch plan w₁) (howns₂ : slot₂.Owns kernel launch plan w₂)
    {a₁ a₂ : Addr} {m n : Nat} (ha₁ : a₁.toNat + m ≤ 4096) (ha₂ : a₂.toNat + n ≤ 4096) :
    RangesDisjoint (localEffectiveAddr w₁ slot₁.lane a₁) m
      (localEffectiveAddr w₂ slot₂.lane a₂) n := by
  obtain ⟨htid₁, hitem₁, hlane₁, hthread₁⟩ := h.threadLinearGlobal_eq hthreads howns₁
  obtain ⟨htid₂, hitem₂, hlane₂, hthread₂⟩ := h.threadLinearGlobal_eq hthreads howns₂
  have hnumber : ∀ {item thread : Nat}, item < launch.gridDim.volume →
      thread < plan.threadsPerBlock → item * plan.threadsPerBlock + thread < 2 ^ 52 := by
    intro item thread hitem hthread
    calc item * plan.threadsPerBlock + thread < (item + 1) * plan.threadsPerBlock := by
          rw [Nat.add_mul, Nat.one_mul]
          omega
      _ ≤ launch.gridDim.volume * plan.threadsPerBlock := Nat.mul_le_mul_right _ hitem
      _ ≤ 2 ^ 52 := htotal
  have hn₁ := hnumber hitem₁ hthread₁
  have hn₂ := hnumber hitem₂ hthread₂
  have hdistinct : slot₁.item * plan.threadsPerBlock + (slot₁.warp * plan.warpSize + slot₁.lane)
      ≠ slot₂.item * plan.threadsPerBlock + (slot₂.warp * plan.warpSize + slot₂.lane) := by
    intro heq
    obtain ⟨hitem, hthread⟩ := Grid.row_inj hthread₁ hthread₂ heq
    obtain ⟨hwarp, hlane⟩ := Grid.row_inj hlane₁ hlane₂ hthread
    apply hne
    obtain ⟨i₁, k₁, l₁⟩ := slot₁
    obtain ⟨i₂, k₂, l₂⟩ := slot₂
    simp only at hitem hwarp hlane
    rw [hitem, hwarp, hlane]
  rintro a ⟨hin₁, hin₂⟩
  unfold InRange localEffectiveAddr at hin₁ hin₂
  rw [htid₁] at hin₁
  rw [htid₂] at hin₂
  generalize slot₁.item * plan.threadsPerBlock + (slot₁.warp * plan.warpSize + slot₁.lane) = n₁
    at hin₁ hn₁ hdistinct
  generalize slot₂.item * plan.threadsPerBlock + (slot₂.warp * plan.warpSize + slot₂.lane) = n₂
    at hin₂ hn₂ hdistinct
  bv_omega

end Threads

/-! ### What a step stores -/

/-- A lane's turn of `st.local`. -/
structure LocalStore where
  slot : ThreadSlot
  addr : Addr
  start : Addr
  bytes : List Byte

def LocalStore.apply (mem : SparseMem) (s : LocalStore) : SparseMem :=
  writeSparse mem s.start s.bytes

/-- The stores of the lanes, up to one whose operand has no value. -/
def laneStores (item warp : Nat) (dst val : Operand) (size : Nat) (w : WarpState) :
    List Nat → List LocalStore
  | [] => []
  | lane :: lanes =>
      match readOperandLane val w lane with
      | none => []
      | some v =>
          { slot := ⟨item, warp, lane⟩, addr := evalAddrLane dst w lane
            start := localStart dst w lane, bytes := packLe v size }
            :: laneStores item warp dst val size w lanes

def MicroOp.localStores (uop : MicroOp) (item warp : Nat) (w : WarpState) : List LocalStore :=
  match uop.outputs, uop.inputs with
  | [], [dst, val] =>
      if w.done = false ∧ uop.op = .st ∧ uop.attrs.space = .localMem ∧ dst.kind = .addr then
        laneStores item warp dst val (typeSize uop.attrs.type) w (loopLanes (uop.execMask w))
      else []
  | _, _ => []

theorem forEach_stLocalLane (item warp : Nat) (dst val : Operand) (size : Nat) (w : WarpState)
    (lanes : List Nat) (mem : MemState) :
    (forEach (stLocalLane dst val size w) lanes mem).2.localMem
      = (laneStores item warp dst val size w lanes).foldl LocalStore.apply mem.localMem := by
  induction lanes generalizing mem with
  | nil => rfl
  | cons lane lanes ih =>
      rw [forEach, laneStores, stLocalLane]
      cases readOperandLane val w lane with
      | none => rfl
      | some v => exact ih _

theorem stGlobalLoop_localMem (mask : LaneMask) (dst val : Operand) (size : Nat) (w : WarpState)
    (mem : MemState) : (laneLoop mask (stGlobalLane dst val size w) mem).2.localMem
      = mem.localMem := by
  refine laneLoop_induct (P := fun s : MemState => s.localMem = mem.localMem) ?_ rfl
  intro lane s s' hbody hs
  obtain ⟨-, -, v, -, rfl⟩ := stGlobalLane_ok hbody
  exact hs

theorem stStep_localMem (uop : MicroOp) (item warp : Nat) (dst val : Operand) (w : WarpState)
    (mem : MemState) :
    (stStep uop (uop.execMask w) dst val w mem).2.localMem
      = (if uop.attrs.space = .localMem ∧ dst.kind = .addr then
          laneStores item warp dst val (typeSize uop.attrs.type) w (loopLanes (uop.execMask w))
        else []).foldl LocalStore.apply mem.localMem := by
  unfold stStep
  by_cases hkind : dst.kind = .addr
  · cases uop.attrs.space with
    | localMem =>
        simp only [hkind, ne_eq, not_true_eq_false, if_false, and_self, if_true, stepOfLoop_snd,
          laneLoop_eq_forEach]
        exact forEach_stLocalLane item warp dst val _ w _ mem
    | global => simp [hkind, stGlobalLoop_localMem]
    | _ => simp
  · cases uop.attrs.space <;> simp [hkind]

theorem memStep_of_not_st {uop : MicroOp} (w : WarpState) (mem : MemState)
    (h : ¬ (w.done = false ∧ uop.op = .st)) : (MemUnit.step uop w mem).2.2 = mem := by
  unfold MemUnit.step
  split
  · rfl
  next hdone =>
    have hop : uop.op ≠ .st := fun hop => h ⟨Bool.eq_false_of_not_eq_true hdone, hop⟩
    dsimp only
    split
    · split <;> rfl
    next hst => exact absurd hst hop
    · rfl

/-- Only `st.local` changes local memory. -/
theorem memStep_localMem (uop : MicroOp) (item warp : Nat) (w : WarpState) (mem : MemState) :
    (MemUnit.step uop w mem).2.2.localMem
      = (uop.localStores item warp w).foldl LocalStore.apply mem.localMem := by
  by_cases hst : w.done = false ∧ uop.op = .st
  · obtain ⟨kind, op, inputs, outputs, attrs, guard⟩ := uop
    obtain ⟨hdone, hop⟩ := hst
    simp only at hop
    subst hop
    match outputs, inputs with
    | [], [dst, val] =>
        have hstep := stStep_localMem
          { kind := kind, op := .st, inputs := [dst, val], outputs := [], attrs := attrs
            guard := guard } item warp dst val w mem
        simp only [MemUnit.step, MicroOp.localStores, hdone, Bool.false_eq_true, if_false, true_and]
        exact hstep
    | [], [] => simp [MemUnit.step, MicroOp.localStores, hdone]
    | [], [_] => simp [MemUnit.step, MicroOp.localStores, hdone]
    | [], _ :: _ :: _ :: _ => simp [MemUnit.step, MicroOp.localStores, hdone]
    | _ :: _, _ => simp [MemUnit.step, MicroOp.localStores, hdone]
  · rw [memStep_of_not_st w mem hst]
    unfold MicroOp.localStores
    split
    · rw [if_neg fun h => hst ⟨h.1, h.2.1⟩]
      rfl
    · rfl

/-! ### Runs -/

/-- What the memory unit does to local memory from the start of a launch: steps of its warps in any
order, each in any state of the warp, with the stores made so far. -/
inductive LocalRun (kernel : KernelImage) (launch : LaunchConfig) (plan : LaunchPlan) :
    List LocalStore → SparseMem → Prop where
  | start : LocalRun kernel launch plan [] fun _ => none
  | step {stores : List LocalStore} {item warp : Nat} {w : WarpState} {mem : MemState}
      (hrun : LocalRun kernel launch plan stores mem.localMem)
      (hwarp : WarpOf kernel launch plan item warp w) (uop : MicroOp) :
      LocalRun kernel launch plan (stores ++ uop.localStores item warp w)
        (MemUnit.step uop w mem).2.2.localMem

/-- The bytes the thread itself last stored, by its own addresses. -/
def ownLocal (slot : ThreadSlot) (stores : List LocalStore) : SparseMem :=
  (stores.filter fun s => s.slot = slot).foldl (fun mem s => writeSparse mem s.addr s.bytes)
    fun _ => none

/-- Where a store of the launch goes. -/
structure LocalStore.Placed (kernel : KernelImage) (launch : LaunchConfig) (plan : LaunchPlan)
    (s : LocalStore) : Prop where
  length : s.bytes.length ≤ 2 ^ 64
  start : ∃ w, WarpOf kernel launch plan s.slot.item s.slot.warp w
    ∧ s.start = localEffectiveAddr w s.slot.lane s.addr

section Runs

variable {kernel : KernelImage} {launch : LaunchConfig} {plan : LaunchPlan} {slot : ThreadSlot}
  {stores : List LocalStore} {w w' : WarpState} {mem mem' : MemState} {item warp : Nat}

theorem laneStores_placed {dst val : Operand} {t : ValueType} {lanes : List Nat} {s : LocalStore}
    (hwarp : WarpOf kernel launch plan item warp w)
    (hs : s ∈ laneStores item warp dst val (typeSize t) w lanes) :
    s.Placed kernel launch plan := by
  induction lanes with
  | nil => cases hs
  | cons lane lanes ih =>
      rw [laneStores] at hs
      split at hs
      · cases hs
      next v hv =>
        rcases List.mem_cons.mp hs with rfl | hs
        · refine ⟨?_, w, hwarp, rfl⟩
          rw [length_packLe]
          rcases typeSize_le t with h | h <;> omega
        · exact ih hs

theorem localStores_placed {uop : MicroOp} {s : LocalStore}
    (hwarp : WarpOf kernel launch plan item warp w) (hs : s ∈ uop.localStores item warp w) :
    s.Placed kernel launch plan := by
  unfold MicroOp.localStores at hs
  split at hs
  · split at hs
    · exact laneStores_placed hwarp hs
    · cases hs
  · cases hs

/-- The stores of a step are those of its warp. -/
theorem localStores_slot {uop : MicroOp} {s : LocalStore} (hs : s ∈ uop.localStores item warp w) :
    s.slot.item = item ∧ s.slot.warp = warp := by
  have hlanes : ∀ {dst val : Operand} {size : Nat} {lanes : List Nat},
      s ∈ laneStores item warp dst val size w lanes → s.slot.item = item ∧ s.slot.warp = warp := by
    intro dst val size lanes hs
    induction lanes with
    | nil => cases hs
    | cons lane lanes ih =>
        rw [laneStores] at hs
        split at hs
        · cases hs
        · rcases List.mem_cons.mp hs with rfl | hs
          · exact ⟨rfl, rfl⟩
          · exact ih hs
  unfold MicroOp.localStores at hs
  split at hs
  · split at hs
    · exact hlanes hs
    · cases hs
  · cases hs

/-- Local memory is what the stores of the launch left, one after the other. -/
theorem LocalRun.localMem_eq {localMem : SparseMem}
    (h : LocalRun kernel launch plan stores localMem) :
    localMem = stores.foldl LocalStore.apply (fun _ => none)
      ∧ ∀ s ∈ stores, s.Placed kernel launch plan := by
  induction h with
  | start => exact ⟨rfl, by simp⟩
  | @step stores item warp w mem hrun hwarp uop ih =>
      obtain ⟨hmem, hplaced⟩ := ih
      constructor
      · rw [memStep_localMem uop item warp, hmem, List.foldl_append]
      · intro s hs
        rcases List.mem_append.mp hs with hs | hs
        · exact hplaced s hs
        · exact localStores_placed hwarp hs

theorem inRange_add_left (base x a : Addr) (size : Nat) :
    InRange (base + x) size (base + a) ↔ InRange x size a := by
  unfold InRange
  rw [show base + a - (base + x) = a - x by bv_omega]

/-- Where no store of another thread reaches, a thread's part of the map holds its own bytes. -/
theorem foldl_apply_eq_ownLocal (hwarp : WarpOf kernel launch plan slot.item slot.warp w) {a : Addr}
    (hplaced : ∀ s ∈ stores, s.Placed kernel launch plan)
    (hclear : ∀ s ∈ stores, s.slot ≠ slot →
      ¬ InRange s.start s.bytes.length (localEffectiveAddr w slot.lane a)) :
    stores.foldl LocalStore.apply (fun _ => none) (localEffectiveAddr w slot.lane a)
      = ownLocal slot stores a := by
  induction stores using List.reverseRecOn with
  | nil => rfl
  | append_singleton stores s ih =>
      have hrest := ih (fun t ht => hplaced t (by simp [ht])) fun t ht => hclear t (by simp [ht])
      obtain ⟨hlength, w', hwarp', hstart⟩ := hplaced s (by simp)
      rw [List.foldl_append, List.foldl_cons, List.foldl_nil, LocalStore.apply, ownLocal,
        List.filter_append]
      by_cases hslot : s.slot = slot
      · rw [List.filter_cons_of_pos (by simpa using hslot), List.filter_nil, List.foldl_append,
          List.foldl_cons, List.foldl_nil, writeSparse_apply _ _ _ hlength,
          writeSparse_apply _ _ _ hlength, hrest]
        subst hslot
        have hbase : s.start = threadLinearGlobal w s.slot.lane * 4096 + s.addr := by
          rw [hstart, localEffectiveAddr, (hwarp'.sameThreads hwarp).threadLinearGlobal_eq]
        rw [hbase, localEffectiveAddr, if_congr (inRange_add_left _ _ _ _) rfl rfl,
          show threadLinearGlobal w s.slot.lane * 4096 + a
            - (threadLinearGlobal w s.slot.lane * 4096 + s.addr) = a - s.addr by bv_omega]
        rfl
      · rw [List.filter_cons_of_neg (by simpa using hslot), List.filter_nil, List.append_nil,
          writeSparse_of_not_inRange _ _ hlength (hclear s (by simp) hslot)]
        exact hrest

/-- A load that no store of another thread meets gives the thread's own bytes. -/
theorem LocalRun.ldLocalValue_eq (hrun : LocalRun kernel launch plan stores mem.localMem)
    (hwarp : WarpOf kernel launch plan slot.item slot.warp w) (src : Operand) (t : ValueType)
    (hclear : ∀ s ∈ stores, s.slot ≠ slot →
      RangesDisjoint s.start s.bytes.length (localStart src w slot.lane) (typeSize t)) :
    ldLocalValue src (typeSize t) mem w slot.lane
      = .ok (unpackLe (readSparse (ownLocal slot stores) (evalAddrLane src w slot.lane)
        (typeSize t))) := by
  obtain ⟨hmem, hplaced⟩ := hrun.localMem_eq
  have hsize : typeSize t ≤ 2 ^ 64 := by rcases typeSize_le t with h | h <;> omega
  unfold ldLocalValue
  rw [hmem]
  congr 2
  refine List.map_congr_left fun i hi => ?_
  have heff : localEffectiveAddr w slot.lane (evalAddrLane src w slot.lane) + BitVec.ofNat 64 i
      = localEffectiveAddr w slot.lane (evalAddrLane src w slot.lane + BitVec.ofNat 64 i) := by
    unfold localEffectiveAddr
    rw [BitVec.add_assoc]
  rw [heff, foldl_apply_eq_ownLocal hwarp hplaced]
  intro s hs hslot hin
  refine hclear s hs hslot _ ⟨hin, ?_⟩
  rw [← heff]
  exact (inRange_iff hsize).mpr ⟨i, List.mem_range.mp hi, rfl⟩

/-! ### Steps of the warps -/

theorem WarpState.SameThreads.refl (w : WarpState) : w.SameThreads w := ⟨rfl, rfl, rfl⟩

theorem OnlyRegs.sameThreads (h : OnlyRegs w w') : w'.SameThreads w := by
  obtain ⟨rU32, rU64, p, rfl⟩ := h
  exact ⟨rfl, rfl, rfl⟩

theorem WarpOf.of_sameThreads (h : WarpOf kernel launch plan item warp w)
    (hsame : w'.SameThreads w) : WarpOf kernel launch plan item warp w' := by
  obtain ⟨it, w₀, hitem, hwarp, hw⟩ := h
  exact ⟨it, w₀, hitem, hwarp, hsame.trans hw⟩

/-- Local memory goes on with stores of that warp. -/
def Continues (kernel : KernelImage) (launch : LaunchConfig) (plan : LaunchPlan) (item warp : Nat)
    (stores : List LocalStore) (w : WarpState) (mem : MemState) : Prop :=
  WarpOf kernel launch plan item warp w
    ∧ ∃ more, LocalRun kernel launch plan (stores ++ more) mem.localMem
      ∧ ∀ s ∈ more, s.slot.item = item ∧ s.slot.warp = warp

theorem Continues.of_sameThreads (h : Continues kernel launch plan item warp stores w mem)
    (hsame : w'.SameThreads w) : Continues kernel launch plan item warp stores w' mem :=
  ⟨h.1.of_sameThreads hsame, h.2⟩

theorem ctrlRet_keeps (uop : MicroOp) (s : IssueState) :
    (ctrlRet uop s).warp.SameThreads s.warp ∧ (ctrlRet uop s).mem = s.mem := by
  unfold ctrlRet
  dsimp only
  split
  · exact ⟨.refl _, rfl⟩
  · split <;> exact ⟨⟨rfl, rfl, rfl⟩, rfl⟩

theorem controlUnit_sameThreads (uop : MicroOp) (w : WarpState) :
    (ControlUnit.step uop w).2.SameThreads w := by
  unfold ControlUnit.step
  repeat' split
  all_goals exact ⟨rfl, rfl, rfl⟩

theorem detectSplit_keeps {ctx : WarpContext} {inst : InstRecord} {uop : MicroOp} {target : Int}
    {s s' : IssueState} (h : detectSplit ctx inst uop target s = .ok s') :
    s'.warp = s.warp ∧ s'.mem = s.mem := by
  unfold detectSplit at h
  dsimp only at h
  repeat' split at h
  all_goals cases h <;> exact ⟨rfl, rfl⟩

theorem setNextPc_keeps {ctx : WarpContext} {inst : InstRecord} {target : Int}
    {s s' : IssueState} (h : setNextPc ctx inst target s = .ok s') :
    s'.warp = s.warp ∧ s'.mem = s.mem := by
  unfold setNextPc at h
  repeat' split at h
  all_goals cases h <;> exact ⟨rfl, rfl⟩

theorem ctrlStep_keeps (ctx : WarpContext) (inst : InstRecord) (uop : MicroOp) (s : IssueState) :
    (ctrlStep ctx inst uop s).2.warp.SameThreads s.warp
      ∧ (ctrlStep ctx inst uop s).2.mem = s.mem := by
  have hunit := controlUnit_sameThreads uop s.warp
  unfold ctrlStep
  dsimp only
  split
  · exact ⟨hunit, rfl⟩
  next sr hsr =>
    split
    · exact ⟨hunit, rfl⟩
    next target htarget =>
      split
      · exact ⟨hunit, rfl⟩
      next s₁ hdetect =>
        have hs₁ : s₁.warp = (ControlUnit.step uop s.warp).2 ∧ s₁.mem = s.mem := by
          split at hdetect
          · exact detectSplit_keeps hdetect
          · cases hdetect
            exact ⟨rfl, rfl⟩
        rw [← hs₁.1] at hunit
        split
        · exact ⟨hunit, hs₁.2⟩
        next s₂ hnext =>
          obtain ⟨hwarp, hmem⟩ := setNextPc_keeps hnext
          rw [hwarp, hmem]
          exact ⟨hunit, hs₁.2⟩

theorem uopStep_continues {ctx : WarpContext} {inst : InstRecord} {uop : MicroOp} {s : IssueState}
    (h : Continues kernel launch plan item warp stores s.warp s.mem) :
    Continues kernel launch plan item warp stores (uopStep ctx inst uop s).2.warp
      (uopStep ctx inst uop s).2.mem := by
  unfold uopStep
  split
  · have hregs := (execStep_onlyRegs ctx.floatOps uop s.warp).sameThreads
    split
    next heq =>
      rw [heq] at hregs
      exact h.of_sameThreads hregs
    next heq =>
      rw [heq] at hregs
      exact h.of_sameThreads hregs
  · split
    · obtain ⟨hsame, hmem⟩ := ctrlRet_keeps uop s
      rw [hmem]
      exact h.of_sameThreads hsame
    · obtain ⟨hsame, hmem⟩ := ctrlStep_keeps ctx inst uop s
      rw [hmem]
      exact h.of_sameThreads hsame
  · have hregs := (memStep_onlyRegs uop s.warp s.mem).sameThreads
    obtain ⟨hwarp, more, hrun, hmore⟩ := h
    have hstep := hrun.step hwarp uop
    rw [List.append_assoc] at hstep
    have hslots : ∀ st ∈ more ++ uop.localStores item warp s.warp,
        st.slot.item = item ∧ st.slot.warp = warp := by
      intro st hst
      rcases List.mem_append.mp hst with hst | hst
      · exact hmore st hst
      · exact localStores_slot hst
    split
    next heq =>
      rw [heq] at hregs hstep
      exact ⟨hwarp.of_sameThreads hregs, _, hstep, hslots⟩
    next heq =>
      rw [heq] at hregs hstep
      exact ⟨hwarp.of_sameThreads hregs, _, hstep, hslots⟩

theorem uopLoop_continues {ctx : WarpContext} {inst : InstRecord} {uops : List MicroOp}
    {s : IssueState} (h : Continues kernel launch plan item warp stores s.warp s.mem) :
    Continues kernel launch plan item warp stores (uopLoop ctx inst uops s).2.warp
      (uopLoop ctx inst uops s).2.mem := by
  induction uops generalizing s with
  | nil => exact h
  | cons uop uops ih =>
      have hstep := @uopStep_continues _ _ _ _ _ _ ctx inst uop _ h
      rw [uopLoop]
      split
      next heq =>
        rw [heq] at hstep
        exact hstep
      next heq =>
        rw [heq] at hstep
        exact ih hstep

theorem commit_sameThreads (ctx : WarpContext) (nextPc : Option Int) (split : Option PendingSplit)
    (w : WarpState) : (commit ctx nextPc split w).SameThreads w := by
  unfold commit
  dsimp only
  repeat' split
  all_goals exact ⟨rfl, rfl, rfl⟩

theorem normalizeStack_sameThreads (ctx : WarpContext) (w : WarpState) :
    (normalizeStack ctx w).2.SameThreads w := by
  unfold normalizeStack
  split <;> exact ⟨rfl, rfl, rfl⟩

theorem issueInst_continues (ctx : WarpContext)
    (h : Continues kernel launch plan item warp stores w mem) :
    Continues kernel launch plan item warp stores (issueInst ctx w mem).2.1
      (issueInst ctx w mem).2.2 := by
  have hloop : ∀ inst uops, Continues kernel launch plan item warp stores
      (uopLoop ctx inst uops { warp := w, mem := mem }).2.warp
      (uopLoop ctx inst uops { warp := w, mem := mem }).2.mem :=
    fun inst uops => uopLoop_continues h
  unfold issueInst
  split
  · exact h
  · split
    · exact h
    next inst _ =>
      split
      · exact h
      · split
        · exact h
        next uops _ =>
          have hloop := hloop inst uops
          split
          next heq =>
            rw [heq] at hloop
            exact hloop
          next heq =>
            rw [heq] at hloop
            exact hloop.of_sameThreads (commit_sameThreads _ _ _ _)

/-- A step of a warp takes local memory on by stores of that warp. -/
theorem warpStep_continues (ctx : WarpContext)
    (h : Continues kernel launch plan item warp stores w mem) :
    Continues kernel launch plan item warp stores (warpStep ctx w mem).2.1
      (warpStep ctx w mem).2.2 := by
  have hnormalize := normalizeStack_sameThreads ctx w
  unfold warpStep
  split
  next heq =>
    rw [heq] at hnormalize
    exact h.of_sameThreads hnormalize
  next heq =>
    rw [heq] at hnormalize
    exact h.of_sameThreads hnormalize
  next w₁ heq =>
    rw [heq] at hnormalize
    have hissue := issueInst_continues ctx (h.of_sameThreads hnormalize)
    split
    next hok =>
      rw [hok] at hissue
      exact hissue
    next hok =>
      rw [hok] at hissue
      exact hissue

end Runs

end ProtoGpu

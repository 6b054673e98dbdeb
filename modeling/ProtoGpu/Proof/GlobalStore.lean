import ProtoGpu.Proof.LaneWrites
import ProtoGpu.Proof.SparseMemory

/-!
# The multi-lane store law

The lanes of `st.global` store in ascending order into one byte map, so each byte ends with what the
highest lane covering it stored. Accesses of one micro-op have one size and are aligned to it, so
two of them are equal or disjoint, and a load at the address of some lane reads the whole word of
the highest lane that stored there.
-/

namespace ProtoGpu

open LocalLoop CellLoop

/-! ### The loop of a store -/

section Store

variable {dst val : Operand} {size lane : Nat} {w : WarpState} {mem mem' : MemState}
  {lanes : List Nat} {a : Addr}

/-- What a lane's turn of `st.global` needs, and what it stores. -/
theorem stGlobalLane_ok (h : stGlobalLane dst val size w lane mem = .ok mem') :
    misaligned (evalAddrLane dst w lane) size = false
      ∧ mem.mgr.globalRangeAllocated (evalAddrLane dst w lane) (BitVec.ofNat 64 size) = true
      ∧ ∃ v, readOperandLane val w lane = some v
        ∧ mem' = { mem with mgr := { mem.mgr with
            global := writeSparse mem.mgr.global (evalAddrLane dst w lane) (packLe v size) } } := by
  unfold stGlobalLane at h
  dsimp only at h
  split at h
  · cases h
  next haligned =>
    split at h
    · cases h
    next v hv =>
      unfold AddrSpaceManager.writeGlobal at h
      rw [length_packLe] at h
      split at h
      · cases h
      next mgr hmgr =>
        split at hmgr
        next halloc =>
          cases hmgr
          cases h
          exact ⟨Bool.eq_false_of_not_eq_true haligned, halloc, v, hv, rfl⟩
        · cases hmgr

/-- Only the bytes of global memory change. -/
theorem storeRun_rest (hrun : forEach (stGlobalLane dst val size w) lanes mem = (none, mem')) :
    mem' = { mem with mgr := { mem.mgr with global := mem'.mgr.global } } := by
  induction lanes generalizing mem with
  | nil =>
      cases hrun
      rfl
  | cons lane lanes ih =>
      obtain ⟨t, hturn, hrest⟩ := forEach_cons_ok.mp hrun
      obtain ⟨-, -, v, -, rfl⟩ := stGlobalLane_ok hturn
      have h := ih hrest
      exact h

theorem storeRun_access (hrun : forEach (stGlobalLane dst val size w) lanes mem = (none, mem'))
    (hlane : lane ∈ lanes) :
    misaligned (evalAddrLane dst w lane) size = false
      ∧ mem.mgr.globalRangeAllocated (evalAddrLane dst w lane) (BitVec.ofNat 64 size) = true
      ∧ ∃ v, readOperandLane val w lane = some v := by
  induction lanes generalizing mem with
  | nil => cases hlane
  | cons l lanes ih =>
      obtain ⟨t, hturn, hrest⟩ := forEach_cons_ok.mp hrun
      obtain ⟨haligned, halloc, v, hv, rfl⟩ := stGlobalLane_ok hturn
      rcases List.mem_cons.mp hlane with rfl | hlane
      · exact ⟨haligned, halloc, v, hv⟩
      · have h := ih hrest hlane
        exact h

variable (hsize : size ≤ 2 ^ 64)
include hsize

theorem storeRun_other (hrun : forEach (stGlobalLane dst val size w) lanes mem = (none, mem'))
    (hnot : ∀ lane ∈ lanes, ¬ InRange (evalAddrLane dst w lane) size a) :
    mem'.mgr.global a = mem.mgr.global a := by
  induction lanes generalizing mem with
  | nil =>
      cases hrun
      rfl
  | cons lane lanes ih =>
      obtain ⟨t, hturn, hrest⟩ := forEach_cons_ok.mp hrun
      obtain ⟨-, -, v, -, rfl⟩ := stGlobalLane_ok hturn
      rw [ih hrest fun l hl => hnot l (by simp [hl])]
      refine writeSparse_of_not_inRange _ _ (by rwa [length_packLe]) ?_
      rw [length_packLe]
      exact hnot lane (by simp)

/-- A byte ends with what the last lane covering it stored. -/
theorem storeRun_last {pre post : List Nat}
    (hrun : forEach (stGlobalLane dst val size w) (pre ++ lane :: post) mem = (none, mem'))
    (hcovers : InRange (evalAddrLane dst w lane) size a)
    (hlast : ∀ l ∈ post, ¬ InRange (evalAddrLane dst w l) size a) :
    ∃ v, readOperandLane val w lane = some v
      ∧ mem'.mgr.global a
        = some ((v >>> (8 * (a - evalAddrLane dst w lane).toNat)).setWidth 8) := by
  obtain ⟨t, t', -, hturn, hpost⟩ := forEach_turn hrun
  obtain ⟨-, -, v, hv, rfl⟩ := stGlobalLane_ok hturn
  refine ⟨v, hv, ?_⟩
  rw [storeRun_other hsize hpost hlast]
  dsimp only
  rw [writeSparse_apply _ _ _ (by rwa [length_packLe]), length_packLe, if_pos hcovers,
    getD_packLe v hcovers]

end Store

/-! ### Aligned accesses -/

theorem misaligned_eq_false_iff {addr : Addr} {t : ValueType} :
    misaligned addr (typeSize t) = false ↔ addr.toNat % typeSize t = 0 := by
  unfold misaligned
  rcases typeSize_le t with hsize | hsize <;> simp [hsize, ← BitVec.toNat_inj]

/-- Aligned accesses of one size that share a byte are one access. -/
theorem aligned_inj {x y a : Addr} {t : ValueType} (hx : misaligned x (typeSize t) = false)
    (hy : misaligned y (typeSize t) = false) (hxa : InRange x (typeSize t) a)
    (hya : InRange y (typeSize t) a) : x = y := by
  rw [misaligned_eq_false_iff] at hx hy
  unfold InRange at hxa hya
  rcases typeSize_le t with hsize | hsize
  all_goals
    rw [hsize] at hx hy hxa hya
    bv_omega

/-! ### The law -/

/-- What a multi-lane store does to memory: each byte is that of the highest lane covering it. -/
structure StoreLaw (dst val : Operand) (size : Nat) (runs : Nat → Prop) (w : WarpState)
    (mem mem' : MemState) : Prop where
  covered : ∀ a lane, runs lane → InRange (evalAddrLane dst w lane) size a →
    (∀ l, runs l → InRange (evalAddrLane dst w l) size a → l ≤ lane) →
      ∃ v, readOperandLane val w lane = some v
        ∧ mem'.mgr.global a
          = some ((v >>> (8 * (a - evalAddrLane dst w lane).toNat)).setWidth 8)
  untouched : ∀ a, (∀ lane, runs lane → ¬ InRange (evalAddrLane dst w lane) size a) →
    mem'.mgr.global a = mem.mgr.global a
  rest : mem' = { mem with mgr := { mem.mgr with global := mem'.mgr.global } }

/-- The state a load has reached at a lane's turn. -/
def ldTurn (ld : MicroOp) (out src : Operand) (w : WarpState) (mem : MemState) (lane : Nat) :
    WarpState :=
  (laneLoopFrom (ld.execMask w) (writeLane out (ldGlobalValue src (typeSize ld.attrs.type) mem))
    (List.range lane) w).2

/-- Every later load of `size` bytes at `addr` gives the word: the lane's turn loads it without a
fault, and in a step that succeeds the lane's register has it. -/
structure LoadsAs (addr : Addr) (size : Nat) (mem : MemState) (word : BitVec 64) : Prop where
  value : ∀ src w lane, evalAddrLane src w lane = addr →
    ldGlobalValue src size mem w lane = .ok word
  step : ∀ (ld : MicroOp) (out src : Operand) (w w' : WarpState) (mem' : MemState)
    (sr : StepResult) (lane : Nat), ld.op = .ld → ld.attrs.space = .global →
      typeSize ld.attrs.type = size → ld.outputs = [out] → ld.inputs = [src] → out.kind = .reg →
        size ≤ typeSize out.type → MemUnit.step ld w mem = (.ok sr, w', mem') →
          ld.RunsAt w lane → evalAddrLane src (ldTurn ld out src w mem lane) lane = addr →
            readRegLane out w' lane = word

theorem stStep_loop {uop : MicroOp} {dst val : Operand} {w w' : WarpState} {mem mem' : MemState}
    {sr : StepResult} (hop : uop.op = .st) (hspace : uop.attrs.space = .global)
    (hin : uop.inputs = [dst, val]) (hdone : w.done = false)
    (hstep : MemUnit.step uop w mem = (.ok sr, w', mem')) :
    forEach (stGlobalLane dst val (typeSize uop.attrs.type) w) (loopLanes (uop.execMask w)) mem
      = (none, mem') := by
  unfold MemUnit.step at hstep
  rw [hdone, if_neg (by decide)] at hstep
  dsimp only at hstep
  rw [hop] at hstep
  dsimp only at hstep
  split at hstep
  next dst' val' hout hin' =>
    rw [hin] at hin'
    simp only [List.cons.injEq, and_true] at hin'
    obtain ⟨rfl, rfl⟩ := hin'
    simp only [stStep, hspace, Prod.mk.injEq] at hstep
    obtain ⟨hok, -, hmem⟩ := hstep
    split at hok
    · cases hok
    next hkind =>
      rw [if_neg hkind, stepOfLoop_snd] at hmem
      have hnone := stepOfLoop_ok_iff.mp ⟨sr, hok⟩
      rw [laneLoop_eq_forEach] at hnone hmem
      exact Prod.ext hnone hmem
  · cases hstep

theorem ldGlobalStep_loop {ld : MicroOp} {out src : Operand} {w w' : WarpState}
    {mem mem' : MemState} {sr : StepResult} (hop : ld.op = .ld) (hspace : ld.attrs.space = .global)
    (hout : ld.outputs = [out]) (hin : ld.inputs = [src]) (hdone : w.done = false)
    (hstep : MemUnit.step ld w mem = (.ok sr, w', mem')) :
    laneLoop (ld.execMask w) (writeLane out (ldGlobalValue src (typeSize ld.attrs.type) mem)) w
      = (none, w') := by
  unfold MemUnit.step at hstep
  rw [hdone, if_neg (by decide)] at hstep
  dsimp only at hstep
  rw [hop, hout, hin] at hstep
  simp only [ldStep, hspace, Prod.mk.injEq] at hstep
  obtain ⟨hok, hw, -⟩ := hstep
  split at hok
  · cases hok
  next hkind =>
    rw [if_neg hkind, stepOfLoop_snd] at hw
    exact Prod.ext (stepOfLoop_ok_iff.mp ⟨sr, hok⟩) hw

theorem bankValue_lowBytes {t t' : ValueType} (hwidth : typeSize t ≤ typeSize t') (v : BitVec 64) :
    bankValue t'.isWide (lowBytes v (typeSize t)) = lowBytes v (typeSize t) := by
  unfold bankValue
  cases hwide : t'.isWide with
  | true => rfl
  | false =>
      have hsize : typeSize t = 4 := by
        cases t' <;> cases t <;> simp_all [ValueType.isWide, typeSize]
      rw [hsize, lowBytes]
      apply BitVec.eq_of_toNat_eq
      simp

/-- A load reads the word that all of whose bytes are there. -/
theorem loadsAs_of_bytes {addr : Addr} {t : ValueType} {mem : MemState} {v : BitVec 64}
    (haligned : misaligned addr (typeSize t) = false)
    (halloc : mem.mgr.globalRangeAllocated addr (BitVec.ofNat 64 (typeSize t)) = true)
    (hbytes : ∀ i < typeSize t, mem.mgr.global (addr + BitVec.ofNat 64 i)
      = some ((v >>> (8 * i)).setWidth 8)) :
    LoadsAs addr (typeSize t) mem (lowBytes v (typeSize t)) := by
  have hsize : (BitVec.ofNat 64 (typeSize t)).toNat = typeSize t := by
    rcases typeSize_le t with h | h <;> rw [h] <;> rfl
  have hread : readSparse mem.mgr.global addr (typeSize t) = packLe v (typeSize t) := by
    refine List.map_congr_left fun i hi => ?_
    rw [hbytes i (List.mem_range.mp hi), Option.getD_some]
  have hvalue : ∀ src w lane, evalAddrLane src w lane = addr →
      ldGlobalValue src (typeSize t) mem w lane = .ok (lowBytes v (typeSize t)) := by
    intro src w lane haddr
    simp only [ldGlobalValue, haddr, haligned, Bool.false_eq_true, if_false,
      AddrSpaceManager.readGlobal, halloc, if_true, hsize, hread, unpackLe_packLe]
  refine ⟨hvalue, ?_⟩
  intro ld out src w w' mem' sr lane hop hspace htype hout hin hkind hwidth hstep hlane haddr
  have hloop := ldGlobalStep_loop hop hspace hout hin hlane.1 hstep
  obtain ⟨s, u, hs, hu, hread⟩ := writeLoop_turn hkind
    (show (ld.execMask w).width = w.active.width from rfl) hlane.2 hloop
  unfold ldTurn at haddr
  rw [hs] at haddr
  rw [htype, hvalue src s lane haddr] at hu
  rw [hread, ← Except.ok.inj hu, bankValue_lowBytes hwidth]

/-- **Multi-lane stores.** When `st.global` succeeds each byte that a lane covers is that of the
highest such lane, every other byte is kept, and a load of the same size at a lane's address gives
the low bytes of the value of the highest lane that stored there. -/
theorem store_global_law (uop : MicroOp) (dst val : Operand) (w w' : WarpState)
    (mem mem' : MemState) (sr : StepResult) (hop : uop.op = .st)
    (hspace : uop.attrs.space = .global) (hin : uop.inputs = [dst, val])
    (hstep : MemUnit.step uop w mem = (.ok sr, w', mem')) :
    StoreLaw dst val (typeSize uop.attrs.type) (uop.RunsAt w) w mem mem'
      ∧ ∀ lane, uop.RunsAt w lane →
        (∀ l, uop.RunsAt w l → evalAddrLane dst w l = evalAddrLane dst w lane → l ≤ lane) →
          ∃ v, readOperandLane val w lane = some v
            ∧ LoadsAs (evalAddrLane dst w lane) (typeSize uop.attrs.type) mem'
              (lowBytes v (typeSize uop.attrs.type)) := by
  by_cases hdone : w.done = false
  case neg =>
    have hquiet : ∀ lane, ¬ uop.RunsAt w lane := fun lane hlane => hdone hlane.1
    have hmem : mem' = mem := by
      rw [MemUnit.step, if_pos (Bool.of_not_eq_false hdone)] at hstep
      exact (congrArg (fun r => r.2.2) hstep).symm
    subst hmem
    exact ⟨⟨fun _ lane hlane => absurd hlane (hquiet lane), fun _ _ => rfl, rfl⟩,
      fun lane hlane => absurd hlane (hquiet lane)⟩
  have hrun := stStep_loop hop hspace hin hdone hstep
  have hsize : typeSize uop.attrs.type ≤ 2 ^ 64 := by
    rcases typeSize_le uop.attrs.type with h | h <;> rw [h] <;> decide
  have hlaw : StoreLaw dst val (typeSize uop.attrs.type) (uop.RunsAt w) w mem mem' := by
    refine ⟨fun a lane hlane hcovers hhighest => ?_, fun a hnot => ?_, storeRun_rest hrun⟩
    · obtain ⟨pre, post, hsplit⟩ := List.append_of_mem ((mem_loopLanes_runsAt hdone).mpr hlane)
      have hsorted := pairwise_loopLanes (uop.execMask w)
      rw [hsplit] at hrun hsorted
      refine storeRun_last hsize hrun hcovers fun l hl hl' => ?_
      have hruns : uop.RunsAt w l :=
        (mem_loopLanes_runsAt hdone).mp (by rw [hsplit]; simp [hl])
      have hle := hhighest l hruns hl'
      have hlt := (List.pairwise_cons.mp (List.pairwise_append.mp hsorted).2.1).1 l hl
      omega
    · exact storeRun_other hsize hrun fun lane hlane =>
        hnot lane ((mem_loopLanes_runsAt hdone).mp hlane)
  refine ⟨hlaw, fun lane hlane hhighest => ?_⟩
  have haccess : ∀ l, uop.RunsAt w l → _ :=
    fun l hl => storeRun_access hrun ((mem_loopLanes_runsAt hdone).mpr hl)
  obtain ⟨haligned, halloc, v, hv⟩ := haccess lane hlane
  refine ⟨v, hv, loadsAs_of_bytes haligned ?_ fun i hi => ?_⟩
  · rw [hlaw.rest]
    exact halloc
  · have hcovers : InRange (evalAddrLane dst w lane) (typeSize uop.attrs.type)
        (evalAddrLane dst w lane + BitVec.ofNat 64 i) := (inRange_iff hsize).mpr ⟨i, hi, rfl⟩
    obtain ⟨v', hv', hbyte⟩ := hlaw.covered _ lane hlane hcovers fun l hl hl' =>
      hhighest l hl (aligned_inj (haccess l hl).1 haligned hl' hcovers)
    obtain rfl := Option.some.inj (hv.symm.trans hv')
    rw [hbyte, toNat_add_ofNat_sub _ (by omega)]

/-- Both lanes store at one address. -/
def storeUop : MicroOp where
  kind := .mem
  op := .st
  inputs := [{ kind := .addr, regId := 0 }, { kind := .reg, regId := 0 }]
  guard := laneMaskAll 2

def storeWarp : WarpState where
  active := laneMaskAll 2
  rU32 := [5, 9]
  rU64 := [0x1000, 0x1000]

def storeMem : MemState where
  mgr := { allocs := [{ base := 0x1000, size := 4 }] }

theorem store_global_law_two_lanes :
    LoadsAs 0x1000 4 (MemUnit.step storeUop storeWarp storeMem).2.2 9 := by
  obtain ⟨-, hloads⟩ := store_global_law storeUop _ _ storeWarp _ storeMem _ { progressed := true }
    rfl rfl rfl rfl
  obtain ⟨v, hv, hword⟩ := hloads 1 ⟨rfl, by decide⟩ fun l hl _ =>
    Nat.le_of_lt_succ (laneMaskTest_lt hl.2).1
  obtain rfl := Option.some.inj hv
  exact hword

end ProtoGpu

import ProtoGpu.Lib.Grid
import ProtoGpu.Proof.LaneWrites

/-!
# What a micro-op leaves alone

Entry `n * warp_size + lane` of a register file is register `n` of the lane. A micro-op with a
destination changes that register at the lanes it runs, and nothing else, wherever it stops, as long
as the index of no such lane reaches `2 ^ 64`. An index that does is reduced, and the turn writes a
register of a lower number. The index before it, where no vector reaches it, is lost: the file is
emptied and the store is past its end. The condition is exact for a destination and a mask: where it
fails, some micro-op with this destination changes another register or is not defined.
-/

namespace ProtoGpu

open LocalLoop CellLoop

/-! ### What a step writes -/

/-- The check of `SETP` on the row of its destination. -/
def setpRowChecked (out : Operand) (w : WarpState) : Bool :=
  w.active.width ≠ 0 ∧ w.active.width ≤ 32 ∧ 0 ≤ out.predId
    ∧ (out.predId.toNat * w.active.width % 2 ^ 64 + w.active.width) % 2 ^ 64 ≤ w.p.length

/-- An execution micro-op or a load is refused, or is one loop that writes its destination. -/
inductive StepWrites (uop : MicroOp) (w : WarpState) (r : Except Fault StepResult × WarpState) :
    Prop where
  | refused (h : r.2 = w) (hdefined : r.1 ≠ .error .undefined)
  | regs (out : Operand) (value : WarpState → Nat → Except Fault (BitVec 64))
      (hout : uop.outputs = [out]) (hvalue : ∀ s lane, value s lane ≠ .error .undefined)
      (h : r = stepOfLoop (laneLoop (uop.execMask w) (writeLane out value) w))
  | preds (out : Operand) (value : WarpState → Nat → Option Bool) (hout : uop.outputs = [out])
      (hkind : out.kind = .pred) (hchecked : setpRowChecked out w = true)
      (h : r = stepOfLoop (laneLoop (uop.execMask w)
        (writePredLane (out.predId.toNat * w.active.width % 2 ^ 64) value) w))

section Steps

variable {uop : MicroOp} {out a b src : Operand} {w : WarpState}

theorem stepWrites_diag (d : Diagnostic) : StepWrites uop w (.error (.diag d), w) :=
  .refused rfl fun h => by cases h

theorem orFault_defined {α : Type} (d : Diagnostic) (x : Option α) :
    orFault (.diag d) x ≠ .error .undefined := by
  intro h
  cases x with
  | none => cases h
  | some v => cases h

theorem execLanes_writes (d : Diagnostic) (value : WarpState → Nat → Option (BitVec 64))
    (hout : uop.outputs = [out]) :
    StepWrites uop w (execLanes (uop.execMask w) (.diag d) out value w) :=
  .regs out _ hout (fun _ _ => orFault_defined d _) rfl

theorem setpStep_writes (hout : uop.outputs = [out]) :
    StepWrites uop w (setpStep uop (uop.execMask w) out a b w) := by
  unfold setpStep
  split
  · exact stepWrites_diag _
  next hkind =>
    split
    · exact stepWrites_diag _
    · dsimp only
      split
      · exact stepWrites_diag _
      next hsize =>
        split
        · exact stepWrites_diag _
        next hrange =>
          rw [not_or, not_not, not_lt] at hkind
          rw [not_or] at hsize
          refine .preds out _ hout hkind.1 ?_ rfl
          simp only [setpRowChecked, decide_eq_true_eq]
          omega

theorem reduceLanes_defined (F : FloatOps) (mask : LaneMask) :
    (reduceLanes F mask a w).1 ≠ some .undefined := by
  intro h
  rw [reduceLanes, laneLoop_eq_forEach] at h
  obtain ⟨_, _, _, _, _, _, hfails⟩ := forEach_failed h
  split at hfails
  · cases hfails
  · cases hfails

theorem execStep_writes (F : FloatOps) (uop : MicroOp) (hdone : w.done = false) :
    StepWrites uop w (ExecCore.step F uop w) := by
  obtain ⟨kind, op, inputs, outputs, attrs, guard⟩ := uop
  unfold ExecCore.step
  rw [hdone, if_neg (by decide)]
  dsimp only
  cases op
  case setp =>
    dsimp only
    split
    · exact setpStep_writes rfl
    · exact stepWrites_diag _
  case warpReduceAdd =>
    dsimp only
    split
    next out a =>
      split
      · exact stepWrites_diag _
      · have hdefined := reduceLanes_defined (a := a) (w := w) F (laneMaskAnd w.active guard)
        split
        next f _ hreduce =>
          rw [hreduce] at hdefined
          exact .refused rfl fun h => hdefined (congrArg some (Except.error.inj h))
        · exact execLanes_writes _ _ rfl
    · exact stepWrites_diag _
  all_goals
    dsimp only
    repeat' split
  all_goals first
    | exact stepWrites_diag _
    | exact execLanes_writes _ _ rfl

theorem ldGlobalValue_defined (size lane : Nat) (mem : MemState) :
    ldGlobalValue src size mem w lane ≠ .error .undefined := by
  intro h
  unfold ldGlobalValue at h
  dsimp only at h
  split at h
  · cases h
  · split at h
    · cases h
    · cases h

theorem ldStep_writes (mem : MemState) (hout : uop.outputs = [out]) :
    StepWrites uop w (ldStep uop (uop.execMask w) out src w mem) := by
  unfold ldStep
  dsimp only
  split
  · split
    · exact stepWrites_diag _
    · split
      · exact stepWrites_diag _
      · exact .regs out _ hout (fun _ _ h => by cases h) rfl
  · split
    · exact stepWrites_diag _
    · exact .regs out _ hout (fun _ lane => ldGlobalValue_defined _ lane mem) rfl
  · split
    · exact stepWrites_diag _
    · exact .regs out _ hout (fun _ _ h => by cases h) rfl
  · exact stepWrites_diag _

theorem regStep_writes (F : FloatOps) (uop : MicroOp) (mem : MemState) (hdone : w.done = false)
    (huop : uop.kind = .exec ∨ uop.op = .ld) :
    StepWrites uop w (regStep F uop mem uop.guard w) := by
  unfold regStep
  split
  · exact execStep_writes F uop hdone
  next hkind =>
    have hop : uop.op = .ld := huop.resolve_left hkind
    unfold MemUnit.step
    rw [hdone, if_neg (by decide)]
    dsimp only
    rw [hop]
    dsimp only
    split
    next hout hin => exact ldStep_writes mem hout
    · exact stepWrites_diag _

theorem regStep_done (F : FloatOps) (uop : MicroOp) (mem : MemState) (hdone : w.done = true) :
    regStep F uop mem uop.guard w = (.ok { warpDone := true }, w) := by
  unfold regStep
  split
  · rw [ExecCore.step, if_pos hdone]
  · rw [MemUnit.step, if_pos hdone]

end Steps

/-! ### The frame -/

/-- Every register and predicate reads as before, except the destination at the lanes that run. -/
structure Framed (outs : List Operand) (guard : LaneMask) (w w' : WarpState) : Prop where
  regs : ∀ wide n lane, lane < w.active.width →
    ¬ (LaneRuns guard w lane
      ∧ ∃ out ∈ outs, out.kind = .reg ∧ out.type.isWide = wide ∧ out.regNo = n) →
    w'.entry wide (n * w.active.width + lane) = w.entry wide (n * w.active.width + lane)
  preds : ∀ n lane, lane < w.active.width →
    ¬ (LaneRuns guard w lane ∧ ∃ out ∈ outs, out.kind = .pred ∧ out.predId.toNat = n) →
    w'.p.getD (n * w.active.width + lane) 0 = w.p.getD (n * w.active.width + lane) 0

theorem Framed.refl (outs : List Operand) (guard : LaneMask) (w : WarpState) :
    Framed outs guard w w :=
  ⟨fun _ _ _ _ _ => rfl, fun _ _ _ _ => rfl⟩

/-- At each lane that runs the destination's index stays below `2 ^ 64` and is not lost, or the loop
stops at it or before it as no vector can have such an index. A predicate has to be there. -/
def DestinationFits (outs : List Operand) (guard : LaneMask) (w : WarpState) : Prop :=
  ∀ out, outs = [out] → ∀ lane, LaneRuns guard w lane →
    (out.kind = .reg →
      (out.regNo * w.active.width + lane < 2 ^ 64
          ∧ ¬ w.Loses out.type.isWide (out.regNo * w.active.width + lane))
        ∨ ∃ l ≤ lane, LaneRuns guard w l
          ∧ w.Refuses out.type.isWide (regLaneIndex out.regNo l w.active.width))
    ∧ (out.kind = .pred → setpRowChecked out w = true →
      out.predId.toNat * w.active.width + lane < 2 ^ 64
        ∧ out.predId.toNat * w.active.width + lane < w.p.length)

/-- The lanes a loop ran are closed downwards. -/
theorem mem_ran_of_le {mask : LaneMask} {lanes post : List Nat} {lane l : Nat}
    (hsplit : loopLanes mask = lanes ++ post) (hlane : lane ∈ lanes)
    (hl : laneMaskTest mask l = true) (hle : l ≤ lane) : l ∈ lanes := by
  have hmem : l ∈ lanes ++ post := hsplit ▸ mem_loopLanes_iff.mpr hl
  rcases List.mem_append.mp hmem with hin | hpost
  · exact hin
  · have hsorted := pairwise_loopLanes mask
    rw [hsplit, List.pairwise_append] at hsorted
    have := hsorted.2.2 lane hlane l hpost
    omega

section Preds

variable {base : Nat} {value : WarpState → Nat → Option Bool} {lanes : List Nat} {w w' : WarpState}

theorem writePredLane_ok {lane : Nat} (h : writePredLane base value lane w = .ok w') :
    ∃ v, (base + lane) % 2 ^ 64 < w.p.length
      ∧ w' = { w with p := w.p.set ((base + lane) % 2 ^ 64) v } := by
  unfold writePredLane at h
  split at h
  · cases h
  · split at h
    next hlt =>
      cases h
      exact ⟨_, hlt, rfl⟩
    · cases h

theorem predRun_wrote (hrun : forEach (writePredLane base value) lanes w = (none, w')) :
    (∃ p, w' = { w with p := p } ∧ p.length = w.p.length)
      ∧ (∀ l ∈ lanes, (base + l) % 2 ^ 64 < w.p.length)
      ∧ ∀ i, (∀ l ∈ lanes, i ≠ (base + l) % 2 ^ 64) → w'.p.getD i 0 = w.p.getD i 0 := by
  induction lanes generalizing w with
  | nil =>
      cases hrun
      exact ⟨⟨_, rfl, rfl⟩, by simp, fun _ _ => rfl⟩
  | cons lane lanes ih =>
      obtain ⟨t, hturn, hrest⟩ := forEach_cons_ok.mp hrun
      obtain ⟨v, hlt, rfl⟩ := writePredLane_ok hturn
      obtain ⟨⟨p, rfl, hlength⟩, hfits, hkeep⟩ := ih hrest
      simp only [List.length_set] at hlength hfits
      refine ⟨⟨p, rfl, hlength⟩, fun l hl => ?_, fun i hnot => ?_⟩
      · rcases List.mem_cons.mp hl with rfl | hl
        · exact hlt
        · exact hfits l hl
      · rw [hkeep i fun l hl => hnot l (by simp [hl])]
        simp only [getD_set hlt]
        rw [if_neg (hnot lane (by simp))]

end Preds

section Frame

variable {uop : MicroOp} {w : WarpState} {r : Except Fault StepResult × WarpState}

/-- The step is defined, and what it leaves is framed. -/
def StepFramed (outs : List Operand) (guard : LaneMask) (w : WarpState)
    (r : Except Fault StepResult × WarpState) : Prop :=
  r.1 ≠ .error .undefined ∧ Framed outs guard w r.2

theorem stepOfLoop_undefined {r : Option Fault × WarpState}
    (h : (stepOfLoop r).1 = .error .undefined) : r.1 = some .undefined := by
  unfold stepOfLoop at h
  split at h
  next hfault =>
    cases h
    exact hfault
  · cases h

/-- Where a loop of register writes is undefined, the lanes before wrote, and the write is lost. -/
theorem writeLoop_undefined {out : Operand} {value : WarpState → Nat → Except Fault (BitVec 64)}
    (hvalue : ∀ s lane, value s lane ≠ .error .undefined)
    (h : (laneLoop (uop.execMask w) (writeLane out value) w).1 = some .undefined) :
    ∃ lane, laneMaskTest (uop.execMask w) lane = true ∧ out.kind = .reg
      ∧ w.Loses out.type.isWide (regLaneIndex out.regNo lane w.active.width)
      ∧ ∀ l < lane, laneMaskTest (uop.execMask w) l = true →
        regLaneIndex out.regNo l w.active.width < w.capacity out.type.isWide := by
  rw [laneLoop_eq_forEach] at h
  obtain ⟨pre, lane, post, t, hsplit, hrun, hfails⟩ := forEach_failed h
  have hmem : ∀ l ∈ pre ++ [lane], l ∈ loopLanes (uop.execMask w) := by
    intro l hl
    rw [loopLanes, hsplit]
    simp only [List.mem_append, List.mem_cons, List.not_mem_nil, or_false] at hl ⊢
    exact hl.imp_right .inl
  have hlane := mem_loopLanes_iff.mp (hmem lane (by simp))
  have hwrote := writeRun_wrote (fun l hl => (loopLanes_dom (hmem l (by simp [hl]))).1) hrun
  have hwidth : lane < t.active.width := by
    rw [hwrote.active]
    exact (loopLanes_dom (hmem lane (by simp))).1
  have hlost : ∃ v, writeRegLane out t lane v = .error .undefined := by
    unfold writeLane at hfails
    split at hfails
    next hfault =>
      cases hfails
      exact absurd hfault (hvalue t lane)
    next v _ => exact ⟨v, hfails⟩
  obtain ⟨v, hlost⟩ := hlost
  obtain ⟨hkind, hcap, hlast⟩ := (writeRegLane_undefined_iff hwidth).mp hlost
  rw [hwrote.active, hwrote.capacity] at hcap
  rw [hwrote.active] at hlast
  refine ⟨lane, hlane, hkind, ⟨hcap, hlast⟩, fun l hl hlive => hwrote.fits l ?_ hkind⟩
  rw [loopLanes_split hsplit, List.mem_filter, List.mem_range]
  exact ⟨hl, hlive⟩

theorem regLoop_framed {out : Operand} {value : WarpState → Nat → Except Fault (BitVec 64)}
    (hdone : w.done = false) (hout : uop.outputs = [out])
    (hvalue : ∀ s lane, value s lane ≠ .error .undefined)
    (hfits : DestinationFits uop.outputs uop.guard w) :
    StepFramed uop.outputs uop.guard w
      (stepOfLoop (laneLoop (uop.execMask w) (writeLane out value) w)) := by
  constructor
  · intro hundefined
    obtain ⟨lane, hlane, hkind, hloses, hbefore⟩ :=
      writeLoop_undefined hvalue (stepOfLoop_undefined hundefined)
    rcases (hfits out hout lane ⟨hdone, hlane⟩).1 hkind with ⟨hlt, hkept⟩ | ⟨l, hl, hrun, hcap, hne⟩
    · rw [regLaneIndex, Nat.mod_eq_of_lt hlt] at hloses
      exact hkept hloses
    · rcases hl.eq_or_lt with rfl | hlt
      · exact hne hloses.2
      · exact absurd (hbefore l hlt hrun.2) (Nat.not_lt.mpr hcap)
  · rw [stepOfLoop_snd]
    obtain ⟨lanes, post, hsplit, hwrote⟩ :=
      writeLoop_wrote out value (show (uop.execMask w).width = w.active.width from rfl)
    refine ⟨fun wide n lane hlane hnot => hwrote.entry wide _ fun l hl hstored => hnot ?_,
      fun n lane _ _ => by rw [hwrote.p]⟩
    obtain ⟨hkind, hwide, hidx⟩ := hstored
    have hrun : uop.RunsAt w l :=
      (mem_loopLanes_runsAt hdone).mp (hsplit ▸ List.mem_append_left post hl)
    rcases (hfits out hout l hrun).1 hkind with ⟨hlt, -⟩ | ⟨j, hj, hjrun, hcap, -⟩
    · rw [regLaneIndex, Nat.mod_eq_of_lt hlt] at hidx
      obtain ⟨rfl, rfl⟩ := Grid.row_inj hlane (laneMaskTest_lt hrun.2).1 hidx
      exact ⟨hrun, out, by simp [hout], hkind, hwide.symm, rfl⟩
    · have := hwrote.fits j (mem_ran_of_le hsplit hl hjrun.2 hj) hkind
      omega

theorem predLoop_framed {out : Operand} {value : WarpState → Nat → Option Bool}
    (hdone : w.done = false) (hout : uop.outputs = [out]) (hkind : out.kind = .pred)
    (hchecked : setpRowChecked out w = true) (hfits : DestinationFits uop.outputs uop.guard w) :
    StepFramed uop.outputs uop.guard w (stepOfLoop (laneLoop (uop.execMask w)
      (writePredLane (out.predId.toNat * w.active.width % 2 ^ 64) value) w)) := by
  have hthere : ∀ l ∈ loopLanes (uop.execMask w), out.predId.toNat * w.active.width + l < 2 ^ 64
      ∧ out.predId.toNat * w.active.width + l < w.p.length := fun l hl =>
    (hfits out hout l ((mem_loopLanes_runsAt hdone).mp hl)).2 hkind hchecked
  constructor
  · intro hundefined
    have hloop := stepOfLoop_undefined hundefined
    rw [laneLoop_eq_forEach] at hloop
    obtain ⟨pre, lane, post, t, hsplit, hrun, hfails⟩ := forEach_failed hloop
    obtain ⟨⟨p, rfl, hlength⟩, -, -⟩ := predRun_wrote hrun
    obtain ⟨hlt, hin⟩ := hthere lane (by rw [loopLanes, hsplit]; simp)
    unfold writePredLane at hfails
    rw [Nat.mod_add_mod, Nat.mod_eq_of_lt hlt] at hfails
    split at hfails
    · cases hfails
    · rw [if_pos (show _ < p.length by rw [hlength]; exact hin)] at hfails
      cases hfails
  · rw [stepOfLoop_snd]
    obtain ⟨lanes, post, hsplit, hran⟩ := forEach_ran
      (writePredLane (out.predId.toNat * w.active.width % 2 ^ 64) value)
      (loopLanes (uop.execMask w)) w
    rw [laneLoop_eq_forEach]
    obtain ⟨⟨p, hp, -⟩, -, hkeep⟩ := predRun_wrote hran
    rw [loopLanes] at hp hkeep
    refine ⟨fun wide n lane _ _ => by rw [hp]; rfl, fun n lane hlane hnot => ?_⟩
    refine hkeep _ fun l hl hidx => hnot ?_
    have hmem : l ∈ loopLanes (uop.execMask w) := hsplit ▸ List.mem_append_left post hl
    have hrun : uop.RunsAt w l := (mem_loopLanes_runsAt hdone).mp hmem
    rw [Nat.mod_add_mod, Nat.mod_eq_of_lt (hthere l hmem).1] at hidx
    obtain ⟨rfl, rfl⟩ := Grid.row_inj hlane (laneMaskTest_lt hrun.2).1 hidx
    exact ⟨hrun, out, by simp [hout], hkind, rfl⟩

theorem StepWrites.framed (hdone : w.done = false) (h : StepWrites uop w r)
    (hfits : DestinationFits uop.outputs uop.guard w) : StepFramed uop.outputs uop.guard w r := by
  cases h with
  | refused h hdefined =>
      refine ⟨hdefined, ?_⟩
      rw [h]
      exact .refl _ _ _
  | regs out value hout hvalue h =>
      rw [h]
      exact regLoop_framed hdone hout hvalue hfits
  | preds out value hout hkind hchecked h =>
      rw [h]
      exact predLoop_framed hdone hout hkind hchecked hfits

end Frame

/-! ### The condition is needed -/

section Needed

variable {out : Operand} {guard : LaneMask} {w : WarpState} {lane : Nat}

/-- `MOV` of an immediate. -/
def movImmUop (out : Operand) (guard : LaneMask) (c : BitVec 64) : MicroOp where
  inputs := [{ immI64 := c.toInt }]
  outputs := [out]
  guard := guard

/-- `SETP` with a fixed outcome. -/
def setpImmUop (out : Operand) (guard : LaneMask) (pred : Bool) : MicroOp where
  op := .setp
  inputs := [{ immI64 := 0 }, { immI64 := if pred then 0 else 1 }]
  outputs := [out]
  attrs := { flags := ["eq"] }
  guard := guard

theorem movImmUop_step (F : FloatOps) (mem : MemState) (hdone : w.done = false) (c : BitVec 64) :
    regStep F (movImmUop out guard c) mem guard w
      = stepOfLoop (laneLoop (laneMaskAnd w.active guard) (writeLane out fun _ _ => .ok c) w) := by
  have hvalue : (fun (s : WarpState) (l : Nat) => orFault
      (execDiag "E_SPECIAL_UNKNOWN" ("unknown special operand: " ++ ""))
      (unaryValue id { immI64 := c.toInt } s l)) = fun _ _ => .ok c := by
    funext s l
    simp [unaryValue, readOperandLane, orFault]
  simp only [regStep, movImmUop, ExecCore.step, hdone, Bool.false_eq_true, if_false,
    if_true, execLanes,
    hvalue]

theorem setpImmUop_step (F : FloatOps) (mem : MemState) (hdone : w.done = false)
    (hkind : out.kind = .pred) (hchecked : setpRowChecked out w = true) (pred : Bool) :
    regStep F (setpImmUop out guard pred) mem guard w
      = stepOfLoop (laneLoop (laneMaskAnd w.active guard) (writePredLane
          (out.predId.toNat * w.active.width % 2 ^ 64) fun _ _ => some pred) w) := by
  have hvalue : setpValue (setpCmp ["eq"]) (decide (ValueType.u32 = .s32 ∨ ValueType.u32 = .s64))
      { immI64 := 0 } { immI64 := if pred then 0 else 1 } = fun _ _ => some pred := by
    funext s l
    cases pred <;> rfl
  simp only [setpRowChecked, decide_eq_true_eq] at hchecked
  have hpred : ¬ (out.kind ≠ .pred ∨ out.predId < 0) := by
    rw [not_or, not_not]
    exact ⟨hkind, by omega⟩
  have hflags : ¬ setpOpCount ["eq"] > 1 := by decide
  have hsize : ¬ (w.active.width = 0 ∨ w.active.width > 32) := by omega
  have hrange : ¬ (out.predId.toNat * w.active.width % 2 ^ 64 + w.active.width) % 2 ^ 64
      > w.p.length := by omega
  simp only [regStep, setpImmUop, ExecCore.step, hdone, Bool.false_eq_true, if_false, if_true,
    setpStep, if_neg hpred, if_neg hflags, if_neg hsize, if_neg hrange]
  exact congrArg (fun value => stepOfLoop (laneLoop (laneMaskAnd w.active guard)
    (writePredLane _ value) w)) hvalue

theorem bankValue_succ_ne {wide : Bool} {w : WarpState} {i : Nat} :
    bankValue wide (w.entry wide i + 1) ≠ w.entry wide i := by
  have hone : (1 : BitVec 64).toNat = 1 := rfl
  unfold bankValue WarpState.entry
  cases wide with
  | true =>
      intro h
      have := congrArg BitVec.toNat h
      simp only [if_true, BitVec.toNat_add, hone] at this
      omega
  | false =>
      intro h
      have := congrArg BitVec.toNat h
      simp only [Bool.false_eq_true, if_false, BitVec.toNat_setWidth, BitVec.toNat_add, hone]
        at this
      omega

/-- An index past `2 ^ 64` is an index of a lower row. -/
theorem row_lt_of_wrap {n m l warpSize : Nat} (hlane : lane < 32)
    (hwrap : 2 ^ 64 ≤ n * warpSize + lane)
    (h : m * warpSize + l = (n * warpSize + lane) % 2 ^ 64) : m ≠ n := by
  rintro rfl
  omega

theorem reg_frame_broken (F : FloatOps) (mem : MemState) (hkind : out.kind = .reg)
    (hlane : LaneRuns guard w lane) (hwrap : 2 ^ 64 ≤ out.regNo * w.active.width + lane)
    (hfits : ∀ l ≤ lane, LaneRuns guard w l →
      regLaneIndex out.regNo l w.active.width < w.capacity out.type.isWide) :
    ∃ c, ¬ Framed [out] guard w (regStep F (movImmUop out guard c) mem guard w).2 := by
  obtain ⟨hwidth, h32⟩ := laneMaskTest_lt hlane.2
  have hwidth : lane < w.active.width := hwidth
  let idx := regLaneIndex out.regNo lane w.active.width
  -- any word but the one the entry holds
  let c := w.entry out.type.isWide idx + 1
  refine ⟨c, fun hframed => ?_⟩
  rw [movImmUop_step F mem hlane.1, stepOfLoop_snd] at hframed
  obtain ⟨pre, post, hsplit, hpre⟩ := loopLanes_at hlane.2
  have hran : ∃ t', forEach (writeLane out fun _ _ => .ok c) (pre ++ [lane]) w = (none, t') :=
    writeRun_ok (fun _ => some c) (fun l hl => (laneMaskTest_lt (hpre l hl).2).1)
      (fun l hl _ => hfits l (hpre l hl).1 ⟨hlane.1, (hpre l hl).2⟩) fun _ _ => rfl
  obtain ⟨t', hran⟩ := hran
  obtain ⟨t, _, hran, hturn, -⟩ := forEach_turn hran
  rw [← store_writeLane] at hran hturn
  have hdom : ∀ l ∈ pre ++ lane :: post, l < w.active.width ∧ l < 32 := by
    intro l hl
    rw [← hsplit] at hl
    have h := laneMaskTest_lt (mem_loopLanes_iff.mp hl)
    exact h
  have hnodup : (pre ++ lane :: post).Nodup := by
    rw [← hsplit]
    exact nodup_loopLanes _
  obtain ⟨_, hv, hread⟩ := (regCells hkind w.active.width).run_ran rfl hdom hnodup hran hturn
  obtain rfl := Except.ok.inj hv
  rw [store_writeLane, ← hsplit] at hread
  -- the entry is one of a lower register, so the frame keeps it
  have hpos : 0 < w.active.width := by omega
  have hrow : idx / w.active.width * w.active.width + idx % w.active.width = idx :=
    Nat.div_add_mod' _ _
  have hkept := hframed.regs out.type.isWide (idx / w.active.width) (idx % w.active.width)
    (Nat.mod_lt _ hpos) (by
      rintro ⟨-, o, ho, -, -, hn⟩
      obtain rfl := List.mem_singleton.mp ho
      exact row_lt_of_wrap h32 hwrap hrow hn.symm)
  rw [hrow] at hkept
  rw [loopLanes, ← laneLoop_eq_forEach] at hread
  obtain ⟨_, _, -, hwrote⟩ := writeLoop_wrote out (fun _ _ => .ok c)
    (show (laneMaskAnd w.active guard).width = w.active.width from rfl)
  have hactive := hwrote.active
  rw [readRegLane_eq_entry hkind (by rw [hactive]; exact hwidth), hactive] at hread
  have hsame : bankValue out.type.isWide c = w.entry out.type.isWide idx := hread.symm.trans hkept
  exact bankValue_succ_ne hsame

theorem predRun_ok (base : Nat) (pred : Bool) {lanes : List Nat}
    (hfits : ∀ l ∈ lanes, (base + l) % 2 ^ 64 < w.p.length) :
    ∃ w', forEach (writePredLane base fun _ _ => some pred) lanes w = (none, w') := by
  induction lanes generalizing w with
  | nil => exact ⟨w, rfl⟩
  | cons l lanes ih =>
      have hlt := hfits l (by simp)
      have hturn : writePredLane base (fun _ _ => some pred) l w = .ok { w with
          p := w.p.set ((base + l) % 2 ^ 64) (if pred then 1 else 0) } := if_pos hlt
      obtain ⟨w', hw'⟩ := ih (w := { w with
          p := w.p.set ((base + l) % 2 ^ 64) (if pred then 1 else 0) }) fun j hj => by
        rw [List.length_set]
        exact hfits j (by simp [hj])
      exact ⟨w', forEach_cons_ok.mpr ⟨_, hturn, hw'⟩⟩

theorem pred_frame_broken (F : FloatOps) (mem : MemState) (hkind : out.kind = .pred)
    (hchecked : setpRowChecked out w = true) (hlane : LaneRuns guard w lane)
    (hwrap : 2 ^ 64 ≤ out.predId.toNat * w.active.width + lane)
    (hfits : ∀ l ≤ lane, LaneRuns guard w l →
      (out.predId.toNat * w.active.width + l) % 2 ^ 64 < w.p.length) :
    ∃ pred, ¬ Framed [out] guard w (regStep F (setpImmUop out guard pred) mem guard w).2 := by
  obtain ⟨hwidth, h32⟩ := laneMaskTest_lt hlane.2
  have hwidth : lane < w.active.width := hwidth
  let base := out.predId.toNat * w.active.width % 2 ^ 64
  let idx := (out.predId.toNat * w.active.width + lane) % 2 ^ 64
  -- the outcome the entry does not hold
  let pred := decide (w.p.getD idx 0 ≠ 1)
  refine ⟨pred, fun hframed => ?_⟩
  rw [setpImmUop_step F mem hlane.1 hkind hchecked, stepOfLoop_snd] at hframed
  obtain ⟨pre, post, hsplit, hpre⟩ := loopLanes_at hlane.2
  obtain ⟨t', hran⟩ := predRun_ok base pred fun l hl => by
    rw [Nat.mod_add_mod]
    exact hfits l (hpre l hl).1 ⟨hlane.1, (hpre l hl).2⟩
  obtain ⟨t, _, hran, hturn, -⟩ := forEach_turn hran
  rw [← store_writePredLane] at hran hturn
  have hdom : ∀ l ∈ pre ++ lane :: post, l < 32 := by
    intro l hl
    rw [← hsplit] at hl
    exact (laneMaskTest_lt (mem_loopLanes_iff.mp hl)).2
  have hnodup : (pre ++ lane :: post).Nodup := by
    rw [← hsplit]
    exact nodup_loopLanes _
  obtain ⟨v, hv, hread⟩ := (predCells base w).run_ran ⟨w.p, rfl⟩ hdom hnodup hran hturn
  have hv : (if pred then 1 else 0 : Byte) = v := Except.ok.inj hv
  rw [store_writePredLane, ← hsplit, loopLanes, ← laneLoop_eq_forEach, Nat.mod_add_mod] at hread
  -- the entry is one of a lower predicate, so the frame keeps it
  have hpos : 0 < w.active.width := by omega
  have hrow : idx / w.active.width * w.active.width + idx % w.active.width = idx :=
    Nat.div_add_mod' _ _
  have hkept := hframed.preds (idx / w.active.width) (idx % w.active.width)
    (Nat.mod_lt _ hpos) (by
      rintro ⟨-, o, ho, -, hn⟩
      obtain rfl := List.mem_singleton.mp ho
      exact row_lt_of_wrap h32 hwrap hrow hn.symm)
  rw [hrow] at hkept
  have hsame : w.p.getD idx 0 = if pred then 1 else 0 := hkept.symm.trans (hread.trans hv.symm)
  by_cases hone : w.p.getD idx 0 = 1
  · have hpred : pred = false := decide_eq_false (not_not.mpr hone)
    rw [hpred, hone] at hsame
    cases hsame
  · have hpred : pred = true := decide_eq_true hone
    rw [hpred] at hsame
    exact hone hsame

/-- A first lane with some property. -/
theorem first_lane {P : Nat → Prop} {lane : Nat} (h : P lane) :
    ∃ l ≤ lane, P l ∧ ∀ j < l, ¬ P j := by
  classical
  exact ⟨Nat.find ⟨lane, h⟩, Nat.find_min' _ h, Nat.find_spec _, fun j hj => Nat.find_min _ hj⟩

/-- A `MOV` whose first lane that cannot be written is lost is not defined. -/
theorem mov_undefined (F : FloatOps) (mem : MemState) (hkind : out.kind = .reg)
    (hlane : LaneRuns guard w lane)
    (hloses : w.Loses out.type.isWide (regLaneIndex out.regNo lane w.active.width))
    (hbefore : ∀ l < lane, LaneRuns guard w l →
      regLaneIndex out.regNo l w.active.width < w.capacity out.type.isWide) :
    (regStep F (movImmUop out guard 0) mem guard w).1 = .error .undefined := by
  obtain ⟨pre, post, hsplit, hpre⟩ := loopLanes_at hlane.2
  have hlt : ∀ l ∈ pre, l < lane := by
    intro l hl
    rw [loopLanes_split hsplit, List.mem_filter, List.mem_range] at hl
    exact hl.1
  have hlive : ∀ l ∈ pre, laneMaskTest (laneMaskAnd w.active guard) l = true := fun l hl =>
    (hpre l (by simp [hl])).2
  obtain ⟨t, hran⟩ : ∃ t, forEach (writeLane out fun _ _ => .ok 0) pre w = (none, t) :=
    writeRun_ok (fun _ => some 0) (fun l hl => (laneMaskTest_lt (hlive l hl)).1)
      (fun l hl _ => hbefore l (hlt l hl) ⟨hlane.1, hlive l hl⟩) fun _ _ => rfl
  have hwrote := writeRun_wrote (fun l hl => (laneMaskTest_lt (hlive l hl)).1) hran
  have hturn : writeLane out (fun _ _ => .ok 0) lane t = .error .undefined := by
    have hwidth : lane < t.active.width := by
      rw [hwrote.active]
      exact (laneMaskTest_lt hlane.2).1
    refine (writeRegLane_undefined_iff hwidth).mpr ⟨hkind, ?_, ?_⟩
    · rw [hwrote.active, hwrote.capacity]
      exact hloses.1
    · rw [hwrote.active]
      exact hloses.2
  have hloop : (forEach (writeLane out fun _ _ => .ok 0) (pre ++ lane :: post) w).1
      = some .undefined := by
    rw [forEach_append_of_ok hran, forEach, hturn]
  rw [movImmUop_step F mem hlane.1, laneLoop_eq_forEach, stepOfLoop]
  rw [← hsplit, loopLanes] at hloop
  rw [hloop]

/-- A `SETP` whose first lane that is not there is not defined. -/
theorem setp_undefined (F : FloatOps) (mem : MemState) (hkind : out.kind = .pred)
    (hchecked : setpRowChecked out w = true) (hlane : LaneRuns guard w lane)
    (hmissing : ¬ (out.predId.toNat * w.active.width + lane) % 2 ^ 64 < w.p.length)
    (hbefore : ∀ l < lane, LaneRuns guard w l →
      (out.predId.toNat * w.active.width + l) % 2 ^ 64 < w.p.length) :
    (regStep F (setpImmUop out guard true) mem guard w).1 = .error .undefined := by
  let base := out.predId.toNat * w.active.width % 2 ^ 64
  obtain ⟨pre, post, hsplit, hpre⟩ := loopLanes_at hlane.2
  obtain ⟨t, hran⟩ : ∃ t, forEach (writePredLane base fun _ _ => some true) pre w = (none, t) := by
    refine predRun_ok base true fun l hl => ?_
    rw [Nat.mod_add_mod]
    have hlt := hl
    rw [loopLanes_split hsplit, List.mem_filter, List.mem_range] at hlt
    exact hbefore l hlt.1 ⟨hlane.1, hlt.2⟩
  obtain ⟨⟨p, rfl, hlength⟩, -, -⟩ := predRun_wrote hran
  have hturn : writePredLane base (fun _ _ => some true) lane { w with p := p }
      = .error .undefined := by
    refine if_neg ?_
    rw [Nat.mod_add_mod, hlength]
    exact hmissing
  have hloop : (forEach (writePredLane base fun _ _ => some true) (pre ++ lane :: post) w).1
      = some .undefined := by
    rw [forEach_append_of_ok hran, forEach, hturn]
  rw [setpImmUop_step F mem hlane.1 hkind hchecked, laneLoop_eq_forEach, stepOfLoop]
  rw [← hsplit, loopLanes] at hloop
  rw [hloop]

theorem reg_fits_of_framed (hkind : out.kind = .reg) (hlane : LaneRuns guard w lane)
    (hall : ∀ c, StepFramed [out] guard w (regStep .unused (movImmUop out guard c) {} guard w)) :
    (out.regNo * w.active.width + lane < 2 ^ 64
        ∧ ¬ w.Loses out.type.isWide (out.regNo * w.active.width + lane))
      ∨ ∃ l ≤ lane, LaneRuns guard w l
        ∧ w.Refuses out.type.isWide (regLaneIndex out.regNo l w.active.width) := by
  by_contra hnot
  rw [not_or] at hnot
  obtain ⟨hbad, hnever⟩ := hnot
  by_cases hroom : ∀ l ≤ lane, LaneRuns guard w l →
      regLaneIndex out.regNo l w.active.width < w.capacity out.type.isWide
  · -- every lane up to this one is written, so this one wraps
    have hwrap : 2 ^ 64 ≤ out.regNo * w.active.width + lane := by
      by_contra hlt
      have hindex := hroom lane le_rfl hlane
      rw [regLaneIndex, Nat.mod_eq_of_lt (not_le.mp hlt)] at hindex
      exact hbad ⟨not_le.mp hlt, fun hloses => absurd hloses.1 (not_le.mpr hindex)⟩
    obtain ⟨c, hbroken⟩ := reg_frame_broken .unused {} hkind hlane hwrap hroom
    exact hbroken (hall c).2
  · push Not at hroom
    obtain ⟨l, hl, hrun, hcap⟩ := hroom
    obtain ⟨first, hfirst, ⟨hfrun, hfcap⟩, hbefore⟩ := first_lane
      (P := fun l => LaneRuns guard w l
        ∧ w.capacity out.type.isWide ≤ regLaneIndex out.regNo l w.active.width) ⟨hrun, hcap⟩
    have hlast : regLaneIndex out.regNo first w.active.width + 1 = 2 ^ 64 := by
      by_contra hne
      exact hnever ⟨first, hfirst.trans hl, hfrun, hfcap, hne⟩
    refine (hall 0).1 (mov_undefined .unused {} hkind hfrun ⟨hfcap, hlast⟩ fun j hj hjrun => ?_)
    by_contra hge
    exact hbefore j hj ⟨hjrun, not_lt.mp hge⟩

theorem pred_fits_of_framed (hkind : out.kind = .pred) (hchecked : setpRowChecked out w = true)
    (hlane : LaneRuns guard w lane)
    (hall : ∀ pred,
      StepFramed [out] guard w (regStep .unused (setpImmUop out guard pred) {} guard w)) :
    out.predId.toNat * w.active.width + lane < 2 ^ 64
      ∧ out.predId.toNat * w.active.width + lane < w.p.length := by
  have hthere : ∀ l, LaneRuns guard w l →
      (out.predId.toNat * w.active.width + l) % 2 ^ 64 < w.p.length := by
    intro l hrun
    by_contra hmissing
    obtain ⟨first, -, ⟨hfrun, hfmissing⟩, hbefore⟩ := first_lane
      (P := fun l => LaneRuns guard w l
        ∧ ¬ (out.predId.toNat * w.active.width + l) % 2 ^ 64 < w.p.length) ⟨hrun, hmissing⟩
    refine (hall true).1 (setp_undefined .unused {} hkind hchecked hfrun hfmissing
      fun j hj hjrun => ?_)
    by_contra hge
    exact hbefore j hj ⟨hjrun, hge⟩
  have hlt : out.predId.toNat * w.active.width + lane < 2 ^ 64 := by
    by_contra hwrap
    obtain ⟨pred, hbroken⟩ := pred_frame_broken .unused {} hkind hchecked hlane (not_lt.mp hwrap)
      fun l _ => hthere l
    exact hbroken (hall pred).2
  have hindex := hthere lane hlane
  rw [Nat.mod_eq_of_lt hlt] at hindex
  exact ⟨hlt, hindex⟩

end Needed

/-! ### The law -/

/-- **Untouched lanes.** For a destination and a mask, all execution micro-ops and loads are defined
and leave every register and predicate but the destination at the lanes they run, whether they
succeed or not, exactly when the destination fits at each of these lanes. -/
theorem masked_lanes_untouched_iff (outs : List Operand) (guard : LaneMask) (w : WarpState) :
    (∀ (F : FloatOps) (mem : MemState) (uop : MicroOp),
        uop.kind = .exec ∨ uop.kind = .mem ∧ uop.op = .ld → uop.outputs = outs →
          uop.guard = guard → StepFramed outs guard w (regStep F uop mem uop.guard w))
      ↔ DestinationFits outs guard w := by
  constructor
  · intro hall out hout lane hlane
    subst hout
    constructor
    · intro hkind
      exact reg_fits_of_framed hkind hlane fun c => hall _ _ _ (.inl rfl) rfl rfl
    · intro hkind hchecked
      exact pred_fits_of_framed hkind hchecked hlane fun pred => hall _ _ _ (.inl rfl) rfl rfl
  · intro hfits F mem uop huop hout hguard
    subst hout hguard
    by_cases hdone : w.done = false
    · exact (regStep_writes F uop mem hdone (huop.imp_right And.right)).framed hdone hfits
    · rw [regStep_done F uop mem (Bool.of_not_eq_false hdone)]
      refine ⟨fun h => ?_, .refl _ _ _⟩
      cases h

/-- A register number whose row starts at `2 ^ 64`. -/
def wrappedReg : Operand := { kind := .reg, regId := 2 ^ 59 }

def wrappedWarp : WarpState where
  active := laneMaskAll 32
  rU32 := [3]

/-- `mov` to register `2 ^ 59` of a warp of 32 lanes writes register 0. -/
theorem wrapped_mov_writes_reg_zero :
    (ExecCore.step .unused (movImmUop wrappedReg (laneMaskAll 1) 7) wrappedWarp).1
        = .ok { progressed := true }
      ∧ ¬ Framed [wrappedReg] (laneMaskAll 1) wrappedWarp
        (regStep .unused (movImmUop wrappedReg (laneMaskAll 1) 7) {} (laneMaskAll 1)
          wrappedWarp).2 := by
  refine ⟨rfl, fun h => ?_⟩
  have hreg := h.regs false 0 0 (by decide) (by
    rintro ⟨-, o, ho, -, -, hn⟩
    obtain rfl := List.mem_singleton.mp ho
    revert hn
    decide)
  revert hreg
  decide

end ProtoGpu

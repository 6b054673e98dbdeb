import ProtoGpu.Lib.LocalLoop
import ProtoGpu.Proof.Issue
import ProtoGpu.Simt.LaneRun

/-!
# Micro-ops that work lane by lane

Where no register number wraps, a lane's share of the register files is the entries whose index is
the lane's modulo `warp_size`. The lane loops of the execution core, `SHFL` and `WARP_REDUCE_ADD`
apart, and of the loads are local to that share, so an instruction does in a warp what it does at
each lane alone.
-/

namespace ProtoGpu

open LocalLoop

/-! ### A lane's share -/

/-- Two warps with the same share of a lane, and the same of what all lanes read. -/
structure SameLane (warpSize lane : Nat) (w w' : WarpState) : Prop where
  lane_lt : lane < warpSize
  width : w.active.width = warpSize
  width' : w'.active.width = warpSize
  notDone : w.done = false
  notDone' : w'.done = false
  launch : w.launch = w'.launch
  ctaid : w.ctaid = w'.ctaid
  warpid : w.warpid = w'.warpid
  laneBase : w.laneBaseThreadLinear = w'.laneBaseThreadLinear
  roomU32 : max w.rU32.length maxSizeU32 = max w'.rU32.length maxSizeU32
  roomU64 : max w.rU64.length maxSizeU64 = max w'.rU64.length maxSizeU64
  pLength : w.p.length = w'.p.length
  regs : SameRegs warpSize lane w w'

/-- The entry of a lane in the row of an aligned number, whose start is reduced already. -/
theorem LaneAligned.base_add_mod {warpSize n lane : Nat} (h : LaneAligned warpSize n)
    (hlane : lane < warpSize) :
    (n * warpSize % 2 ^ 64 + lane) % 2 ^ 64 % warpSize = lane := by
  obtain ⟨hmod, hle⟩ := h
  have hsmall : (n * warpSize % 2 ^ 64 + lane) % 2 ^ 64 = n * warpSize % 2 ^ 64 + lane := by omega
  rw [hsmall, Nat.add_mod, hmod, Nat.zero_add, Nat.mod_mod, Nat.mod_eq_of_lt hlane]

theorem LaneAligned.regLaneIndex_mod {warpSize n lane : Nat} (h : LaneAligned warpSize n)
    (hlane : lane < warpSize) : regLaneIndex n lane warpSize % warpSize = lane := by
  rw [regLaneIndex, ← Nat.mod_add_mod]
  exact h.base_add_mod hlane

/-! ### Register files -/

section Files

variable {w maxSize idx : Nat} {file file' : List (BitVec w)} {v : BitVec w}

theorem growAndSet_ok_iff : (∃ file', growAndSet maxSize file idx v = .ok file') ↔
    idx < max file.length maxSize := by
  unfold growAndSet
  split
  · simp only [Except.ok.injEq, exists_eq', true_iff]
    omega
  · split
    · simp only [Except.ok.injEq, exists_eq', true_iff]
      omega
    · refine iff_of_false ?_ (by omega)
      rintro ⟨file', hfile⟩
      split at hfile
      · cases hfile
      · cases hfile

/-- Nothing is known behind a write that comes to the last `size_t`. -/
theorem growAndSet_undefined_iff : growAndSet maxSize file idx v = .error .undefined ↔
    max file.length maxSize ≤ idx ∧ idx + 1 = 2 ^ 64 := by
  unfold growAndSet
  split
  · refine iff_of_false (fun h => ?_) (by omega)
    cases h
  split
  · refine iff_of_false (fun h => ?_) (by omega)
    cases h
  split
  · exact iff_of_true rfl (by omega)
  · refine iff_of_false (fun h => ?_) (by omega)
    cases h

theorem length_resize (n : Nat) : (resize file n).length = n := by
  simp only [resize, List.length_append, List.length_take, List.length_replicate]
  omega

theorem getD_resize {n : Nat} (hle : file.length ≤ n) (i : Nat) :
    (resize file n).getD i 0 = file.getD i 0 := by
  rw [resize, List.take_of_length_le hle]
  simp only [List.getD_eq_getElem?_getD, List.getElem?_append, List.getElem?_replicate]
  split
  · rfl
  next hge =>
    rw [List.getElem?_eq_none (by omega)]
    split <;> rfl

theorem getD_set (hidx : idx < file.length) (i : Nat) :
    (file.set idx v).getD i 0 = if i = idx then v else file.getD i 0 := by
  simp only [List.getD_eq_getElem?_getD, List.getElem?_set]
  by_cases heq : idx = i
  · simp [heq, heq ▸ hidx]
  · simp [heq, Ne.symm heq]

/-- A write changes one entry, and not how far the file can grow. -/
theorem growAndSet_ok (h : growAndSet maxSize file idx v = .ok file') :
    (∀ i, file'.getD i 0 = if i = idx then v else file.getD i 0)
      ∧ max file'.length maxSize = max file.length maxSize := by
  unfold growAndSet at h
  split at h
  next hlt =>
    cases h
    exact ⟨getD_set hlt, by rw [List.length_set]⟩
  next hge =>
    split at h
    next hle =>
      cases h
      have hlt : idx < (resize file (idx + 1)).length := by rw [length_resize]; omega
      refine ⟨fun i => ?_, ?_⟩
      · rw [getD_set hlt, getD_resize (by omega)]
      · rw [List.length_set, length_resize]
        omega
    · split at h
      · cases h
      · cases h

theorem SameEntries.growAndSet {warpSize lane : Nat} {other other' : List (BitVec w)}
    (hsame : SameEntries warpSize lane file other)
    (h : growAndSet maxSize file idx v = .ok file')
    (h' : ProtoGpu.growAndSet maxSize other idx v = .ok other') :
    SameEntries warpSize lane file' other' := by
  intro i hi
  rw [(growAndSet_ok h).1, (growAndSet_ok h').1, hsame i hi]

theorem SameEntries.growAndSet_ne {warpSize lane : Nat} {other : List (BitVec w)}
    (hsame : SameEntries warpSize lane file other) (hidx : idx % warpSize ≠ lane)
    (h : ProtoGpu.growAndSet maxSize file idx v = .ok file') :
    SameEntries warpSize lane file' other := by
  intro i hi
  rw [(growAndSet_ok h).1, if_neg (by rintro rfl; exact hidx hi), hsame i hi]

end Files

/-! ### Reading -/

section Read

variable {warpSize lane : Nat} {w w' : WarpState} {o : Operand}

theorem readRegLane_congr (h : SameLane warpSize lane w w') (ho : LaneAligned warpSize o.regNo) :
    readRegLane o w lane = readRegLane o w' lane := by
  have hidx := ho.regLaneIndex_mod h.lane_lt
  unfold readRegLane
  simp only [h.width, h.width', h.regs.rU32 _ hidx, h.regs.rU64 _ hidx]

theorem readSpecialU32_congr (h : SameLane warpSize lane w w') (name : String) :
    readSpecialU32 name w lane = readSpecialU32 name w' lane := by
  simp only [readSpecialU32, h.launch, h.ctaid, h.warpid, h.laneBase]

theorem readOperandLane_congr (h : SameLane warpSize lane w w') (ho : o.Aligned warpSize) :
    readOperandLane o w lane = readOperandLane o w' lane := by
  unfold readOperandLane
  split
  · rfl
  next hkind => rw [readRegLane_congr h (ho.1 (.inl hkind))]
  · exact readSpecialU32_congr h _
  · rfl

theorem evalAddrLane_congr (h : SameLane warpSize lane w w') (ho : LaneAligned warpSize o.regNo) :
    evalAddrLane o w lane = evalAddrLane o w' lane := by
  unfold evalAddrLane
  by_cases hreg : o.regId ≥ 0
  · simp only [if_pos hreg]
    rw [readRegLane_congr (o := { kind := .reg, type := .u64, regId := o.regId }) h ho]
  · simp only [if_neg hreg]

theorem localEffectiveAddr_congr (h : SameLane warpSize lane w w') (addr : Addr) :
    localEffectiveAddr w lane addr = localEffectiveAddr w' lane addr := by
  simp only [localEffectiveAddr, threadLinearGlobal, h.launch, h.ctaid, h.laneBase]

end Read

/-! ### Writing -/

section Write

variable {warpSize : Nat}

/-- Only the registers of the two warps change. -/
theorem SameLane.update {lane : Nat} {w w' : WarpState} (h : SameLane warpSize lane w w')
    {a a' : List (BitVec 32)} {b b' : List (BitVec 64)} {p p' : List Byte}
    (ha : max a.length maxSizeU32 = max a'.length maxSizeU32)
    (hb : max b.length maxSizeU64 = max b'.length maxSizeU64) (hp : p.length = p'.length)
    (hregs : SameRegs warpSize lane { w with rU32 := a, rU64 := b, p := p }
      { w' with rU32 := a', rU64 := b', p := p' }) :
    SameLane warpSize lane { w with rU32 := a, rU64 := b, p := p }
      { w' with rU32 := a', rU64 := b', p := p' } :=
  { h with roomU32 := ha, roomU64 := hb, pLength := hp, regs := hregs }

/-- A write to a register goes to the bank of its type. -/
theorem writeRegLane_ok_iff {lane : Nat} {w t : WarpState} {o : Operand} {v : BitVec 64}
    (hwidth : w.active.width = warpSize) (hlane : lane < warpSize) :
    writeRegLane o w lane v = .ok t ↔
      if o.kind ≠ .reg then t = w
      else if o.type.isWide then
        ∃ file, growAndSet maxSizeU64 w.rU64 (regLaneIndex o.regNo lane warpSize) v = .ok file
          ∧ t = { w with rU64 := file }
      else
        ∃ file, growAndSet maxSizeU32 w.rU32 (regLaneIndex o.regNo lane warpSize) (v.setWidth 32)
            = .ok file
          ∧ t = { w with rU32 := file } := by
  unfold writeRegLane
  simp only [hwidth, if_neg (show ¬ warpSize = 0 by omega),
    if_neg (show ¬ lane ≥ warpSize by omega)]
  split
  · simp [eq_comm]
  · split
    · cases growAndSet maxSizeU64 w.rU64 (regLaneIndex o.regNo lane warpSize) v <;> simp [eq_comm]
    · cases growAndSet maxSizeU32 w.rU32 (regLaneIndex o.regNo lane warpSize) (v.setWidth 32) <;>
        simp [eq_comm]

theorem writeRegLane_same {lane : Nat} {w w' t' : WarpState} {o : Operand} {v : BitVec 64}
    (h : SameLane warpSize lane w w') (hwrite : writeRegLane o w' lane v = .ok t') :
    ∃ t, writeRegLane o w lane v = .ok t ∧ SameLane warpSize lane t t' := by
  rw [writeRegLane_ok_iff h.width' h.lane_lt] at hwrite
  simp only [writeRegLane_ok_iff h.width h.lane_lt]
  split at hwrite
  next hkind =>
    simp only [if_pos hkind]
    exact ⟨w, rfl, hwrite ▸ h⟩
  next hkind =>
    simp only [if_neg hkind]
    split at hwrite
    next hwide =>
      obtain ⟨file', hfile', rfl⟩ := hwrite
      obtain ⟨file, hfile⟩ := growAndSet_ok_iff.mpr
        (h.roomU64 ▸ growAndSet_ok_iff.mp ⟨file', hfile'⟩)
      simp only [if_pos hwide]
      refine ⟨_, ⟨file, hfile, rfl⟩, h.update h.roomU32 ?_ h.pLength
        ⟨h.regs.rU32, h.regs.rU64.growAndSet hfile hfile', h.regs.p⟩⟩
      rw [(growAndSet_ok hfile).2, (growAndSet_ok hfile').2, h.roomU64]
    next hwide =>
      obtain ⟨file', hfile', rfl⟩ := hwrite
      obtain ⟨file, hfile⟩ := growAndSet_ok_iff.mpr
        (h.roomU32 ▸ growAndSet_ok_iff.mp ⟨file', hfile'⟩)
      simp only [if_neg hwide]
      refine ⟨_, ⟨file, hfile, rfl⟩, h.update ?_ h.roomU64 h.pLength
        ⟨h.regs.rU32.growAndSet hfile hfile', h.regs.rU64, h.regs.p⟩⟩
      rw [(growAndSet_ok hfile).2, (growAndSet_ok hfile').2, h.roomU32]

theorem writeRegLane_frame {lane other : Nat} {w t u s : WarpState} {o : Operand} {v : BitVec 64}
    (ho : o.kind = .reg → LaneAligned warpSize o.regNo) (hu : SameLane warpSize lane w u)
    (hwrite : writeRegLane o w lane v = .ok s) (hne : other ≠ lane)
    (h : SameLane warpSize other w t) : SameLane warpSize other s t := by
  rw [writeRegLane_ok_iff hu.width hu.lane_lt] at hwrite
  split at hwrite
  · exact hwrite ▸ h
  next hkind =>
    have hidx : regLaneIndex o.regNo lane warpSize % warpSize ≠ other := by
      rw [(ho (not_not.mp hkind)).regLaneIndex_mod hu.lane_lt]
      exact hne.symm
    split at hwrite
    · obtain ⟨file, hfile, rfl⟩ := hwrite
      refine h.update h.roomU32 ?_ h.pLength
        ⟨h.regs.rU32, h.regs.rU64.growAndSet_ne hidx hfile, h.regs.p⟩
      rw [(growAndSet_ok hfile).2, h.roomU64]
    · obtain ⟨file, hfile, rfl⟩ := hwrite
      refine h.update ?_ h.roomU64 h.pLength
        ⟨h.regs.rU32.growAndSet_ne hidx hfile, h.regs.rU64, h.regs.p⟩
      rw [(growAndSet_ok hfile).2, h.roomU32]

theorem writeLane_local {out : Operand} (hout : out.Aligned warpSize)
    (value : WarpState → Nat → Except Fault (BitVec 64))
    (hvalue : ∀ {lane w w'}, SameLane warpSize lane w w' → value w lane = value w' lane) :
    Local (SameLane warpSize) (writeLane out value) where
  same := by
    intro lane w w' t' h hwrite
    unfold writeLane at hwrite ⊢
    rw [hvalue h]
    split at hwrite
    · cases hwrite
    · exact writeRegLane_same h hwrite
  frame := by
    intro lane other w t u s hu hwrite hne h
    unfold writeLane at hwrite
    split at hwrite
    · cases hwrite
    · exact writeRegLane_frame (fun hkind => hout.1 (.inl hkind)) hu hwrite hne h

theorem writePredLane_local {n : Nat} (hn : LaneAligned warpSize n)
    {value : WarpState → Nat → Option Bool}
    (hvalue : ∀ {lane w w'}, SameLane warpSize lane w w' → value w lane = value w' lane) :
    Local (SameLane warpSize) (writePredLane (n * warpSize % 2 ^ 64) value) where
  same := by
    intro lane w w' t' h hwrite
    unfold writePredLane at hwrite ⊢
    rw [hvalue h, h.pLength]
    split at hwrite
    · cases hwrite
    · split at hwrite
      next hlt =>
        cases hwrite
        refine ⟨_, if_pos hlt, h.update h.roomU32 h.roomU64 (by simp [h.pLength])
          ⟨h.regs.rU32, h.regs.rU64, fun i hi => ?_⟩⟩
        simp only
        rw [getD_set (h.pLength ▸ hlt), getD_set hlt, h.regs.p i hi]
      · cases hwrite
  frame := by
    intro lane other w t u s hu hwrite hne h
    unfold writePredLane at hwrite
    split at hwrite
    · cases hwrite
    · split at hwrite
      next hlt =>
        cases hwrite
        refine h.update h.roomU32 h.roomU64 (by simp [h.pLength])
          ⟨h.regs.rU32, h.regs.rU64, fun i hi => ?_⟩
        have hidx := hn.base_add_mod hu.lane_lt
        simp only
        rw [getD_set hlt, if_neg (by rintro rfl; exact hne (hi.symm.trans hidx)), h.regs.p i hi]
      · cases hwrite

end Write

/-! ### The form of a step -/

theorem laneLoopFrom_eq_forEach {σ : Type} (mask : LaneMask) (body : Nat → σ → Except Fault σ)
    (lanes : List Nat) (s : σ) :
    laneLoopFrom mask body lanes s = forEach body (lanes.filter (laneMaskTest mask)) s := by
  induction lanes generalizing s with
  | nil => rfl
  | cons lane lanes ih =>
      rw [laneLoopFrom, List.filter_cons]
      split
      · rw [forEach]
        cases body lane s with
        | error f => rfl
        | ok s' => exact ih s'
      · exact ih s

theorem laneLoop_eq_forEach {σ : Type} (mask : LaneMask) (body : Nat → σ → Except Fault σ) (s : σ) :
    laneLoop mask body s
      = forEach body ((List.range (min mask.width 32)).filter (laneMaskTest mask)) s :=
  laneLoopFrom_eq_forEach mask body _ s

/-- A step on registers is refused whatever the lanes, or is one local loop over the guarded lanes
of the warps of `warpSize` lanes and `pLength` predicate entries. -/
inductive LaneForm (warpSize pLength : Nat)
    (step : LaneMask → WarpState → Except Fault StepResult × WarpState) : Prop where
  | fault (h : ∀ guard w, w.done = false → w.active.width = warpSize → w.p.length = pLength →
      ∀ sr, (step guard w).1 ≠ .ok sr)
  | loop (body : Nat → WarpState → Except Fault WarpState)
      (hlocal : Local (SameLane warpSize) body)
      (h : ∀ guard w, w.done = false → w.active.width = warpSize → w.p.length = pLength →
        step guard w = stepOfLoop (laneLoop (laneMaskAnd w.active guard) body w))

section Exec

variable {warpSize pLength : Nat}

theorem execLanes_laneForm {unknown : Fault} {out : Operand}
    {value : WarpState → Nat → Option (BitVec 64)}
    {step : LaneMask → WarpState → Except Fault StepResult × WarpState}
    (hstep : ∀ guard w, w.done = false →
      step guard w = execLanes (laneMaskAnd w.active guard) unknown out value w)
    (hout : out.Aligned warpSize)
    (hvalue : ∀ {lane w w'}, SameLane warpSize lane w w' → value w lane = value w' lane) :
    LaneForm warpSize pLength step :=
  .loop _ (writeLane_local hout _ fun h => by rw [hvalue h]) fun guard w hdone _ _ =>
    hstep guard w hdone

variable {a b c : Operand} {lane : Nat} {w w' : WarpState}

theorem unaryValue_congr (f : BitVec 64 → BitVec 64) (ha : a.Aligned warpSize)
    (h : SameLane warpSize lane w w') : unaryValue f a w lane = unaryValue f a w' lane := by
  rw [unaryValue, unaryValue, readOperandLane_congr h ha]

theorem binaryValue_congr (f : BitVec 64 → BitVec 64 → BitVec 64) (ha : a.Aligned warpSize)
    (hb : b.Aligned warpSize) (h : SameLane warpSize lane w w') :
    binaryValue f a b w lane = binaryValue f a b w' lane := by
  rw [binaryValue, binaryValue, readOperandLane_congr h ha, readOperandLane_congr h hb]

theorem ternaryValue_congr (f : BitVec 64 → BitVec 64 → BitVec 64 → BitVec 64)
    (ha : a.Aligned warpSize) (hb : b.Aligned warpSize) (hc : c.Aligned warpSize)
    (h : SameLane warpSize lane w w') :
    ternaryValue f a b c w lane = ternaryValue f a b c w' lane := by
  rw [ternaryValue, ternaryValue, readOperandLane_congr h ha, readOperandLane_congr h hb,
    readOperandLane_congr h hc]

theorem setpStep_laneForm (uop : MicroOp) {out : Operand}
    {step : LaneMask → WarpState → Except Fault StepResult × WarpState}
    (hstep : ∀ guard w, w.done = false →
      step guard w = setpStep { uop with guard := guard } (laneMaskAnd w.active guard) out a b w)
    (hout : out.Aligned warpSize) (ha : a.Aligned warpSize) (hb : b.Aligned warpSize) :
    LaneForm warpSize pLength step := by
  by_cases hkind : out.kind ≠ .pred ∨ out.predId < 0
  · refine .fault fun guard w hdone _ _ => ?_
    simp [hstep guard w hdone, setpStep, if_pos hkind]
  by_cases hflags : setpOpCount uop.attrs.flags > 1
  · refine .fault fun guard w hdone _ _ => ?_
    simp [hstep guard w hdone, setpStep, if_neg hkind, if_pos hflags]
  by_cases hsize : warpSize = 0 ∨ warpSize > 32
  · refine .fault fun guard w hdone hwidth _ => ?_
    simp [hstep guard w hdone, setpStep, if_neg hkind, if_neg hflags, hwidth, if_pos hsize]
  by_cases hrange : (out.predId.toNat * warpSize % 2 ^ 64 + warpSize) % 2 ^ 64 > pLength
  · refine .fault fun guard w hdone hwidth hp sr => ?_
    rw [hstep guard w hdone]
    simp only [setpStep, if_neg hkind, if_neg hflags, hwidth, if_neg hsize, hp, if_pos hrange]
    intro heq
    cases heq
  have hlocal : Local (SameLane warpSize) (writePredLane (out.predId.toNat * warpSize % 2 ^ 64)
      (setpValue (setpCmp uop.attrs.flags)
        (uop.attrs.type = .s32 ∨ uop.attrs.type = .s64) a b)) := by
    refine writePredLane_local (hout.2 (not_not.mp (not_or.mp hkind).1)) fun h => ?_
    rw [setpValue, setpValue, readOperandLane_congr h ha, readOperandLane_congr h hb]
  refine .loop _ hlocal fun guard w hdone hwidth hp => ?_
  rw [hstep guard w hdone]
  simp only [setpStep, if_neg hkind, if_neg hflags, hwidth, if_neg hsize, hp, if_neg hrange]

theorem execStep_laneForm (F : FloatOps) {uop : MicroOp}
    (hin : ∀ o ∈ uop.inputs, o.Aligned warpSize) (hout : ∀ o ∈ uop.outputs, o.Aligned warpSize)
    (hshfl : uop.op ≠ .shfl) (hreduce : uop.op ≠ .warpReduceAdd) :
    LaneForm warpSize pLength fun guard w => ExecCore.step F { uop with guard := guard } w := by
  obtain ⟨kind, op, inputs, outputs, attrs, g⟩ := uop
  cases op with
  | mov =>
      match outputs, inputs with
      | [out], [a] =>
          exact execLanes_laneForm (fun _ _ hdone => by
            simp only [ExecCore.step, hdone, Bool.false_eq_true, if_false]; rfl)
            (hout out (by simp)) (unaryValue_congr id (hin a (by simp)))
      | [], _ | _ :: _ :: _, _ | [_], [] | [_], _ :: _ :: _ =>
          exact .fault fun _ _ hdone _ _ => by simp [ExecCore.step, hdone]
  | cvt =>
      match outputs, inputs with
      | [out], [a] =>
          by_cases htype : out.type ≠ .f32 ∨ a.type ≠ .u32
          · exact .fault fun _ _ hdone _ _ => by simp [ExecCore.step, hdone, if_pos htype]
          · exact execLanes_laneForm
              (fun _ _ hdone => by
                simp only [ExecCore.step, hdone, Bool.false_eq_true, if_false]
                rw [if_neg htype])
              (hout out (by simp)) (unaryValue_congr _ (hin a (by simp)))
      | [], _ | _ :: _ :: _, _ | [_], [] | [_], _ :: _ :: _ =>
          exact .fault fun _ _ hdone _ _ => by simp [ExecCore.step, hdone]
  | add =>
      match outputs, inputs with
      | [out], [a, b] =>
          by_cases htype : attrs.type = .f32
          · exact execLanes_laneForm
              (fun _ _ hdone => by
                simp only [ExecCore.step, hdone, Bool.false_eq_true, if_false]
                rw [if_pos htype])
              (hout out (by simp)) (binaryValue_congr _ (hin a (by simp)) (hin b (by simp)))
          · exact execLanes_laneForm
              (fun _ _ hdone => by
                simp only [ExecCore.step, hdone, Bool.false_eq_true, if_false]
                rw [if_neg htype])
              (hout out (by simp)) (binaryValue_congr _ (hin a (by simp)) (hin b (by simp)))
      | [], _ | _ :: _ :: _, _ | [_], [] | [_], [_] | [_], _ :: _ :: _ :: _ =>
          exact .fault fun _ _ hdone _ _ => by simp [ExecCore.step, hdone]
  | mul =>
      match outputs, inputs with
      | [out], [a, b] =>
          by_cases htype : attrs.type = .f32
          · exact execLanes_laneForm
              (fun _ _ hdone => by
                simp only [ExecCore.step, hdone, Bool.false_eq_true, if_false]
                rw [if_pos htype])
              (hout out (by simp)) (binaryValue_congr _ (hin a (by simp)) (hin b (by simp)))
          · exact execLanes_laneForm
              (fun _ _ hdone => by
                simp only [ExecCore.step, hdone, Bool.false_eq_true, if_false]
                rw [if_neg htype])
              (hout out (by simp))
              (binaryValue_congr (mulInt (attrs.type = .s32 ∨ attrs.type = .s64) out.type.isWide)
                (hin a (by simp)) (hin b (by simp)))
      | [], _ | _ :: _ :: _, _ | [_], [] | [_], [_] | [_], _ :: _ :: _ :: _ =>
          exact .fault fun _ _ hdone _ _ => by simp [ExecCore.step, hdone]
  | shl =>
      match outputs, inputs with
      | [out], [a, b] =>
          exact execLanes_laneForm (fun _ _ hdone => by
            simp only [ExecCore.step, hdone, Bool.false_eq_true, if_false]; rfl)
            (hout out (by simp)) (binaryValue_congr _ (hin a (by simp)) (hin b (by simp)))
      | [], _ | _ :: _ :: _, _ | [_], [] | [_], [_] | [_], _ :: _ :: _ :: _ =>
          exact .fault fun _ _ hdone _ _ => by simp [ExecCore.step, hdone]
  | shfl => exact absurd rfl hshfl
  | fma =>
      match outputs, inputs with
      | [out], [a, b, c] =>
          by_cases htype : attrs.type ≠ .f32
          · exact .fault fun _ _ hdone _ _ => by simp [ExecCore.step, hdone, if_pos htype]
          · exact execLanes_laneForm
              (fun _ _ hdone => by
                simp only [ExecCore.step, hdone, Bool.false_eq_true, if_false]
                rw [if_neg htype])
              (hout out (by simp))
              (ternaryValue_congr _ (hin a (by simp)) (hin b (by simp)) (hin c (by simp)))
      | [], _ | _ :: _ :: _, _ | [_], [] | [_], [_] | [_], [_, _] | [_], _ :: _ :: _ :: _ :: _ =>
          exact .fault fun _ _ hdone _ _ => by simp [ExecCore.step, hdone]
  | warpReduceAdd => exact absurd rfl hreduce
  | setp =>
      match outputs, inputs with
      | [out], [a, b] =>
          exact setpStep_laneForm ⟨kind, .setp, [a, b], [out], attrs, g⟩
            (fun _ _ hdone => by simp only [ExecCore.step, hdone, Bool.false_eq_true, if_false])
            (hout out (by simp)) (hin a (by simp)) (hin b (by simp))
      | [], _ | _ :: _ :: _, _ | [_], [] | [_], [_] | [_], _ :: _ :: _ :: _ =>
          exact .fault fun _ _ hdone _ _ => by simp [ExecCore.step, hdone]
  | _ => exact .fault fun _ _ hdone _ _ => by simp [ExecCore.step, hdone]

/-! ### Loads -/

theorem memStep_ld_mem (uop : MicroOp) (hop : uop.op = .ld) (w : WarpState) (mem : MemState) :
    (MemUnit.step uop w mem).2.2 = mem := by
  unfold MemUnit.step
  rw [hop]
  dsimp only
  repeat' split
  all_goals rfl

/-- A load is a loop of register writes. -/
theorem ldStep_laneForm {uop : MicroOp} {mem : MemState}
    (hin : ∀ o ∈ uop.inputs, o.Aligned warpSize) (hout : ∀ o ∈ uop.outputs, o.Aligned warpSize)
    (hop : uop.op = .ld) :
    LaneForm warpSize pLength fun guard w =>
      ((MemUnit.step { uop with guard := guard } w mem).1,
        (MemUnit.step { uop with guard := guard } w mem).2.1) := by
  obtain ⟨kind, op, inputs, outputs, attrs, g⟩ := uop
  subst hop
  match outputs, inputs with
  | [], _ | _ :: _ :: _, _ | [_], [] | [_], _ :: _ :: _ =>
      exact .fault fun _ _ hdone _ _ => by simp [MemUnit.step, hdone]
  | [out], [src] =>
      have hwrite := writeLane_local (hout out (by simp))
      have haddr : ∀ {lane w w'}, src.kind = .addr → SameLane warpSize lane w w' →
          evalAddrLane src w lane = evalAddrLane src w' lane :=
        fun hkind h => evalAddrLane_congr h ((hin src (by simp)).1 (.inr hkind))
      cases hspace : attrs.space with
      | param =>
          by_cases hkind : src.kind = .symbol
          · cases hread : mem.mgr.readParamSymbol src.symbol
                (BitVec.ofNat 64 (typeSize attrs.type)) with
            | none =>
                exact .fault fun _ _ hdone _ _ => by
                  simp [MemUnit.step, hdone, ldStep, hspace, hkind, hread]
            | some bytes =>
                refine .loop _ (hwrite (fun _ _ => .ok (unpackLe bytes)) fun _ => rfl)
                  fun _ _ hdone _ _ => ?_
                simp only [MemUnit.step, hdone, Bool.false_eq_true, if_false, ldStep, hspace, hkind,
                  ne_eq, not_true_eq_false, hread]
          · exact .fault fun _ _ hdone _ _ => by simp [MemUnit.step, hdone, ldStep, hspace, hkind]
      | global =>
          by_cases hkind : src.kind = .addr
          · refine .loop _ (hwrite (ldGlobalValue src (typeSize attrs.type) mem) fun h => ?_)
              fun _ _ hdone _ _ => ?_
            · rw [ldGlobalValue, ldGlobalValue, haddr hkind h]
            · simp only [MemUnit.step, hdone, Bool.false_eq_true, if_false, ldStep, hspace, hkind,
                ne_eq, not_true_eq_false]
          · exact .fault fun _ _ hdone _ _ => by simp [MemUnit.step, hdone, ldStep, hspace, hkind]
      | localMem =>
          by_cases hkind : src.kind = .addr
          · refine .loop _ (hwrite (ldLocalValue src (typeSize attrs.type) mem) fun h => ?_)
              fun _ _ hdone _ _ => ?_
            · rw [ldLocalValue, ldLocalValue, haddr hkind h, localEffectiveAddr_congr h]
            · simp only [MemUnit.step, hdone, Bool.false_eq_true, if_false, ldStep, hspace, hkind,
                ne_eq, not_true_eq_false]
          · exact .fault fun _ _ hdone _ _ => by simp [MemUnit.step, hdone, ldStep, hspace, hkind]
      | _ => exact .fault fun _ _ hdone _ _ => by simp [MemUnit.step, hdone, ldStep, hspace]

end Exec

/-! ### One micro-op, lane by lane -/

theorem OnlyRegs.frame {w w' : WarpState} (h : OnlyRegs w w') :
    w'.pc = w.pc ∧ w'.done = w.done ∧ w'.active = w.active ∧ w'.exited = w.exited
      ∧ w'.simtStack = w.simtStack := by
  obtain ⟨_, _, _, rfl⟩ := h
  exact ⟨rfl, rfl, rfl, rfl, rfl⟩

theorem OnlyRegs.active {w w' : WarpState} (h : OnlyRegs w w') : w'.active = w.active :=
  h.frame.2.2.1

/-- What a micro-op that works lane by lane does to the warp. -/
def regStep (F : FloatOps) (u : MicroOp) (mem : MemState) (guard : LaneMask) (w : WarpState) :
    Except Fault StepResult × WarpState :=
  if u.kind = .exec then ExecCore.step F { u with guard := guard } w
  else
    ((MemUnit.step { u with guard := guard } w mem).1,
      (MemUnit.step { u with guard := guard } w mem).2.1)

theorem regStep_laneForm {warpSize pLength : Nat} (F : FloatOps) {u : MicroOp} {mem : MemState}
    (hu : u.LaneWise) (hin : ∀ o ∈ u.inputs, o.Aligned warpSize)
    (hout : ∀ o ∈ u.outputs, o.Aligned warpSize) :
    LaneForm warpSize pLength (regStep F u mem) := by
  unfold regStep
  rcases hu with ⟨hkind, hshfl, hreduce⟩ | ⟨hkind, hop⟩
  · simp only [if_pos hkind]
    exact execStep_laneForm F hin hout hshfl hreduce
  · simp only [hkind, reduceCtorEq, if_false]
    exact ldStep_laneForm hin hout hop

theorem regStep_onlyRegs (F : FloatOps) (u : MicroOp) (mem : MemState) (guard : LaneMask)
    (w : WarpState) : OnlyRegs w (regStep F u mem guard w).2 := by
  unfold regStep
  split
  · exact execStep_onlyRegs F _ w
  · exact memStep_onlyRegs _ w mem

/-- Such a micro-op fails or changes the warp's registers, and nothing else of the loop's state. -/
theorem uopStep_regStep (ctx : WarpContext) (inst : InstRecord) {u : MicroOp} (hu : u.LaneWise)
    (guard : LaneMask) (s : IssueState) :
    ((uopStep ctx inst { u with guard := guard } s).1 = none ↔
        ∃ sr, (regStep ctx.floatOps u s.mem guard s.warp).1 = .ok sr)
      ∧ (uopStep ctx inst { u with guard := guard } s).2
        = { s with warp := (regStep ctx.floatOps u s.mem guard s.warp).2 } := by
  obtain ⟨kind, op, inputs, outputs, attrs, g⟩ := u
  unfold uopStep regStep
  rcases hu with ⟨hkind, -⟩ | ⟨hkind, hop⟩
  · cases hkind
    dsimp only
    rw [if_pos rfl]
    cases ExecCore.step ctx.floatOps ⟨.exec, op, inputs, outputs, attrs, guard⟩ s.warp with
    | mk r w => cases r <;> simp
  · cases hkind
    dsimp only
    rw [if_neg (by simp)]
    have hmem := memStep_ld_mem ⟨.mem, op, inputs, outputs, attrs, guard⟩ hop s.warp s.mem
    revert hmem
    cases MemUnit.step ⟨.mem, op, inputs, outputs, attrs, guard⟩ s.warp s.mem with
    | mk r wm =>
        intro hmem
        cases r <;> simp [← hmem]

/-- The states of the micro-op loop of a warp and of each of its lanes alone. -/
structure LanesAlone (warpSize : Nat) (s : IssueState) (own : Nat → IssueState) : Prop where
  fits : s.warp.active.Fits warpSize
  same : ∀ lane, s.warp.active.has lane = true → SameLane warpSize lane s.warp (own lane).warp
  alone : ∀ lane, s.warp.active.has lane = true →
    (own lane).warp.active = laneOnly warpSize lane
  mem : ∀ lane, s.warp.active.has lane = true → (own lane).mem = s.mem

theorem has_laneOnly {warpSize lane : Nat} (hlane : lane < 32) (lane' : Nat) :
    (laneOnly warpSize lane).has lane' = decide (lane' = lane) := by
  have h := has_setLane { width := warpSize, bitsLo := 0#32 } hlane lane'
  rw [show LaneMask.has { width := warpSize, bitsLo := 0#32 } lane' = false by simp [LaneMask.has],
    Bool.false_or] at h
  rw [← h]
  simp [laneOnly, LaneMask.has]

theorem mem_loopLanes {warpSize : Nat} (hws : warpSize ≤ 32) {mask : LaneMask}
    (hfits : mask.Fits warpSize) (lane : Nat) :
    lane ∈ (List.range (min mask.width 32)).filter (laneMaskTest mask) ↔ mask.has lane = true := by
  rw [List.mem_filter, List.mem_range, laneMaskTest_eq, Bool.and_eq_true, decide_eq_true_eq,
    hfits.width]
  constructor
  · exact fun h => h.2.2
  · intro h
    have := hfits.lt lane h
    exact ⟨by omega, this, h⟩

theorem nodup_loopLanes (mask : LaneMask) :
    ((List.range (min mask.width 32)).filter (laneMaskTest mask)).Nodup :=
  List.nodup_range.filter _

/-- The loop of one lane is the body at that lane, or nothing. -/
theorem laneLoop_alone {warpSize lane : Nat} (hws : warpSize ≤ 32) (hlane : lane < warpSize)
    {guard : LaneMask} {body : Nat → WarpState → Except Fault WarpState} {w w' : WarpState}
    (h : laneLoop (laneMaskAnd (laneOnly warpSize lane) guard) body w = (none, w')) :
    if guard.has lane = true then body lane w = .ok w' else w' = w := by
  have hhas : ∀ i, (laneMaskAnd (laneOnly warpSize lane) guard).has i = true ↔
      i = lane ∧ guard.has lane = true := by
    intro i
    rw [has_laneMaskAnd, has_laneOnly (by omega), Bool.and_eq_true, decide_eq_true_eq]
    constructor
    · rintro ⟨rfl, hguard⟩
      exact ⟨rfl, hguard⟩
    · rintro ⟨rfl, hguard⟩
      exact ⟨rfl, hguard⟩
  have hfits : (laneMaskAnd (laneOnly warpSize lane) guard).Fits warpSize :=
    ⟨rfl, fun i hi => by rw [((hhas i).mp hi).1]; exact hlane⟩
  rw [laneLoop_eq_forEach] at h
  have hmem := mem_loopLanes hws hfits
  split
  next hguard =>
    have hlist := List.perm_singleton.mp
      ((List.perm_ext_iff_of_nodup (nodup_loopLanes _) (List.nodup_singleton lane)).mpr
        fun i => by rw [hmem, hhas, List.mem_singleton]; exact and_iff_left hguard)
    rw [hlist] at h
    exact forEach_singleton_ok h
  next hguard =>
    have hlist := List.eq_nil_iff_forall_not_mem.mpr
      fun i hi => hguard ((hhas i).mp ((hmem i).mp hi)).2
    rw [hlist] at h
    cases h
    rfl

section Alone

variable {ctx : WarpContext} {inst : InstRecord} {warpSize : Nat} {guard : LaneMask}
  {ownGuard : Nat → LaneMask} {s : IssueState} {own own' : Nat → IssueState}

/-- **A micro-op, lane by lane.** Where it succeeds at each active lane alone it succeeds in the
warp, leaves at each active lane what it leaves there alone, and the other lanes as they were. -/
theorem uopStep_lanes (hws : warpSize ≤ 32) {u : MicroOp} (hu : u.LaneWise)
    (hin : ∀ o ∈ u.inputs, o.Aligned warpSize) (hout : ∀ o ∈ u.outputs, o.Aligned warpSize)
    (hlanes : LanesAlone warpSize s own) (hlive : ∃ lane, s.warp.active.has lane = true)
    (hguard : ∀ lane, s.warp.active.has lane = true → (ownGuard lane).has lane = guard.has lane)
    (hown : ∀ lane, s.warp.active.has lane = true →
      uopStep ctx inst { u with guard := ownGuard lane } (own lane) = (none, own' lane)) :
    ∃ w', uopStep ctx inst { u with guard := guard } s = (none, { s with warp := w' })
      ∧ OnlyRegs s.warp w' ∧ LanesAlone warpSize { s with warp := w' } own'
      ∧ ∀ lane t, s.warp.active.has lane = false → SameLane warpSize lane s.warp t →
          SameLane warpSize lane w' t := by
  have hform : LaneForm warpSize s.warp.p.length (regStep ctx.floatOps u s.mem) :=
    regStep_laneForm ctx.floatOps hu hin hout
  have hregs : ∀ lane, s.warp.active.has lane = true →
      (∃ sr, (regStep ctx.floatOps u s.mem (ownGuard lane) (own lane).warp).1 = .ok sr)
        ∧ own' lane = { own lane with
            warp := (regStep ctx.floatOps u s.mem (ownGuard lane) (own lane).warp).2
            mem := s.mem } := by
    intro lane hlane
    obtain ⟨hok, hsnd⟩ := uopStep_regStep ctx inst hu (ownGuard lane) (own lane)
    rw [hown lane hlane, hlanes.mem lane hlane] at hok hsnd
    exact ⟨hok.mp rfl, hsnd⟩
  cases hform with
  | fault hfault =>
      exfalso
      obtain ⟨lane, hlane⟩ := hlive
      obtain ⟨⟨sr, hsr⟩, -⟩ := hregs lane hlane
      have hsame := hlanes.same lane hlane
      exact hfault _ _ hsame.notDone' hsame.width' hsame.pLength.symm sr hsr
  | loop body hlocal hloop =>
      obtain ⟨first, hfirst⟩ := hlive
      have hs := hlanes.same first hfirst
      -- what the body does at each active lane alone
      have halone : ∀ lane, s.warp.active.has lane = true →
          if guard.has lane = true then body lane (own lane).warp = .ok (own' lane).warp
          else (own' lane).warp = (own lane).warp := by
        intro lane hlane
        obtain ⟨hok, heq⟩ := hregs lane hlane
        have hsame := hlanes.same lane hlane
        rw [hloop _ _ hsame.notDone' hsame.width' hsame.pLength.symm, hlanes.alone lane hlane]
          at hok heq
        rw [← hguard lane hlane]
        refine laneLoop_alone hws hsame.lane_lt (Prod.ext (stepOfLoop_ok_iff.mp hok) ?_)
        rw [heq, stepOfLoop_snd]
      have hmask : (laneMaskAnd s.warp.active guard).Fits warpSize := hlanes.fits.and
      have hmem := mem_loopLanes hws hmask
      have hhas : ∀ lane, (laneMaskAnd s.warp.active guard).has lane = true ↔
          s.warp.active.has lane = true ∧ guard.has lane = true := by
        intro lane
        rw [has_laneMaskAnd, Bool.and_eq_true]
      obtain ⟨w', hw', hdone, hrest⟩ := hlocal.forEach_ok (nodup_loopLanes _)
        (fun lane hlane => hlanes.same lane ((hhas lane).mp ((hmem lane).mp hlane)).1)
        (fun lane hlane => by
          obtain ⟨hactive, hlive⟩ := (hhas lane).mp ((hmem lane).mp hlane)
          have h := halone lane hactive
          rwa [if_pos hlive] at h)
      rw [← laneLoop_eq_forEach] at hw'
      obtain ⟨hok, hsnd⟩ := uopStep_regStep ctx inst hu guard s
      have hstep : regStep ctx.floatOps u s.mem guard s.warp
          = stepOfLoop (laneLoop (laneMaskAnd s.warp.active guard) body s.warp) :=
        hloop _ _ hs.notDone hs.width rfl
      rw [hstep, stepOfLoop_ok_iff, hw'] at hok
      rw [hstep, stepOfLoop_snd, hw'] at hsnd
      have honly : OnlyRegs s.warp w' := by
        have h := regStep_onlyRegs ctx.floatOps u s.mem guard s.warp
        rwa [hstep, stepOfLoop_snd, hw'] at h
      have hactive := honly.active
      refine ⟨w', Prod.ext (hok.mpr rfl) hsnd, honly, ⟨?_, ?_, ?_, ?_⟩,
        fun lane t hinactive hsame => ?_⟩
      · exact hactive ▸ hlanes.fits
      · intro lane hlane
        rw [hactive] at hlane
        have h := halone lane hlane
        split at h
        next hlive => exact hdone lane ((hmem lane).mpr ((hhas lane).mpr ⟨hlane, hlive⟩))
        next hdead =>
          rw [h]
          refine hrest lane _ (fun hin => hdead ?_) (hlanes.same lane hlane)
          exact ((hhas lane).mp ((hmem lane).mp hin)).2
      · intro lane hlane
        rw [hactive] at hlane
        rw [(hregs lane hlane).2, (regStep_onlyRegs _ _ _ _ _).active, hlanes.alone lane hlane]
      · intro lane hlane
        rw [hactive] at hlane
        rw [(hregs lane hlane).2]
      · refine hrest lane t (fun hlane => ?_) hsame
        rw [hmem, hhas, hinactive] at hlane
        cases hlane.1

/-- The micro-ops of an instruction, lane by lane. -/
theorem uopLoop_lanes (hws : warpSize ≤ 32) {uops : List MicroOp} (hu : ∀ u ∈ uops, u.LaneWise)
    (hops : ∀ u ∈ uops, (∀ o ∈ u.inputs, o.Aligned warpSize) ∧ ∀ o ∈ u.outputs, o.Aligned warpSize)
    (hlanes : LanesAlone warpSize s own) (hlive : ∃ lane, s.warp.active.has lane = true)
    (hguard : ∀ lane, s.warp.active.has lane = true → (ownGuard lane).has lane = guard.has lane)
    (hown : ∀ lane, s.warp.active.has lane = true →
      uopLoop ctx inst (uops.map fun u => { u with guard := ownGuard lane }) (own lane)
        = (none, own' lane)) :
    ∃ w', uopLoop ctx inst (uops.map fun u => { u with guard := guard }) s
        = (none, { s with warp := w' })
      ∧ OnlyRegs s.warp w' ∧ LanesAlone warpSize { s with warp := w' } own'
      ∧ ∀ lane t, s.warp.active.has lane = false → SameLane warpSize lane s.warp t →
          SameLane warpSize lane w' t := by
  induction uops generalizing s own with
  | nil =>
      have heq : ∀ lane, s.warp.active.has lane = true → own' lane = own lane := by
        intro lane hlane
        exact (congrArg Prod.snd (hown lane hlane)).symm
      refine ⟨s.warp, rfl, .refl _, ⟨hlanes.fits, ?_, ?_, ?_⟩, fun _ _ _ => id⟩
      · intro lane hlane
        rw [heq lane hlane]
        exact hlanes.same lane hlane
      · intro lane hlane
        rw [heq lane hlane]
        exact hlanes.alone lane hlane
      · intro lane hlane
        rw [heq lane hlane]
        exact hlanes.mem lane hlane
  | cons u uops ih =>
      let next := fun lane => (uopStep ctx inst { u with guard := ownGuard lane } (own lane)).2
      have hsplit : ∀ lane, s.warp.active.has lane = true →
          uopStep ctx inst { u with guard := ownGuard lane } (own lane) = (none, next lane)
            ∧ uopLoop ctx inst (uops.map fun u => { u with guard := ownGuard lane }) (next lane)
              = (none, own' lane) := by
        intro lane hlane
        have h := hown lane hlane
        rw [List.map_cons, uopLoop] at h
        split at h
        · cases h
        next s₁ heq =>
          have hnext : next lane = s₁ := by simp only [next, heq]
          rw [hnext]
          exact ⟨heq, h⟩
      obtain ⟨w₁, hstep, honly, hlanes₁, hrest⟩ := uopStep_lanes hws (hu u (by simp))
        (hops u (by simp)).1 (hops u (by simp)).2 hlanes hlive hguard
        fun lane hlane => (hsplit lane hlane).1
      have hactive : w₁.active = s.warp.active := honly.active
      obtain ⟨w', hloop, honly', hlanes', hrest'⟩ := ih (fun v hv => hu v (by simp [hv]))
        (fun v hv => hops v (by simp [hv])) hlanes₁ (by simpa only [hactive] using hlive)
        (by simpa only [hactive] using hguard)
        (fun lane hlane => (hsplit lane (by simpa only [hactive] using hlane)).2)
      refine ⟨w', ?_, honly.trans honly', hlanes', fun lane t hlane hsame => ?_⟩
      · rw [List.map_cons, uopLoop, hstep]
        exact hloop
      · refine hrest' lane t ?_ (hrest lane t hlane hsame)
        rw [hactive]
        exact hlane

end Alone

/-- A loop of such micro-ops changes the warp's registers only. -/
theorem uopLoop_laneWise {ctx : WarpContext} {inst : InstRecord} {uops : List MicroOp}
    (hu : ∀ u ∈ uops, u.LaneWise) {s s' : IssueState}
    (h : uopLoop ctx inst uops s = (none, s')) :
    OnlyRegs s.warp s'.warp ∧ s' = { s with warp := s'.warp } := by
  induction uops generalizing s with
  | nil =>
      cases h
      exact ⟨.refl _, rfl⟩
  | cons u uops ih =>
      have hsnd := (uopStep_regStep ctx inst (hu u (by simp)) u.guard s).2
      have honly := regStep_onlyRegs ctx.floatOps u s.mem u.guard s.warp
      rw [uopLoop] at h
      split at h
      · cases h
      next s₁ heq =>
        rw [heq] at hsnd
        simp only at hsnd
        obtain ⟨honly', heq'⟩ := ih (fun v hv => hu v (by simp [hv])) h
        rw [hsnd] at honly' heq'
        exact ⟨honly.trans honly', heq'⟩

end ProtoGpu

import ProtoGpu.Proof.LaneWrites

/-!
# Whether a micro-op is simultaneous

The lanes of an execution micro-op take turns, and a turn reads the registers earlier turns wrote. A
micro-op is simultaneous when every lane's result is nonetheless the one the state before the
micro-op gives it. `SETP` writes predicates and `WARP_REDUCE_ADD` has its sum before the first
write, so both always are; the others are exactly when no lane's value changes by lower lanes
already holding theirs. Where no row wraps this leaves one case, a `shfl.idx` in place.
-/

namespace ProtoGpu

open LocalLoop CellLoop

/-! ### What a lane computes -/

/-- The word a micro-op computes for a lane in a state; a comparison's outcome is `1` or `0`. -/
def execValue (F : FloatOps) (uop : MicroOp) (mask : LaneMask) (w : WarpState) (lane : Nat) :
    Option (BitVec 64) :=
  match uop.op, uop.outputs, uop.inputs with
  | .mov, [_], [a] => unaryValue id a w lane
  | .cvt, [_], [a] => unaryValue (fun x => (F.ofU32 (x.setWidth 32)).setWidth 64) a w lane
  | .add, [_], [a, b] =>
      binaryValue (if uop.attrs.type = .f32 then onF32 F.add else (· + ·)) a b w lane
  | .mul, [out], [a, b] =>
      binaryValue
        (if uop.attrs.type = .f32 then onF32 F.mul
         else mulInt (uop.attrs.type = .s32 ∨ uop.attrs.type = .s64) out.type.isWide) a b w lane
  | .shl, [out], [a, b] =>
      binaryValue (shlInt (uop.attrs.type.isWide || out.type.isWide)) a b w lane
  | .shfl, [_], [src, laneParam, clampParam, memberParam] =>
      shflValue (hasFlag uop.attrs.flags "down") mask.width src laneParam clampParam memberParam
        w lane
  | .fma, [_], [a, b, c] =>
      ternaryValue
        (fun x y z => (F.fma (x.setWidth 32) (y.setWidth 32) (z.setWidth 32)).setWidth 64)
        a b c w lane
  | .warpReduceAdd, [_], [a] =>
      match reduceLanes F mask a w with
      | (some _, _) => none
      | (none, sum) => some (sum.setWidth 64)
  | .setp, [_], [a, b] =>
      (setpValue (setpCmp uop.attrs.flags) (uop.attrs.type = .s32 ∨ uop.attrs.type = .s64) a b
        w lane).map fun pred => if pred then 1 else 0
  | _, _, _ => none

/-- Each lane's result in `w'` is what the state `w` gives it. -/
def ExecSimultaneous (F : FloatOps) (uop : MicroOp) (w w' : WarpState) : Prop :=
  ∀ lane, uop.RunsAt w lane → ∀ out ∈ uop.outputs,
    (uop.op ≠ .setp → out.kind = .reg → ∃ v, execValue F uop (uop.execMask w) w lane = some v
        ∧ readRegLane out w' lane = bankValue out.type.isWide v)
      ∧ (uop.op = .setp → ∃ v, execValue F uop (uop.execMask w) w lane = some v
        ∧ w'.p.getD ((out.predId.toNat * w.active.width + lane) % 2 ^ 64) 0 = v.setWidth 8)

/-- The operations whose turns read what the loop writes. -/
def MicroOpOp.readsDuringLoop : MicroOpOp → Bool
  | .setp | .warpReduceAdd => false
  | _ => true

/-- The state before the step, with the results it gives to the lanes below `lane` stored. -/
def lowerStored (F : FloatOps) (uop : MicroOp) (out : Operand) (w : WarpState) (lane : Nat) :
    WarpState :=
  (laneLoopFrom (uop.execMask w)
    (writeLane out fun _ l => orFault specialUnknown (execValue F uop (uop.execMask w) w l))
    (List.range lane) w).2

/-- No lane's value changes by the lower lanes already holding theirs. -/
def NoStaleRead (F : FloatOps) (uop : MicroOp) (w : WarpState) : Prop :=
  uop.op.readsDuringLoop = true → ∀ lane, uop.RunsAt w lane → ∀ out ∈ uop.outputs,
    out.kind = .reg →
      (execValue F uop (uop.execMask w) (lowerStored F uop out w lane) lane).map
          (bankValue out.type.isWide)
        = (execValue F uop (uop.execMask w) w lane).map (bankValue out.type.isWide)

/-! ### The loop of a step -/

theorem map_orFault {α β : Type} {f : Fault} {g : α → β} {x y : Option α} :
    (orFault f x).map g = (orFault f y).map g ↔ x.map g = y.map g := by
  cases x <;> cases y <;> simp [orFault, Except.map]

/-- Which fault an absent value would raise is of no account to a loop that succeeds. -/
theorem run_orFault {f : Fault} (f' : Fault) {out : Operand}
    {value : WarpState → Nat → Option (BitVec 64)} {lanes : List Nat} {w w' : WarpState}
    (hrun : forEach (writeLane out fun s l => orFault f (value s l)) lanes w = (none, w')) :
    forEach (writeLane out fun s l => orFault f' (value s l)) lanes w = (none, w') := by
  induction lanes generalizing w with
  | nil => exact hrun
  | cons lane lanes ih =>
      obtain ⟨t, hturn, hrest⟩ := forEach_cons_ok.mp hrun
      refine forEach_cons_ok.mpr ⟨t, ?_, ih hrest⟩
      unfold writeLane at hturn ⊢
      cases hv : value w lane with
      | none =>
          simp only [hv, orFault] at hturn
          cases hturn
      | some v =>
          simp only [hv, orFault] at hturn ⊢
          exact hturn

theorem execLanes_ok {mask : LaneMask} {unknown : Fault} {out : Operand}
    {value : WarpState → Nat → Option (BitVec 64)} {w w' : WarpState} {sr : StepResult}
    (h : execLanes mask unknown out value w = (.ok sr, w')) :
    forEach (writeLane out fun s l => orFault specialUnknown (value s l)) (loopLanes mask) w
      = (none, w') := by
  unfold execLanes at h
  have hok := stepOfLoop_ok_iff.mp ⟨sr, congrArg Prod.fst h⟩
  have hsnd := congrArg Prod.snd h
  rw [stepOfLoop_snd] at hsnd
  rw [laneLoop_eq_forEach] at hok hsnd
  exact run_orFault specialUnknown (Prod.ext hok hsnd)

/-- A step that succeeds, `SETP` apart, is one loop of register writes; each turn stores the value
of the state reached, or for `WARP_REDUCE_ADD` of the state before. -/
theorem execStep_loop {F : FloatOps} {uop : MicroOp} {w w' : WarpState} {sr : StepResult}
    (hop : uop.op ≠ .setp) (hdone : w.done = false)
    (hstep : ExecCore.step F uop w = (.ok sr, w')) :
    ∃ out, uop.outputs = [out]
      ∧ forEach (writeLane out fun s l => orFault specialUnknown
          (execValue F uop (uop.execMask w) (if uop.op.readsDuringLoop then s else w) l))
          (loopLanes (uop.execMask w)) w = (none, w') := by
  obtain ⟨kind, op, inputs, outputs, attrs, guard⟩ := uop
  simp only [ExecCore.step, hdone, Bool.false_eq_true, if_false] at hstep
  cases op with
  | setp => exact absurd rfl hop
  | mov =>
      simp only at hstep
      split at hstep
      · exact ⟨_, rfl, execLanes_ok hstep⟩
      · cases hstep
  | cvt =>
      simp only at hstep
      split at hstep
      · split at hstep
        · cases hstep
        · exact ⟨_, rfl, execLanes_ok hstep⟩
      · cases hstep
  | add =>
      simp only at hstep
      split at hstep
      · split at hstep
        next htype => exact ⟨_, rfl, by
          simpa [execValue, htype, MicroOp.execMask, MicroOpOp.readsDuringLoop]
            using execLanes_ok hstep⟩
        next htype => exact ⟨_, rfl, by
          simpa [execValue, htype, MicroOp.execMask, MicroOpOp.readsDuringLoop]
            using execLanes_ok hstep⟩
      · cases hstep
  | mul =>
      simp only at hstep
      split at hstep
      · split at hstep
        next htype => exact ⟨_, rfl, by
          simpa [execValue, htype, MicroOp.execMask, MicroOpOp.readsDuringLoop]
            using execLanes_ok hstep⟩
        next htype => exact ⟨_, rfl, by
          simpa [execValue, htype, MicroOp.execMask, MicroOpOp.readsDuringLoop]
            using execLanes_ok hstep⟩
      · cases hstep
  | shl =>
      simp only at hstep
      split at hstep
      · exact ⟨_, rfl, execLanes_ok hstep⟩
      · cases hstep
  | shfl =>
      simp only at hstep
      split at hstep
      · split at hstep
        · cases hstep
        · exact ⟨_, rfl, execLanes_ok hstep⟩
      · cases hstep
  | fma =>
      simp only at hstep
      split at hstep
      · split at hstep
        · cases hstep
        · exact ⟨_, rfl, execLanes_ok hstep⟩
      · cases hstep
  | warpReduceAdd =>
      simp only at hstep
      split at hstep
      · split at hstep
        · cases hstep
        · split at hstep
          · cases hstep
          next sum hsum =>
            refine ⟨_, rfl, ?_⟩
            simpa [execValue, MicroOp.execMask, hsum, MicroOpOp.readsDuringLoop]
              using execLanes_ok hstep
      · cases hstep
  | _ => cases hstep

/-! ### The exact condition -/

section Iff

variable {F : FloatOps} {uop : MicroOp} {w w' : WarpState} {sr : StepResult}

/-- A comparison reads no predicate, so its turns are all at the state before. -/
theorem setp_simultaneous (hdone : w.done = false) (hop : uop.op = .setp)
    (hstep : ExecCore.step F uop w = (.ok sr, w')) : ExecSimultaneous F uop w w' := by
  obtain ⟨kind, op, inputs, outputs, attrs, guard⟩ := uop
  simp only at hop
  subst hop
  simp only [ExecCore.step, hdone, Bool.false_eq_true, if_false] at hstep
  split at hstep
  case h_2 => cases hstep
  next out a b =>
    unfold setpStep at hstep
    split at hstep
    · cases hstep
    split at hstep
    · cases hstep
    dsimp only at hstep
    split at hstep
    · cases hstep
    split at hstep
    · cases hstep
    have hok := stepOfLoop_ok_iff.mp ⟨sr, congrArg Prod.fst hstep⟩
    have hsnd := congrArg Prod.snd hstep
    rw [stepOfLoop_snd] at hsnd
    intro lane hlane o ho
    obtain rfl := List.mem_singleton.mp ho
    refine ⟨fun h => absurd rfl h, fun _ => ?_⟩
    obtain ⟨p, pred, hpred, hread⟩ := predLoop_turn hlane.2 (Prod.ext hok hsnd)
    refine ⟨if pred then 1 else 0, Option.map_eq_some_iff.mpr ⟨pred, hpred, rfl⟩, ?_⟩
    rw [← Nat.mod_add_mod, hread]
    cases pred <;> rfl

theorem lowerStored_eq {out : Operand} {pre post : List Nat} {lane : Nat}
    (hsplit : loopLanes (uop.execMask w) = pre ++ lane :: post) :
    (forEach (frozen (fun l v s => writeRegLane out s l v)
        (fun s l => orFault specialUnknown (execValue F uop (uop.execMask w) s l)) w) pre w).2
      = lowerStored F uop out w lane := by
  rw [lowerStored, laneLoopFrom_eq_forEach, ← loopLanes_split hsplit, frozen, store_writeLane]

theorem regResults_iff {out : Operand} (hdone : w.done = false) (hop : uop.op ≠ .setp)
    (hout : uop.outputs = [out]) (hkind : out.kind = .reg) :
    ExecSimultaneous F uop w w' ↔ ∀ lane ∈ loopLanes (uop.execMask w), ∃ v,
      orFault specialUnknown (execValue F uop (uop.execMask w) w lane) = .ok v
        ∧ readRegLane out w' lane = bankValue out.type.isWide v := by
  simp only [ExecSimultaneous, hout, List.mem_singleton, forall_eq, mem_loopLanes_runsAt hdone,
    orFault_ok_iff]
  exact ⟨fun h lane hlane => (h lane hlane).1 hop hkind,
    fun h lane hlane => ⟨fun _ _ => h lane hlane, fun hsetp => absurd hsetp hop⟩⟩

theorem noStaleRead_iff_split {out : Operand} (hdone : w.done = false)
    (hreads : uop.op.readsDuringLoop = true) (hout : uop.outputs = [out])
    (hkind : out.kind = .reg) :
    NoStaleRead F uop w ↔ ∀ pre lane post, loopLanes (uop.execMask w) = pre ++ lane :: post →
      (orFault specialUnknown (execValue F uop (uop.execMask w) (forEach
          (frozen (fun l v s => writeRegLane out s l v)
            (fun s l => orFault specialUnknown (execValue F uop (uop.execMask w) s l)) w)
          pre w).2 lane)).map (bankValue out.type.isWide)
        = (orFault specialUnknown (execValue F uop (uop.execMask w) w lane)).map
            (bankValue out.type.isWide) := by
  simp only [NoStaleRead, hreads, hout, List.mem_singleton, forall_eq, forall_const, map_orFault]
  constructor
  · intro h pre lane post hsplit
    rw [lowerStored_eq hsplit]
    exact h lane ((mem_loopLanes_runsAt hdone).mp (by simp [hsplit])) hkind
  · intro h lane hlane _
    obtain ⟨pre, post, hsplit⟩ := List.append_of_mem ((mem_loopLanes_runsAt hdone).mpr hlane)
    rw [← lowerStored_eq hsplit]
    exact h pre lane post hsplit

theorem simultaneous_iff_noStaleRead (hstep : ExecCore.step F uop w = (.ok sr, w')) :
    ExecSimultaneous F uop w w' ↔ NoStaleRead F uop w := by
  by_cases hdone : w.done = false
  case neg =>
    exact ⟨fun _ _ lane hlane => absurd hlane.1 hdone, fun _ lane hlane => absurd hlane.1 hdone⟩
  by_cases hop : uop.op = .setp
  · have hquiet : uop.op.readsDuringLoop = false := by rw [hop]; rfl
    exact iff_of_true (setp_simultaneous hdone hop hstep) fun hreads => by simp [hquiet] at hreads
  obtain ⟨out, hout, hrun⟩ := execStep_loop hop hdone hstep
  by_cases hkind : out.kind = .reg
  case neg =>
    refine iff_of_true (fun lane _ o ho => ?_) (fun _ lane _ o ho hreg => ?_)
    · rw [hout, List.mem_singleton] at ho
      exact ⟨fun _ hreg => absurd (ho ▸ hreg) hkind, fun hsetp => absurd hsetp hop⟩
    · rw [hout, List.mem_singleton] at ho
      exact absurd (ho ▸ hreg) hkind
  have hcells := regCells hkind w.active.width
  rw [regResults_iff hdone hop hout hkind]
  rw [← store_writeLane] at hrun
  cases hreads : uop.op.readsDuringLoop with
  | false =>
      -- every turn stores a value of the state before
      refine iff_of_true (fun lane hlane => ?_) (fun h => by simp [hreads] at h)
      obtain ⟨pre, post, hsplit⟩ := List.append_of_mem hlane
      obtain ⟨t, v, -, hv, hread⟩ := hcells.run_self rfl (fun l => loopLanes_dom)
        (nodup_loopLanes _) hsplit hrun
      simp only [hreads, Bool.false_eq_true, if_false] at hv
      exact ⟨v, hv, hread⟩
  | true =>
      simp only [hreads, if_true] at hrun
      rw [noStaleRead_iff_split hdone hreads hout hkind]
      exact hcells.simultaneous_iff rfl (fun l => loopLanes_dom) (nodup_loopLanes _) hrun

end Iff

/-! ### Where no row wraps -/

section Aligned

variable {F : FloatOps} {uop : MicroOp} {w w' : WarpState} {sr : StepResult} {lane : Nat}

/-- The state a lane's condition is about differs from the state before in entries of lower
lanes. -/
theorem lowerStored_wrote (F : FloatOps) (uop : MicroOp) (out : Operand) (w : WarpState)
    (lane : Nat) :
    ∃ lanes, (∀ l ∈ lanes, l < lane ∧ laneMaskTest (uop.execMask w) l = true)
      ∧ WroteLanes out lanes w (lowerStored F uop out w lane) := by
  obtain ⟨lanes, post, hsplit, hrun⟩ := forEach_ran
    (writeLane out fun _ l => orFault specialUnknown (execValue F uop (uop.execMask w) w l))
    ((List.range lane).filter (laneMaskTest (uop.execMask w))) w
  have hlanes : ∀ l ∈ lanes, l < lane ∧ laneMaskTest (uop.execMask w) l = true := by
    intro l hl
    have hmem : l ∈ (List.range lane).filter (laneMaskTest (uop.execMask w)) := by
      simp [hsplit, hl]
    rwa [List.mem_filter, List.mem_range] at hmem
  refine ⟨lanes, hlanes, ?_⟩
  rw [lowerStored, laneLoopFrom_eq_forEach]
  exact writeRun_wrote (fun l hl => (laneMaskTest_lt (hlanes l hl).2).1) hrun

/-- A lane's own operands are not written by lower lanes. -/
theorem lowerStored_read_self {out o : Operand} (hlane : lane < w.active.width)
    (hout : out.Aligned w.active.width) (ho : o.Aligned w.active.width) :
    readOperandLane o (lowerStored F uop out w lane) lane = readOperandLane o w lane := by
  obtain ⟨lanes, hlanes, hwrote⟩ := lowerStored_wrote F uop out w lane
  refine readOperandLane_of_onlyRegs hwrote.onlyRegs
    (hwrote.readRegLane_eq hlane fun hkind l hl hstored => ?_)
  have hl := hlanes l hl
  have heq := hstored.of_aligned hout (fun hreg => ho.1 (.inl hreg)) hkind (by omega) hlane
  omega

/-- Apart from a shuffle, a lane's value is a function of its own operands. -/
theorem execValue_congr {mask : LaneMask} {s : WarpState} (hop : uop.op ≠ .shfl)
    (hreads : uop.op.readsDuringLoop = true)
    (hread : ∀ o ∈ uop.inputs, readOperandLane o s lane = readOperandLane o w lane) :
    execValue F uop mask s lane = execValue F uop mask w lane := by
  obtain ⟨kind, op, inputs, outputs, attrs, guard⟩ := uop
  unfold execValue
  dsimp only at hop hreads hread ⊢
  split
  case h_6 => exact absurd rfl hop
  case h_8 => cases hreads
  case h_9 => cases hreads
  case h_10 => rfl
  all_goals simp only [List.mem_cons, List.not_mem_nil, or_false, forall_eq_or_imp, forall_eq]
    at hread
  all_goals simp only [unaryValue, binaryValue, ternaryValue, hread]

theorem noStaleRead_of_aligned (hop : uop.op ≠ .shfl)
    (hin : ∀ o ∈ uop.inputs, o.Aligned w.active.width)
    (hout : ∀ o ∈ uop.outputs, o.Aligned w.active.width) : NoStaleRead F uop w := by
  intro hreads lane hlane out hmem _
  have hwidth : lane < w.active.width := (laneMaskTest_lt hlane.2).1
  rw [execValue_congr hop hreads fun o ho =>
    lowerStored_read_self hwidth (hout out hmem) (hin o ho)]

/-! ### Shuffles -/

/-- The lane a shuffle's result for `lane` is taken from. -/
def shflFrom (doDown : Bool) (execWidth : Nat) (laneParam clampParam memberParam : Operand)
    (w : WarpState) (lane : Nat) : Option Nat := do
  let laneOrIdx ← readOperandLane laneParam w lane
  let clamp ← readOperandLane clampParam w lane
  let memberBits ← readOperandLane memberParam w lane
  let memberMask : BitVec 32 := memberBits.setWidth 32
  let srcLane := shflSrcLane doDown lane (laneOrIdx.setWidth 32).toNat
    (shflWidthFromClamp (clamp.setWidth 32))
  if memberMask.getLsbD lane ∧ (srcLane < execWidth ∧ srcLane < 32) ∧
    memberMask.getLsbD srcLane then
    return srcLane
  else return lane

theorem shflValue_eq {doDown : Bool} {execWidth : Nat}
    {src laneParam clampParam memberParam : Operand} :
    shflValue doDown execWidth src laneParam clampParam memberParam w lane
      = (readOperandLane src w lane).bind fun _ =>
          (shflFrom doDown execWidth laneParam clampParam memberParam w lane).bind
            (readOperandLane src w) := by
  unfold shflValue shflFrom
  cases hsrc : readOperandLane src w lane with
  | none => rfl
  | some srcSelf =>
      cases readOperandLane laneParam w lane with
      | none => rfl
      | some laneOrIdx =>
          cases readOperandLane clampParam w lane with
          | none => rfl
          | some clamp =>
              cases readOperandLane memberParam w lane with
              | none => rfl
              | some memberBits =>
                  simp only [Option.bind_eq_bind, Option.bind_some, Option.pure_def]
                  split
                  · rfl
                  · rw [Option.bind_some, hsrc]

theorem shflFrom_lt {doDown : Bool} {execWidth l : Nat} {laneParam clampParam memberParam : Operand}
    (hlane : lane < execWidth)
    (h : shflFrom doDown execWidth laneParam clampParam memberParam w lane = some l) :
    l < execWidth := by
  unfold shflFrom at h
  simp only [Option.bind_eq_bind, Option.bind_eq_some_iff, Option.pure_def] at h
  obtain ⟨_, -, _, -, _, -, h⟩ := h
  split at h
  next hcond =>
    cases h
    exact hcond.2.1.1
  · cases h
    exact hlane

/-- A shuffle down reads no lower lane. -/
theorem le_shflFrom_down {execWidth l : Nat} {laneParam clampParam memberParam : Operand}
    (h : shflFrom true execWidth laneParam clampParam memberParam w lane = some l) : lane ≤ l := by
  unfold shflFrom at h
  simp only [Option.bind_eq_bind, Option.bind_eq_some_iff, Option.pure_def] at h
  obtain ⟨_, -, _, -, _, -, h⟩ := h
  split at h
  · cases h
    unfold shflSrcLane
    dsimp only
    rw [if_pos rfl]
    split
    · exact Nat.le_add_right _ _
    · exact Nat.le_refl _
  · cases h
    exact Nat.le_refl _

/-- Every lower lane that some lane takes its word from in place takes an equal word itself. -/
def ShflSourcesKept (uop : MicroOp) (w : WarpState) : Prop :=
  ∀ out src laneParam clampParam memberParam, uop.outputs = [out] →
    uop.inputs = [src, laneParam, clampParam, memberParam] → src.SameRow w.active.width out →
      ∀ lane l k, uop.RunsAt w lane → uop.RunsAt w l → l < lane →
        shflFrom (hasFlag uop.attrs.flags "down") w.active.width laneParam clampParam memberParam w
          lane = some l →
        shflFrom (hasFlag uop.attrs.flags "down") w.active.width laneParam clampParam memberParam w
          l = some k →
        readRegLane src w k = readRegLane src w l

theorem shflSourcesKept_down (hdown : hasFlag uop.attrs.flags "down" = true) :
    ShflSourcesKept uop w := by
  intro out src laneParam clampParam memberParam _ _ _ lane l k _ _ hlt hfrom _
  rw [hdown] at hfrom
  exact absurd (le_shflFrom_down hfrom) (by omega)

/-- What a step that succeeds stored for a lower lane. -/
theorem lowerStored_read {out : Operand} {l : Nat} (hdone : w.done = false)
    (hop : uop.op ≠ .setp) (hstep : ExecCore.step F uop w = (.ok sr, w'))
    (hout : uop.outputs = [out]) (hkind : out.kind = .reg) (hl : uop.RunsAt w l) (hlt : l < lane)
    (hvalue : ∀ l, uop.RunsAt w l → (execValue F uop (uop.execMask w) w l).isSome = true) :
    ∃ v, execValue F uop (uop.execMask w) w l = some v
      ∧ readRegLane out (lowerStored F uop out w lane) l = bankValue out.type.isWide v := by
  obtain ⟨out', hout', hrun⟩ := execStep_loop hop hdone hstep
  obtain rfl : out = out' := List.singleton_inj.mp (hout.symm.trans hout')
  have hwrote := writeRun_wrote (fun l hl => (loopLanes_dom hl).1) hrun
  have hlower : ∀ {j}, j ∈ (List.range lane).filter (laneMaskTest (uop.execMask w)) →
      j ∈ loopLanes (uop.execMask w) :=
    fun hj => mem_loopLanes_iff.mpr (List.mem_filter.mp hj).2
  obtain ⟨t, ht⟩ := writeRun_ok (execValue F uop (uop.execMask w) w)
    (fun j hj => (loopLanes_dom (hlower hj)).1)
    (fun j hj => hwrote.fits j (hlower hj))
    (fun j hj => hvalue j ((mem_loopLanes_runsAt hdone).mp (hlower hj)))
  obtain ⟨pre, post, hsplit⟩ := List.append_of_mem
    (List.mem_filter.mpr ⟨List.mem_range.mpr hlt, hl.2⟩)
  have hfrozen := ht
  rw [← store_writeLane] at hfrozen
  obtain ⟨_, v, -, hv, hread⟩ := (regCells hkind w.active.width).run_self rfl
    (fun j hj => loopLanes_dom (hlower hj)) (List.nodup_range.filter _) hsplit hfrozen
  refine ⟨v, orFault_ok_iff.mp hv, ?_⟩
  rw [lowerStored, laneLoopFrom_eq_forEach, ht]
  exact hread

theorem isSome_shflValue {doDown : Bool} {execWidth l : Nat} {s : WarpState}
    {src laneParam clampParam memberParam : Operand} (h : OnlyRegs w s) (lane : Nat) :
    (shflValue doDown execWidth src laneParam clampParam memberParam s lane).isSome
      = (shflValue doDown execWidth src laneParam clampParam memberParam w l).isSome := by
  have hsome : ∀ (s : WarpState) (lane : Nat), OnlyRegs w s →
      (shflValue doDown execWidth src laneParam clampParam memberParam s lane).isSome
        = ((readOperandLane src w 0).isSome && (readOperandLane laneParam w 0).isSome
            && (readOperandLane clampParam w 0).isSome
            && (readOperandLane memberParam w 0).isSome) := by
    intro s lane h
    rw [shflValue_eq, shflFrom, ← isSome_readOperandLane h src lane,
      ← isSome_readOperandLane h laneParam lane, ← isSome_readOperandLane h clampParam lane,
      ← isSome_readOperandLane h memberParam lane]
    have hany := fun j => isSome_readOperandLane (.refl s) src j lane
    cases hsrc : readOperandLane src s lane with
    | none => rfl
    | some _ =>
        rw [hsrc] at hany
        cases readOperandLane laneParam s lane with
        | none => rfl
        | some laneOrIdx =>
            cases readOperandLane clampParam s lane with
            | none => rfl
            | some clamp =>
                cases readOperandLane memberParam s lane with
                | none => rfl
                | some memberBits =>
                    simp only [Option.bind_eq_bind, Option.bind_some, Option.pure_def,
                      Option.isSome_some, Bool.and_self]
                    split <;> exact hany _
  rw [hsome s lane h, hsome w l (.refl w)]

theorem bankValue_readRegLane (o : Operand) (w : WarpState) (lane : Nat) :
    bankValue o.type.isWide (readRegLane o w lane) = readRegLane o w lane := by
  unfold bankValue
  cases hwide : o.type.isWide with
  | true => rfl
  | false =>
      unfold readRegLane
      dsimp only
      repeat' split
      all_goals simp_all

theorem Operand.SameRow.readRegLane_eq {a b : Operand} (h : a.SameRow w.active.width b) :
    readRegLane a w lane = readRegLane b w lane := by
  obtain ⟨ha, hb, hwide, hrow⟩ := h
  unfold readRegLane regLaneIndex
  simp only [ha, hb, hwide]
  rw [← Nat.mod_add_mod, hrow, Nat.mod_add_mod]

theorem shflStep_operands (hdone : w.done = false) (hop : uop.op = .shfl)
    (hstep : ExecCore.step F uop w = (.ok sr, w')) :
    ∃ out src laneParam clampParam memberParam, uop.outputs = [out]
      ∧ uop.inputs = [src, laneParam, clampParam, memberParam] := by
  obtain ⟨kind, op, inputs, outputs, attrs, guard⟩ := uop
  simp only at hop
  subst hop
  simp only [ExecCore.step, hdone, Bool.false_eq_true, if_false] at hstep
  split at hstep
  · exact ⟨_, _, _, _, _, rfl, rfl⟩
  · cases hstep

section Shfl

variable {out src laneParam clampParam memberParam : Operand}

theorem execValue_shfl (hop : uop.op = .shfl) (houts : uop.outputs = [out])
    (hins : uop.inputs = [src, laneParam, clampParam, memberParam]) (s : WarpState) (l : Nat) :
    execValue F uop (uop.execMask w) s l
      = shflValue (hasFlag uop.attrs.flags "down") w.active.width src laneParam clampParam
          memberParam s l := by
  unfold execValue
  simp only [hop, houts, hins]
  rfl

/-- The turns of a shuffle that succeeds all have a word in the state before. -/
theorem isSome_execValue_shfl (hdone : w.done = false) (hop : uop.op = .shfl)
    (houts : uop.outputs = [out]) (hins : uop.inputs = [src, laneParam, clampParam, memberParam])
    (hstep : ExecCore.step F uop w = (.ok sr, w')) {l : Nat} (hl : uop.RunsAt w l) :
    (execValue F uop (uop.execMask w) w l).isSome = true := by
  obtain ⟨out', -, hrun⟩ := execStep_loop (by rw [hop]; decide) hdone hstep
  obtain ⟨pre, post, hsplit⟩ := List.append_of_mem ((mem_loopLanes_runsAt hdone).mpr hl)
  rw [hsplit] at hrun
  obtain ⟨t, t', hpre, hturn, -⟩ := forEach_turn hrun
  have hreads : uop.op.readsDuringLoop = true := by rw [hop]; rfl
  have hdom : ∀ j ∈ pre, j < w.active.width :=
    fun j hj => (loopLanes_dom (hsplit ▸ List.mem_append_left _ hj)).1
  have honly := (writeRun_wrote hdom hpre).onlyRegs
  rw [execValue_shfl hop houts hins, ← isSome_shflValue honly l,
    ← execValue_shfl (F := F) hop houts hins]
  unfold writeLane at hturn
  simp only [hreads, if_true] at hturn
  cases hv : execValue F uop (uop.execMask w) t l with
  | none =>
      simp only [hv, orFault] at hturn
      cases hturn
  | some v => rfl

theorem shflFrom_lowerStored {doDown : Bool} {execWidth : Nat} (hlane : lane < w.active.width)
    (hins : uop.inputs = [src, laneParam, clampParam, memberParam])
    (hin : ∀ o ∈ uop.inputs, o.Aligned w.active.width) (hout : out.Aligned w.active.width) :
    shflFrom doDown execWidth laneParam clampParam memberParam (lowerStored F uop out w lane) lane
      = shflFrom doDown execWidth laneParam clampParam memberParam w lane := by
  rw [hins] at hin
  simp only [List.mem_cons, List.not_mem_nil, or_false, forall_eq_or_imp, forall_eq] at hin
  obtain ⟨-, hlaneParam, hclamp, hmember⟩ := hin
  unfold shflFrom
  rw [lowerStored_read_self hlane hout hlaneParam, lowerStored_read_self hlane hout hclamp,
    lowerStored_read_self hlane hout hmember]

/-- A word a lane takes is stale only if it is read in place from a lower lane. -/
theorem readRegLane_lowerStored {l : Nat} (hl : l < w.active.width)
    (hsrc : src.Aligned w.active.width) (hout : out.Aligned w.active.width)
    (hfresh : ¬ (src.SameRow w.active.width out ∧ l < lane
      ∧ laneMaskTest (uop.execMask w) l = true)) :
    readRegLane src (lowerStored F uop out w lane) l = readRegLane src w l := by
  obtain ⟨lanes, hlanes, hwrote⟩ := lowerStored_wrote F uop out w lane
  refine hwrote.readRegLane_eq hl fun hkind j hj hstored => hfresh ?_
  obtain ⟨hlt, hrun⟩ := hlanes j hj
  obtain ⟨rfl, hrow⟩ := hstored.of_aligned hout (fun hreg => hsrc.1 (.inl hreg)) hkind
    (laneMaskTest_lt hrun).1 hl
  exact ⟨hrow, hlt, hrun⟩

/-- Where no row wraps, a shuffle reads stale words exactly when a lane takes its word in place from
a lower lane whose own word changes. -/
theorem shfl_noStaleRead_iff (hop : uop.op = .shfl) (hstep : ExecCore.step F uop w = (.ok sr, w'))
    (hin : ∀ o ∈ uop.inputs, o.Aligned w.active.width)
    (hout : ∀ o ∈ uop.outputs, o.Aligned w.active.width) :
    NoStaleRead F uop w ↔ ShflSourcesKept uop w := by
  by_cases hdone : w.done = false
  case neg =>
    exact iff_of_true (fun _ lane hlane => absurd hlane.1 hdone)
      fun _ _ _ _ _ _ _ _ lane _ _ hlane => absurd hlane.1 hdone
  obtain ⟨out, src, laneParam, clampParam, memberParam, houts, hins⟩ :=
    shflStep_operands hdone hop hstep
  have hreads : uop.op.readsDuringLoop = true := by rw [hop]; rfl
  have houtA : out.Aligned w.active.width := hout out (by simp [houts])
  have hsrcA : src.Aligned w.active.width := hin src (by simp [hins])
  -- what a lower lane holds, read in place
  have hstored : ∀ {lane l}, src.SameRow w.active.width out → uop.RunsAt w l → l < lane →
      ∃ k, shflFrom (hasFlag uop.attrs.flags "down") w.active.width laneParam clampParam
          memberParam w l = some k
        ∧ readRegLane src (lowerStored F uop out w lane) l = readRegLane src w k := by
    intro lane l hrow hl hlt
    obtain ⟨v, hv, hread⟩ :=
      lowerStored_read hdone (by rw [hop]; decide) hstep houts hrow.2.1 hl hlt
        fun j hj => isSome_execValue_shfl hdone hop houts hins hstep hj
    have hactive : (lowerStored F uop out w lane).active = w.active := by
      obtain ⟨_, -, hwrote⟩ := lowerStored_wrote F uop out w lane
      exact hwrote.active
    rw [execValue_shfl hop houts hins, shflValue_eq, Option.bind_eq_some_iff] at hv
    obtain ⟨_, -, hv⟩ := hv
    obtain ⟨k, hk, hv⟩ := Option.bind_eq_some_iff.mp hv
    refine ⟨k, hk, ?_⟩
    rw [readOperandLane, hrow.1] at hv
    rw [Operand.SameRow.readRegLane_eq (hactive ▸ hrow), hread, ← Option.some.inj hv,
      ← hrow.2.2.1, bankValue_readRegLane]
  constructor
  · intro hstale out' src' laneParam' clampParam' memberParam' houts' hins' hrow lane l k hlane hl
      hlt hfrom hfrom'
    rw [houts, List.singleton_inj] at houts'
    rw [hins] at hins'
    simp only [List.cons.injEq, and_true] at hins'
    obtain ⟨rfl, rfl, rfl, rfl⟩ := hins'
    subst houts'
    have hwidth : lane < w.active.width := (laneMaskTest_lt hlane.2).1
    have heq := hstale hreads lane hlane out (by simp [houts]) hrow.2.1
    rw [execValue_shfl hop houts hins, execValue_shfl hop houts hins, shflValue_eq, shflValue_eq,
      shflFrom_lowerStored hwidth hins hin houtA, hfrom] at heq
    simp only [readOperandLane, hrow.1, Option.bind_some, Option.map_some, Option.some.injEq,
      ← hrow.2.2.1, bankValue_readRegLane] at heq
    obtain ⟨k', hk', hstoredRead⟩ := hstored hrow hl hlt
    obtain rfl : k = k' := Option.some.inj (hfrom'.symm.trans hk')
    exact hstoredRead.symm.trans heq
  · intro hkept _ lane hlane out' hmem _
    rw [houts, List.mem_singleton] at hmem
    subst hmem
    have hwidth : lane < w.active.width := (laneMaskTest_lt hlane.2).1
    rw [execValue_shfl hop houts hins, execValue_shfl hop houts hins, shflValue_eq, shflValue_eq,
      shflFrom_lowerStored hwidth hins hin houtA, lowerStored_read_self hwidth houtA hsrcA]
    obtain ⟨_, -, hwrote⟩ := lowerStored_wrote F uop out' w lane
    congr 2
    funext _
    refine Option.bind_congr fun l hfrom => readOperandLane_of_onlyRegs hwrote.onlyRegs ?_
    by_cases hlower : src.SameRow w.active.width out' ∧ l < lane
        ∧ laneMaskTest (uop.execMask w) l = true
    · obtain ⟨hrow, hlt, htest⟩ := hlower
      obtain ⟨k, hk, hread⟩ := hstored hrow ⟨hdone, htest⟩ hlt
      rw [hread]
      exact hkept _ _ _ _ _ houts hins hrow lane l k hlane ⟨hdone, htest⟩ hlt hfrom hk
    · exact readRegLane_lowerStored (shflFrom_lt hwidth hfrom) hsrcA houtA hlower

end Shfl

end Aligned


/-! ### The law -/

/-- **Simultaneous lanes.** A micro-op that succeeds gives each lane the result of the state before
exactly when no lane's value changes by the lower lanes already holding theirs. Where no row wraps
only a shuffle can fail this, and it does when a lane takes its word in place from a lower lane
whose own word changes; a shuffle down never does. -/
theorem exec_simultaneous_iff (F : FloatOps) (uop : MicroOp) (w w' : WarpState) (sr : StepResult)
    (hstep : ExecCore.step F uop w = (.ok sr, w')) :
    (ExecSimultaneous F uop w w' ↔ NoStaleRead F uop w)
      ∧ ((∀ o ∈ uop.inputs ++ uop.outputs, o.Aligned w.active.width) →
        (uop.op ≠ .shfl → NoStaleRead F uop w)
          ∧ (uop.op = .shfl → (NoStaleRead F uop w ↔ ShflSourcesKept uop w))
          ∧ (hasFlag uop.attrs.flags "down" = true → ShflSourcesKept uop w)) := by
  refine ⟨simultaneous_iff_noStaleRead hstep, fun haligned => ?_⟩
  have hin : ∀ o ∈ uop.inputs, o.Aligned w.active.width :=
    fun o ho => haligned o (List.mem_append_left _ ho)
  have hout : ∀ o ∈ uop.outputs, o.Aligned w.active.width :=
    fun o ho => haligned o (List.mem_append_right _ ho)
  exact ⟨fun hop => noStaleRead_of_aligned hop hin hout,
    fun hop => shfl_noStaleRead_iff hop hstep hin hout, shflSourcesKept_down⟩

/-- `shfl.idx` with its source for destination; the lane numbers are in the next register. -/
def shflSwapUop : MicroOp where
  op := .shfl
  outputs := [{ kind := .reg, regId := 0 }]
  inputs := [{ kind := .reg, regId := 0 }, { kind := .reg, regId := 1 },
    { kind := .imm, immI64 := 31 }, { kind := .imm, immI64 := 3 }]
  attrs := { flags := ["idx"] }
  guard := laneMaskAll 2

def shflSwapWarp : WarpState where
  active := laneMaskAll 2
  rU32 := [10, 20, 1, 0]

theorem exec_simultaneous_iff_swap :
    (ExecSimultaneous .unused shflSwapUop shflSwapWarp
        (ExecCore.step .unused shflSwapUop shflSwapWarp).2
      ↔ NoStaleRead .unused shflSwapUop shflSwapWarp)
      ∧ (NoStaleRead .unused shflSwapUop shflSwapWarp
        ↔ ShflSourcesKept shflSwapUop shflSwapWarp) :=
  have h := exec_simultaneous_iff .unused shflSwapUop shflSwapWarp _ { progressed := true } rfl
  ⟨h.1, (h.2 (by decide)).2.1 rfl⟩

/-- The two lanes of the warp exchange their words; both end with that of lane 1. -/
theorem shfl_swap_stale :
    (ExecCore.step .unused shflSwapUop shflSwapWarp).1 = .ok { progressed := true }
      ∧ ¬ ExecSimultaneous .unused shflSwapUop shflSwapWarp
        (ExecCore.step .unused shflSwapUop shflSwapWarp).2 := by
  refine ⟨rfl, fun h => ?_⟩
  obtain ⟨v, hv, hread⟩ := (h 1 ⟨rfl, by decide⟩ _ (List.mem_singleton.mpr rfl)).1 (by decide) rfl
  have hold : execValue .unused shflSwapUop (shflSwapUop.execMask shflSwapWarp) shflSwapWarp 1
      = some 10 := by decide
  obtain rfl : v = 10 := Option.some.inj (hv.symm.trans hold)
  revert hread
  decide

end ProtoGpu

import ProtoGpu.Proof.MemoryConfinement
import ProtoGpu.Proof.ReconvergenceFaults

/-!
# Micro-ops that a unit accepts

A check of one micro-op, on its operands and attributes alone. A unit finds nothing to report about
a micro-op that passes, except an access of global memory that is misaligned or outside of the
allocations.
-/

namespace ProtoGpu

/-- The fault is an access of global memory that failed. -/
def Fault.isAccess : Fault → Bool
  | .host => false
  | .undefined => false
  | .diag d =>
      d.module == "units.mem" && (d.code == "E_GLOBAL_ALIGN" || d.code == "E_GLOBAL_MISS")

/-! ### The checks -/

def knownSpecials : List String :=
  ["tid.x", "tid.y", "tid.z", "ntid.x", "ntid.y", "ntid.z", "ctaid.x", "ctaid.y", "ctaid.z",
    "nctaid.x", "nctaid.y", "nctaid.z", "laneid", "warpid"]

/-- The number of predicates of a lane. -/
def predCount : Nat := 8

def Operand.readable (o : Operand) : Bool := o.kind != .special || knownSpecials.elem o.special

/-- The register's entries lie in a vector. -/
def Operand.storable (warpSize : Nat) (o : Operand) : Bool :=
  o.kind != .reg || decide ((o.regNo + 1) * warpSize ≤ maxSizeU64)

def isPredNumber (predId : Int) : Bool := decide (0 ≤ predId) && decide (predId.toNat < predCount)

def MicroOp.takes (u : MicroOp) (nOut nIn : Nat) : Bool :=
  u.outputs.length == nOut && u.inputs.length == nIn

def MicroOp.execChecked (warpSize : Nat) (u : MicroOp) : Bool :=
  u.outputs.all (Operand.storable warpSize) && u.inputs.all Operand.readable
    && match u.op with
      | .mov => u.takes 1 1
      | .cvt => u.takes 1 1 && u.outputs.all (·.type == .f32) && u.inputs.all (·.type == .u32)
      | .add => u.takes 1 2
      | .mul => u.takes 1 2
      | .shl => u.takes 1 2
      | .shfl => u.takes 1 4 && (hasFlag u.attrs.flags "down" != hasFlag u.attrs.flags "idx")
      | .fma => u.takes 1 3 && u.attrs.type == .f32
      | .warpReduceAdd => u.takes 1 1 && u.attrs.type == .f32
      | .setp =>
          u.takes 1 2 && u.outputs.all (fun o => o.kind == .pred && isPredNumber o.predId)
            && decide (setpOpCount u.attrs.flags ≤ 1)
      | _ => false

/-- A load of a parameter is checked against the parameters of the run. -/
def MicroOp.memChecked (warpSize : Nat) (params : AddrSpaceManager) (u : MicroOp) : Bool :=
  match u.op with
  | .ld =>
      u.takes 1 1 && u.outputs.all (Operand.storable warpSize)
        && match u.attrs.space with
          | .param =>
              u.inputs.all fun src => src.kind == .symbol
                && (params.readParamSymbol src.symbol
                  (BitVec.ofNat 64 (typeSize u.attrs.type))).isSome
          | .global => u.inputs.all (·.kind == .addr)
          | .localMem => u.inputs.all (·.kind == .addr)
          | _ => false
  | .st =>
      u.takes 0 2 && u.inputs.all Operand.readable
        && match u.attrs.space with
          | .global => u.inputs.head?.all (·.kind == .addr)
          | .localMem => u.inputs.head?.all (·.kind == .addr)
          | _ => false
  | _ => false

def MicroOp.ctrlChecked (u : MicroOp) : Bool :=
  match u.op with
  | .ret => true
  | .bra => u.inputs.length == 1 && u.inputs.all (·.kind == .imm)
  | _ => false

def MicroOp.checked (warpSize : Nat) (params : AddrSpaceManager) (u : MicroOp) : Bool :=
  match u.kind with
  | .exec => u.execChecked warpSize
  | .mem => u.memChecked warpSize params
  | .control => u.ctrlChecked

/-! ### Lane loops -/

/-- Each turn returns, or ends in a fault of one kind: so does the loop. -/
theorem laneLoop_cases {σ : Type} {P : σ → Prop} {Q : Fault → Prop} (mask : LaneMask)
    {body : Nat → σ → Except Fault σ}
    (hbody : ∀ lane s, laneMaskTest mask lane = true → P s →
      (∃ s', body lane s = .ok s' ∧ P s') ∨ ∃ f, body lane s = .error f ∧ Q f)
    {s : σ} (hs : P s) :
    P (laneLoop mask body s).2 ∧ ∀ f, (laneLoop mask body s).1 = some f → Q f := by
  unfold laneLoop
  generalize List.range (min mask.width 32) = lanes
  induction lanes generalizing s with
  | nil => exact ⟨hs, fun f hf => by cases hf⟩
  | cons lane lanes ih =>
      rw [laneLoopFrom]
      split
      next htest =>
        rcases hbody lane s htest hs with ⟨s', hok, hs'⟩ | ⟨f, herror, hf⟩
        · rw [hok]
          exact ih hs'
        · rw [herror]
          refine ⟨hs, fun f' hf' => ?_⟩
          cases hf'
          exact hf
      · exact ih hs

/-- Each turn returns: so does the loop. -/
theorem laneLoop_returns {σ : Type} {P : σ → Prop} {mask : LaneMask}
    {body : Nat → σ → Except Fault σ}
    (hbody : ∀ lane s, laneMaskTest mask lane = true → P s → ∃ s', body lane s = .ok s' ∧ P s')
    {s : σ} (hs : P s) : ∃ s', laneLoop mask body s = (none, s') ∧ P s' := by
  obtain ⟨hend, hfault⟩ := laneLoop_cases (Q := fun _ => False) mask
    (fun lane s htest hs => .inl (hbody lane s htest hs)) hs
  refine ⟨(laneLoop mask body s).2, Prod.ext ?_ rfl, hend⟩
  cases hloop : (laneLoop mask body s).1 with
  | none => rfl
  | some f => exact (hfault f hloop).elim

/-! ### Registers and operands -/

/-- The masks and the predicates have the sizes the launch gave them. -/
structure WarpState.Sized (warpSize : Nat) (w : WarpState) : Prop where
  width : w.active.width = warpSize
  preds : w.p.length = predCount * warpSize

section Lanes

variable {warpSize : Nat} {w : WarpState} {o : Operand} {lane : Nat}

theorem growAndSet_returns {b : Nat} {maxSize idx : Nat} (file : List (BitVec b)) (v : BitVec b)
    (hidx : idx + 1 ≤ maxSize) : ∃ file', growAndSet maxSize file idx v = .ok file' := by
  unfold growAndSet
  by_cases hlt : idx < file.length
  · exact ⟨_, if_pos hlt⟩
  · rw [if_neg hlt, if_pos hidx]
    exact ⟨_, rfl⟩

theorem regLaneIndex_lt (hstore : (o.regNo + 1) * warpSize ≤ maxSizeU64) (hlane : lane < warpSize) :
    regLaneIndex o.regNo lane warpSize + 1 ≤ maxSizeU64 := by
  have hindex : regLaneIndex o.regNo lane warpSize ≤ o.regNo * warpSize + lane := Nat.mod_le _ _
  rw [Nat.add_mul] at hstore
  omega

theorem writeRegLane_returns (hw : w.Sized warpSize) (hstore : o.storable warpSize = true)
    (v : BitVec 64) : ∃ w', writeRegLane o w lane v = .ok w' ∧ w'.Sized warpSize := by
  unfold writeRegLane
  by_cases hkind : o.kind = .reg
  · rw [if_neg (not_not.mpr hkind)]
    dsimp only
    split
    · exact ⟨w, rfl, hw⟩
    · split
      · exact ⟨w, rfl, hw⟩
      next hlane =>
        rw [hw.width] at hlane ⊢
        have hfits : (o.regNo + 1) * warpSize ≤ maxSizeU64 := by
          simpa [Operand.storable, hkind] using hstore
        have hindex := regLaneIndex_lt hfits (Nat.lt_of_not_le hlane)
        split
        · obtain ⟨file, hfile⟩ := growAndSet_returns w.rU64 v hindex
          rw [hfile]
          exact ⟨_, rfl, hw.width, hw.preds⟩
        · obtain ⟨file, hfile⟩ := growAndSet_returns w.rU32 (v.setWidth 32)
            (hindex.trans (by decide : maxSizeU64 ≤ maxSizeU32))
          rw [hfile]
          exact ⟨_, rfl, hw.width, hw.preds⟩
  · rw [if_pos hkind]
    exact ⟨w, rfl, hw⟩

theorem writeLane_returns {value : WarpState → Nat → Except Fault (BitVec 64)}
    (hw : w.Sized warpSize) (hstore : o.storable warpSize = true) {v : BitVec 64}
    (hvalue : value w lane = .ok v) :
    ∃ w', writeLane o value lane w = .ok w' ∧ w'.Sized warpSize := by
  rw [writeLane, hvalue]
  exact writeRegLane_returns hw hstore v

/-- The loop of a micro-op that writes a value each lane has. -/
theorem writeLoop_returns {mask : LaneMask} {value : WarpState → Nat → Except Fault (BitVec 64)}
    (hw : w.Sized warpSize) (hstore : o.storable warpSize = true)
    (hvalue : ∀ w lane, ∃ v, value w lane = .ok v) :
    ∃ sr w', stepOfLoop (laneLoop mask (writeLane o value) w) = (.ok sr, w') ∧
      w'.Sized warpSize := by
  have hturn : ∀ lane s, laneMaskTest mask lane = true → s.Sized warpSize →
      ∃ s', writeLane o value lane s = .ok s' ∧ s'.Sized warpSize := by
    intro lane s _ hs
    obtain ⟨v, hv⟩ := hvalue s lane
    exact writeLane_returns hs hstore hv
  obtain ⟨w', hloop, hw'⟩ := laneLoop_returns hturn hw
  rw [hloop]
  exact ⟨_, w', rfl, hw'⟩

theorem readSpecialU32_known :
    ∀ name ∈ knownSpecials, ∃ v, readSpecialU32 name w lane = some v := by
  unfold readSpecialU32
  by_cases hempty : w.launch.blockDim.x = 0 ∨ w.launch.blockDim.y = 0 ∨ w.launch.blockDim.z = 0
  · intro name _
    exact ⟨0, if_pos hempty⟩
  · dsimp only
    simp only [if_neg hempty]
    unfold knownSpecials
    iterate 14 refine List.forall_mem_cons.mpr ⟨⟨_, rfl⟩, ?_⟩
    exact List.forall_mem_nil _

theorem readOperandLane_returns (w : WarpState) (lane : Nat) (hread : o.readable = true) :
    ∃ v, readOperandLane o w lane = some v := by
  unfold readOperandLane
  cases hkind : o.kind with
  | special =>
      have hknown : knownSpecials.elem o.special = true := by
        simpa only [Operand.readable, hkind, bne_self_eq_false, Bool.false_or] using hread
      exact readSpecialU32_known o.special (List.mem_of_elem_eq_true hknown)
  | _ => exact ⟨_, rfl⟩

theorem unaryValue_returns (f : BitVec 64 → BitVec 64) {a : Operand} (ha : a.readable = true) :
    ∃ v, unaryValue f a w lane = some v := by
  obtain ⟨x, hx⟩ := readOperandLane_returns w lane ha
  rw [unaryValue, hx]
  exact ⟨_, rfl⟩

theorem binaryValue_returns (f : BitVec 64 → BitVec 64 → BitVec 64) {a b : Operand}
    (ha : a.readable = true) (hb : b.readable = true) : ∃ v, binaryValue f a b w lane = some v := by
  obtain ⟨x, hx⟩ := readOperandLane_returns w lane ha
  obtain ⟨y, hy⟩ := readOperandLane_returns w lane hb
  rw [binaryValue, hx, hy]
  exact ⟨_, rfl⟩

theorem ternaryValue_returns (f : BitVec 64 → BitVec 64 → BitVec 64 → BitVec 64) {a b c : Operand}
    (ha : a.readable = true) (hb : b.readable = true) (hc : c.readable = true) :
    ∃ v, ternaryValue f a b c w lane = some v := by
  obtain ⟨x, hx⟩ := readOperandLane_returns w lane ha
  obtain ⟨y, hy⟩ := readOperandLane_returns w lane hb
  obtain ⟨z, hz⟩ := readOperandLane_returns w lane hc
  rw [ternaryValue, hx, hy, hz]
  exact ⟨_, rfl⟩

theorem shflValue_returns (doDown : Bool) (execWidth : Nat) {a b c d : Operand}
    (ha : a.readable = true) (hb : b.readable = true) (hc : c.readable = true)
    (hd : d.readable = true) : ∃ v, shflValue doDown execWidth a b c d w lane = some v := by
  obtain ⟨x, hx⟩ := readOperandLane_returns w lane ha
  obtain ⟨y, hy⟩ := readOperandLane_returns w lane hb
  obtain ⟨z, hz⟩ := readOperandLane_returns w lane hc
  obtain ⟨m, hm⟩ := readOperandLane_returns w lane hd
  rw [shflValue, hx, hy, hz, hm]
  simp only [Option.bind_eq_bind, Option.bind_some]
  split
  · exact readOperandLane_returns w _ ha
  · exact ⟨_, rfl⟩

theorem setpValue_returns (w : WarpState) (lane : Nat) (cmp : SetpCmp) (signed : Bool)
    {a b : Operand} (ha : a.readable = true) (hb : b.readable = true) :
    ∃ v, setpValue cmp signed a b w lane = some v := by
  obtain ⟨x, hx⟩ := readOperandLane_returns w lane ha
  obtain ⟨y, hy⟩ := readOperandLane_returns w lane hb
  rw [setpValue, hx, hy]
  exact ⟨_, rfl⟩

end Lanes

/-! ### The execution core -/

namespace MicroOp

variable {u : MicroOp} {nOut nIn : Nat}

theorem takes_iff : u.takes nOut nIn = true ↔ u.outputs.length = nOut ∧ u.inputs.length = nIn := by
  rw [takes, Bool.and_eq_true, beq_iff_eq, beq_iff_eq]

theorem takes_one (h : u.takes 1 nIn = true) :
    ∃ out, u.outputs = [out] ∧ u.inputs.length = nIn := by
  obtain ⟨hout, hin⟩ := takes_iff.mp h
  obtain ⟨out, hout⟩ := List.length_eq_one_iff.mp hout
  exact ⟨out, hout, hin⟩

end MicroOp

section Exec

variable {warpSize : Nat} {w : WarpState} {mask : LaneMask} {out : Operand} {u : MicroOp}

theorem execLanes_returns {unknown : Fault} {value : WarpState → Nat → Option (BitVec 64)}
    (hw : w.Sized warpSize) (hstore : out.storable warpSize = true)
    (hvalue : ∀ w lane, ∃ v, value w lane = some v) :
    ∃ sr w', execLanes mask unknown out value w = (.ok sr, w') ∧ w'.Sized warpSize := by
  refine writeLoop_returns hw hstore fun w lane => ?_
  obtain ⟨v, hv⟩ := hvalue w lane
  rw [hv]
  exact ⟨v, rfl⟩

theorem reduceLanes_returns (F : FloatOps) (mask : LaneMask) (w : WarpState) {a : Operand}
    (ha : a.readable = true) : ∃ sum, reduceLanes F mask a w = (none, sum) := by
  suffices hloop : ∃ sum, reduceLanes F mask a w = (none, sum) ∧ True by
    obtain ⟨sum, hloop, -⟩ := hloop
    exact ⟨sum, hloop⟩
  unfold reduceLanes
  refine laneLoop_returns (P := fun _ => True) (fun lane sum _ _ => ?_) trivial
  obtain ⟨x, hx⟩ := readOperandLane_returns w lane ha
  rw [hx]
  exact ⟨_, rfl, trivial⟩

/-- The predicate's row of lanes lies in the vector. -/
theorem predRow_fits {predId : Int} {lane : Nat} (hws : warpSize ≤ 32)
    (hpred : isPredNumber predId = true) (hlane : lane ≤ warpSize) :
    predId.toNat * warpSize % 2 ^ 64 = predId.toNat * warpSize
      ∧ (predId.toNat * warpSize + lane) % 2 ^ 64 = predId.toNat * warpSize + lane
      ∧ predId.toNat * warpSize + warpSize ≤ predCount * warpSize := by
  rw [isPredNumber, Bool.and_eq_true, decide_eq_true_eq, decide_eq_true_eq] at hpred
  have hrow : (predId.toNat + 1) * warpSize ≤ predCount * warpSize :=
    Nat.mul_le_mul_right _ hpred.2
  have hrows : predCount * warpSize ≤ 256 := Nat.mul_le_mul_left 8 hws
  rw [Nat.add_mul, Nat.one_mul] at hrow
  refine ⟨Nat.mod_eq_of_lt ?_, Nat.mod_eq_of_lt ?_, hrow⟩
  · omega
  · omega

theorem setpStep_returns {a b : Operand} (hws : 0 < warpSize ∧ warpSize ≤ 32)
    (hw : w.Sized warpSize) (hmask : mask.width = warpSize) (hkind : out.kind = .pred)
    (hpred : isPredNumber out.predId = true) (hflags : setpOpCount u.attrs.flags ≤ 1)
    (ha : a.readable = true) (hb : b.readable = true) :
    ∃ sr w', setpStep u mask out a b w = (.ok sr, w') ∧ w'.Sized warpSize := by
  obtain ⟨hbase, hend, hrow⟩ := predRow_fits hws.2 hpred le_rfl
  have hnonneg : ¬ out.predId < 0 := by
    rw [isPredNumber, Bool.and_eq_true, decide_eq_true_eq] at hpred
    exact Int.not_lt.mpr hpred.1
  unfold setpStep
  rw [if_neg (not_or.mpr ⟨not_not.mpr hkind, hnonneg⟩), if_neg (Nat.not_lt.mpr hflags)]
  dsimp only
  rw [hw.width, if_neg (by omega), hbase, hend,
    if_neg (by rw [hw.preds]; exact Nat.not_lt.mpr hrow)]
  have hturn : ∀ lane s, laneMaskTest mask lane = true → s.Sized warpSize →
      ∃ s', writePredLane (out.predId.toNat * warpSize) (setpValue (setpCmp u.attrs.flags)
        (decide (u.attrs.type = .s32 ∨ u.attrs.type = .s64)) a b) lane s = .ok s'
          ∧ s'.Sized warpSize := by
    intro lane s htest hs
    rw [laneMaskTest_eq, Bool.and_eq_true, decide_eq_true_eq, hmask] at htest
    obtain ⟨v, hv⟩ := setpValue_returns s lane (setpCmp u.attrs.flags)
      (decide (u.attrs.type = .s32 ∨ u.attrs.type = .s64)) ha hb
    obtain ⟨-, hindex, -⟩ := predRow_fits hws.2 hpred htest.1.le
    have hlt : out.predId.toNat * warpSize + lane < s.p.length := by
      rw [hs.preds]
      exact (Nat.add_lt_add_left htest.1 _).trans_le hrow
    rw [writePredLane, hv]
    dsimp only
    rw [hindex, if_pos hlt]
    exact ⟨_, rfl, hs.width, by rw [List.length_set]; exact hs.preds⟩
  obtain ⟨w', hloop, hw'⟩ := laneLoop_returns hturn hw
  rw [hloop]
  exact ⟨_, w', rfl, hw'⟩

/-- A checked micro-op of the execution core returns. -/
theorem execStep_returns (F : FloatOps) (hws : 0 < warpSize ∧ warpSize ≤ 32) (hw : w.Sized warpSize)
    (hchecked : u.execChecked warpSize = true) :
    ∃ sr w', ExecCore.step F u w = (.ok sr, w') ∧ w'.Sized warpSize := by
  unfold MicroOp.execChecked at hchecked
  rw [Bool.and_eq_true, Bool.and_eq_true, List.all_eq_true, List.all_eq_true] at hchecked
  obtain ⟨⟨hstores, hreads⟩, hop⟩ := hchecked
  unfold ExecCore.step
  split
  · exact ⟨_, w, rfl, hw⟩
  dsimp only
  cases hopEq : u.op with
  | mov =>
      rw [hopEq] at hop
      obtain ⟨out, hout, hin⟩ := MicroOp.takes_one hop
      obtain ⟨a, hin⟩ := List.length_eq_one_iff.mp hin
      simp only [hout, hin, List.forall_mem_cons] at hstores hreads ⊢
      exact execLanes_returns hw hstores.1 fun w lane => unaryValue_returns id hreads.1
  | cvt =>
      simp only [hopEq, Bool.and_eq_true] at hop
      obtain ⟨⟨htakes, houtType⟩, hinType⟩ := hop
      obtain ⟨out, hout, hin⟩ := MicroOp.takes_one htakes
      obtain ⟨a, hin⟩ := List.length_eq_one_iff.mp hin
      simp only [hout, hin, List.forall_mem_cons, List.all_cons, List.all_nil, Bool.and_true,
        beq_iff_eq] at hstores hreads houtType hinType ⊢
      rw [if_neg (not_or.mpr ⟨not_not.mpr houtType, not_not.mpr hinType⟩)]
      exact execLanes_returns hw hstores.1 fun w lane => unaryValue_returns _ hreads.1
  | add =>
      rw [hopEq] at hop
      obtain ⟨out, hout, hin⟩ := MicroOp.takes_one hop
      obtain ⟨a, b, hin⟩ := List.length_eq_two.mp hin
      simp only [hout, hin, List.forall_mem_cons] at hstores hreads ⊢
      split
      · exact execLanes_returns hw hstores.1 fun w lane => binaryValue_returns _ hreads.1 hreads.2.1
      · exact execLanes_returns hw hstores.1 fun w lane => binaryValue_returns _ hreads.1 hreads.2.1
  | mul =>
      rw [hopEq] at hop
      obtain ⟨out, hout, hin⟩ := MicroOp.takes_one hop
      obtain ⟨a, b, hin⟩ := List.length_eq_two.mp hin
      simp only [hout, hin, List.forall_mem_cons] at hstores hreads ⊢
      split
      · exact execLanes_returns hw hstores.1 fun w lane => binaryValue_returns _ hreads.1 hreads.2.1
      · exact execLanes_returns hw hstores.1 fun w lane => binaryValue_returns _ hreads.1 hreads.2.1
  | shl =>
      rw [hopEq] at hop
      obtain ⟨out, hout, hin⟩ := MicroOp.takes_one hop
      obtain ⟨a, b, hin⟩ := List.length_eq_two.mp hin
      simp only [hout, hin, List.forall_mem_cons] at hstores hreads ⊢
      exact execLanes_returns hw hstores.1 fun w lane => binaryValue_returns _ hreads.1 hreads.2.1
  | shfl =>
      simp only [hopEq, Bool.and_eq_true, bne_iff_ne] at hop
      obtain ⟨htakes, hmode⟩ := hop
      obtain ⟨out, hout, hin⟩ := MicroOp.takes_one htakes
      obtain ⟨a, b, c, d, hin⟩ := List.length_eq_four.mp hin
      simp only [hout, hin, List.forall_mem_cons] at hstores hreads ⊢
      obtain ⟨ha, hb, hc, hd, -⟩ := hreads
      rw [if_neg (by rwa [beq_iff_eq])]
      exact execLanes_returns hw hstores.1 fun w lane => shflValue_returns _ _ ha hb hc hd
  | fma =>
      simp only [hopEq, Bool.and_eq_true, beq_iff_eq] at hop
      obtain ⟨htakes, htype⟩ := hop
      obtain ⟨out, hout, hin⟩ := MicroOp.takes_one htakes
      obtain ⟨a, b, c, hin⟩ := List.length_eq_three.mp hin
      simp only [hout, hin, List.forall_mem_cons] at hstores hreads ⊢
      obtain ⟨ha, hb, hc, -⟩ := hreads
      rw [if_neg (not_not.mpr htype)]
      exact execLanes_returns hw hstores.1 fun w lane => ternaryValue_returns _ ha hb hc
  | warpReduceAdd =>
      simp only [hopEq, Bool.and_eq_true, beq_iff_eq] at hop
      obtain ⟨htakes, htype⟩ := hop
      obtain ⟨out, hout, hin⟩ := MicroOp.takes_one htakes
      obtain ⟨a, hin⟩ := List.length_eq_one_iff.mp hin
      simp only [hout, hin, List.forall_mem_cons] at hstores hreads ⊢
      rw [if_neg (not_not.mpr htype)]
      obtain ⟨sum, hsum⟩ := reduceLanes_returns F (laneMaskAnd w.active u.guard) w hreads.1
      rw [hsum]
      exact execLanes_returns hw hstores.1 fun w lane => ⟨_, rfl⟩
  | setp =>
      simp only [hopEq, Bool.and_eq_true, decide_eq_true_eq] at hop
      obtain ⟨⟨htakes, hpred⟩, hflags⟩ := hop
      obtain ⟨out, hout, hin⟩ := MicroOp.takes_one htakes
      obtain ⟨a, b, hin⟩ := List.length_eq_two.mp hin
      simp only [hout, hin, List.forall_mem_cons, List.all_cons, List.all_nil, Bool.and_true,
        Bool.and_eq_true, beq_iff_eq] at hreads hpred ⊢
      exact setpStep_returns hws hw hw.width hpred.1 hpred.2 hflags hreads.1 hreads.2.1
  | ld => simp [hopEq] at hop
  | st => simp [hopEq] at hop
  | bra => simp [hopEq] at hop
  | ret => simp [hopEq] at hop

end Exec

/-! ### The memory unit -/

/-- The parameters of a kernel run. -/
structure AddrSpaceManager.SameParams (params mem : AddrSpaceManager) : Prop where
  layout : mem.paramLayout = params.paramLayout
  blob : mem.paramBlob = params.paramBlob

theorem AddrSpaceManager.SameParams.readParamSymbol_eq {params mem : AddrSpaceManager}
    (h : params.SameParams mem) (name : String) (size : Addr) :
    mem.readParamSymbol name size = params.readParamSymbol name size := by
  unfold AddrSpaceManager.readParamSymbol
  rw [h.layout, h.blob]

section Mem

variable {warpSize : Nat} {w : WarpState} {mask : LaneMask} {u : MicroOp} {mem : MemState}
  {params : AddrSpaceManager} {out src dst val : Operand}

theorem stepOfLoop_sound {σ : Type} {P : σ → Prop} {Q : Fault → Prop}
    {body : Nat → σ → Except Fault σ}
    (hbody : ∀ lane s, P s →
      (∃ s', body lane s = .ok s' ∧ P s') ∨ ∃ f, body lane s = .error f ∧ Q f)
    {s : σ} (hs : P s) :
    P (stepOfLoop (laneLoop mask body s)).2
      ∧ ∀ f, (stepOfLoop (laneLoop mask body s)).1 = .error f → Q f := by
  obtain ⟨hend, hfault⟩ := laneLoop_cases mask (fun lane s _ hs => hbody lane s hs) hs
  rw [stepOfLoop_snd]
  refine ⟨hend, fun f hf => ?_⟩
  unfold stepOfLoop at hf
  split at hf
  next hloop =>
    cases hf
    exact hfault f hloop
  · cases hf

theorem ldGlobalValue_cases {size lane : Nat} :
    (∃ v, ldGlobalValue src size mem w lane = .ok v)
      ∨ ∃ f, ldGlobalValue src size mem w lane = .error f ∧ f.isAccess = true := by
  unfold ldGlobalValue
  dsimp only
  split
  · exact .inr ⟨_, rfl, rfl⟩
  · split
    · exact .inr ⟨_, rfl, rfl⟩
    · exact .inl ⟨_, rfl⟩

theorem stGlobalLane_cases (mem : MemState) {size lane : Nat} (hread : val.readable = true) :
    (∃ mem', stGlobalLane dst val size w lane mem = .ok mem')
      ∨ ∃ f, stGlobalLane dst val size w lane mem = .error f ∧ f.isAccess = true := by
  obtain ⟨v, hv⟩ := readOperandLane_returns w lane hread
  unfold stGlobalLane
  dsimp only
  rw [hv]
  split
  · exact .inr ⟨_, rfl, rfl⟩
  · dsimp only
    split
    · exact .inr ⟨_, rfl, rfl⟩
    · exact .inl ⟨_, rfl⟩

theorem stLocalLane_returns (mem : MemState) {size lane : Nat} (hread : val.readable = true) :
    ∃ mem', stLocalLane dst val size w lane mem = .ok mem' := by
  obtain ⟨v, hv⟩ := readOperandLane_returns w lane hread
  unfold stLocalLane
  dsimp only
  rw [hv]
  exact ⟨_, rfl⟩

theorem writeLoop_sound {value : WarpState → Nat → Except Fault (BitVec 64)} (hw : w.Sized warpSize)
    (hstore : out.storable warpSize = true)
    (hvalue : ∀ w lane, (∃ v, value w lane = .ok v)
      ∨ ∃ f, value w lane = .error f ∧ f.isAccess = true) :
    (stepOfLoop (laneLoop mask (writeLane out value) w)).2.Sized warpSize
      ∧ ∀ f, (stepOfLoop (laneLoop mask (writeLane out value) w)).1 = .error f →
        f.isAccess = true := by
  refine stepOfLoop_sound (P := fun w : WarpState => w.Sized warpSize) (fun lane s hs => ?_) hw
  rcases hvalue s lane with ⟨v, hv⟩ | ⟨f, hf, haccess⟩
  · exact .inl (writeLane_returns hs hstore hv)
  · right
    rw [writeLane, hf]
    exact ⟨f, rfl, haccess⟩

/-- A checked load reports accesses alone. -/
theorem ldStep_sound (hw : w.Sized warpSize) (hparams : params.SameParams mem.mgr)
    (hout : u.outputs = [out]) (hin : u.inputs = [src]) (hop : u.op = .ld)
    (hchecked : u.memChecked warpSize params = true) :
    (ldStep u mask out src w mem).2.Sized warpSize
      ∧ ∀ f, (ldStep u mask out src w mem).1 = .error f → f.isAccess = true := by
  simp only [MicroOp.memChecked, hop, hout, hin, List.all_cons, List.all_nil, Bool.and_true,
    Bool.and_eq_true] at hchecked
  obtain ⟨⟨-, hstore⟩, hspace⟩ := hchecked
  unfold ldStep
  dsimp only
  cases hspaceEq : u.attrs.space with
  | param =>
      simp only [hspaceEq, Bool.and_eq_true, beq_iff_eq] at hspace
      obtain ⟨bytes, hbytes⟩ := Option.isSome_iff_exists.mp hspace.2
      simp only [hparams.readParamSymbol_eq, hbytes, hspace.1, ne_eq, not_true_eq_false, if_false]
      exact writeLoop_sound hw hstore fun _ _ => .inl ⟨_, rfl⟩
  | global =>
      simp only [hspaceEq, beq_iff_eq] at hspace
      simp only [hspace, ne_eq, not_true_eq_false, if_false]
      exact writeLoop_sound hw hstore fun _ _ => ldGlobalValue_cases
  | localMem =>
      simp only [hspaceEq, beq_iff_eq] at hspace
      simp only [hspace, ne_eq, not_true_eq_false, if_false]
      exact writeLoop_sound hw hstore fun _ _ => .inl ⟨_, rfl⟩
  | shared => simp [hspaceEq] at hspace
  | const => simp [hspaceEq] at hspace

/-- A checked store reports accesses alone. -/
theorem stStep_sound (hin : u.inputs = [dst, val]) (hop : u.op = .st)
    (hchecked : u.memChecked warpSize params = true) :
    ∀ f, (stStep u mask dst val w mem).1 = .error f → f.isAccess = true := by
  simp only [MicroOp.memChecked, hop, hin, List.all_cons, List.all_nil, Bool.and_true,
    Bool.and_eq_true, List.head?_cons, Option.all_some] at hchecked
  obtain ⟨⟨-, -, hread⟩, hspace⟩ := hchecked
  unfold stStep
  dsimp only
  cases hspaceEq : u.attrs.space with
  | global =>
      simp only [hspaceEq, beq_iff_eq] at hspace
      simp only [hspace, ne_eq, not_true_eq_false, if_false]
      refine (stepOfLoop_sound (P := fun _ => True) (fun lane m _ => ?_) trivial).2
      rcases stGlobalLane_cases m hread with ⟨m', hok⟩ | hfault
      · exact .inl ⟨m', hok, trivial⟩
      · exact .inr hfault
  | localMem =>
      simp only [hspaceEq, beq_iff_eq] at hspace
      simp only [hspace, ne_eq, not_true_eq_false, if_false]
      refine (stepOfLoop_sound (P := fun _ => True) (fun lane m _ => ?_) trivial).2
      obtain ⟨m', hok⟩ := stLocalLane_returns m hread
      exact .inl ⟨m', hok, trivial⟩
  | param => simp [hspaceEq] at hspace
  | shared => simp [hspaceEq] at hspace
  | const => simp [hspaceEq] at hspace

/-- A checked micro-op of the memory unit reports accesses alone. -/
theorem memStep_sound (hw : w.Sized warpSize) (hparams : params.SameParams mem.mgr)
    (hchecked : u.memChecked warpSize params = true) :
    (MemUnit.step u w mem).2.1.Sized warpSize
      ∧ ∀ f, (MemUnit.step u w mem).1 = .error f → f.isAccess = true := by
  unfold MemUnit.step
  split
  · exact ⟨hw, fun f hf => by cases hf⟩
  dsimp only
  cases hop : u.op with
  | ld =>
      have htakes : u.takes 1 1 = true := by
        simp only [MicroOp.memChecked, hop, Bool.and_eq_true] at hchecked
        exact hchecked.1.1
      obtain ⟨out, hout, hin⟩ := MicroOp.takes_one htakes
      obtain ⟨src, hin⟩ := List.length_eq_one_iff.mp hin
      simp only [hout, hin]
      exact ldStep_sound hw hparams hout hin hop hchecked
  | st =>
      have htakes : u.takes 0 2 = true := by
        simp only [MicroOp.memChecked, hop, Bool.and_eq_true] at hchecked
        exact hchecked.1.1
      obtain ⟨hout, hin⟩ := MicroOp.takes_iff.mp htakes
      obtain ⟨dst, val, hin⟩ := List.length_eq_two.mp hin
      simp only [List.eq_nil_of_length_eq_zero hout, hin]
      exact ⟨hw, stStep_sound hin hop hchecked⟩
  | _ => simp [MicroOp.memChecked, hop] at hchecked

end Mem

/-! ### One micro-op -/

section Uop

variable {ctx : WarpContext} {inst : InstRecord} {u : MicroOp} {s s' : IssueState}
  {params : AddrSpaceManager}

@[simp]
theorem locateFault_isAccess (ctx : WarpContext) (inst : InstRecord) (pc : Int) (f : Fault) :
    (locateFault ctx inst pc f).isAccess = f.isAccess := by
  cases f <;> rfl

/-- A checked branch reports nothing of its own. -/
theorem ctrlUnit_returns {w : WarpState} (hop : u.op = .bra) (hchecked : u.ctrlChecked = true) :
    ∃ sr, (ControlUnit.step u w).1 = .ok sr := by
  simp only [MicroOp.ctrlChecked, hop, Bool.and_eq_true, beq_iff_eq] at hchecked
  obtain ⟨target, hin⟩ := List.length_eq_one_iff.mp hchecked.1
  have himm : target.kind = .imm := by simpa [hin] using hchecked.2
  unfold ControlUnit.step
  split
  · exact ⟨_, rfl⟩
  · split
    · exact ⟨_, rfl⟩
    · simp only [hop, hin, himm, ne_eq, not_true_eq_false, if_false]
      exact ⟨_, rfl⟩

theorem detectSplit_fault {target : Int} {f : Fault}
    (h : detectSplit ctx inst u target s = .error f) : f.blamesFlow = true := by
  unfold detectSplit at h
  dsimp only at h
  split at h
  · cases h
  · split at h
    · cases h
      rfl
    · split at h
      · cases h
      · cases h
        rfl

theorem detectSplit_nextPc {target : Int} (h : detectSplit ctx inst u target s = .ok s') :
    s'.nextPc = s.nextPc := by
  unfold detectSplit at h
  dsimp only at h
  split at h
  · cases h
    rfl
  · split at h
    · cases h
    · split at h
      · cases h
        rfl
      · cases h

/-- A checked branch that is the first of its instruction. -/
theorem ctrlStep_sound (hop : u.op = .bra) (hchecked : u.ctrlChecked = true)
    (hnext : s.nextPc = none) : ∀ f, (ctrlStep ctx inst u s).1 = some f → f.blamesFlow = true := by
  intro f hf
  obtain ⟨sr, hsr⟩ := ctrlUnit_returns (w := s.warp) hop hchecked
  unfold ctrlStep at hf
  generalize ControlUnit.step u s.warp = unit at hsr hf
  obtain ⟨r, w'⟩ := unit
  obtain rfl : r = .ok sr := hsr
  dsimp only at hf
  split at hf
  · cases hf
  next target _ =>
    rw [if_pos hop] at hf
    split at hf
    next hdetect =>
      cases hf
      exact detectSplit_fault hdetect
    next s'' hdetect =>
      have hnone : s''.nextPc = none := (detectSplit_nextPc hdetect).trans hnext
      rw [setNextPc, hnone] at hf
      cases hf

theorem ctrlRet_warp_p (u : MicroOp) (s : IssueState) : (ctrlRet u s).warp.p = s.warp.p := by
  unfold ctrlRet
  dsimp only
  split
  · rfl
  · split <;> rfl

/-- What a micro-op that is not a branch leaves of the next program counter. -/
theorem uopStep_nextPc {f : Option Fault} (hdone : s.warp.done = false)
    (hstep : uopStep ctx inst u s = (f, s')) (hf : f = none) (hbra : u.isBra = false) :
    s'.nextPc = s.nextPc := by
  cases uopStep_effect hdone hstep with
  | regs => rfl
  | ret =>
      unfold ctrlRet
      dsimp only
      split
      · rfl
      · split <;> rfl
  | idle => rfl
  | fault => cases hf
  | branch hkind hop => simp [MicroOp.isBra, hkind, hop] at hbra

variable {initial : LaneMask} {lanes : Finset Nat} {reconvPc : Int} {rest : List SimtFrame}

/-- A checked micro-op keeps the number of predicates, and reports accesses and control flow
alone. -/
theorem uopStep_sound (hws : 0 < ctx.warpSize ∧ ctx.warpSize ≤ 32)
    (hrun : RunInv ctx initial lanes reconvPc rest s.warp)
    (hpreds : s.warp.p.length = predCount * ctx.warpSize) (hparams : params.SameParams s.mem.mgr)
    (hnext : u.isBra = true → s.nextPc = none) (hchecked : u.checked ctx.warpSize params = true)
    {f : Option Fault} (hstep : uopStep ctx inst u s = (f, s')) :
    s'.warp.p.length = predCount * ctx.warpSize
      ∧ ∀ fault, f = some fault → fault.isAccess = true ∨ fault.blamesFlow = true := by
  have hw : s.warp.Sized ctx.warpSize := ⟨hrun.activeFits.width, hpreds⟩
  unfold uopStep at hstep
  cases hkind : u.kind with
  | exec =>
      simp only [MicroOp.checked, hkind] at hchecked
      obtain ⟨sr, w', hexec, hw'⟩ := execStep_returns ctx.floatOps hws hw hchecked
      simp only [hkind, hexec] at hstep
      cases hstep
      exact ⟨hw'.preds, fun fault hfault => by cases hfault⟩
  | mem =>
      simp only [MicroOp.checked, hkind] at hchecked
      obtain ⟨hw', haccess⟩ := memStep_sound hw hparams hchecked
      simp only [hkind] at hstep
      split at hstep
      next hmem =>
        rw [hmem] at hw' haccess
        cases hstep
        refine ⟨hw'.preds, fun fault hfault => .inl ?_⟩
        cases hfault
        rw [locateFault_isAccess]
        exact haccess _ rfl
      next hmem =>
        rw [hmem] at hw'
        cases hstep
        exact ⟨hw'.preds, fun fault hfault => by cases hfault⟩
  | control =>
      simp only [MicroOp.checked, hkind] at hchecked
      simp only [hkind] at hstep
      by_cases hop : u.op = .ret
      · rw [if_pos hop] at hstep
        cases hstep
        refine ⟨?_, fun fault hfault => by cases hfault⟩
        rw [ctrlRet_warp_p]
        exact hpreds
      · rw [if_neg hop] at hstep
        have hbra : u.op = .bra := by
          cases hopEq : u.op with
          | bra => rfl
          | ret => exact absurd hopEq hop
          | _ => simp [MicroOp.ctrlChecked, hopEq] at hchecked
        refine ⟨?_, fun fault hfault => .inr ?_⟩
        · cases ctrlStep_effect hkind hop hrun.notDone hstep with
          | regs hkind' => exact absurd hkind hkind'
          | ret _ hop' => exact absurd hop' hop
          | idle => exact hpreds
          | fault _ hwarp => rw [hwarp]; exact hpreds
          | branch => exact hpreds
        · have hnone := hnext (by simp [MicroOp.isBra, hkind, hbra])
          exact ctrlStep_sound hbra hchecked hnone fault ((congrArg Prod.fst hstep).trans hfault)

/-- The micro-ops of an instruction with one branch at most. -/
theorem uopLoop_sound (hws : 0 < ctx.warpSize ∧ ctx.warpSize ≤ 32) {uops : List MicroOp}
    (hinv : IssueInv ctx initial lanes reconvPc rest s)
    (hpreds : s.warp.p.length = predCount * ctx.warpSize) (hparams : params.SameParams s.mem.mgr)
    (hguard : ∀ u ∈ uops, u.guard.Fits ctx.warpSize)
    (hnext : s.nextPc = none ∨ uops.countP MicroOp.isBra = 0)
    (hone : uops.countP MicroOp.isBra ≤ 1)
    (hchecked : ∀ u ∈ uops, u.checked ctx.warpSize params = true)
    {f : Option Fault} (hloop : uopLoop ctx inst uops s = (f, s')) :
    s'.warp.p.length = predCount * ctx.warpSize
      ∧ ∀ fault, f = some fault → fault.isAccess = true ∨ fault.blamesFlow = true := by
  induction uops generalizing s with
  | nil =>
      cases hloop
      exact ⟨hpreds, fun fault hfault => by cases hfault⟩
  | cons u uops ih =>
      have hfirst : u.isBra = true → s.nextPc = none := by
        intro hbra
        rcases hnext with hnone | hzero
        · exact hnone
        · rw [List.countP_cons_of_pos hbra] at hzero
          cases hzero
      rw [uopLoop] at hloop
      split at hloop
      next f' s₁ hstep =>
        cases hloop
        exact uopStep_sound hws hinv.run hpreds hparams hfirst (hchecked u (by simp)) hstep
      next s₁ hstep =>
        have hinv₁ := (hinv.uop hws.2 (hguard u (by simp)) hstep).2 rfl
        have hpreds₁ :=
          (uopStep_sound hws hinv.run hpreds hparams hfirst (hchecked u (by simp)) hstep).1
        have hwrites := writesInside_uopStep ctx inst u s
        rw [hstep] at hwrites
        have hparams₁ : params.SameParams s₁.mem.mgr :=
          ⟨hwrites.layout.trans hparams.layout, hwrites.blob.trans hparams.blob⟩
        have hnext₁ : s₁.nextPc = none ∨ uops.countP MicroOp.isBra = 0 := by
          cases hbra : u.isBra with
          | true =>
              right
              rw [List.countP_cons_of_pos hbra] at hone
              omega
          | false =>
              rw [uopStep_nextPc hinv.run.notDone hstep rfl hbra]
              rwa [List.countP_cons_of_neg (by simp [hbra])] at hnext
        have hone₁ : uops.countP MicroOp.isBra ≤ 1 :=
          (List.sublist_cons_self u uops).countP_le.trans hone
        exact ih hinv₁ hpreds₁ hparams₁ (fun v hv => hguard v (by simp [hv])) hnext₁ hone₁
          (fun v hv => hchecked v (by simp [hv])) hloop

end Uop

end ProtoGpu

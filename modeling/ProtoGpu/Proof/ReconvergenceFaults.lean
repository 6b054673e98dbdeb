import ProtoGpu.Proof.MaskPartition
import ProtoGpu.Proof.Successors

/-!
# No reconvergence fault

The step loop blames the control flow with three codes: a branch without a reconvergence point, a
path that finds no join, a program counter outside the kernel. Where every branch names an
instruction and the last instruction leads nowhere else, a path with a live lane is always at an
instruction, so none of the three is reported. The units have codes of their own.
-/

namespace ProtoGpu

/-- The fault is one of the three the step loop reports about control flow. -/
def Fault.blamesFlow : Fault → Bool
  | .host => false
  | .undefined => false
  | .diag d => ["E_RECONV_MISS", "E_RECONV_INVALID", "E_PC_OOB"].contains d.code

/-! ### The units -/

section Units

variable {f : Fault}

theorem laneLoopFrom_fault {σ : Type} {mask : LaneMask} {body : Nat → σ → Except Fault σ}
    {lanes : List Nat} {s : σ} (h : (laneLoopFrom mask body lanes s).1 = some f) :
    ∃ lane s', body lane s' = .error f := by
  induction lanes generalizing s with
  | nil => cases h
  | cons lane lanes ih =>
      rw [laneLoopFrom] at h
      split at h
      · split at h
        next f' hbody =>
          cases h
          exact ⟨lane, s, hbody⟩
        · exact ih h
      · exact ih h

theorem stepOfLoop_fault {σ : Type} {mask : LaneMask} {body : Nat → σ → Except Fault σ} {s : σ}
    (h : (stepOfLoop (laneLoop mask body s)).1 = .error f) :
    ∃ lane s', body lane s' = .error f := by
  unfold stepOfLoop at h
  split at h
  next f' hloop =>
    cases h
    exact laneLoopFrom_fault hloop
  · cases h

theorem growAndSet_fault {b maxSize idx : Nat} {file : List (BitVec b)} {v : BitVec b}
    (h : growAndSet maxSize file idx v = .error f) : f = .host ∨ f = .undefined := by
  unfold growAndSet at h
  split at h
  · cases h
  split at h
  · cases h
  split at h
  · cases h
    exact .inr rfl
  · cases h
    exact .inl rfl

/-- A register that cannot be written is no diagnostic. -/
theorem writeRegLane_fault {o : Operand} {w : WarpState} {lane : Nat} {v : BitVec 64}
    (h : writeRegLane o w lane v = .error f) : f = .host ∨ f = .undefined := by
  unfold writeRegLane at h
  dsimp only at h
  repeat' split at h
  all_goals first
    | cases h; exact growAndSet_fault ‹_›
    | cases h

theorem writeLane_fault {out : Operand} {value : WarpState → Nat → Except Fault (BitVec 64)}
    {lane : Nat} {w : WarpState} (h : writeLane out value lane w = .error f) :
    (f = .host ∨ f = .undefined) ∨ value w lane = .error f := by
  unfold writeLane at h
  split at h
  next f' hvalue =>
    cases h
    exact .inr hvalue
  · exact .inl (writeRegLane_fault h)

theorem writeLoop_fault {mask : LaneMask} {out : Operand}
    {value : WarpState → Nat → Except Fault (BitVec 64)} {w : WarpState}
    (h : (stepOfLoop (laneLoop mask (writeLane out value) w)).1 = .error f)
    (hvalue : ∀ w lane, value w lane = .error f → f.blamesFlow = false) : f.blamesFlow = false := by
  obtain ⟨lane, w', hbody⟩ := stepOfLoop_fault h
  rcases writeLane_fault hbody with (rfl | rfl) | hfail
  · rfl
  · rfl
  · exact hvalue w' lane hfail

theorem execLanes_fault {mask : LaneMask} {unknown : Fault} {out : Operand}
    {value : WarpState → Nat → Option (BitVec 64)} {w : WarpState}
    (hunknown : unknown.blamesFlow = false)
    (h : (execLanes mask unknown out value w).1 = .error f) : f.blamesFlow = false := by
  refine writeLoop_fault h fun w lane hfail => ?_
  unfold orFault at hfail
  split at hfail
  · cases hfail
    exact hunknown
  · cases hfail

theorem setpStep_fault {uop : MicroOp} {mask : LaneMask} {out a b : Operand} {w : WarpState}
    (h : (setpStep uop mask out a b w).1 = .error f) : f.blamesFlow = false := by
  unfold setpStep at h
  dsimp only at h
  repeat' split at h
  all_goals first
    | cases h; rfl
    | skip
  obtain ⟨lane, w', hbody⟩ := stepOfLoop_fault h
  unfold writePredLane at hbody
  split at hbody
  · cases hbody
    rfl
  · split at hbody
    · cases hbody
    · cases hbody
      rfl

theorem reduceLanes_fault {F : FloatOps} {mask : LaneMask} {a : Operand} {w : WarpState}
    (h : (reduceLanes F mask a w).1 = some f) : f.blamesFlow = false := by
  obtain ⟨lane, sum, hbody⟩ := laneLoopFrom_fault h
  split at hbody
  · cases hbody
    rfl
  · cases hbody

theorem execStep_fault {F : FloatOps} {uop : MicroOp} {w : WarpState}
    (h : (ExecCore.step F uop w).1 = .error f) : f.blamesFlow = false := by
  unfold ExecCore.step at h
  dsimp only at h
  repeat' split at h
  all_goals first
    | cases h <;> rfl
    | exact execLanes_fault rfl h
    | exact setpStep_fault h
    | cases h
  next hreduce => exact reduceLanes_fault (congrArg Prod.fst hreduce)

theorem ldStep_fault {uop : MicroOp} {mask : LaneMask} {out src : Operand} {w : WarpState}
    {mem : MemState} (h : (ldStep uop mask out src w mem).1 = .error f) : f.blamesFlow = false := by
  have hparam : ∀ bytes (w' : WarpState) (lane : Nat),
      (Except.ok (unpackLe bytes) : Except Fault (BitVec 64)) = .error f →
        f.blamesFlow = false := by
    intro bytes w' lane hfail
    cases hfail
  have hglobal : ∀ w' lane, ldGlobalValue src (typeSize uop.attrs.type) mem w' lane = .error f →
      f.blamesFlow = false := by
    intro w' lane hfail
    unfold ldGlobalValue at hfail
    dsimp only at hfail
    repeat' split at hfail
    all_goals cases hfail <;> rfl
  have hlocal : ∀ w' lane, ldLocalValue src (typeSize uop.attrs.type) mem w' lane = .error f →
      f.blamesFlow = false := by
    intro w' lane hfail
    cases hfail
  unfold ldStep at h
  dsimp only at h
  repeat' split at h
  all_goals first
    | cases h <;> rfl
    | exact writeLoop_fault h (hparam _)
    | exact writeLoop_fault h hglobal
    | exact writeLoop_fault h hlocal

theorem stStep_fault {uop : MicroOp} {mask : LaneMask} {dst val : Operand} {w : WarpState}
    {mem : MemState} (h : (stStep uop mask dst val w mem).1 = .error f) :
    f.blamesFlow = false := by
  unfold stStep at h
  dsimp only at h
  repeat' split at h
  all_goals first
    | cases h <;> rfl
    | skip
  · obtain ⟨lane, mem', hbody⟩ := stepOfLoop_fault h
    unfold stGlobalLane at hbody
    dsimp only at hbody
    repeat' split at hbody
    all_goals cases hbody <;> rfl
  · obtain ⟨lane, mem', hbody⟩ := stepOfLoop_fault h
    unfold stLocalLane at hbody
    dsimp only at hbody
    repeat' split at hbody
    all_goals cases hbody <;> rfl

theorem memStep_fault {uop : MicroOp} {w : WarpState} {mem : MemState}
    (h : (MemUnit.step uop w mem).1 = .error f) : f.blamesFlow = false := by
  unfold MemUnit.step at h
  dsimp only at h
  repeat' split at h
  all_goals first
    | cases h <;> rfl
    | exact ldStep_fault h
    | exact stStep_fault h

theorem ctrlUnit_fault {uop : MicroOp} {w : WarpState}
    (h : (ControlUnit.step uop w).1 = .error f) : f.blamesFlow = false := by
  unfold ControlUnit.step at h
  repeat' split at h
  all_goals cases h <;> rfl

/-- A target comes from a branch, which leaves the warp alone. -/
theorem ctrlUnit_branch {uop : MicroOp} {w w' : WarpState} {sr : StepResult} {target : Int}
    (h : ControlUnit.step uop w = (.ok sr, w')) (htarget : sr.nextPc = some target) :
    uop.op = .bra ∧ w' = w := by
  unfold ControlUnit.step at h
  repeat' split at h
  all_goals try (cases h <;> cases htarget)
  exact ⟨‹_›, rfl⟩

theorem predicate_fault {ctx : WarpContext} {inst : InstRecord} {w : WarpState}
    {uops : List MicroOp} (h : predicate ctx inst w uops = .error f) : f.blamesFlow = false := by
  unfold predicate at h
  dsimp only at h
  repeat' split at h
  all_goals first
    | cases h <;> rfl
    | cases h
  next hmask =>
    obtain ⟨lane, m, hbody⟩ := laneLoopFrom_fault (congrArg Prod.fst hmask)
    dsimp only at hbody
    repeat' split at hbody
    all_goals cases hbody <;> rfl

@[simp]
theorem locateFault_blamesFlow (ctx : WarpContext) (inst : InstRecord) (pc : Int) (f : Fault) :
    (locateFault ctx inst pc f).blamesFlow = f.blamesFlow := by
  cases f <;> rfl

end Units

/-! ### Where a path goes -/

/-- A branch among the micro-ops names this target. -/
def BraNames (uops : List MicroOp) (target : Int) : Prop :=
  ∃ u ∈ uops, u.isBra = true ∧ ∃ o : Operand, u.inputs = [o] ∧ o.kind = .imm ∧ o.immI64 = target

/-- What the micro-ops that have run say about where the lanes go that they let through. -/
structure LoopFlow (guard : LaneMask) (w : WarpState) (uops : List MicroOp) (s : IssueState) :
    Prop where
  next : ∀ target, s.nextPc = some target → BraNames uops target
  split : ∀ split, s.split = some split → BraNames uops split.targetPc
    ∧ ∃ lane, w.active.has lane = true ∧ guard.has lane = false
  falls : s.nextPc = none → ∀ lane, s.warp.active.has lane = true → guard.has lane = true →
    ∀ u ∈ uops, u.isBra = false ∧ u.isRet = false

theorem BraNames.append {uops : List MicroOp} {target : Int} (h : BraNames uops target)
    (u : MicroOp) : BraNames (uops ++ [u]) target := by
  obtain ⟨v, hv, hrest⟩ := h
  exact ⟨v, List.mem_append_left _ hv, hrest⟩

section Flow

variable {ctx : WarpContext} {initial : LaneMask} {lanes : Finset Nat} {reconvPc : Int}
  {rest : List SimtFrame} {guard : LaneMask} {w : WarpState} {inst : InstRecord}

/-- The lanes of a path that a mask leaves out. -/
theorem exists_left_out (hws : ctx.warpSize ≤ 32) {active mask : LaneMask}
    (hactive : active.Fits ctx.warpSize) (hmask : mask.Fits ctx.warpSize)
    (h : laneMaskEmpty (laneMaskAnd active (laneMaskNotWidth mask)) = false) :
    ∃ lane, active.has lane = true ∧ mask.has lane = false := by
  obtain ⟨lane, hlane⟩ := laneMaskEmpty_eq_false_iff.mp h
  rw [has_and_not hws hmask.width hactive, Bool.and_eq_true, Bool.not_eq_true'] at hlane
  exact ⟨lane, hlane⟩

theorem LoopFlow.uop (hws : ctx.warpSize ≤ 32) {done : List MicroOp} {u : MicroOp}
    {s s' : IssueState} (h : LoopFlow guard w done s)
    (hrun : RunInv ctx initial lanes reconvPc rest s.warp) (hshrinks : Shrinks w s.warp)
    (hguard : u.guard = guard) (hfits : guard.Fits ctx.warpSize)
    (hstep : uopStep ctx inst u s = (none, s')) : LoopFlow guard w (done ++ [u]) s' := by
  subst hguard
  cases uopStep_effect hrun.notDone hstep with
  | regs hkind hregs =>
      obtain ⟨_, _, _, rfl⟩ := hregs
      refine ⟨fun target ht => (h.next target ht).append u, fun split hsplit => ?_,
        fun hnone lane hlane hg v hv => ?_⟩
      · obtain ⟨hnames, hleft⟩ := h.split split hsplit
        exact ⟨hnames.append u, hleft⟩
      · rcases List.mem_append.mp hv with hv | hv
        · exact h.falls hnone lane hlane hg v hv
        · rw [List.mem_singleton.mp hv]
          simp [MicroOp.isBra, MicroOp.isRet, hkind]
  | ret hkind hop =>
      have hnext : (ctrlRet u s).nextPc = s.nextPc := by
        unfold ctrlRet
        dsimp only
        repeat' split
        all_goals rfl
      refine ⟨fun target ht => (h.next target (hnext ▸ ht)).append u, fun split hsplit => ?_,
        fun _ lane hlane hg => ?_⟩
      · rw [ctrlRet_split] at hsplit
        obtain ⟨hnames, hleft⟩ := h.split split hsplit
        exact ⟨hnames.append u, hleft⟩
      · -- the lanes the guard lets through have returned
        exfalso
        simp only [ctrlRet, hrun.stack] at hlane
        split at hlane
        next hempty =>
          have hnone : laneMaskEmpty (laneMaskAnd s.warp.active u.guard) = true := by
            simpa [laneMaskEmpty] using hempty
          have hboth := laneMaskEmpty_iff.mp hnone lane
          rw [has_laneMaskAnd, hlane, hg] at hboth
          cases hboth
        next =>
          rw [has_and_not hws hrun.activeFits.and.width hrun.activeFits, has_laneMaskAnd,
            hg] at hlane
          simp at hlane
  | idle hkind hop hmask =>
      refine ⟨fun target ht => (h.next target ht).append u, fun split hsplit => ?_,
        fun _ lane hlane hg => ?_⟩
      · obtain ⟨hnames, hleft⟩ := h.split split hsplit
        exact ⟨hnames.append u, hleft⟩
      · have hboth := laneMaskEmpty_iff.mp hmask lane
        rw [has_laneMaskAnd, hlane, hg] at hboth
        cases hboth
  | branch hkind hop hinputs himm hmask hdetect hnext =>
      have hnames : BraNames (done ++ [u]) _ :=
        ⟨u, by simp, by simp [MicroOp.isBra, hkind, hop], _, hinputs, himm, rfl⟩
      refine ⟨fun target ht => ?_, fun split hsplit => ?_, fun hnone => by cases hnone⟩
      · cases ht
        exact hnames
      · cases hdetect with
        | uniform =>
            obtain ⟨hnames', hleft⟩ := h.split split hsplit
            exact ⟨hnames'.append u, hleft⟩
        | diverges hfall hpc hreconv =>
            cases hsplit
            obtain ⟨lane, hlane, hout⟩ := exists_left_out hws hrun.activeFits hfits hfall
            exact ⟨hnames, lane, hshrinks.active lane hlane, hout⟩

/-- A branch that splits the path finds its entry in the table. -/
def SplitsKnown (ctx : WarpContext) (guard : LaneMask) (w : WarpState) (uops : List MicroOp) :
    Prop :=
  ∀ u ∈ uops, u.isBra = true → (∃ lane, w.active.has lane = true ∧ guard.has lane = false) →
    ∃ r, ctx.reconvPc[w.pc.toNat]? = some (some r)

theorem uopStep_fault (hws : ctx.warpSize ≤ 32) {u : MicroOp} {s s' : IssueState} {f : Fault}
    (hrun : RunInv ctx initial lanes reconvPc rest s.warp) (hfits : u.guard.Fits ctx.warpSize)
    (hpc : 0 ≤ s.warp.pc)
    (hknown : u.isBra = true → (∃ lane, s.warp.active.has lane = true ∧ u.guard.has lane = false) →
      ∃ r, ctx.reconvPc[s.warp.pc.toNat]? = some (some r))
    (hstep : uopStep ctx inst u s = (some f, s')) : f.blamesFlow = false := by
  unfold uopStep at hstep
  cases hkind : u.kind with
  | exec =>
      simp only [hkind] at hstep
      split at hstep
      next hexec =>
        cases hstep
        rw [locateFault_blamesFlow]
        exact execStep_fault (congrArg Prod.fst hexec)
      · cases hstep
  | mem =>
      simp only [hkind] at hstep
      split at hstep
      next hmem =>
        cases hstep
        rw [locateFault_blamesFlow]
        exact memStep_fault (congrArg Prod.fst hmem)
      · cases hstep
  | control =>
      simp only [hkind] at hstep
      split at hstep
      · cases hstep
      unfold ctrlStep at hstep
      generalize hunit : ControlUnit.step u s.warp = unit at hstep
      obtain ⟨_ | sr, w'⟩ := unit
      · cases hstep
        rw [locateFault_blamesFlow]
        exact ctrlUnit_fault (congrArg Prod.fst hunit)
      · dsimp only at hstep
        split at hstep
        · cases hstep
        next target htarget =>
          obtain ⟨hbra, rfl⟩ := ctrlUnit_branch hunit htarget
          rw [if_pos hbra] at hstep
          split at hstep
          next hdetect =>
            cases hstep
            -- the split has its entry, so it is recorded
            unfold detectSplit at hdetect
            dsimp only at hdetect
            split at hdetect
            · cases hdetect
            next hboth =>
              rw [Bool.not_eq_true, Bool.or_eq_false_iff] at hboth
              rw [if_neg (by omega)] at hdetect
              obtain ⟨r, hr⟩ := hknown (by simp [MicroOp.isBra, hkind, hbra])
                (exists_left_out hws hrun.activeFits hfits hboth.2)
              rw [hr] at hdetect
              cases hdetect
          next =>
            split at hstep
            next hset =>
              cases hstep
              unfold setNextPc at hset
              repeat' split at hset
              all_goals cases hset <;> rfl
            · cases hstep

theorem uopLoop_flow (hws : ctx.warpSize ≤ 32) {uops done : List MicroOp} {s s' : IssueState}
    {f : Option Fault} (hinv : IssueInv ctx initial lanes reconvPc rest s)
    (hflow : LoopFlow guard w done s) (hshrinks : Shrinks w s.warp) (hpcEq : s.warp.pc = w.pc)
    (hpc : 0 ≤ w.pc) (hguard : ∀ u ∈ uops, u.guard = guard) (hfits : guard.Fits ctx.warpSize)
    (hknown : SplitsKnown ctx guard w uops) (hloop : uopLoop ctx inst uops s = (f, s')) :
    (f = none → LoopFlow guard w (done ++ uops) s')
      ∧ ∀ fault, f = some fault → fault.blamesFlow = false := by
  induction uops generalizing done s with
  | nil =>
      cases hloop
      rw [List.append_nil]
      exact ⟨fun _ => hflow, by simp⟩
  | cons u uops ih =>
      have hu : u.guard = guard := hguard u (by simp)
      rw [uopLoop] at hloop
      split at hloop
      next f' s₁ hstep =>
        cases hloop
        refine ⟨by simp, fun fault hsome => ?_⟩
        cases hsome
        refine uopStep_fault hws hinv.run (hu ▸ hfits) (hpcEq ▸ hpc) (fun hbra hleft => ?_) hstep
        obtain ⟨lane, hlane, hout⟩ := hleft
        rw [hpcEq]
        exact hknown u (by simp) hbra ⟨lane, hshrinks.active lane hlane, hu ▸ hout⟩
      next s₁ hstep =>
        have hinv₁ := (hinv.uop hws (hu ▸ hfits) hstep).2 rfl
        have hflow₁ := hflow.uop hws hinv.run hshrinks hu hfits hstep
        have hshrinks₁ := hshrinks.trans (uopStep_shrinks hinv.run hstep)
        have hpc₁ := (uopStep_effect hinv.run.notDone hstep).pc_done.1
        have hrest := ih hinv₁ hflow₁ hshrinks₁ (hpc₁.trans hpcEq)
          (fun v hv => hguard v (by simp [hv])) (fun v hv => hknown v (by simp [hv])) hloop
        rwa [List.append_assoc, List.singleton_append] at hrest

end Flow

/-! ### Kernels whose paths stay inside -/

/-- Every branch names an instruction, and the last instruction leads nowhere else. -/
structure FlowStays (ctx : WarpContext) : Prop where
  targets : ∀ inst ∈ ctx.kernel.insts, ∀ desc, ctx.registry.lookup inst = some desc →
    ∀ target, BraNames (expand inst desc ctx.warpSize) target → 0 ≤ target ∧ target < ctx.exitPc
  lastLeaves : ∀ inst, ctx.kernel.insts[ctx.nInsts - 1]? = some inst →
    ∀ info, classifyInst inst ctx.registry ctx.warpSize = some info →
      info.isPredicated = false ∧ (info.hasBra = true ∨ info.hasRet = true)

/-- Every frame with a live lane is at an instruction. -/
def PcsIn (ctx : WarpContext) (exited : LaneMask) (fs : List SimtFrame) : Prop :=
  ∀ f ∈ fs, ∀ lane, f.holds exited lane = true → 0 ≤ f.pc ∧ f.pc < ctx.exitPc

section Stays

variable {ctx : WarpContext} {initial : LaneMask} {w : WarpState} {inst : InstRecord}
  {desc : InstDesc} {guard : LaneMask}

theorem BraNames.expand {target : Int} (h : BraNames (guardedUops ctx inst desc guard) target) :
    BraNames (expand inst desc ctx.warpSize) target := by
  obtain ⟨u, hu, hbra, hreads⟩ := h
  obtain ⟨v, hv, rfl⟩ := List.mem_map.mp hu
  exact ⟨v, hv, hbra, hreads⟩

/-- A lane of the path that the guard leaves out has a false predicate. -/
theorem Decoded.predicated_of_left_out (hws : ctx.warpSize ≤ 32) (h : Decoded ctx w inst desc guard)
    (hactive : w.active.Fits ctx.warpSize) {lane : Nat} (hlane : w.active.has lane = true)
    (hout : guard.has lane = false) : inst.pred.isSome = true := by
  cases hpred : inst.pred with
  | some => rfl
  | none =>
      rw [h.guarded.unpredicated hpred, has_laneMaskAll hws,
        decide_eq_true (hactive.lt lane hlane)] at hout
      cases hout

theorem Decoded.splitsKnown (hws : ctx.warpSize ≤ 32)
    (hanalysis : analyzeControlFlow ctx.kernel ctx.registry ctx.warpSize = .ok ctx.reconvPc)
    (h : Decoded ctx w inst desc guard) (hactive : w.active.Fits ctx.warpSize) :
    SplitsKnown ctx guard w (guardedUops ctx inst desc guard) := by
  rintro u hu hbra ⟨lane, hlane, hout⟩
  obtain ⟨info, hinfo, hpred, -, hhasBra, -⟩ := h.classify
  obtain ⟨pd, _, hinsts⟩ := analyzeControlFlow_ok hanalysis
  have hentry := (hinsts _ _ h.fetched).2
  have hhas : info.hasBra = true := by
    rw [hhasBra, List.any_eq_true]
    exact ⟨u, hu, hbra⟩
  have hisBra : isPredicatedBra (classifyInst inst ctx.registry ctx.warpSize) = true := by
    rw [hinfo]
    change (info.hasBra && info.isPredicated) = true
    rw [hhas, hpred, h.predicated_of_left_out hws hactive hlane hout]
    rfl
  rw [if_pos hisBra] at hentry
  obtain ⟨c, -, hc, -⟩ := hentry
  exact ⟨c, hc⟩

/-- The next instruction exists, where control can fall through to it. -/
theorem Decoded.next_lt (hstays : FlowStays ctx) (h : Decoded ctx w inst desc guard)
    (hfalls : inst.pred.isSome = true ∨ ∀ u ∈ guardedUops ctx inst desc guard,
      u.isBra = false ∧ u.isRet = false) : w.pc + 1 < ctx.exitPc := by
  by_contra hge
  have hlt : w.pc.toNat < ctx.nInsts := (List.getElem?_eq_some_iff.mp h.fetched).1
  have hnonneg := h.pcNonneg
  rw [WarpContext.exitPc] at hge
  obtain hlast : w.pc.toNat = ctx.nInsts - 1 := by omega
  obtain ⟨info, hinfo, hpred, hret, hbra, -⟩ := h.classify
  obtain ⟨hunpred, hleaves⟩ := hstays.lastLeaves inst (hlast ▸ h.fetched) info hinfo
  rcases hfalls with hsome | hnone
  · rw [← hpred, hunpred] at hsome
    cases hsome
  · rcases hleaves with hhas | hhas
    · rw [hbra, List.any_eq_true] at hhas
      obtain ⟨u, hu, hubra⟩ := hhas
      rw [(hnone u hu).1] at hubra
      cases hubra
    · rw [hret, List.any_eq_true] at hhas
      obtain ⟨u, hu, huret⟩ := hhas
      rw [(hnone u hu).2] at huret
      cases huret

variable {lanes : Finset Nat} {reconvPc : Int} {rest : List SimtFrame} {w' : WarpState}
  {mem mem' : MemState}

theorem guards_fit (h : Decoded ctx w inst desc guard) :
    ∀ u ∈ guardedUops ctx inst desc guard, u.guard.Fits ctx.warpSize := by
  intro u hu
  rw [guard_of_mem_guardedUops hu]
  exact h.guarded.fits

/-- The micro-ops of an issue. -/
theorem Decoded.loop_flow (hws : ctx.warpSize ≤ 32)
    (hanalysis : analyzeControlFlow ctx.kernel ctx.registry ctx.warpSize = .ok ctx.reconvPc)
    (hrun : RunInv ctx initial lanes reconvPc rest w) (h : Decoded ctx w inst desc guard)
    {f : Option Fault} {s : IssueState}
    (hloop : uopLoop ctx inst (guardedUops ctx inst desc guard) { warp := w, mem := mem }
      = (f, s)) :
    (f = none → LoopFlow guard w (guardedUops ctx inst desc guard) s)
      ∧ ∀ fault, f = some fault → fault.blamesFlow = false := by
  have hstart : LoopFlow guard w [] { warp := w, mem := mem } := ⟨by simp, by simp, by simp⟩
  exact uopLoop_flow hws ⟨hrun, by simp⟩ hstart (Shrinks.refl w) rfl h.pcNonneg
    (fun u => guard_of_mem_guardedUops) h.guarded.fits (h.splitsKnown hws hanalysis hrun.activeFits)
    hloop

/-- A path at an instruction moves to instructions. -/
theorem issueInst_pcsIn (hws : ctx.warpSize ≤ 32)
    (hanalysis : analyzeControlFlow ctx.kernel ctx.registry ctx.warpSize = .ok ctx.reconvPc)
    (hstays : FlowStays ctx) (hrun : RunInv ctx initial lanes reconvPc rest w)
    (hpcs : PcsIn ctx w.exited w.simtStack) {issue : Issue}
    (hissue : issueInst ctx w mem = (.ok issue, w', mem')) :
    PcsIn ctx w'.exited w'.simtStack := by
  obtain ⟨inst, desc, guard, s, hdecoded, hloop, -, rfl, -⟩ := issueInst_ok hws hissue
  have hflow := (hdecoded.loop_flow hws hanalysis hrun hloop).1 rfl
  have hstart : IssueInv ctx initial lanes reconvPc rest { warp := w, mem := mem } :=
    ⟨hrun, by simp⟩
  have hend := (hstart.loop hws (guards_fit hdecoded) hloop).1
  have hshrinks := uopLoop_shrinks hws (guards_fit hdecoded) hstart hloop
  have hpcEq : s.warp.pc = w.pc := (split_reconvPc hrun.notDone (by simp) hloop).1
  have htarget : ∀ target, BraNames (guardedUops ctx inst desc guard) target →
      0 ≤ target ∧ target < ctx.exitPc := fun target hnames =>
    hstays.targets inst (List.mem_of_getElem? hdecoded.fetched) desc hdecoded.looked target
      hnames.expand
  have hnonneg := hdecoded.pcNonneg
  have hrest : PcsIn ctx s.warp.exited rest := by
    intro f hf lane hlane
    refine hpcs f ?_ lane (holds_of_holds (hshrinks.exited lane) hlane)
    rw [hrun.stack]
    exact List.mem_cons_of_mem _ hf
  cases hs : s.split with
  | none =>
      rw [commit_uniform hend.notDone hend.stack]
      intro f hf lane hlane
      rcases List.mem_cons.mp hf with rfl | hf
      · rw [SimtFrame.holds, Bool.and_eq_true] at hlane
        change 0 ≤ s.nextPc.getD (s.warp.pc + 1) ∧ s.nextPc.getD (s.warp.pc + 1) < ctx.exitPc
        cases hnext : s.nextPc with
        | some target => exact htarget target (hflow.next target hnext)
        | none =>
            have hactive := hshrinks.active lane hlane.1
            have hlt : w.pc + 1 < ctx.exitPc := by
              refine hdecoded.next_lt hstays ?_
              cases hg : guard.has lane with
              | true => exact .inr (hflow.falls hnext lane hlane.1 hg)
              | false => exact .inl (hdecoded.predicated_of_left_out hws hrun.activeFits hactive hg)
            rw [Option.getD_none, hpcEq]
            exact ⟨by omega, hlt⟩
      · exact hrest f hf lane hlane
  | some split =>
      rw [commit_split hend.notDone hend.stack]
      obtain ⟨hnames, lane₀, hlane₀, hout⟩ := hflow.split split hs
      have hlt : w.pc + 1 < ctx.exitPc :=
        hdecoded.next_lt hstays
          (.inl (hdecoded.predicated_of_left_out hws hrun.activeFits hlane₀ hout))
      intro f hf lane hlane
      simp only [splitFrames, List.cons_append, List.nil_append, List.mem_cons] at hf
      rcases hf with rfl | rfl | rfl | hf
      · exact htarget _ hnames
      · rw [hpcEq]
        exact ⟨show 0 ≤ w.pc + 1 by omega, hlt⟩
      · simp [SimtFrame.holds, LaneMask.has] at hlane
      · exact hrest f hf lane hlane

/-- A path at an instruction reports no control-flow fault. -/
theorem issueInst_fault (hws : ctx.warpSize ≤ 32)
    (hanalysis : analyzeControlFlow ctx.kernel ctx.registry ctx.warpSize = .ok ctx.reconvPc)
    (hrun : RunInv ctx initial lanes reconvPc rest w) (hpc : 0 ≤ w.pc ∧ w.pc < ctx.exitPc)
    {f : Fault} (hissue : issueInst ctx w mem = (.error f, w', mem')) : f.blamesFlow = false := by
  unfold issueInst at hissue
  rw [if_neg (by omega)] at hissue
  split at hissue
  next hnone =>
    have hge := List.getElem?_eq_none_iff.mp hnone
    rw [WarpContext.exitPc, WarpContext.nInsts] at hpc
    omega
  next inst hinst =>
    split at hissue
    · cases hissue
      rfl
    next desc hdesc =>
      split at hissue
      next hpredicate =>
        cases hissue
        exact predicate_fault hpredicate
      next uops huops =>
        obtain ⟨guard, hguard, rfl⟩ := predicate_ok hws huops
        have hdecoded : Decoded ctx w inst desc guard := ⟨hpc.1, hinst, hdesc, hguard⟩
        split at hissue
        next hloop =>
          cases hissue
          exact (hdecoded.loop_flow hws hanalysis hrun hloop).2 _ rfl
        · cases hissue

/-! ### Steps and runs -/

theorem PcsIn.pop {exited : LaneMask} {f : SimtFrame} {fs : List SimtFrame}
    (h : PcsIn ctx exited (f :: fs)) : PcsIn ctx exited fs :=
  fun g hg => h g (List.mem_cons_of_mem _ hg)

/-- The join an arrived path is merged into waits where the path is. -/
theorem PcsIn.merge {exited arrived : LaneMask} {f : SimtFrame} {fs fs' : List SimtFrame}
    (h : PcsIn ctx exited (f :: fs)) (hlive : ∃ lane, f.holds exited lane = true)
    (hmerge : mergeIntoJoin f.pc arrived fs = some fs') : PcsIn ctx exited fs' := by
  obtain ⟨above, join, below, rfl, -, -, hpc, rfl⟩ := mergeIntoJoin_eq_some hmerge
  obtain ⟨lane₀, hlane₀⟩ := hlive
  intro g hg lane hlane
  rcases List.mem_append.mp hg with hg | hg
  · exact h g (by simp [hg]) lane hlane
  · rcases List.mem_cons.mp hg with rfl | hg
    · change 0 ≤ join.pc ∧ join.pc < ctx.exitPc
      rw [hpc]
      exact h f (by simp) lane₀ hlane₀
    · exact h g (by simp [hg]) lane hlane

/-- A warp whose live paths are at instructions. -/
structure FlowInv (ctx : WarpContext) (initial : LaneMask) (w : WarpState) : Prop where
  warp : WarpInv ctx initial w
  pcs : PcsIn ctx w.exited w.simtStack

theorem FlowInv.stopsAt (hws : ctx.warpSize ≤ 32) (h : FlowInv ctx initial w) :
    (normalizeFrames w.exited w.simtStack.length w.simtStack).StopsAt
      (fun fs => StackInv ctx initial w.exited fs ∧ PcsIn ctx w.exited fs) w.exited := by
  have hwidth := h.warp.exitedFits.width
  exact normalizeFrames_stopsAt
    (fun f fs hfs hempty => ⟨hfs.1.pop hws hwidth hempty, hfs.2.pop⟩)
    (fun f fs fs' hfs hlive hpath hpc hmerge =>
      ⟨hfs.1.merge hws hwidth hlive hpath hpc hmerge, hfs.2.merge
        ((refresh_nonempty_iff hws hwidth (hfs.1.framesFit f (by simp))).mp hlive) hmerge⟩)
    le_rfl ⟨h.warp.stack, h.pcs⟩

/-- A path that has arrived finds a join that waits for it. -/
theorem FlowInv.finds_join (hws : ctx.warpSize ≤ 32) (h : FlowInv ctx initial w) (reconvPc : Int)
    (rest : List SimtFrame) :
    normalizeFrames w.exited w.simtStack.length w.simtStack ≠ .invalid reconvPc rest := by
  intro heq
  have hstop := h.stopsAt hws
  rw [heq] at hstop
  obtain ⟨f, ⟨hfs, hpcs⟩, hlive, hpath, hpc, -, hmerge⟩ := hstop
  obtain ⟨lane, hlane⟩ :=
    (refresh_nonempty_iff hws h.warp.exitedFits.width (hfs.framesFit f (by simp))).mp hlive
  have hne := (LaneMask.lanes_nonempty_iff.mpr hlive).mono lanes_refresh_subset
  obtain ⟨lanes, -, -, hbelow⟩ := hfs.nested.path_below hpath hne
  rw [hpc] at hmerge
  have hexit := (hbelow.eq_nil hmerge).2
  have hlt := (hpcs f (by simp) lane hlane).2
  omega

theorem FlowInv.ready (hws : ctx.warpSize ≤ 32) (hdone : w.done = false)
    (h : FlowInv ctx initial w) (hnormalize : normalizeStack ctx w = (.ok .ready, w')) :
    ∃ lanes reconvPc rest, RunInv ctx initial lanes reconvPc rest w'
      ∧ PcsIn ctx w'.exited w'.simtStack ∧ 0 ≤ w'.pc ∧ w'.pc < ctx.exitPc := by
  obtain ⟨lanes, reconvPc, rest, hrun⟩ := normalizeStack_ready hws hdone h.warp hnormalize
  refine ⟨lanes, reconvPc, rest, hrun, ?_⟩
  have hstop := h.stopsAt hws
  have hwidth := h.warp.exitedFits.width
  unfold normalizeStack at hnormalize
  split at hnormalize
  next top rest' joined heq =>
    rw [heq] at hstop
    cases hnormalize
    obtain ⟨f, ⟨hfs, hpcs⟩, rfl, -, hlive, -⟩ := hstop
    have hf := hfs.framesFit f (by simp)
    obtain ⟨lane, hlane⟩ := (refresh_nonempty_iff hws hwidth hf).mp hlive
    have hpc := hpcs f (by simp) lane hlane
    refine ⟨fun g hg lane hlane => ?_, hpc⟩
    rcases List.mem_cons.mp hg with rfl | hg
    · exact hpc
    · exact hpcs g (by simp [hg]) lane hlane
  · cases hnormalize
  · cases hnormalize

/-- **The step lemma.** A step keeps the live paths at instructions, and reports no control-flow
fault. -/
theorem warpStep_flow (hws : ctx.warpSize ≤ 32)
    (hanalysis : analyzeControlFlow ctx.kernel ctx.registry ctx.warpSize = .ok ctx.reconvPc)
    (hstays : FlowStays ctx) (hdone : w.done = false) (h : FlowInv ctx initial w)
    {r : Except Fault StepOutcome} (hstep : warpStep ctx w mem = (r, w', mem')) :
    (∀ f, r = .error f → f.blamesFlow = false)
      ∧ ∀ issue, r = .ok (.issued issue) → FlowInv ctx initial w' := by
  constructor
  · rintro f rfl
    rcases warpStep_error hstep with hnormalize | ⟨w₁, hnormalize, hissue⟩
    · unfold normalizeStack at hnormalize
      split at hnormalize
      · cases hnormalize
      · cases hnormalize
      next heq => exact absurd heq (h.finds_join hws _ _)
    · obtain ⟨lanes, reconvPc, rest, hrun, -, hpc⟩ := h.ready hws hdone hnormalize
      exact issueInst_fault hws hanalysis hrun hpc hissue
  · rintro issue rfl
    have hinv := warpStep_inv hws h.warp hdone hstep (by simp)
    obtain ⟨w₁, hnormalize, hissue⟩ := warpStep_issued hstep
    obtain ⟨lanes, reconvPc, rest, hrun, hpcs, -⟩ := h.ready hws hdone hnormalize
    exact ⟨hinv, issueInst_pcsIn hws hanalysis hstays hrun hpcs hissue⟩

theorem warpRun_flow (hws : ctx.warpSize ≤ 32)
    (hanalysis : analyzeControlFlow ctx.kernel ctx.registry ctx.warpSize = .ok ctx.reconvPc)
    (hstays : FlowStays ctx) {w₀ : WarpState} {trace : List Issue} (h₀ : FlowInv ctx initial w₀)
    (hrun : WarpRun ctx w₀ trace w) (hdone : w.done = false) : FlowInv ctx initial w := by
  induction hrun with
  | start => exact h₀
  | issue hrun hdone' _ hstep ih =>
      exact (warpStep_flow hws hanalysis hstays hdone' (ih hdone') hstep).2 _ rfl
  | retire hrun hdone' _ hstep ih =>
      have hretired := normalizeStack_retired hws (ih hdone').warp (warpStep_retired hstep).1
      rw [hretired.2.1] at hdone
      cases hdone

end Stays

/-- **No spurious reconvergence failure.** Where every branch of a kernel names an instruction and
its last instruction leads nowhere else, no step of a warp of a launch reports a control-flow fault,
and a path that has arrived at its reconvergence point finds its join. -/
theorem no_reconvergence_fault {cfg : SimConfig} {ctx : WarpContext} {launch : LaunchConfig}
    {plan : LaunchPlan} {item : CtaWorkItem} {w : BitVec 32} {trace : List Issue}
    {warp : WarpState} (hplan : checkLaunch cfg ctx.kernel launch = .ok plan)
    (hws : ctx.warpSize = plan.warpSize) (hw : w.toNat < plan.warpCount)
    (hanalysis : analyzeControlFlow ctx.kernel ctx.registry ctx.warpSize = .ok ctx.reconvPc)
    (hstays : FlowStays ctx) (hpos : 0 < ctx.nInsts)
    (hrun : WarpRun ctx (initWarp ctx.kernel launch plan item w) trace warp)
    (hdone : warp.done = false) :
    (∀ mem f, (warpStep ctx warp mem).1 = .error f → f.blamesFlow = false)
      ∧ ∀ reconvPc rest,
          normalizeFrames warp.exited warp.simtStack.length warp.simtStack
            ≠ .invalid reconvPc rest := by
  have hchecked := checkLaunch_ok hplan
  have hws32 : ctx.warpSize ≤ 32 := hws ▸ hchecked.warpSizeLe
  have hinit : FlowInv ctx (initWarp ctx.kernel launch plan item w).active
      (initWarp ctx.kernel launch plan item w) := by
    refine ⟨initWarp_inv hchecked hw hws item, fun f hf lane hlane => ?_⟩
    rw [List.mem_singleton.mp hf]
    exact ⟨le_rfl, Int.natCast_pos.mpr hpos⟩
  have hinv := warpRun_flow hws32 hanalysis hstays hinit hrun hdone
  refine ⟨fun mem f hf => ?_, hinv.finds_join hws32⟩
  exact (warpStep_flow hws32 hanalysis hstays hdone hinv (Prod.ext hf rfl)).1 f rfl

/-! ### A kernel without instructions -/

def emptyCtx : WarpContext where
  kernel := {}
  registry := demoDescs
  warpSize := 1
  reconvPc := []
  floatOps := .unused

def oneLanePlan : LaunchPlan where
  threadsPerBlock := 1
  warpSize := 1
  warpCount := 1
  smCount := 1
  ctaSched := .fifo
  warpSched := .inOrderRunToCompletion

/-- Its one path starts at the exit, where no join waits. -/
theorem empty_kernel_faults :
    checkLaunch {} emptyCtx.kernel { warpSize := 1 } = .ok oneLanePlan
      ∧ analyzeControlFlow emptyCtx.kernel emptyCtx.registry emptyCtx.warpSize
        = .ok emptyCtx.reconvPc
      ∧ FlowStays emptyCtx
      ∧ ¬ ∀ trace warp, WarpRun emptyCtx
            (initWarp emptyCtx.kernel { warpSize := 1 } oneLanePlan {} 0) trace warp →
          warp.done = false → ∀ mem f, (warpStep emptyCtx warp mem).1 = .error f →
            f.blamesFlow = false := by
  refine ⟨by decide, by decide, ⟨by simp [emptyCtx], by simp [emptyCtx]⟩, fun hclaim => ?_⟩
  have hfault := hclaim [] _ .start rfl {} _ rfl
  revert hfault
  decide

/-- After the split one path has arrived, and the other lane waits in the join. -/
theorem no_reconvergence_fault_one_join :
    (threeLaneWarp oneJoinCtx 4).simtStack
        = [⟨4, ⟨3, 6⟩, 4, false⟩, ⟨4, ⟨3, 1⟩, 5, true⟩]
      ∧ (∀ mem f, (warpStep oneJoinCtx (threeLaneWarp oneJoinCtx 4) mem).1 = .error f →
          f.blamesFlow = false)
      ∧ ∀ reconvPc rest, normalizeFrames (threeLaneWarp oneJoinCtx 4).exited
          (threeLaneWarp oneJoinCtx 4).simtStack.length (threeLaneWarp oneJoinCtx 4).simtStack
            ≠ .invalid reconvPc rest := by
  have htargets : ∀ inst ∈ oneJoinCtx.kernel.insts, ∀ desc, demoDescs.lookup inst = some desc →
      (expand inst desc 3).all (fun u => u.inputs.all fun o =>
        !u.isBra || (decide (0 ≤ o.immI64) && decide (o.immI64 < 5))) = true := by
    have hall : ∀ inst ∈ oneJoinCtx.kernel.insts, (demoDescs.lookup inst).all (fun desc =>
        (expand inst desc 3).all (fun u => u.inputs.all fun o =>
          !u.isBra || (decide (0 ≤ o.immI64) && decide (o.immI64 < 5)))) = true := by decide
    intro inst hinst desc hdesc
    have hinst := hall inst hinst
    rwa [hdesc] at hinst
  have hstays : FlowStays oneJoinCtx := by
    constructor
    · rintro inst hinst desc hdesc target ⟨u, hu, hbra, o, hinputs, -, rfl⟩
      have hu := List.all_eq_true.mp (htargets inst hinst desc hdesc) u hu
      rw [hinputs] at hu
      have hrange : 0 ≤ o.immI64 ∧ o.immI64 < 5 := by simpa [hbra] using hu
      exact hrange
    · intro inst hinst info hinfo
      cases hinst
      cases hinfo
      exact ⟨rfl, .inr rfl⟩
  have hplan : checkLaunch {} oneJoinCtx.kernel threeLaneLaunch = .ok threeLanePlan := by decide
  have hrun : WarpRun oneJoinCtx (threeLaneWarp oneJoinCtx 0)
      [⟨3, ⟨3, 6⟩, ⟨3, 0⟩, none⟩, ⟨2, ⟨3, 7⟩, ⟨3, 0⟩, some ⟨2, 4, 4, ⟨3, 1⟩, ⟨3, 6⟩⟩⟩,
        ⟨1, ⟨3, 7⟩, ⟨3, 0⟩, none⟩, ⟨0, ⟨3, 7⟩, ⟨3, 0⟩, none⟩] (threeLaneWarp oneJoinCtx 4) := by
    iterate 4
      refine threeLaneWarp_issue ?_ trivial (by decide) (by decide)
    exact .start
  exact ⟨by decide, no_reconvergence_fault hplan rfl (by decide) (by decide) hstays (by decide) hrun
    (by decide)⟩

end ProtoGpu

import ProtoGpu.Proof.CheckedUnits
import ProtoGpu.Proof.Convergence

/-!
# Micro-ops of the shapes that units take

Each unit takes the operations it has, with operands of certain numbers and kinds. A micro-op of
such a shape may still fault, on a flag, a type, a space or an access. It does not fault on what a
table of descriptors has put together.
-/

namespace ProtoGpu

/-! ### Shapes -/

/-- The diagnostics that the tables answer for. -/
def tableCodes : List String :=
  ["E_DESC_MISS", "E_UOP_ARITY", "E_UOP_UNSUPPORTED", "E_OPERAND_KIND", "E_SPECIAL_UNKNOWN",
    "E_NEXT_PC_CONFLICT"]

def Fault.blamesTables : Fault → Bool
  | .host => false
  | .undefined => false
  | .diag d => tableCodes.elem d.code

def kindName (o : Operand) : String := operandKindToString o.kind

/-- The operands a unit takes for an operation, by their kinds. -/
def unitTakes (kind : MicroOpKind) (op : MicroOpOp) (outs ins : List String) : Bool :=
  match kind with
  | .exec =>
      match op with
      | .mov => outs.length == 1 && ins.length == 1
      | .cvt => outs.length == 1 && ins.length == 1
      | .add => outs.length == 1 && ins.length == 2
      | .mul => outs.length == 1 && ins.length == 2
      | .shl => outs.length == 1 && ins.length == 2
      | .shfl => outs.length == 1 && ins.length == 4
      | .fma => outs.length == 1 && ins.length == 3
      | .warpReduceAdd => outs.length == 1 && ins.length == 1
      | .setp => outs == ["pred"] && ins.length == 2
      | _ => false
  | .mem =>
      match op with
      | .ld => outs.length == 1 && ins.length == 1
      | .st => outs.isEmpty && ins.length == 2
      | _ => false
  | .control =>
      match op with
      | .ret => true
      | .bra => ins == ["imm"]
      | _ => false

/-! ### Micro-ops that their units take -/

/-- A unit takes the operands of the micro-op. -/
structure MicroOp.Taken (u : MicroOp) : Prop where
  shape : unitTakes u.kind u.op (u.outputs.map kindName) (u.inputs.map kindName) = true
  readable : ∀ o ∈ u.inputs, o.readable = true
  preds : ∀ o ∈ u.outputs, o.kind = .pred → 0 ≤ o.predId

theorem kind_of_kindName {o : Operand} {k : OperandKind} (h : kindName o = operandKindToString k) :
    o.kind = k := by
  have hinj : ∀ k k', operandKindToString k = operandKindToString k' → k = k' := by
    intro k k' hkk'
    cases k <;> cases k' <;> first | rfl | exact absurd hkk' (by decide)
  exact hinj _ _ h

section Units

variable {w : WarpState} {mask : LaneMask} {u : MicroOp} {out src dst val a b : Operand}
  {lane : Nat}
  {mem : MemState}

theorem blameless_of_isAccess {f : Fault} (h : f.isAccess = true) : f.blamesTables = false := by
  cases f with
  | host => rfl
  | undefined => rfl
  | diag d =>
      rw [Fault.isAccess, Bool.and_eq_true, Bool.or_eq_true, beq_iff_eq, beq_iff_eq, beq_iff_eq]
        at h
      rcases h.2 with hcode | hcode
      · rw [Fault.blamesTables, hcode]
        decide
      · rw [Fault.blamesTables, hcode]
        decide

/-- A loop over the lanes whose turns do not blame the tables. -/
theorem laneLoop_blameless {σ : Type} {body : Nat → σ → Except Fault σ}
    (hbody : ∀ lane s f, body lane s = .error f → f.blamesTables = false) (s : σ) :
    ∀ f, (stepOfLoop (laneLoop mask body s)).1 = .error f → f.blamesTables = false := by
  refine (stepOfLoop_sound (P := fun _ => True) (fun lane s _ => ?_) trivial).2
  cases hturn : body lane s with
  | ok s' => exact .inl ⟨s', rfl, trivial⟩
  | error f => exact .inr ⟨f, rfl, hbody lane s f hturn⟩

theorem writeLoop_blameless {value : WarpState → Nat → Except Fault (BitVec 64)}
    (hvalue : ∀ w lane f, value w lane = .error f → f.blamesTables = false) :
    ∀ f, (stepOfLoop (laneLoop mask (writeLane out value) w)).1 = .error f →
      f.blamesTables = false := by
  refine laneLoop_blameless (fun lane s f h => ?_) w
  unfold writeLane at h
  split at h
  next hfault =>
    cases h
    exact hvalue s lane f hfault
  · rcases writeRegLane_fault h with rfl | rfl
    · rfl
    · rfl

theorem execLanes_blameless {unknown : Fault} {value : WarpState → Nat → Option (BitVec 64)}
    (hvalue : ∀ w lane, ∃ v, value w lane = some v) :
    ∀ f, (execLanes mask unknown out value w).1 = .error f → f.blamesTables = false := by
  refine writeLoop_blameless fun w lane f h => ?_
  obtain ⟨v, hv⟩ := hvalue w lane
  rw [hv] at h
  cases h

theorem setpStep_blameless (hkind : out.kind = .pred) (hpred : 0 ≤ out.predId)
    (ha : a.readable = true) (hb : b.readable = true) :
    ∀ f, (setpStep u mask out a b w).1 = .error f → f.blamesTables = false := by
  intro f hf
  unfold setpStep at hf
  rw [if_neg (not_or.mpr ⟨not_not.mpr hkind, Int.not_lt.mpr hpred⟩)] at hf
  dsimp only at hf
  split at hf
  · cases hf
    rfl
  split at hf
  · cases hf
    rfl
  split at hf
  · cases hf
    rfl
  · refine laneLoop_blameless (fun lane s f h => ?_) w f hf
    obtain ⟨v, hv⟩ := setpValue_returns s lane (setpCmp u.attrs.flags)
      (decide (u.attrs.type = .s32 ∨ u.attrs.type = .s64)) ha hb
    rw [writePredLane, hv] at h
    dsimp only at h
    split at h
    · cases h
    · cases h
      rfl

theorem execStep_blameless (F : FloatOps) (hkind : u.kind = .exec) (htaken : u.Taken) :
    ∀ f, (ExecCore.step F u w).1 = .error f → f.blamesTables = false := by
  obtain ⟨hshape, hreads, hpreds⟩ := htaken
  unfold ExecCore.step
  split
  · exact fun f hf => by cases hf
  dsimp only
  cases hop : u.op with
  | mov =>
      simp only [unitTakes, hkind, hop, Bool.and_eq_true, beq_iff_eq, List.length_map] at hshape
      obtain ⟨out, hout⟩ := List.length_eq_one_iff.mp hshape.1
      obtain ⟨a, hin⟩ := List.length_eq_one_iff.mp hshape.2
      simp only [hout, hin, List.forall_mem_cons] at hreads ⊢
      exact execLanes_blameless fun w lane => unaryValue_returns id hreads.1
  | cvt =>
      simp only [unitTakes, hkind, hop, Bool.and_eq_true, beq_iff_eq, List.length_map] at hshape
      obtain ⟨out, hout⟩ := List.length_eq_one_iff.mp hshape.1
      obtain ⟨a, hin⟩ := List.length_eq_one_iff.mp hshape.2
      simp only [hout, hin, List.forall_mem_cons] at hreads ⊢
      split
      · exact fun f hf => by cases hf; rfl
      · exact execLanes_blameless fun w lane => unaryValue_returns _ hreads.1
  | add =>
      simp only [unitTakes, hkind, hop, Bool.and_eq_true, beq_iff_eq, List.length_map] at hshape
      obtain ⟨out, hout⟩ := List.length_eq_one_iff.mp hshape.1
      obtain ⟨a, b, hin⟩ := List.length_eq_two.mp hshape.2
      simp only [hout, hin, List.forall_mem_cons] at hreads ⊢
      split
      · exact execLanes_blameless fun w lane => binaryValue_returns _ hreads.1 hreads.2.1
      · exact execLanes_blameless fun w lane => binaryValue_returns _ hreads.1 hreads.2.1
  | mul =>
      simp only [unitTakes, hkind, hop, Bool.and_eq_true, beq_iff_eq, List.length_map] at hshape
      obtain ⟨out, hout⟩ := List.length_eq_one_iff.mp hshape.1
      obtain ⟨a, b, hin⟩ := List.length_eq_two.mp hshape.2
      simp only [hout, hin, List.forall_mem_cons] at hreads ⊢
      split
      · exact execLanes_blameless fun w lane => binaryValue_returns _ hreads.1 hreads.2.1
      · exact execLanes_blameless fun w lane => binaryValue_returns _ hreads.1 hreads.2.1
  | shl =>
      simp only [unitTakes, hkind, hop, Bool.and_eq_true, beq_iff_eq, List.length_map] at hshape
      obtain ⟨out, hout⟩ := List.length_eq_one_iff.mp hshape.1
      obtain ⟨a, b, hin⟩ := List.length_eq_two.mp hshape.2
      simp only [hout, hin, List.forall_mem_cons] at hreads ⊢
      exact execLanes_blameless fun w lane => binaryValue_returns _ hreads.1 hreads.2.1
  | shfl =>
      simp only [unitTakes, hkind, hop, Bool.and_eq_true, beq_iff_eq, List.length_map] at hshape
      obtain ⟨out, hout⟩ := List.length_eq_one_iff.mp hshape.1
      obtain ⟨a, b, c, d, hin⟩ := List.length_eq_four.mp hshape.2
      simp only [hout, hin, List.forall_mem_cons] at hreads ⊢
      obtain ⟨ha, hb, hc, hd, -⟩ := hreads
      split
      · exact fun f hf => by cases hf; rfl
      · exact execLanes_blameless fun w lane => shflValue_returns _ _ ha hb hc hd
  | fma =>
      simp only [unitTakes, hkind, hop, Bool.and_eq_true, beq_iff_eq, List.length_map] at hshape
      obtain ⟨out, hout⟩ := List.length_eq_one_iff.mp hshape.1
      obtain ⟨a, b, c, hin⟩ := List.length_eq_three.mp hshape.2
      simp only [hout, hin, List.forall_mem_cons] at hreads ⊢
      obtain ⟨ha, hb, hc, -⟩ := hreads
      split
      · exact fun f hf => by cases hf; rfl
      · exact execLanes_blameless fun w lane => ternaryValue_returns _ ha hb hc
  | warpReduceAdd =>
      simp only [unitTakes, hkind, hop, Bool.and_eq_true, beq_iff_eq, List.length_map] at hshape
      obtain ⟨out, hout⟩ := List.length_eq_one_iff.mp hshape.1
      obtain ⟨a, hin⟩ := List.length_eq_one_iff.mp hshape.2
      simp only [hout, hin, List.forall_mem_cons] at hreads ⊢
      split
      · exact fun f hf => by cases hf; rfl
      · obtain ⟨sum, hsum⟩ := reduceLanes_returns F (laneMaskAnd w.active u.guard) w hreads.1
        rw [hsum]
        exact execLanes_blameless fun w lane => ⟨_, rfl⟩
  | setp =>
      simp only [unitTakes, hkind, hop, Bool.and_eq_true, beq_iff_eq, List.length_map] at hshape
      obtain ⟨out, hout, hname⟩ := List.map_eq_singleton_iff.mp hshape.1
      obtain ⟨a, b, hin⟩ := List.length_eq_two.mp hshape.2
      simp only [hout, hin, List.forall_mem_cons] at hreads hpreds ⊢
      have hpred : out.kind = .pred := kind_of_kindName hname
      exact setpStep_blameless hpred (hpreds.1 hpred) hreads.1 hreads.2.1
  | ld => simp [unitTakes, hkind, hop] at hshape
  | st => simp [unitTakes, hkind, hop] at hshape
  | bra => simp [unitTakes, hkind, hop] at hshape
  | ret => simp [unitTakes, hkind, hop] at hshape

theorem ldStep_blameless :
    ∀ f, (ldStep u mask out src w mem).1 = .error f → f.blamesTables = false := by
  intro f hf
  unfold ldStep at hf
  dsimp only at hf
  split at hf
  · split at hf
    · cases hf
      rfl
    · split at hf
      · cases hf
        rfl
      · exact writeLoop_blameless (fun _ _ _ h => by cases h) f hf
  · split at hf
    · cases hf
      rfl
    · refine writeLoop_blameless (fun w lane f h => ?_) f hf
      unfold ldGlobalValue at h
      dsimp only at h
      split at h
      · cases h
        rfl
      · split at h
        · cases h
          rfl
        · cases h
  · split at hf
    · cases hf
      rfl
    · exact writeLoop_blameless (fun _ _ _ h => by cases h) f hf
  · cases hf
    rfl

theorem stStep_blameless (hread : val.readable = true) :
    ∀ f, (stStep u mask dst val w mem).1 = .error f → f.blamesTables = false := by
  intro f hf
  unfold stStep at hf
  dsimp only at hf
  split at hf
  · split at hf
    · cases hf
      rfl
    · refine laneLoop_blameless (fun lane m f h => ?_) mem f hf
      rcases stGlobalLane_cases m hread with ⟨m', hok⟩ | ⟨f', hfault, haccess⟩
      · rw [hok] at h
        cases h
      · obtain rfl : f' = f := by
          rw [hfault] at h
          cases h
          rfl
        exact blameless_of_isAccess haccess
  · split at hf
    · cases hf
      rfl
    · refine laneLoop_blameless (fun lane m f h => ?_) mem f hf
      obtain ⟨m', hok⟩ := stLocalLane_returns m hread
      rw [hok] at h
      cases h
  · cases hf
    rfl

theorem memStep_blameless (hkind : u.kind = .mem) (htaken : u.Taken) :
    ∀ f, (MemUnit.step u w mem).1 = .error f → f.blamesTables = false := by
  obtain ⟨hshape, hreads, -⟩ := htaken
  unfold MemUnit.step
  split
  · exact fun f hf => by cases hf
  dsimp only
  cases hop : u.op with
  | ld =>
      simp only [unitTakes, hkind, hop, Bool.and_eq_true, beq_iff_eq, List.length_map] at hshape
      obtain ⟨out, hout⟩ := List.length_eq_one_iff.mp hshape.1
      obtain ⟨src, hin⟩ := List.length_eq_one_iff.mp hshape.2
      simp only [hout, hin]
      exact ldStep_blameless
  | st =>
      simp only [unitTakes, hkind, hop, Bool.and_eq_true, beq_iff_eq, List.length_map,
        List.isEmpty_iff, List.map_eq_nil_iff] at hshape
      obtain ⟨dst, val, hin⟩ := List.length_eq_two.mp hshape.2
      simp only [hshape.1, hin, List.forall_mem_cons] at hreads ⊢
      exact stStep_blameless hreads.2.1
  | _ => simp [unitTakes, hkind, hop] at hshape

end Units

/-! ### Instructions -/

section Insts

variable {ctx : WarpContext} {inst : InstRecord} {u : MicroOp} {s s' : IssueState}

@[simp]
theorem locateFault_blamesTables (ctx : WarpContext) (inst : InstRecord) (pc : Int) (f : Fault) :
    (locateFault ctx inst pc f).blamesTables = f.blamesTables := by
  cases f <;> rfl

theorem ctrlUnit_blameless {w : WarpState} (hkind : u.kind = .control) (hret : u.op ≠ .ret)
    (htaken : u.Taken) : ∃ sr, (ControlUnit.step u w).1 = .ok sr := by
  have hshape := htaken.shape
  unfold ControlUnit.step
  split
  · exact ⟨_, rfl⟩
  split
  · exact ⟨_, rfl⟩
  cases hop : u.op with
  | bra =>
      simp only [unitTakes, hkind, hop, beq_iff_eq] at hshape
      obtain ⟨target, hin, hname⟩ := List.map_eq_singleton_iff.mp hshape
      have himm : target.kind = .imm := kind_of_kindName hname
      simp only [hin, himm, ne_eq, not_true_eq_false, if_false]
      exact ⟨_, rfl⟩
  | ret => exact absurd hop hret
  | _ => simp [unitTakes, hkind, hop] at hshape

theorem detectSplit_blameless {target : Int} {f : Fault}
    (h : detectSplit ctx inst u target s = .error f) : f.blamesTables = false := by
  unfold detectSplit at h
  dsimp only at h
  split at h
  · cases h
  split at h
  · cases h
    rfl
  split at h
  · cases h
  · cases h
    rfl

/-- A branch that is the first of its instruction. -/
theorem ctrlStep_blameless (hkind : u.kind = .control) (hret : u.op ≠ .ret) (htaken : u.Taken)
    (hnext : s.nextPc = none) : ∀ f, (ctrlStep ctx inst u s).1 = some f →
      f.blamesTables = false := by
  intro f hf
  obtain ⟨sr, hsr⟩ := ctrlUnit_blameless (w := s.warp) hkind hret htaken
  have hbra : u.op = .bra := by
    have hshape := htaken.shape
    cases hop : u.op with
    | bra => rfl
    | ret => exact absurd hop hret
    | _ => simp [unitTakes, hkind, hop] at hshape
  unfold ctrlStep at hf
  generalize ControlUnit.step u s.warp = unit at hsr hf
  obtain ⟨r, w'⟩ := unit
  obtain rfl : r = .ok sr := hsr
  dsimp only at hf
  split at hf
  · cases hf
  next target _ =>
    rw [if_pos hbra] at hf
    split at hf
    next hdetect =>
      cases hf
      exact detectSplit_blameless hdetect
    next s'' hdetect =>
      have hnone : s''.nextPc = none := (detectSplit_nextPc hdetect).trans hnext
      rw [setNextPc, hnone] at hf
      cases hf

theorem uopStep_blameless (htaken : u.Taken) (hnext : u.isBra = true → s.nextPc = none)
    {f : Option Fault} (hstep : uopStep ctx inst u s = (f, s')) :
    (∀ fault, f = some fault → fault.blamesTables = false)
      ∧ (u.isBra = false → s'.nextPc = s.nextPc) := by
  unfold uopStep at hstep
  cases hkind : u.kind with
  | exec =>
      have hblameless := execStep_blameless (w := s.warp) ctx.floatOps hkind htaken
      simp only [hkind] at hstep
      split at hstep
      next hexec =>
        cases hstep
        refine ⟨fun fault hfault => ?_, fun _ => rfl⟩
        cases hfault
        rw [locateFault_blamesTables]
        exact hblameless _ (congrArg Prod.fst hexec)
      · cases hstep
        exact ⟨fun fault hfault => (by cases hfault), fun _ => rfl⟩
  | mem =>
      have hblameless :
          ∀ f, (MemUnit.step u s.warp s.mem).1 = .error f → f.blamesTables = false :=
        memStep_blameless hkind htaken
      simp only [hkind] at hstep
      split at hstep
      next hmem =>
        cases hstep
        refine ⟨fun fault hfault => ?_, fun _ => rfl⟩
        cases hfault
        rw [locateFault_blamesTables]
        exact hblameless _ (congrArg Prod.fst hmem)
      · cases hstep
        exact ⟨fun fault hfault => (by cases hfault), fun _ => rfl⟩
  | control =>
      simp only [hkind] at hstep
      by_cases hop : u.op = .ret
      · rw [if_pos hop] at hstep
        cases hstep
        refine ⟨fun fault hfault => (by cases hfault), fun _ => ?_⟩
        unfold ctrlRet
        dsimp only
        split
        · rfl
        · split <;> rfl
      · rw [if_neg hop] at hstep
        have hbra : u.isBra = true := by
          have hshape := htaken.shape
          cases hopEq : u.op with
          | bra => simp [MicroOp.isBra, hkind, hopEq]
          | ret => exact absurd hopEq hop
          | _ => simp [unitTakes, hkind, hopEq] at hshape
        refine ⟨fun fault hfault => ?_, fun hnot => ?_⟩
        · exact ctrlStep_blameless hkind hop htaken (hnext hbra) fault
            ((congrArg Prod.fst hstep).trans hfault)
        · rw [hbra] at hnot
          cases hnot

/-- The micro-ops of an instruction with one branch at most. -/
theorem uopLoop_blameless {uops : List MicroOp} (htaken : ∀ u ∈ uops, u.Taken)
    (hone : uops.countP MicroOp.isBra ≤ 1)
    (hnext : s.nextPc = none ∨ uops.countP MicroOp.isBra = 0) {f : Option Fault}
    (hloop : uopLoop ctx inst uops s = (f, s')) :
    ∀ fault, f = some fault → fault.blamesTables = false := by
  induction uops generalizing s with
  | nil =>
      cases hloop
      exact fun fault hfault => by cases hfault
  | cons u uops ih =>
      have hfirst : u.isBra = true → s.nextPc = none := by
        intro hbra
        rcases hnext with hnone | hzero
        · exact hnone
        · rw [List.countP_cons_of_pos hbra] at hzero
          cases hzero
      have hu := htaken u List.mem_cons_self
      rw [uopLoop] at hloop
      split at hloop
      next f' s₁ hstep =>
        cases hloop
        exact (uopStep_blameless hu hfirst hstep).1
      next s₁ hstep =>
        have hkept := (uopStep_blameless hu hfirst hstep).2
        refine ih (fun v hv => htaken v (List.mem_cons_of_mem u hv)) ?_ ?_ hloop
        · exact (List.sublist_cons_self u uops).countP_le.trans hone
        · cases hbra : u.isBra with
          | true =>
              right
              rw [List.countP_cons_of_pos hbra] at hone
              omega
          | false =>
              rw [hkept hbra]
              rwa [List.countP_cons_of_neg (by simp [hbra])] at hnext

end Insts

/-! ### Around the micro-ops -/

section Warps

variable {ctx : WarpContext}

theorem normalizeStack_blameless {w : WarpState} {f : Fault}
    (h : (normalizeStack ctx w).1 = .error f) : f.blamesTables = false := by
  unfold normalizeStack at h
  split at h
  · cases h
  · cases h
  · cases h
    rfl

theorem predMask_blameless {w : WarpState} {guard : PredGuard} {base : Nat} {f : Fault}
    {mask : LaneMask} (h : predMask ctx w guard base = (some f, mask)) :
    f.blamesTables = false := by
  unfold predMask at h
  generalize ({ width := ctx.warpSize, bitsLo := 0 } : LaneMask) = m at h
  generalize List.range (min ctx.warpSize 32) = lanes at h
  induction lanes generalizing m with
  | nil => cases h
  | cons lane lanes ih =>
      rw [laneLoopFrom] at h
      split at h
      · split at h
        next hturn =>
          cases h
          split at hturn
          · cases hturn
            rfl
          · dsimp only at hturn
            split at hturn
            · split at hturn <;> cases hturn
            · split at hturn <;> cases hturn
        · exact ih _ h
      · exact ih _ h

theorem predicate_blameless {inst : InstRecord} {w : WarpState} {uops : List MicroOp} {f : Fault}
    (h : predicate ctx inst w uops = .error f) : f.blamesTables = false := by
  unfold predicate at h
  split at h
  · cases h
  split at h
  · cases h
    rfl
  dsimp only at h
  split at h
  · cases h
    rfl
  split at h
  next hmask =>
    cases h
    exact predMask_blameless hmask
  · cases h

/-- Predication changes the guards alone. -/
theorem predicate_uops {inst : InstRecord} {w : WarpState} {uops uops' : List MicroOp}
    (h : predicate ctx inst w uops = .ok uops') :
    ∃ guarded : MicroOp → LaneMask, uops' = uops.map fun u => { u with guard := guarded u } := by
  unfold predicate at h
  split at h
  · cases h
    exact ⟨MicroOp.guard, (List.map_id _).symm⟩
  split at h
  · cases h
  dsimp only at h
  split at h
  · cases h
  split at h
  · cases h
  · cases h
    exact ⟨_, rfl⟩

end Warps

section Analysis

variable {kernel : KernelImage} {registry : DescriptorRegistry} {warpSize : Nat}

theorem buildSuccFrom_blameless {pc : Nat} {insts : List InstRecord} {d : Diagnostic}
    (h : buildSuccFrom kernel registry warpSize pc insts = .error d) :
    d.code = "E_RECONV_INVALID" := by
  induction insts generalizing pc with
  | nil => cases h
  | cons inst insts ih =>
      rw [buildSuccFrom] at h
      split at h
      next hsucc =>
        cases h
        unfold instSucc at hsucc
        dsimp only at hsucc
        split at hsucc
        · cases hsucc
        split at hsucc
        · cases hsucc
        split at hsucc
        · split at hsucc
          · split at hsucc
            · cases hsucc
              rfl
            · split at hsucc
              · cases hsucc
                rfl
              · cases hsucc
          · split at hsucc <;> cases hsucc
        · cases hsucc
      · split at h
        next hrest =>
          cases h
          exact ih hrest
        · cases h

theorem reconvFrom_blameless {pc : Nat} {postdom : List BitSet} {insts : List InstRecord}
    {d : Diagnostic} (h : reconvFrom kernel registry warpSize postdom pc insts = .error d) :
    d.code = "E_RECONV_MISS" := by
  induction insts generalizing pc with
  | nil => cases h
  | cons inst insts ih =>
      rw [reconvFrom] at h
      by_cases hbranch : isPredicatedBra (classifyInst inst registry warpSize) = true
      · replace h := (if_pos hbranch).symm.trans h
        split at h
        · cases h
          rfl
        · split at h
          next hrest =>
            cases h
            exact ih hrest
          · cases h
      · replace h := (if_neg hbranch).symm.trans h
        split at h
        next hrest =>
          cases h
          exact ih hrest
        · cases h

theorem analyze_blameless {d : Diagnostic}
    (h : analyzeControlFlow kernel registry warpSize = .error d) : d.code ∉ tableCodes := by
  unfold analyzeControlFlow at h
  dsimp only at h
  split at h
  next hbuild =>
    cases h
    rw [buildSuccFrom_blameless hbuild]
    decide
  split at h
  · cases h
    exact (by decide : "E_RECONV_INVALID" ∉ tableCodes)
  · rw [reconvFrom_blameless h]
    decide

end Analysis

end ProtoGpu

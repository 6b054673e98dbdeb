import ProtoGpu.Proof.SimtStack

/-!
# What issuing an instruction can do

One inversion for each thing the step loop calls. The execution core and the memory unit change
registers and memory only; `RET` moves lanes from the top frame to `exited`; a branch only sets
`next_pc` and, when the warp diverges, the pending split. All micro-ops of an instruction run under
one guard. Every invariant of a step is derived from these.
-/

namespace ProtoGpu

/-! ### Lane loops -/

theorem laneLoopFrom_induct {σ : Type} {P : σ → Prop} {mask : LaneMask}
    {body : Nat → σ → Except Fault σ} (hbody : ∀ lane s s', body lane s = .ok s' → P s → P s')
    (lanes : List Nat) {s : σ} (hs : P s) : P (laneLoopFrom mask body lanes s).2 := by
  induction lanes generalizing s with
  | nil => exact hs
  | cons lane lanes ih =>
      rw [laneLoopFrom]
      split
      · split
        next f hf => exact hs
        next s' hs' => exact ih (hbody lane s s' hs' hs)
      · exact ih hs

theorem laneLoop_induct {σ : Type} {P : σ → Prop} {mask : LaneMask}
    {body : Nat → σ → Except Fault σ} (hbody : ∀ lane s s', body lane s = .ok s' → P s → P s')
    {s : σ} (hs : P s) : P (laneLoop mask body s).2 :=
  laneLoopFrom_induct hbody _ hs

@[simp]
theorem stepOfLoop_snd {σ : Type} (r : Option Fault × σ) : (stepOfLoop r).2 = r.2 := by
  unfold stepOfLoop
  split <;> rfl

theorem stepOfLoop_ok_iff {σ : Type} {r : Option Fault × σ} :
    (∃ sr, (stepOfLoop r).1 = .ok sr) ↔ r.1 = none := by
  unfold stepOfLoop
  split <;> simp_all

/-! ### Registers only -/

/-- The second state differs from the first in its registers and predicates at most. -/
def OnlyRegs (w w' : WarpState) : Prop :=
  ∃ rU32 rU64 p, w' = { w with rU32 := rU32, rU64 := rU64, p := p }

theorem OnlyRegs.refl (w : WarpState) : OnlyRegs w w := ⟨w.rU32, w.rU64, w.p, rfl⟩

theorem OnlyRegs.trans {w w' w'' : WarpState} (h : OnlyRegs w w') (h' : OnlyRegs w' w'') :
    OnlyRegs w w'' := by
  obtain ⟨_, _, _, rfl⟩ := h
  obtain ⟨a, b, c, rfl⟩ := h'
  exact ⟨a, b, c, rfl⟩

theorem writeRegLane_onlyRegs {o : Operand} {w w' : WarpState} {lane : Nat} {v : BitVec 64}
    (h : writeRegLane o w lane v = .ok w') : OnlyRegs w w' := by
  unfold writeRegLane at h
  dsimp only at h
  split at h
  · cases h
    exact OnlyRegs.refl w
  · split at h
    · cases h
      exact OnlyRegs.refl w
    · split at h
      · cases h
        exact OnlyRegs.refl w
      · split at h
        · split at h
          · cases h
          · cases h
            exact ⟨_, _, _, rfl⟩
        · split at h
          · cases h
          · cases h
            exact ⟨_, _, _, rfl⟩

theorem writeLane_onlyRegs {out : Operand} {value : WarpState → Nat → Except Fault (BitVec 64)}
    {lane : Nat} {w w' : WarpState} (h : writeLane out value lane w = .ok w') :
    OnlyRegs w w' := by
  unfold writeLane at h
  split at h
  · cases h
  · exact writeRegLane_onlyRegs h

theorem writeLoop_onlyRegs (mask : LaneMask) (out : Operand)
    (value : WarpState → Nat → Except Fault (BitVec 64)) (w : WarpState) :
    OnlyRegs w (stepOfLoop (laneLoop mask (writeLane out value) w)).2 := by
  rw [stepOfLoop_snd]
  exact laneLoop_induct (P := OnlyRegs w)
    (fun _ _ _ hbody hs => hs.trans (writeLane_onlyRegs hbody)) (OnlyRegs.refl w)

theorem setpStep_onlyRegs (uop : MicroOp) (mask : LaneMask) (out a b : Operand) (w : WarpState) :
    OnlyRegs w (setpStep uop mask out a b w).2 := by
  have hbody : ∀ (base : Nat) (value : WarpState → Nat → Option Bool) (lane : Nat)
      (s s' : WarpState), writePredLane base value lane s = .ok s' → OnlyRegs w s →
        OnlyRegs w s' := by
    intro base value lane s s' h hs
    unfold writePredLane at h
    split at h
    · cases h
    · split at h
      · cases h
        exact hs.trans ⟨_, _, _, rfl⟩
      · cases h
  unfold setpStep
  split
  · exact OnlyRegs.refl w
  · split
    · exact OnlyRegs.refl w
    · dsimp only
      split
      · exact OnlyRegs.refl w
      · split
        · exact OnlyRegs.refl w
        · rw [stepOfLoop_snd]
          exact laneLoop_induct (hbody _ _) (OnlyRegs.refl w)

theorem execStep_onlyRegs (F : FloatOps) (uop : MicroOp) (w : WarpState) :
    OnlyRegs w (ExecCore.step F uop w).2 := by
  have hexec : ∀ mask unknown out value,
      OnlyRegs w (execLanes mask unknown out value w).2 :=
    fun mask unknown out value => writeLoop_onlyRegs mask out _ w
  unfold ExecCore.step
  repeat' first
    | exact OnlyRegs.refl w
    | exact hexec _ _ _ _
    | exact setpStep_onlyRegs _ _ _ _ _ _
    | split
    | dsimp only

theorem memStep_onlyRegs (uop : MicroOp) (w : WarpState) (mem : MemState) :
    OnlyRegs w (MemUnit.step uop w mem).2.1 := by
  have hld : ∀ mask out src, OnlyRegs w (ldStep uop mask out src w mem).2 := by
    intro mask out src
    unfold ldStep
    dsimp only
    repeat' first
      | exact OnlyRegs.refl w
      | exact writeLoop_onlyRegs _ _ _ _
      | split
  unfold MemUnit.step
  repeat' first
    | exact OnlyRegs.refl w
    | exact hld _ _ _
    | split

/-! ### One micro-op -/

/-- The split a divergent branch records. -/
def splitAt (uop : MicroOp) (target reconvPc : Int) (s : IssueState) : PendingSplit where
  pc := s.warp.pc
  targetPc := target
  reconvPc := reconvPc
  taken := laneMaskAnd s.warp.active uop.guard
  fallthrough := laneMaskAnd s.warp.active (laneMaskNotWidth uop.guard)

/-- What the branch leaves in `split`. -/
inductive Detected (ctx : WarpContext) (uop : MicroOp) (target : Int) (s : IssueState) :
    Option PendingSplit → Prop where
  | uniform (h : laneMaskEmpty (laneMaskAnd s.warp.active (laneMaskNotWidth uop.guard)) = true) :
      Detected ctx uop target s s.split
  | diverges {reconvPc : Int}
      (h : laneMaskEmpty (laneMaskAnd s.warp.active (laneMaskNotWidth uop.guard)) = false)
      (hpc : 0 ≤ s.warp.pc) (hreconv : ctx.reconvPc[s.warp.pc.toNat]? = some (some reconvPc)) :
      Detected ctx uop target s (some (splitAt uop target reconvPc s))

/-- Everything a micro-op can do to a warp that is not done. -/
inductive UopEffect (ctx : WarpContext) (uop : MicroOp) (s : IssueState) :
    Option Fault → IssueState → Prop where
  | regs {f : Option Fault} {w : WarpState} {mem : MemState} (hkind : uop.kind ≠ .control)
      (hregs : OnlyRegs s.warp w) : UopEffect ctx uop s f { s with warp := w, mem := mem }
  | ret (hkind : uop.kind = .control) (hop : uop.op = .ret) :
      UopEffect ctx uop s none (ctrlRet uop s)
  | idle (hkind : uop.kind = .control) (hop : uop.op ≠ .ret)
      (hmask : laneMaskEmpty (laneMaskAnd s.warp.active uop.guard) = true) :
      UopEffect ctx uop s none s
  | fault {f : Fault} {s' : IssueState} (hkind : uop.kind = .control) (hwarp : s'.warp = s.warp)
      (hmem : s'.mem = s.mem) : UopEffect ctx uop s (some f) s'
  | branch {target : Operand} {split : Option PendingSplit} (hkind : uop.kind = .control)
      (hop : uop.op = .bra) (hinputs : uop.inputs = [target]) (himm : target.kind = .imm)
      (hmask : laneMaskEmpty (laneMaskAnd s.warp.active uop.guard) = false)
      (hsplit : Detected ctx uop target.immI64 s split)
      (hnext : s.nextPc = none ∨ s.nextPc = some target.immI64) :
      UopEffect ctx uop s none { s with nextPc := some target.immI64, split := split }

theorem detectSplit_ok {ctx : WarpContext} {inst : InstRecord} {uop : MicroOp} {target : Int}
    {s s' : IssueState} (hmask : laneMaskEmpty (laneMaskAnd s.warp.active uop.guard) = false)
    (h : detectSplit ctx inst uop target s = .ok s') :
    ∃ split, Detected ctx uop target s split ∧ s' = { s with split := split } := by
  unfold detectSplit at h
  simp only [hmask, Bool.false_or] at h
  split at h
  next hempty =>
    cases h
    exact ⟨_, .uniform hempty, rfl⟩
  next hne =>
    simp only [Bool.not_eq_true] at hne
    split at h
    · cases h
    next hpc =>
      split at h
      next reconvPc hreconv =>
        cases h
        exact ⟨_, .diverges hne (Int.not_lt.mp hpc) hreconv, rfl⟩
      · cases h

theorem ctrlStep_effect {ctx : WarpContext} {inst : InstRecord} {uop : MicroOp} {s s' : IssueState}
    {f : Option Fault} (hkind : uop.kind = .control) (hop : uop.op ≠ .ret)
    (hdone : s.warp.done = false) (h : ctrlStep ctx inst uop s = (f, s')) :
    UopEffect ctx uop s f s' := by
  unfold ctrlStep ControlUnit.step at h
  simp only [hdone, Bool.false_eq_true, if_false] at h
  by_cases hmask : (laneMaskAnd s.warp.active uop.guard).bitsLo = 0#32
  · simp only [hmask, if_true] at h
    cases h
    exact .idle hkind hop (by simpa [laneMaskEmpty] using hmask)
  · simp only [hmask, if_false] at h
    have hmask' : laneMaskEmpty (laneMaskAnd s.warp.active uop.guard) = false := by
      simpa [laneMaskEmpty] using hmask
    cases hbra : uop.op with
    | bra =>
        rw [hbra] at h
        cases hinputs : uop.inputs with
        | nil =>
            simp only [hinputs] at h
            cases h
            exact .fault hkind rfl rfl
        | cons target more =>
            cases more with
            | cons =>
                simp only [hinputs] at h
                cases h
                exact .fault hkind rfl rfl
            | nil =>
                simp only [hinputs] at h
                by_cases himm : target.kind = .imm
                · simp only [himm, ne_eq, not_true_eq_false, if_false, if_true] at h
                  cases hdetect : detectSplit ctx inst uop target.immI64 s with
                  | error f' =>
                      rw [hdetect] at h
                      cases h
                      exact .fault hkind rfl rfl
                  | ok s₁ =>
                      obtain ⟨split, hsplit, rfl⟩ := detectSplit_ok hmask' hdetect
                      simp only [hdetect, setNextPc] at h
                      cases hnext : s.nextPc with
                      | none =>
                          simp only [hnext] at h
                          cases h
                          exact .branch hkind hbra hinputs himm hmask' hsplit (.inl hnext)
                      | some pc =>
                          simp only [hnext] at h
                          by_cases hpc : pc = target.immI64
                          · simp only [hpc, ne_eq, not_true_eq_false, if_false] at h
                            cases h
                            rw [hpc] at hnext
                            exact .branch hkind hbra hinputs himm hmask' hsplit (.inr hnext)
                          · simp only [hpc, ne_eq, not_false_eq_true, if_true] at h
                            cases h
                            exact .fault hkind rfl rfl
                · simp only [himm, ne_eq, not_false_eq_true, if_true] at h
                  cases h
                  exact .fault hkind rfl rfl
    | ret => exact absurd hbra hop
    | _ =>
        rw [hbra] at h
        cases h
        exact .fault hkind rfl rfl

/-- **Inversion of a micro-op.** -/
theorem uopStep_effect {ctx : WarpContext} {inst : InstRecord} {uop : MicroOp} {s s' : IssueState}
    {f : Option Fault} (hdone : s.warp.done = false) (h : uopStep ctx inst uop s = (f, s')) :
    UopEffect ctx uop s f s' := by
  unfold uopStep at h
  cases hkind : uop.kind with
  | exec =>
      have hregs := execStep_onlyRegs ctx.floatOps uop s.warp
      simp only [hkind] at h
      split at h
      next heq =>
        cases h
        rw [heq] at hregs
        exact .regs (by simp [hkind]) hregs
      next heq =>
        cases h
        rw [heq] at hregs
        exact .regs (by simp [hkind]) hregs
  | control =>
      simp only [hkind] at h
      split at h
      next hop =>
        cases h
        exact .ret hkind hop
      next hop => exact ctrlStep_effect hkind hop hdone h
  | mem =>
      have hregs := memStep_onlyRegs uop s.warp s.mem
      simp only [hkind] at h
      split at h
      next heq =>
        cases h
        rw [heq] at hregs
        exact .regs (by simp [hkind]) hregs
      next heq =>
        cases h
        rw [heq] at hregs
        exact .regs (by simp [hkind]) hregs

/-! ### The guard of an instruction -/

/-- The predicate of the lane lets the instruction through. -/
def PredGuard.enables (g : PredGuard) (warpSize : Nat) (w : WarpState) (lane : Nat) : Prop :=
  ∃ b, w.p[(g.predId.toNat * warpSize % 2 ^ 64 + lane) % 2 ^ 64]? = some b
    ∧ (if g.isNegated then !(b != 0) else b != 0) = true

theorem has_setLane (m : LaneMask) {lane : Nat} (hlane : lane < 32) (lane' : Nat) :
    LaneMask.has { m with bitsLo := m.bitsLo ||| 1#32 <<< lane } lane'
      = (m.has lane' || decide (lane' = lane)) := by
  simp only [LaneMask.has, BitVec.getLsbD_or, BitVec.getLsbD_shiftLeft, BitVec.getLsbD_one]
  by_cases heq : lane' = lane
  · simp [heq, hlane]
  · by_cases hlt : lane' < lane
    · simp [hlt, heq]
    · simp [heq, show ¬ lane' - lane = 0 by omega]

/-- One lane's turn in `predMask`. -/
def predTurn (w : WarpState) (g : PredGuard) (base lane : Nat) (m : LaneMask) :
    Except Fault LaneMask :=
  match w.p[(base + lane) % 2 ^ 64]? with
  | none => .error .undefined
  | some b =>
      let pval := b != 0
      let enabled : Bool := if g.isNegated then !pval else pval
      if enabled then .ok { m with bitsLo := m.bitsLo ||| 1#32 <<< lane } else .ok m

theorem predMask_ok {ctx : WarpContext} {w : WarpState} {g : PredGuard} {mask : LaneMask}
    (h : predMask ctx w g (g.predId.toNat * ctx.warpSize % 2 ^ 64) = (none, mask)) :
    mask.width = ctx.warpSize ∧
      ∀ lane, mask.has lane = true ↔
        lane < min ctx.warpSize 32 ∧ laneMaskTest w.active lane = true
          ∧ g.enables ctx.warpSize w lane := by
  unfold predMask at h
  -- the mask so far holds the enabled lanes among those the loop has passed
  have hloop : ∀ (lanes : List Nat) (m : LaneMask), (∀ lane ∈ lanes, lane < 32) →
      laneLoopFrom w.active (predTurn w g (g.predId.toNat * ctx.warpSize % 2 ^ 64)) lanes m
        = (none, mask) →
      mask.width = m.width ∧
        ∀ lane, mask.has lane = true ↔ m.has lane = true
          ∨ lane ∈ lanes ∧ laneMaskTest w.active lane = true
            ∧ g.enables ctx.warpSize w lane := by
    intro lanes
    induction lanes with
    | nil =>
        intro m _ hm
        cases hm
        simp
    | cons l lanes ih =>
        intro m hlt hm
        have hlt' : ∀ lane ∈ lanes, lane < 32 := fun lane hmem => hlt lane (by simp [hmem])
        rw [laneLoopFrom] at hm
        split at hm
        next htest =>
          split at hm
          · cases hm
          next m' hbody =>
            obtain ⟨hwidth, hhas⟩ := ih m' hlt' hm
            unfold predTurn at hbody
            split at hbody
            · cases hbody
            next b hb =>
              by_cases hen : (if g.isNegated then !(b != 0) else b != 0) = true
              · rw [if_pos hen] at hbody
                cases hbody
                have henables : g.enables ctx.warpSize w l := ⟨b, hb, hen⟩
                refine ⟨hwidth, fun lane => ?_⟩
                rw [hhas lane, has_setLane m (hlt l (by simp))]
                by_cases heq : lane = l
                · simp [heq, htest, henables]
                · simp [heq]
              · rw [if_neg hen] at hbody
                cases hbody
                have hnot : ¬ g.enables ctx.warpSize w l := by
                  rintro ⟨b', hb', hen'⟩
                  rw [hb] at hb'
                  cases hb'
                  exact hen hen'
                refine ⟨hwidth, fun lane => ?_⟩
                rw [hhas lane]
                by_cases heq : lane = l
                · simp [heq, hnot]
                · simp [heq]
        next htest =>
          obtain ⟨hwidth, hhas⟩ := ih m hlt' hm
          refine ⟨hwidth, fun lane => ?_⟩
          rw [hhas lane]
          by_cases heq : lane = l
          · simp [heq, htest]
          · simp [heq]
  obtain ⟨hwidth, hhas⟩ := hloop _ _ (by simp) h
  refine ⟨hwidth, fun lane => ?_⟩
  rw [hhas lane]
  simp [LaneMask.has]

/-- What guard the micro-ops of an instruction share. -/
structure IssueGuard (ctx : WarpContext) (inst : InstRecord) (w : WarpState) (guard : LaneMask) :
    Prop where
  fits : guard.Fits ctx.warpSize
  unpredicated : inst.pred = none → guard = laneMaskAll ctx.warpSize
  predicated : ∀ g, inst.pred = some g → ∀ lane, guard.has lane = true ↔
    lane < ctx.warpSize ∧ laneMaskTest w.active lane = true ∧ g.enables ctx.warpSize w lane

theorem fits_laneMaskAll {warpSize : Nat} (hws : warpSize ≤ 32) :
    (laneMaskAll warpSize).Fits warpSize where
  width := rfl
  lt := by
    intro lane hlane
    rw [has_laneMaskAll hws] at hlane
    exact of_decide_eq_true hlane

theorem predicate_ok {ctx : WarpContext} (hws : ctx.warpSize ≤ 32) {inst : InstRecord}
    {desc : InstDesc} {w : WarpState} {uops : List MicroOp}
    (h : predicate ctx inst w (expand inst desc ctx.warpSize) = .ok uops) :
    ∃ guard, IssueGuard ctx inst w guard
      ∧ uops = (expand inst desc ctx.warpSize).map fun u => { u with guard := guard } := by
  unfold predicate at h
  cases hpred : inst.pred with
  | none =>
      simp only [hpred] at h
      cases h
      refine ⟨laneMaskAll ctx.warpSize, ⟨fits_laneMaskAll hws, fun _ => rfl, by simp [hpred]⟩, ?_⟩
      rw [eq_comm]
      refine (List.map_congr_left fun u hu => ?_).trans (List.map_id _)
      rw [← guard_of_mem_expand hu]
      rfl
  | some g =>
      simp only [hpred] at h
      split at h
      · cases h
      · split at h
        · cases h
        · split at h
          · cases h
          next mask hmask =>
            cases h
            obtain ⟨hwidth, hhas⟩ := predMask_ok hmask
            have hand : ∀ lane, (laneMaskAnd (laneMaskAll ctx.warpSize) mask).has lane = true ↔
                lane < ctx.warpSize ∧ laneMaskTest w.active lane = true
                  ∧ g.enables ctx.warpSize w lane := by
              intro lane
              rw [has_laneMaskAnd, Bool.and_eq_true, hhas lane, has_laneMaskAll hws]
              simp only [decide_eq_true_eq]
              constructor
              · rintro ⟨hlt, _, hrest⟩
                exact ⟨hlt, hrest⟩
              · rintro ⟨hlt, hrest⟩
                exact ⟨hlt, by omega, hrest⟩
            refine ⟨laneMaskAnd (laneMaskAll ctx.warpSize) mask,
              ⟨(fits_laneMaskAll hws).and, by simp [hpred], ?_⟩, ?_⟩
            · intro g' hg' lane
              rw [hpred] at hg'
              cases hg'
              exact hand lane
            · refine List.map_congr_left fun u hu => ?_
              rw [guard_of_mem_expand hu]

/-! ### Commit -/

section Commit

variable {ctx : WarpContext} {w : WarpState} {top : SimtFrame} {rest : List SimtFrame}
  {nextPc : Option Int}

theorem commit_uniform (hdone : w.done = false) (hstack : w.simtStack = top :: rest) :
    commit ctx nextPc none w =
      { w with
        simtStack := { top with pc := nextPc.getD (w.pc + 1) } :: rest
        pc := nextPc.getD (w.pc + 1), active := top.active } := by
  simp only [commit, hdone, Bool.false_eq_true, if_false, hstack, commitStack]

theorem commit_split (hdone : w.done = false) (hstack : w.simtStack = top :: rest)
    (split : PendingSplit) :
    commit ctx nextPc (some split) w =
      { w with
        simtStack := splitFrames ctx split w.pc top.reconvPc ++ rest
        pc := split.targetPc, active := split.taken } := by
  simp only [commit, hdone, Bool.false_eq_true, if_false, hstack, commitStack, splitFrames,
    List.cons_append]

theorem commit_done (hdone : w.done = false) (hstack : w.simtStack = top :: rest)
    (split : Option PendingSplit) : (commit ctx nextPc split w).done = false := by
  cases split with
  | none => rw [commit_uniform hdone hstack, hdone]
  | some split => rw [commit_split hdone hstack, hdone]

end Commit

/-! ### One instruction -/

/-- The instruction at `warp.pc`, its descriptor and the guard of its micro-ops. -/
structure Decoded (ctx : WarpContext) (w : WarpState) (inst : InstRecord) (desc : InstDesc)
    (guard : LaneMask) : Prop where
  pcNonneg : 0 ≤ w.pc
  fetched : ctx.kernel.insts[w.pc.toNat]? = some inst
  looked : ctx.registry.lookup inst = some desc
  guarded : IssueGuard ctx inst w guard

def guardedUops (ctx : WarpContext) (inst : InstRecord) (desc : InstDesc) (guard : LaneMask) :
    List MicroOp :=
  (expand inst desc ctx.warpSize).map fun u => { u with guard := guard }

theorem guard_of_mem_guardedUops {ctx : WarpContext} {inst : InstRecord} {desc : InstDesc}
    {guard : LaneMask} {uop : MicroOp} (h : uop ∈ guardedUops ctx inst desc guard) :
    uop.guard = guard := by
  obtain ⟨u, _, rfl⟩ := List.mem_map.mp h
  rfl

theorem issueInst_ok {ctx : WarpContext} (hws : ctx.warpSize ≤ 32) {w w' : WarpState}
    {mem mem' : MemState} {issue : Issue} (h : issueInst ctx w mem = (.ok issue, w', mem')) :
    ∃ inst desc guard s, Decoded ctx w inst desc guard
      ∧ uopLoop ctx inst (guardedUops ctx inst desc guard) { warp := w, mem := mem } = (none, s)
      ∧ issue = { pc := w.pc, active := w.active, exited := w.exited, split := s.split }
      ∧ w' = commit ctx s.nextPc s.split s.warp ∧ mem' = s.mem := by
  unfold issueInst at h
  split at h
  · cases h
  next hpc =>
    split at h
    · cases h
    next inst hinst =>
      split at h
      · cases h
      next desc hdesc =>
        split at h
        · cases h
        next uops huops =>
          obtain ⟨guard, hguard, rfl⟩ := predicate_ok hws huops
          split at h
          · cases h
          next s hloop =>
            cases h
            exact ⟨inst, desc, guard, s, ⟨Int.not_lt.mp hpc, hinst, hdesc, hguard⟩, hloop, rfl, rfl,
              rfl⟩

theorem issueInst_error {ctx : WarpContext} (hws : ctx.warpSize ≤ 32) {w w' : WarpState}
    {mem mem' : MemState} {f : Fault} (h : issueInst ctx w mem = (.error f, w', mem')) :
    (w' = w ∧ mem' = mem) ∨
      ∃ inst desc guard s, Decoded ctx w inst desc guard
        ∧ uopLoop ctx inst (guardedUops ctx inst desc guard) { warp := w, mem := mem }
          = (some f, s)
        ∧ w' = s.warp ∧ mem' = s.mem := by
  unfold issueInst at h
  split at h
  · cases h
    exact .inl ⟨rfl, rfl⟩
  next hpc =>
    split at h
    · cases h
      exact .inl ⟨rfl, rfl⟩
    next inst hinst =>
      split at h
      · cases h
        exact .inl ⟨rfl, rfl⟩
      next desc hdesc =>
        split at h
        · cases h
          exact .inl ⟨rfl, rfl⟩
        next uops huops =>
          obtain ⟨guard, hguard, rfl⟩ := predicate_ok hws huops
          split at h
          next s hloop =>
            cases h
            exact .inr ⟨inst, desc, guard, s, ⟨Int.not_lt.mp hpc, hinst, hdesc, hguard⟩, hloop, rfl,
              rfl⟩
          · cases h

/-! ### One step -/

theorem warpStep_issued {ctx : WarpContext} {w w' : WarpState} {mem mem' : MemState}
    {issue : Issue} (h : warpStep ctx w mem = (.ok (.issued issue), w', mem')) :
    ∃ w₁, normalizeStack ctx w = (.ok .ready, w₁)
      ∧ issueInst ctx w₁ mem = (.ok issue, w', mem') := by
  unfold warpStep at h
  split at h
  · cases h
  · cases h
  next w₁ hnormalize =>
    split at h
    · cases h
    next hissue =>
      cases h
      exact ⟨w₁, hnormalize, hissue⟩

theorem warpStep_retired {ctx : WarpContext} {w w' : WarpState} {mem mem' : MemState}
    (h : warpStep ctx w mem = (.ok .retired, w', mem')) :
    normalizeStack ctx w = (.ok .retired, w') ∧ mem' = mem := by
  unfold warpStep at h
  split at h
  · cases h
  next hnormalize =>
    cases h
    exact ⟨hnormalize, rfl⟩
  · split at h <;> cases h

theorem warpStep_error {ctx : WarpContext} {w w' : WarpState} {mem mem' : MemState} {f : Fault}
    (h : warpStep ctx w mem = (.error f, w', mem')) :
    normalizeStack ctx w = (.error f, w') ∨
      ∃ w₁, normalizeStack ctx w = (.ok .ready, w₁)
        ∧ issueInst ctx w₁ mem = (.error f, w', mem') := by
  unfold warpStep at h
  split at h
  next hnormalize =>
    cases h
    exact .inl hnormalize
  · cases h
  next w₁ hnormalize =>
    split at h
    next hissue =>
      cases h
      exact .inr ⟨w₁, hnormalize, hissue⟩
    · cases h

end ProtoGpu

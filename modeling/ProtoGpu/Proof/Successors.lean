import ProtoGpu.Proof.ControlFlow
import ProtoGpu.Proof.Issue

/-!
# The edges an issue follows

The analysis classifies an instruction by its control micro-ops before it runs; the step loop reads
`next_pc` and the split off the same micro-ops while it runs. Where the loop succeeds the two agree:
the path moves along an edge of the graph, or the instruction returns and has only the edge to the
exit.
-/

namespace ProtoGpu

/-! ### Classification -/

def MicroOp.isBra (u : MicroOp) : Bool := u.kind == .control && u.op == .bra

def MicroOp.isRet (u : MicroOp) : Bool := u.kind == .control && u.op == .ret

/-- Every branch among the micro-ops reads this target. -/
def BranchesTo (uops : List MicroOp) (target : Int) : Prop :=
  ∀ u ∈ uops, u.isBra = true → ∃ o : Operand, u.inputs = [o] ∧ o.kind = .imm ∧ o.immI64 = target

theorem classifyUop_flags (info : InstCtrlInfo) (u : MicroOp) :
    (classifyUop info u).isPredicated = info.isPredicated
      ∧ (classifyUop info u).hasRet = (info.hasRet || u.isRet)
      ∧ (classifyUop info u).hasBra = (info.hasBra || u.isBra) := by
  unfold classifyUop MicroOp.isRet MicroOp.isBra
  by_cases hkind : u.kind = .control
  · cases hop : u.op with
    | bra =>
        rcases u.inputs with _ | ⟨target, _ | ⟨_, _⟩⟩
        · simp [hkind]
        · by_cases himm : target.kind = .imm <;> simp [hkind, himm]
        · simp [hkind]
    | _ => simp [hkind]
  · simp [hkind]

theorem classifyUop_target {info : InstCtrlInfo} {u : MicroOp} {target : Int}
    (h : u.isBra = true → ∃ o : Operand, u.inputs = [o] ∧ o.kind = .imm ∧ o.immI64 = target) :
    (classifyUop info u).braTarget = if u.isBra then some target else info.braTarget := by
  by_cases hbra : u.isBra = true
  · obtain ⟨o, hinputs, himm, rfl⟩ := h hbra
    rw [if_pos hbra]
    simp only [MicroOp.isBra, Bool.and_eq_true, beq_iff_eq] at hbra
    simp [classifyUop, hbra.1, hbra.2, hinputs, himm]
  · rw [if_neg hbra]
    unfold classifyUop
    by_cases hkind : u.kind = .control
    · cases hop : u.op <;> simp_all [MicroOp.isBra]
    · simp [hkind]

theorem foldl_classifyUop_flags (uops : List MicroOp) (info : InstCtrlInfo) :
    (uops.foldl classifyUop info).isPredicated = info.isPredicated
      ∧ (uops.foldl classifyUop info).hasRet = (info.hasRet || uops.any MicroOp.isRet)
      ∧ (uops.foldl classifyUop info).hasBra = (info.hasBra || uops.any MicroOp.isBra) := by
  induction uops generalizing info with
  | nil => simp
  | cons u uops ih =>
      obtain ⟨hpred, hret, hbra⟩ := classifyUop_flags info u
      obtain ⟨hpred', hret', hbra'⟩ := ih (classifyUop info u)
      rw [List.foldl_cons, hpred', hret', hbra', hpred, hret, hbra]
      simp [Bool.or_assoc]

theorem foldl_classifyUop_target {uops : List MicroOp} {target : Int}
    (h : BranchesTo uops target) (info : InstCtrlInfo) :
    (uops.foldl classifyUop info).braTarget
      = if uops.any MicroOp.isBra then some target else info.braTarget := by
  induction uops generalizing info with
  | nil => simp
  | cons u uops ih =>
      rw [List.foldl_cons, ih (fun v hv => h v (by simp [hv])),
        classifyUop_target (h u (by simp)), List.any_cons]
      cases u.isBra <;> cases uops.any MicroOp.isBra <;> rfl

/-! ### The micro-op loop -/

section Loop

variable {ctx : WarpContext} {inst : InstRecord} {guard : LaneMask}

/-- What a successful loop knows about the branch it may have taken, from a path whose masks and
program counter it does not change. -/
structure LoopNext (ctx : WarpContext) (guard : LaneMask) (w : WarpState) (uops : List MicroOp)
    (s : IssueState) : Prop where
  regs : OnlyRegs w s.warp
  idle : laneMaskEmpty (laneMaskAnd w.active guard) = true → s.nextPc = none ∧ s.split = none
  target : laneMaskEmpty (laneMaskAnd w.active guard) = false →
    ∀ u ∈ uops, u.isBra = true → ∃ o : Operand, u.inputs = [o] ∧ o.kind = .imm
      ∧ s.nextPc = some o.immI64
  taken : ∀ target, s.nextPc = some target → ∃ u ∈ uops, u.isBra = true
  split : ∀ split, s.split = some split → s.nextPc = some split.targetPc
    ∧ laneMaskEmpty (laneMaskAnd w.active (laneMaskNotWidth guard)) = false

theorem LoopNext.uop {w : WarpState} {done : List MicroOp} {u : MicroOp} {s s' : IssueState}
    (h : LoopNext ctx guard w done s) (hdone : w.done = false) (hguard : u.guard = guard)
    (hret : u.isRet = false) (hstep : uopStep ctx inst u s = (none, s')) :
    LoopNext ctx guard w (done ++ [u]) s' := by
  obtain ⟨hregs, hidle, htarget, htaken, hsplit⟩ := h
  have hactive : s.warp.active = w.active := by
    obtain ⟨_, _, _, heq⟩ := hregs
    rw [heq]
  have hsdone : s.warp.done = false := by
    obtain ⟨_, _, _, heq⟩ := hregs
    rw [heq, hdone]
  have hmem : ∀ v ∈ done ++ [u], v ∈ done ∨ v = u := by simp
  cases uopStep_effect hsdone hstep with
  | regs hkind hregs' =>
      have hnot : u.isBra = false := by simp [MicroOp.isBra, hkind]
      refine ⟨hregs.trans hregs', hidle, fun hmask v hv hbra => ?_, fun t ht => ?_, hsplit⟩
      · rcases hmem v hv with hv | rfl
        · exact htarget hmask v hv hbra
        · simp [hnot] at hbra
      · obtain ⟨v, hv, hbra⟩ := htaken t ht
        exact ⟨v, by simp [hv], hbra⟩
  | ret hkind hop => simp [MicroOp.isRet, hkind, hop] at hret
  | idle hkind hop hmask =>
      rw [hactive, hguard] at hmask
      refine ⟨hregs, hidle, fun hmask' => by simp [hmask] at hmask', fun t ht => ?_, hsplit⟩
      rw [(hidle hmask).1] at ht
      cases ht
  | branch hkind hop hinputs himm hmask hdetect hnext =>
      rw [hactive, hguard] at hmask
      refine ⟨hregs, fun hmask' => by simp [hmask] at hmask', fun _ v hv hbra => ?_,
        fun t ht => ⟨u, by simp, by simp [MicroOp.isBra, hkind, hop]⟩, fun split hsome => ?_⟩
      · rcases hmem v hv with hv | rfl
        · obtain ⟨o, ho, hoimm, honext⟩ := htarget hmask v hv hbra
          refine ⟨o, ho, hoimm, ?_⟩
          rcases hnext with hnone | hsame
          · rw [hnone] at honext
            cases honext
          · rw [← honext, hsame]
        · exact ⟨_, hinputs, himm, rfl⟩
      · cases hdetect with
        | uniform =>
            obtain ⟨htgt, hfall⟩ := hsplit split hsome
            refine ⟨?_, hfall⟩
            rcases hnext with hnone | hsame
            · rw [hnone] at htgt
              cases htgt
            · rw [← htgt, hsame]
        | diverges hfall hpc hreconv =>
            cases hsome
            rw [hactive, hguard] at hfall
            exact ⟨rfl, hfall⟩

theorem LoopNext.loop {w : WarpState} {done uops : List MicroOp} {s s' : IssueState}
    (h : LoopNext ctx guard w done s) (hdone : w.done = false)
    (hguard : ∀ u ∈ uops, u.guard = guard) (hret : ∀ u ∈ uops, u.isRet = false)
    (hloop : uopLoop ctx inst uops s = (none, s')) : LoopNext ctx guard w (done ++ uops) s' := by
  induction uops generalizing done s with
  | nil =>
      cases hloop
      rwa [List.append_nil]
  | cons u uops ih =>
      rw [uopLoop] at hloop
      split at hloop
      · cases hloop
      next s₁ hstep =>
        have h₁ := h.uop hdone (hguard u (by simp)) (hret u (by simp)) hstep
        have hrest := ih h₁ (fun v hv => hguard v (by simp [hv]))
          (fun v hv => hret v (by simp [hv])) hloop
        rwa [List.append_assoc, List.singleton_append] at hrest

/-- No micro-op moves the warp's program counter. -/
theorem UopEffect.pc_done {u : MicroOp} {s s' : IssueState} {f : Option Fault}
    (h : UopEffect ctx u s f s') :
    s'.warp.pc = s.warp.pc ∧ s'.warp.done = s.warp.done := by
  cases h with
  | regs hkind hregs =>
      obtain ⟨_, _, _, rfl⟩ := hregs
      exact ⟨rfl, rfl⟩
  | ret =>
      unfold ctrlRet
      dsimp only
      repeat' split
      all_goals exact ⟨rfl, rfl⟩
  | idle => exact ⟨rfl, rfl⟩
  | fault hkind hwarp => rw [hwarp]; exact ⟨rfl, rfl⟩
  | branch => exact ⟨rfl, rfl⟩

theorem ctrlRet_split (u : MicroOp) (s : IssueState) : (ctrlRet u s).split = s.split := by
  unfold ctrlRet
  dsimp only
  repeat' split
  all_goals rfl

/-- The reconvergence point of a recorded split is the table's entry. -/
theorem split_reconvPc {uops : List MicroOp} {s s' : IssueState} (hdone : s.warp.done = false)
    (hsplit : ∀ split, s.split = some split →
      ctx.reconvPc[s.warp.pc.toNat]? = some (some split.reconvPc))
    (hloop : uopLoop ctx inst uops s = (none, s')) :
    s'.warp.pc = s.warp.pc ∧ ∀ split, s'.split = some split →
      ctx.reconvPc[s.warp.pc.toNat]? = some (some split.reconvPc) := by
  induction uops generalizing s with
  | nil =>
      cases hloop
      exact ⟨rfl, hsplit⟩
  | cons u uops ih =>
      rw [uopLoop] at hloop
      split at hloop
      · cases hloop
      next s₁ hstep =>
        have heffect := uopStep_effect hdone hstep
        obtain ⟨hpc, hdone₁⟩ := heffect.pc_done
        have hsplit₁ : ∀ split, s₁.split = some split →
            ctx.reconvPc[s₁.warp.pc.toNat]? = some (some split.reconvPc) := by
          rw [hpc]
          cases heffect with
          | regs => exact hsplit
          | ret =>
              rw [ctrlRet_split]
              exact hsplit
          | idle => exact hsplit
          | branch hkind hop hinputs himm hmask hdetect hnext =>
              intro split hsome
              cases hdetect with
              | uniform => exact hsplit split hsome
              | diverges hfall hpc' hreconv =>
                  cases hsome
                  exact hreconv
        rw [← hpc]
        exact ih (hdone₁.trans hdone) hsplit₁ hloop

end Loop

/-! ### The edges -/

/-- A path at `pc` may go on at `pc'`: along an edge, or after an instruction that returns. -/
def Leads (ctx : WarpContext) (pc pc' : Int) : Prop :=
  CfgEdge ctx.kernel ctx.registry ctx.warpSize (nodeOf ctx.nInsts pc) (nodeOf ctx.nInsts pc')
    ∨ CfgEdge ctx.kernel ctx.registry ctx.warpSize (nodeOf ctx.nInsts pc) ctx.nInsts

section Edges

variable {ctx : WarpContext} {inst : InstRecord} {desc : InstDesc} {guard : LaneMask}
  {w : WarpState}

theorem Decoded.nodeOf_pc (h : Decoded ctx w inst desc guard) :
    nodeOf ctx.nInsts w.pc = w.pc.toNat := by
  have hlt : w.pc.toNat < ctx.nInsts := (List.getElem?_eq_some_iff.mp h.fetched).1
  rw [nodeOf, if_pos ⟨h.pcNonneg, hlt⟩]

/-- The micro-ops the loop runs classify as the instruction does. -/
theorem Decoded.classify (h : Decoded ctx w inst desc guard) :
    ∃ info, classifyInst inst ctx.registry ctx.warpSize = some info
      ∧ info.isPredicated = inst.pred.isSome
      ∧ info.hasRet = (guardedUops ctx inst desc guard).any MicroOp.isRet
      ∧ info.hasBra = (guardedUops ctx inst desc guard).any MicroOp.isBra
      ∧ ∀ target, BranchesTo (guardedUops ctx inst desc guard) target → info.hasBra = true →
          info.braTarget = some target := by
  have hany : ∀ p :
      MicroOp → Bool, (∀ (u : MicroOp) (m : LaneMask), p { u with guard := m } = p u) →
      (guardedUops ctx inst desc guard).any p = (expand inst desc ctx.warpSize).any p := by
    intro p hp
    rw [guardedUops, List.any_map]
    congr 1
    funext u
    exact hp u guard
  have hbra := hany MicroOp.isBra fun _ _ => rfl
  obtain ⟨hpred, hret, hhasBra⟩ := foldl_classifyUop_flags (expand inst desc ctx.warpSize)
    { isPredicated := inst.pred.isSome }
  refine ⟨_, by rw [classifyInst, h.looked], hpred, ?_, ?_, fun target htarget hhas => ?_⟩
  · rw [hret, hany MicroOp.isRet fun _ _ => rfl, Bool.false_or]
  · rw [hhasBra, hbra, Bool.false_or]
  · have hexpand : BranchesTo (expand inst desc ctx.warpSize) target := by
      intro u hu hubra
      exact htarget { u with guard := guard } (List.mem_map.mpr ⟨u, hu, rfl⟩) hubra
    rw [hhasBra, Bool.false_or] at hhas
    rw [foldl_classifyUop_target hexpand, if_pos hhas]

/-- An unpredicated instruction runs all the lanes of the path. -/
theorem Decoded.unpredicated (hws : ctx.warpSize ≤ 32) (h : Decoded ctx w inst desc guard)
    (hpred : inst.pred = none) (hactive : w.active.Fits ctx.warpSize) :
    laneMaskEmpty (laneMaskAnd w.active guard) = laneMaskEmpty w.active
      ∧ laneMaskEmpty (laneMaskAnd w.active (laneMaskNotWidth guard)) = true := by
  have hguard := h.guarded.unpredicated hpred
  have hhas : ∀ lane, w.active.has lane = true → guard.has lane = true := by
    intro lane hlane
    rw [hguard, has_laneMaskAll hws]
    exact decide_eq_true (hactive.lt lane hlane)
  refine ⟨?_, laneMaskEmpty_iff.mpr fun lane => ?_⟩
  · congr 1
    refine LaneMask.ext_has rfl fun lane => ?_
    rw [has_laneMaskAnd]
    cases hlane : w.active.has lane with
    | false => rfl
    | true => rw [hhas lane hlane]; rfl
  · rw [has_and_not hws h.guarded.fits.width hactive]
    cases hlane : w.active.has lane with
    | false => rfl
    | true => rw [hhas lane hlane]; rfl

/-- **The edges an issue follows.** -/
theorem issue_leads (hws : ctx.warpSize ≤ 32)
    (hanalysis : analyzeControlFlow ctx.kernel ctx.registry ctx.warpSize = .ok ctx.reconvPc)
    (h : Decoded ctx w inst desc guard) (hdone : w.done = false)
    (hactive : w.active.Fits ctx.warpSize) (hlive : laneMaskEmpty w.active = false)
    {mem : MemState} {s : IssueState}
    (hloop : uopLoop ctx inst (guardedUops ctx inst desc guard) { warp := w, mem := mem }
      = (none, s)) :
    (s.split = none → Leads ctx w.pc (s.nextPc.getD (w.pc + 1)))
      ∧ ∀ split, s.split = some split →
          Leads ctx w.pc split.targetPc ∧ Leads ctx w.pc (w.pc + 1) := by
  obtain ⟨pd, -, hinsts⟩ := analyzeControlFlow_ok hanalysis
  obtain ⟨⟨succ, hsucc⟩, -⟩ := hinsts _ _ h.fetched
  obtain ⟨info, hinfo, hpred, hret, hbra, htarget⟩ := h.classify
  have hedge : ∀ pc', nodeOf ctx.nInsts pc' ∈ succ → Leads ctx w.pc pc' := by
    intro pc' hmem
    refine .inl ?_
    rw [h.nodeOf_pc]
    exact ⟨inst, succ, h.fetched, hsucc, hmem⟩
  have hft : fallthroughNode ctx.nInsts w.pc.toNat = nodeOf ctx.nInsts (w.pc + 1) :=
    fallthroughNode_eq _ h.pcNonneg
  have hclass := instSucc_ok hsucc
  rw [hinfo] at hclass
  -- an instruction that returns has only the edge to the exit
  by_cases hhasRet : info.hasRet = true
  · have hexit : ∀ pc', Leads ctx w.pc pc' := by
      intro pc'
      refine .inr ?_
      rw [h.nodeOf_pc]
      refine ⟨inst, succ, h.fetched, hsucc, ?_⟩
      cases hclass with
      | ret => exact List.mem_singleton.mpr rfl
      | plain hret' => simp [hhasRet] at hret'
      | branch hret' => simp [hhasRet] at hret'
      | jump hret' => simp [hhasRet] at hret'
      | noTarget hret' => simp [hhasRet] at hret'
    exact ⟨fun _ => hexit _, fun _ _ => ⟨hexit _, hexit _⟩⟩
  have hnoRet : ∀ u ∈ guardedUops ctx inst desc guard, u.isRet = false := by
    rw [hret, List.any_eq_true] at hhasRet
    intro u hu
    by_contra hcon
    exact hhasRet ⟨u, hu, by simpa using hcon⟩
  have hstart : LoopNext ctx guard w [] { warp := w, mem := mem } :=
    ⟨OnlyRegs.refl w, fun _ => ⟨rfl, rfl⟩, by simp, by simp, by simp⟩
  have hnext := hstart.loop hdone (fun u => guard_of_mem_guardedUops) hnoRet hloop
  rw [List.nil_append] at hnext
  -- a branch that was taken read the target that the classification reports
  have hread : ∀ target, s.nextPc = some target →
      info.hasBra = true ∧ info.braTarget = some target := by
    intro target hsome
    obtain ⟨u, hu, hubra⟩ := hnext.taken target hsome
    have hhas : info.hasBra = true := by
      rw [hbra, List.any_eq_true]
      exact ⟨u, hu, hubra⟩
    refine ⟨hhas, htarget target (fun v hv hvbra => ?_) hhas⟩
    have hmask : laneMaskEmpty (laneMaskAnd w.active guard) = false := by
      cases hmask : laneMaskEmpty (laneMaskAnd w.active guard) with
      | false => rfl
      | true =>
          rw [(hnext.idle hmask).1] at hsome
          cases hsome
    obtain ⟨o, ho, himm, hsame⟩ := hnext.target hmask v hv hvbra
    rw [hsome] at hsame
    exact ⟨o, ho, himm, (Option.some.inj hsame).symm⟩
  -- without a predicate every lane of the path takes the branch, so there is no split
  have hjump : info.isPredicated = false → info.hasBra = true →
      (∃ target, s.nextPc = some target) ∧ s.split = none := by
    intro hunpred hhas
    rw [hpred, Option.isSome_eq_false_iff, Option.isNone_iff_eq_none] at hunpred
    obtain ⟨hmask, hfall⟩ := h.unpredicated hws hunpred hactive
    rw [hlive] at hmask
    rw [hbra, List.any_eq_true] at hhas
    obtain ⟨u, hu, hubra⟩ := hhas
    obtain ⟨o, -, -, hsome⟩ := hnext.target hmask u hu hubra
    refine ⟨⟨_, hsome⟩, Option.eq_none_iff_forall_ne_some.mpr fun split hsplit => ?_⟩
    have hfall' := (hnext.split split hsplit).2
    rw [hfall] at hfall'
    cases hfall'
  cases hclass with
  | ret hret' => exact absurd hret' hhasRet
  | plain hret' hbra' =>
      have hnone : s.nextPc = none := by
        refine Option.eq_none_iff_forall_ne_some.mpr fun target hsome => ?_
        have hhas := (hread target hsome).1
        rw [hbra'] at hhas
        cases hhas
      refine ⟨fun _ => ?_, fun split hsplit => ?_⟩
      · rw [hnone]
        exact hedge _ (List.mem_singleton.mpr hft.symm)
      · rw [(hnext.split split hsplit).1] at hnone
        cases hnone
  | branch hret' hbra' hpred' htarget' hnonneg hlt =>
      have htaken : ∀ target, s.nextPc = some target → Leads ctx w.pc target := by
        intro target hsome
        have hsame := (hread target hsome).2
        rw [htarget'] at hsame
        cases hsame
        refine hedge _ (List.mem_cons.mpr (.inl ?_))
        rw [nodeOf, if_pos ⟨hnonneg, hlt⟩]
      have hfall : Leads ctx w.pc (w.pc + 1) :=
        hedge _ (List.mem_cons_of_mem _ (List.mem_singleton.mpr hft.symm))
      refine ⟨fun _ => ?_, fun split hsplit => ⟨htaken _ (hnext.split split hsplit).1, hfall⟩⟩
      cases hnextPc : s.nextPc with
      | none => exact hfall
      | some target => exact htaken target hnextPc
  | jump hret' hbra' hpred' htarget' =>
      obtain ⟨⟨target, hsome⟩, hnoSplit⟩ := hjump hpred' hbra'
      refine ⟨fun _ => ?_, fun split hsplit => ?_⟩
      · have hsame := (hread target hsome).2
        rw [htarget'] at hsame
        cases hsame
        rw [hsome]
        exact hedge _ (List.mem_singleton.mpr rfl)
      · rw [hnoSplit] at hsplit
        cases hsplit
  | noTarget hret' hbra' hpred' htarget' =>
      obtain ⟨⟨target, hsome⟩, -⟩ := hjump hpred' hbra'
      have hsame := (hread target hsome).2
      rw [htarget'] at hsame
      cases hsame

end Edges

end ProtoGpu

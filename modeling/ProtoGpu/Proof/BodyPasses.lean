import ProtoGpu.Proof.ParserRun

/-!
# The two passes over a body

The first pass numbers the labels by the lines it takes for instructions, the second keeps the lines
that give one. Both leave a line alone that is blank, a declaration, a directive or a label.
-/

namespace ProtoGpu

open Throwing

/-! ### Lines -/

/-- The line is neither blank nor a declaration, a directive or a label. -/
def isInstLine (line : Nat × Text) : Bool :=
  let s := bodyText line
  !(s.isEmpty || s.startsWith ".reg".toList || isDirective s || isLabel s)

/-- The name a label line defines. -/
def labelName (line : Nat × Text) : Option Text :=
  let s := bodyText line
  if s.isEmpty || s.startsWith ".reg".toList || isDirective s || !isLabel s then none
  else
    let name := Text.trim s.dropLast
    if name.isEmpty then none else some name

/-- The instruction of a line, before the rewriting of its operands, if it has one. -/
def bodyInst (fileName : String) (line : Nat × Text) : Except String (Option TokenizedPtxInst) :=
  if isInstLine line then do
    let inst ← tokenizeInstLine (bodyText line) fileName line.1
    .ok (if inst.ptxOpcode.isEmpty then none else some inst)
  else .ok none

/-- The rewriting of the operands of an instruction. -/
def finishInst (order : AliasOrder) (labelToPc : List (Text × Nat)) (regAlias : List (Text × Text))
    (inst : TokenizedPtxInst) : TokenizedPtxInst :=
  resolveBranch labelToPc (markLocal regAlias { inst with
    operandTokens := inst.operandTokens.map (rewriteNamedRegs (order.visit regAlias)) })

/-! ### The second pass -/

@[simp]
theorem markLocal_opcode (regAlias : List (Text × Text)) (inst : TokenizedPtxInst) :
    (markLocal regAlias inst).ptxOpcode = inst.ptxOpcode := by
  unfold markLocal
  split
  · split
    · rfl
    · split <;> rfl
  · rfl

@[simp]
theorem markLocal_operandTokens (regAlias : List (Text × Text)) (inst : TokenizedPtxInst) :
    (markLocal regAlias inst).operandTokens = inst.operandTokens := by
  unfold markLocal
  split
  · split
    · rfl
    · split <;> rfl
  · rfl

@[simp]
theorem resolveBranch_opcode (labelToPc : List (Text × Nat)) (inst : TokenizedPtxInst) :
    (resolveBranch labelToPc inst).ptxOpcode = inst.ptxOpcode := by
  unfold resolveBranch
  split
  · split
    · split <;> rfl
    · rfl
  · rfl

@[simp]
theorem finishInst_opcode (order : AliasOrder) (labelToPc : List (Text × Nat))
    (regAlias : List (Text × Text)) (inst : TokenizedPtxInst) :
    (finishInst order labelToPc regAlias inst).ptxOpcode = inst.ptxOpcode := by
  simp [finishInst]

variable {order : AliasOrder} {fileName : String} {labelToPc : List (Text × Nat)}
  {regAlias : List (Text × Text)} {insts : List TokenizedPtxInst}

theorem emitLine_eq (line : Nat × Text) :
    emitLine order fileName labelToPc regAlias insts line
      = (bodyInst fileName line).map fun inst =>
          insts ++ (inst.map (finishInst order labelToPc regAlias)).toList := by
  unfold emitLine bodyInst
  dsimp only
  cases hinst : isInstLine line with
  | false =>
    have hskip : ((bodyText line).isEmpty || (bodyText line).startsWith ".reg".toList
        || isDirective (bodyText line) || isLabel (bodyText line)) = true := by
      rwa [isInstLine, Bool.not_eq_false'] at hinst
    rw [if_pos hskip]
    simp [Except.map]
  | true =>
    have hskip : ((bodyText line).isEmpty || (bodyText line).startsWith ".reg".toList
        || isDirective (bodyText line) || isLabel (bodyText line)) = false := by
      rwa [isInstLine, Bool.not_eq_true'] at hinst
    rw [if_neg (by rw [hskip]; decide), if_pos rfl]
    cases htok : tokenizeInstLine (bodyText line) fileName line.1 with
    | error what => rfl
    | ok inst =>
      have hopcode := finishInst_opcode order labelToPc regAlias inst
      unfold finishInst at hopcode
      simp only [bind, Except.bind, Except.map, hopcode]
      cases hnil : inst.ptxOpcode.isEmpty with
      | true => simp
      | false => rfl

/-- What the second pass makes of the lines. -/
theorem emitLines_ok {lines : List (Nat × Text)} {insts' : List TokenizedPtxInst}
    (hemit : lines.foldlM (emitLine order fileName labelToPc regAlias) insts = .ok insts') :
    ∃ found, List.Forall₂ (fun line inst => bodyInst fileName line = .ok inst) lines found ∧
      insts' = insts ++ found.filterMap (Option.map (finishInst order labelToPc regAlias)) := by
  induction lines generalizing insts with
  | nil =>
    obtain rfl : insts = insts' := by simpa [pure, Except.pure] using hemit
    exact ⟨[], .nil, by simp⟩
  | cons line lines ih =>
    obtain ⟨mid, hline, hrest⟩ := foldlM_cons_ok.mp hemit
    rw [emitLine_eq] at hline
    cases hinst : bodyInst fileName line with
    | error what =>
      rw [hinst] at hline
      cases hline
    | ok inst =>
      rw [hinst] at hline
      cases hline
      obtain ⟨found, hfound, rfl⟩ := ih hrest
      refine ⟨inst :: found, .cons hinst hfound, ?_⟩
      cases inst <;> simp

/-- The order of the names decides what a body becomes, not whether it can be read. -/
theorem emitLines_total {lines : List (Nat × Text)} {found : List (Option TokenizedPtxInst)}
    (hfound : List.Forall₂ (fun line inst => bodyInst fileName line = .ok inst) lines found) :
    ∃ insts', lines.foldlM (emitLine order fileName labelToPc regAlias) insts = .ok insts' := by
  induction hfound generalizing insts with
  | nil => exact ⟨insts, rfl⟩
  | cons hline _ ih =>
    obtain ⟨insts', hrest⟩ := ih
    exact ⟨insts', foldlM_cons_ok.mpr ⟨_, by rw [emitLine_eq, hline]; rfl, hrest⟩⟩

/-! ### The first pass -/

/-- The names the lines define, each with the number of instruction lines before it. -/
def labelPcs : Nat → List (Nat × Text) → List (Text × Nat)
  | _, [] => []
  | pc, line :: lines =>
      ((labelName line).map fun name => (name, pc)).toList
        ++ labelPcs (pc + if isInstLine line then 1 else 0) lines

theorem scanReg_labels {scan scan' : BodyScan} {s : Text} (hscan : scanReg scan s = .ok scan') :
    scan'.pc = scan.pc ∧ scan'.labelToPc = scan.labelToPc := by
  unfold scanReg at hscan
  split at hscan
  · dsimp only at hscan
    split at hscan
    · split at hscan
      · obtain ⟨count, -, hok⟩ := bind_ok.mp hscan
        cases hok
        exact ⟨rfl, rfl⟩
      · cases hscan
        split <;> exact ⟨rfl, rfl⟩
    · cases hscan
      split <;> exact ⟨rfl, rfl⟩
  · cases hscan
    exact ⟨rfl, rfl⟩

theorem scanLine_labels {scan scan' : BodyScan} {line : Nat × Text}
    (hscan : scanLine scan line = .ok scan') :
    scan'.pc = scan.pc + (if isInstLine line then 1 else 0) ∧
      scan'.labelToPc = ((labelName line).map fun name => (name, scan.pc)).toList
        ++ scan.labelToPc := by
  unfold scanLine at hscan
  unfold labelName isInstLine
  dsimp only at hscan ⊢
  split at hscan
  · next hnil =>
    cases hscan
    simp only [hnil, Bool.true_or, if_true]
    exact ⟨rfl, rfl⟩
  · next hnil =>
    split at hscan
    · next hreg =>
      obtain ⟨hpc, hlabels⟩ := scanReg_labels hscan
      simp only [hpc, hlabels, hreg, Bool.true_or, Bool.or_true, if_true]
      exact ⟨rfl, rfl⟩
    · next hreg =>
      split at hscan
      · next hdir =>
        cases hscan
        simp only [hdir, Bool.true_or, Bool.or_true, if_true]
        exact ⟨rfl, rfl⟩
      · next hdir =>
        rw [Bool.not_eq_true] at hnil hreg hdir
        split at hscan
        · next hlabel =>
          cases hscan
          simp only [hnil, hreg, hdir, hlabel, Bool.or_true, Bool.not_true, Bool.or_false,
            Bool.false_eq_true, if_false]
          split <;> exact ⟨rfl, rfl⟩
        · next hlabel =>
          cases hscan
          rw [Bool.not_eq_true] at hlabel
          simp only [hnil, hreg, hdir, hlabel, Bool.or_false, Bool.not_false, Bool.or_true, if_true]
          exact ⟨trivial, rfl⟩

theorem scanLines_labels {scan scan' : BodyScan} {lines : List (Nat × Text)}
    (hscan : lines.foldlM scanLine scan = .ok scan') :
    scan'.labelToPc = (labelPcs scan.pc lines).reverse ++ scan.labelToPc := by
  induction lines generalizing scan with
  | nil =>
    obtain rfl : scan = scan' := by simpa [pure, Except.pure] using hscan
    rfl
  | cons line lines ih =>
    obtain ⟨mid, hline, hrest⟩ := foldlM_cons_ok.mp hscan
    obtain ⟨hpc, hlabels⟩ := scanLine_labels hline
    rw [ih hrest, hpc, hlabels, labelPcs, List.reverse_append]
    cases labelName line <;> simp

theorem labelPcs_append (pc : Nat) (a b : List (Nat × Text)) :
    labelPcs pc (a ++ b) = labelPcs pc a ++ labelPcs (pc + a.countP isInstLine) b := by
  induction a generalizing pc with
  | nil => rfl
  | cons line a ih =>
    rw [List.cons_append, labelPcs, labelPcs, ih, List.append_assoc, List.countP_cons,
      Nat.add_assoc, Nat.add_comm (a.countP isInstLine)]

theorem lookup_labelPcs_none {lines : List (Nat × Text)} {name : Text}
    (hnone : ∀ l ∈ lines, labelName l ≠ some name) (pc : Nat) :
    (labelPcs pc lines).reverse.lookup name = none := by
  induction lines generalizing pc with
  | nil => rfl
  | cons line lines ih =>
    rw [labelPcs, List.reverse_append, List.lookup_append,
      ih (fun l hl => hnone l (List.mem_cons_of_mem _ hl)), Option.none_or]
    cases hlabel : labelName line with
    | none => rfl
    | some other =>
      have hne : name ≠ other := by
        rintro rfl
        exact hnone line (List.mem_cons_self ..) hlabel
      simp [List.lookup, beq_false_of_ne hne]

theorem lookup_labelPcs_last {before after : List (Nat × Text)} {line : Nat × Text} {name : Text}
    (hlabel : labelName line = some name) (hafter : ∀ l ∈ after, labelName l ≠ some name)
    (pc : Nat) : (labelPcs pc (before ++ line :: after)).reverse.lookup name
      = some (pc + before.countP isInstLine) := by
  rw [labelPcs_append, labelPcs, hlabel, List.reverse_append, List.reverse_append,
    List.lookup_append, List.lookup_append, lookup_labelPcs_none hafter]
  simp

theorem exists_last_label {lines : List (Nat × Text)} {name : Text}
    (hsome : ∃ l ∈ lines, labelName l = some name) :
    ∃ before line after, lines = before ++ line :: after ∧ labelName line = some name ∧
      ∀ l ∈ after, labelName l ≠ some name := by
  induction lines with
  | nil => simp at hsome
  | cons first lines ih =>
    by_cases hlater : ∃ l ∈ lines, labelName l = some name
    · obtain ⟨before, line, after, rfl, hlabel, hafter⟩ := ih hlater
      exact ⟨first :: before, line, after, rfl, hlabel, hafter⟩
    · push Not at hlater
      obtain ⟨l, hl, hlabel⟩ := hsome
      rcases List.mem_cons.mp hl with rfl | hl
      · exact ⟨[], l, lines, rfl, hlabel, hlater⟩
      · exact absurd hlabel (hlater l hl)

/-- The label table holds what the last line that defines the name was given. -/
theorem lookup_labelPcs_iff {lines : List (Nat × Text)} {name : Text} {n : Nat} :
    (labelPcs 0 lines).reverse.lookup name = some n ↔
      ∃ before line after, lines = before ++ line :: after ∧ labelName line = some name ∧
        (∀ l ∈ after, labelName l ≠ some name) ∧ before.countP isInstLine = n := by
  constructor
  · intro hlookup
    have hsome : ∃ l ∈ lines, labelName l = some name := by
      by_contra hnone
      push Not at hnone
      rw [lookup_labelPcs_none hnone] at hlookup
      cases hlookup
    obtain ⟨before, line, after, rfl, hlabel, hafter⟩ := exists_last_label hsome
    rw [lookup_labelPcs_last hlabel hafter, Nat.zero_add, Option.some.injEq] at hlookup
    exact ⟨before, line, after, rfl, hlabel, hafter, hlookup⟩
  · rintro ⟨before, line, after, rfl, hlabel, hafter, rfl⟩
    rw [lookup_labelPcs_last hlabel hafter, Nat.zero_add]

/-! ### The whole body -/

/-- The aliases of the named registers of a body. -/
def bodyAliases (cur : KernelTokens) (lines : List (Nat × Text)) : Except String Aliases := do
  let scan ← lines.foldlM scanLine { cur := cur }
  .ok (scan.pendingNamed.foldl assignAlias { cur := scan.cur })

/-- What a closed kernel has: the instructions its lines give, with their operands rewritten. -/
theorem closeKernel_insts {cur k : KernelTokens} {lines : List (Nat × Text)}
    (hclose : closeKernel order fileName cur lines = .ok k) :
    ∃ aliases found, bodyAliases cur lines = .ok aliases ∧
      List.Forall₂ (fun line inst => bodyInst fileName line = .ok inst) lines found ∧
      k.insts = cur.insts ++ found.filterMap
        (Option.map (finishInst order (labelPcs 0 lines).reverse aliases.regAlias)) := by
  obtain ⟨scan, hscan, hrest⟩ := bind_ok.mp hclose
  obtain ⟨insts, hemit, hk⟩ := bind_ok.mp hrest
  cases hk
  have hlabels : scan.labelToPc = (labelPcs 0 lines).reverse := by
    simpa using scanLines_labels hscan
  have haliases := assignAliases_onlyCounts scan.pendingNamed { cur := scan.cur }
  obtain ⟨found, hfound, hinsts⟩ := emitLines_ok hemit
  refine ⟨scan.pendingNamed.foldl assignAlias { cur := scan.cur }, found, ?_, hfound, ?_⟩
  · rw [bodyAliases, hscan]
    rfl
  · rw [hinsts, hlabels, haliases.insts, (scanLines_onlyCounts hscan).insts]

/-- Whether a body can be read does not depend on the order of the names. -/
theorem closeKernel_order {cur k : KernelTokens} {lines : List (Nat × Text)}
    (hclose : closeKernel order fileName cur lines = .ok k) (order' : AliasOrder) :
    ∃ k', closeKernel order' fileName cur lines = .ok k' := by
  obtain ⟨scan, hscan, hrest⟩ := bind_ok.mp hclose
  obtain ⟨insts, hemit, -⟩ := bind_ok.mp hrest
  obtain ⟨found, hfound, -⟩ := emitLines_ok hemit
  obtain ⟨insts', hemit'⟩ := emitLines_total hfound
  exact ⟨_, bind_ok.mpr ⟨scan, hscan, bind_ok.mpr ⟨insts', hemit', rfl⟩⟩⟩

/-! ### Where an instruction of a body comes to stand -/

/-- The line gives an instruction. -/
def yields (fileName : String) (line : Nat × Text) : Bool :=
  match bodyInst fileName line with
  | .ok (some _) => true
  | _ => false

theorem isInstLine_of_yields {line : Nat × Text} (hyields : yields fileName line = true) :
    isInstLine line = true := by
  by_contra hno
  rw [yields, bodyInst, if_neg hno] at hyields
  cases hyields

/-- The instruction of a line stands behind as many as the lines before it give. -/
theorem getElem?_found {before after : List (Nat × Text)} {line : Nat × Text}
    {found : List (Option TokenizedPtxInst)} {inst : TokenizedPtxInst}
    (hfound : List.Forall₂ (fun line inst => bodyInst fileName line = .ok inst)
      (before ++ line :: after) found)
    (hinst : bodyInst fileName line = .ok (some inst)) (f : TokenizedPtxInst → TokenizedPtxInst) :
    (found.filterMap (Option.map f))[before.countP (yields fileName)]? = some (f inst) := by
  induction before generalizing found with
  | nil =>
    obtain ⟨_, rest, hhead, -, rfl⟩ := List.forall₂_cons_left_iff.mp hfound
    rw [hinst, Except.ok.injEq] at hhead
    rw [← hhead]
    rfl
  | cons first before ih =>
    obtain ⟨got, rest, hhead, hrest, rfl⟩ := List.forall₂_cons_left_iff.mp hfound
    rw [List.countP_cons]
    cases got with
    | none =>
      have hno : yields fileName first = false := by simp [yields, hhead]
      simpa [hno] using ih hrest
    | some got =>
      have hyes : yields fileName first = true := by simp [yields, hhead]
      simpa [hyes] using ih hrest

end ProtoGpu

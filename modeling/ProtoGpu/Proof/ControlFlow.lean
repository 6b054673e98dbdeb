import ProtoGpu.Lib.PostDominance
import ProtoGpu.Simt.ControlFlow

/-!
# What the analysis computes

When the sweep changes nothing, the sets it holds satisfy the data-flow equations for the successors
it used; the exit is in every set throughout. The reconvergence point of a predicated branch is then
an immediate post-dominator.
-/

namespace ProtoGpu

/-! ### Successors -/

theorem getElem?_buildSuccFrom {kernel : KernelImage} {registry : DescriptorRegistry}
    {warpSize : Nat} {pc : Nat} {insts : List InstRecord} {succs : List (List Nat)}
    (h : buildSuccFrom kernel registry warpSize pc insts = .ok succs) :
    succs.length = insts.length ∧ ∀ i inst, insts[i]? = some inst →
      ∃ succ, succs[i]? = some succ ∧ instSucc kernel registry warpSize (pc + i) inst
        = .ok succ := by
  induction insts generalizing pc succs with
  | nil =>
      cases h
      simp
  | cons inst insts ih =>
      rw [buildSuccFrom] at h
      split at h
      · cases h
      next succ hsucc =>
        split at h
        · cases h
        next rest hrest =>
          cases h
          obtain ⟨hlen, hget⟩ := ih hrest
          refine ⟨by simp [hlen], fun i inst' hi => ?_⟩
          cases i with
          | zero =>
              cases hi
              exact ⟨succ, rfl, hsucc⟩
          | succ i =>
              obtain ⟨s, hs, hinst⟩ := hget i inst' hi
              exact ⟨s, hs, by rw [← hinst]; congr 1; omega⟩

/-- The successors of an instruction, by its class. -/
inductive InstSucc (nInsts pc : Nat) : Option InstCtrlInfo → List Nat → Prop where
  | unclassified : InstSucc nInsts pc none [fallthroughNode nInsts pc]
  | ret {info : InstCtrlInfo} (hret : info.hasRet = true) : InstSucc nInsts pc (some info) [nInsts]
  | plain {info : InstCtrlInfo} (hret : info.hasRet = false) (hbra : info.hasBra = false) :
      InstSucc nInsts pc (some info) [fallthroughNode nInsts pc]
  | branch {info : InstCtrlInfo} {target : Int} (hret : info.hasRet = false)
      (hbra : info.hasBra = true) (hpred : info.isPredicated = true)
      (htarget : info.braTarget = some target) (hnonneg : 0 ≤ target)
      (hlt : target.toNat < nInsts) :
      InstSucc nInsts pc (some info) [target.toNat, fallthroughNode nInsts pc]
  | jump {info : InstCtrlInfo} {target : Int} (hret : info.hasRet = false)
      (hbra : info.hasBra = true) (hpred : info.isPredicated = false)
      (htarget : info.braTarget = some target) :
      InstSucc nInsts pc (some info) [nodeOf nInsts target]
  | noTarget {info : InstCtrlInfo} (hret : info.hasRet = false) (hbra : info.hasBra = true)
      (hpred : info.isPredicated = false) (htarget : info.braTarget = none) :
      InstSucc nInsts pc (some info) [fallthroughNode nInsts pc]

theorem instSucc_ok {kernel : KernelImage} {registry : DescriptorRegistry} {warpSize pc : Nat}
    {inst : InstRecord} {succ : List Nat}
    (h : instSucc kernel registry warpSize pc inst = .ok succ) :
    InstSucc kernel.insts.length pc (classifyInst inst registry warpSize) succ := by
  unfold instSucc at h
  dsimp only at h
  split at h
  next hclass =>
    cases h
    rw [hclass]
    exact .unclassified
  next info hclass =>
    rw [hclass]
    by_cases hret : info.hasRet
    · rw [if_pos hret] at h
      cases h
      exact .ret hret
    · rw [if_neg hret] at h
      rw [Bool.not_eq_true] at hret
      by_cases hbra : info.hasBra
      · rw [if_pos hbra] at h
        by_cases hpred : info.isPredicated
        · rw [if_pos hpred] at h
          split at h
          · cases h
          next target htarget =>
            split at h
            · cases h
            next hrange =>
              cases h
              rw [not_or] at hrange
              exact .branch hret hbra hpred htarget (Int.not_lt.mp hrange.1)
                (Nat.lt_of_not_ge hrange.2)
        · rw [if_neg hpred] at h
          rw [Bool.not_eq_true] at hpred
          split at h
          next htarget =>
            cases h
            exact .noTarget hret hbra hpred htarget
          next target htarget =>
            cases h
            exact .jump hret hbra hpred htarget
      · rw [if_neg hbra] at h
        rw [Bool.not_eq_true] at hbra
        cases h
        exact .plain hret hbra

theorem InstSucc.ne_nil {nInsts pc : Nat} {info : Option InstCtrlInfo} {succ : List Nat}
    (h : InstSucc nInsts pc info succ) : succ ≠ [] := by
  cases h <;> simp

theorem nodeOf_le (n : Nat) (pc : Int) : nodeOf n pc ≤ n := by
  unfold nodeOf
  split <;> omega

@[simp]
theorem nodeOf_self (n : Nat) : nodeOf n (n : Int) = n := by
  rw [nodeOf, if_neg (by omega)]

/-- In range, the node is the program counter. -/
theorem nodeOf_inj {n : Nat} {a b : Int} (ha : 0 ≤ a) (hlt : a.toNat < n)
    (h : nodeOf n b = nodeOf n a) : b = a := by
  have hnode : nodeOf n a = a.toNat := if_pos ⟨ha, hlt⟩
  rw [hnode, nodeOf] at h
  split at h <;> omega

theorem fallthroughNode_le (n pc : Nat) : fallthroughNode n pc ≤ n := by
  unfold fallthroughNode
  split <;> omega

theorem fallthroughNode_eq (n : Nat) {pc : Int} (h : 0 ≤ pc) :
    fallthroughNode n pc.toNat = nodeOf n (pc + 1) := by
  unfold fallthroughNode nodeOf
  have htoNat : (pc + 1).toNat = pc.toNat + 1 := by omega
  rw [htoNat]
  split
  · rw [if_pos ⟨by omega, by assumption⟩]
  · rw [if_neg (by omega)]

theorem InstSucc.le {nInsts pc : Nat} {info : Option InstCtrlInfo} {succ : List Nat}
    (h : InstSucc nInsts pc info succ) : ∀ s ∈ succ, s ≤ nInsts := by
  have hft := fallthroughNode_le nInsts pc
  cases h with
  | unclassified => simpa using hft
  | ret => simp
  | plain => simpa using hft
  | branch hret hbra hpred htarget hnonneg hlt => 
      simp only [List.mem_cons, List.not_mem_nil, or_false, forall_eq_or_imp, forall_eq]
      exact ⟨hlt.le, hft⟩
  | jump hret hbra hpred htarget => simpa using nodeOf_le nInsts _
  | noTarget => simpa using hft

/-! ### Sweeps -/

/-- The sets during the iteration: as many as nodes, of that size, the exit in each. -/
structure PostdomInv (exitNode : Nat) (postdom : List BitSet) : Prop where
  length : postdom.length = exitNode + 1
  size : ∀ b ∈ postdom, b.length = exitNode + 1
  exit : postdom.getD exitNode [] = BitSet.singleton (exitNode + 1) exitNode
  exitMem : ∀ i ≤ exitNode, (postdom.getD i []).test exitNode = true

@[simp]
theorem BitSet.length_iand (a b : BitSet) : (a.iand b).length = min a.length b.length := by
  simp [BitSet.iand]

theorem BitSet.test_iand (a b : BitSet) (c : Nat) :
    (a.iand b).test c = (a.test c && b.test c) := by
  simp only [BitSet.test, BitSet.iand, List.getD_eq_getElem?_getD, List.getElem?_zipWith]
  cases a[c]? <;> cases b[c]? <;> simp

theorem BitSet.test_insert {b : BitSet} {idx : Nat} (h : idx < b.length) (c : Nat) :
    (BitSet.insert b idx).test c = (decide (c = idx) || b.test c) := by
  simp only [BitSet.test, BitSet.insert, List.getD_eq_getElem?_getD, List.getElem?_set]
  by_cases hc : idx = c
  · subst hc
    simp [h]
  · simp [hc, Ne.symm hc]

theorem BitSet.test_singleton {n idx : Nat} (h : idx < n) (c : Nat) :
    (BitSet.singleton n idx).test c = decide (c = idx) := by
  rw [BitSet.singleton, BitSet.test_insert (by simpa using h)]
  have hzero : BitSet.test (List.replicate n false) c = false := by
    simp only [BitSet.test, List.getD_eq_getElem?_getD, List.getElem?_replicate]
    split <;> rfl
  rw [hzero, Bool.or_false]

section Sweep

variable {exitNode : Nat} {postdom : List BitSet}

theorem PostdomInv.length_getD (h : PostdomInv exitNode postdom) {i : Nat} (hi : i ≤ exitNode) :
    (postdom.getD i []).length = exitNode + 1 := by
  have hlt : i < postdom.length := by
    rw [h.length]
    omega
  rw [List.getD_eq_getElem _ _ hlt]
  exact h.size _ (List.getElem_mem hlt)

/-- Membership in a new set: the node itself, or in the sets of all successors. -/
theorem test_postdomOf (h : PostdomInv exitNode postdom) {succ : List Nat} (hne : succ ≠ [])
    (hsucc : ∀ s ∈ succ, s ≤ exitNode) {i : Nat} (hi : i ≤ exitNode) (c : Nat) :
    (postdomOf postdom succ exitNode i).test c
        = (decide (c = i) || succ.all fun s => (postdom.getD s []).test c)
      ∧ (postdomOf postdom succ exitNode i).length = exitNode + 1 := by
  cases succ with
  | nil => exact absurd rfl hne
  | cons s ss =>
      have hfold : ∀ (ts : List Nat) (acc : BitSet), (∀ t ∈ ts, t ≤ exitNode) →
          acc.length = exitNode + 1 →
          (ts.foldl (fun acc t => acc.iand (postdom.getD t [])) acc).test c
              = (acc.test c && ts.all fun t => (postdom.getD t []).test c)
            ∧ (ts.foldl (fun acc t => acc.iand (postdom.getD t [])) acc).length
              = exitNode + 1 := by
        intro ts
        induction ts with
        | nil => simp
        | cons t ts ih =>
            intro acc hts hacc
            have hlen : (acc.iand (postdom.getD t [])).length = exitNode + 1 := by
              rw [BitSet.length_iand, hacc, h.length_getD (hts t (by simp)), Nat.min_self]
            obtain ⟨htest, hlength⟩ := ih _ (fun u hu => hts u (by simp [hu])) hlen
            refine ⟨?_, hlength⟩
            rw [List.foldl_cons, htest, BitSet.test_iand, List.all_cons, Bool.and_assoc]
      obtain ⟨htest, hlength⟩ := hfold ss (postdom.getD s []) (fun t ht => hsucc t (by simp [ht]))
        (h.length_getD (hsucc s (by simp)))
      refine ⟨?_, ?_⟩
      · rw [postdomOf, BitSet.test_insert (by rw [hlength]; omega), htest, List.all_cons]
      · rw [postdomOf, BitSet.insert, List.length_set, hlength]

theorem PostdomInv.set (h : PostdomInv exitNode postdom) {succ : List Nat} (hne : succ ≠ [])
    (hsucc : ∀ s ∈ succ, s ≤ exitNode) {i : Nat} (hi : i < exitNode) :
    PostdomInv exitNode (postdom.set i (postdomOf postdom succ exitNode i)) where
  length := by rw [List.length_set, h.length]
  size := by
    intro b hb
    rcases List.mem_or_eq_of_mem_set hb with hb | rfl
    · exact h.size b hb
    · exact (test_postdomOf h hne hsucc hi.le 0).2
  exit := by
    rw [← h.exit, List.getD_eq_getElem?_getD, List.getElem?_set_ne (by omega),
      ← List.getD_eq_getElem?_getD]
  exitMem := by
    intro j hj
    by_cases hij : i = j
    · subst hij
      have hlt : i < (postdom.set i (postdomOf postdom succ exitNode i)).length := by
        rw [List.length_set, h.length]
        omega
      rw [List.getD_eq_getElem _ _ hlt, List.getElem_set_self,
        (test_postdomOf h hne hsucc hi.le exitNode).1, Bool.or_eq_true, List.all_eq_true]
      exact .inr fun s hs => h.exitMem s (hsucc s hs)
    · rw [List.getD_eq_getElem?_getD, List.getElem?_set_ne hij, ← List.getD_eq_getElem?_getD]
      exact h.exitMem j hj

variable {succs : List (List Nat)}

/-- A sweep keeps the shape of the sets; one that reports no change changed none and found each
node's equation true. -/
theorem postdomSweep_spec (hsuccs : ∀ i < exitNode, ∃ succ, succs[i]? = some succ ∧ succ ≠ []
      ∧ ∀ s ∈ succ, s ≤ exitNode)
    {nodes : List Nat} (hnodes : ∀ i ∈ nodes, i ≤ exitNode) {changed changed' : Bool}
    {postdom' : List BitSet} (h : PostdomInv exitNode postdom)
    (hsweep : postdomSweep succs exitNode nodes postdom changed = (postdom', changed')) :
    PostdomInv exitNode postdom' ∧ (changed' = false → changed = false ∧ postdom' = postdom
      ∧ ∀ i ∈ nodes, i ≠ exitNode →
          postdomOf postdom (succs.getD i []) exitNode i = postdom.getD i []) := by
  induction nodes generalizing postdom changed with
  | nil =>
      cases hsweep
      exact ⟨h, by simp⟩
  | cons i nodes ih =>
      have hnodes' : ∀ j ∈ nodes, j ≤ exitNode := fun j hj => hnodes j (by simp [hj])
      rw [postdomSweep] at hsweep
      split at hsweep
      next hexit =>
        obtain ⟨hinv, hsame⟩ := ih hnodes' h hsweep
        refine ⟨hinv, fun hfalse => ?_⟩
        obtain ⟨hchanged, heq, hfix⟩ := hsame hfalse
        refine ⟨hchanged, heq, fun j hj hne => ?_⟩
        rcases List.mem_cons.mp hj with rfl | hj
        · exact absurd hexit hne
        · exact hfix j hj hne
      next hexit =>
        have hi : i < exitNode := lt_of_le_of_ne (hnodes i (by simp)) hexit
        obtain ⟨succ, hsucc, hne, hle⟩ := hsuccs i hi
        have hgetD : succs.getD i [] = succ := by
          rw [List.getD_eq_getElem?_getD, hsucc, Option.getD_some]
        dsimp only at hsweep
        split at hsweep
        next hsame' =>
          obtain ⟨hinv, hsame⟩ := ih hnodes' h hsweep
          refine ⟨hinv, fun hfalse => ?_⟩
          obtain ⟨hchanged, heq, hfix⟩ := hsame hfalse
          refine ⟨hchanged, heq, fun j hj hne => ?_⟩
          rcases List.mem_cons.mp hj with rfl | hj
          · exact hsame'
          · exact hfix j hj hne
        next hdiff =>
          rw [hgetD] at hsweep
          obtain ⟨hinv, hsame⟩ := ih hnodes' (h.set hne hle hi) hsweep
          exact ⟨hinv, fun hfalse => absurd (hsame hfalse).1 (by simp)⟩

theorem postdomLoop_spec (hsuccs : ∀ i < exitNode, ∃ succ, succs[i]? = some succ ∧ succ ≠ []
      ∧ ∀ s ∈ succ, s ≤ exitNode)
    {iters : Nat} {postdom' : List BitSet} (h : PostdomInv exitNode postdom)
    (hloop : postdomLoop succs (exitNode + 1) exitNode iters postdom = some postdom') :
    PostdomInv exitNode postdom' ∧ ∀ i < exitNode,
      postdomOf postdom' (succs.getD i []) exitNode i = postdom'.getD i [] := by
  induction iters generalizing postdom with
  | zero => cases hloop
  | succ iters ih =>
      have hnodes : ∀ i ∈ List.range (exitNode + 1), i ≤ exitNode := by
        intro i hi
        have := List.mem_range.mp hi
        omega
      rw [postdomLoop] at hloop
      split at hloop
      next pd hsweep => exact ih (postdomSweep_spec hsuccs hnodes h hsweep).1 hloop
      next pd hsweep =>
        cases hloop
        obtain ⟨hinv, hsame⟩ := postdomSweep_spec hsuccs hnodes h hsweep
        obtain ⟨-, rfl, hfix⟩ := hsame rfl
        exact ⟨hinv, fun i hi => hfix i (List.mem_range.mpr (by omega)) (by omega)⟩

theorem postdomInit_inv (exitNode : Nat) :
    PostdomInv exitNode (postdomInit (exitNode + 1) exitNode) := by
  have hget : ∀ i ≤ exitNode, (postdomInit (exitNode + 1) exitNode).getD i []
      = if i = exitNode then BitSet.singleton (exitNode + 1) exitNode
        else BitSet.all (exitNode + 1) := by
    intro i hi
    have hlt : i < (postdomInit (exitNode + 1) exitNode).length := by
      simp only [postdomInit, List.length_map, List.length_range]
      omega
    rw [List.getD_eq_getElem _ _ hlt]
    simp [postdomInit]
  refine ⟨by simp [postdomInit], fun b hb => ?_, ?_, fun i hi => ?_⟩
  · obtain ⟨i, -, rfl⟩ := List.mem_map.mp hb
    split <;> simp [BitSet.singleton, BitSet.insert, BitSet.all]
  · rw [hget exitNode le_rfl, if_pos rfl]
  · rw [hget i hi]
    split
    · rw [BitSet.test_singleton (by omega)]
      simp
    · simp [BitSet.test, BitSet.all, List.getD_eq_getElem?_getD]

end Sweep

/-! ### The analysis -/

/-- An edge of the control-flow graph. -/
def CfgEdge (kernel : KernelImage) (registry : DescriptorRegistry) (warpSize : Nat) (pc s : Nat) :
    Prop :=
  ∃ inst succ, kernel.insts[pc]? = some inst
    ∧ instSucc kernel registry warpSize pc inst = .ok succ ∧ s ∈ succ

/-- The nodes that a converged table says post-dominate a node. -/
def postdomSet (exitNode : Nat) (postdom : List BitSet) (x : Nat) : Set Nat :=
  {c | x ≤ exitNode → (postdom.getD x []).test c = true}

/-- A predicated branch, which gets a reconvergence point. -/
def isPredicatedBra (info : Option InstCtrlInfo) : Bool :=
  match info with
  | none => false
  | some info => info.hasBra && info.isPredicated

theorem ipdomOf_some {exitNode : Nat} {postdom : List BitSet} {pc c : Nat}
    (hinv : PostdomInv exitNode postdom) (hpc : pc < exitNode)
    (h : ipdomOf postdom (exitNode + 1) pc = some c) :
    PostDominance.Immediate (postdomSet exitNode postdom) pc c ∧ c ≤ exitNode := by
  have himm := List.find?_some h
  have hc := List.mem_range.mp (List.mem_of_find?_eq_some h)
  simp only [isImmediate, Bool.and_eq_true, bne_iff_ne, ne_eq, List.all_eq_true, List.mem_range,
    Bool.or_eq_true, beq_iff_eq, Bool.not_eq_true'] at himm
  obtain ⟨⟨hne, hmem⟩, hall⟩ := himm
  refine ⟨⟨fun _ => hmem, hne, fun d hd hdpc hdc hcd => ?_⟩, by omega⟩
  have hdtest := hd hpc.le
  have hdle : d ≤ exitNode := by
    by_contra hgt
    have hlen := hinv.length_getD hpc.le
    rw [BitSet.test, List.getD_eq_getElem?_getD, List.getElem?_eq_none (by omega)] at hdtest
    cases hdtest
  rcases hall d (by omega) with ((hcase | hcase) | hcase) | hcase
  · exact hdpc hcase
  · exact hdc hcase
  · rw [hcase] at hdtest
    cases hdtest
  · have hctest := hcd hdle
    rw [hcase] at hctest
    cases hctest

theorem getElem?_reconvFrom {kernel : KernelImage} {registry : DescriptorRegistry}
    {warpSize : Nat} {postdom : List BitSet} {pc : Nat} {insts : List InstRecord}
    {reconvPc : List (Option Int)}
    (h : reconvFrom kernel registry warpSize postdom pc insts = .ok reconvPc) :
    ∀ i inst, insts[i]? = some inst →
      if isPredicatedBra (classifyInst inst registry warpSize) then
        ∃ c : Nat, reconvPc[i]? = some (some (c : Int))
          ∧ ipdomOf postdom (kernel.insts.length + 1) (pc + i) = some c
      else reconvPc[i]? = some none := by
  induction insts generalizing pc reconvPc with
  | nil => simp
  | cons inst insts ih =>
      have hshift : ∀ i, pc + 1 + i = pc + (i + 1) := by omega
      rw [reconvFrom] at h
      change (if isPredicatedBra (classifyInst inst registry warpSize) then _ else _) = _ at h
      intro i inst' hi
      split at h
      next hbranch =>
        split at h
        · cases h
        next c hc =>
          split at h
          · cases h
          next rest hrest =>
            cases h
            cases i with
            | zero =>
                cases hi
                rw [if_pos hbranch]
                exact ⟨c, rfl, hc⟩
            | succ i =>
                have hrec := ih hrest i inst' hi
                rw [hshift] at hrec
                exact hrec
      next hbranch =>
        split at h
        · cases h
        next rest hrest =>
          cases h
          cases i with
          | zero =>
              cases hi
              rw [if_neg hbranch]
              rfl
          | succ i =>
              have hrec := ih hrest i inst' hi
              rw [hshift] at hrec
              exact hrec

/-- **What an accepted kernel guarantees**: post-dominator sets for its graph, and for every
predicated branch an immediate post-dominator as its reconvergence point. -/
theorem analyzeControlFlow_ok {kernel : KernelImage} {registry : DescriptorRegistry}
    {warpSize : Nat} {reconvPc : List (Option Int)}
    (h : analyzeControlFlow kernel registry warpSize = .ok reconvPc) :
    ∃ pd : Nat → Set Nat,
      PostDominance.Solution (CfgEdge kernel registry warpSize) kernel.insts.length pd
      ∧ ∀ pc inst, kernel.insts[pc]? = some inst →
          (∃ succ, instSucc kernel registry warpSize pc inst = .ok succ)
          ∧ if isPredicatedBra (classifyInst inst registry warpSize) then
              ∃ c ≤ kernel.insts.length, reconvPc[pc]? = some (some (c : Int))
                ∧ PostDominance.Immediate pd pc c
            else reconvPc[pc]? = some none := by
  unfold analyzeControlFlow at h
  dsimp only at h
  split at h
  · cases h
  next succs hbuild =>
    split at h
    · cases h
    next postdom hloop =>
      obtain ⟨hlen, hget⟩ := getElem?_buildSuccFrom hbuild
      have hsuccs : ∀ i < kernel.insts.length, ∃ succ, succs[i]? = some succ ∧ succ ≠ []
          ∧ ∀ s ∈ succ, s ≤ kernel.insts.length := by
        intro i hi
        obtain ⟨succ, hsucc, hinst⟩ := hget i _ (List.getElem?_eq_getElem hi)
        have hclass := instSucc_ok hinst
        exact ⟨succ, hsucc, hclass.ne_nil, hclass.le⟩
      obtain ⟨hinv, hfix⟩ := postdomLoop_spec hsuccs (postdomInit_inv _) hloop
      refine ⟨postdomSet kernel.insts.length postdom, ⟨?_, ?_, ?_⟩, fun pc inst hinst => ⟨?_, ?_⟩⟩
      · ext c
        change (_ → BitSet.test _ c = true) ↔ c = kernel.insts.length
        rw [hinv.exit, BitSet.test_singleton (by omega), decide_eq_true_eq]
        exact ⟨fun hc => hc le_rfl, fun hc _ => hc⟩
      · exact fun x hx => hinv.exitMem x hx
      · rintro x s c ⟨inst, succ, hinst, hsucc, hs⟩ hc hne _
        have hx : x < kernel.insts.length := (List.getElem?_eq_some_iff.mp hinst).1
        obtain ⟨succ', hget', hinst'⟩ := hget x inst hinst
        rw [Nat.zero_add, hsucc] at hinst'
        cases hinst'
        have hclass := instSucc_ok hsucc
        have hgetD : succs.getD x [] = succ := by
          rw [List.getD_eq_getElem?_getD, hget', Option.getD_some]
        have htest := hc hx.le
        rw [← hfix x hx, hgetD, (test_postdomOf hinv hclass.ne_nil hclass.le hx.le c).1,
          decide_eq_false hne, Bool.false_or, List.all_eq_true] at htest
        exact htest s hs
      · obtain ⟨succ, -, hsucc⟩ := hget pc inst hinst
        rw [Nat.zero_add] at hsucc
        exact ⟨succ, hsucc⟩
      · have hpc : pc < kernel.insts.length := (List.getElem?_eq_some_iff.mp hinst).1
        have hreconv := getElem?_reconvFrom h pc inst hinst
        split
        next hbranch =>
          rw [if_pos hbranch] at hreconv
          obtain ⟨c, hc, hipdom⟩ := hreconv
          rw [Nat.zero_add] at hipdom
          obtain ⟨himm, hle⟩ := ipdomOf_some hinv hpc hipdom
          exact ⟨c, hle, hc, himm⟩
        next hbranch =>
          rw [if_neg hbranch] at hreconv
          exact hreconv

end ProtoGpu

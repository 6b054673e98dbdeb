import ProtoGpu.Lib.PathDominance
import ProtoGpu.Proof.ControlFlow

/-!
# The analysis is exact

A bit of a post-dominator set is cleared only when some path avoids the node it stands for, and a
path of `k` edges clears it within `k` sweeps, in whatever order a sweep visits the nodes. The
iteration therefore ends long before its guard, with the post-dominators by paths. The graph it
works on has fewer edges than the kernel takes: a predicated `ret` falls through as well. That edge
changes no post-dominator, because `ret` leads to the exit at once.
-/

namespace ProtoGpu

open PostDominance

/-! ### The iteration -/

def SuccEdge (succs : List (List Nat)) (x s : Nat) : Prop :=
  ∃ succ, succs[x]? = some succ ∧ s ∈ succ

/-- The bits cleared in the set of `x` are right. -/
def ClearedRight (succs : List (List Nat)) (exitNode : Nat) (postdom : List BitSet) (x : Nat) :
    Prop :=
  ∀ c ≤ exitNode, (postdom.getD x []).test c = false → Avoids (SuccEdge succs) exitNode c x

/-- The bits that a path of `k` edges clears are cleared in the set of `x`. -/
def ClearedUpTo (succs : List (List Nat)) (exitNode k : Nat) (postdom : List BitSet) (x : Nat) :
    Prop :=
  ∀ c ≤ exitNode, AvoidsIn (SuccEdge succs) exitNode c k x → (postdom.getD x []).test c = false

section Iteration

variable {succs : List (List Nat)} {exitNode : Nat} {postdom : List BitSet}

/-- Every node but the exit has successors, which are nodes. -/
structure SuccsOk (succs : List (List Nat)) (exitNode : Nat) : Prop where
  length : succs.length = exitNode
  get : ∀ i < exitNode, ∃ succ, succs[i]? = some succ ∧ succ ≠ [] ∧ ∀ s ∈ succ, s ≤ exitNode

theorem SuccsOk.edge_lt (h : SuccsOk succs exitNode) {x s : Nat} (hedge : SuccEdge succs x s) :
    x < exitNode ∧ s ≤ exitNode := by
  obtain ⟨succ, hsucc, hs⟩ := hedge
  have hx : x < succs.length := (List.getElem?_eq_some_iff.mp hsucc).1
  rw [h.length] at hx
  obtain ⟨succ', hsucc', -, hle⟩ := h.get x hx
  rw [hsucc] at hsucc'
  cases hsucc'
  exact ⟨hx, hle s hs⟩

theorem SuccsOk.le_of_path (h : SuccsOk succs exitNode) {x y : Nat} {nodes : List Nat}
    (hpath : Path (SuccEdge succs) x nodes y) (hy : y ≤ exitNode) : ∀ z ∈ nodes, z ≤ exitNode := by
  intro z hz
  induction hpath with
  | last x =>
      rw [List.mem_singleton] at hz
      omega
  | step hedge _ ih =>
      rcases List.mem_cons.mp hz with rfl | hz
      · exact (h.edge_lt hedge).1.le
      · exact ih hy hz

theorem ClearedUpTo.exit (succs : List (List Nat)) (h : PostdomInv exitNode postdom) (k : Nat) :
    ClearedUpTo succs exitNode k postdom exitNode := by
  intro c _ havoid
  rw [h.exit, BitSet.test_singleton (by omega), decide_eq_false_iff_not]
  exact fun hc => havoid.avoids.exit_ne hc.symm

/-- The new set of a node. -/
theorem postdomOf_cleared (hsuccs : SuccsOk succs exitNode) (h : PostdomInv exitNode postdom)
    {i : Nat} (hi : i < exitNode) (c : Nat) :
    (postdomOf postdom (succs.getD i []) exitNode i).test c = false
      ↔ i ≠ c ∧ ∃ s, SuccEdge succs i s ∧ (postdom.getD s []).test c = false := by
  obtain ⟨succ, hsucc, hne, hle⟩ := hsuccs.get i hi
  have hgetD : succs.getD i [] = succ := by
    rw [List.getD_eq_getElem?_getD, hsucc, Option.getD_some]
  rw [hgetD, (test_postdomOf h hne hle hi.le c).1, Bool.or_eq_false_iff, decide_eq_false_iff_not,
    List.all_eq_false]
  constructor
  · rintro ⟨hci, s, hs, htest⟩
    exact ⟨Ne.symm hci, s, ⟨succ, hsucc, hs⟩, by simpa using htest⟩
  · rintro ⟨hci, s, ⟨succ', hsucc', hs⟩, htest⟩
    rw [hsucc] at hsucc'
    cases hsucc'
    exact ⟨Ne.symm hci, s, hs, by rw [htest]; simp⟩

theorem ClearedRight.postdomOf (hsuccs : SuccsOk succs exitNode)
    (h : PostdomInv exitNode postdom) {i : Nat} (hi : i < exitNode)
    (hright : ∀ x ≤ exitNode, ClearedRight succs exitNode postdom x) {c : Nat} (hc : c ≤ exitNode)
    (htest : (postdomOf postdom (succs.getD i []) exitNode i).test c = false) :
    Avoids (SuccEdge succs) exitNode c i := by
  obtain ⟨hne, s, hedge, hs⟩ := (postdomOf_cleared hsuccs h hi c).mp htest
  exact .step hne hedge (hright s (hsuccs.edge_lt hedge).2 c hc hs)

theorem ClearedUpTo.postdomOf (hsuccs : SuccsOk succs exitNode)
    (h : PostdomInv exitNode postdom) {i k : Nat} (hi : i < exitNode)
    (hupTo : ∀ x ≤ exitNode, ClearedUpTo succs exitNode k postdom x) {c : Nat} (hc : c ≤ exitNode)
    (havoid : AvoidsIn (SuccEdge succs) exitNode c (k + 1) i) :
    (postdomOf postdom (succs.getD i []) exitNode i).test c = false := by
  have hstep : i ≠ c ∧ ∃ s, SuccEdge succs i s ∧ AvoidsIn (SuccEdge succs) exitNode c k s := by
    rcases havoid with hk | hk
    · exact hk.step.resolve_left fun hexit => hi.ne hexit.1
    · exact hk
  obtain ⟨hne, s, hedge, hs⟩ := hstep
  exact (postdomOf_cleared hsuccs h hi c).mpr
    ⟨hne, s, hedge, hupTo s (hsuccs.edge_lt hedge).2 c hc hs⟩

theorem getD_set_ne {i x : Nat} (hne : i ≠ x) (b : BitSet) :
    (postdom.set i b).getD x [] = postdom.getD x [] := by
  rw [List.getD_eq_getElem?_getD, List.getElem?_set_ne hne, ← List.getD_eq_getElem?_getD]

theorem getD_set_self {i : Nat} (hi : i < postdom.length) (b : BitSet) :
    (postdom.set i b).getD i [] = b := by
  rw [List.getD_eq_getElem?_getD, List.getElem?_set_self hi, Option.getD_some]

/-- A sweep clears what one more edge clears. -/
theorem postdomSweep_cleared (hsuccs : SuccsOk succs exitNode) {k : Nat} {nodes : List Nat}
    (hnodes : ∀ i ∈ nodes, i ≤ exitNode) {changed changed' : Bool} {postdom' : List BitSet}
    (h : PostdomInv exitNode postdom)
    (hright : ∀ x ≤ exitNode, ClearedRight succs exitNode postdom x)
    (hupTo : ∀ x ≤ exitNode, ClearedUpTo succs exitNode k postdom x)
    (hdone : ∀ x ≤ exitNode, x ∉ nodes → ClearedUpTo succs exitNode (k + 1) postdom x)
    (hsweep : postdomSweep succs exitNode nodes postdom changed = (postdom', changed')) :
    (∀ x ≤ exitNode, ClearedRight succs exitNode postdom' x)
      ∧ ∀ x ≤ exitNode, ClearedUpTo succs exitNode (k + 1) postdom' x := by
  induction nodes generalizing postdom changed with
  | nil =>
      cases hsweep
      exact ⟨hright, fun x hx => hdone x hx (by simp)⟩
  | cons i nodes ih =>
      have hnodes' : ∀ j ∈ nodes, j ≤ exitNode := fun j hj => hnodes j (by simp [hj])
      rw [postdomSweep] at hsweep
      by_cases hexit : i = exitNode
      · rw [if_pos hexit] at hsweep
        refine ih hnodes' h hright hupTo (fun x hx hnot => ?_) hsweep
        by_cases hxi : x = i
        · rw [hxi, hexit]
          exact ClearedUpTo.exit succs h _
        · exact hdone x hx (by simp [hxi, hnot])
      · have hi : i < exitNode := lt_of_le_of_ne (hnodes i (by simp)) hexit
        rw [if_neg hexit] at hsweep
        dsimp only at hsweep
        have hnew : ∀ c ≤ exitNode, AvoidsIn (SuccEdge succs) exitNode c (k + 1) i →
            (postdomOf postdom (succs.getD i []) exitNode i).test c = false := fun c hc =>
          ClearedUpTo.postdomOf hsuccs h hi hupTo hc
        by_cases hsame : postdomOf postdom (succs.getD i []) exitNode i = postdom.getD i []
        · rw [if_pos hsame] at hsweep
          refine ih hnodes' h hright hupTo (fun x hx hnot => ?_) hsweep
          by_cases hxi : x = i
          · subst hxi
            intro c hc havoid
            rw [← hsame]
            exact hnew c hc havoid
          · exact hdone x hx (by simp [hxi, hnot])
        · rw [if_neg hsame] at hsweep
          obtain ⟨succ, hsucc, hne, hle⟩ := hsuccs.get i hi
          have hgetD : succs.getD i [] = succ := by
            rw [List.getD_eq_getElem?_getD, hsucc, Option.getD_some]
          have hlen : i < postdom.length := by
            rw [h.length]
            omega
          have hset := h.set hne hle hi
          rw [← hgetD] at hset
          refine ih hnodes' hset ?_ ?_ ?_ hsweep
          · intro x hx c hc htest
            by_cases hxi : i = x
            · subst hxi
              rw [getD_set_self hlen] at htest
              exact ClearedRight.postdomOf hsuccs h hi hright hc htest
            · rw [getD_set_ne hxi] at htest
              exact hright x hx c hc htest
          · intro x hx c hc havoid
            by_cases hxi : i = x
            · subst hxi
              rw [getD_set_self hlen]
              exact hnew c hc (havoid.mono (Nat.le_succ k))
            · rw [getD_set_ne hxi]
              exact hupTo x hx c hc havoid
          · intro x hx hnot c hc havoid
            by_cases hxi : i = x
            · subst hxi
              rw [getD_set_self hlen]
              exact hnew c hc havoid
            · rw [getD_set_ne hxi]
              exact hdone x hx (by simp [Ne.symm hxi, hnot]) c hc havoid

theorem BitSet.ext_test {a b : BitSet} (hlen : a.length = b.length)
    (h : ∀ c < a.length, a.test c = b.test c) : a = b := by
  apply List.ext_getElem hlen
  intro c hc hc'
  have htest := h c hc
  rwa [BitSet.test, BitSet.test, List.getD_eq_getElem _ _ hc, List.getD_eq_getElem _ _ hc']
    at htest

/-- A sweep over sets that all paths have cleared changes nothing. -/
theorem postdomSweep_stable (hsuccs : SuccsOk succs exitNode) {nodes : List Nat}
    (hnodes : ∀ i ∈ nodes, i ≤ exitNode) (h : PostdomInv exitNode postdom)
    (hright : ∀ x ≤ exitNode, ClearedRight succs exitNode postdom x)
    (hupTo : ∀ x ≤ exitNode, ClearedUpTo succs exitNode exitNode postdom x) :
    postdomSweep succs exitNode nodes postdom false = (postdom, false) := by
  have hcleared : ∀ x ≤ exitNode, ∀ c ≤ exitNode,
      (postdom.getD x []).test c = false ↔ Avoids (SuccEdge succs) exitNode c x := fun x hx c hc =>
    ⟨hright x hx c hc, fun havoid =>
      hupTo x hx c hc (havoid.avoidsIn fun y s hedge => (hsuccs.edge_lt hedge).1.le)⟩
  induction nodes with
  | nil => rfl
  | cons i nodes ih =>
      have ih := ih fun j hj => hnodes j (by simp [hj])
      rw [postdomSweep]
      by_cases hexit : i = exitNode
      · rw [if_pos hexit, ih]
      · have hi : i < exitNode := lt_of_le_of_ne (hnodes i (by simp)) hexit
        have hsame : postdomOf postdom (succs.getD i []) exitNode i = postdom.getD i [] := by
          obtain ⟨succ, hsucc, hne, hle⟩ := hsuccs.get i hi
          have hgetD : succs.getD i [] = succ := by
            rw [List.getD_eq_getElem?_getD, hsucc, Option.getD_some]
          have hlen : (postdomOf postdom (succs.getD i []) exitNode i).length = exitNode + 1 := by
            rw [hgetD, (test_postdomOf h hne hle hi.le 0).2]
          apply BitSet.ext_test (hlen.trans (h.length_getD hi.le).symm)
          intro c hc
          have hc : c ≤ exitNode := by omega
          rw [Bool.eq_iff_iff, ← not_iff_not, Bool.not_eq_true, Bool.not_eq_true,
            hcleared i hi.le c hc]
          constructor
          · exact ClearedRight.postdomOf hsuccs h hi hright hc
          · intro havoid
            have hshort := havoid.avoidsIn fun y s hedge => (hsuccs.edge_lt hedge).1.le
            exact ClearedUpTo.postdomOf hsuccs h hi hupTo hc (hshort.mono (Nat.le_succ exitNode))
        dsimp only
        rw [if_neg hexit, if_pos hsame, ih]

/-- The iteration ends within one sweep more than the exit's number, with nothing left to clear. -/
theorem postdomLoop_exact (hsuccs : SuccsOk succs exitNode) {iters k : Nat} (hk : k ≤ exitNode)
    (hiters : exitNode < iters + k) (h : PostdomInv exitNode postdom)
    (hright : ∀ x ≤ exitNode, ClearedRight succs exitNode postdom x)
    (hupTo : ∀ x ≤ exitNode, ClearedUpTo succs exitNode k postdom x) :
    ∃ postdom', postdomLoop succs (exitNode + 1) exitNode iters postdom = some postdom'
      ∧ ∀ x ≤ exitNode, ClearedRight succs exitNode postdom' x := by
  have hnodes : ∀ i ∈ List.range (exitNode + 1), i ≤ exitNode := fun i hi =>
    Nat.le_of_lt_succ (List.mem_range.mp hi)
  induction iters generalizing postdom k with
  | zero => omega
  | succ iters ih =>
      have hdone : ∀ x ≤ exitNode, x ∉ List.range (exitNode + 1) →
          ClearedUpTo succs exitNode (k + 1) postdom x := fun x hx hnot =>
        absurd (List.mem_range.mpr (Nat.lt_succ_of_le hx)) hnot
      rw [postdomLoop]
      obtain ⟨postdom', changed, hsweep⟩ : ∃ postdom' changed,
          postdomSweep succs exitNode (List.range (exitNode + 1)) postdom false
            = (postdom', changed) := ⟨_, _, rfl⟩
      obtain ⟨hright', hupTo'⟩ := postdomSweep_cleared hsuccs hnodes h hright hupTo hdone hsweep
      cases changed with
      | false =>
          rw [hsweep]
          exact ⟨postdom', rfl, hright'⟩
      | true =>
          -- a sweep that changes something is not the one after the last short path
          have hlt : k < exitNode := by
            refine lt_of_le_of_ne hk ?_
            rintro rfl
            rw [postdomSweep_stable hsuccs hnodes h hright hupTo] at hsweep
            cases hsweep
          have hinv := (postdomSweep_spec hsuccs.get hnodes h hsweep).1
          rw [hsweep]
          exact ih hlt (by omega) hinv hright' hupTo'

theorem postdomInit_cleared (succs : List (List Nat)) (exitNode : Nat) :
    (∀ x ≤ exitNode, ClearedRight succs exitNode (postdomInit (exitNode + 1) exitNode) x)
      ∧ ∀ x ≤ exitNode, ClearedUpTo succs exitNode 0 (postdomInit (exitNode + 1) exitNode) x := by
  have hinv := postdomInit_inv exitNode
  constructor
  · intro x hx c hc htest
    by_cases hexit : x = exitNode
    · subst hexit
      rw [hinv.exit, BitSet.test_singleton (by omega), decide_eq_false_iff_not] at htest
      exact .exit (Ne.symm htest)
    · have hlt : x < (postdomInit (exitNode + 1) exitNode).length := by
        rw [hinv.length]
        omega
      have hall : (postdomInit (exitNode + 1) exitNode).getD x [] = BitSet.all (exitNode + 1) := by
        rw [List.getD_eq_getElem _ _ hlt]
        simp [postdomInit, hexit]
      rw [hall] at htest
      simp [BitSet.test, BitSet.all, List.getD_eq_getElem?_getD, Nat.lt_succ_of_le hc] at htest
  · rintro x hx c hc ⟨rfl, hne⟩
    exact ClearedUpTo.exit succs hinv 0 c hc ⟨rfl, hne⟩

end Iteration

/-! ### The graph of a kernel -/

/-- Whether control can pass on to the next instruction. -/
def fallsThrough (info : Option InstCtrlInfo) : Bool :=
  match info with
  | none => true
  | some info => info.isPredicated || (!info.hasRet && !info.hasBra)

/-- The edges of a kernel, from program counter to program counter. -/
inductive FlowEdge (kernel : KernelImage) (registry : DescriptorRegistry) (warpSize : Nat) :
    Int → Int → Prop where
  | next {pc : Nat} {inst : InstRecord} (hinst : kernel.insts[pc]? = some inst)
      (hfall : fallsThrough (classifyInst inst registry warpSize) = true) :
      FlowEdge kernel registry warpSize pc (pc + 1)
  | branch {pc : Nat} {inst : InstRecord} {info : InstCtrlInfo} {target : Int}
      (hinst : kernel.insts[pc]? = some inst)
      (hclass : classifyInst inst registry warpSize = some info) (hbra : info.hasBra = true)
      (htarget : info.braTarget = some target) : FlowEdge kernel registry warpSize pc target
  | ret {pc : Nat} {inst : InstRecord} {info : InstCtrlInfo}
      (hinst : kernel.insts[pc]? = some inst)
      (hclass : classifyInst inst registry warpSize = some info) (hret : info.hasRet = true) :
      FlowEdge kernel registry warpSize pc kernel.insts.length

/-- Every predicated branch names an instruction. -/
def BraTargetsInRange (kernel : KernelImage) (registry : DescriptorRegistry) (warpSize : Nat) :
    Prop :=
  ∀ inst ∈ kernel.insts, ∀ info, classifyInst inst registry warpSize = some info →
    info.hasBra = true → info.isPredicated = true →
      ∃ target, info.braTarget = some target ∧ 0 ≤ target ∧ target < kernel.insts.length

section Kernel

variable {kernel : KernelImage} {registry : DescriptorRegistry} {warpSize : Nat}

/-- Every instruction reaches the exit. -/
def AllReach (kernel : KernelImage) (registry : DescriptorRegistry) (warpSize : Nat) : Prop :=
  ∀ pc < kernel.insts.length,
    Reaches (FlowEdge kernel registry warpSize) kernel.insts.length (pc : Int)

theorem FlowEdge.source {x t : Int} (h : FlowEdge kernel registry warpSize x t) :
    ∃ pc < kernel.insts.length, x = (pc : Int) := by
  cases h with
  | next hinst => exact ⟨_, (List.getElem?_eq_some_iff.mp hinst).1, rfl⟩
  | branch hinst => exact ⟨_, (List.getElem?_eq_some_iff.mp hinst).1, rfl⟩
  | ret hinst => exact ⟨_, (List.getElem?_eq_some_iff.mp hinst).1, rfl⟩

theorem FlowEdge.of_inst {pc : Nat} {t : Int} (h : FlowEdge kernel registry warpSize pc t)
    {inst : InstRecord} (hinst : kernel.insts[pc]? = some inst) :
    (fallsThrough (classifyInst inst registry warpSize) = true ∧ t = pc + 1)
      ∨ ∃ info, classifyInst inst registry warpSize = some info
        ∧ ((info.hasBra = true ∧ info.braTarget = some t)
          ∨ (info.hasRet = true ∧ t = kernel.insts.length)) := by
  generalize hx : (pc : Int) = x at h
  cases h with
  | next hinst' hfall =>
      obtain rfl : pc = _ := Int.ofNat_inj.mp hx
      rw [hinst] at hinst'
      cases hinst'
      exact .inl ⟨hfall, rfl⟩
  | branch hinst' hclass hbra htarget =>
      obtain rfl : pc = _ := Int.ofNat_inj.mp hx
      rw [hinst] at hinst'
      cases hinst'
      exact .inr ⟨_, hclass, .inl ⟨hbra, htarget⟩⟩
  | ret hinst' hclass hret =>
      obtain rfl : pc = _ := Int.ofNat_inj.mp hx
      rw [hinst] at hinst'
      cases hinst'
      exact .inr ⟨_, hclass, .inr ⟨hret, rfl⟩⟩

/-- What lies on a path to the exit is a node. -/
theorem node_of_path {x : Int} {nodes : List Int}
    (h : Path (FlowEdge kernel registry warpSize) x nodes kernel.insts.length) :
    ∀ y ∈ nodes, ∃ node ≤ kernel.insts.length, y = (node : Int) := by
  intro y hy
  generalize hexit : (kernel.insts.length : Int) = exit at h
  induction h with
  | last x =>
      rw [List.mem_singleton] at hy
      exact ⟨kernel.insts.length, le_rfl, by rw [hy, hexit]⟩
  | step hedge hrest ih =>
      rcases List.mem_cons.mp hy with rfl | hy
      · obtain ⟨pc, hpc, rfl⟩ := hedge.source
        exact ⟨pc, hpc.le, rfl⟩
      · exact ih hy hexit

theorem node_of_reaches {x : Int}
    (h : Reaches (FlowEdge kernel registry warpSize) kernel.insts.length x) :
    ∃ node ≤ kernel.insts.length, x = (node : Int) := by
  obtain ⟨nodes, hpath⟩ := h
  refine node_of_path hpath x ?_
  cases hpath <;> simp

theorem instSucc_of_targets (htargets : BraTargetsInRange kernel registry warpSize) (pc : Nat)
    {inst : InstRecord} (hinst : inst ∈ kernel.insts) :
    ∃ succ, instSucc kernel registry warpSize pc inst = .ok succ := by
  unfold instSucc
  dsimp only
  cases hclass : classifyInst inst registry warpSize with
  | none => exact ⟨_, rfl⟩
  | some info =>
      dsimp only
      split
      · exact ⟨_, rfl⟩
      · split
        next hbra =>
          split
          next hpred =>
            obtain ⟨target, htarget, hnonneg, hlt⟩ := htargets inst hinst info hclass hbra hpred
            simp only [htarget]
            rw [if_neg (by omega)]
            exact ⟨_, rfl⟩
          next hpred =>
            split
            · exact ⟨_, rfl⟩
            · exact ⟨_, rfl⟩
        · exact ⟨_, rfl⟩

theorem fallthroughNode_cast {pc : Nat} (hpc : pc < kernel.insts.length) :
    ((fallthroughNode kernel.insts.length pc : Nat) : Int) = pc + 1 := by
  unfold fallthroughNode
  split <;> omega

/-- The analysed edges are edges of the kernel. -/
theorem CfgEdge.flowEdge (hreach : AllReach kernel registry warpSize) {pc s : Nat}
    (h : CfgEdge kernel registry warpSize pc s) : FlowEdge kernel registry warpSize pc s := by
  obtain ⟨inst, succ, hinst, hsucc, hs⟩ := h
  have hpc : pc < kernel.insts.length := (List.getElem?_eq_some_iff.mp hinst).1
  have hfall := fallthroughNode_cast hpc
  have hnext : fallsThrough (classifyInst inst registry warpSize) = true →
      FlowEdge kernel registry warpSize pc (fallthroughNode kernel.insts.length pc : Nat) := by
    intro hclass
    rw [hfall]
    exact .next hinst hclass
  -- the instruction has an edge, and it leads to a node
  obtain ⟨t, hedge, node, hnode, ht⟩ : ∃ t, FlowEdge kernel registry warpSize pc t
      ∧ ∃ node ≤ kernel.insts.length, t = (node : Int) := by
    obtain ⟨nodes, hpath⟩ := hreach pc hpc
    generalize hexit : (kernel.insts.length : Int) = exit at hpath
    cases hpath with
    | last => omega
    | step hedge hrest =>
        subst hexit
        exact ⟨_, hedge, node_of_reaches ⟨_, hrest⟩⟩
  generalize hclass : classifyInst inst registry warpSize = class' at hnext
  have hsucc := instSucc_ok hsucc
  rw [hclass] at hsucc
  cases hsucc with
  | unclassified =>
      rw [List.mem_singleton.mp hs]
      exact hnext rfl
  | ret hret =>
      rw [List.mem_singleton.mp hs]
      exact .ret hinst hclass hret
  | plain hret hbra =>
      rw [List.mem_singleton.mp hs]
      exact hnext (by simp [fallsThrough, hret, hbra])
  | @branch info target hret hbra hpred htarget hnonneg hlt =>
      rcases List.mem_cons.mp hs with rfl | hs
      · rw [Int.toNat_of_nonneg hnonneg]
        exact .branch hinst hclass hbra htarget
      · rw [List.mem_singleton.mp hs]
        exact hnext (by simp [fallsThrough, hpred])
  | @jump info target hret hbra hpred htarget =>
      rw [List.mem_singleton.mp hs]
      obtain rfl : t = target := by
        rcases hedge.of_inst hinst with ⟨hfall, -⟩ | ⟨info', hinfo', ⟨-, ht⟩ | ⟨hret', -⟩⟩
        · rw [hclass] at hfall
          simp [fallsThrough, hpred, hbra] at hfall
        · rw [hclass] at hinfo'
          cases hinfo'
          rw [htarget] at ht
          exact (Option.some.inj ht).symm
        · rw [hclass] at hinfo'
          cases hinfo'
          rw [hret] at hret'
          cases hret'
      have hcast : ((nodeOf kernel.insts.length t : Nat) : Int) = t := by
        unfold nodeOf
        split <;> omega
      rw [hcast]
      exact hedge
  | @noTarget info hret hbra hpred htarget =>
      -- such an instruction has no edge at all
      rcases hedge.of_inst hinst with ⟨hfall, -⟩ | ⟨info', hinfo', ⟨-, ht⟩ | ⟨hret', -⟩⟩
      · rw [hclass] at hfall
        simp [fallsThrough, hpred, hbra] at hfall
      · rw [hclass] at hinfo'
        cases hinfo'
        rw [htarget] at ht
        cases ht
      · rw [hclass] at hinfo'
        cases hinfo'
        rw [hret] at hret'
        cases hret'

/-- An edge of the kernel between nodes is analysed, unless it leaves a `ret`, whose edge to the
exit is. -/
theorem FlowEdge.cfgEdge (htargets : BraTargetsInRange kernel registry warpSize) {pc s : Nat}
    (hs : s ≤ kernel.insts.length) (h : FlowEdge kernel registry warpSize pc s) :
    CfgEdge kernel registry warpSize pc s
      ∨ CfgEdge kernel registry warpSize pc kernel.insts.length := by
  obtain ⟨pc', hpc, hpc'⟩ := h.source
  obtain rfl : pc = pc' := Int.ofNat_inj.mp hpc'
  have hinst := List.getElem?_eq_getElem hpc
  obtain ⟨succ, hsucc⟩ := instSucc_of_targets htargets pc (List.getElem_mem hpc)
  have hedge : ∀ t ∈ succ, CfgEdge kernel registry warpSize pc t := fun t ht =>
    ⟨_, succ, hinst, hsucc, ht⟩
  have hfall : (fallthroughNode kernel.insts.length pc : Int) = pc + 1 := fallthroughNode_cast hpc
  have hflow := h.of_inst hinst
  have hclass := instSucc_ok hsucc
  generalize classifyInst kernel.insts[pc] registry warpSize = class' at hflow hclass
  cases hclass with
  | unclassified =>
      rcases hflow with ⟨-, hnext⟩ | ⟨info, hinfo, -⟩
      · obtain rfl : s = fallthroughNode kernel.insts.length pc := by omega
        exact .inl (hedge _ (by simp))
      · cases hinfo
  | ret hret => exact .inr (hedge _ (by simp))
  | plain hret hbra =>
      rcases hflow with ⟨-, hnext⟩ | ⟨info, hinfo, ⟨hbra', -⟩ | ⟨hret', -⟩⟩
      · obtain rfl : s = fallthroughNode kernel.insts.length pc := by omega
        exact .inl (hedge _ (by simp))
      · cases hinfo
        rw [hbra] at hbra'
        cases hbra'
      · cases hinfo
        rw [hret] at hret'
        cases hret'
  | branch hret hbra hpred htarget hnonneg hlt =>
      rcases hflow with ⟨-, hnext⟩ | ⟨info, hinfo, ⟨-, htarget'⟩ | ⟨hret', -⟩⟩
      · obtain rfl : s = fallthroughNode kernel.insts.length pc := by omega
        exact .inl (hedge _ (by simp))
      · cases hinfo
        rw [htarget] at htarget'
        cases htarget'
        exact .inl (hedge _ (by simp))
      · cases hinfo
        rw [hret] at hret'
        cases hret'
  | jump hret hbra hpred htarget =>
      rcases hflow with ⟨hnext, -⟩ | ⟨info, hinfo, ⟨-, htarget'⟩ | ⟨hret', -⟩⟩
      · simp [fallsThrough, hpred, hbra] at hnext
      · cases hinfo
        rw [htarget] at htarget'
        cases htarget'
        have hnode : nodeOf kernel.insts.length (s : Int) = s := by
          unfold nodeOf
          split <;> omega
        exact .inl (hedge _ (by simp [hnode]))
      · cases hinfo
        rw [hret] at hret'
        cases hret'
  | noTarget hret hbra hpred htarget =>
      rcases hflow with ⟨hnext, -⟩ | ⟨info, hinfo, ⟨-, htarget'⟩ | ⟨hret', -⟩⟩
      · simp [fallsThrough, hpred, hbra] at hnext
      · cases hinfo
        rw [htarget] at htarget'
        cases htarget'
      · cases hinfo
        rw [hret] at hret'
        cases hret'

/-- The two graphs have the same avoiding paths. -/
theorem avoids_flow_iff (hreach : AllReach kernel registry warpSize)
    (htargets : BraTargetsInRange kernel registry warpSize) {x c : Nat} :
    Avoids (FlowEdge kernel registry warpSize) kernel.insts.length c x
      ↔ Avoids (CfgEdge kernel registry warpSize) kernel.insts.length c x := by
  constructor
  · intro h
    generalize hx : (x : Int) = x' at h
    generalize hexit : (kernel.insts.length : Int) = exit at h
    induction h generalizing x with
    | exit hne =>
        subst hexit
        obtain rfl : x = kernel.insts.length := Int.ofNat_inj.mp hx
        exact .exit fun heq => hne (by rw [heq])
    | step hne hedge hrest ih =>
        subst hx hexit
        obtain ⟨nodes, hpath, -⟩ := avoids_iff.mp hrest
        obtain ⟨s, hs, rfl⟩ := node_of_reaches ⟨nodes, hpath⟩
        have hne : x ≠ c := fun heq => hne (by rw [heq])
        have havoid := ih rfl
        rcases hedge.cfgEdge htargets hs with hcfg | hret
        · exact .step hne hcfg havoid
        · exact .step hne hret (.exit havoid.exit_ne)
  · intro h
    induction h with
    | exit hne => exact .exit fun heq => hne (Int.ofNat_inj.mp heq)
    | step hne hedge _ ih =>
        exact .step (fun heq => hne (Int.ofNat_inj.mp heq)) (hedge.flowEdge hreach) ih

theorem onEveryPath_flow_iff (hreach : AllReach kernel registry warpSize)
    (htargets : BraTargetsInRange kernel registry warpSize) {x c : Nat} :
    OnEveryPath (FlowEdge kernel registry warpSize) kernel.insts.length x c
      ↔ OnEveryPath (CfgEdge kernel registry warpSize) kernel.insts.length x c := by
  rw [onEveryPath_iff, onEveryPath_iff, avoids_flow_iff hreach htargets]

theorem reaches_flow (hreach : AllReach kernel registry warpSize) {x : Nat}
    (hx : x ≤ kernel.insts.length) :
    Reaches (FlowEdge kernel registry warpSize) kernel.insts.length (x : Int) := by
  rcases Nat.lt_or_eq_of_le hx with hlt | rfl
  · exact hreach x hlt
  · exact ⟨_, .last _⟩

/-- Nothing lies past the exit, so avoiding it there is the same as reaching the exit. -/
theorem reaches_cfg (hreach : AllReach kernel registry warpSize)
    (htargets : BraTargetsInRange kernel registry warpSize) {x : Nat}
    (hx : x ≤ kernel.insts.length) :
    Reaches (CfgEdge kernel registry warpSize) kernel.insts.length x := by
  obtain ⟨nodes, hpath⟩ := reaches_flow hreach hx
  have hflow : Avoids (FlowEdge kernel registry warpSize) kernel.insts.length
      ((kernel.insts.length + 1 : Nat) : Int) x := by
    refine avoids_iff.mpr ⟨nodes, hpath, fun hmem => ?_⟩
    obtain ⟨node, hnode, heq⟩ := node_of_path hpath _ hmem
    omega
  obtain ⟨nodes', hpath', -⟩ := avoids_iff.mp ((avoids_flow_iff hreach htargets).mp hflow)
  exact ⟨nodes', hpath'⟩

/-- A post-dominator of a node is a node. -/
theorem node_of_onEveryPath (hreach : AllReach kernel registry warpSize) {x : Nat}
    (hx : x ≤ kernel.insts.length) {c : Int}
    (h : OnEveryPath (FlowEdge kernel registry warpSize) kernel.insts.length x c) :
    ∃ node ≤ kernel.insts.length, c = (node : Int) := by
  obtain ⟨nodes, hpath⟩ := reaches_flow hreach hx
  exact node_of_path hpath c (h nodes hpath)

theorem isIpdom_flow (hreach : AllReach kernel registry warpSize)
    (htargets : BraTargetsInRange kernel registry warpSize) {x r : Nat}
    (hx : x ≤ kernel.insts.length)
    (h : IsIpdom (CfgEdge kernel registry warpSize) kernel.insts.length x r) :
    IsIpdom (FlowEdge kernel registry warpSize) kernel.insts.length (x : Int) (r : Int) where
  ne := fun heq => h.ne (Int.ofNat_inj.mp heq)
  onPaths := (onEveryPath_flow_iff hreach htargets).mpr h.onPaths
  nearest := by
    intro d hdx hdr honPaths
    obtain ⟨d, -, rfl⟩ := node_of_onEveryPath hreach hx honPaths
    refine (onEveryPath_flow_iff hreach htargets).mpr (h.nearest d ?_ ?_ ?_)
    · exact fun heq => hdx (by rw [heq])
    · exact fun heq => hdr (by rw [heq])
    · exact (onEveryPath_flow_iff hreach htargets).mp honPaths

/-! ### The analysis of a kernel -/

theorem buildSuccFrom_of_targets (htargets : BraTargetsInRange kernel registry warpSize)
    {insts : List InstRecord} (hinsts : ∀ inst ∈ insts, inst ∈ kernel.insts) (pc : Nat) :
    ∃ succs, buildSuccFrom kernel registry warpSize pc insts = .ok succs := by
  induction insts generalizing pc with
  | nil => exact ⟨[], rfl⟩
  | cons inst insts ih =>
      obtain ⟨succ, hsucc⟩ := instSucc_of_targets htargets pc (hinsts inst (by simp))
      obtain ⟨succs, hsuccs⟩ := ih (fun i hi => hinsts i (by simp [hi])) (pc + 1)
      exact ⟨succ :: succs, by rw [buildSuccFrom, hsucc, hsuccs]⟩

/-- The successors the analysis computes are the edges of its graph. -/
theorem succEdge_iff {succs : List (List Nat)}
    (hbuild : buildSuccFrom kernel registry warpSize 0 kernel.insts = .ok succs) :
    SuccsOk succs kernel.insts.length
      ∧ SuccEdge succs = CfgEdge kernel registry warpSize := by
  obtain ⟨hlen, hget⟩ := getElem?_buildSuccFrom hbuild
  constructor
  · refine ⟨hlen, fun i hi => ?_⟩
    obtain ⟨succ, hsucc, hinst⟩ := hget i _ (List.getElem?_eq_getElem hi)
    have hclass := instSucc_ok hinst
    exact ⟨succ, hsucc, hclass.ne_nil, hclass.le⟩
  · funext x s
    apply propext
    constructor
    · rintro ⟨succ, hsucc, hs⟩
      have hx : x < kernel.insts.length := by
        rw [← hlen]
        exact (List.getElem?_eq_some_iff.mp hsucc).1
      obtain ⟨succ', hsucc', hinst⟩ := hget x _ (List.getElem?_eq_getElem hx)
      rw [hsucc] at hsucc'
      cases hsucc'
      rw [Nat.zero_add] at hinst
      exact ⟨_, succ, List.getElem?_eq_getElem hx, hinst, hs⟩
    · rintro ⟨inst, succ, hinst, hsucc, hs⟩
      obtain ⟨succ', hsucc', hinst'⟩ := hget x inst hinst
      rw [Nat.zero_add, hsucc] at hinst'
      cases hinst'
      exact ⟨succ, hsucc', hs⟩

/-- The sets that solve the equations and were cleared only with reason are the post-dominators. -/
theorem test_iff_onEveryPath {succs : List (List Nat)} {exitNode : Nat} {postdom : List BitSet}
    (hsuccs : SuccsOk succs exitNode) (h : PostdomInv exitNode postdom)
    (hfix : ∀ i < exitNode, postdomOf postdom (succs.getD i []) exitNode i = postdom.getD i [])
    (hright : ∀ x ≤ exitNode, ClearedRight succs exitNode postdom x) {x c : Nat}
    (hx : x ≤ exitNode) (hc : c ≤ exitNode) :
    (postdom.getD x []).test c = true ↔ OnEveryPath (SuccEdge succs) exitNode x c := by
  rw [onEveryPath_iff, ← not_iff_not, not_not, Bool.not_eq_true]
  refine ⟨hright x hx c hc, fun havoid => ?_⟩
  induction havoid with
  | exit hne => exact ClearedUpTo.exit succs h 0 c hc ⟨rfl, hne⟩
  | @step x s hne hedge _ ih =>
      obtain ⟨hlt, hs⟩ := hsuccs.edge_lt hedge
      rw [← hfix x hlt]
      exact (postdomOf_cleared hsuccs h hlt c).mpr ⟨hne, s, hedge, ih hs⟩

/-- What the search for an immediate post-dominator finds. -/
theorem ipdomOf_exact {succs : List (List Nat)} {exitNode : Nat} {postdom : List BitSet}
    (hsuccs : SuccsOk succs exitNode)
    (htest : ∀ x ≤ exitNode, ∀ c ≤ exitNode,
      (postdom.getD x []).test c = true ↔ OnEveryPath (SuccEdge succs) exitNode x c)
    (hreach : ∀ x ≤ exitNode, Reaches (SuccEdge succs) exitNode x) {pc : Nat}
    (hpc : pc < exitNode) :
    ∃ r ≤ exitNode, ipdomOf postdom (exitNode + 1) pc = some r
      ∧ IsIpdom (SuccEdge succs) exitNode pc r := by
  have hnode : ∀ y, OnEveryPath (SuccEdge succs) exitNode pc y → y ≤ exitNode := by
    intro y hy
    obtain ⟨nodes, hpath⟩ := hreach pc hpc.le
    exact hsuccs.le_of_path hpath le_rfl y (hy nodes hpath)
  have himm : ∀ r ≤ exitNode, isImmediate postdom (exitNode + 1) pc r = true
      ↔ IsIpdom (SuccEdge succs) exitNode pc r := by
    intro r hr
    rw [isIpdom_iff (fun y hy => hreach y (hnode y hy)) (hreach pc hpc.le), isImmediate,
      Bool.and_eq_true, Bool.and_eq_true, bne_iff_ne, htest pc hpc.le r hr, and_assoc,
      List.all_eq_true]
    refine and_congr_right fun hne => and_congr_right fun honPaths => ?_
    constructor
    · intro hall d hdpc hdr hd hback
      have hdle := hnode d hd
      have hcase := hall d (List.mem_range.mpr (by omega))
      rw [← htest pc hpc.le d hdle] at hd
      rw [← htest d hdle r hr] at hback
      rw [hd, hback] at hcase
      simp [hdpc, hdr] at hcase
    · intro hall d hd
      have hdle : d ≤ exitNode := Nat.le_of_lt_succ (List.mem_range.mp hd)
      by_cases hdpc : d = pc
      · simp [hdpc]
      by_cases hdr : d = r
      · simp [hdr]
      cases hpd : (postdom.getD pc []).test d with
      | false => simp
      | true =>
          have hback := hall d hdpc hdr ((htest pc hpc.le d hdle).mp hpd)
          rw [← htest d hdle r hr, Bool.not_eq_true] at hback
          rw [hback]
          simp
  obtain ⟨r₀, hr₀⟩ := exists_isIpdom (hreach pc hpc.le) hpc.ne
  have hr₀le := hnode r₀ hr₀.onPaths
  have hsome : (ipdomOf postdom (exitNode + 1) pc).isSome = true := by
    rw [ipdomOf, List.find?_isSome]
    exact ⟨r₀, List.mem_range.mpr (by omega), (himm r₀ hr₀le).mpr hr₀⟩
  obtain ⟨r, hr⟩ := Option.isSome_iff_exists.mp hsome
  have hrle : r ≤ exitNode := Nat.le_of_lt_succ (List.mem_range.mp (List.mem_of_find?_eq_some hr))
  exact ⟨r, hrle, hr, (himm r hrle).mp (List.find?_some hr)⟩

theorem reconvFrom_of_ipdoms {postdom : List BitSet} {insts : List InstRecord} {pc : Nat}
    (hipdom : ∀ i < insts.length,
      ∃ r, ipdomOf postdom (kernel.insts.length + 1) (pc + i) = some r) :
    ∃ reconvPc, reconvFrom kernel registry warpSize postdom pc insts = .ok reconvPc := by
  induction insts generalizing pc with
  | nil => exact ⟨[], rfl⟩
  | cons inst insts ih =>
      obtain ⟨r, hr⟩ : ∃ r, ipdomOf postdom (kernel.insts.length + 1) pc = some r :=
        hipdom 0 (by simp)
      obtain ⟨rest, hrest⟩ : ∃ rest,
          reconvFrom kernel registry warpSize postdom (pc + 1) insts = .ok rest := by
        refine ih fun i hi => ?_
        have hnext := hipdom (i + 1) (by simpa using hi)
        rwa [show pc + (i + 1) = pc + 1 + i by omega] at hnext
      rw [reconvFrom, hrest, hr]
      cases hbra : isPredicatedBra (classifyInst inst registry warpSize) with
      | true => exact ⟨some (r : Int) :: rest, if_pos hbra⟩
      | false => exact ⟨none :: rest, if_neg (ne_true_of_eq_false hbra)⟩

end Kernel

/-- **Reconvergence points are immediate post-dominators**, by paths, wherever every instruction
reaches the exit and the predicated branches stay inside the kernel. -/
theorem reconvPc_isIpdom {kernel : KernelImage} {registry : DescriptorRegistry} {warpSize : Nat}
    (hreach : AllReach kernel registry warpSize)
    (htargets : BraTargetsInRange kernel registry warpSize) :
    ∃ reconvPc, analyzeControlFlow kernel registry warpSize = .ok reconvPc
      ∧ ∀ (pc : Nat) inst, kernel.insts[pc]? = some inst →
        isPredicatedBra (classifyInst inst registry warpSize) = true →
          ∃ r : Int, reconvPc[pc]? = some (some r)
            ∧ IsIpdom (FlowEdge kernel registry warpSize) kernel.insts.length pc r
            ∧ ∀ r', IsIpdom (FlowEdge kernel registry warpSize) kernel.insts.length pc r' →
                r' = r := by
  obtain ⟨succs, hbuild⟩ := buildSuccFrom_of_targets htargets (fun _ h => h) 0
  obtain ⟨hsuccs, hedges⟩ := succEdge_iff hbuild
  obtain ⟨hright₀, hupTo₀⟩ := postdomInit_cleared succs kernel.insts.length
  obtain ⟨postdom, hloop, hright⟩ := postdomLoop_exact hsuccs (Nat.zero_le _)
    (show kernel.insts.length < (kernel.insts.length + 1) * 4 + 64 + 0 by omega)
    (postdomInit_inv _) hright₀ hupTo₀
  obtain ⟨hinv, hfix⟩ := postdomLoop_spec hsuccs.get (postdomInit_inv _) hloop
  have htest := fun x (hx : x ≤ kernel.insts.length) c (hc : c ≤ kernel.insts.length) =>
    test_iff_onEveryPath hsuccs hinv hfix hright hx hc
  have hreachCfg : ∀ x ≤ kernel.insts.length,
      Reaches (SuccEdge succs) kernel.insts.length x := fun x hx => by
    rw [hedges]
    exact reaches_cfg hreach htargets hx
  have hipdom := fun pc (hpc : pc < kernel.insts.length) =>
    ipdomOf_exact hsuccs htest hreachCfg hpc
  obtain ⟨reconvPc, hreconv⟩ : ∃ reconvPc,
      reconvFrom kernel registry warpSize postdom 0 kernel.insts = .ok reconvPc := by
    refine reconvFrom_of_ipdoms fun i hi => ?_
    obtain ⟨r, -, hr, -⟩ := hipdom i hi
    exact ⟨r, by rw [Nat.zero_add, hr]⟩
  refine ⟨reconvPc, ?_, fun pc inst hinst hbra => ?_⟩
  · simp only [analyzeControlFlow, hbuild, hloop, hreconv]
  · have hpc : pc < kernel.insts.length := (List.getElem?_eq_some_iff.mp hinst).1
    obtain ⟨r, hrle, hr, hcfg⟩ := hipdom pc hpc
    have hentry := getElem?_reconvFrom hreconv pc inst hinst
    rw [if_pos hbra, Nat.zero_add] at hentry
    obtain ⟨c, hc, hcipdom⟩ := hentry
    rw [hr] at hcipdom
    cases hcipdom
    rw [hedges] at hcfg
    have hflow := isIpdom_flow hreach htargets hpc.le hcfg
    exact ⟨r, hc, hflow, fun r' hr' => (hflow.unique hr' (reaches_flow hreach hrle)).symm⟩

/-- `if (r0 < 1) skip the mov`. -/
def skipKernel : KernelImage where
  insts := [setpLt 0 0 1, braIf 0 3, movImm 1 7, retInst]

theorem reconvPc_isIpdom_skip :
    IsIpdom (FlowEdge skipKernel demoDescs 32) skipKernel.insts.length (1 : Nat) 3 := by
  have hret : Path (FlowEdge skipKernel demoDescs 32) (3 : Nat) _ (4 : Nat) :=
    .step (.ret rfl rfl rfl) (.last _)
  have hmov : Path (FlowEdge skipKernel demoDescs 32) (2 : Nat) _ (4 : Nat) :=
    .step (.next rfl rfl) hret
  have hbra : Path (FlowEdge skipKernel demoDescs 32) (1 : Nat) _ (4 : Nat) :=
    .step (.next rfl rfl) hmov
  have hsetp : Path (FlowEdge skipKernel demoDescs 32) (0 : Nat) _ (4 : Nat) :=
    .step (.next rfl rfl) hbra
  have hreach : AllReach skipKernel demoDescs 32 := by
    intro pc hpc
    change pc < 4 at hpc
    interval_cases pc
    · exact ⟨_, hsetp⟩
    · exact ⟨_, hbra⟩
    · exact ⟨_, hmov⟩
    · exact ⟨_, hret⟩
  have htargets : BraTargetsInRange skipKernel demoDescs 32 := by
    have hall : ∀ inst ∈ skipKernel.insts, (classifyInst inst demoDescs 32).all (fun info =>
        !info.hasBra || info.braTarget == some 3) = true := by decide
    intro inst hinst info hclass hbra _
    have htarget := hall inst hinst
    rw [hclass, Option.all_some, hbra, Bool.not_true, Bool.false_or, beq_iff_eq] at htarget
    exact ⟨3, htarget, by decide, by decide⟩
  obtain ⟨reconvPc, hanalyze, hipdom⟩ := reconvPc_isIpdom hreach htargets
  have hok : analyzeControlFlow skipKernel demoDescs 32 = .ok [none, some 3, none, none] := by
    decide
  rw [hok] at hanalyze
  cases hanalyze
  obtain ⟨r, hr, hflow, -⟩ := hipdom 1 (braIf 0 3) rfl rfl
  cases hr
  exact hflow

end ProtoGpu

import ProtoGpu.Instruction

/-!
# Control-flow analysis

`analyze_control_flow` (`control_flow_analysis.cpp`): the successors of every instruction, the
post-dominator sets of the resulting graph by iteration, and from them the reconvergence point of
every predicated branch. Node `insts.length` is the virtual exit. A `BitSet` is its list of bits.
-/

namespace ProtoGpu

/-! ### Bit sets -/

abbrev BitSet := List Bool

def BitSet.all (n : Nat) : BitSet := List.replicate n true

def BitSet.test (b : BitSet) (idx : Nat) : Bool := b.getD idx false

def BitSet.insert (b : BitSet) (idx : Nat) : BitSet := b.set idx true

def BitSet.singleton (n idx : Nat) : BitSet := BitSet.insert (List.replicate n false) idx

def BitSet.iand (a b : BitSet) : BitSet := List.zipWith (· && ·) a b

/-! ### Classification -/

structure InstCtrlInfo where
  hasBra : Bool := false
  hasRet : Bool := false
  isPredicated : Bool := false
  braTarget : Option Int := none
deriving DecidableEq, Repr

def classifyUop (info : InstCtrlInfo) (u : MicroOp) : InstCtrlInfo :=
  if u.kind ≠ .control then info
  else
    match u.op with
    | .bra =>
        match u.inputs with
        | [target] =>
            if target.kind = .imm then
              { info with hasBra := true, braTarget := some target.immI64 }
            else { info with hasBra := true }
        | _ => { info with hasBra := true }
    | .ret => { info with hasRet := true }
    | _ => info

def classifyInst (inst : InstRecord) (registry : DescriptorRegistry) (warpSize : Nat) :
    Option InstCtrlInfo :=
  match registry.lookup inst with
  | none => none
  | some desc =>
      some ((expand inst desc warpSize).foldl classifyUop { isPredicated := inst.pred.isSome })

/-! ### Successors -/

/-- The node a program counter stands for; one outside the kernel is the exit. -/
def nodeOf (nInsts : Nat) (pc : Int) : Nat :=
  if 0 ≤ pc ∧ pc.toNat < nInsts then pc.toNat else nInsts

def fallthroughNode (nInsts pc : Nat) : Nat := if pc + 1 < nInsts then pc + 1 else nInsts

def cfaDiag (kernel : KernelImage) (message : String) (loc : Option SourceLocation)
    (instIndex : Option Int) : Diagnostic :=
  { module := "simt", code := "E_RECONV_INVALID", message := message, location := loc
    function := some kernel.name, instIndex := instIndex }

def instSucc (kernel : KernelImage) (registry : DescriptorRegistry) (warpSize : Nat) (pc : Nat)
    (inst : InstRecord) : Except Diagnostic (List Nat) :=
  let nInsts := kernel.insts.length
  match classifyInst inst registry warpSize with
  | none => .ok [fallthroughNode nInsts pc]
  | some info =>
      if info.hasRet then .ok [nInsts]
      else if info.hasBra then
        if info.isPredicated then
          match info.braTarget with
          | none => .error (cfaDiag kernel "BRA target is missing/invalid" inst.dbg (some pc))
          | some target =>
              if target < 0 ∨ target.toNat ≥ nInsts then
                .error (cfaDiag kernel "BRA target PC out of range" inst.dbg (some pc))
              else .ok [target.toNat, fallthroughNode nInsts pc]
        else
          -- an unconditional branch out of range leads to the exit here and is left to `E_PC_OOB`
          match info.braTarget with
          | none => .ok [fallthroughNode nInsts pc]
          | some target => .ok [nodeOf nInsts target]
      else .ok [fallthroughNode nInsts pc]

def buildSuccFrom (kernel : KernelImage) (registry : DescriptorRegistry) (warpSize : Nat) :
    Nat → List InstRecord → Except Diagnostic (List (List Nat))
  | _, [] => .ok []
  | pc, inst :: insts =>
      match instSucc kernel registry warpSize pc inst with
      | .error d => .error d
      | .ok s =>
          match buildSuccFrom kernel registry warpSize (pc + 1) insts with
          | .error d => .error d
          | .ok ss => .ok (s :: ss)

/-! ### Post-dominators -/

/-- `{i}` with the intersection of the successors' sets. -/
def postdomOf (postdom : List BitSet) (succ : List Nat) (exitNode i : Nat) : BitSet :=
  let inter :=
    match succ with
    | [] => postdom.getD exitNode []
    | s :: ss => ss.foldl (fun acc t => acc.iand (postdom.getD t [])) (postdom.getD s [])
  inter.insert i

/-- One pass over the nodes, in place, and whether it changed a set. -/
def postdomSweep (succs : List (List Nat)) (exitNode : Nat) :
    List Nat → List BitSet → Bool → List BitSet × Bool
  | [], postdom, changed => (postdom, changed)
  | i :: is, postdom, changed =>
      if i = exitNode then postdomSweep succs exitNode is postdom changed
      else
        let newSet := postdomOf postdom (succs.getD i []) exitNode i
        if newSet = postdom.getD i [] then postdomSweep succs exitNode is postdom changed
        else postdomSweep succs exitNode is (postdom.set i newSet) true

/-- The sweeps, `iters` of them at most. -/
def postdomLoop (succs : List (List Nat)) (nNodes exitNode : Nat) :
    Nat → List BitSet → Option (List BitSet)
  | 0, _ => none
  | iters + 1, postdom =>
      match postdomSweep succs exitNode (List.range nNodes) postdom false with
      | (postdom', true) => postdomLoop succs nNodes exitNode iters postdom'
      | (postdom', false) => some postdom'

def postdomInit (nNodes exitNode : Nat) : List BitSet :=
  (List.range nNodes).map fun i =>
    if i = exitNode then BitSet.singleton nNodes exitNode else BitSet.all nNodes

/-! ### Immediate post-dominators -/

/-- `c` is a candidate of `pc` that post-dominates no other candidate. -/
def isImmediate (postdom : List BitSet) (nNodes pc c : Nat) : Bool :=
  c != pc && (postdom.getD pc []).test c
    && (List.range nNodes).all fun d =>
      d == pc || d == c || !(postdom.getD pc []).test d || !(postdom.getD d []).test c

def ipdomOf (postdom : List BitSet) (nNodes pc : Nat) : Option Nat :=
  (List.range nNodes).find? (isImmediate postdom nNodes pc)

def reconvFrom (kernel : KernelImage) (registry : DescriptorRegistry) (warpSize : Nat)
    (postdom : List BitSet) : Nat → List InstRecord → Except Diagnostic (List (Option Int))
  | _, [] => .ok []
  | pc, inst :: insts =>
      let isBranch :=
        match classifyInst inst registry warpSize with
        | none => false
        | some info => info.hasBra && info.isPredicated
      if isBranch then
        match ipdomOf postdom (kernel.insts.length + 1) pc with
        | none =>
            .error { module := "simt", code := "E_RECONV_MISS"
                     message := "missing ipdom for predicated BRA", location := inst.dbg
                     function := some kernel.name, instIndex := some pc }
        | some ipdom =>
            match reconvFrom kernel registry warpSize postdom (pc + 1) insts with
            | .error d => .error d
            | .ok rs => .ok (some (ipdom : Int) :: rs)
      else
        match reconvFrom kernel registry warpSize postdom (pc + 1) insts with
        | .error d => .error d
        | .ok rs => .ok (none :: rs)

/-- The `reconv_pc` table: an entry for every predicated branch. -/
def analyzeControlFlow (kernel : KernelImage) (registry : DescriptorRegistry) (warpSize : Nat) :
    Except Diagnostic (List (Option Int)) :=
  let exitNode := kernel.insts.length
  let nNodes := exitNode + 1
  match buildSuccFrom kernel registry warpSize 0 kernel.insts with
  | .error d => .error d
  | .ok succs =>
      match postdomLoop succs nNodes exitNode (nNodes * 4 + 64) (postdomInit nNodes exitNode) with
      | none => .error (cfaDiag kernel "postdom did not converge" none none)
      | some postdom => reconvFrom kernel registry warpSize postdom 0 kernel.insts

end ProtoGpu

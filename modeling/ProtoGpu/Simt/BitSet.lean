import ProtoGpu.Simt.ControlFlow

/-!
# Bit sets in words

The `BitSet` of `control_flow_analysis.cpp` as it is stored, in words of 64 bits, and the iteration
on such sets. Two of them are compared word by word, the bits behind the last node included.
-/

namespace ProtoGpu

structure WordSet where
  n : Nat := 0
  w : List (BitVec 64) := []
deriving DecidableEq

namespace WordSet

/-- `1ull << bi`. -/
def bit (bi : Nat) : BitVec 64 := 1#64 <<< bi

def all (n : Nat) : WordSet :=
  let w := List.replicate ((n + 63) / 64) 0xFFFFFFFFFFFFFFFF#64
  if !w.isEmpty && n % 64 != 0 then
    let mask := bit (n % 64) - 1
    { n := n, w := w.modify (w.length - 1) (· &&& mask) }
  else { n := n, w := w }

def test (b : WordSet) (idx : Nat) : Bool := b.w.getD (idx / 64) 0 &&& bit (idx % 64) != 0

def set (b : WordSet) (idx : Nat) : WordSet :=
  { b with w := b.w.modify (idx / 64) (· ||| bit (idx % 64)) }

def singleton (n idx : Nat) : WordSet :=
  set { n := n, w := List.replicate ((n + 63) / 64) 0 } idx

def equals (a b : WordSet) : Bool := a.n == b.n && a.w == b.w

def iand (a b : WordSet) : WordSet := { a with w := List.zipWith (· &&& ·) a.w b.w }

/-! ### The iteration -/

def postdomOf (postdom : List WordSet) (succ : List Nat) (exitNode i : Nat) : WordSet :=
  let inter :=
    match succ with
    | [] => postdom.getD exitNode {}
    | s :: ss => ss.foldl (fun acc t => acc.iand (postdom.getD t {})) (postdom.getD s {})
  inter.set i

def postdomSweep (succs : List (List Nat)) (exitNode : Nat) :
    List Nat → List WordSet → Bool → List WordSet × Bool
  | [], postdom, changed => (postdom, changed)
  | i :: is, postdom, changed =>
      if i = exitNode then postdomSweep succs exitNode is postdom changed
      else
        let newSet := postdomOf postdom (succs.getD i []) exitNode i
        if newSet.equals (postdom.getD i {}) then postdomSweep succs exitNode is postdom changed
        else postdomSweep succs exitNode is (postdom.set i newSet) true

def postdomLoop (succs : List (List Nat)) (nNodes exitNode : Nat) :
    Nat → List WordSet → Option (List WordSet)
  | 0, _ => none
  | iters + 1, postdom =>
      match postdomSweep succs exitNode (List.range nNodes) postdom false with
      | (postdom', true) => postdomLoop succs nNodes exitNode iters postdom'
      | (postdom', false) => some postdom'

def postdomInit (nNodes exitNode : Nat) : List WordSet :=
  (List.range nNodes).map fun i =>
    if i = exitNode then singleton nNodes exitNode else all nNodes

end WordSet

end ProtoGpu

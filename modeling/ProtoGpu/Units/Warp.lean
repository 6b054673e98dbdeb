import ProtoGpu.Instruction
import ProtoGpu.Memory

/-!
# Warp state and lane-wise storage

The state of one warp (`units.h`) and the helpers `exec_core.cpp` and `mem_unit.cpp` share: register
access, special registers, operands, and the loop over the lanes of a mask. Registers are stored
reg-major, `[reg][lane]`, in vectors that grow when a write goes past their end; an absent entry
reads as `0`. The index is a `size_t`, so `reg * warp_size + lane` wraps at `2 ^ 64`.
-/

namespace ProtoGpu

structure SimtFrame where
  pc : Int := 0
  active : LaneMask := {}
  reconvPc : Int := 0
  isJoin : Bool := false
deriving DecidableEq, Repr

structure WarpState where
  launch : LaunchConfig := {}
  ctaid : Dim3 := {}
  warpid : BitVec 32 := 0
  laneBaseThreadLinear : BitVec 32 := 0
  pc : Int := 0
  done : Bool := false
  active : LaneMask := {}
  exited : LaneMask := {}
  /-- The source's vector with its `back()` first. -/
  simtStack : List SimtFrame := []
  rU32 : List (BitVec 32) := []
  rU64 : List (BitVec 64) := []
  p : List Byte := []
deriving DecidableEq, Repr

/-- Float operations on bit patterns. -/
structure FloatOps where
  ofU32 : BitVec 32 → BitVec 32
  add : BitVec 32 → BitVec 32 → BitVec 32
  mul : BitVec 32 → BitVec 32 → BitVec 32
  fma : BitVec 32 → BitVec 32 → BitVec 32 → BitVec 32

/-- Stands in where a kernel has no float operation. -/
def FloatOps.unused : FloatOps where
  ofU32 := id
  add := fun x _ => x
  mul := fun x _ => x
  fma := fun x _ _ => x

/-! ### Registers -/

def regLaneIndex (reg lane warpSize : Nat) : Nat := (reg * warpSize + lane) % 2 ^ 64

/-- `std::vector::max_size()` for a 4-byte and an 8-byte element. -/
def maxSizeU32 : Nat := 2 ^ 61 - 1
def maxSizeU64 : Nat := 2 ^ 60 - 1

def resize {w : Nat} (file : List (BitVec w)) (n : Nat) : List (BitVec w) :=
  file.take n ++ List.replicate (n - file.length) 0

/-- `if (idx >= r.size()) r.resize(idx + 1); r[idx] = v;`. No vector can have more than `maxSize`
elements, and at the last `size_t` the sum is `0`: the file is emptied and the store is past its
end. -/
def growAndSet {w : Nat} (maxSize : Nat) (file : List (BitVec w)) (idx : Nat) (v : BitVec w) :
    Except Fault (List (BitVec w)) :=
  if idx < file.length then .ok (file.set idx v)
  else if idx + 1 ≤ maxSize then .ok ((resize file (idx + 1)).set idx v)
  else if idx + 1 = 2 ^ 64 then .error .undefined
  else .error .host

/-- The register number an operand names, a negative one standing for `0`. -/
def Operand.regNo (o : Operand) : Nat := if o.regId < 0 then 0 else o.regId.toNat

def readRegLane (o : Operand) (warp : WarpState) (lane : Nat) : BitVec 64 :=
  if o.kind ≠ .reg then 0
  else
    let warpSize := warp.active.width
    if warpSize = 0 then 0
    else if lane ≥ warpSize then 0
    else
      let idx := regLaneIndex o.regNo lane warpSize
      if o.type.isWide then warp.rU64.getD idx 0
      else (warp.rU32.getD idx 0).setWidth 64

def writeRegLane (o : Operand) (warp : WarpState) (lane : Nat) (v : BitVec 64) :
    Except Fault WarpState :=
  if o.kind ≠ .reg then .ok warp
  else
    let warpSize := warp.active.width
    if warpSize = 0 then .ok warp
    else if lane ≥ warpSize then .ok warp
    else
      let idx := regLaneIndex o.regNo lane warpSize
      if o.type.isWide then
        match growAndSet maxSizeU64 warp.rU64 idx v with
        | .error f => .error f
        | .ok file => .ok { warp with rU64 := file }
      else
        match growAndSet maxSizeU32 warp.rU32 idx (v.setWidth 32) with
        | .error f => .error f
        | .ok file => .ok { warp with rU32 := file }

/-! ### Operands -/

def readSpecialU32 (name : String) (warp : WarpState) (lane : Nat) : Option (BitVec 64) :=
  let bx := warp.launch.blockDim.x
  let by' := warp.launch.blockDim.y
  let bz := warp.launch.blockDim.z
  if bx = 0 ∨ by' = 0 ∨ bz = 0 then some 0
  else
    let threadLinear : BitVec 64 := warp.laneBaseThreadLinear.setWidth 64 + BitVec.ofNat 64 lane
    let bx64 : BitVec 64 := bx.setWidth 64
    let by64 : BitVec 64 := by'.setWidth 64
    let bxy64 := bx64 * by64
    let tidX : BitVec 32 := (threadLinear % bx64).setWidth 32
    let tidY : BitVec 32 := (threadLinear / bx64 % by64).setWidth 32
    let tidZ : BitVec 32 := (threadLinear / (if bxy64 = 0 then 1 else bxy64)).setWidth 32
    if name == "tid.x" then some (tidX.setWidth 64)
    else if name == "tid.y" then some (tidY.setWidth 64)
    else if name == "tid.z" then some (tidZ.setWidth 64)
    else if name == "ntid.x" then some (warp.launch.blockDim.x.setWidth 64)
    else if name == "ntid.y" then some (warp.launch.blockDim.y.setWidth 64)
    else if name == "ntid.z" then some (warp.launch.blockDim.z.setWidth 64)
    else if name == "ctaid.x" then some (warp.ctaid.x.setWidth 64)
    else if name == "ctaid.y" then some (warp.ctaid.y.setWidth 64)
    else if name == "ctaid.z" then some (warp.ctaid.z.setWidth 64)
    else if name == "nctaid.x" then some (warp.launch.gridDim.x.setWidth 64)
    else if name == "nctaid.y" then some (warp.launch.gridDim.y.setWidth 64)
    else if name == "nctaid.z" then some (warp.launch.gridDim.z.setWidth 64)
    else if name == "laneid" then some (BitVec.ofNat 64 lane)
    else if name == "warpid" then some (warp.warpid.setWidth 64)
    else none

def readOperandLane (o : Operand) (warp : WarpState) (lane : Nat) : Option (BitVec 64) :=
  match o.kind with
  | .imm => some (BitVec.ofInt 64 o.immI64)
  | .reg => some (readRegLane o warp lane)
  | .special => readSpecialU32 o.special warp lane
  | _ => some 0

def hasFlag (flags : List String) (name : String) : Bool := flags.any (· == name)

/-! ### The lane loop -/

def laneLoopFrom {σ : Type} (mask : LaneMask) (body : Nat → σ → Except Fault σ) :
    List Nat → σ → Option Fault × σ
  | [], s => (none, s)
  | lane :: lanes, s =>
      if laneMaskTest mask lane then
        match body lane s with
        | .error f => (some f, s)
        | .ok s' => laneLoopFrom mask body lanes s'
      else laneLoopFrom mask body lanes s

/-- `for (lane = 0; lane < mask.width && lane < 32; lane++)` over the lanes of `mask`. A failing
lane stops the loop and leaves what the earlier lanes did. -/
def laneLoop {σ : Type} (mask : LaneMask) (body : Nat → σ → Except Fault σ) (s : σ) :
    Option Fault × σ :=
  laneLoopFrom mask body (List.range (min mask.width 32)) s

/-- A step whose loop has run: progress, or the loop's fault. -/
def stepOfLoop {σ : Type} (r : Option Fault × σ) : Except Fault StepResult × σ :=
  match r.1 with
  | some f => (.error f, r.2)
  | none => (.ok { progressed := true }, r.2)

end ProtoGpu

import ProtoGpu.Units.Warp

/-!
# The execution core and the control unit

`ExecCore::step` (`exec_core.cpp`): one arithmetic micro-op over the lanes of
`warp.active & uop.guard`. Each lane's value is a function `value warp lane` of the state the loop
has reached, so the lane loops differ only in that function and in where the result goes.
`ControlUnit::step` (`control_unit.cpp`) has no lane loop: it reads the branch target.
-/

namespace ProtoGpu

def execDiag (code message : String) : Fault :=
  .diag { module := "units.exec", code := code, message := message }

def uopArity (message : String) : Fault := execDiag "E_UOP_ARITY" message

def specialUnknown : Fault := execDiag "E_SPECIAL_UNKNOWN" "unknown special operand"

/-- Write a lane's value to a register, or stop on the value's fault. -/
def writeLane (out : Operand) (value : WarpState → Nat → Except Fault (BitVec 64)) (lane : Nat)
    (warp : WarpState) : Except Fault WarpState :=
  match value warp lane with
  | .error f => .error f
  | .ok v => writeRegLane out warp lane v

def orFault {α : Type} (f : Fault) : Option α → Except Fault α
  | none => .error f
  | some v => .ok v

def execLanes (mask : LaneMask) (unknown : Fault) (out : Operand)
    (value : WarpState → Nat → Option (BitVec 64)) (warp : WarpState) :
    Except Fault StepResult × WarpState :=
  stepOfLoop (laneLoop mask (writeLane out fun w lane => orFault unknown (value w lane)) warp)

/-! ### Lane values -/

def unaryValue (f : BitVec 64 → BitVec 64) (a : Operand) (warp : WarpState) (lane : Nat) :
    Option (BitVec 64) := do
  let x ← readOperandLane a warp lane
  return f x

def binaryValue (f : BitVec 64 → BitVec 64 → BitVec 64) (a b : Operand) (warp : WarpState)
    (lane : Nat) : Option (BitVec 64) := do
  let x ← readOperandLane a warp lane
  let y ← readOperandLane b warp lane
  return f x y

def ternaryValue (f : BitVec 64 → BitVec 64 → BitVec 64 → BitVec 64) (a b c : Operand)
    (warp : WarpState) (lane : Nat) : Option (BitVec 64) := do
  let x ← readOperandLane a warp lane
  let y ← readOperandLane b warp lane
  let z ← readOperandLane c warp lane
  return f x y z

/-- A float operation applied to the low halves of its operands. -/
def onF32 (f : BitVec 32 → BitVec 32 → BitVec 32) (x y : BitVec 64) : BitVec 64 :=
  (f (x.setWidth 32) (y.setWidth 32)).setWidth 64

def mulInt (signed wideOut : Bool) (x y : BitVec 64) : BitVec 64 :=
  let prod : BitVec 64 :=
    if signed then (x.setWidth 32).signExtend 64 * (y.setWidth 32).signExtend 64
    else (x.setWidth 32).setWidth 64 * (y.setWidth 32).setWidth 64
  if wideOut then prod else (prod.setWidth 32).setWidth 64

def shlInt (is64 : Bool) (x y : BitVec 64) : BitVec 64 :=
  let sh := y.setWidth 32 &&& (if is64 then 63#32 else 31#32)
  if is64 then x <<< sh.toNat else (x.setWidth 32 <<< sh.toNat).setWidth 64

def shflWidthFromClamp (clamp : BitVec 32) : Nat :=
  let width := 32 - (clamp >>> 8 &&& 0x1F#32).toNat
  if width = 0 ∨ width > 32 then 32 else width

/-- The lane a `shfl` reads, before the member tests. -/
def shflSrcLane (doDown : Bool) (lane laneOrIdx width : Nat) : Nat :=
  let segBase := lane - lane % width
  if doDown then
    if lane - segBase + laneOrIdx % 32 < width then lane + laneOrIdx % 32 else lane
  else segBase + laneOrIdx % 32 % width

def shflValue (doDown : Bool) (execWidth : Nat) (src laneParam clampParam memberParam : Operand)
    (warp : WarpState) (lane : Nat) : Option (BitVec 64) := do
  let srcSelf ← readOperandLane src warp lane
  let laneOrIdx ← readOperandLane laneParam warp lane
  let clamp ← readOperandLane clampParam warp lane
  let memberBits ← readOperandLane memberParam warp lane
  let memberMask : BitVec 32 := memberBits.setWidth 32
  let width := shflWidthFromClamp (clamp.setWidth 32)
  let srcLane := shflSrcLane doDown lane (laneOrIdx.setWidth 32).toNat width
  let srcInRange := srcLane < execWidth ∧ srcLane < 32
  if memberMask.getLsbD lane ∧ srcInRange ∧ memberMask.getLsbD srcLane then
    readOperandLane src warp srcLane
  else return srcSelf

/-- `sum += f32_from_bits(v)` over the lanes of the mask. -/
def reduceLanes (F : FloatOps) (mask : LaneMask) (a : Operand) (warp : WarpState) :
    Option Fault × BitVec 32 :=
  laneLoop mask (fun lane sum =>
    match readOperandLane a warp lane with
    | none => .error specialUnknown
    | some v => .ok (F.add sum (v.setWidth 32))) 0#32

/-! ### Comparison -/

inductive SetpCmp where
  | le | gt | ge | eq | ne | lt
deriving DecidableEq, Repr

/-- The comparison the flags select, in the order the code tests them; `lt` is the default. -/
def setpCmp (flags : List String) : SetpCmp :=
  if hasFlag flags "le" then .le
  else if hasFlag flags "gt" then .gt
  else if hasFlag flags "ge" then .ge
  else if hasFlag flags "eq" then .eq
  else if hasFlag flags "ne" then .ne
  else .lt

def setpOpCount (flags : List String) : Nat :=
  ["lt", "le", "gt", "ge", "eq", "ne"].countP (hasFlag flags)

def SetpCmp.holds (cmp : SetpCmp) (signed : Bool) (aa bb : BitVec 32) : Bool :=
  let lt := fun x y : BitVec 32 => if signed then x.slt y else x.ult y
  match cmp with
  | .le => !lt bb aa
  | .gt => lt bb aa
  | .ge => !lt aa bb
  | .eq => aa == bb
  | .ne => aa != bb
  | .lt => lt aa bb

def setpValue (cmp : SetpCmp) (signed : Bool) (a b : Operand) (warp : WarpState) (lane : Nat) :
    Option Bool := do
  let x ← readOperandLane a warp lane
  let y ← readOperandLane b warp lane
  return cmp.holds signed (x.setWidth 32) (y.setWidth 32)

/-- `warp.p[base + lane] = pred ? 1 : 0`. -/
def writePredLane (base : Nat) (value : WarpState → Nat → Option Bool) (lane : Nat)
    (warp : WarpState) : Except Fault WarpState :=
  match value warp lane with
  | none => .error specialUnknown
  | some pred =>
      if (base + lane) % 2 ^ 64 < warp.p.length then
        .ok { warp with p := warp.p.set ((base + lane) % 2 ^ 64) (if pred then 1 else 0) }
      else .error .undefined

def setpStep (uop : MicroOp) (execMask : LaneMask) (out a b : Operand) (warp : WarpState) :
    Except Fault StepResult × WarpState :=
  if out.kind ≠ .pred ∨ out.predId < 0 then
    (.error (execDiag "E_OPERAND_KIND" "SETP output must be a predicate"), warp)
  else if setpOpCount uop.attrs.flags > 1 then
    (.error (execDiag "E_SETP_FLAGS" "SETP has multiple compare flags"), warp)
  else
    let warpSize := warp.active.width
    let base := out.predId.toNat * warpSize % 2 ^ 64
    if warpSize = 0 ∨ warpSize > 32 then
      (.error (execDiag "E_WARP_SIZE" "invalid warp_size"), warp)
    else if (base + warpSize) % 2 ^ 64 > warp.p.length then
      (.error (execDiag "E_PRED_OOB" "predicate id out of range"), warp)
    else
      let signed := uop.attrs.type = .s32 ∨ uop.attrs.type = .s64
      stepOfLoop (laneLoop execMask
        (writePredLane base (setpValue (setpCmp uop.attrs.flags) signed a b)) warp)

/-! ### The step -/

def ExecCore.step (F : FloatOps) (uop : MicroOp) (warp : WarpState) :
    Except Fault StepResult × WarpState :=
  if warp.done then (.ok { warpDone := true }, warp)
  else
    let execMask := laneMaskAnd warp.active uop.guard
    match uop.op with
    | .mov =>
        match uop.outputs, uop.inputs with
        | [out], [a] =>
            execLanes execMask
              (execDiag "E_SPECIAL_UNKNOWN" ("unknown special operand: " ++ a.special)) out
              (unaryValue id a) warp
        | _, _ => (.error (uopArity "MOV expects 1 in, 1 out"), warp)
    | .cvt =>
        match uop.outputs, uop.inputs with
        | [out], [a] =>
            if out.type ≠ .f32 ∨ a.type ≠ .u32 then
              (.error (execDiag "E_UOP_TYPE" "CVT only supports u32->f32 in this milestone"), warp)
            else
              execLanes execMask specialUnknown out
                (unaryValue (fun x => (F.ofU32 (x.setWidth 32)).setWidth 64) a) warp
        | _, _ => (.error (uopArity "CVT expects 1 in, 1 out"), warp)
    | .add =>
        match uop.outputs, uop.inputs with
        | [out], [a, b] =>
            if uop.attrs.type = .f32 then
              execLanes execMask specialUnknown out (binaryValue (onF32 F.add) a b) warp
            else execLanes execMask specialUnknown out (binaryValue (· + ·) a b) warp
        | _, _ => (.error (uopArity "ADD expects 2 in, 1 out"), warp)
    | .mul =>
        match uop.outputs, uop.inputs with
        | [out], [a, b] =>
            if uop.attrs.type = .f32 then
              execLanes execMask specialUnknown out (binaryValue (onF32 F.mul) a b) warp
            else
              let signed := uop.attrs.type = .s32 ∨ uop.attrs.type = .s64
              execLanes execMask specialUnknown out
                (binaryValue (mulInt signed out.type.isWide) a b) warp
        | _, _ => (.error (uopArity "MUL expects 2 in, 1 out"), warp)
    | .shl =>
        match uop.outputs, uop.inputs with
        | [out], [a, b] =>
            execLanes execMask specialUnknown out
              (binaryValue (shlInt (uop.attrs.type.isWide || out.type.isWide)) a b) warp
        | _, _ => (.error (uopArity "SHL expects 2 in, 1 out"), warp)
    | .shfl =>
        match uop.outputs, uop.inputs with
        | [out], [src, laneParam, clampParam, memberParam] =>
            let doDown := hasFlag uop.attrs.flags "down"
            let doIdx := hasFlag uop.attrs.flags "idx"
            if doDown == doIdx then
              (.error (execDiag "E_SHFL_MODE" "SHFL requires exactly one of .down or .idx"), warp)
            else
              execLanes execMask specialUnknown out
                (shflValue doDown execMask.width src laneParam clampParam memberParam) warp
        | _, _ => (.error (uopArity "SHFL expects 4 in, 1 out"), warp)
    | .fma =>
        match uop.outputs, uop.inputs with
        | [out], [a, b, c] =>
            if uop.attrs.type ≠ .f32 then
              (.error (execDiag "E_UOP_TYPE" "FMA only supports f32 in this milestone"), warp)
            else
              execLanes execMask specialUnknown out
                (ternaryValue (fun x y z =>
                  (F.fma (x.setWidth 32) (y.setWidth 32) (z.setWidth 32)).setWidth 64) a b c) warp
        | _, _ => (.error (uopArity "FMA expects 3 in, 1 out"), warp)
    | .warpReduceAdd =>
        match uop.outputs, uop.inputs with
        | [out], [a] =>
            if uop.attrs.type ≠ .f32 then
              (.error (execDiag "E_UOP_TYPE"
                "WARP_REDUCE_ADD only supports f32 in this milestone"), warp)
            else
              match reduceLanes F execMask a warp with
              | (some f, _) => (.error f, warp)
              | (none, sum) =>
                  execLanes execMask specialUnknown out (fun _ _ => some (sum.setWidth 64)) warp
        | _, _ => (.error (uopArity "WARP_REDUCE_ADD expects 1 in, 1 out"), warp)
    | .setp =>
        match uop.outputs, uop.inputs with
        | [out], [a, b] => setpStep uop execMask out a b warp
        | _, _ => (.error (uopArity "SETP expects 2 in, 1 out"), warp)
    | _ => (.error (execDiag "E_UOP_UNSUPPORTED" "unsupported exec uop"), warp)

/-! ### The control unit -/

def ctrlDiag (code message : String) : Fault :=
  .diag { module := "units.ctrl", code := code, message := message }

def ControlUnit.step (uop : MicroOp) (warp : WarpState) : Except Fault StepResult × WarpState :=
  if warp.done then (.ok { warpDone := true }, warp)
  else if (laneMaskAnd warp.active uop.guard).bitsLo = 0#32 then
    -- a predicated-off control op is a no-op, whatever its operands are
    (.ok { progressed := true }, warp)
  else
    match uop.op with
    | .bra =>
        match uop.inputs with
        | [target] =>
            if target.kind ≠ .imm then
              (.error (ctrlDiag "E_OPERAND_KIND" "BRA expects imm(pc) operand"), warp)
            else (.ok { progressed := true, nextPc := some target.immI64 }, warp)
        | _ => (.error (ctrlDiag "E_UOP_ARITY" "BRA expects 1 input (pc)"), warp)
    | .ret => (.ok { progressed := true, warpDone := true }, { warp with done := true })
    | _ => (.error (ctrlDiag "E_UOP_UNSUPPORTED" "unsupported ctrl uop"), warp)

end ProtoGpu

import ProtoGpu.Units.ExecCore

/-!
# The memory unit

`MemUnit::step` (`mem_unit.cpp`): loads and stores over the lanes of `warp.active & uop.guard`. A
load writes registers and a store writes memory, so each lane loop threads one of the two. Local
memory is one sparse map for the whole executor; a thread owns the `4096` addresses from its linear
id times `4096` on.
-/

namespace ProtoGpu

/-- What the micro-ops of a launch share: the address spaces and the unit's `local_` map. -/
structure MemState where
  mgr : AddrSpaceManager := {}
  localMem : SparseMem := fun _ => none

def memDiag (code message : String) : Fault :=
  .diag { module := "units.mem", code := code, message := message }

def typeSize : ValueType → Nat
  | .u32 | .s32 | .f32 => 4
  | .u64 | .s64 => 8

def packLe (v : BitVec 64) (size : Nat) : List Byte :=
  (List.range size).map fun i => (v >>> (8 * i)).setWidth 8

/-- Little-endian; what lies past the eighth byte is shifted out. -/
def unpackLe : List Byte → BitVec 64
  | [] => 0
  | b :: bytes => b.setWidth 64 ||| unpackLe bytes <<< 8

/-! ### Addresses -/

def evalAddrLane (o : Operand) (warp : WarpState) (lane : Nat) : Addr :=
  let base :=
    if o.regId ≥ 0 then readRegLane { kind := .reg, type := .u64, regId := o.regId } warp lane
    else 0
  base + BitVec.ofInt 64 o.immI64

def threadLinearGlobal (warp : WarpState) (lane : Nat) : BitVec 64 :=
  let gx : BitVec 64 := warp.launch.gridDim.x.setWidth 64
  let gy : BitVec 64 := warp.launch.gridDim.y.setWidth 64
  let ctaLinear : BitVec 64 :=
    warp.ctaid.x.setWidth 64 + gx * (warp.ctaid.y.setWidth 64 + gy * warp.ctaid.z.setWidth 64)
  let threadsPerBlock : BitVec 64 :=
    warp.launch.blockDim.x.setWidth 64 * warp.launch.blockDim.y.setWidth 64
      * warp.launch.blockDim.z.setWidth 64
  let laneLinear : BitVec 64 := warp.laneBaseThreadLinear.setWidth 64 + BitVec.ofNat 64 lane
  ctaLinear * threadsPerBlock + laneLinear

def localEffectiveAddr (warp : WarpState) (lane : Nat) (localAddr : Addr) : Addr :=
  threadLinearGlobal warp lane * 4096 + localAddr

def misaligned (addr : Addr) (size : Nat) : Bool :=
  size ≠ 0 && addr % BitVec.ofNat 64 size ≠ 0

def globalFailure (verb : String) (addr : Addr) (size : Nat) : Fault :=
  memDiag "E_GLOBAL_MISS"
    ("global " ++ verb ++ " failed at addr=" ++ toString addr.toNat ++ " size=" ++ toString size)

/-! ### Lane bodies -/

def ldGlobalValue (src : Operand) (size : Nat) (mem : MemState) (warp : WarpState) (lane : Nat) :
    Except Fault (BitVec 64) :=
  let addr := evalAddrLane src warp lane
  if misaligned addr size then .error (memDiag "E_GLOBAL_ALIGN" "global read is misaligned")
  else
    match mem.mgr.readGlobal addr (BitVec.ofNat 64 size) with
    | none => .error (globalFailure "read" addr size)
    | some bytes => .ok (unpackLe bytes)

def ldLocalValue (src : Operand) (size : Nat) (mem : MemState) (warp : WarpState) (lane : Nat) :
    Except Fault (BitVec 64) :=
  .ok (unpackLe (readSparse mem.localMem
    (localEffectiveAddr warp lane (evalAddrLane src warp lane)) size))

def stGlobalLane (dst val : Operand) (size : Nat) (warp : WarpState) (lane : Nat)
    (mem : MemState) : Except Fault MemState :=
  let addr := evalAddrLane dst warp lane
  if misaligned addr size then .error (memDiag "E_GLOBAL_ALIGN" "global write is misaligned")
  else
    match readOperandLane val warp lane with
    | none => .error (memDiag "E_SPECIAL_UNKNOWN" "unknown special operand")
    | some v =>
        match mem.mgr.writeGlobal addr (packLe v size) with
        | none => .error (globalFailure "write" addr size)
        | some mgr => .ok { mem with mgr := mgr }

def stLocalLane (dst val : Operand) (size : Nat) (warp : WarpState) (lane : Nat)
    (mem : MemState) : Except Fault MemState :=
  let eff := localEffectiveAddr warp lane (evalAddrLane dst warp lane)
  match readOperandLane val warp lane with
  | none => .error (memDiag "E_SPECIAL_UNKNOWN" "unknown special operand")
  | some v => .ok { mem with localMem := writeSparse mem.localMem eff (packLe v size) }

/-! ### The step -/

def ldStep (uop : MicroOp) (execMask : LaneMask) (out src : Operand) (warp : WarpState)
    (mem : MemState) : Except Fault StepResult × WarpState :=
  let size := typeSize uop.attrs.type
  match uop.attrs.space with
  | .param =>
      if src.kind ≠ .symbol then
        (.error (memDiag "E_LD_PARAM_KIND" "ld.param expects symbol source"), warp)
      else
        match mem.mgr.readParamSymbol src.symbol (BitVec.ofNat 64 size) with
        | none => (.error (memDiag "E_PARAM_MISS" ("param read failed for " ++ src.symbol)), warp)
        | some bytes =>
            stepOfLoop (laneLoop execMask (writeLane out fun _ _ => .ok (unpackLe bytes)) warp)
  | .global =>
      if src.kind ≠ .addr then
        (.error (memDiag "E_LD_GLOBAL_KIND" "ld.global expects addr source"), warp)
      else stepOfLoop (laneLoop execMask (writeLane out (ldGlobalValue src size mem)) warp)
  | .localMem =>
      if src.kind ≠ .addr then
        (.error (memDiag "E_LD_LOCAL_KIND" "ld.local expects addr source"), warp)
      else stepOfLoop (laneLoop execMask (writeLane out (ldLocalValue src size mem)) warp)
  | _ => (.error (memDiag "E_LD_SPACE" "unsupported ld space"), warp)

def stStep (uop : MicroOp) (execMask : LaneMask) (dst val : Operand) (warp : WarpState)
    (mem : MemState) : Except Fault StepResult × MemState :=
  let size := typeSize uop.attrs.type
  match uop.attrs.space with
  | .global =>
      if dst.kind ≠ .addr then
        (.error (memDiag "E_ST_GLOBAL_KIND" "st.global expects addr dest"), mem)
      else stepOfLoop (laneLoop execMask (stGlobalLane dst val size warp) mem)
  | .localMem =>
      if dst.kind ≠ .addr then
        (.error (memDiag "E_ST_LOCAL_KIND" "st.local expects addr dest"), mem)
      else stepOfLoop (laneLoop execMask (stLocalLane dst val size warp) mem)
  | _ => (.error (memDiag "E_ST_SPACE" "unsupported st space"), mem)

def MemUnit.step (uop : MicroOp) (warp : WarpState) (mem : MemState) :
    Except Fault StepResult × WarpState × MemState :=
  if warp.done then (.ok { warpDone := true }, warp, mem)
  else
    let execMask := laneMaskAnd warp.active uop.guard
    match uop.op with
    | .ld =>
        match uop.outputs, uop.inputs with
        | [out], [src] =>
            let r := ldStep uop execMask out src warp mem
            (r.1, r.2, mem)
        | _, _ => (.error (memDiag "E_UOP_ARITY" "LD expects 1 in, 1 out"), warp, mem)
    | .st =>
        match uop.outputs, uop.inputs with
        | [], [dst, val] =>
            let r := stStep uop execMask dst val warp mem
            (r.1, warp, r.2)
        | _, _ => (.error (memDiag "E_UOP_ARITY" "ST expects 2 in, 0 out"), warp, mem)
    | _ => (.error (memDiag "E_UOP_UNSUPPORTED" "unsupported mem uop"), warp, mem)

end ProtoGpu

import ProtoGpu.Simt.ControlFlow
import ProtoGpu.Units.MemUnit

/-!
# One step of a warp

The body of the step loop of `SimtExecutor::run` (`simt.cpp`): `normalize_stack`, the predicate
mask, the micro-ops of the instruction at `warp.pc`, and the commit that moves the top frame on or
splits it. A step that ends in a diagnostic still returns the state it leaves behind.
-/

namespace ProtoGpu

/-- What the step loop of a CTA reads: the kernel, the descriptors and the analysed `reconv_pc`. -/
structure WarpContext where
  kernel : KernelImage
  registry : DescriptorRegistry
  warpSize : Nat
  reconvPc : List (Option Int)
  floatOps : FloatOps

namespace WarpContext

variable (ctx : WarpContext)

def nInsts : Nat := ctx.kernel.insts.length

/-- The sentinel program counter of EXIT. -/
def exitPc : Int := ctx.nInsts

def simtDiag (code message : String) (location : Option SourceLocation) (pc : Int) : Fault :=
  .diag { module := "simt", code := code, message := message, location := location
          function := some ctx.kernel.name, instIndex := some pc }

end WarpContext

/-! ### normalize_stack -/

def mergeIntoJoin (reconvPc : Int) (arrived : LaneMask) : List SimtFrame → Option (List SimtFrame)
  | [] => none
  | f :: fs =>
      if f.isJoin && f.pc == reconvPc then
        some ({ f with active := laneMaskOrSameWidth f.active arrived } :: fs)
      else (mergeIntoJoin reconvPc arrived fs).map (f :: ·)

inductive Normalized where
  | ready (top : SimtFrame) (rest : List SimtFrame) (joined : Bool)
  | empty
  | invalid (reconvPc : Int) (rest : List SimtFrame)
deriving DecidableEq, Repr

def SimtFrame.refresh (exited : LaneMask) (f : SimtFrame) : SimtFrame :=
  { f with active := laneMaskAnd f.active (laneMaskNotWidth exited) }

/-- The loop of `normalize_stack`. Every turn but the last pops a frame, so the depth of the stack
is fuel enough. -/
def normalizeFrames (exited : LaneMask) : Nat → List SimtFrame → Normalized
  | _, [] => .empty
  | 0, _ :: _ => .empty
  | fuel + 1, f :: fs =>
      let top := f.refresh exited
      if laneMaskEmpty top.active then normalizeFrames exited fuel fs
      else if top.isJoin then .ready { top with isJoin := false } fs true
      else if top.pc = top.reconvPc then
        match mergeIntoJoin top.pc top.active fs with
        | none => .invalid top.pc fs
        | some fs' => normalizeFrames exited fuel fs'
      else .ready top fs false

inductive NormalizeOutcome where
  | ready | retired
deriving DecidableEq, Repr

def normalizeStack (ctx : WarpContext) (warp : WarpState) :
    Except Fault NormalizeOutcome × WarpState :=
  match normalizeFrames warp.exited warp.simtStack.length warp.simtStack with
  | .ready top rest _ =>
      (.ok .ready, { warp with pc := top.pc, active := top.active, simtStack := top :: rest })
  | .empty =>
      (.ok .retired,
        { warp with
          done := true, active := { width := ctx.warpSize, bitsLo := 0 }, simtStack := [] })
  | .invalid reconvPc rest =>
      (.error (ctx.simtDiag "E_RECONV_INVALID" "reconv join frame not found" none reconvPc),
        { warp with simtStack := rest })

/-! ### Predication -/

/-- The mask of the active lanes whose predicate enables the instruction. -/
def predMask (ctx : WarpContext) (warp : WarpState) (guard : PredGuard) (base : Nat) :
    Option Fault × LaneMask :=
  laneLoopFrom warp.active (fun lane m =>
    match warp.p[(base + lane) % 2 ^ 64]? with
    | none => .error .undefined
    | some b =>
        let pval := b != 0
        let enabled : Bool := if guard.isNegated then !pval else pval
        if enabled then .ok { m with bitsLo := m.bitsLo ||| 1#32 <<< lane } else .ok m)
    (List.range (min ctx.warpSize 32)) { width := ctx.warpSize, bitsLo := 0 }

/-- The micro-ops of an instruction under its predicate. -/
def predicate (ctx : WarpContext) (inst : InstRecord) (warp : WarpState) (uops : List MicroOp) :
    Except Fault (List MicroOp) :=
  match inst.pred with
  | none => .ok uops
  | some guard =>
      if guard.predId < 0 then
        .error (ctx.simtDiag "E_PRED_OOB" "predicate id out of range" inst.dbg warp.pc)
      else
        let base := guard.predId.toNat * ctx.warpSize % 2 ^ 64
        if (base + ctx.warpSize) % 2 ^ 64 > warp.p.length then
          .error (ctx.simtDiag "E_PRED_OOB" "predicate id out of range" inst.dbg warp.pc)
        else
          match predMask ctx warp guard base with
          | (some f, _) => .error f
          | (none, mask) => .ok (uops.map fun u => { u with guard := laneMaskAnd u.guard mask })

/-! ### The micro-ops of an instruction -/

structure PendingSplit where
  pc : Int
  targetPc : Int
  reconvPc : Int
  taken : LaneMask
  fallthrough : LaneMask
deriving DecidableEq, Repr

/-- The variables of the micro-op loop. -/
structure IssueState where
  warp : WarpState
  mem : MemState
  nextPc : Option Int := none
  split : Option PendingSplit := none

def ctrlRet (uop : MicroOp) (s : IssueState) : IssueState :=
  let execMask := laneMaskAnd s.warp.active uop.guard
  if execMask.bitsLo = 0#32 then s
  else
    let exited := laneMaskOrSameWidth s.warp.exited execMask
    match s.warp.simtStack with
    | [] => { s with warp := { s.warp with exited := exited } }
    | top :: rest =>
        let active := laneMaskAnd top.active (laneMaskNotWidth execMask)
        let stack := { top with active := active } :: rest
        { s with warp := { s.warp with exited := exited, active := active, simtStack := stack } }

/-- A `BRA` that read a target: record the split when the warp diverges here. -/
def detectSplit (ctx : WarpContext) (inst : InstRecord) (uop : MicroOp) (target : Int)
    (s : IssueState) : Except Fault IssueState :=
  let taken := laneMaskAnd s.warp.active uop.guard
  let fallthrough := laneMaskAnd s.warp.active (laneMaskNotWidth uop.guard)
  if laneMaskEmpty taken || laneMaskEmpty fallthrough then .ok s
  else
    let missing :=
      ctx.simtDiag "E_RECONV_MISS" "missing reconv_pc for divergent BRA" inst.dbg s.warp.pc
    if s.warp.pc < 0 then .error missing
    else
      match ctx.reconvPc[s.warp.pc.toNat]? with
      | some (some reconvPc) =>
          let split : PendingSplit :=
            { pc := s.warp.pc, targetPc := target, reconvPc := reconvPc
              taken := taken, fallthrough := fallthrough }
          .ok { s with split := some split }
      | _ => .error missing

def setNextPc (ctx : WarpContext) (inst : InstRecord) (target : Int) (s : IssueState) :
    Except Fault IssueState :=
  match s.nextPc with
  | none => .ok { s with nextPc := some target }
  | some pc =>
      if pc ≠ target then
        .error (ctx.simtDiag "E_NEXT_PC_CONFLICT" "multiple control uops set next_pc" inst.dbg
          s.warp.pc)
      else .ok s

/-- Fill in what the unit that reported the diagnostic does not know. -/
def locateFault (ctx : WarpContext) (inst : InstRecord) (pc : Int) : Fault → Fault
  | .host => .host
  | .undefined => .undefined
  | .diag d =>
      .diag { d with
        function := d.function.or (some ctx.kernel.name)
        instIndex := d.instIndex.or (some pc)
        location := d.location.or inst.dbg }

def ctrlStep (ctx : WarpContext) (inst : InstRecord) (uop : MicroOp) (s : IssueState) :
    Option Fault × IssueState :=
  let (r, warp) := ControlUnit.step uop s.warp
  let s' := { s with warp := warp }
  match r with
  | .error f => (some (locateFault ctx inst s.warp.pc f), s')
  | .ok sr =>
      match sr.nextPc with
      | none => (none, s')
      | some target =>
          let detected := if uop.op = .bra then detectSplit ctx inst uop target s' else .ok s'
          match detected with
          | .error f => (some f, s')
          | .ok s'' =>
              match setNextPc ctx inst target s'' with
              | .error f => (some f, s'')
              | .ok s''' => (none, s''')

/-- One micro-op. Only the control unit sets `next_pc`. -/
def uopStep (ctx : WarpContext) (inst : InstRecord) (uop : MicroOp) (s : IssueState) :
    Option Fault × IssueState :=
  match uop.kind with
  | .exec =>
      match ExecCore.step ctx.floatOps uop s.warp with
      | (.error f, warp) => (some (locateFault ctx inst s.warp.pc f), { s with warp := warp })
      | (.ok _, warp) => (none, { s with warp := warp })
  | .control => if uop.op = .ret then (none, ctrlRet uop s) else ctrlStep ctx inst uop s
  | .mem =>
      match MemUnit.step uop s.warp s.mem with
      | (.error f, warp, mem) =>
          (some (locateFault ctx inst s.warp.pc f), { s with warp := warp, mem := mem })
      | (.ok _, warp, mem) => (none, { s with warp := warp, mem := mem })

def uopLoop (ctx : WarpContext) (inst : InstRecord) :
    List MicroOp → IssueState → Option Fault × IssueState
  | [], s => (none, s)
  | uop :: uops, s =>
      match uopStep ctx inst uop s with
      | (some f, s') => (some f, s')
      | (none, s') => uopLoop ctx inst uops s'

/-! ### Commit -/

def splitFrames (ctx : WarpContext) (split : PendingSplit) (oldPc outerReconv : Int) :
    List SimtFrame :=
  [{ pc := split.targetPc, active := split.taken, reconvPc := split.reconvPc, isJoin := false },
   { pc := oldPc + 1, active := split.fallthrough, reconvPc := split.reconvPc, isJoin := false },
   { pc := split.reconvPc, active := { width := ctx.warpSize, bitsLo := 0 },
     reconvPc := outerReconv, isJoin := true }]

def commitStack (ctx : WarpContext) (oldPc : Int) (nextPc : Option Int)
    (split : Option PendingSplit) : List SimtFrame → List SimtFrame
  | [] => []
  | top :: rest =>
      match split with
      | some sp => splitFrames ctx sp oldPc top.reconvPc ++ rest
      | none => { top with pc := nextPc.getD (oldPc + 1) } :: rest

def commit (ctx : WarpContext) (nextPc : Option Int) (split : Option PendingSplit)
    (warp : WarpState) : WarpState :=
  if warp.done then warp
  else
    let stack := commitStack ctx warp.pc nextPc split warp.simtStack
    match stack with
    | [] => { warp with simtStack := [], done := true }
    | top :: _ => { warp with simtStack := stack, pc := top.pc, active := top.active }

/-! ### The step -/

/-- What the `FETCH` and `SIMT_SPLIT` events of a step record, with the lanes that had exited. -/
structure Issue where
  pc : Int
  active : LaneMask
  exited : LaneMask
  split : Option PendingSplit
deriving DecidableEq, Repr

inductive StepOutcome where
  | retired
  | issued (issue : Issue)
deriving DecidableEq, Repr

def formatInstSig (inst : InstRecord) : String :=
  inst.opcode
    ++ (if inst.mods.typeMod = "" then "" else "." ++ inst.mods.typeMod)
    ++ " (" ++ ",".intercalate (instOperandKinds inst) ++ ")"

/-- Issue the instruction at `warp.pc` of a normalized warp. -/
def issueInst (ctx : WarpContext) (warp : WarpState) (mem : MemState) :
    Except Fault Issue × WarpState × MemState :=
  if warp.pc < 0 then
    (.error (ctx.simtDiag "E_PC_OOB" "PC out of range" none warp.pc), warp, mem)
  else
    match ctx.kernel.insts[warp.pc.toNat]? with
    | none => (.error (ctx.simtDiag "E_PC_OOB" "PC out of range" none warp.pc), warp, mem)
    | some inst =>
        match ctx.registry.lookup inst with
        | none =>
            (.error (ctx.simtDiag "E_DESC_MISS" ("no inst descriptor for " ++ formatInstSig inst)
              inst.dbg warp.pc), warp, mem)
        | some desc =>
            match predicate ctx inst warp (expand inst desc ctx.warpSize) with
            | .error f => (.error f, warp, mem)
            | .ok uops =>
                match uopLoop ctx inst uops { warp := warp, mem := mem } with
                | (some f, s) => (.error f, s.warp, s.mem)
                | (none, s) =>
                    (.ok { pc := warp.pc, active := warp.active, exited := warp.exited
                           split := s.split },
                      commit ctx s.nextPc s.split s.warp, s.mem)

def warpStep (ctx : WarpContext) (warp : WarpState) (mem : MemState) :
    Except Fault StepOutcome × WarpState × MemState :=
  match normalizeStack ctx warp with
  | (.error f, warp') => (.error f, warp', mem)
  | (.ok .retired, warp') => (.ok .retired, warp', mem)
  | (.ok .ready, warp') =>
      match issueInst ctx warp' mem with
      | (.error f, r) => (.error f, r)
      | (.ok issue, r) => (.ok (.issued issue), r)

end ProtoGpu

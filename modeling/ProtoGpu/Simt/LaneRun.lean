import ProtoGpu.Simt.WarpRun

/-!
# One warp against its lanes

The executor started with one lane active is the program that lane would run on its own. This file
states what it means for the warp to refine those programs: it ends when they all end, within the
sum of their steps, and leaves in every lane's registers what the lane's own run leaves there.
-/

namespace ProtoGpu

def laneOnly (warpSize lane : Nat) : LaneMask where
  width := warpSize
  bitsLo := 1#32 <<< lane

/-- A warp with the registers of `regs`, at the first instruction with the lanes of `active`. -/
def startWarp (ctx : WarpContext) (regs : WarpState) (active : LaneMask) : WarpState :=
  { regs with
    pc := 0
    done := false
    active := active
    exited := { width := ctx.warpSize, bitsLo := 0 }
    simtStack := [{ pc := 0, active := active, reconvPc := ctx.exitPc, isJoin := false }] }

/-- What `runWarp` issues, the first instruction first. -/
def issuedBy (ctx : WarpContext) : Nat → WarpState → MemState → List Issue
  | 0, _, _ => []
  | budget + 1, w, mem =>
      if w.done then []
      else
        match warpStep ctx w mem with
        | (.ok (.issued issue), w', mem') => issue :: issuedBy ctx budget w' mem'
        | _ => []

/-! ### A lane's registers -/

/-- Two register files, absent entries being `0`, that agree on the entries of a lane. -/
def SameEntries {w : Nat} (warpSize lane : Nat) (file file' : List (BitVec w)) : Prop :=
  ∀ i, i % warpSize = lane → file.getD i 0 = file'.getD i 0

structure SameRegs (warpSize lane : Nat) (w w' : WarpState) : Prop where
  rU32 : SameEntries warpSize lane w.rU32 w'.rU32
  rU64 : SameEntries warpSize lane w.rU64 w'.rU64
  p : SameEntries warpSize lane w.p w'.p

/-- The entries of register number `n` are one for each lane: `n * warp_size`, as a `size_t`, starts
a row and the row does not wrap. -/
def LaneAligned (warpSize n : Nat) : Prop :=
  n * warpSize % 2 ^ 64 % warpSize = 0 ∧ n * warpSize % 2 ^ 64 + warpSize ≤ 2 ^ 64

instance (warpSize n : Nat) : Decidable (LaneAligned warpSize n) :=
  inferInstanceAs (Decidable (_ ∧ _))

def Operand.Aligned (warpSize : Nat) (o : Operand) : Prop :=
  (o.kind = .reg ∨ o.kind = .addr → LaneAligned warpSize o.regNo)
    ∧ (o.kind = .pred → LaneAligned warpSize o.predId.toNat)

instance (warpSize : Nat) (o : Operand) : Decidable (o.Aligned warpSize) :=
  inferInstanceAs (Decidable (_ ∧ _))

/-- The row ends before the last `size_t` as well, at which a write empties its register file. -/
def LaneInside (warpSize n : Nat) : Prop :=
  LaneAligned warpSize n ∧ n * warpSize % 2 ^ 64 + warpSize < 2 ^ 64

instance (warpSize n : Nat) : Decidable (LaneInside warpSize n) :=
  inferInstanceAs (Decidable (_ ∧ _))

def Operand.Inside (warpSize : Nat) (o : Operand) : Prop :=
  (o.kind = .reg ∨ o.kind = .addr → LaneInside warpSize o.regNo)
    ∧ (o.kind = .pred → LaneInside warpSize o.predId.toNat)

instance (warpSize : Nat) (o : Operand) : Decidable (o.Inside warpSize) :=
  inferInstanceAs (Decidable (_ ∧ _))

theorem Operand.Inside.aligned {warpSize : Nat} {o : Operand} (h : o.Inside warpSize) :
    o.Aligned warpSize :=
  ⟨fun hkind => (h.1 hkind).1, fun hkind => (h.2 hkind).1⟩

/-- The rows of the registers and predicates that the instruction at `pc` names. -/
def RegsAligned (ctx : WarpContext) (pc : Int) : Prop :=
  ∀ inst, ctx.kernel.insts[pc.toNat]? = some inst →
    (∀ o ∈ inst.operands, o.Inside ctx.warpSize)
      ∧ ∀ g, inst.pred = some g → LaneInside ctx.warpSize g.predId.toNat

/-! ### The kernels -/

/-- A micro-op that works lane by lane on registers. -/
def MicroOp.LaneWise (u : MicroOp) : Prop :=
  (u.kind = .exec ∧ u.op ≠ .shfl ∧ u.op ≠ .warpReduceAdd) ∨ (u.kind = .mem ∧ u.op = .ld)

instance (u : MicroOp) : Decidable u.LaneWise := inferInstanceAs (Decidable (_ ∨ _))

/-- One `BRA`, one `RET`, or micro-ops that work lane by lane. -/
def LaneWiseUops (uops : List MicroOp) : Prop :=
  (∃ u ∈ uops, uops = [u] ∧ u.kind = .control ∧ (u.op = .bra ∨ u.op = .ret))
    ∨ ∀ u ∈ uops, u.LaneWise

instance (uops : List MicroOp) : Decidable (LaneWiseUops uops) :=
  inferInstanceAs (Decidable (_ ∨ _))

/-- Each instruction expands to such micro-ops. -/
def LaneWiseKernel (ctx : WarpContext) : Prop :=
  ∀ inst ∈ ctx.kernel.insts, ∀ desc ∈ ctx.registry.lookup inst,
    LaneWiseUops (expand inst desc ctx.warpSize)

instance (ctx : WarpContext) : Decidable (LaneWiseKernel ctx) :=
  inferInstanceAs (Decidable (∀ inst ∈ ctx.kernel.insts, ∀ desc ∈ ctx.registry.lookup inst, _))

/-! ### Refinement -/

/-- The run of one lane. -/
def laneRun (ctx : WarpContext) (regs : WarpState) (mem : MemState) (budget lane : Nat) :
    LoopEnd × Nat × WarpState × MemState :=
  runWarp ctx budget (startWarp ctx regs (laneOnly ctx.warpSize lane)) mem

/-- When every active lane's own run ends, so does the warp's, whatever more its budget allows. -/
def RefinesLanes (ctx : WarpContext) (regs : WarpState) (active : LaneMask) (mem : MemState) :
    Prop :=
  ∀ budget : Nat → Nat,
    (∀ lane, active.has lane = true → (laneRun ctx regs mem (budget lane) lane).1 = .finished) →
    ∃ steps w,
      (∀ b, steps < b → runWarp ctx b (startWarp ctx regs active) mem = (.finished, steps, w, mem))
        ∧ w.done = true
        ∧ steps ≤ ∑ lane ∈ (Finset.range 32).filter (fun lane => active.has lane),
            (laneRun ctx regs mem (budget lane) lane).2.1
        ∧ ∀ lane, active.has lane = true →
            SameRegs ctx.warpSize lane w (laneRun ctx regs mem (budget lane) lane).2.2.1

end ProtoGpu

import ProtoGpu.Contracts

/-!
# Instruction descriptors and their expansion

A loaded descriptor table says which micro-ops an instruction stands for
(`descriptor_registry.cpp`, `expander.cpp`). The executor looks an instruction up by opcode, type
modifier and operand kinds, and expands the first descriptor that matches.
-/

namespace ProtoGpu

structure UopTemplate where
  kind : MicroOpKind := .exec
  op : MicroOpOp := .mov
  inOperandIdx : List Int := []
  outOperandIdx : List Int := []
deriving DecidableEq, Repr

structure InstDesc where
  opcode : String
  typeMod : String := ""
  operandKinds : List String := []
  uops : List UopTemplate := []
deriving DecidableEq, Repr

structure DescriptorRegistry where
  descs : List InstDesc
deriving DecidableEq, Repr

structure KernelImage where
  name : String := ""
  regU32Count : Nat := 0
  regU64Count : Nat := 0
  insts : List InstRecord := []
deriving DecidableEq, Repr

def instOperandKinds (inst : InstRecord) : List String :=
  inst.operands.map fun op => operandKindToString op.kind

def DescriptorRegistry.lookup (registry : DescriptorRegistry) (inst : InstRecord) :
    Option InstDesc :=
  registry.descs.find? fun d =>
    d.opcode == inst.opcode
      && (d.typeMod == "" || d.typeMod == inst.mods.typeMod)
      && d.operandKinds == instOperandKinds inst

def parseSpace (s : String) : AddrSpace :=
  if s == "global" then .global
  else if s == "shared" then .shared
  else if s == "local" then .localMem
  else if s == "const" then .const
  else if s == "param" then .param
  else .global

/-- The operands a template names, an index outside the instruction being skipped. -/
def pickOperands (operands : List Operand) (idxs : List Int) : List Operand :=
  idxs.filterMap fun idx => if idx < 0 then none else operands[idx.toNat]?

def expandOne (inst : InstRecord) (warpSize : Nat) (t : UopTemplate) : MicroOp where
  kind := t.kind
  op := t.op
  inputs := pickOperands inst.operands t.inOperandIdx
  outputs := pickOperands inst.operands t.outOperandIdx
  attrs :=
    { type := parseValueType inst.mods.typeMod
      space := parseSpace inst.mods.space
      flags := inst.mods.flags }
  guard := laneMaskAll warpSize

def expand (inst : InstRecord) (desc : InstDesc) (warpSize : Nat) : List MicroOp :=
  desc.uops.map (expandOne inst warpSize)

/-! ### The shipped table -/

/-- A descriptor of one micro-op that reads operands `1, 2, ...` and writes operand `0`. -/
def regDesc (opcode typeMod : String) (operandKinds : List String) (kind : MicroOpKind)
    (op : MicroOpOp) : InstDesc :=
  { opcode := opcode, typeMod := typeMod, operandKinds := operandKinds
    uops :=
      [{ kind := kind, op := op
         inOperandIdx := (List.range (operandKinds.length - 1)).map fun i => (i : Int) + 1
         outOperandIdx := [0] }] }

/-- A descriptor of one micro-op that reads every operand. -/
def noRegDesc (opcode typeMod : String) (operandKinds : List String) (kind : MicroOpKind)
    (op : MicroOpOp) : InstDesc :=
  { opcode := opcode, typeMod := typeMod, operandKinds := operandKinds
    uops :=
      [{ kind := kind, op := op
         inOperandIdx := (List.range operandKinds.length).map fun i => (i : Int) }] }

/-- `assets/inst_desc/demo_desc.json`, in the file's order. -/
def demoDescs : DescriptorRegistry where
  descs :=
    [ regDesc "mov" "u32" ["reg", "imm"] .exec .mov,
      regDesc "mov" "u32" ["reg", "special"] .exec .mov,
      regDesc "mov" "u32" ["reg", "reg"] .exec .mov,
      regDesc "mov" "b32" ["reg", "imm"] .exec .mov,
      regDesc "mov" "b32" ["reg", "reg"] .exec .mov,
      regDesc "mov" "u64" ["reg", "reg"] .exec .mov,
      regDesc "mov" "u64" ["reg", "symbol"] .exec .mov,
      regDesc "mov" "u64" ["reg", "imm"] .exec .mov,
      regDesc "mov" "f32" ["reg", "reg"] .exec .mov,
      regDesc "mov" "f32" ["reg", "imm"] .exec .mov,
      regDesc "cvt" "u32" ["reg", "reg"] .exec .cvt,
      regDesc "add" "u32" ["reg", "reg", "reg"] .exec .add,
      regDesc "add" "u32" ["reg", "reg", "imm"] .exec .add,
      regDesc "add" "s32" ["reg", "reg", "reg"] .exec .add,
      regDesc "add" "s32" ["reg", "reg", "imm"] .exec .add,
      regDesc "add" "u64" ["reg", "reg", "reg"] .exec .add,
      regDesc "add" "u64" ["reg", "reg", "imm"] .exec .add,
      regDesc "add" "s64" ["reg", "reg", "reg"] .exec .add,
      regDesc "add" "s64" ["reg", "reg", "imm"] .exec .add,
      regDesc "add" "f32" ["reg", "reg", "reg"] .exec .add,
      regDesc "add" "f32" ["reg", "reg", "imm"] .exec .add,
      noRegDesc "ret" "" [] .control .ret,
      regDesc "ld" "u64" ["reg", "symbol"] .mem .ld,
      regDesc "ld" "u32" ["reg", "symbol"] .mem .ld,
      regDesc "ld" "f32" ["reg", "addr"] .mem .ld,
      regDesc "ld" "u32" ["reg", "addr"] .mem .ld,
      regDesc "ld" "u64" ["reg", "addr"] .mem .ld,
      noRegDesc "st" "u32" ["addr", "reg"] .mem .st,
      noRegDesc "st" "f32" ["addr", "reg"] .mem .st,
      noRegDesc "st" "u64" ["addr", "reg"] .mem .st,
      regDesc "mul" "u32" ["reg", "reg", "reg"] .exec .mul,
      regDesc "mul" "s32" ["reg", "reg", "reg"] .exec .mul,
      regDesc "mul" "u32" ["reg", "reg", "imm"] .exec .mul,
      regDesc "fma" "f32" ["reg", "reg", "reg", "reg"] .exec .fma,
      regDesc "fma" "f32" ["reg", "reg", "reg", "imm"] .exec .fma,
      regDesc "warp_reduce_add" "f32" ["reg", "reg"] .exec .warpReduceAdd,
      regDesc "warp_reduce_add" "" ["reg", "reg"] .exec .warpReduceAdd,
      regDesc "setp" "s32" ["pred", "reg", "reg"] .exec .setp,
      regDesc "setp" "s32" ["pred", "reg", "imm"] .exec .setp,
      regDesc "setp" "u32" ["pred", "reg", "reg"] .exec .setp,
      regDesc "setp" "u32" ["pred", "reg", "imm"] .exec .setp,
      regDesc "shfl" "b32" ["reg", "reg", "reg", "reg", "reg"] .exec .shfl,
      regDesc "shfl" "b32" ["reg", "reg", "imm", "reg", "reg"] .exec .shfl,
      regDesc "shfl" "b32" ["reg", "reg", "reg", "imm", "reg"] .exec .shfl,
      regDesc "shfl" "b32" ["reg", "reg", "imm", "imm", "reg"] .exec .shfl,
      regDesc "shl" "" ["reg", "reg", "imm"] .exec .shl,
      noRegDesc "bra" "" ["imm"] .control .bra ]

/-! ### Instructions it describes -/

def Operand.reg (regId : Int) : Operand := { kind := .reg, regId := regId }
def Operand.pred (predId : Int) : Operand := { kind := .pred, predId := predId }
def Operand.imm (v : Int) : Operand := { kind := .imm, immI64 := v }

/-- `mov.u32 %rN, v`. -/
def movImm (regId v : Int) : InstRecord where
  opcode := "mov"
  mods := { typeMod := "u32" }
  operands := [.reg regId, .imm v]

/-- `mov.u32 %rN, %laneid`. -/
def movLaneid (regId : Int) : InstRecord where
  opcode := "mov"
  mods := { typeMod := "u32" }
  operands := [.reg regId, { kind := .special, special := "laneid" }]

/-- `setp.lt.u32 %pN, %rM, v`. -/
def setpLt (predId regId v : Int) : InstRecord where
  opcode := "setp"
  mods := { typeMod := "u32", flags := ["lt"] }
  operands := [.pred predId, .reg regId, .imm v]

/-- `@%pN bra target`. -/
def braIf (predId target : Int) : InstRecord where
  opcode := "bra"
  pred := some { predId := predId }
  operands := [.imm target]

def retInst : InstRecord where
  opcode := "ret"

/-! ### What expansion keeps -/

theorem mem_of_mem_pickOperands {operands : List Operand} {idxs : List Int} {o : Operand}
    (h : o ∈ pickOperands operands idxs) : o ∈ operands := by
  obtain ⟨idx, _, hidx⟩ := List.mem_filterMap.mp h
  split at hidx
  · cases hidx
  · exact List.mem_of_getElem? hidx

/-- Every expanded micro-op starts with the full guard. -/
theorem guard_of_mem_expand {inst : InstRecord} {desc : InstDesc} {warpSize : Nat} {u : MicroOp}
    (h : u ∈ expand inst desc warpSize) : u.guard = laneMaskAll warpSize := by
  obtain ⟨t, _, rfl⟩ := List.mem_map.mp h
  rfl

theorem operands_of_mem_expand {inst : InstRecord} {desc : InstDesc} {warpSize : Nat}
    {u : MicroOp} (h : u ∈ expand inst desc warpSize) :
    (∀ o ∈ u.inputs, o ∈ inst.operands) ∧ ∀ o ∈ u.outputs, o ∈ inst.operands := by
  obtain ⟨t, _, rfl⟩ := List.mem_map.mp h
  exact ⟨fun _ ho => mem_of_mem_pickOperands ho, fun _ ho => mem_of_mem_pickOperands ho⟩

end ProtoGpu

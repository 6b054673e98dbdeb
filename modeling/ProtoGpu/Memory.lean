import ProtoGpu.Contracts

/-!
# The address spaces

`AddrSpaceManager` holds global memory as a sparse byte map over a bump allocator that never frees,
and the parameters of the current kernel as a name-to-descriptor map over a byte blob (`memory.h`,
`memory.cpp`). Addresses are 64-bit and wrap. An `unordered_map` that is only looked up is a
function.
-/

namespace ProtoGpu

abbrev Addr := BitVec 64
abbrev Byte := BitVec 8

/-- `std::unordered_map<std::uint64_t, std::uint8_t>`. -/
abbrev SparseMem := Addr → Option Byte

inductive ParamType where
  | u32 | u64
deriving DecidableEq, Repr

structure ParamDesc where
  name : String
  type : ParamType := .u32
  size : BitVec 32 := 0
  align : BitVec 32 := 0
  offset : BitVec 32 := 0
deriving DecidableEq, Repr

structure Allocation where
  base : Addr
  size : Addr
deriving DecidableEq, Repr

structure AddrSpaceManager where
  nextGlobalAddr : Addr := 0x1000
  allocs : List Allocation := []
  global : SparseMem := fun _ => none
  paramLayout : String → Option ParamDesc := fun _ => none
  paramBlob : List Byte := []

def alignUp (v a : Addr) : Addr :=
  if a = 0 then v
  else
    let r := v % a
    if r = 0 then v else v + (a - r)

/-- One allocation holds the whole range, in the code's wrapping arithmetic. -/
def Allocation.holds (a : Allocation) (addr endAddr : Addr) : Bool :=
  let aEnd := a.base + a.size
  if aEnd < a.base then false
  else addr ≥ a.base && endAddr ≤ aEnd

def AddrSpaceManager.globalRangeAllocated (mem : AddrSpaceManager) (addr size : Addr) : Bool :=
  if size = 0 then true
  else
    let endAddr := addr + size
    if endAddr < addr then false
    else mem.allocs.any fun a => a.holds addr endAddr

def AddrSpaceManager.allocGlobal (mem : AddrSpaceManager) (bytes align : Addr) :
    Addr × AddrSpaceManager :=
  let align := if align = 0 then 1 else align
  let base := alignUp mem.nextGlobalAddr align
  (base,
    { mem with
      nextGlobalAddr := base + (if bytes < 1 then 1 else bytes)
      allocs := mem.allocs ++ [{ base := base, size := bytes }] })

/-- `mem[addr + i] = bytes[i]` for each index in turn. -/
def writeSparse (mem : SparseMem) (addr : Addr) : List Byte → SparseMem
  | [] => mem
  | b :: bytes => writeSparse (Function.update mem addr (some b)) (addr + 1) bytes

/-- The bytes at `addr, addr + 1, ...`, an absent one reading as `0`. -/
def readSparse (mem : SparseMem) (addr : Addr) (size : Nat) : List Byte :=
  (List.range size).map fun i => (mem (addr + BitVec.ofNat 64 i)).getD 0

def AddrSpaceManager.writeGlobal (mem : AddrSpaceManager) (addr : Addr) (bytes : List Byte) :
    Option AddrSpaceManager :=
  if mem.globalRangeAllocated addr (BitVec.ofNat 64 bytes.length) then
    some { mem with global := writeSparse mem.global addr bytes }
  else none

def AddrSpaceManager.readGlobal (mem : AddrSpaceManager) (addr size : Addr) :
    Option (List Byte) :=
  if mem.globalRangeAllocated addr size then
    some (readSparse mem.global addr size.toNat)
  else none

/-- `emplace` keeps the first descriptor of a name. -/
def AddrSpaceManager.setParamLayout (mem : AddrSpaceManager) (layout : List ParamDesc) :
    AddrSpaceManager :=
  { mem with paramLayout := fun name => layout.find? fun p => p.name == name }

def AddrSpaceManager.setParamBlob (mem : AddrSpaceManager) (blob : List Byte) :
    AddrSpaceManager :=
  { mem with paramBlob := blob }

def AddrSpaceManager.readParamSymbol (mem : AddrSpaceManager) (name : String) (size : Addr) :
    Option (List Byte) :=
  match mem.paramLayout name with
  | none => none
  | some p =>
      let off := p.offset.setWidth 64
      if (off + size).toNat > mem.paramBlob.length then none
      else some ((List.range size.toNat).map fun i => mem.paramBlob.getD (off.toNat + i) 0)

end ProtoGpu

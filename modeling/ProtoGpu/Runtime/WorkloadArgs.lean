import ProtoGpu.Runtime.WorkloadSchema
import ProtoGpu.Shim.KernelArgs

/-!
# The arguments of a workload kernel

`pack_kernel_args` (`workload.cpp`) reads the module's text again, lays out a blob for the
parameters that the parser found, and writes each named argument at the offset of its parameter. The
arguments are an `std::unordered_map`, met in an order of its own.
-/

namespace ProtoGpu.Workload

/-- The order in which the loop over the arguments meets them. -/
structure ArgOrder where
  visit : List (Text × ArgValue) → List (Text × ArgValue)
  perm : ∀ args, (visit args).Perm args

def ArgOrder.inserted : ArgOrder where
  visit := id
  perm := fun _ => .refl _

/-- The device buffers by name: where they are and how long. -/
abbrev DeviceBufs := List (Text × Addr × BitVec 64)

/-- A `SchemaError` that names the kernel entry. -/
def entryFail {α : Type} (code : String) (entry : Text) (message : String) : Except Throw α :=
  .error (.schema
    { module := "runtime", code := code, message := message, function := some (quoted entry) })

def writeLe (blob : List Byte) (off : BitVec 32) (v : BitVec 64) (size : Nat) :
    Except Throw (List Byte) :=
  if blob.length < off.toNat + size then schemaFail "param blob write out of range"
  else .ok (Slots.overlay blob off.toNat (packLe v size))

/-- `blob_bytes`, a maximum of sums in 32 bits. -/
def blobBytes (layout : List ParamDesc) : BitVec 32 :=
  layout.foldl (fun n p => if n < p.offset + p.size then p.offset + p.size else n) 0

/-- One turn of the loop over the arguments, for the parameter of its name. -/
def writeArg (devBufs : DeviceBufs) (entry : Text) (blob : List Byte) (p : ParamDesc)
    (name : Text) : ArgValue → Except Throw (List Byte)
  | .u32 v =>
      if p.type ≠ .u32 ∨ p.size ≠ 4 then
        entryFail "E_BAD_ARGS" entry ("arg type mismatch for " ++ quoted name)
      else writeLe blob p.offset v 4
  | .u64 v =>
      if p.type ≠ .u64 ∨ p.size ≠ 8 then
        entryFail "E_BAD_ARGS" entry ("arg type mismatch for " ++ quoted name)
      else writeLe blob p.offset v 8
  | .ptrDevice buf =>
      if p.type ≠ .u64 ∨ p.size ≠ 8 then
        entryFail "E_BAD_ARGS" entry ("ptr_device expects u64 param for " ++ quoted name)
      else
        match devBufs.lookup buf with
        | none => entryFail "E_WORKLOAD_REF" entry ("device buffer not found: " ++ quoted buf)
        | some (ptr, _) => writeLe blob p.offset ptr 8
  | .bytesHex hex =>
      match parseHexBytes hex with
      | .error t => .error t
      | .ok bytes =>
          if bytes.length ≠ p.size.toNat then
            entryFail "E_BAD_ARGS" entry ("bytes_hex size mismatch for " ++ quoted name)
          else if blob.length < p.offset.toNat + bytes.length then
            schemaFail "param blob write out of range"
          else .ok (Slots.overlay blob p.offset.toNat bytes)

/-- `layout_by_name.find(name)`; `emplace` keeps the first descriptor of a name. -/
def findParam (layout : List ParamDesc) (name : Text) : Option ParamDesc :=
  layout.find? fun p => p.name == quoted name

def packArgs (devBufs : DeviceBufs) (entry : Text) (layout : List ParamDesc) (blob : List Byte) :
    List (Text × ArgValue) → Except Throw (List Byte)
  | [] => .ok blob
  | (name, av) :: args =>
      match findParam layout name with
      | none => entryFail "E_BAD_ARGS" entry ("unknown kernel arg: " ++ quoted name)
      | some p =>
          match writeArg devBufs entry blob p name av with
          | .error t => .error t
          | .ok blob => packArgs devBufs entry layout blob args

/-- `pack_kernel_args` from the layout on. -/
def packLayout (order : ArgOrder) (devBufs : DeviceBufs) (entry : Text) (layout : List ParamDesc)
    (args : List (Text × ArgValue)) : Except Throw KernelArgs :=
  match packArgs devBufs entry layout (List.replicate (blobBytes layout).toNat 0)
    (order.visit args) with
  | .error t => .error t
  | .ok blob =>
      match layout.find? fun p => !args.any fun arg => quoted arg.1 == p.name with
      | some p => entryFail "E_BAD_ARGS" entry ("missing kernel arg: " ++ p.name)
      | none => .ok { layout := layout, blob := blob }

/-- What a workload finds outside itself: files by their path, what a cast out of range gives, what
the host can allocate, the orders of two hash maps, and the configured warp size. -/
structure Env where
  files : Text → Option Text
  outOfRange : Double → BitVec 64
  hostFits : Nat → Bool
  aliasOrder : AliasOrder := .inserted
  argOrder : ArgOrder := .inserted
  warpSize : BitVec 32 := 32

/-- `Parser::parse_ptx_file_tokens`. -/
def parsePtxFileTokens (env : Env) (path : Text) : Except String ModuleTokens :=
  match env.files path with
  | none => .error ("Parser: cannot open " ++ quoted path)
  | some text => parsePtxTextTokens env.aliasOrder text (quoted path)

def packKernelArgs (env : Env) (mod : ModuleDecl) (entry : Text) (args : List (Text × ArgValue))
    (devBufs : DeviceBufs) : Except Throw KernelArgs :=
  match parsePtxFileTokens env mod.ptx with
  | .error what => .error (.fatal what)
  | .ok modTokens =>
      match bindKernelByName modTokens entry with
      | .error _ => entryFail "E_ENTRY_NOT_FOUND" entry ("kernel entry not found: " ++ quoted entry)
      | .ok kernelTokens => packLayout env.argOrder devBufs entry kernelTokens.params args

end ProtoGpu.Workload

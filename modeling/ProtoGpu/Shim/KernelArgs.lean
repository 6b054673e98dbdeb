import ProtoGpu.Frontend.Parser
import ProtoGpu.Lib.Slots
import ProtoGpu.Shim.DeviceMemory
import ProtoGpu.Units.MemUnit

/-!
# The arguments of a launch

`pack_kernel_args_mvp` (`kernel_args_pack.cpp`) reads one pointer of `kernelParams` for each entry
of the layout that the parser found, and copies what is behind it into the parameter blob. The
runtime hands layout and blob to global memory, where `ld.param` looks a name up. An error is its
code with its message.
-/

namespace ProtoGpu

structure KernelArgs where
  layout : List ParamDesc := []
  blob : List Byte := []

abbrev PackError := CudaError × String

/-- Where the last parameter ends, in 64 bits. -/
def blobSize (layout : List ParamDesc) : Nat :=
  layout.foldl (fun size p => max size (p.offset.toNat + p.size.toNat)) 0

/-- One turn of the loop, for the entry at index `i`. -/
def packArg (host : Addr → Byte) (deviceMemory : DeviceMemory) (kernelParams : Nat → Addr)
    (blob : List Byte) (p : ParamDesc) (i : Nat) : Except PackError (List Byte) :=
  let srcPtr := kernelParams i
  if srcPtr = 0 then
    .error (.cudaErrorInvalidValue, "kernelParams[" ++ toString i ++ "] is null")
  else if blob.length < p.offset.toNat + p.size.toNat then
    .error (.cudaErrorInvalidValue, "param layout out of bounds")
  else
    match p.type with
    | .u32 =>
        if p.size ≠ 4 then
          .error (.cudaErrorNotSupported, "unsupported u32 param size=" ++ toString p.size.toNat)
        else .ok (Slots.overlay blob p.offset.toNat (readHost host srcPtr 4))
    | .u64 =>
        if p.size ≠ 8 then
          .error (.cudaErrorNotSupported, "unsupported u64 param size=" ++ toString p.size.toNat)
        else
          let bytes := readHost host srcPtr 8
          let v := unpackLe bytes
          if v ≠ 0 ∧ deviceMemory.isValidDeviceRange v 1 = false then
            .error (.cudaErrorInvalidDevicePointer,
              "invalid device pointer arg[" ++ toString i ++ "]=" ++ toString v.toNat)
          else .ok (Slots.overlay blob p.offset.toNat bytes)

def packFrom (host : Addr → Byte) (deviceMemory : DeviceMemory) (kernelParams : Nat → Addr)
    (i : Nat) (blob : List Byte) : List ParamDesc → Except PackError (List Byte)
  | [] => .ok blob
  | p :: layout =>
      match packArg host deviceMemory kernelParams blob p i with
      | .error e => .error e
      | .ok blob => packFrom host deviceMemory kernelParams (i + 1) blob layout

/-- `kernelParams` is null or points to an array of pointers. -/
def packKernelArgsMvp (host : Addr → Byte) (deviceMemory : DeviceMemory) (layout : List ParamDesc)
    (kernelParams : Option (Nat → Addr)) : Except PackError KernelArgs :=
  match kernelParams with
  | none =>
      if layout.isEmpty then .ok { layout := layout, blob := [] }
      else .error (.cudaErrorInvalidValue, "kernelParams is null")
  | some kernelParams =>
      let blob := List.replicate (blobSize layout) 0
      match packFrom host deviceMemory kernelParams 0 blob layout with
      | .error e => .error e
      | .ok blob => .ok { layout := layout, blob := blob }

/-- The part of `cudaLaunchKernel` from the chosen text to the packed arguments. -/
def bindLaunchArgs (order : AliasOrder) (host : Addr → Byte) (deviceMemory : DeviceMemory)
    (chosenPtx entry : Text) (kernelParams : Option (Nat → Addr)) : Except PackError KernelArgs :=
  match parsePtxTextTokens order chosenPtx "<fatbin>" with
  | .error what => .error (.cudaErrorUnknown, what)
  | .ok modTokens =>
      match bindKernelByName modTokens entry with
      | .error what => .error (.cudaErrorUnknown, what)
      | .ok kernelTokens =>
          match packKernelArgsMvp host deviceMemory kernelTokens.params kernelParams with
          | .error (rc, packErr) =>
              .error (rc, "cudaLaunchKernel: arg pack failed: " ++ packErr)
          | .ok kargs => .ok kargs

/-- The parameters as the runtime sets them before a kernel runs. -/
def AddrSpaceManager.setParams (mem : AddrSpaceManager) (kargs : KernelArgs) : AddrSpaceManager :=
  (mem.setParamLayout kargs.layout).setParamBlob kargs.blob

end ProtoGpu

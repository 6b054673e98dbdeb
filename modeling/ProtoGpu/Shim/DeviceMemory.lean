import ProtoGpu.Runtime.Memcpy

/-!
# Device memory of the shim

`DeviceMemory` (`device_memory.cpp`) keeps its own map of the allocations, over the allocator of the
runtime, and stages every copy through a host buffer. A device pointer is an address of global
memory; the memory of the host is a byte for each address.
-/

namespace ProtoGpu

inductive CudaError where
  | cudaSuccess
  | cudaErrorInvalidValue
  | cudaErrorMemoryAllocation
  | cudaErrorInitializationError
  | cudaErrorInvalidDeviceFunction
  | cudaErrorInvalidDevicePointer
  | cudaErrorInvalidMemcpyDirection
  | cudaErrorInvalidPtx
  | cudaErrorNotSupported
  | cudaErrorUnknown
deriving DecidableEq, Repr

/-- `cudaMemcpyKind`, an `int` that may also be none of its values. -/
inductive CudaMemcpyKind where
  | hostToHost
  | hostToDevice
  | deviceToHost
  | deviceToDevice
  | default
  | other (value : Int)
deriving DecidableEq, Repr

structure ErrorState where
  lastError : CudaError := .cudaSuccess
  lastMessage : String := ""
deriving DecidableEq

def ErrorState.set (_ : ErrorState) (err : CudaError) (msg : String) : ErrorState where
  lastError := err
  lastMessage := msg

def ErrorState.getAndClear (s : ErrorState) : CudaError × ErrorState := (s.lastError, {})

/-- An allocation of the shim. -/
structure DeviceAllocation where
  base : Addr
  bytes : Addr
  align : Addr
deriving DecidableEq

/-- `std::map<DevicePtr, Allocation>`, in the order of its keys. -/
structure DeviceMemory where
  allocs : List (Addr × DeviceAllocation) := []
deriving DecidableEq

namespace DeviceMemory

/-- `map[p] = a`. -/
def assign (p : Addr) (a : DeviceAllocation) :
    List (Addr × DeviceAllocation) → List (Addr × DeviceAllocation)
  | [] => [(p, a)]
  | kv :: rest =>
      if p < kv.1 then (p, a) :: kv :: rest
      else if p = kv.1 then (p, a) :: rest
      else kv :: assign p a rest

/-- The entry before `upper_bound(ptr)`, when it holds the pointer. -/
def findAllocationContaining (dm : DeviceMemory) (ptr : Addr) : Option DeviceAllocation :=
  match (dm.allocs.takeWhile fun kv => kv.1 ≤ ptr).getLast? with
  | none => none
  | some (_, a) =>
      if ptr < a.base then none
      else if a.bytes ≤ ptr - a.base then none
      else some a

def isValidDeviceRange (dm : DeviceMemory) (ptr bytes : Addr) : Bool :=
  match dm.findAllocationContaining ptr with
  | none => false
  | some a => ptr - a.base + bytes ≤ a.bytes

end DeviceMemory

/-- The bytes of the host, `n` of them from `addr` on. -/
def readHost (host : Addr → Byte) (addr : Addr) (n : Nat) : List Byte :=
  (List.range n).map fun i => host (addr + BitVec.ofNat 64 i)

def writeHost (host : Addr → Byte) (addr : Addr) (bytes : List Byte) : Addr → Byte := fun a =>
  if (a - addr).toNat < bytes.length then bytes.getD (a - addr).toNat 0 else host a

/-- What the calls of the shim act on. -/
structure ShimMemory where
  deviceMemory : DeviceMemory := {}
  runtime : Runtime := {}
  host : Addr → Byte := fun _ => 0
  errorState : ErrorState := {}

namespace ShimMemory

/-- `DeviceMemory::malloc`, with the pointer it writes through `out_dev_ptr`. -/
def malloc (st : ShimMemory) (outDevPtr bytes : Addr) : CudaError × Option Addr × ShimMemory :=
  if outDevPtr = 0 then (.cudaErrorInvalidValue, none, st)
  else if bytes = 0 then (.cudaSuccess, some 0, st)
  else
    let align := 16
    let (p, rt) := st.runtime.deviceMalloc bytes align
    (.cudaSuccess, some p,
      { st with
        runtime := rt
        deviceMemory :=
          { allocs := DeviceMemory.assign p { base := p, bytes := bytes, align := align }
              st.deviceMemory.allocs } })

def free (st : ShimMemory) (devPtr : Addr) : CudaError × ShimMemory :=
  if devPtr = 0 then (.cudaSuccess, st)
  else if st.deviceMemory.allocs.any fun kv => kv.1 == devPtr then
    (.cudaSuccess, { st with
      deviceMemory := { allocs := st.deviceMemory.allocs.filter fun kv => kv.1 != devPtr } })
  else (.cudaErrorInvalidDevicePointer, st)

/-- The handler of `DeviceMemory::memcpy`. -/
def caught (st : ShimMemory) (rt : Runtime) (what : String) : CudaError × ShimMemory :=
  (.cudaErrorUnknown,
    { st with runtime := rt, errorState := st.errorState.set .cudaErrorUnknown what })

def memcpyHostToDevice (hostFits : Nat → Bool) (st : ShimMemory) (dst src bytes : Addr) :
    CudaError × ShimMemory :=
  if !st.deviceMemory.isValidDeviceRange dst bytes then (.cudaErrorInvalidDevicePointer, st)
  else
    match st.runtime.hostAlloc hostFits bytes with
    | (.error what, rt) => st.caught rt what
    | (.ok buf, rt) =>
        match rt.hostWrite buf 0 (readHost st.host src bytes.toNat) with
        | .error what => st.caught rt what
        | .ok rt =>
            match rt.memcpyH2d dst buf 0 bytes with
            | .error what => st.caught rt what
            | .ok rt => (.cudaSuccess, { st with runtime := rt })

def memcpyDeviceToHost (hostFits : Nat → Bool) (st : ShimMemory) (dst src bytes : Addr) :
    CudaError × ShimMemory :=
  if !st.deviceMemory.isValidDeviceRange src bytes then (.cudaErrorInvalidDevicePointer, st)
  else
    match st.runtime.hostAlloc hostFits bytes with
    | (.error what, rt) => st.caught rt what
    | (.ok buf, rt) =>
        match rt.memcpyD2h buf 0 src bytes with
        | .error what => st.caught rt what
        | .ok rt =>
            match rt.hostRead buf 0 bytes with
            | none => (.cudaErrorUnknown, { st with runtime := rt })
            | some data =>
                (.cudaSuccess, { st with runtime := rt, host := writeHost st.host dst data })

def memcpyDeviceToDevice (hostFits : Nat → Bool) (st : ShimMemory) (dst src bytes : Addr) :
    CudaError × ShimMemory :=
  if !st.deviceMemory.isValidDeviceRange dst bytes then (.cudaErrorInvalidDevicePointer, st)
  else if !st.deviceMemory.isValidDeviceRange src bytes then (.cudaErrorInvalidDevicePointer, st)
  else
    match st.runtime.hostAlloc hostFits bytes with
    | (.error what, rt) => st.caught rt what
    | (.ok buf, rt) =>
        match rt.memcpyD2h buf 0 src bytes with
        | .error what => st.caught rt what
        | .ok rt =>
            match rt.memcpyH2d dst buf 0 bytes with
            | .error what => st.caught rt what
            | .ok rt => (.cudaSuccess, { st with runtime := rt })

/-- `DeviceMemory::memcpy`. -/
def memcpy (hostFits : Nat → Bool) (st : ShimMemory) (dst src bytes : Addr)
    (kind : CudaMemcpyKind) : CudaError × ShimMemory :=
  if bytes = 0 then (.cudaSuccess, st)
  else if dst = 0 || src = 0 then (.cudaErrorInvalidValue, st)
  else
    match kind with
    | .hostToDevice => st.memcpyHostToDevice hostFits dst src bytes
    | .deviceToHost => st.memcpyDeviceToHost hostFits dst src bytes
    | .deviceToDevice => st.memcpyDeviceToDevice hostFits dst src bytes
    | .hostToHost =>
        (.cudaSuccess, { st with host := writeHost st.host dst (readHost st.host src bytes.toNat) })
    | _ => (.cudaErrorInvalidMemcpyDirection, st)

end ShimMemory

end ProtoGpu

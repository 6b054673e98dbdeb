import ProtoGpu.Shim.KernelArgs
import ProtoGpu.Shim.PtxEntryValidate
import ProtoGpu.Shim.StreamScheduler
import ProtoGpu.Simt.Driver

/-!
# The exported calls

The CUDA calls of the shim (`exports.cpp`), made by one thread: `submit` runs its command before it
returns. A call returns a code. `fail` records the code as the last error of the thread, the success
exits record `cudaSuccess`, and the codes of `DeviceMemory` are returned as they are.
-/

namespace ProtoGpu

structure CallConfig where
  grid : Dim3
  block : Dim3
  shared : BitVec 64 := 0
  stream : CudaStream := 0

abbrev ModuleId := BitVec 64

structure KernelInfo where
  moduleId : ModuleId := 0
  deviceName : Text

structure FatbinModule where
  ptxTexts : List Text
  ptxOverrideActive : Bool := false
  ptxOverrideError : String := ""

structure AssetsText where
  ptxIsaJson : Text := []
  instDescJson : Text := []

structure RuntimeContext where
  initialized : Bool := false
  fatalError : String := ""
  assets : AssetsText := {}
  warpSize : Nat := 32

/-- The singletons of the shim, and what it keeps for the thread. -/
structure Shim where
  memory : ShimMemory := {}
  context : RuntimeContext := {}
  kernels : Addr → Option KernelInfo := fun _ => none
  modules : ModuleId → Option FatbinModule := fun _ => none
  launchConfigs : List CallConfig := []

inductive Thrown where
  | std (what : String)
  | other

/-- `Runtime::run_ptx_kernel_with_args_text_entry_launch`: what it throws or returns, and the
runtime behind it. -/
abbrev LaunchRun :=
  Runtime → Text → AssetsText → Text → KernelArgs → LaunchConfig → Except String SimResult × Runtime

/-- What a call finds outside the shim. -/
structure Outside where
  /-- What the assets provider and the loaders make of the environment. -/
  load : Except String (AssetsText × Nat)
  /-- Why the export of traces and counters fails. -/
  dump : Option String := none
  hostFits : Nat → Bool
  aliasOrder : AliasOrder := .inserted
  /-- Where `operator new` puts a stream handle. -/
  newHandle : Option CudaStream
  /-- An exception of the library in `DeviceMemory::malloc`, and the memory it leaves. -/
  allocThrown : Option (String × ShimMemory) := none
  /-- Any other exception in the body of a call, and what it leaves. -/
  thrown : Option (Thrown × Shim) := none
  run : LaunchRun

namespace Shim

def setError (st : Shim) (err : CudaError) (msg : String) : Shim :=
  { st with memory := { st.memory with errorState := st.memory.errorState.set err msg } }

/-- `fail`. -/
def fail (st : Shim) (err : CudaError) (msg : String) : CudaError × Shim :=
  (err, st.setError err msg)

def succeed (st : Shim) : CudaError × Shim := (.cudaSuccess, st.setError .cudaSuccess "")

/-- `if (rc == cudaSuccess) ErrorState::tls().set(cudaSuccess); return rc;`. -/
def returned (rc : CudaError) (st : Shim) : CudaError × Shim :=
  (rc, if rc = .cudaSuccess then st.setError .cudaSuccess "" else st)

/-- The handlers of a call. -/
def guarded (name : String) (out : Outside) (body : CudaError × Shim) : CudaError × Shim :=
  match out.thrown with
  | none => body
  | some (.std what, st) => st.fail .cudaErrorUnknown what
  | some (.other, st) => st.fail .cudaErrorUnknown (name ++ ": unknown exception")

/-- `RuntimeContext::ensure_initialized`: the error, if there is one. -/
def ensureInitialized (out : Outside) (st : Shim) : Option String × Shim :=
  if st.context.fatalError ≠ "" then (some st.context.fatalError, st)
  else if st.context.initialized then (none, st)
  else
    match out.load with
    | .error e => (some e, { st with context := { st.context with fatalError := e } })
    | .ok (assets, warpSize) =>
        (none,
          { st with
            memory := { st.memory with runtime := {} }
            context := { initialized := true, assets := assets, warpSize := warpSize } })

/-- What a call does when the context is there. -/
def initialized (out : Outside) (st : Shim) (body : Shim → CudaError × Shim) : CudaError × Shim :=
  match st.ensureInitialized out with
  | (some e, st) => st.fail .cudaErrorInitializationError e
  | (none, st) => body st

/-! ### Memory -/

def writePointer (mem : ShimMemory) (devPtr : Addr) (p : Addr) : ShimMemory :=
  { mem with host := writeHost mem.host devPtr (packLe p 8) }

/-- `DeviceMemory::malloc`. -/
def deviceMalloc (out : Outside) (mem : ShimMemory) (devPtr size : Addr) : CudaError × ShimMemory :=
  if devPtr = 0 then (.cudaErrorInvalidValue, mem)
  else if size = 0 then (.cudaSuccess, writePointer mem devPtr 0)
  else
    match out.allocThrown with
    | some (what, left) =>
        (.cudaErrorMemoryAllocation,
          { left with errorState := left.errorState.set .cudaErrorMemoryAllocation what })
    | none =>
        match mem.malloc devPtr size with
        | (rc, some p, mem) => (rc, writePointer mem devPtr p)
        | (rc, none, mem) => (rc, mem)

def cudaMalloc (out : Outside) (st : Shim) (devPtr size : Addr) : CudaError × Shim :=
  guarded "cudaMalloc" out <| st.initialized out fun st =>
    let (rc, mem) := deviceMalloc out st.memory devPtr size
    returned rc { st with memory := mem }

def cudaFree (out : Outside) (st : Shim) (devPtr : Addr) : CudaError × Shim :=
  guarded "cudaFree" out <| st.initialized out fun st =>
    let (rc, mem) := st.memory.free devPtr
    returned rc { st with memory := mem }

def copy (out : Outside) (st : Shim) (dst src count : Addr) (kind : CudaMemcpyKind) :
    CudaError × Shim :=
  st.initialized out fun st =>
    let (rc, mem) := st.memory.memcpy out.hostFits dst src count kind
    returned rc { st with memory := mem }

def cudaMemcpy (out : Outside) (st : Shim) (dst src count : Addr) (kind : CudaMemcpyKind) :
    CudaError × Shim :=
  guarded "cudaMemcpy" out (st.copy out dst src count kind)

/-- The command that is submitted copies. -/
def cudaMemcpyAsync (out : Outside) (st : Shim) (dst src count : Addr) (kind : CudaMemcpyKind)
    (_stream : CudaStream) : CudaError × Shim :=
  guarded "cudaMemcpyAsync" out (st.copy out dst src count kind)

/-! ### Streams -/

def cudaStreamCreate (out : Outside) (st : Shim) (pStream : Addr) : CudaError × Shim :=
  guarded "cudaStreamCreate" out <|
    if pStream = 0 then st.fail .cudaErrorInvalidValue "cudaStreamCreate: pStream is null"
    else st.initialized out fun st =>
      match out.newHandle with
      | none => st.fail .cudaErrorMemoryAllocation "cudaStreamCreate: allocation failed"
      | some h => succeed { st with memory := writePointer st.memory pStream h }

def cudaStreamDestroy (out : Outside) (st : Shim) (stream : CudaStream) : CudaError × Shim :=
  guarded "cudaStreamDestroy" out <|
    if stream = 0 then
      st.fail .cudaErrorInvalidValue "cudaStreamDestroy: cannot destroy default/null stream"
    else st.succeed

/-- `cudaStreamSynchronize` and `cudaDeviceSynchronize`: there is nothing to drain. -/
def synchronize (out : Outside) (st : Shim) : CudaError × Shim :=
  st.initialized out fun st =>
    match out.dump with
    | some msg => st.fail .cudaErrorUnknown msg
    | none => st.succeed

def cudaStreamSynchronize (out : Outside) (st : Shim) (_stream : CudaStream) : CudaError × Shim :=
  st.synchronize out

def cudaDeviceSynchronize (out : Outside) (st : Shim) : CudaError × Shim := st.synchronize out

def cudaStreamQuery (out : Outside) (st : Shim) (_stream : CudaStream) : CudaError × Shim :=
  st.initialized out succeed

/-! ### Launches -/

/-- A configuration without a grid or a block is taken from the stack. -/
def takeConfig (c : CallConfig) (stack : List CallConfig) : CallConfig × List CallConfig :=
  if c.grid.x = 0 ∨ c.block.x = 0 then
    match stack with
    | [] => (c, [])
    | popped :: stack => (popped, stack)
  else (c, stack)

def noPtxMessage (mod : Option FatbinModule) : String :=
  "cudaLaunchKernel: no PTX extracted for module" ++
    match mod with
    | none => ""
    | some mod =>
        if mod.ptxOverrideActive then
          " (source=GPUSIM_CUDART_SHIM_PTX_OVERRIDE"
            ++ (if mod.ptxOverrideError.isEmpty then "" else "; " ++ mod.ptxOverrideError) ++ ")"
        else ""

/-- The names of the loop over the texts, which stops at sixteen. -/
def foundEntries : List Text → List Text → List Text
  | found, [] => found
  | found, ptx :: texts =>
      let found := found ++ ptxListEntryNamesMvp ptx 8
      if 16 ≤ found.length then found else foundEntries found texts

def noEntryMessage (mod : FatbinModule) (entry : Text) : String :=
  let found := (foundEntries [] mod.ptxTexts).take 16
  "cudaLaunchKernel: .entry '" ++ String.ofList entry ++ "' not found in extracted PTX"
    ++ " (ptx_count=" ++ toString mod.ptxTexts.length ++ ")"
    ++ (if mod.ptxOverrideActive then " (source=GPUSIM_CUDART_SHIM_PTX_OVERRIDE)" else "")
    ++ (if found.isEmpty then ""
        else "; found entries: " ++ String.intercalate ", " (found.map String.ofList))

/-- The entry and the text of a launch. -/
def selectKernel (st : Shim) (func : Addr) (c : CallConfig) : Except PackError (Text × Text) :=
  if func = 0 then .error (.cudaErrorInvalidDeviceFunction, "cudaLaunchKernel: func is null")
  else if c.grid.x = 0 ∨ c.grid.y = 0 ∨ c.grid.z = 0 then
    .error (.cudaErrorInvalidValue, "cudaLaunchKernel: invalid gridDim")
  else if c.block.x = 0 ∨ c.block.y = 0 ∨ c.block.z = 0 then
    .error (.cudaErrorInvalidValue, "cudaLaunchKernel: invalid blockDim")
  else
    match st.kernels func with
    | none => .error (.cudaErrorInvalidDeviceFunction, "cudaLaunchKernel: kernel not registered")
    | some ki =>
        if ki.moduleId = 0 then
          .error (.cudaErrorInvalidDeviceFunction, "cudaLaunchKernel: kernel module unknown")
        else
          match st.modules ki.moduleId with
          | none => .error (.cudaErrorInvalidDeviceFunction, noPtxMessage none)
          | some mod =>
              if mod.ptxTexts.isEmpty then
                .error (.cudaErrorInvalidDeviceFunction, noPtxMessage (some mod))
              else
                match choosePtx mod.ptxTexts ki.deviceName with
                | none => .error (.cudaErrorInvalidDeviceFunction, noEntryMessage mod ki.deviceName)
                | some ptx => .ok (ki.deviceName, ptx)

def formatDiag (d : Diagnostic) : String :=
  d.module ++ "/" ++ d.code ++ ": " ++ d.message
    ++ (match d.function with | some f => " (func=" ++ f ++ ")" | none => "")
    ++ (match d.instIndex with | some pc => " (pc=" ++ toString pc ++ ")" | none => "")
    ++ (match d.location with
        | some l => " (" ++ l.file ++ ":" ++ toString l.line ++ ")"
        | none => "")

/-- What a launch reports of its run. -/
def reportRun (st : Shim) (sim : SimResult) : CudaError × Shim :=
  match sim.diag with
  | some d => st.fail .cudaErrorUnknown ("cudaLaunchKernel: simulator error: " ++ formatDiag d)
  | none =>
      if !sim.completed then
        st.fail .cudaErrorUnknown "cudaLaunchKernel: simulator did not complete"
      else st.succeed

def launch (out : Outside) (st : Shim) (func : Addr) (c : CallConfig) (args : Option (Nat → Addr)) :
    CudaError × Shim :=
  match st.selectKernel func c with
  | .error (err, msg) => st.fail err msg
  | .ok (entry, ptx) =>
      match bindLaunchArgs out.aliasOrder st.memory.host st.memory.deviceMemory ptx entry args with
      | .error (err, msg) => st.fail err msg
      | .ok kargs =>
          let config : LaunchConfig :=
            { gridDim := c.grid, blockDim := c.block, warpSize := st.context.warpSize }
          match out.run st.memory.runtime ptx st.context.assets entry kargs config with
          | (.error what, rt) =>
              Shim.fail { st with memory := { st.memory with runtime := rt } }
                .cudaErrorUnknown what
          | (.ok sim, rt) => reportRun { st with memory := { st.memory with runtime := rt } } sim

def cudaLaunchKernel (out : Outside) (st : Shim) (func : Addr) (c : CallConfig)
    (args : Option (Nat → Addr)) : CudaError × Shim :=
  guarded "cudaLaunchKernel" out <| st.initialized out fun st =>
    let (c, stack) := takeConfig c st.launchConfigs
    launch out { st with launchConfigs := stack } func c args

/-! ### Sequences of calls -/

def cudaGetLastError (st : Shim) : CudaError × Shim :=
  let (err, errorState) := st.memory.errorState.getAndClear
  (err, { st with memory := { st.memory with errorState := errorState } })

end Shim

inductive ApiCall where
  | malloc (devPtr size : Addr)
  | free (devPtr : Addr)
  | memcpy (dst src count : Addr) (kind : CudaMemcpyKind)
  | memcpyAsync (dst src count : Addr) (kind : CudaMemcpyKind) (stream : CudaStream)
  | streamCreate (pStream : Addr)
  | streamDestroy (stream : CudaStream)
  | streamSynchronize (stream : CudaStream)
  | streamQuery (stream : CudaStream)
  | deviceSynchronize
  | launchKernel (func : Addr) (config : CallConfig) (args : Option (Nat → Addr))
  | getLastError

def Shim.call (out : Outside) (st : Shim) : ApiCall → CudaError × Shim
  | .malloc devPtr size => st.cudaMalloc out devPtr size
  | .free devPtr => st.cudaFree out devPtr
  | .memcpy dst src count kind => st.cudaMemcpy out dst src count kind
  | .memcpyAsync dst src count kind stream => st.cudaMemcpyAsync out dst src count kind stream
  | .streamCreate pStream => st.cudaStreamCreate out pStream
  | .streamDestroy stream => st.cudaStreamDestroy out stream
  | .streamSynchronize stream => st.cudaStreamSynchronize out stream
  | .streamQuery stream => st.cudaStreamQuery out stream
  | .deviceSynchronize => st.cudaDeviceSynchronize out
  | .launchKernel func config args => st.cudaLaunchKernel out func config args
  | .getLastError => st.cudaGetLastError

/-- The calls of a thread with the codes they returned, in order, and what they leave. -/
def Shim.runCalls (st : Shim) : List (Outside × ApiCall) → List (ApiCall × CudaError) × Shim
  | [] => ([], st)
  | (out, call) :: calls =>
      let (err, st) := st.call out call
      let (log, st) := runCalls st calls
      ((call, err) :: log, st)

end ProtoGpu

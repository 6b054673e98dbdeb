import ProtoGpu.AssetTables
import ProtoGpu.Lib.Transitions
import ProtoGpu.Shim.KernelArgs
import ProtoGpu.Simt.Driver

/-!
# Running a kernel

The `run_ptx_kernel` family of `Runtime` (`runtime.cpp`) on texts: the PTX is parsed and a kernel
bound, the tables are loaded, the instructions mapped and the launch checked before the parameters
are set and the executor runs. What the executor does depends on how its workers are scheduled, so a
run is a relation. A launch whose loops over the warps do not end has none.
-/

namespace ProtoGpu

open Transitions

/-- `Binder::bind_first_kernel`. -/
def bindFirstKernel (m : ModuleTokens) : Except String KernelTokens :=
  match m.kernels with
  | k :: _ => .ok k
  | [] => .error "Binder: no kernels found"

/-- What a run takes from the configuration of the runtime, and what it leaves to the platform. -/
structure RunEnv where
  sim : SimConfig
  aliasOrder : AliasOrder
  platform : Platform
  floatOps : FloatOps

/-- The arguments of a run. Without an entry the first kernel is run, without `args` an empty blob
is set. -/
structure KernelJob where
  ptxText : Text
  ptxIsaJsonText : Text
  instDescJsonText : Text
  entry : Option Text := none
  args : Option KernelArgs := none
  launch : LaunchConfig

def runtimeDiag (code message : String) (function : String) : Diagnostic :=
  { module := "runtime", code := code, message := message, function := some function }

def validateLaunch (launch : LaunchConfig) (kernelName : String) : Option Diagnostic :=
  let grid := launch.gridDim
  let block := launch.blockDim
  if grid.x = 0 ∨ grid.y = 0 ∨ grid.z = 0 ∨ block.x = 0 ∨ block.y = 0 ∨ block.z = 0 then
    some (runtimeDiag "E_LAUNCH_DIM" "grid/block dims must be >= 1" kernelName)
  else
    let (of1, xy) := mulU64Overflow block.x.toNat block.y.toNat
    let (of2, threadsPerBlock) := mulU64Overflow xy block.z.toNat
    if of1 || of2 || threadsPerBlock == 0 then
      some (runtimeDiag "E_LAUNCH_OVERFLOW" "threads_per_block overflow" kernelName)
    else none

/-- A kernel, or the diagnostic that takes its place. -/
def KernelJob.bind (job : KernelJob) (m : ModuleTokens) :
    Except String (Except Diagnostic KernelTokens) :=
  match job.entry with
  | none =>
      match bindFirstKernel m with
      | .ok k => .ok (.ok k)
      | .error what => .error what
  | some entry =>
      match bindKernelByName m entry with
      | .ok k => .ok (.ok k)
      | .error _ =>
          let name := String.ofList entry
          .ok (.error (runtimeDiag "E_ENTRY_NOT_FOUND" ("kernel entry not found: " ++ name) name))

/-- A table, or the exception of its loader. -/
def loaded {α : Type} : Option String × α → Except String α
  | (none, table) => .ok table
  | (some what, _) => .error what

/-- What the executor is given. -/
structure StagedKernel where
  image : KernelImage
  params : List ParamDesc
  registry : DescriptorRegistry
deriving DecidableEq

/-- `run_kernel_tokens_impl` before it sets the parameters. -/
def stageTokens (tokens : KernelTokens) (isa : PtxIsaRegistry) (registry : DescriptorRegistry)
    (launch : LaunchConfig) : Except String (Except Diagnostic StagedKernel) := do
  match ← mapKernel isa tokens.insts with
  | .error diag => return .error diag
  | .ok insts =>
      let image : KernelImage :=
        { name := String.ofList tokens.name
          regU32Count := tokens.regU32Count
          regU64Count := tokens.regU64Count
          insts := insts }
      match validateLaunch launch image.name with
      | some diag => return .error diag
      | none => return .ok { image := image, params := tokens.params, registry := registry }

/-- Everything before the parameters are set. -/
def KernelJob.stage (env : RunEnv) (job : KernelJob) :
    Except String (Except Diagnostic StagedKernel) := do
  let tokens ← parsePtxTextTokens env.aliasOrder job.ptxText "<ptx>"
  match ← job.bind tokens with
  | .error diag => return .error diag
  | .ok kernel =>
      let isa ← loaded (PtxIsaRegistry.loadJsonText job.ptxIsaJsonText)
      let registry ←
        loaded (DescriptorRegistry.loadJsonText env.platform false job.instDescJsonText)
      stageTokens kernel isa registry job.launch

/-- The parameters of a run replace those of the run before. -/
def KernelJob.setParams (job : KernelJob) (k : StagedKernel) (mem : AddrSpaceManager) :
    AddrSpaceManager :=
  (mem.setParamLayout k.params).setParamBlob ((job.args.map KernelArgs.blob).getD [])

def RunEnv.driver (env : RunEnv) (job : KernelJob) (k : StagedKernel) (plan : LaunchPlan) :
    DriverEnv where
  cfg := env.sim
  plan := plan
  kernel := k.image
  launch := job.launch
  registry := k.registry
  floatOps := env.floatOps

/-- `SimtExecutor::run`, with the memory it leaves. An exception in a worker thread ends the
program, so only the single-threaded driver throws. -/
inductive ExecutorRun (env : DriverEnv) (mem : AddrSpaceManager) :
    Except String SimResult → AddrSpaceManager → Prop
  | ended {es : List DriverEvent} {s : DriverState}
      (hrun : Run (DriverStep env) (env.start { mgr := mem }) es s) (hended : s.Ended) :
      ExecutorRun env mem (.ok s.result) s.mem.mgr
  | threw {es : List DriverEvent} {s : DriverState} {smId : SmId} {cta : CtaRun} {w : BitVec 32}
      {warp warp' : WarpState} {mem' : MemState} {what : String}
      (hrun : Run (DriverStep env) (env.start { mgr := mem }) es s)
        (hsequential : env.parallel = false)
      (hphase : s.worker smId = .stepping cta w) (hwarp : cta.warps[w.toNat]? = some warp)
      (hstep : warpStep (env.warpContext cta.reconvPc) warp s.mem = (.error .host, warp', mem')) :
      ExecutorRun env mem (.error what) mem'.mgr

/-- `Runtime::run_ptx_kernel_*`: what a run returns or throws, and the runtime it leaves. -/
inductive KernelRun (env : RunEnv) (job : KernelJob) (rt : Runtime) :
    Except String SimResult → Runtime → Prop
  | threw {what : String} (hstage : job.stage env = .error what) :
      KernelRun env job rt (.error what) rt
  | diagnosed {d : Diagnostic} (hstage : job.stage env = .ok (.error d)) :
      KernelRun env job rt (.ok { diag := some d }) rt
  | rejected {k : StagedKernel} {d : Diagnostic} (hstage : job.stage env = .ok (.ok k))
      (hcheck : checkLaunch env.sim k.image job.launch = .error d) :
      KernelRun env job rt (.ok { diag := some d }) { rt with mem := job.setParams k rt.mem }
  | executed {k : StagedKernel} {plan : LaunchPlan} {r : Except String SimResult}
      {mem : AddrSpaceManager} (hstage : job.stage env = .ok (.ok k))
      (hcheck : checkLaunch env.sim k.image job.launch = .ok plan)
      (hrun : ExecutorRun (env.driver job k plan) (job.setParams k rt.mem) r mem) :
      KernelRun env job rt r { rt with mem := mem }

/-! ### The runtime over its calls -/

inductive RuntimeCall where
  | hostAlloc (bytes : BitVec 64)
  | hostWrite (id : HostBufId) (offset : BitVec 64) (bytes : List Byte)
  | deviceMalloc (bytes align : Addr)
  | memcpyH2d (dst : Addr) (src : HostBufId) (srcOffset bytes : BitVec 64)
  | memcpyD2h (dst : HostBufId) (dstOffset : BitVec 64) (src : Addr) (bytes : BitVec 64)
  | runKernel (env : RunEnv) (job : KernelJob)

/-- The runtime behind a call that may throw. -/
def Runtime.after (rt : Runtime) : Except String Runtime → Runtime
  | .ok rt' => rt'
  | .error _ => rt

/-- A call of any kind, whether it returns or throws. -/
inductive RuntimeStep (hostFits : Nat → Bool) : Runtime → RuntimeCall → Runtime → Prop
  | hostAlloc {rt : Runtime} (bytes : BitVec 64) :
      RuntimeStep hostFits rt (.hostAlloc bytes) (rt.hostAlloc hostFits bytes).2
  | hostWrite {rt : Runtime} (id : HostBufId) (offset : BitVec 64) (bytes : List Byte) :
      RuntimeStep hostFits rt (.hostWrite id offset bytes) (rt.after (rt.hostWrite id offset bytes))
  | deviceMalloc {rt : Runtime} (bytes align : Addr) :
      RuntimeStep hostFits rt (.deviceMalloc bytes align) (rt.deviceMalloc bytes align).2
  | memcpyH2d {rt : Runtime} (dst : Addr) (src : HostBufId) (srcOffset bytes : BitVec 64) :
      RuntimeStep hostFits rt (.memcpyH2d dst src srcOffset bytes)
        (rt.after (rt.memcpyH2d dst src srcOffset bytes))
  | memcpyD2h {rt : Runtime} (dst : HostBufId) (dstOffset : BitVec 64) (src : Addr)
      (bytes : BitVec 64) :
      RuntimeStep hostFits rt (.memcpyD2h dst dstOffset src bytes)
        (rt.after (rt.memcpyD2h dst dstOffset src bytes))
  | runKernel {rt rt' : Runtime} {env : RunEnv} {job : KernelJob} {r : Except String SimResult}
      (hrun : KernelRun env job rt r rt') : RuntimeStep hostFits rt (.runKernel env job) rt'

end ProtoGpu

import ProtoGpu.Shim.Extraction

/-!
# Registration

The calls a compiled program makes around its own (`exports.cpp`, `fatbin_registry.cpp`,
`kernel_registry.cpp`, `launch_config_stack.cpp`): it registers its modules and their host
functions, and pushes the configuration of a launch. A module has a number, which the shim keeps for
itself, and a handle, which is the address of a token on the heap.
-/

namespace ProtoGpu

/-- The shim with what `FatbinRegistry` keeps besides the modules. -/
structure RegistryState where
  shim : Shim := {}
  nextId : ModuleId := 1
  handleToId : Addr → Option ModuleId := fun _ => none

namespace RegistryState

/-- `modules_.emplace(id, m)`, which keeps a module that is there. -/
def emplaceModule (modules : ModuleId → Option FatbinModule) (id : ModuleId) (m : FatbinModule) :
    ModuleId → Option FatbinModule :=
  Function.update modules id (some ((modules id).getD m))

/-- `FatbinRegistry::register_fatbin` with the module the extraction has made; `handle` is what
`new (std::nothrow)` returns. -/
def registerFatbin (s : RegistryState) (m : FatbinModule) (handle : Addr) : RegistryState where
  shim := { s.shim with modules := emplaceModule s.shim.modules s.nextId m }
  nextId := s.nextId + 1
  handleToId := Function.update s.handleToId handle (some s.nextId)

/-- `FatbinRegistry::unregister_fatbin`. -/
def unregisterFatbin (s : RegistryState) (handle : Addr) : RegistryState :=
  if handle = 0 then s
  else
    match s.handleToId handle with
    | none => s
    | some id =>
        { s with
          shim := { s.shim with modules := Function.update s.shim.modules id none }
          handleToId := Function.update s.handleToId handle none }

/-- `FatbinRegistry::lookup_by_handle`: the number of the module. -/
def lookupByHandle (s : RegistryState) (handle : Addr) : Option ModuleId :=
  if handle = 0 then none
  else
    match s.handleToId handle with
    | none => none
    | some id => (s.shim.modules id).map fun _ => id

/-- `KernelRegistry::register_function`. -/
def registerFunction (s : RegistryState) (moduleId : ModuleId) (hostFun : Addr)
    (deviceName : Option Text) : RegistryState :=
  if hostFun = 0 then s
  else
    match deviceName with
    | none => s
    | some name =>
        { s with
          shim := { s.shim with
            kernels := Function.update s.shim.kernels hostFun
              (some { moduleId := moduleId, deviceName := name }) } }

/-- `KernelRegistry::unregister_module`. -/
def unregisterModule (s : RegistryState) (moduleId : ModuleId) : RegistryState :=
  { s with
    shim := { s.shim with
      kernels := fun hostFun => (s.shim.kernels hostFun).filter (·.moduleId != moduleId) } }

/-! ### The exported calls -/

def cudaRegisterFatBinary (s : RegistryState) (m : FatbinModule) (handle : Addr) : RegistryState :=
  s.registerFatbin m handle

def cudaUnregisterFatBinary (s : RegistryState) (handle : Addr) : RegistryState :=
  match s.lookupByHandle handle with
  | none => s.unregisterFatbin handle
  | some id => (s.unregisterModule id).unregisterFatbin handle

def cudaRegisterFunction (s : RegistryState) (handle hostFun : Addr) (deviceName : Option Text) :
    RegistryState :=
  s.registerFunction ((s.lookupByHandle handle).getD 0) hostFun deviceName

def cudaPushCallConfiguration (s : RegistryState) (c : CallConfig) : RegistryState :=
  { s with shim := { s.shim with launchConfigs := c :: s.shim.launchConfigs } }

/-- The configuration that is popped, if there is one. -/
def cudaPopCallConfiguration (s : RegistryState) : Option CallConfig × RegistryState :=
  match s.shim.launchConfigs with
  | [] => (none, s)
  | c :: stack => (some c, { s with shim := { s.shim with launchConfigs := stack } })

end RegistryState

/-! ### Sequences of calls -/

inductive HostCall where
  | registerFatBinary (m : FatbinModule) (handle : Addr)
  | unregisterFatBinary (handle : Addr)
  | registerFunction (handle hostFun : Addr) (deviceName : Option Text)
  | pushCallConfiguration (c : CallConfig)
  | popCallConfiguration
  | api (out : Outside) (call : ApiCall)

def RegistryState.call (s : RegistryState) : HostCall → RegistryState
  | .registerFatBinary m handle => s.cudaRegisterFatBinary m handle
  | .unregisterFatBinary handle => s.cudaUnregisterFatBinary handle
  | .registerFunction handle hostFun deviceName => s.cudaRegisterFunction handle hostFun deviceName
  | .pushCallConfiguration c => s.cudaPushCallConfiguration c
  | .popCallConfiguration => s.cudaPopCallConfiguration.2
  | .api out call => { s with shim := (s.shim.call out call).2 }

/-- What the process promises: `new` returns no token that is in use, a handle that is deleted is
one that was returned, and an exception leaves the registries alone. -/
def HostCall.Allowed (s : RegistryState) : HostCall → Prop
  | .registerFatBinary _ handle => handle = 0 ∨ s.handleToId handle = none
  | .unregisterFatBinary handle => handle = 0 ∨ s.handleToId handle ≠ none
  | .api out _ => ∀ thrown left, out.thrown = some (thrown, left) →
      left.kernels = s.shim.kernels ∧ left.modules = s.shim.modules
  | _ => True

inductive HostStep : RegistryState → HostCall → RegistryState → Prop
  | mk {s : RegistryState} (call : HostCall) (hallowed : call.Allowed s) :
      HostStep s call (s.call call)

end ProtoGpu

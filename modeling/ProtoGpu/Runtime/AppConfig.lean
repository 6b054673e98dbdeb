import ProtoGpu.Observability
import ProtoGpu.Runtime.Workload
import ProtoGpu.Simt.Launch

/-!
# The configuration document

`load_app_config_json_text` (`runtime.cpp`). Every field may be absent, and a field of the wrong
type makes its accessor throw.
-/

namespace ProtoGpu.Workload

open Json (Value Object)

/-- `profile` is a field of `SimConfig` in the source. -/
structure AppConfig where
  sim : SimConfig := {}
  profile : Text := []
  obs : ObsConfig := {}

def asBool (v : Value) : Except Throw Bool := orFatal v.asBool

def asString (v : Value) : Except Throw Text := orFatal v.asString

/-- A field that is read when it is there. -/
def optField {α : Type} (o : Object) (key : String) (read : Value → Except Throw α)
    (set : α → AppConfig → AppConfig) (cfg : AppConfig) : Except Throw AppConfig :=
  match Json.find? key.toList o with
  | some v => do return set (← read v) cfg
  | none => .ok cfg

/-- A section that is loaded when it is there. -/
def optSection (o : Object) (key : String) (load : Object → AppConfig → Except Throw AppConfig)
    (cfg : AppConfig) : Except Throw AppConfig :=
  match Json.find? key.toList o with
  | some v => do load (← asObject v) cfg
  | none => .ok cfg

/-- `static_cast<std::uint32_t>`, of the value of a field. -/
def toU32 (n : BitVec 64) : Nat := (n.setWidth 32).toNat

def setWarpSize (n : BitVec 64) (cfg : AppConfig) : AppConfig :=
  { cfg with sim := { cfg.sim with warpSize := toU32 n } }

def setMaxSteps (n : BitVec 64) (cfg : AppConfig) : AppConfig :=
  { cfg with sim := { cfg.sim with maxSteps := n.toNat } }

def setSmCount (n : BitVec 64) (cfg : AppConfig) : AppConfig :=
  { cfg with sim := { cfg.sim with smCount := toU32 n } }

def setParallel (b : Bool) (cfg : AppConfig) : AppConfig :=
  { cfg with sim := { cfg.sim with parallel := b } }

def setDeterministic (b : Bool) (cfg : AppConfig) : AppConfig :=
  { cfg with sim := { cfg.sim with deterministic := b } }

def setCtaScheduler (s : Text) (cfg : AppConfig) : AppConfig :=
  { cfg with sim := { cfg.sim with ctaScheduler := quoted s } }

def setWarpScheduler (s : Text) (cfg : AppConfig) : AppConfig :=
  { cfg with sim := { cfg.sim with warpScheduler := quoted s } }

def setAllowUnknownSelectors (b : Bool) (cfg : AppConfig) : AppConfig :=
  { cfg with sim := { cfg.sim with allowUnknownSelectors := b } }

def setMemoryModel (s : Text) (cfg : AppConfig) : AppConfig :=
  { cfg with sim := { cfg.sim with memoryModel := quoted s } }

/-- A known profile resets the selectors. -/
def setProfile (s : Text) (cfg : AppConfig) : AppConfig :=
  if s = "baseline_no_cache".toList then
    { cfg with
      profile := s
      sim := { cfg.sim with
        ctaScheduler := "fifo"
        warpScheduler := "in_order_run_to_completion"
        memoryModel := "no_cache_addrspace" } }
  else { cfg with profile := s }

def setEnabled (b : Bool) (cfg : AppConfig) : AppConfig :=
  { cfg with obs := { cfg.obs with enabled := b } }

def setTraceCapacity (n : BitVec 64) (cfg : AppConfig) : AppConfig :=
  { cfg with obs := { cfg.obs with traceCapacity := n } }

def loadSim (outOfRange : Double → BitVec 64) (so : Object) (cfg : AppConfig) :
    Except Throw AppConfig := do
  let cfg ← optField so "warp_size" (asU64 outOfRange) setWarpSize cfg
  let cfg ← optField so "max_steps" (asU64 outOfRange) setMaxSteps cfg
  let cfg ← optField so "sm_count" (asU64 outOfRange) setSmCount cfg
  let cfg ← optField so "parallel" asBool setParallel cfg
  let cfg ← optField so "deterministic" asBool setDeterministic cfg
  let cfg ← optField so "cta_scheduler" asString setCtaScheduler cfg
  let cfg ← optField so "warp_scheduler" asString setWarpScheduler cfg
  optField so "allow_unknown_selectors" asBool setAllowUnknownSelectors cfg

def loadMemory (mo : Object) (cfg : AppConfig) : Except Throw AppConfig :=
  optField mo "model" asString setMemoryModel cfg

def loadComponents (co : Object) (cfg : AppConfig) : Except Throw AppConfig := do
  let cfg ← optField co "cta_scheduler" asString setCtaScheduler cfg
  let cfg ← optField co "warp_scheduler" asString setWarpScheduler cfg
  optField co "memory_model" asString setMemoryModel cfg

def loadArch (ao : Object) (cfg : AppConfig) : Except Throw AppConfig := do
  let cfg ← optField ao "profile" asString setProfile cfg
  optSection ao "components" loadComponents cfg

def loadObservability (outOfRange : Double → BitVec 64) (oo : Object) (cfg : AppConfig) :
    Except Throw AppConfig := do
  let cfg ← optField oo "enabled" asBool setEnabled cfg
  optField oo "trace_capacity" (asU64 outOfRange) setTraceCapacity cfg

/-- `load_app_config_json_text` from the parsed document on. -/
def loadAppConfigRoot (outOfRange : Double → BitVec 64) (root : Value) :
    Except Throw AppConfig := do
  let o ← asObject root
  let cfg ← optSection o "sim" (loadSim outOfRange) {}
  let cfg ← optSection o "memory" loadMemory cfg
  let cfg ← optSection o "arch" loadArch cfg
  optSection o "observability" (loadObservability outOfRange) cfg

def loadAppConfigJsonText (outOfRange : Double → BitVec 64) (text : Text) :
    Except Throw AppConfig := do
  loadAppConfigRoot outOfRange (← parseRoot text)

end ProtoGpu.Workload

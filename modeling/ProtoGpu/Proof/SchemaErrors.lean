import ProtoGpu.Proof.JsonParse
import ProtoGpu.Proof.WorkloadDemands

/-!
# The class of a workload error

Each reader of a workload document reports the class of the first of its demands that is not met,
and with them `run_workload` does. Malformed documents are reported as schema errors as long as no
accessor, no missing reference and nothing outside the document comes before the first check that
fails.
-/

namespace ProtoGpu.Workload

open Throwing

open Json (Value Object)
open Demands

variable {α : Type}

variable {o : Object} {key : String} {f : Value → Except Throw α} {ds : List (Demand ErrorClass)}

variable {env : Env}

variable {root : Value} {res : Resources}

/-- A command whose event has been collected. -/
def Collected (names : List Text) (cmdv : Value) : Prop :=
  ∃ ck cv, cmdv = .object [(ck, cv)]
    ∧ (ck = "event_record".toList ∨ ck = "event_wait".toList →
        eventTyped cv = true ∧ (cv.field "event").text ∈ names)

theorem Collected.mono {names names' : List Text} {cmdv : Value} (h : Collected names cmdv)
    (hsub : names ⊆ names') : Collected names' cmdv := by
  obtain ⟨ck, cv, hcmdv, hevent⟩ := h
  exact ⟨ck, cv, hcmdv, fun hck => ⟨(hevent hck).1, hsub (hevent hck).2⟩⟩

end ProtoGpu.Workload

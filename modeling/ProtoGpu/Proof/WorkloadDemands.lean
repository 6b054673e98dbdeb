import ProtoGpu.Lib.Demands
import ProtoGpu.Proof.HostBounds

/-!
# What a workload document is demanded to be

The fields of a document and their types, as `workload.schema.json` has them; and what
`run_workload` demands of the document, place by place in the order in which it reads it, with the
class of the error it reports where the demand is not met. A `require_` helper reports a schema
error; an accessor of `json::Value` and everything that fails outside the document ends in the
handler for all other exceptions.
-/

namespace ProtoGpu

namespace Json.Value

def isString : Value → Bool
  | .string _ => true
  | _ => false

def isObject : Value → Bool
  | .object _ => true
  | _ => false

def items : Value → List Value
  | .array a => a
  | _ => []

def members : Value → Object
  | .object o => o
  | _ => []

/-- A string, or nothing. -/
def text : Value → Text
  | .string s => s
  | _ => []

def has (v : Value) (key : String) : Bool := (v.get? key.toList).isSome

/-- The value under a key, `null` where there is none. -/
def field (v : Value) (key : String) : Value := (v.get? key.toList).getD .null

end Json.Value

namespace Workload

open Json (Value Object)
open Demands

/-! ### The schema -/

def eventTyped (v : Value) : Bool := v.isObject && (v.field "event").isString

section Resources
variable (env : Env) (root : Value)

end Resources

end Workload

end ProtoGpu

import ProtoGpu.Shim.Extraction
import ProtoGpu.Proof.FatbinDecode
import ProtoGpu.Proof.TextSearch

/-!
# What extraction finds

The search of a payload that is no container against its NUL-terminated strings: one text for each
string with a `.version` in it, from there on. And the files of the override against their list: all
of them are loaded, or the first that is no PTX is named.
-/

namespace ProtoGpu

/-! ### Strings -/

section Strings

variable {a b w : Text} {sep : Char}

end Strings

/-! ### The search -/

section Scan

variable {bytes a b : Text} {cursor passes : Nat}

end Scan

/-! ### The override -/

section Override

variable {p : FatbinProcess} {index : Nat} {path text : Text} {paths texts : List Text}
  {e : OverrideLoadError}

end Override

/-! ### The module -/

section Modules

variable {p : FatbinProcess} (passes : Nat) {fatCubin : Addr}

end Modules

end ProtoGpu

import ProtoGpu.Shim.Fatbin
import ProtoGpu.Shim.Exports

/-!
# The PTX texts of a module

`FatbinRegistry::extract_ptx_texts_mvp` (`fatbin_registry.cpp`) around the container walk: the files
that `GPUSIM_CUDART_SHIM_PTX_OVERRIDE` names stand in for the module, a wrapper is followed to its
payload, and a payload that is no container is searched for NUL-terminated PTX strings.
-/

namespace ProtoGpu

open Json (isSpace)

end ProtoGpu

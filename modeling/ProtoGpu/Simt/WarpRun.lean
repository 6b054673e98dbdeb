import ProtoGpu.Simt.Launch

/-!
# Runs of one warp

The step loop visits a warp that is not done, in whatever order the scheduler picks, and between
two of its steps the other warps may change memory. A run of a warp is therefore a sequence of its
own steps, each from some memory; whatever holds of every run holds under every interleaving.
-/

namespace ProtoGpu

/-- The runs of a warp without a diagnostic, each step from a state that meets `pre`, with what they
issued, the latest first. -/
inductive WarpRunWhen (ctx : WarpContext) (pre : WarpState → Prop) (w₀ : WarpState) :
    List Issue → WarpState → Prop where
  | start : WarpRunWhen ctx pre w₀ [] w₀
  | issue {trace : List Issue} {w w' : WarpState} {mem mem' : MemState} {issue : Issue}
      (hrun : WarpRunWhen ctx pre w₀ trace w) (hdone : w.done = false) (hpre : pre w)
      (hstep : warpStep ctx w mem = (.ok (.issued issue), w', mem')) :
      WarpRunWhen ctx pre w₀ (issue :: trace) w'
  | retire {trace : List Issue} {w w' : WarpState} {mem mem' : MemState}
      (hrun : WarpRunWhen ctx pre w₀ trace w) (hdone : w.done = false) (hpre : pre w)
      (hstep : warpStep ctx w mem = (.ok .retired, w', mem')) : WarpRunWhen ctx pre w₀ trace w'

/-- The runs of a warp without a diagnostic. -/
abbrev WarpRun (ctx : WarpContext) (w₀ : WarpState) : List Issue → WarpState → Prop :=
  WarpRunWhen ctx (fun _ => True) w₀

/-- The states a warp passes through, with the diagnostic of the step that left it. -/
inductive WarpReaches (ctx : WarpContext) (w₀ : WarpState) : Option Fault → WarpState → Prop where
  | running {trace : List Issue} {w : WarpState} (hrun : WarpRun ctx w₀ trace w) :
      WarpReaches ctx w₀ none w
  | normalized {trace : List Issue} {w w' : WarpState} (hrun : WarpRun ctx w₀ trace w)
      (hdone : w.done = false) (hnormalize : normalizeStack ctx w = (.ok .ready, w')) :
      WarpReaches ctx w₀ none w'
  | stopped {trace : List Issue} {w w' : WarpState} {mem mem' : MemState} {f : Fault}
      (hrun : WarpRun ctx w₀ trace w) (hdone : w.done = false)
      (hstep : warpStep ctx w mem = (.error f, w', mem')) : WarpReaches ctx w₀ (some f) w'

/-- How the step loop leaves a CTA of one warp. -/
inductive LoopEnd where
  | limit | finished | stopped (f : Fault)
deriving DecidableEq, Repr

/-- The step loop on one warp with `budget` steps left: how it ends, the steps it counted, and the
state it leaves. A retirement is not counted, and the next turn finds no warp to pick. -/
def runWarp (ctx : WarpContext) : Nat → WarpState → MemState → LoopEnd × Nat × WarpState × MemState
  | 0, w, mem => (.limit, 0, w, mem)
  | budget + 1, w, mem =>
      if w.done then (.finished, 0, w, mem)
      else
        match warpStep ctx w mem with
        | (.error f, w', mem') => (.stopped f, 0, w', mem')
        | (.ok .retired, w', mem') => (.finished, 0, w', mem')
        | (.ok (.issued _), w', mem') =>
            let r := runWarp ctx budget w' mem'
            (r.1, r.2.1 + 1, r.2.2)

end ProtoGpu

import ProtoGpu.Simt.Launch

/-!
# Warp schedulers

`InOrderRunToCompletion` and `RoundRobinInterleaveStep` (`warp_scheduler.cpp`). Each keeps one
32-bit cursor, `current_` or `next_`, and picks among `warp_count` warps, also 32-bit.
-/

namespace ProtoGpu

structure WarpScheduler where
  kind : WarpSchedulerKind
  cursor : BitVec 32 := 0
deriving DecidableEq, Repr

/-- `create_warp_scheduler` and `on_cta_start`. -/
def WarpScheduler.onCtaStart (kind : WarpSchedulerKind) : WarpScheduler := { kind := kind }

/-- The first warp that is not done in `todo` turns from `i` on. -/
def firstNotDone (isWarpDone : BitVec 32 → Bool) : Nat → BitVec 32 → Option (BitVec 32)
  | 0, _ => none
  | todo + 1, i => if isWarpDone i then firstNotDone isWarpDone todo (i + 1) else some i

namespace InOrderRunToCompletion

def pickNext (current warpCount : BitVec 32) (isWarpDone : BitVec 32 → Bool) :
    Option (BitVec 32) × BitVec 32 :=
  if warpCount = 0 then (none, current)
  else if current < warpCount && !isWarpDone current then (some current, current)
  else
    match firstNotDone isWarpDone (warpCount.toNat - current.toNat) current with
    | some i => (some i, i)
    | none => (none, current)

end InOrderRunToCompletion

namespace RoundRobinInterleaveStep

/-- The turns of the loop from `k` on. `next_ + k` is 32-bit. -/
def pickFrom (next warpCount : BitVec 32) (isWarpDone : BitVec 32 → Bool) :
    Nat → BitVec 32 → Option (BitVec 32)
  | 0, _ => none
  | todo + 1, k =>
      let idx := (next + k) % warpCount
      if isWarpDone idx then pickFrom next warpCount isWarpDone todo (k + 1) else some idx

def pickNext (next warpCount : BitVec 32) (isWarpDone : BitVec 32 → Bool) :
    Option (BitVec 32) × BitVec 32 :=
  if warpCount = 0 then (none, next)
  else
    match pickFrom next warpCount isWarpDone warpCount.toNat 0 with
    | some idx => (some idx, (idx + 1) % warpCount)
    | none => (none, next)

end RoundRobinInterleaveStep

def WarpScheduler.pickNext (s : WarpScheduler) (warpCount : BitVec 32)
    (isWarpDone : BitVec 32 → Bool) : Option (BitVec 32) × WarpScheduler :=
  let r :=
    match s.kind with
    | .inOrderRunToCompletion => InOrderRunToCompletion.pickNext s.cursor warpCount isWarpDone
    | .roundRobinInterleaveStep => RoundRobinInterleaveStep.pickNext s.cursor warpCount isWarpDone
  (r.1, { s with cursor := r.2 })

end ProtoGpu

import ProtoGpu.Lib.Transitions
import ProtoGpu.Simt.Driver

/-!
# Turns of the workers

What a worker does next is a function of the state, in `acquire` as well, so a list of workers that
says who steps when decides a run of the system.
-/

namespace ProtoGpu

open Transitions

/-- The worker's next step in `acquire`. -/
def CtaSystem.acquireTurn (p : CtaPolicy) (smCount : Nat) (s : CtaSystem) (smId : SmId) :
    Option (CtaEvent × CtaSystem) :=
  match s.phase smId with
  | .outside =>
      if smId.toNat < smCount then some (.call smId, s.moveTo smId .entered) else none
  | .entered =>
      if s.mutex.isSome then none
      else if s.sched.awaited p smId then
        some (.look smId, { s.moveTo smId .ready with mutex := some smId })
      else some (.look smId, s.moveTo smId .waiting)
  | .waiting => some (.wake smId, s.moveTo smId .entered)
  | .ready =>
      if s.sched.stop then some (.ret smId none, { s.moveTo smId .outside with mutex := none })
      else some (.goOn smId, s.moveTo smId .taking)
  | .taking =>
      some (.ret smId (s.sched.popFront p smId).1,
        { s.moveTo smId .outside with sched := (s.sched.popFront p smId).2, mutex := none })

theorem acquireTurn_step {p : CtaPolicy} {smCount : Nat} {s t : CtaSystem} {smId : SmId}
    {e : CtaEvent} (h : s.acquireTurn p smCount smId = some (e, t)) :
    e.worker? = some smId ∧ CtaStep p smCount s e t := by
  unfold CtaSystem.acquireTurn at h
  split at h
  next hphase =>
    split at h
    next hlt =>
      cases h
      exact ⟨rfl, .call smId hlt hphase⟩
    · cases h
  next hphase =>
    split at h
    · cases h
    next hfree =>
      have hmutex : s.mutex = none := Option.not_isSome_iff_eq_none.mp hfree
      split at h
      next hawaited =>
        cases h
        exact ⟨rfl, .pass smId hphase hmutex hawaited⟩
      next hawaited =>
        cases h
        exact ⟨rfl, .sleep smId hphase hmutex (Bool.eq_false_of_not_eq_true hawaited)⟩
  next hphase =>
    cases h
    exact ⟨rfl, .wake smId hphase⟩
  next hphase =>
    split at h
    next hstop =>
      cases h
      exact ⟨rfl, .stopped smId hphase hstop⟩
    next hstop =>
      cases h
      exact ⟨rfl, .goOn smId hphase (Bool.eq_false_of_not_eq_true hstop)⟩
  next hphase =>
    cases h
    exact ⟨rfl, .take smId hphase⟩

/-- The worker's next step. -/
def DriverEnv.turn (env : DriverEnv) (s : DriverState) (smId : SmId) :
    Option (DriverEvent × DriverState) :=
  match s.worker smId with
  | .acquiring =>
      match s.cta.acquireTurn env.policy env.plan.smCount smId with
      | none => none
      | some (e, cta) => some (.sched e, { s with cta := cta }.moveTo smId e.phaseAfter)
  | _ => workerStep env smId s

theorem turn_step {env : DriverEnv} {s t : DriverState} {smId : SmId} {e : DriverEvent}
    (h : env.turn s smId = some (e, t)) : DriverStep env s e t := by
  unfold DriverEnv.turn at h
  split at h
  next hphase =>
    split at h
    · cases h
    next hturn =>
      cases h
      obtain ⟨hworker, hstep⟩ := acquireTurn_step hturn
      exact .acquire smId hphase hworker hstep
  · exact .work smId h

/-- The workers of the list step one after the other; one that cannot step loses its turn. -/
def DriverEnv.turns (env : DriverEnv) : List SmId → DriverState → List DriverEvent × DriverState
  | [], s => ([], s)
  | smId :: rest, s =>
      match env.turn s smId with
      | none => env.turns rest s
      | some (e, t) => (e :: (env.turns rest t).1, (env.turns rest t).2)

theorem turns_run (env : DriverEnv) (smIds : List SmId) (s : DriverState) :
    Run (DriverStep env) s (env.turns smIds s).1 (env.turns smIds s).2 := by
  induction smIds generalizing s with
  | nil => exact .start
  | cons smId rest ih =>
      rw [DriverEnv.turns]
      split
      · exact ih s
      next e t hturn => exact (Run.single (turn_step hturn)).append (ih t)

end ProtoGpu

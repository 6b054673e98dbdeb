import ProtoGpu.Proof.LaunchOrder

/-!
# Quiet runs

A run is quiet when none of its states has a diagnostic or has reached the step limit. A worker that
is on its own runs quietly as long as the warps it steps do: its turns through the step loop are
turns of the warps, one warp to its end after the other when the scheduler picks in order, and one
step of each warp in every round when it goes round robin.
-/

namespace ProtoGpu

open Transitions

/-- Neither a diagnostic nor the step limit. -/
def DriverState.Quiet (env : DriverEnv) (s : DriverState) : Prop :=
  s.diag = none ∧ s.limitReached env = false

/-- A step of the system, with what it accesses, from one quiet state to another. -/
structure QuietStep (env : DriverEnv) (s : DriverState) (l : DriverEvent × List (WarpId × Access))
    (t : DriverState) : Prop where
  step : DriverStep env s l.1 t
  accesses : l.2 = env.stepAccesses s l.1
  before : s.Quiet env
  after : t.Quiet env

/-- The events of a run, and its accesses. -/
def runEvents (log : List (DriverEvent × List (WarpId × Access))) : List DriverEvent :=
  log.map Prod.fst

def runAccesses (log : List (DriverEvent × List (WarpId × Access))) : List (WarpId × Access) :=
  log.flatMap Prod.snd

/-- A quiet step without an access. -/
def SilentStep (env : DriverEnv) (s : DriverState) (e : DriverEvent) (t : DriverState) : Prop :=
  QuietStep env s (e, []) t

variable {env : DriverEnv} {mem : MemState}

theorem silent_log (es : List DriverEvent) :
    runEvents (es.map fun e => (e, [])) = es ∧ runAccesses (es.map fun e => (e, [])) = [] := by
  constructor
  · rw [runEvents, List.map_map]
    exact List.map_id es
  · rw [runAccesses, List.flatMap_map]
    exact List.flatMap_eq_nil_iff.mpr fun _ _ => rfl

theorem silent_quiet {s t : DriverState} {es : List DriverEvent}
    (hrun : Run (SilentStep env) s es t) : Run (QuietStep env) s (es.map fun e => (e, [])) t := by
  induction hrun with
  | start => exact .start
  | next _ hlast ih =>
      rw [List.map_append]
      exact ih.next hlast

theorem silent_driver {s t : DriverState} {es : List DriverEvent}
    (hrun : Run (SilentStep env) s es t) :
    Run (DriverStep env) s es t := hrun.mono fun _ _ _ h => h.step

theorem quiet_driver {s t : DriverState} {log : List (DriverEvent × List (WarpId × Access))}
    (hrun : Run (QuietStep env) s log t) : Run (DriverStep env) s (runEvents log) t := by
  induction hrun with
  | start => exact .start
  | next _ hlast ih =>
      rw [runEvents, List.map_append]
      exact ih.next hlast.step

/-! ### Turns that stay quiet -/

/-- The turns of the workers, with what they access, as long as no state has a diagnostic or has
reached the step limit. -/
def DriverEnv.quietTurns (env : DriverEnv) :
    List SmId → DriverState → List (DriverEvent × List (WarpId × Access)) × DriverState
  | [], s => ([], s)
  | smId :: rest, s =>
      match env.turn s smId with
      | none => env.quietTurns rest s
      | some (e, t) =>
          if t.diag = none ∧ t.limitReached env = false then
            ((e, env.stepAccesses s e) :: (env.quietTurns rest t).1, (env.quietTurns rest t).2)
          else ([], s)

theorem quietTurns_run (smIds : List SmId) {s : DriverState} (hquiet : s.Quiet env) :
    Run (QuietStep env) s (env.quietTurns smIds s).1 (env.quietTurns smIds s).2 := by
  induction smIds generalizing s with
  | nil => exact .start
  | cons smId rest ih =>
      rw [DriverEnv.quietTurns]
      split
      · exact ih hquiet
      next e t hturn =>
        split
        next hnext =>
          have hfirst : QuietStep env s (e, env.stepAccesses s e) t :=
            ⟨turn_step hturn, rfl, hquiet, hnext⟩
          exact (Run.single hfirst).append (ih hnext)
        · exact .start

/-! ### A worker on its own -/

/-- Worker `0` in some phase after `k` steps, the other workers at their ends. -/
def DriverState.alone (cta : CtaSystem) (mem : MemState) (k : Nat) (phase : WorkerPhase) :
    DriverState :=
  let ended : DriverState :=
    { cta := cta, steps := BitVec.ofNat 64 k, mem := mem, worker := fun _ => .ended }
  ended.moveTo 0 phase

/-- The step counter is below the limit after `k` steps. -/
def DriverEnv.Below (env : DriverEnv) (k : Nat) : Prop :=
  (BitVec.ofNat 64 k).toNat < env.cfg.maxSteps

theorem below_of_lt {k : Nat} (hk : k < env.cfg.maxSteps) : env.Below k := by
  rw [DriverEnv.Below, BitVec.toNat_ofNat]
  exact (Nat.mod_le _ _).trans_lt hk

section Alone

variable {cta : CtaSystem} {k : Nat} {phase phase' : WorkerPhase} {e : DriverEvent}

theorem alone_worker : (DriverState.alone cta mem k phase).worker 0 = phase :=
  DriverState.moveTo_self ..

theorem alone_others {smId : SmId} (hne : smId ≠ 0) :
    (DriverState.alone cta mem k phase).worker smId = .ended :=
  DriverState.moveTo_others _ _ hne

theorem alone_moveTo : (DriverState.alone cta mem k phase).moveTo 0 phase'
    = DriverState.alone cta mem k phase' := by
  unfold DriverState.alone DriverState.moveTo
  dsimp only
  rw [Function.update_idem]

theorem alone_limit (hk : env.Below k) :
    (DriverState.alone cta mem k phase).limitReached env = false :=
  decide_eq_false (Nat.not_le_of_lt hk)

theorem alone_ended : (DriverState.alone cta mem k .ended).Ended := by
  intro smId
  by_cases hzero : smId = 0
  · rw [hzero, alone_worker]
  · exact alone_others hzero

/-- A step of the worker, in a phase that accesses nothing. -/
theorem alone_work {k' : Nat}
    (hstep : workerStep env 0 (DriverState.alone cta mem k phase)
      = some (e, DriverState.alone cta mem k' phase'))
    (hsilent : env.stepAccesses (DriverState.alone cta mem k phase) e = []) (hk : env.Below k)
    (hk' : env.Below k') :
    SilentStep env (DriverState.alone cta mem k phase) e (DriverState.alone cta mem k' phase') where
  step := .work 0 hstep
  accesses := hsilent.symm
  before := ⟨rfl, alone_limit hk⟩
  after := ⟨rfl, alone_limit hk'⟩

/-- The same where the step only moves the worker on. -/
theorem alone_move
    (hstep : workerStep env 0 (DriverState.alone cta mem k phase)
      = some (.internal 0, (DriverState.alone cta mem k phase).moveTo 0 phase'))
    (hidle : ∀ cta w, phase ≠ .stepping cta w) (hk : env.Below k) :
    SilentStep env (DriverState.alone cta mem k phase) (.internal 0)
      (DriverState.alone cta mem k phase') := by
  rw [alone_moveTo] at hstep
  exact alone_work hstep (stepAccesses_idle (by rwa [alone_worker])) hk hk

theorem alone_acquire {cta' : CtaSystem} {e : CtaEvent} (hworker : e.worker? = some 0)
    (hstep : CtaStep env.policy env.plan.smCount cta e cta') (hk : env.Below k) :
    SilentStep env (DriverState.alone cta mem k .acquiring) (.sched e)
      (DriverState.alone cta' mem k e.phaseAfter) := by
  refine ⟨?_, rfl, ⟨rfl, alone_limit hk⟩, ⟨rfl, alone_limit hk⟩⟩
  have hmoved : ({ DriverState.alone cta mem k .acquiring with cta := cta' }).moveTo 0 e.phaseAfter
      = DriverState.alone cta' mem k e.phaseAfter := alone_moveTo
  rw [← hmoved]
  exact .acquire 0 alone_worker hworker hstep

/-- The scheduler is closed and not stopped, and worker `0` is not in it. -/
structure CtaSystem.Idle (cta : CtaSystem) : Prop where
  mutex : cta.mutex = none
  outside : cta.phase 0 = .outside
  running : cta.sched.stop = false
  closed : cta.sched.closed = true

/-- The worker takes the next CTA, or is turned away. -/
theorem alone_takes (mem : MemState) (hidle : cta.Idle) (hcount : 0 < env.plan.smCount)
    (hk : env.Below k) :
    ∃ es cta', Run (SilentStep env) (DriverState.alone cta mem k .top) es
        (DriverState.alone cta' mem k
          (CtaEvent.ret 0 (cta.sched.popFront env.policy 0).1).phaseAfter)
      ∧ cta'.sched = (cta.sched.popFront env.policy 0).2 ∧ cta'.Idle := by
  have hcalls : SilentStep env (DriverState.alone cta mem k .top) (.internal 0)
      (DriverState.alone cta mem k .acquiring) := by
    refine alone_move ?_ (by simp) hk
    rw [workerStep, alone_worker]
    dsimp only
    rw [alone_limit hk, Bool.and_false]
    rfl
  have hphase : ∀ (cta : CtaSystem) (phase : AcquirePhase), (cta.moveTo 0 phase).phase 0 = phase :=
    fun cta phase => (moveTo_phase cta 0 0 phase).trans (if_pos rfl)
  have hcalled : SilentStep env (.alone cta mem k .acquiring) (.sched (.call 0))
      (.alone (cta.moveTo 0 .entered) mem k .acquiring) :=
    alone_acquire rfl (.call 0 hcount hidle.outside) hk
  have hawaited : (cta.moveTo 0 .entered).sched.awaited env.policy 0 = true := by
    have hclosed : (cta.moveTo 0 .entered).sched.closed = true := hidle.closed
    rw [CtaScheduler.awaited, hclosed, Bool.or_true]
  have hpassed : SilentStep env (.alone (cta.moveTo 0 .entered) mem k .acquiring) (.sched (.look 0))
      (.alone { (cta.moveTo 0 .entered).moveTo 0 .ready with mutex := some 0 } mem k .acquiring) :=
    alone_acquire rfl (.pass 0 (hphase cta .entered) hidle.mutex hawaited) hk
  have hgone : SilentStep env
      (.alone { (cta.moveTo 0 .entered).moveTo 0 .ready with mutex := some 0 } mem k .acquiring)
      (.sched (.goOn 0))
      (.alone ({ (cta.moveTo 0 .entered).moveTo 0 .ready with mutex := some 0 }.moveTo 0 .taking)
        mem k .acquiring) :=
    alone_acquire rfl (.goOn 0 (hphase (cta.moveTo 0 .entered) .ready) hidle.running) hk
  have htaken : SilentStep env
      (.alone ({ (cta.moveTo 0 .entered).moveTo 0 .ready with mutex := some 0 }.moveTo 0 .taking)
        mem k .acquiring) (.sched (.ret 0 (cta.sched.popFront env.policy 0).1)) _ :=
    alone_acquire rfl (.take 0 (hphase ((cta.moveTo 0 .entered).moveTo 0 .ready) .taking)) hk
  refine ⟨_, _, ((((Run.single hcalls).next hcalled).next hpassed).next hgone).next htaken, rfl, ?_⟩
  refine ⟨rfl, hphase (((cta.moveTo 0 .entered).moveTo 0 .ready).moveTo 0 .taking) .outside, ?_, ?_⟩
  · exact (popFront_stop _ _).trans hidle.running
  · exact (popFront_closed _ _).trans hidle.closed

/-! ### Turns of the step loop -/

/-- A step of a live warp that accesses nothing. -/
structure WarpTurn (ctx : WarpContext) (mem : MemState) (w : WarpState) (outcome : StepOutcome)
    (w' : WarpState) : Prop where
  live : w.done = false
  step : warpStep ctx w mem = (.ok outcome, w', mem)
  silent : warpAccesses ctx w mem = []

/-- An instruction of one micro-op that is no memory operation. -/
theorem warpTurn_single {ctx : WarpContext} {w : WarpState} {inst : InstRecord} {desc : InstDesc}
    {uop : MicroOp} {s : IssueState} (hlive : w.done = false)
    (hready : normalizeStack ctx w = (.ok .ready, w)) (hpc : 0 ≤ w.pc)
    (hinst : ctx.kernel.insts[w.pc.toNat]? = some inst)
    (hdesc : ctx.registry.lookup inst = some desc)
    (huop : predicate ctx inst w (expand inst desc ctx.warpSize) = .ok [uop])
    (hsilent : uopAccesses uop { warp := w, mem := mem } = [])
    (hstep : uopStep ctx inst uop { warp := w, mem := mem } = (none, s)) (hmem : s.mem = mem) :
    ∃ outcome, WarpTurn ctx mem w outcome (commit ctx s.nextPc s.split s.warp) := by
  have hloop : uopLoop ctx inst [uop] { warp := w, mem := mem } = (none, s) := by
    rw [uopLoop, hstep]
    rfl
  have hnone : uopLoopAccesses ctx inst [uop] { warp := w, mem := mem } = [] := by
    rw [uopLoopAccesses, hsilent, hstep]
    rfl
  have hissued : warpStep ctx w mem
      = (.ok (.issued { pc := w.pc, active := w.active, exited := w.exited, split := s.split }),
          commit ctx s.nextPc s.split s.warp, mem) := by
    rw [warpStep, hready]
    dsimp only
    rw [issueInst, if_neg (not_lt.mpr hpc), hinst]
    dsimp only
    rw [hdesc]
    dsimp only
    rw [huop]
    dsimp only
    rw [hloop]
    dsimp only
    rw [hmem]
  refine ⟨_, hlive, hissued, ?_⟩
  rw [warpAccesses, hready]
  dsimp only
  rw [issueAccesses, if_neg (not_lt.mpr hpc), hinst]
  dsimp only
  rw [hdesc]
  dsimp only
  rw [huop]
  exact hnone

/-- A pick, and a step of the picked warp. -/
inductive Turn (env : DriverEnv) (mem : MemState) : CtaRun → StepOutcome → CtaRun → Prop
  | mk {cta picked : CtaRun} {w : BitVec 32} {warp warp' : WarpState} {outcome : StepOutcome}
      (hpick : cta.pickNext env.plan.warpCount = (some w, picked))
      (hwarp : picked.warps[w.toNat]? = some warp)
      (hturn : WarpTurn (env.warpContext picked.reconvPc) mem warp outcome warp') :
      Turn env mem cta outcome (picked.setWarp w warp')

/-- Below the step limit and without a stop the worker comes to the pick. -/
theorem alone_picks (run : CtaRun) (hstop : cta.sched.stop = false) (hk : env.Below k) :
    Run (SilentStep env) (.alone cta mem k (.looping run)) [.internal 0, .internal 0]
      (.alone cta mem k (.picking run)) := by
  have htested : SilentStep env (.alone cta mem k (.looping run)) (.internal 0)
      (.alone cta mem k (.stopTest run)) := by
    refine alone_move ?_ (by simp) hk
    rw [workerStep, alone_worker]
    dsimp only
    rw [alone_limit hk]
    rfl
  have hpicking : SilentStep env (.alone cta mem k (.stopTest run)) (.internal 0)
      (.alone cta mem k (.picking run)) := by
    refine alone_move ?_ (by simp) hk
    have hrunning : (DriverState.alone cta mem k (.stopTest run)).cta.sched.stop = false := hstop
    rw [workerStep, alone_worker]
    dsimp only
    rw [hrunning]
    rfl
  exact (Run.single htested).next hpicking

/-- A turn takes the worker from the head of the step loop back to it. -/
theorem alone_turn {run run' : CtaRun} {outcome : StepOutcome}
    (hturn : Turn env mem run outcome run') (hstop : cta.sched.stop = false) (hk : env.Below k)
    (hk' : env.Below (k + if outcome.counts then 1 else 0)) :
    ∃ es, Run (SilentStep env) (.alone cta mem k (.looping run)) es
      (.alone cta mem (k + if outcome.counts then 1 else 0) (.looping run')) := by
  cases hturn with
  | @mk picked w warp warp' _ hpick hwarp hturn =>
      obtain ⟨hlive, hstep, hsilent⟩ := hturn
      have hpicked : SilentStep env (.alone cta mem k (.picking run)) (.internal 0)
          (.alone cta mem k (.stepping picked w)) := by
        refine alone_move ?_ (by simp) hk
        have hdone : picked.isWarpDone w = false := by
          rw [CtaRun.isWarpDone, hwarp]
          exact hlive
        rw [workerStep, alone_worker]
        dsimp only
        rw [hpick]
        dsimp only
        rw [hdone]
        rfl
      have hmem : (DriverState.alone cta mem k (.stepping picked w)).mem = mem := rfl
      have hquiet :
          env.stepAccesses (.alone cta mem k (.stepping picked w)) (.internal 0) = [] := by
        unfold DriverEnv.stepAccesses
        dsimp only
        rw [alone_worker]
        dsimp only
        rw [hwarp]
        dsimp only
        rw [hmem, hsilent]
        rfl
      have hstepped := (alone_picks run hstop hk).next hpicked
      cases outcome with
      | retired =>
          have hretired : SilentStep env (.alone cta mem k (.stepping picked w)) (.internal 0)
              (.alone cta mem k (.retired (picked.setWarp w warp'))) := by
            refine alone_work ?_ hquiet hk hk
            rw [workerStep, alone_worker]
            dsimp only
            rw [hwarp]
            dsimp only
            rw [hmem, hstep]
            dsimp only
            rw [alone_moveTo]
            rfl
          have hback : SilentStep env (.alone cta mem k (.retired (picked.setWarp w warp')))
              (.internal 0) (.alone cta mem k (.looping (picked.setWarp w warp'))) := by
            refine alone_move ?_ (by simp) hk
            rw [workerStep, alone_worker]
            rfl
          exact ⟨_, (hstepped.next hretired).next hback⟩
      | issued issue =>
          have hissued : SilentStep env (.alone cta mem k (.stepping picked w)) (.internal 0)
              (.alone cta mem k (.counting (picked.setWarp w warp'))) := by
            refine alone_work ?_ hquiet hk hk
            rw [workerStep, alone_worker]
            dsimp only
            rw [hwarp]
            dsimp only
            rw [hmem, hstep]
            dsimp only
            rw [alone_moveTo]
            rfl
          have hcounted : SilentStep env (.alone cta mem k (.counting (picked.setWarp w warp')))
              (.internal 0) (.alone cta mem (k + 1) (.looping (picked.setWarp w warp'))) := by
            refine alone_work ?_ (stepAccesses_idle (by rw [alone_worker]; simp)) hk hk'
            have hsteps :
                (DriverState.alone cta mem k (.counting (picked.setWarp w warp'))).steps + 1
                = BitVec.ofNat 64 (k + 1) := (BitVec.ofNat_add k 1).symm
            rw [workerStep, alone_worker]
            dsimp only
            rw [hsteps, alone_moveTo]
            rfl
          exact ⟨_, (hstepped.next hissued).next hcounted⟩

/-- The worker makes every turn of the CTA below the step limit. -/
theorem alone_turns (mem : MemState) {run run' : CtaRun} {os : List StepOutcome}
    (hturns : Run (Turn env mem) run os run') (hstop : cta.sched.stop = false)
    (hbelow : ∀ k ≤ os.length, env.Below k) :
    ∃ es k, k ≤ os.length ∧ Run (SilentStep env) (.alone cta mem 0 (.looping run)) es
      (.alone cta mem k (.looping run')) := by
  induction hturns with
  | start => exact ⟨[], 0, le_rfl, .start⟩
  | @next os run' outcome run'' hprev hturn ih =>
      rw [List.length_append, List.length_singleton] at hbelow ⊢
      obtain ⟨es, k, hk, hrun⟩ := ih fun k hk => hbelow k (by omega)
      have hnext : k + (if outcome.counts then 1 else 0) ≤ os.length + 1 := by
        split
        · omega
        · omega
      obtain ⟨es', hrun'⟩ := alone_turn hturn hstop (hbelow k (by omega)) (hbelow _ hnext)
      exact ⟨es ++ es', _, hnext, hrun.append hrun'⟩

/-- The worker leaves a CTA no warp of which is picked any more. -/
theorem alone_leaves (mem : MemState) {run run' : CtaRun}
    (hnone : run.pickNext env.plan.warpCount = (none, run'))
    (hstop : cta.sched.stop = false) (hk : env.Below k) :
    ∃ es, Run (SilentStep env) (.alone cta mem k (.looping run)) es (.alone cta mem k .top)
      ∧ .left 0 run' ∈ es := by
  have hrunning : (DriverState.alone cta mem k .returned).cta.sched.stop = false := hstop
  have hleft : SilentStep env (.alone cta mem k (.picking run)) (.left 0 run')
      (.alone cta mem k .returned) := by
    refine alone_work ?_ rfl hk hk
    rw [workerStep, alone_worker]
    dsimp only
    rw [hnone, alone_moveTo]
  have hback : SilentStep env (.alone cta mem k .returned) (.internal 0)
      (.alone cta mem k .top) := by
    refine alone_move ?_ (by simp) hk
    have hgoes : (if env.parallel then (DriverState.alone cta mem k .returned).cta.sched.stop
        else (DriverState.alone cta mem k .returned).diag.isSome) = false := by
      rw [hrunning]
      exact ite_self _
    rw [workerStep, alone_worker]
    dsimp only
    rw [hgoes]
    rfl
  exact ⟨_, ((alone_picks run hstop hk).next hleft).next hback, by simp⟩

end Alone

/-! ### A launch of one CTA -/

/-- A CTA of the launch in its step loop, with its warps as `f` has them. -/
def DriverEnv.ctaOf (env : DriverEnv) (item : CtaWorkItem) (f : BitVec 32 → WarpState)
    (sched : WarpScheduler) : CtaRun where
  item := item
  reconvPc := env.reconvPc
  warps := (List.range env.plan.warpCount).map fun n => f (BitVec.ofNat 32 n)
  sched := sched

theorem start_alone (mem : MemState) (hcount : env.plan.smCount = 1) :
    env.start mem = .alone (env.start mem).cta mem 0 .top := by
  have hworker : (env.start mem).worker
      = (DriverState.alone (env.start mem).cta mem 0 .top).worker := by
    funext smId
    by_cases hzero : smId = 0
    · rw [hzero, alone_worker]
      exact if_pos (by rw [hcount]; decide)
    · have hidle : ¬ smId.toNat < env.plan.smCount := by
        rw [hcount, Nat.lt_one_iff]
        exact fun hnat => hzero (BitVec.eq_of_toNat_eq hnat)
      exact (if_neg hidle).trans (alone_others hzero).symm
  unfold DriverEnv.start at hworker ⊢
  exact congrArg (DriverState.mk _ _ _ _) hworker

theorem start_idle (mem : MemState) : (env.start mem).cta.Idle where
  mutex := rfl
  outside := rfl
  running := Bool.eq_false_iff.mpr fun hstop => (Orderly.start mem).running (.inl hstop)
  closed := rfl

/-- The one worker finds the one CTA in its deque, and then nothing. -/
theorem start_popFront (mem : MemState) (hcount : env.plan.smCount = 1) {item : CtaWorkItem}
    (hitems : ctaItems env.launch.gridDim = [item]) :
    ((env.start mem).cta.sched.popFront env.policy 0).1 = some item
      ∧ ((((env.start mem).cta.sched.popFront env.policy 0).2).popFront env.policy 0).1 = none := by
  obtain ⟨smId, hlt, hqueue⟩ := exists_worker env.plan.ctaSched hcount.ge item
  obtain rfl : smId = 0 := by
    rw [hcount, Nat.lt_one_iff] at hlt
    exact BitVec.eq_of_toNat_eq hlt
  have hq : (env.start mem).cta.sched.q (env.policy.acquireQueue 0) = [item] := by
    have hown : env.policy.submitQueue item = env.policy.acquireQueue 0 := hqueue.symm
    unfold DriverEnv.start CtaScheduler.close
    dsimp only
    rw [hitems, List.foldl_cons, List.foldl_nil, CtaScheduler.submit, hown]
    exact Function.update_self ..
  have hpop : (env.start mem).cta.sched.popFront env.policy 0
      = (some item, { (env.start mem).cta.sched with
          q := Function.update (env.start mem).cta.sched.q (env.policy.acquireQueue 0) [] }) := by
    unfold CtaScheduler.popFront
    dsimp only
    rw [hq]
  have hrest : Function.update (env.start mem).cta.sched.q (env.policy.acquireQueue 0) []
      (env.policy.acquireQueue 0) = [] := Function.update_self ..
  rw [hpop]
  refine ⟨rfl, ?_⟩
  unfold CtaScheduler.popFront
  dsimp only
  rw [hrest]

/-- **One CTA.** The turns of the CTA, below the step limit and up to where no warp is picked, are a
whole run of the one worker. -/
theorem alone_run {item : CtaWorkItem} {run run' : CtaRun} {os : List StepOutcome}
    (hcount : env.plan.smCount = 1) (hitems : ctaItems env.launch.gridDim = [item])
    (hwarps : env.plan.warpCount < 2 ^ 32)
    (hanalysis : analyzeControlFlow env.kernel env.registry env.plan.warpSize = .ok env.reconvPc)
    (hturns : Run (Turn env mem)
      (env.ctaOf item (env.initWarp item) (WarpScheduler.onCtaStart env.plan.warpSched)) os run)
    (hnone : run.pickNext env.plan.warpCount = (none, run'))
    (hbelow : ∀ k ≤ os.length, env.Below k) :
    ∃ es s, Run (SilentStep env) (env.start mem) es s ∧ s.Ended ∧ .left 0 run' ∈ es := by
  obtain ⟨htaken, hempty⟩ := start_popFront mem hcount hitems
  obtain ⟨es₁, cta₁, hrun₁, hsched₁, hidle₁⟩ :=
    alone_takes mem (start_idle mem) hcount.ge (hbelow 0 (Nat.zero_le _))
  rw [htaken, ← start_alone mem hcount] at hrun₁
  have hstarted : SilentStep env (.alone cta₁ mem 0 (.received item)) (.internal 0)
      (.alone cta₁ mem 0 (.looping (env.ctaOf item (env.initWarp item)
        (WarpScheduler.onCtaStart env.plan.warpSched)))) := by
    refine alone_move ?_ (by simp) (hbelow 0 (Nat.zero_le _))
    have hinit : env.initWarps item = some _ := initWarps_ok item hwarps
    rw [workerStep, alone_worker]
    dsimp only
    rw [hinit, hanalysis]
    rfl
  obtain ⟨es₂, k, hk, hrun₂⟩ := alone_turns mem hturns hidle₁.running hbelow
  obtain ⟨es₃, hrun₃, hleft⟩ := alone_leaves mem hnone hidle₁.running (hbelow k hk)
  obtain ⟨es₄, cta₂, hrun₄, -, -⟩ := alone_takes mem hidle₁ hcount.ge (hbelow k hk)
  rw [hsched₁, hempty] at hrun₄
  refine ⟨_, _, (((hrun₁.next hstarted).append hrun₂).append hrun₃).append hrun₄, alone_ended, ?_⟩
  exact List.mem_append_left _ (List.mem_append_right _ hleft)

/-! ### Sweeps over the warps -/

section Sweeps

variable {item : CtaWorkItem} {f A B : BitVec 32 → WarpState} {sched sched' : WarpScheduler}
  {w : BitVec 32} {x : WarpState} {os : List StepOutcome} {outcome : StepOutcome}

/-- What the warp scheduler sees of the warps. -/
def DriverEnv.doneAt (env : DriverEnv) (f : BitVec 32 → WarpState) (w : BitVec 32) : Bool :=
  if w.toNat < env.plan.warpCount then (f w).done else true

theorem ctaOf_getElem? (hw : w.toNat < env.plan.warpCount) :
    (env.ctaOf item f sched).warps[w.toNat]? = some (f w) := by
  unfold DriverEnv.ctaOf
  rw [List.getElem?_map, List.getElem?_range hw, Option.map_some, BitVec.ofNat_toNat,
    BitVec.setWidth_eq]

theorem mem_ctaOf {warp : WarpState} (hmem : warp ∈ (env.ctaOf item f sched).warps) :
    ∃ w, f w = warp := by
  obtain ⟨n, -, hwarp⟩ := List.mem_map.mp hmem
  exact ⟨_, hwarp⟩

theorem ctaOf_isWarpDone : (env.ctaOf item f sched).isWarpDone = env.doneAt f := by
  funext w
  rw [CtaRun.isWarpDone, DriverEnv.doneAt]
  by_cases hw : w.toNat < env.plan.warpCount
  · rw [ctaOf_getElem? hw, if_pos hw]
  · have hlength : (env.ctaOf item f sched).warps.length = env.plan.warpCount := by
      rw [DriverEnv.ctaOf, List.length_map, List.length_range]
    rw [List.getElem?_eq_none (by omega), if_neg hw]

theorem ctaOf_pickNext (item : CtaWorkItem) {r : Option (BitVec 32)}
    (hpick : sched.pickNext (BitVec.ofNat 32 env.plan.warpCount) (env.doneAt f) = (r, sched')) :
    (env.ctaOf item f sched).pickNext env.plan.warpCount = (r, env.ctaOf item f sched') := by
  rw [CtaRun.pickNext, ctaOf_isWarpDone]
  unfold DriverEnv.ctaOf
  dsimp only
  rw [hpick]

theorem ctaOf_congr (h : ∀ w : BitVec 32, w.toNat < env.plan.warpCount → A w = B w) :
    env.ctaOf item A sched = env.ctaOf item B sched := by
  unfold DriverEnv.ctaOf
  congr 1
  refine List.map_congr_left fun n hn => h _ ?_
  rw [BitVec.toNat_ofNat]
  exact (Nat.mod_le _ _).trans_lt (List.mem_range.mp hn)

theorem ctaOf_setWarp (hwarps : env.plan.warpCount < 2 ^ 32) (hw : w.toNat < env.plan.warpCount) :
    (env.ctaOf item f sched).setWarp w x = env.ctaOf item (Function.update f w x) sched := by
  unfold DriverEnv.ctaOf CtaRun.setWarp
  congr 1
  refine List.ext_getElem? fun n => ?_
  rw [List.getElem?_map]
  by_cases hn : n < env.plan.warpCount
  · have hnat : (BitVec.ofNat 32 n).toNat = n := by
      rw [BitVec.toNat_ofNat]
      exact Nat.mod_eq_of_lt (hn.trans hwarps)
    rw [List.getElem?_range hn, Option.map_some]
    by_cases heq : n = w.toNat
    · have hsame : BitVec.ofNat 32 n = w := BitVec.eq_of_toNat_eq (hnat.trans heq)
      rw [hsame, Function.update_self, heq, List.getElem?_set_self (by simpa using hw)]
    · have hne : BitVec.ofNat 32 n ≠ w := fun hsame => heq (hnat.symm.trans (congrArg _ hsame))
      rw [Function.update_of_ne hne, List.getElem?_set_ne (Ne.symm heq), List.getElem?_map,
        List.getElem?_range hn, Option.map_some]
  · rw [List.getElem?_eq_none (by simpa using hn), List.getElem?_eq_none (by simpa using hn),
      Option.map_none]

theorem ctaOf_turn (item : CtaWorkItem) (hwarps : env.plan.warpCount < 2 ^ 32)
    (hw : w.toNat < env.plan.warpCount)
    (hpick : sched.pickNext (BitVec.ofNat 32 env.plan.warpCount) (env.doneAt f) = (some w, sched'))
    (hturn : WarpTurn (env.warpContext env.reconvPc) mem (f w) outcome x) :
    Turn env mem (env.ctaOf item f sched) outcome
      (env.ctaOf item (Function.update f w x) sched') := by
  rw [← ctaOf_setWarp hwarps hw]
  exact .mk (ctaOf_pickNext item hpick) (ctaOf_getElem? hw) hturn

/-- The warps below `n` after a sweep that leaves `B`, the others before it. -/
def sweptTo (A B : BitVec 32 → WarpState) (n : Nat) (w : BitVec 32) : WarpState :=
  if w.toNat < n then B w else A w

theorem sweptTo_zero : sweptTo A B 0 = A := funext fun _ => if_neg (Nat.not_lt_zero _)

theorem sweptTo_succ {n : Nat} (hn : n < 2 ^ 32) :
    sweptTo A B (n + 1)
      = Function.update (sweptTo A B n) (BitVec.ofNat 32 n) (B (BitVec.ofNat 32 n)) := by
  have hnat : (BitVec.ofNat 32 n).toNat = n := by
    rw [BitVec.toNat_ofNat]
    exact Nat.mod_eq_of_lt hn
  funext w
  by_cases heq : w = BitVec.ofNat 32 n
  · rw [heq, Function.update_self, sweptTo, hnat, if_pos n.lt_succ_self]
  · have hne : w.toNat ≠ n := fun h => heq (BitVec.eq_of_toNat_eq (h.trans hnat.symm))
    rw [Function.update_of_ne heq, sweptTo, sweptTo]
    exact if_congr (by omega) rfl rfl

/-- The warp at the place the sweep has come to. -/
theorem sweptTo_self {n : Nat} (hn : n < 2 ^ 32) :
    sweptTo A B n (BitVec.ofNat 32 n) = A (BitVec.ofNat 32 n) := by
  refine if_neg ?_
  rw [BitVec.toNat_ofNat, Nat.mod_eq_of_lt hn]
  exact Nat.lt_irrefl n

theorem ctaOf_swept :
    env.ctaOf item (sweptTo A B env.plan.warpCount) sched = env.ctaOf item B sched :=
  ctaOf_congr fun _ hw => if_pos hw

/-- In order, the first live warp goes on to its end. -/
theorem inOrder_life (item : CtaWorkItem) (hwarps : env.plan.warpCount < 2 ^ 32)
    (hw : w.toNat < env.plan.warpCount)
    (hbefore : ∀ v : BitVec 32, v.toNat < w.toNat → (f v).done = true)
    (hlife : Run (WarpTurn (env.warpContext env.reconvPc) mem) (f w) os x)
    (hkind : sched.kind = .inOrderRunToCompletion)
    (hsound : sched.Sound (BitVec.ofNat 32 env.plan.warpCount) (env.doneAt f)) :
    ∃ sched', Run (Turn env mem) (env.ctaOf item f sched) os
        (env.ctaOf item (Function.update f w x) sched')
      ∧ sched'.kind = .inOrderRunToCompletion
      ∧ sched'.Sound (BitVec.ofNat 32 env.plan.warpCount) (env.doneAt (Function.update f w x)) := by
  have hcount : (BitVec.ofNat 32 env.plan.warpCount).toNat = env.plan.warpCount := by
    rw [BitVec.toNat_ofNat]
    exact Nat.mod_eq_of_lt hwarps
  induction hlife with
  | start =>
      rw [Function.update_eq_self]
      exact ⟨sched, .start, hkind, hsound⟩
  | @next os y outcome z hprev hturn ih =>
      obtain ⟨sched₁, hrun, hkind₁, hsound₁⟩ := ih
      have hlive : env.doneAt (Function.update f w y) w = false := by
        rw [DriverEnv.doneAt, if_pos hw, Function.update_self, hturn.live]
      have hdone : ∀ v : BitVec 32, v.toNat < w.toNat →
          env.doneAt (Function.update f w y) v = true := by
        intro v hv
        have hne : v ≠ w := fun h => absurd (congrArg BitVec.toNat h) hv.ne
        rw [DriverEnv.doneAt, if_pos (hv.trans hw), Function.update_of_ne hne, hbefore v hv]
      obtain ⟨sched₂, hpick, hkind₂, hsound₂⟩ :=
        WarpScheduler.pickNext_first hkind₁ hsound₁ (hcount.symm ▸ hw) hdone hlive
      have hstep := ctaOf_turn item (x := z) hwarps hw hpick
        ((Function.update_self w y f).symm ▸ hturn)
      rw [Function.update_idem] at hstep
      refine ⟨sched₂, hrun.next hstep, hkind₂, hsound₂.mono fun v hv => ?_⟩
      have hne : v ≠ w := by
        rintro rfl
        rw [hlive] at hv
        cases hv
      unfold DriverEnv.doneAt at hv ⊢
      rwa [Function.update_of_ne hne] at hv ⊢

/-- **In order.** The warps of a CTA come to their ends one after the other, and then none is
picked. -/
theorem inOrder_sweep (item : CtaWorkItem) {c : Nat} (hwarps : env.plan.warpCount < 2 ^ 32)
    (hlives : ∀ w : BitVec 32, w.toNat < env.plan.warpCount → ∃ os, os.length ≤ c
      ∧ Run (WarpTurn (env.warpContext env.reconvPc) mem) (A w) os (B w))
    (hends : ∀ w : BitVec 32, w.toNat < env.plan.warpCount → (B w).done = true) :
    ∃ os sched' sched'', os.length ≤ env.plan.warpCount * c
      ∧ Run (Turn env mem) (env.ctaOf item A (.onCtaStart .inOrderRunToCompletion)) os
          (env.ctaOf item B sched')
      ∧ (env.ctaOf item B sched').pickNext env.plan.warpCount
        = (none, env.ctaOf item B sched'') := by
  suffices hsweep : ∀ n ≤ env.plan.warpCount, ∃ os sched', os.length ≤ n * c
      ∧ Run (Turn env mem) (env.ctaOf item A (.onCtaStart .inOrderRunToCompletion)) os
          (env.ctaOf item (sweptTo A B n) sched')
      ∧ sched'.kind = .inOrderRunToCompletion
      ∧ sched'.Sound (BitVec.ofNat 32 env.plan.warpCount) (env.doneAt (sweptTo A B n)) by
    obtain ⟨os, sched', hlength, hrun, -, hsound⟩ := hsweep _ le_rfl
    have hdone : ∀ w, env.doneAt (sweptTo A B env.plan.warpCount) w = true := by
      intro w
      rw [DriverEnv.doneAt, sweptTo]
      split
      · exact hends w ‹_›
      · rfl
    have hnone : (sched'.pickNext (BitVec.ofNat 32 env.plan.warpCount)
        (env.doneAt (sweptTo A B env.plan.warpCount))).1 = none := by
      refine Option.eq_none_iff_forall_ne_some.mpr fun w hpick => ?_
      have hlive := (WarpScheduler.pickNext_some hsound hpick).2.1
      rw [hdone] at hlive
      cases hlive
    have hpick := ctaOf_pickNext item (Prod.ext hnone rfl)
    rw [ctaOf_swept] at hrun hpick
    rw [ctaOf_swept] at hpick
    exact ⟨os, sched', _, hlength, hrun, hpick⟩
  intro n
  induction n with
  | zero =>
      intro _
      rw [sweptTo_zero]
      exact ⟨[], _, Nat.zero_le _, .start, rfl, WarpScheduler.sound_onCtaStart _⟩
  | succ n ih =>
      intro hn
      obtain ⟨os, sched₁, hlength, hrun, hkind, hsound⟩ := ih (Nat.le_of_succ_le hn)
      have hfits : n < 2 ^ 32 := by omega
      have hnat : (BitVec.ofNat 32 n).toNat = n := by
        rw [BitVec.toNat_ofNat]
        exact Nat.mod_eq_of_lt hfits
      have hw : (BitVec.ofNat 32 n).toNat < env.plan.warpCount := hnat.symm ▸ hn
      obtain ⟨os', hlength', hlife⟩ := hlives _ hw
      have hbefore : ∀ v : BitVec 32, v.toNat < (BitVec.ofNat 32 n).toNat →
          (sweptTo A B n v).done = true := by
        intro v hv
        rw [sweptTo, if_pos (hnat ▸ hv)]
        exact hends v (hv.trans hw)
      obtain ⟨sched₂, hrun', hkind', hsound'⟩ := inOrder_life item hwarps hw hbefore
        ((sweptTo_self (A := A) (B := B) hfits).symm ▸ hlife) hkind hsound
      rw [← sweptTo_succ hfits] at hrun' hsound'
      refine ⟨os ++ os', sched₂, ?_, hrun.append hrun', hkind', hsound'⟩
      rw [List.length_append, Nat.succ_mul]
      exact Nat.add_le_add hlength hlength'

/-- **Round robin.** From the first warp on, a round of live warps gives each of them one step. -/
theorem roundRobin_round (item : CtaWorkItem) (hwarps : env.plan.warpCount < 2 ^ 32)
    (hturns : ∀ w : BitVec 32, w.toNat < env.plan.warpCount →
      ∃ outcome, WarpTurn (env.warpContext env.reconvPc) mem (A w) outcome (B w)) :
    ∃ os, os.length = env.plan.warpCount
      ∧ Run (Turn env mem) (env.ctaOf item A (.onCtaStart .roundRobinInterleaveStep)) os
          (env.ctaOf item B (.onCtaStart .roundRobinInterleaveStep)) := by
  have hcount : (BitVec.ofNat 32 env.plan.warpCount).toNat = env.plan.warpCount := by
    rw [BitVec.toNat_ofNat]
    exact Nat.mod_eq_of_lt hwarps
  suffices hround : ∀ n ≤ env.plan.warpCount, ∃ os, os.length = n
      ∧ Run (Turn env mem) (env.ctaOf item A (.onCtaStart .roundRobinInterleaveStep)) os
          (env.ctaOf item (sweptTo A B n) { kind := .roundRobinInterleaveStep
                                            cursor := BitVec.ofNat 32 (n % env.plan.warpCount) }) by
    obtain ⟨os, hlength, hrun⟩ := hround _ le_rfl
    rw [ctaOf_swept, Nat.mod_self] at hrun
    exact ⟨os, hlength, hrun⟩
  intro n
  induction n with
  | zero =>
      intro _
      rw [sweptTo_zero, Nat.zero_mod]
      exact ⟨[], rfl, .start⟩
  | succ n ih =>
      intro hn
      obtain ⟨os, hlength, hrun⟩ := ih (Nat.le_of_succ_le hn)
      have hfits : n < 2 ^ 32 := by omega
      have hnat : (BitVec.ofNat 32 n).toNat = n := by
        rw [BitVec.toNat_ofNat]
        exact Nat.mod_eq_of_lt hfits
      have hw : (BitVec.ofNat 32 n).toNat < env.plan.warpCount := hnat.symm ▸ hn
      obtain ⟨outcome, hturn⟩ := hturns _ hw
      rw [← sweptTo_self (A := A) (B := B) hfits] at hturn
      have hlive : env.doneAt (sweptTo A B n) (BitVec.ofNat 32 n) = false := by
        rw [DriverEnv.doneAt, if_pos hw, hturn.live]
      have hcursor : (BitVec.ofNat 32 n + 1) % BitVec.ofNat 32 env.plan.warpCount
          = BitVec.ofNat 32 ((n + 1) % env.plan.warpCount) := by
        apply BitVec.eq_of_toNat_eq
        have hnext : (n + 1) % env.plan.warpCount < 2 ^ 32 :=
          (Nat.mod_lt _ (Nat.zero_lt_of_lt hw)).trans hwarps
        rw [BitVec.toNat_umod, BitVec.toNat_add, hnat, hcount, BitVec.toNat_ofNat,
          Nat.mod_eq_of_lt hnext]
        exact congrArg (· % _) (Nat.mod_eq_of_lt (by simp; omega))
      have hpick : (WarpScheduler.mk .roundRobinInterleaveStep
            (BitVec.ofNat 32 (n % env.plan.warpCount))).pickNext
          (BitVec.ofNat 32 env.plan.warpCount) (env.doneAt (sweptTo A B n))
          = (some (BitVec.ofNat 32 n), { kind := .roundRobinInterleaveStep
                                         cursor :=
                                           BitVec.ofNat 32 ((n + 1) % env.plan.warpCount) }) := by
        unfold WarpScheduler.pickNext
        dsimp only
        rw [Nat.mod_eq_of_lt hn,
          RoundRobinInterleaveStep.pickNext_cursor (hcount.symm ▸ hw) hlive, hcursor]
      have hstep := ctaOf_turn item hwarps hw hpick hturn
      rw [← sweptTo_succ hfits] at hstep
      exact ⟨os ++ [outcome], by rw [List.length_append, hlength]; rfl, hrun.next hstep⟩

end Sweeps

end ProtoGpu

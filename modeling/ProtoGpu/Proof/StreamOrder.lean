import ProtoGpu.Lib.Transitions
import ProtoGpu.Shim.StreamScheduler
import Mathlib.Data.List.Nodup

/-!
# Same-stream order

A `submit` leaves no command in a queue, so each thread runs its own command and no other: every
command runs exactly once, before its `submit` returns. The order of a stream is another matter, as
a command runs outside the mutex: it is kept in the runs where no command joins a stream that still
has one to finish.
-/

namespace ProtoGpu

open Transitions

/-! ### Histories -/

@[simp]
theorem appended_append (a b : List StreamEvent) : appended (a ++ b) = appended a ++ appended b :=
  List.filterMap_append

@[simp]
theorem started_append (a b : List StreamEvent) : started (a ++ b) = started a ++ started b :=
  List.filterMap_append

@[simp]
theorem finished_append (a b : List StreamEvent) : finished (a ++ b) = finished a ++ finished b :=
  List.filterMap_append

def StreamEvent.command : StreamEvent → Command
  | .call cmd => cmd
  | .append cmd => cmd
  | .start c => c
  | .lock c => c
  | .finish c _ => c
  | .ret cmd => cmd

/-- An event is about its command only. -/
theorem command_of_mem {c : Command} {e : StreamEvent}
    (h : c ∈ appended [e] ∨ c ∈ started [e] ∨ c ∈ finished [e]) : c = e.command := by
  cases e <;> simp [appended, started, finished] at h <;> exact h

section
variable {es : List StreamEvent} {e : StreamEvent} {c : Command}

theorem mem_appended_of_ne (hne : c ≠ e.command) : c ∈ appended (es ++ [e]) ↔ c ∈ appended es := by
  rw [appended_append, List.mem_append, or_iff_left]
  exact fun hmem => hne (command_of_mem (.inl hmem))

theorem mem_started_of_ne (hne : c ≠ e.command) : c ∈ started (es ++ [e]) ↔ c ∈ started es := by
  rw [started_append, List.mem_append, or_iff_left]
  exact fun hmem => hne (command_of_mem (.inr (.inl hmem)))

theorem mem_finished_of_ne (hne : c ≠ e.command) : c ∈ finished (es ++ [e]) ↔ c ∈ finished es := by
  rw [finished_append, List.mem_append, or_iff_left]
  exact fun hmem => hne (command_of_mem (.inr (.inr hmem)))

end

/-! ### The invariant -/

/-- What the history says of the command of a thread in a phase. -/
def SubmitPhase.Sound (es : List StreamEvent) (t : ThreadId) : SubmitPhase → Prop
  | .outside => True
  | .entered cmd => cmd.thread = t ∧ cmd ∉ appended es
  | .looping cmd toRun => cmd.thread = t ∧
      ((toRun = [cmd] ∧ cmd ∈ appended es ∧ cmd ∉ started es) ∨ (toRun = [] ∧ cmd ∈ finished es))
  | .waiting cmd c toRun => cmd.thread = t ∧ c = cmd ∧ toRun = [] ∧ cmd.submitter = .memcpyAsync ∧
      cmd ∈ started es ∧ cmd ∉ finished es
  | .running cmd c toRun => cmd.thread = t ∧ c = cmd ∧ toRun = [] ∧
      cmd ∈ started es ∧ cmd ∉ finished es

/-- Whether a thread in the phase may hold the global mutex. -/
def SubmitPhase.MayHold : SubmitPhase → Prop
  | .outside => False
  | .entered cmd => cmd.submitter = .launchKernel
  | .looping cmd _ => cmd.submitter = .launchKernel
  | .waiting .. => False
  | .running .. => True

structure StreamInv (es : List StreamEvent) (s : StreamSystem) : Prop where
  queues : ∀ stream, s.sched.queues stream = []
  phases : ∀ t, (s.phase t).Sound es t
  numbered : ∀ c, c ∈ appended es ∨ s.phase c.thread = .entered c → c.call < s.calls c.thread
  pending : ∀ c ∈ appended es, c ∈ finished es ∨ c ∈ (s.phase c.thread).pending
  startedSub : started es ⊆ appended es
  finishedSub : finished es ⊆ started es
  appendedOnce : (appended es).Nodup
  startedOnce : (started es).Nodup
  finishedOnce : (finished es).Nodup
  holder : ∀ t, s.globalMutex = some t → (s.phase t).MayHold

theorem StreamInv.init : StreamInv [] {} := by
  refine ⟨?_, ?_, ?_, ?_, ?_, ?_, ?_, ?_, ?_, ?_⟩
  all_goals simp [appended, started, finished, SubmitPhase.Sound]

section Step
variable {es : List StreamEvent} {e : StreamEvent} {s u : StreamSystem} {t : ThreadId}

/-- The event of one thread leaves the phase of another sound. -/
theorem SubmitPhase.Sound.other {phase : SubmitPhase} (hsound : phase.Sound es t)
    (hother : t ≠ e.command.thread) : phase.Sound (es ++ [e]) t := by
  have hne : ∀ c : Command, c.thread = t → c ≠ e.command := by
    rintro c hc rfl
    exact hother hc.symm
  cases phase with
  | outside => trivial
  | entered cmd =>
    obtain ⟨ht, happ⟩ := hsound
    exact ⟨ht, by rwa [mem_appended_of_ne (hne cmd ht)]⟩
  | looping cmd toRun =>
    obtain ⟨ht, hcase⟩ := hsound
    refine ⟨ht, ?_⟩
    rwa [mem_appended_of_ne (hne cmd ht), mem_started_of_ne (hne cmd ht),
      mem_finished_of_ne (hne cmd ht)]
  | waiting cmd c toRun =>
    obtain ⟨ht, hc, hrest, hsub, hstart, hfin⟩ := hsound
    exact ⟨ht, hc, hrest, hsub, by rwa [mem_started_of_ne (hne cmd ht)],
      by rwa [mem_finished_of_ne (hne cmd ht)]⟩
  | running cmd c toRun =>
    obtain ⟨ht, hc, hrest, hstart, hfin⟩ := hsound
    exact ⟨ht, hc, hrest, by rwa [mem_started_of_ne (hne cmd ht)],
      by rwa [mem_finished_of_ne (hne cmd ht)]⟩

/-- The phases after a step of thread `t`. -/
theorem StreamInv.phases_update (hinv : StreamInv es s) (he : e.command.thread = t)
    {phase : SubmitPhase} (hphase : phase.Sound (es ++ [e]) t) (t' : ThreadId) :
    (Function.update s.phase t phase t').Sound (es ++ [e]) t' := by
  by_cases htt : t' = t
  · rw [htt, Function.update_self]
    exact hphase
  · rw [Function.update_of_ne htt]
    exact (hinv.phases t').other (by rwa [he])

/-- An unfinished command stays pending, unless the step finishes it. -/
theorem StreamInv.pending_update (hinv : StreamInv es s) (he : e.command.thread = t)
    {phase : SubmitPhase}
    (hown : ∀ c ∈ appended (es ++ [e]), c.thread = t →
      c ∈ finished (es ++ [e]) ∨ c ∈ phase.pending) :
    ∀ c ∈ appended (es ++ [e]),
      c ∈ finished (es ++ [e]) ∨ c ∈ (Function.update s.phase t phase c.thread).pending := by
  intro c hc
  by_cases htt : c.thread = t
  · rw [htt, Function.update_self]
    exact hown c hc htt
  · have hne : c ≠ e.command := by
      rintro rfl
      exact htt he
    rw [Function.update_of_ne htt, mem_finished_of_ne hne]
    exact hinv.pending c ((mem_appended_of_ne hne).mp hc)

/-- The mutex may only be held by a thread whose phase may hold it. -/
theorem StreamInv.holder_update (hinv : StreamInv es s) {phase : SubmitPhase}
    {held : Option ThreadId} (hown : held = some t → phase.MayHold)
    (hkept : ∀ t', t' ≠ t → held = some t' → s.globalMutex = some t') (t' : ThreadId)
    (hheld : held = some t') : (Function.update s.phase t phase t').MayHold := by
  by_cases htt : t' = t
  · rw [htt, Function.update_self]
    exact hown (htt ▸ hheld)
  · rw [Function.update_of_ne htt]
    exact hinv.holder t' (hkept t' htt hheld)

/-- The numbers stay fresh when no call is begun. -/
theorem StreamInv.numbered_update (hinv : StreamInv es s) {phase : SubmitPhase}
    {known : List Command} (hknown : ∀ c ∈ known, c ∈ appended es ∨ s.phase c.thread = .entered c)
    (hnew : ∀ c, phase ≠ .entered c) (c : Command)
    (hc : c ∈ known ∨ Function.update s.phase t phase c.thread = .entered c) :
    c.call < s.calls c.thread := by
  rcases hc with hc | hc
  · exact hinv.numbered c (hknown c hc)
  · rw [Function.update_apply] at hc
    split at hc
    · exact absurd hc (hnew c)
    · exact hinv.numbered c (.inr hc)

/-- A step that appends, starts and finishes nothing. -/
theorem StreamInv.silent (hinv : StreamInv es s) (he : e.command.thread = t)
    (happ : appended [e] = []) (hstart : started [e] = []) (hfin : finished [e] = [])
    {phase : SubmitPhase} (hphase : u.phase = Function.update s.phase t phase)
    (hsched : u.sched = s.sched) (hsound : phase.Sound (es ++ [e]) t)
    (hpending : (s.phase t).pending = phase.pending)
    (hnumbered : ∀ c, c ∈ appended es ∨ u.phase c.thread = .entered c → c.call < u.calls c.thread)
    (hholder : ∀ t', u.globalMutex = some t' → (u.phase t').MayHold) :
    StreamInv (es ++ [e]) u := by
  have happ' : appended (es ++ [e]) = appended es := by simp [happ]
  have hstart' : started (es ++ [e]) = started es := by simp [hstart]
  have hfin' : finished (es ++ [e]) = finished es := by simp [hfin]
  refine
    { queues := by rw [hsched]; exact hinv.queues
      phases := by rw [hphase]; exact hinv.phases_update he hsound
      numbered := by rwa [happ']
      pending := ?_
      startedSub := by rw [hstart', happ']; exact hinv.startedSub
      finishedSub := by rw [hstart', hfin']; exact hinv.finishedSub
      appendedOnce := by rw [happ']; exact hinv.appendedOnce
      startedOnce := by rw [hstart']; exact hinv.startedOnce
      finishedOnce := by rw [hfin']; exact hinv.finishedOnce
      holder := hholder }
  rw [hphase]
  apply hinv.pending_update he
  intro c hc ht
  rw [happ'] at hc
  rw [hfin', ← hpending, ← ht]
  exact hinv.pending c hc

theorem StreamInv.call (hinv : StreamInv es s) {cmd : Command} (ht : cmd.thread = t)
    (hcall : cmd.call = s.calls t) (hout : s.phase t = .outside) {held : Option ThreadId}
    (hheld : held = some t → cmd.submitter = .launchKernel)
    (hkept : ∀ t', t' ≠ t → held = some t' → s.globalMutex = some t') :
    StreamInv (es ++ [.call cmd]) { s.moveTo t (.entered cmd) with
      calls := Function.update s.calls t (s.calls t + 1), globalMutex := held } := by
  have hfresh : cmd ∉ appended es := by
    intro hmem
    have hlt := hinv.numbered cmd (.inl hmem)
    rw [ht, hcall] at hlt
    exact Nat.lt_irrefl _ hlt
  refine hinv.silent (t := t) ht rfl rfl rfl rfl rfl ⟨ht, ?_⟩ (by rw [hout]; rfl) ?_
    (hinv.holder_update hheld hkept)
  · simpa [appended] using hfresh
  · intro c hc
    dsimp only [StreamSystem.moveTo] at hc ⊢
    by_cases htt : c.thread = t
    · rw [htt, Function.update_self]
      rcases hc with hc | hc
      · exact Nat.lt_succ_of_lt (htt ▸ hinv.numbered c (.inl hc))
      · rw [htt, Function.update_self, SubmitPhase.entered.injEq] at hc
        rw [← hc, hcall]
        exact Nat.lt_succ_self _
    · rw [Function.update_of_ne htt] at hc ⊢
      exact hinv.numbered c hc

theorem enqueue_of_empty {sched : StreamScheduler} (hempty : ∀ stream, sched.queues stream = [])
    (cmd : Command) : (sched.enqueue cmd).1 = [cmd] ∧
      ∀ stream, (sched.enqueue cmd).2.queues stream = [] := by
  refine ⟨by simp [StreamScheduler.enqueue, hempty], ?_⟩
  intro stream
  dsimp only [StreamScheduler.enqueue]
  rw [Function.update_apply, hempty, ite_self]

theorem StreamInv.append (hinv : StreamInv es s) {cmd : Command}
    (hphase : s.phase t = .entered cmd) :
    StreamInv (es ++ [.append cmd]) { s.moveTo t (.looping cmd (s.sched.enqueue cmd).1) with
      sched := (s.sched.enqueue cmd).2 } := by
  obtain ⟨hrun, hempty⟩ := enqueue_of_empty hinv.queues cmd
  have hsound := hinv.phases t
  rw [hphase] at hsound
  obtain ⟨ht, hfresh⟩ := hsound
  have he : (StreamEvent.append cmd).command.thread = t := ht
  have happ : appended (es ++ [.append cmd]) = appended es ++ [cmd] := by simp [appended]
  have hstart : started (es ++ [.append cmd]) = started es := by simp [started]
  have hfin : finished (es ++ [.append cmd]) = finished es := by simp [finished]
  rw [hrun]
  refine
    { queues := hempty
      phases := hinv.phases_update he ⟨ht, .inl ⟨rfl, by simp [happ], ?_⟩⟩
      numbered := hinv.numbered_update ?_ (by simp)
      pending := hinv.pending_update he ?_
      startedSub := by
        rw [hstart, happ]
        exact List.subset_append_of_subset_left _ hinv.startedSub
      finishedSub := by rw [hstart, hfin]; exact hinv.finishedSub
      appendedOnce := ?_
      startedOnce := by rw [hstart]; exact hinv.startedOnce
      finishedOnce := by rw [hfin]; exact hinv.finishedOnce
      holder := hinv.holder_update ?_ (fun _ _ hheld => hheld) }
  · rw [hstart]
    exact fun hmem => hfresh (hinv.startedSub hmem)
  · intro c hc
    rw [happ, List.mem_append, List.mem_singleton] at hc
    refine hc.imp_right ?_
    rintro rfl
    rw [ht, hphase]
  · intro c hc hct
    rw [happ, List.mem_append, List.mem_singleton] at hc
    rcases hc with hc | rfl
    · have hold := hinv.pending c hc
      rw [hct, hphase] at hold
      rw [hfin]
      exact hold.imp_right fun hmem => absurd hmem (by simp [SubmitPhase.pending])
    · exact .inr (by simp [SubmitPhase.pending])
  · rw [happ]
    exact List.Nodup.append hinv.appendedOnce (List.nodup_singleton cmd) (by simpa using hfresh)
  · intro hheld
    have hmay := hinv.holder t hheld
    rwa [hphase] at hmay

theorem StreamInv.start (hinv : StreamInv es s) {cmd c : Command} {toRun : List Command}
    (hphase : s.phase t = .looping cmd (c :: toRun)) :
    StreamInv (es ++ [.start c]) (s.moveTo t (c.submitter.phaseIn cmd c toRun)) := by
  have hsound := hinv.phases t
  rw [hphase] at hsound
  obtain ⟨ht, hcase⟩ := hsound
  obtain ⟨hrun, hmem, hfresh⟩ := hcase.resolve_right fun h => absurd h.1 (List.cons_ne_nil _ _)
  obtain ⟨rfl, rfl⟩ := List.cons.inj hrun
  have he : (StreamEvent.start c).command.thread = t := ht
  have happ : appended (es ++ [.start c]) = appended es := by simp [appended]
  have hstart : started (es ++ [.start c]) = started es ++ [c] := by simp [started]
  have hfin : finished (es ++ [.start c]) = finished es := by simp [finished]
  have hunfinished : c ∉ finished es := fun h => hfresh (hinv.finishedSub h)
  have hpending : (c.submitter.phaseIn c c []).pending = [c] := by
    cases c.submitter <;> rfl
  refine
    { queues := hinv.queues
      phases := hinv.phases_update he ?_
      numbered := hinv.numbered_update (fun c' hc' => .inl (happ ▸ hc')) ?_
      pending := hinv.pending_update he ?_
      startedSub := ?_
      finishedSub := by
        rw [hstart, hfin]
        exact List.subset_append_of_subset_left _ hinv.finishedSub
      appendedOnce := by rw [happ]; exact hinv.appendedOnce
      startedOnce := ?_
      finishedOnce := by rw [hfin]; exact hinv.finishedOnce
      holder := hinv.holder_update ?_ (fun _ _ hheld => hheld) }
  · cases hsub : c.submitter with
    | memcpyAsync => exact ⟨ht, rfl, rfl, hsub, by simp [hstart], by rwa [hfin]⟩
    | launchKernel => exact ⟨ht, rfl, rfl, by simp [hstart], by rwa [hfin]⟩
  · intro c'
    cases c.submitter <;> simp [Submitter.phaseIn]
  · intro c' hc' hct
    have hold := hinv.pending c' (happ ▸ hc')
    rw [hct, hphase] at hold
    rw [hfin, hpending]
    exact hold
  · rw [hstart, happ]
    exact List.append_subset.mpr ⟨hinv.startedSub, by simpa using hmem⟩
  · rw [hstart]
    exact List.Nodup.append hinv.startedOnce (List.nodup_singleton c) (by simpa using hfresh)
  · intro hheld
    have hmay := hinv.holder t hheld
    rw [hphase] at hmay
    cases hsub : c.submitter with
    | memcpyAsync => rw [SubmitPhase.MayHold, hsub] at hmay; cases hmay
    | launchKernel => trivial

theorem StreamInv.lock (hinv : StreamInv es s) {cmd c : Command} {toRun : List Command}
    (hphase : s.phase t = .waiting cmd c toRun) :
    StreamInv (es ++ [.lock c])
      { s.moveTo t (.running cmd c toRun) with globalMutex := some t } := by
  have hsound := hinv.phases t
  rw [hphase] at hsound
  obtain ⟨ht, rfl, hrest, -, hstart, hunfinished⟩ := hsound
  refine hinv.silent (t := t) ht rfl rfl rfl rfl rfl ⟨ht, rfl, hrest, ?_, ?_⟩
    (by rw [hphase]; rfl) (hinv.numbered_update (fun _ hc' => .inl hc') (by simp))
    (hinv.holder_update (fun _ => trivial) ?_)
  · simpa [started] using hstart
  · simpa [finished] using hunfinished
  · intro t' hne hheld
    exact absurd (Option.some.inj hheld).symm hne

theorem StreamInv.finish (hinv : StreamInv es s) {cmd c : Command} {toRun : List Command}
    {threw : Bool} (hphase : s.phase t = .running cmd c toRun) :
    StreamInv (es ++ [.finish c threw])
      { s.moveTo t (.looping cmd (if threw then [] else toRun)) with
        globalMutex := c.submitter.unlocked s.globalMutex } := by
  have hsound := hinv.phases t
  rw [hphase] at hsound
  obtain ⟨ht, rfl, rfl, hstarted, hunfinished⟩ := hsound
  have he : (StreamEvent.finish c threw).command.thread = t := ht
  have happ : appended (es ++ [.finish c threw]) = appended es := by simp [appended]
  have hstart : started (es ++ [.finish c threw]) = started es := by simp [started]
  have hfin : finished (es ++ [.finish c threw]) = finished es ++ [c] := by simp [finished]
  rw [ite_self]
  refine
    { queues := hinv.queues
      phases := hinv.phases_update he ⟨ht, .inr ⟨rfl, by simp [hfin]⟩⟩
      numbered := hinv.numbered_update (fun c' hc' => .inl (happ ▸ hc')) (by simp)
      pending := hinv.pending_update he ?_
      startedSub := by rw [hstart, happ]; exact hinv.startedSub
      finishedSub := ?_
      appendedOnce := by rw [happ]; exact hinv.appendedOnce
      startedOnce := by rw [hstart]; exact hinv.startedOnce
      finishedOnce := ?_
      holder := hinv.holder_update ?_ ?_ }
  · intro c' hc' hct
    have hold := hinv.pending c' (happ ▸ hc')
    rw [hct, hphase] at hold
    left
    rw [hfin, List.mem_append]
    exact hold
  · rw [hstart, hfin]
    exact List.append_subset.mpr ⟨hinv.finishedSub, by simpa using hstarted⟩
  · rw [hfin]
    exact List.Nodup.append hinv.finishedOnce (List.nodup_singleton c) (by simpa using hunfinished)
  · intro hheld
    cases hsub : c.submitter with
    | memcpyAsync => rw [hsub] at hheld; cases hheld
    | launchKernel => exact hsub
  · intro t' _ hheld
    cases hsub : c.submitter with
    | memcpyAsync => rw [hsub] at hheld; cases hheld
    | launchKernel => rwa [hsub] at hheld

theorem StreamInv.ret (hinv : StreamInv es s) {cmd : Command}
    (hphase : s.phase t = .looping cmd []) :
    StreamInv (es ++ [.ret cmd])
      { s.moveTo t .outside with
        globalMutex := if cmd.submitter = .launchKernel then none else s.globalMutex } := by
  have hsound := hinv.phases t
  rw [hphase] at hsound
  refine hinv.silent (t := t) hsound.1 rfl rfl rfl rfl rfl trivial (by rw [hphase]; rfl)
    (hinv.numbered_update (fun _ hc' => .inl hc') (by simp)) (hinv.holder_update ?_ ?_)
  · intro hheld
    rw [Option.ite_none_left_eq_some] at hheld
    have hmay := hinv.holder t hheld.2
    rw [hphase] at hmay
    exact absurd hmay hheld.1
  · intro t' _ hheld
    exact (Option.ite_none_left_eq_some.mp hheld).2

theorem StreamInv.step (hinv : StreamInv es s) (hstep : SubmitStep s e u) :
    StreamInv (es ++ [e]) u := by
  cases hstep with
  | callMemcpy t stream hout =>
    refine hinv.call rfl rfl hout ?_ (fun _ _ hheld => hheld)
    intro hheld
    have hmay := hinv.holder t hheld
    rw [hout] at hmay
    exact hmay.elim
  | callLaunch t stream hout hfree =>
    refine hinv.call rfl rfl hout (fun _ => rfl) ?_
    intro t' hne hheld
    exact absurd (Option.some.inj hheld).symm hne
  | append t cmd hphase => exact hinv.append hphase
  | start t cmd c toRun hphase => exact hinv.start hphase
  | lock t cmd c toRun hphase _ => exact hinv.lock hphase
  | finish t cmd c toRun threw hphase => exact hinv.finish hphase
  | ret t cmd hphase => exact hinv.ret hphase

theorem streamInv_run (hrun : Run SubmitStep {} es s) : StreamInv es s :=
  hrun.invariant .init fun _ _ _ _ hinv hstep => hinv.step hstep

end Step

/-! ### Exactly once -/

structure RunsOnce (es : List StreamEvent) : Prop where
  startedOnce : (started es).Nodup
  finishedOnce : (finished es).Nodup
  appendedFirst : ∀ before after c, es = before ++ .start c :: after → c ∈ appended before
  startedFirst : ∀ before after c threw, es = before ++ .finish c threw :: after →
    c ∈ started before
  beforeReturn : ∀ before after cmd, es = before ++ .ret cmd :: after → cmd ∈ finished before

theorem runs_once {es : List StreamEvent} {s : StreamSystem} (hrun : Run SubmitStep {} es s) :
    RunsOnce es := by
  have hinv := streamInv_run hrun
  refine
    { startedOnce := hinv.startedOnce
      finishedOnce := hinv.finishedOnce
      appendedFirst := ?_
      startedFirst := ?_
      beforeReturn := ?_ }
  · rintro before after c rfl
    obtain ⟨s₁, s₂, hbefore, hstep, -⟩ := hrun.split_cons
    cases hstep with
    | start t cmd c toRun hphase =>
      have hsound := (streamInv_run hbefore).phases t
      rw [hphase] at hsound
      obtain ⟨htoRun, hmem, -⟩ := hsound.2.resolve_right fun h => absurd h.1 (List.cons_ne_nil _ _)
      rwa [(List.cons.inj htoRun).1]
  · rintro before after c threw rfl
    obtain ⟨s₁, s₂, hbefore, hstep, -⟩ := hrun.split_cons
    cases hstep with
    | finish t cmd c toRun threw hphase =>
      have hsound := (streamInv_run hbefore).phases t
      rw [hphase] at hsound
      obtain ⟨-, rfl, -, hmem, -⟩ := hsound
      exact hmem
  · rintro before after cmd rfl
    obtain ⟨s₁, s₂, hbefore, hstep, -⟩ := hrun.split_cons
    cases hstep with
    | ret t cmd hphase =>
      have hsound := (streamInv_run hbefore).phases t
      rw [hphase] at hsound
      exact (hsound.2.resolve_left fun h => absurd h.1.symm (List.cons_ne_nil _ _)).2

/-- Some thread that is in a `submit` can go on with it, if any thread is in one. -/
def StreamSystem.CanProceed (s : StreamSystem) : Prop :=
  ∀ t, s.phase t ≠ .outside →
    ∃ e u, SubmitStep s e u ∧ s.phase e.command.thread ≠ .outside

/-- A thread in a phase that may hold the mutex needs nothing to go on. -/
theorem StreamInv.proceeds {es : List StreamEvent} {s : StreamSystem} (hinv : StreamInv es s)
    {t : ThreadId} (hin : s.phase t ≠ .outside) (hwaits : ∀ cmd c toRun,
      s.phase t ≠ .waiting cmd c toRun) :
    ∃ e u, SubmitStep s e u ∧ e.command.thread = t := by
  have hsound := hinv.phases t
  cases hphase : s.phase t with
  | outside => exact absurd hphase hin
  | entered cmd =>
    rw [hphase] at hsound
    exact ⟨_, _, .append t cmd hphase, hsound.1⟩
  | looping cmd toRun =>
    rw [hphase] at hsound
    obtain ⟨ht, ⟨rfl, -, -⟩ | ⟨rfl, -⟩⟩ := hsound
    · exact ⟨_, _, .start t cmd cmd [] hphase, ht⟩
    · exact ⟨_, _, .ret t cmd hphase, ht⟩
  | waiting cmd c toRun => exact absurd hphase (hwaits cmd c toRun)
  | running cmd c toRun =>
    rw [hphase] at hsound
    obtain ⟨ht, rfl, -⟩ := hsound
    exact ⟨_, _, .finish t c c toRun false hphase, ht⟩

theorem can_proceed {es : List StreamEvent} {s : StreamSystem} (hrun : Run SubmitStep {} es s) :
    s.CanProceed := by
  have hinv := streamInv_run hrun
  intro t hin
  by_cases hwaits : ∀ cmd c toRun, s.phase t ≠ .waiting cmd c toRun
  · obtain ⟨e, u, hstep, ht⟩ := hinv.proceeds hin hwaits
    exact ⟨e, u, hstep, ht ▸ hin⟩
  · push Not at hwaits
    obtain ⟨cmd, c, toRun, hphase⟩ := hwaits
    cases hheld : s.globalMutex with
    | none =>
      have hsound := hinv.phases t
      rw [hphase] at hsound
      obtain ⟨ht, rfl, -⟩ := hsound
      exact ⟨_, _, .lock t c c toRun hphase hheld, by rw [← ht] at hin; exact hin⟩
    | some t' =>
      -- whoever holds the mutex is not waiting for it
      have hmay := hinv.holder t' hheld
      have hin' : s.phase t' ≠ .outside := by
        intro hout
        rw [hout] at hmay
        exact hmay
      have hwaits' : ∀ cmd c toRun, s.phase t' ≠ .waiting cmd c toRun := by
        intro cmd c toRun hphase'
        rw [hphase'] at hmay
        exact hmay
      obtain ⟨e, u, hstep, ht⟩ := hinv.proceeds hin' hwaits'
      exact ⟨e, u, hstep, ht ▸ hin'⟩

/-! ### The order of a stream -/

/-- A command starts when those appended to its stream before it have finished. -/
def InOrder (es : List StreamEvent) : Prop :=
  ∀ before mid after c c', es = before ++ .append c' :: (mid ++ .start c' :: after) →
    c ∈ appended before → c.stream = c'.stream → c ∈ finished (before ++ .append c' :: mid)

/-- No command of the stream is queued, or taken and still to finish. -/
def StreamSystem.Idle (s : StreamSystem) (stream : CudaStream) : Prop :=
  s.sched.queues stream = [] ∧ ∀ t, ∀ c ∈ (s.phase t).pending, c.stream ≠ stream

/-- The event appends to an idle stream, if it appends. -/
def Uncontended (s : StreamSystem) : StreamEvent → Prop
  | .append cmd => s.Idle cmd.stream
  | _ => True

def UncontendedStep (s : StreamSystem) (e : StreamEvent) (u : StreamSystem) : Prop :=
  SubmitStep s e u ∧ Uncontended s e

theorem in_order {es : List StreamEvent} {s : StreamSystem}
    (hrun : Run UncontendedStep {} es s) : InOrder es := by
  rintro before mid after c c' rfl hmem hstream
  obtain ⟨s₁, s₂, hbefore, ⟨-, hidle⟩, -⟩ := hrun.split_cons
  have hinv := streamInv_run (hbefore.mono fun _ _ _ hstep => hstep.1)
  rw [finished_append, List.mem_append]
  refine .inl ((hinv.pending c hmem).resolve_right ?_)
  exact fun hpending => hidle.2 c.thread c hpending hstream

theorem StreamInv.of_pending {es : List StreamEvent} {s : StreamSystem} (hinv : StreamInv es s)
    {t : ThreadId} {c : Command} (hc : c ∈ (s.phase t).pending) :
    c ∈ appended es ∧ c ∉ finished es := by
  have hsound := hinv.phases t
  cases hphase : s.phase t with
  | outside =>
    rw [hphase] at hc
    cases hc
  | entered cmd =>
    rw [hphase] at hc
    cases hc
  | looping cmd toRun =>
    rw [hphase] at hc hsound
    obtain ⟨-, ⟨rfl, hmem, hfresh⟩ | ⟨rfl, -⟩⟩ := hsound
    · obtain rfl := List.mem_singleton.mp hc
      exact ⟨hmem, fun h => hfresh (hinv.finishedSub h)⟩
    · cases hc
  | waiting cmd c' toRun =>
    rw [hphase] at hc hsound
    obtain ⟨-, rfl, rfl, -, hstarted, hunfinished⟩ := hsound
    obtain rfl := List.mem_singleton.mp hc
    exact ⟨hinv.startedSub hstarted, hunfinished⟩
  | running cmd c' toRun =>
    rw [hphase] at hc hsound
    obtain ⟨-, rfl, rfl, hstarted, hunfinished⟩ := hsound
    obtain rfl := List.mem_singleton.mp hc
    exact ⟨hinv.startedSub hstarted, hunfinished⟩

/-- A command that joins a stream with one to finish may start at once, out of order. -/
theorem contended_append_out_of_order {es : List StreamEvent} {s u : StreamSystem} {cmd : Command}
    (hrun : Run SubmitStep {} es s) (hstep : SubmitStep s (.append cmd) u)
    (hcontended : ¬Uncontended s (.append cmd)) :
    ∃ u', SubmitStep u (.start cmd) u' ∧ ¬InOrder (es ++ [.append cmd] ++ [.start cmd]) := by
  have hinv := streamInv_run hrun
  obtain ⟨t, c, hc, hstream⟩ : ∃ t, ∃ c ∈ (s.phase t).pending, c.stream = cmd.stream := by
    by_contra hnone
    push Not at hnone
    exact hcontended ⟨hinv.queues _, hnone⟩
  have happended := hinv.of_pending hc
  have hviolated : ¬InOrder (es ++ [.append cmd] ++ [.start cmd]) := by
    intro horder
    have hfinished := horder es [] [] c cmd (by simp) happended.1 hstream
    rw [finished_append, List.mem_append] at hfinished
    rcases hfinished with h | h
    · exact happended.2 h
    · simp [finished] at h
  cases hstep with
  | append t cmd hphase =>
    refine ⟨_, .start t cmd cmd [] ?_, hviolated⟩
    dsimp only [StreamSystem.moveTo]
    rw [Function.update_self, (enqueue_of_empty hinv.queues cmd).1]

/-- **Same-stream order.** When no command joins a stream that has one to finish, the commands of a
stream run in the order in which they were appended; each runs exactly once, before its `submit`
returns, and the threads are never stuck. -/
theorem same_stream_order {es : List StreamEvent} {s : StreamSystem}
    (hrun : Run UncontendedStep {} es s) : RunsOnce es ∧ InOrder es ∧ s.CanProceed := by
  have hplain : Run SubmitStep {} es s := hrun.mono fun _ _ _ hstep => hstep.1
  exact ⟨runs_once hplain, in_order hrun, can_proceed hplain⟩

/-- The first asynchronous copy of a thread. -/
def copyOf (t : ThreadId) (stream : CudaStream) : Command := ⟨t, 0, stream, .memcpyAsync⟩

/-- Two threads copy on one stream; the second copy joins it when the first has finished. -/
def oneByOne : List StreamEvent :=
  [.call (copyOf 0 1), .call (copyOf 1 1), .append (copyOf 0 1), .start (copyOf 0 1),
    .lock (copyOf 0 1), .finish (copyOf 0 1) false, .append (copyOf 1 1), .start (copyOf 1 1),
    .lock (copyOf 1 1), .finish (copyOf 1 1) false]

theorem same_stream_order_one_by_one :
    ∃ s, Run UncontendedStep {} oneByOne s ∧ started oneByOne = [copyOf 0 1, copyOf 1 1]
      ∧ RunsOnce oneByOne ∧ InOrder oneByOne := by
  have hrun : ∃ s, Run UncontendedStep {} oneByOne s := by
    have hfirst : Run UncontendedStep {} [.call (copyOf 0 1), .call (copyOf 1 1)] _ :=
      (Run.start.next ⟨.callMemcpy 0 1 rfl, trivial⟩).next ⟨.callMemcpy 1 1 rfl, trivial⟩
    have hcopied := (((hfirst.next ⟨.append 0 (copyOf 0 1) rfl, rfl, ?_⟩).next
      ⟨.start 0 (copyOf 0 1) (copyOf 0 1) [] rfl, trivial⟩).next
      ⟨.lock 0 (copyOf 0 1) (copyOf 0 1) [] rfl rfl, trivial⟩).next
      ⟨.finish 0 (copyOf 0 1) (copyOf 0 1) [] false rfl, trivial⟩
    refine ⟨_, (((hcopied.next ⟨.append 1 (copyOf 1 1) rfl, rfl, ?_⟩).next
      ⟨.start 1 (copyOf 1 1) (copyOf 1 1) [] rfl, trivial⟩).next
      ⟨.lock 1 (copyOf 1 1) (copyOf 1 1) [] rfl rfl, trivial⟩).next
      ⟨.finish 1 (copyOf 1 1) (copyOf 1 1) [] false rfl, trivial⟩⟩
    all_goals
      intro t c hc
      match t with
      | 0 => cases hc
      | 1 => cases hc
      | t + 2 => cases hc
  obtain ⟨s, hrun⟩ := hrun
  obtain ⟨honce, horder, -⟩ := same_stream_order hrun
  exact ⟨s, hrun, rfl, honce, horder⟩

/-- Two threads copy on one stream, and the copy appended last starts first. -/
theorem second_submit_overtakes :
    ∃ s, Run SubmitStep {} [.call (copyOf 0 0), .append (copyOf 0 0), .call (copyOf 1 0),
        .append (copyOf 1 0), .start (copyOf 1 0)] s ∧
      ¬InOrder [.call (copyOf 0 0), .append (copyOf 0 0), .call (copyOf 1 0),
        .append (copyOf 1 0), .start (copyOf 1 0)] := by
  refine ⟨_, ((((Run.start.next (.callMemcpy 0 0 rfl)).next (.append 0 (copyOf 0 0) rfl)).next
    (.callMemcpy 1 0 rfl)).next (.append 1 (copyOf 1 0) rfl)).next
    (.start 1 (copyOf 1 0) (copyOf 1 0) [] rfl), ?_⟩
  intro horder
  have hfinished := horder [.call (copyOf 0 0), .append (copyOf 0 0), .call (copyOf 1 0)] [] []
    (copyOf 0 0) (copyOf 1 0) rfl (by decide) rfl
  exact absurd hfinished (by decide)

end ProtoGpu

import ProtoGpu.Lib.EventGraph
import ProtoGpu.Proof.WorkloadSchema
import ProtoGpu.Proof.JsonDocuments
import ProtoGpu.Proof.ParserRun
import ProtoGpu.Runtime.Workload

/-!
# The workload schedule

Round after round each stream runs its head, unless that waits for an event that is not signaled
yet. The rounds end, and they leave a command behind only when no order of all the commands could
run it.
-/

namespace ProtoGpu.Workload

open Throwing

open EventGraph

/-! ### Commands and events -/

/-- The streams, and the events by their names. -/
def eventSystem : System Command StreamId Text where
  queueOf := Command.streamId
  signals cmd :=
    match cmd.kind with
    | .eventRecord ev => some ev.eventName
    | _ => none
  waits cmd :=
    match cmd.kind with
    | .eventWait ev => some ev.eventName
    | _ => none

/-- Streams and events are what their ids say. -/
structure WellQueued (p : Prepared) : Prop where
  home : ∀ sid, ∀ cmd ∈ p.queue sid, cmd.streamId = sid
  listed : ∀ sid, p.queue sid ≠ [] → sid ∈ p.streamIds
  events : ∀ sid, ∀ cmd ∈ p.queue sid, ∀ sid', ∀ cmd' ∈ p.queue sid', ∀ ev ev',
    cmd.event = some ev → cmd'.event = some ev' →
      (ev.eventId = ev'.eventId ↔ ev.eventName = ev'.eventName)

/-- The number of commands. -/
def Prepared.size (p : Prepared) : Nat := (p.streamIds.map fun sid => (p.queue sid).length).sum

section Schedule

variable {env : Env} {run : RunKernel} {devBufs : DeviceBufs} {p : Prepared}
  {st st' : ScheduleState}
  {cmd : Command} {sid : StreamId} {rest : List Command}

/-! ### One command -/

/-- What the events are after a command. -/
def signaledAfter (cmd : Command) (signaled : EventId → Bool) : EventId → Bool :=
  match cmd.kind with
  | .eventRecord ev => Function.update signaled ev.eventId true
  | _ => signaled

/-- The schedule sees a command by its event only. -/
structure Executed (cmd : Command) (st st' : ScheduleState) : Prop where
  queue : st'.queue = st.queue
  executed : st'.executed = st.executed
  signaled : st'.signaled = signaledAfter cmd st.signaled

/-- A command records an event, or leaves the flags. -/
theorem record_or_plain (cmd : Command) :
    (∃ ev, cmd.event = some ev ∧ eventSystem.signals cmd = some ev.eventName
      ∧ ∀ signaled, signaledAfter cmd signaled = Function.update signaled ev.eventId true)
    ∨ (eventSystem.signals cmd = none ∧ ∀ signaled, signaledAfter cmd signaled = signaled) := by
  unfold signaledAfter Command.event eventSystem
  dsimp only
  cases cmd.kind with
  | eventRecord ev => exact .inl ⟨ev, rfl, rfl, fun _ => rfl⟩
  | copy cp => exact .inr ⟨rfl, fun _ => rfl⟩
  | kernel kp => exact .inr ⟨rfl, fun _ => rfl⟩
  | eventWait ev => exact .inr ⟨rfl, fun _ => rfl⟩
  | sync => exact .inr ⟨rfl, fun _ => rfl⟩

theorem execute_ok (hexec : execute env run devBufs cmd st = .ok st') : Executed cmd st st' := by
  unfold execute at hexec
  have hsignaled : st'.signaled = signaledAfter cmd st.signaled ∧ st'.queue = st.queue
      ∧ st'.executed = st.executed := by
    unfold signaledAfter
    cases hkind : cmd.kind with
    | copy cp =>
        rw [hkind] at hexec
        dsimp only at hexec
        split at hexec
        · cases hexec
        · cases hexec
          exact ⟨rfl, rfl, rfl⟩
    | kernel kp =>
        rw [hkind] at hexec
        dsimp only at hexec
        repeat' split at hexec
        all_goals first
          | cases hexec; exact ⟨rfl, rfl, rfl⟩
          | cases hexec
    | eventRecord ev =>
        rw [hkind] at hexec
        cases hexec
        exact ⟨rfl, rfl, rfl⟩
    | eventWait ev =>
        rw [hkind] at hexec
        cases hexec
        exact ⟨rfl, rfl, rfl⟩
    | sync =>
        rw [hkind] at hexec
        cases hexec
        exact ⟨rfl, rfl, rfl⟩
  exact ⟨hsignaled.2.1, hsignaled.2.2, hsignaled.1⟩

/-- A command fails by itself, never by a deadlock. -/
theorem execute_error {e : Exit} (hexec : execute env run devBufs cmd st = .error e)
    (steps : BitVec 64) : e ≠ .deadlock steps := by
  rintro rfl
  unfold execute at hexec
  repeat' split at hexec
  all_goals cases hexec

/-! ### The invariant -/

/-- The schedule so far respects the events, and the flags say which are signaled. -/
structure ScheduleInv (p : Prepared) (st : ScheduleState) : Prop where
  progress : eventSystem.Progress p.queue st.queue st.executed
  flags : ∀ sid, ∀ cmd ∈ p.queue sid, ∀ ev, cmd.event = some ev →
    (st.signaled ev.eventId = true ↔ eventSystem.Signaled st.executed ev.eventName)

theorem ScheduleInv.mem (h : ScheduleInv p st) (hcmd : cmd ∈ st.queue sid) : cmd ∈ p.queue sid := by
  rw [← h.progress.fifo sid]
  exact List.mem_append_right _ hcmd

theorem event_of_waits {name : Text} (hwaits : eventSystem.waits cmd = some name) :
    ∃ ev, cmd.kind = .eventWait ev ∧ cmd.event = some ev ∧ ev.eventName = name := by
  unfold eventSystem at hwaits
  dsimp only at hwaits
  split at hwaits
  · next ev hkind =>
    refine ⟨ev, hkind, ?_, Option.some.inj hwaits⟩
    rw [Command.event, hkind]
    rfl
  · cases hwaits

/-- A head that does not wait in vain is ready. -/
theorem ScheduleInv.ready_iff (h : ScheduleInv p st) (hcmd : cmd ∈ p.queue sid) :
    ready st cmd = true ↔ ∀ name, eventSystem.waits cmd = some name →
      eventSystem.Signaled st.executed name := by
  constructor
  · intro hready name hwaits
    obtain ⟨ev, hkind, hevent, rfl⟩ := event_of_waits hwaits
    rw [ready, hkind] at hready
    exact (h.flags sid cmd hcmd ev hevent).mp hready
  · intro hwaits
    unfold ready
    split
    · next ev hkind =>
      have hevent : cmd.event = some ev := by rw [Command.event, hkind]; rfl
      refine (h.flags sid cmd hcmd ev hevent).mpr (hwaits _ ?_)
      unfold eventSystem
      dsimp only
      rw [hkind]
    · rfl

theorem signaled_snoc {ran : List Command} {name : Text} :
    eventSystem.Signaled (ran ++ [cmd]) name
      ↔ eventSystem.Signaled ran name ∨ eventSystem.signals cmd = some name := by
  unfold System.Signaled
  simp [or_and_right, exists_or]

theorem ScheduleInv.start (p : Prepared) : ScheduleInv p p.start where
  progress := .start p.queue
  flags sid cmd _ ev _ := by
    refine iff_of_false Bool.false_ne_true ?_
    rintro ⟨r, hr, -⟩
    exact List.not_mem_nil hr

/-- The head of a stream runs. -/
theorem ScheduleInv.step (h : ScheduleInv p st) (hwell : WellQueued p)
    (hhead : st.queue sid = cmd :: rest) (hready : ready st cmd = true)
    (hexec : Executed cmd st st') :
    ScheduleInv p { st' with
      queue := Function.update st'.queue sid rest
      executed := st'.executed ++ [cmd] } := by
  have hcmd : cmd ∈ p.queue sid := h.mem (by rw [hhead]; exact List.mem_cons_self)
  constructor
  · dsimp only
    rw [hexec.queue, hexec.executed]
    exact h.progress.step hhead (hwell.home sid cmd hcmd) ((h.ready_iff hcmd).mp hready)
  · intro sid' cmd' hcmd' ev' hev'
    dsimp only
    rw [hexec.executed, hexec.signaled, signaled_snoc, ← h.flags sid' cmd' hcmd' ev' hev']
    rcases record_or_plain cmd with ⟨ev, hevent, hsignals, hafter⟩ | ⟨hsignals, hafter⟩
    · have hids := hwell.events sid' cmd' hcmd' sid cmd hcmd ev' ev hev' hevent
      rw [hafter, hsignals, Function.update_apply, Option.some.injEq]
      by_cases hsame : ev'.eventId = ev.eventId
      · rw [if_pos hsame]
        exact iff_of_true rfl (.inr (hids.mp hsame).symm)
      · rw [if_neg hsame]
        exact (or_iff_left fun hname => hsame (hids.mpr hname.symm)).symm
    · rw [hafter, hsignals]
      exact (or_iff_left nofun).symm

/-! ### A round -/

/-- What the turn of a stream does. -/
inductive TurnEffect (p : Prepared) (round round' : Round) (sid : StreamId) : Prop where
  | empty (hqueue : round.st.queue sid = []) (hsame : round' = round)
  | waits (cmd : Command) (rest : List Command) (hqueue : round.st.queue sid = cmd :: rest)
      (hready : ready round.st cmd = false) (hsame : round' = { round with anyRemaining := true })
  | runs (hqueue : round.st.queue sid ≠ []) (hinv : ScheduleInv p round'.st)
      (hlength : round'.st.executed.length = round.st.executed.length + 1)
      (hany : round'.anyRemaining = true) (hprogressed : round'.progressed = true)

variable {round round' : Round}

theorem turn_effect (hwell : WellQueued p) (hinv : ScheduleInv p round.st)
    (hturn : turn env run devBufs round sid = .ok round') : TurnEffect p round round' sid := by
  unfold turn at hturn
  split at hturn
  · next hqueue =>
    cases hturn
    exact .empty hqueue rfl
  · next cmd rest hqueue =>
    split at hturn
    · next hready =>
      split at hturn
      · cases hturn
      · next st' hexec =>
        cases hturn
        have hexecuted := execute_ok hexec
        refine .runs (by rw [hqueue]; nofun) (hinv.step hwell hqueue hready hexecuted) ?_ rfl rfl
        dsimp only
        rw [List.length_append, hexecuted.executed]
        rfl
    · next hready =>
      cases hturn
      exact .waits cmd rest hqueue (Bool.eq_false_of_not_eq_true hready) rfl

theorem turn_error {e : Exit} (hturn : turn env run devBufs round sid = .error e)
    (steps : BitVec 64) : e ≠ .deadlock steps := by
  unfold turn at hturn
  split at hturn
  · cases hturn
  · split at hturn
    · split at hturn
      · next hexec =>
        cases hturn
        exact execute_error hexec steps
      · cases hturn
    · cases hturn

/-- What a round does to the streams it visits. -/
structure RoundEffect (p : Prepared) (sids : List StreamId) (round round' : Round) : Prop where
  inv : ScheduleInv p round'.st
  grows : round.st.executed.length ≤ round'.st.executed.length
  /-- Progress is a command more. -/
  progress : round.progressed = false → round'.progressed = true →
    round.st.executed.length < round'.st.executed.length
  /-- Without progress every head waits. -/
  idle : round'.progressed = false → round'.st = round.st ∧
    ∀ sid ∈ sids, ∀ cmd rest, round.st.queue sid = cmd :: rest → ready round.st cmd = false
  /-- Nothing remains when all are empty. -/
  ended : round'.anyRemaining = false → round'.st = round.st ∧ ∀ sid ∈ sids, round.st.queue sid = []
  /-- When something remains and nothing ran, some queue is not empty. -/
  remains : round.anyRemaining = false → round'.anyRemaining = true → round'.progressed = false →
    ∃ sid ∈ sids, round.st.queue sid ≠ []
  /-- The flags are only raised. -/
  raised : (round.progressed = true → round'.progressed = true)
    ∧ (round.anyRemaining = true → round'.anyRemaining = true)

theorem RoundEffect.nil (hinv : ScheduleInv p round.st) : RoundEffect p [] round round where
  inv := hinv
  grows := le_rfl
  progress h h' := absurd (h.symm.trans h') Bool.false_ne_true
  idle _ := ⟨rfl, fun _ h => absurd h List.not_mem_nil⟩
  ended _ := ⟨rfl, fun _ h => absurd h List.not_mem_nil⟩
  remains h h' := absurd (h.symm.trans h') Bool.false_ne_true
  raised := ⟨id, id⟩

theorem RoundEffect.cons {sids : List StreamId} {mid : Round} (hinv : ScheduleInv p round.st)
    (hturn : TurnEffect p round mid sid)
    (hrest : ScheduleInv p mid.st → RoundEffect p sids mid round') :
    RoundEffect p (sid :: sids) round round' := by
  cases hturn with
  | empty hqueue hsame =>
      subst hsame
      have h := hrest hinv
      refine ⟨h.inv, h.grows, h.progress, fun hidle => ⟨(h.idle hidle).1, ?_⟩,
        fun hended => ⟨(h.ended hended).1, ?_⟩, fun hnone hany hidle => ?_, h.raised⟩
      · refine List.forall_mem_cons.mpr ⟨fun cmd rest hhead => ?_, (h.idle hidle).2⟩
        rw [hqueue] at hhead
        cases hhead
      · exact List.forall_mem_cons.mpr ⟨hqueue, (h.ended hended).2⟩
      · obtain ⟨sid', hsid', hne⟩ := h.remains hnone hany hidle
        exact ⟨sid', List.mem_cons_of_mem sid hsid', hne⟩
  | waits cmd rest hqueue hready hsame =>
      subst hsame
      have h := hrest hinv
      refine ⟨h.inv, h.grows, h.progress, fun hidle => ⟨(h.idle hidle).1, ?_⟩, fun hended => ?_,
        fun _ _ _ => ⟨sid, List.mem_cons_self, by rw [hqueue]; nofun⟩, h.raised.1, fun _ =>
          h.raised.2 rfl⟩
      · refine List.forall_mem_cons.mpr ⟨fun cmd' rest' hhead => ?_, (h.idle hidle).2⟩
        rw [hqueue] at hhead
        cases hhead
        exact hready
      · exact absurd (hended.symm.trans (h.raised.2 rfl)) Bool.false_ne_true
  | runs hqueue hmid hlength hany hprogressed =>
      have h := hrest hmid
      have hgrows := h.grows
      refine ⟨h.inv, by omega, fun _ _ => by omega, fun hidle => ?_, fun hended => ?_,
        fun _ _ _ => ⟨sid, List.mem_cons_self, hqueue⟩, fun _ => h.raised.1 hprogressed,
        fun _ => h.raised.2 hany⟩
      · exact absurd (hidle.symm.trans (h.raised.1 hprogressed)) Bool.false_ne_true
      · exact absurd (hended.symm.trans (h.raised.2 hany)) Bool.false_ne_true

theorem round_effect (hwell : WellQueued p) {sids : List StreamId} (hinv : ScheduleInv p round.st)
    (hround : sids.foldlM (turn env run devBufs) round = .ok round') :
    RoundEffect p sids round round' := by
  induction sids generalizing round with
  | nil =>
      obtain rfl : round = round' := by simpa [pure, Except.pure] using hround
      exact .nil hinv
  | cons sid sids ih =>
      obtain ⟨mid, hturn, hrest⟩ := foldlM_cons_ok.mp hround
      exact .cons hinv (turn_effect hwell hinv hturn) fun hmid => ih hmid hrest

theorem round_error {sids : List StreamId} {e : Exit}
    (hround : sids.foldlM (turn env run devBufs) round = .error e) (steps : BitVec 64) :
    e ≠ .deadlock steps := by
  induction sids generalizing round with
  | nil => cases hround
  | cons sid sids ih =>
      rw [List.foldlM_cons] at hround
      cases hturn : turn env run devBufs round sid with
      | error e' =>
          rw [hturn] at hround
          cases hround
          exact turn_error hturn steps
      | ok mid =>
          rw [hturn] at hround
          exact ih hround

/-! ### The run -/

/-- How a schedule ends. -/
inductive ScheduleEnd (p : Prepared) : Except Exit ScheduleState → Prop where
  | failed (e : Exit) (hfail : ∀ steps, e ≠ .deadlock steps) : ScheduleEnd p (.error e)
  | deadlock (steps : BitVec 64) (hnone : ¬ ∃ order, eventSystem.Schedules p.queue order) :
      ScheduleEnd p (.error (.deadlock steps))
  | completed (st : ScheduleState) (horder : eventSystem.Schedules p.queue st.executed) :
      ScheduleEnd p (.ok st)

/-- A queue no stream id names is empty. -/
theorem ScheduleInv.unlisted (h : ScheduleInv p st) (hwell : WellQueued p)
    (hsid : sid ∉ p.streamIds) : st.queue sid = [] := by
  have hfifo := h.progress.fifo sid
  rw [not_imp_comm.mp (hwell.listed sid) hsid, List.append_eq_nil_iff] at hfifo
  exact hfifo.2

theorem runSchedule_end (hwell : WellQueued p) (hinv : ScheduleInv p st) {fuel : Nat}
    (hfuel : p.size < st.executed.length + fuel) :
    ∃ r, runSchedule env run p fuel st = some r ∧ ScheduleEnd p r := by
  have hsize : st.executed.length ≤ p.size := hinv.progress.length_le hwell.listed
  induction fuel generalizing st with
  | zero => omega
  | succ fuel ih =>
      rw [runSchedule]
      cases hround : p.streamIds.foldlM (turn env run p.devBufs) { st := st } with
      | error e => exact ⟨_, rfl, .failed e (round_error hround)⟩
      | ok round' =>
          have heffect := round_effect hwell hinv hround
          dsimp only
          split
          · next hended =>
            obtain ⟨hsame, hempty⟩ := heffect.ended (by simpa using hended)
            refine ⟨_, rfl, .completed _ ?_⟩
            rw [hsame]
            refine hinv.progress.complete fun sid => ?_
            by_cases hsid : sid ∈ p.streamIds
            · exact hempty sid hsid
            · exact hinv.unlisted hwell hsid
          · split
            · next hremains hidle =>
              obtain ⟨hsame, hheads⟩ := heffect.idle (by simpa using hidle)
              refine ⟨_, rfl, .deadlock _ ?_⟩
              rintro ⟨order, horder⟩
              have hstuck : ∀ sid cmd rest, st.queue sid = cmd :: rest →
                  ∃ name, eventSystem.waits cmd = some name ∧
                    ¬ eventSystem.Signaled st.executed name := by
                intro sid cmd rest hhead
                have hcmd : cmd ∈ p.queue sid := hinv.mem (by rw [hhead]; exact List.mem_cons_self)
                have hsid : sid ∈ p.streamIds := hwell.listed sid (List.ne_nil_of_mem hcmd)
                have hnot := hheads sid hsid cmd rest hhead
                by_contra hall
                have hready := (hinv.ready_iff hcmd).mpr fun name hwaits =>
                  by_contra fun hsignaled => hall ⟨name, hwaits, hsignaled⟩
                exact Bool.false_ne_true (hnot.symm.trans hready)
              obtain ⟨sid, -, hne⟩ :=
                heffect.remains rfl (by simpa using hremains) (by simpa using hidle)
              exact hne (hinv.progress.stuck hstuck horder sid)
            · next hprogress =>
              have hmore := heffect.progress rfl (by simpa using hprogress)
              have hle : round'.st.executed.length ≤ p.size :=
                heffect.inv.progress.length_le hwell.listed
              dsimp only at hmore
              exact ih heffect.inv (by omega) hle

end Schedule

/-! ### The queues of a document -/

section Queues

variable {env : Env} {rt : Runtime} {res : Resources} {kind : CommandKind} {ev : EventPayload}

/-- The event has the id of its name. -/
def EventKnown (ids : List (Text × EventId)) (kind : CommandKind) : Prop :=
  ∀ ev, kind.event = some ev → ids.lookup ev.eventName = some ev.eventId

theorem parseEvent_known {cv : Json.Value} {what : String}
    (hparse : parseEvent res cv what = .ok ev) : res.eventIds.lookup ev.eventName
      = some ev.eventId := by
  obtain ⟨eo, -, hparse⟩ := bind_ok.mp hparse
  obtain ⟨v, -, hparse⟩ := bind_ok.mp hparse
  obtain ⟨name, -, hparse⟩ := bind_ok.mp hparse
  split at hparse
  · cases hparse
  · next id hlookup =>
    cases hparse
    exact hlookup

theorem parseCommand_known {cmdv : Json.Value} (hparse : parseCommand env res cmdv = .ok kind) :
    EventKnown res.eventIds kind := by
  obtain ⟨member, -, hparse⟩ := bind_ok.mp hparse
  intro ev hevent
  dsimp only at hparse
  split at hparse
  · obtain ⟨cp, -, hok⟩ := bind_ok.mp hparse
    cases hok
    cases hevent
  · split at hparse
    · obtain ⟨kp, -, hok⟩ := bind_ok.mp hparse
      cases hok
      cases hevent
    · split at hparse
      · obtain ⟨ev', hev, hok⟩ := bind_ok.mp hparse
        cases hok
        cases hevent
        exact parseEvent_known hev
      · split at hparse
        · obtain ⟨ev', hev, hok⟩ := bind_ok.mp hparse
          cases hok
          cases hevent
          exact parseEvent_known hev
        · split at hparse
          · cases hparse
            cases hevent
          · cases hparse

/-- Names with different ids differ, and ids of different names do. -/
theorem lookup_numbered_inj {names : List Text} {a b : Text} {i j : Nat}
    (ha : (numbered names).lookup a = some i) (hb : (numbered names).lookup b = some j) :
    i = j ↔ a = b := by
  have hmem : ∀ {c k}, (numbered names).lookup c = some k → 1 ≤ k ∧ names[k - 1]? = some c := by
    intro c k hlookup
    obtain ⟨front, back, hsplit, -⟩ := List.lookup_eq_some_iff.mp hlookup
    have hin : (c, k) ∈ numbered names := by
      rw [hsplit]
      exact List.mem_append_right _ List.mem_cons_self
    exact List.mem_zipIdx_iff_le_and_getElem?_sub.mp hin
  constructor
  · rintro rfl
    exact Option.some.inj ((hmem ha).2.symm.trans (hmem hb).2)
  · rintro rfl
    exact Option.some.inj (ha.symm.trans hb)

theorem wellQueued_prepare {path : Text} {p : Prepared} (hprepare : prepare env rt path = .ok p) :
    WellQueued p := by
  obtain ⟨decls, res, -, hp⟩ := prepare_parts hprepare
  have hqueued := hp.commands.2
  have hknown : ∀ sid, ∀ cmd ∈ p.queue sid, EventKnown (numbered decls.eventNames) cmd.kind := by
    intro sid cmd hcmd
    obtain ⟨-, cmdv, -, hread⟩ := hqueued sid cmd hcmd
    rw [← hp.eventIds]
    exact parseCommand_known hread.2
  refine ⟨fun sid cmd hcmd => ?_, fun sid hne => ?_, ?_⟩
  · obtain ⟨-, cmdv, -, hread⟩ := hqueued sid cmd hcmd
    exact hread.1
  · obtain ⟨cmd, hcmd⟩ := List.exists_mem_of_ne_nil _ hne
    exact (hqueued sid cmd hcmd).1
  · intro sid cmd hcmd sid' cmd' hcmd' ev ev' hev hev'
    exact lookup_numbered_inj (hknown sid cmd hcmd ev hev) (hknown sid' cmd' hcmd' ev' hev')

end Queues

/-! ### The law -/

/-- **Workload schedules.** A workload whose copies and kernels succeed ends, within one round more
than it has commands. It deadlocks exactly when no order of all the commands runs each stream from
its head and every wait behind a record of its event; otherwise the commands have run in such an
order. -/
theorem workload_schedule {env : Env} {run : RunKernel} {rt : Runtime} {path : Text} {p : Prepared}
    (hparses : prepare env rt path = .ok p)
    (hsucceed : ∀ fuel e, runSchedule env run p fuel p.start = some (.error e) →
      ∃ steps, e = .deadlock steps)
    {fuel : Nat} (hfuel : p.size < fuel) :
    ∃ sim, runWorkload env run rt path fuel = some sim
      ∧ (sim.diag.map Diagnostic.code = some "E_WORKLOAD_DEADLOCK"
        ↔ ¬ ∃ order, eventSystem.Schedules p.queue order)
      ∧ (sim.diag.map Diagnostic.code ≠ some "E_WORKLOAD_DEADLOCK" → sim.completed = true
        ∧ ∃ st, runSchedule env run p fuel p.start = some (.ok st)
          ∧ eventSystem.Schedules p.queue st.executed) := by
  have hwell := wellQueued_prepare hparses
  have hstart : p.size < p.start.executed.length + fuel := by
    rw [show p.start.executed.length = 0 from rfl]
    omega
  obtain ⟨r, hrun, hend⟩ : ∃ r, runSchedule env run p fuel p.start = some r ∧ ScheduleEnd p r :=
    runSchedule_end hwell (.start p) hstart
  refine ⟨scheduleResult r, by rw [runWorkload, hparses]; exact congrArg (Option.map _) hrun, ?_⟩
  cases hend with
  | failed e hfail =>
      obtain ⟨steps, hdeadlock⟩ := hsucceed fuel e hrun
      exact absurd hdeadlock (hfail steps)
  | deadlock steps hnone => exact ⟨iff_of_true rfl hnone, fun h => absurd rfl h⟩
  | completed st horder =>
      exact ⟨iff_of_false nofun fun h => h ⟨_, horder⟩, fun _ => ⟨rfl, st, hrun, horder⟩⟩

/-- The commands of a stream: the event of `e` by one of the two keys. -/
def oneEvent (key : String) : Json.Value :=
  .object
    [("commands".toList,
    .array [.object [(key.toList, .object [("event".toList, .string ['e'])])]])]

/-- Stream `a` waits for the event that stream `b` records. -/
def waitBeforeRecord : Json.Value :=
  .object
    [("buffers".toList, .object [("device".toList, .object []), ("host".toList, .object [])]),
      ("modules".toList, .object []),
      ("streams".toList,
        .object [(['a'], oneEvent "event_wait"), (['b'], oneEvent "event_record")])]

def fileEnv (v : Json.Value) : Env where
  files := fun _ => some (Json.stringify v)
  outOfRange := fun _ => 0
  hostFits := fun _ => true

def waitQueues : Prepared where
  rt := {}
  devBufs := []
  streamIds := [1, 2]
  queue := Function.update (Function.update (fun _ => [])
    1 [{ cmdId := 1, streamId := 1, kind := .eventWait { eventId := 1, eventName := ['e'] } }])
    2 [{ cmdId := 2, streamId := 2, kind := .eventRecord { eventId := 1, eventName := ['e'] } }]

theorem parseRoot_stringify {v : Json.Value} (hv : Json.NumberFree v) :
    parseRoot (Json.stringify v) = .ok v := by
  rw [parseRoot, Json.parse_stringify_numberFree hv]

theorem numberFree_oneEvent (key : String) : Json.NumberFree (oneEvent key) := by
  simp [oneEvent, Json.NumberFree, Json.NumberFreeMembers, Json.NumberFreeItems,
    Json.Sorted, Json.Keys]

theorem numberFree_waitBeforeRecord : Json.NumberFree waitBeforeRecord := by
  have hsorted : ∀ o : Json.Object, (Json.Keys o).Pairwise (· < ·) → Json.Sorted o := fun _ => id
  refine ⟨⟨⟨⟨⟨trivial, .nil⟩, ⟨trivial, .nil⟩, trivial⟩, hsorted _ (by decide)⟩, ⟨trivial, .nil⟩,
    ⟨⟨numberFree_oneEvent _, numberFree_oneEvent _, trivial⟩, hsorted _ (by decide)⟩, trivial⟩,
    hsorted _ (by decide)⟩

theorem prepare_waitBeforeRecord : prepare (fileEnv waitBeforeRecord) {} [] = .ok waitQueues := by
  have hroot : prepareRoot (fileEnv waitBeforeRecord) {} waitBeforeRecord = .ok waitQueues := rfl
  exact bind_ok.mpr ⟨Json.stringify waitBeforeRecord, rfl,
    bind_ok.mpr ⟨waitBeforeRecord, parseRoot_stringify numberFree_waitBeforeRecord, hroot⟩⟩

/-- No kernel is run. -/
def noKernel : RunKernel := fun rt _ _ => .ok ({ completed := true }, rt)

theorem runWorkload_crossing :
    runWorkload (fileEnv waitBeforeRecord) noKernel {} [] 3 = some { completed := true } := by
  rw [runWorkload, prepare_waitBeforeRecord]
  rfl

/-- The second round runs the wait. -/
theorem workload_schedule_crossing :
    ∃ st, runSchedule (fileEnv waitBeforeRecord) noKernel waitQueues 3 waitQueues.start
      = some (.ok st)
      ∧ eventSystem.Schedules waitQueues.queue st.executed := by
  have hsucceed : ∀ fuel e,
      runSchedule (fileEnv waitBeforeRecord) noKernel waitQueues fuel waitQueues.start
        = some (.error e) →
        ∃ steps, e = .deadlock steps := by
    intro fuel e hrun
    match fuel with
    | 0 => cases hrun
    | 1 => cases hrun
    | 2 => cases hrun
    | fuel + 3 => cases hrun
  have hlarge : waitQueues.size < 3 := by decide
  obtain ⟨sim, hrun, -, hdone⟩ := workload_schedule prepare_waitBeforeRecord hsucceed hlarge
  obtain rfl := Option.some.inj (runWorkload_crossing.symm.trans hrun)
  exact (hdone nofun).2

end ProtoGpu.Workload

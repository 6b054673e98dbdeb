import ProtoGpu.Proof.WorkloadSchedule
import ProtoGpu.Runtime.WorkloadTrace

/-!
# What the trace of a workload says

The events of a run, read from the first to the last: every command is queued under the next number,
then the commands run one after the other, each between its own marks, and only the last of them may
be left open.
-/

namespace ProtoGpu.Workload

open Logging
open Throwing

/-! ### The numbers of the events -/

def stamped (marks : List Mark) : List Event :=
  marks.mapIdx fun i m => m.event (BitVec.ofNat 64 (i + 1))

theorem foldl_add (marks : List Mark) :
    (marks.foldl StreamLog.add {}).events = stamped marks
      ∧ (marks.foldl StreamLog.add {}).ts = BitVec.ofNat 64 (marks.length + 1) := by
  induction marks using List.reverseRecOn with
  | nil => exact ⟨rfl, rfl⟩
  | append_singleton marks m ih =>
      rw [List.foldl_append, List.foldl_cons, List.foldl_nil, StreamLog.add, ih.1, ih.2]
      constructor
      · simp [stamped, List.mapIdx_append]
      · rw [List.length_append, List.length_singleton]
        exact (BitVec.ofNat_add ..).symm

/-! ### The marks of a command -/

def Command.mark (cmd : Command) (action : String) : Mark :=
  { action := action, streamId := cmd.streamId, cmd := cmd }

def enqMark (cmd : Command) : Mark := cmd.mark "cmd_enq"

def startMarks (cmd : Command) : List Mark := [cmd.mark "cmd_ready", cmd.mark "cmd_submit"]

def eventMarks (cmd : Command) : List Mark :=
  match cmd.kind with
  | .eventRecord _ => [cmd.mark "event_record"]
  | .eventWait _ => [cmd.mark "event_wait_done"]
  | _ => []

/-- The marks of a command that runs to its end. -/
def runMarks (cmd : Command) : List Mark :=
  startMarks cmd ++ eventMarks cmd ++ [cmd.mark "cmd_complete"]

/-! ### Queueing -/

/-- Commands under the numbers `1, 2, ...`. -/
def Numbered (cmds : List Command) : Prop :=
  cmds.map Command.cmdId = List.range' 1 cmds.length

theorem Numbered.snoc {cmds : List Command} {cmd : Command} (h : Numbered cmds)
    (hid : cmd.cmdId = 1 + cmds.length) : Numbered (cmds ++ [cmd]) := by
  unfold Numbered at h ⊢
  rw [List.map_append, h, List.length_append, List.length_singleton, List.range'_1_concat,
    List.map_singleton, hid]

/-- The marks of commands that were queued. -/
def OnlyQueued (marks : List Mark) : Prop :=
  ∃ cmds, Numbered cmds ∧ marks = cmds.map enqMark

section Queueing

variable {env : Env} {res : Resources} {sid : StreamId}

/-- Behind the commands `done` of the streams before it, the stream has queued its own. -/
structure Pushed (done : List Command) (sid : StreamId) (acc : List Command × CmdId)
    (marks : List Mark) : Prop where
  ids : Numbered (done ++ acc.1)
  marks_eq : marks = (done ++ acc.1).map enqMark
  next : acc.2 = 1 + (done ++ acc.1).length
  home : ∀ cmd ∈ acc.1, cmd.streamId = sid

theorem push_triple {done : List Command} (cmds : List Json.Value) {acc : List Command × CmdId}
    {marks : List Mark} (h : Pushed done sid acc marks) :
    Triple StreamLog.add marks (cmds.foldlM (pushTraced env res sid) acc)
      (cmds.foldlM (pushCommand env res sid) acc) (Pushed done sid) (fun _ => OnlyQueued) := by
  apply Triple.foldlM (I := fun _ => Pushed done sid) _ cmds acc marks h
  rintro cmdv _ ⟨queued, next⟩ marks ⟨hids, hmarks, hnext, hhome⟩
  apply Triple.quietly_bind
  · intro kind _
    apply Triple.record_bind
    apply Triple.pure
    have hassoc : ∀ cmd, done ++ (queued ++ [cmd]) = done ++ queued ++ [cmd] :=
      fun cmd => (List.append_assoc ..).symm
    refine ⟨?_, ?_, ?_, ?_⟩
    · rw [hassoc]
      exact hids.snoc hnext
    · rw [hassoc, List.map_append, ← hmarks]
      rfl
    · rw [hassoc, List.length_append, List.length_singleton, ← Nat.add_assoc, ← hnext]
    · intro cmd hcmd
      rcases List.mem_append.mp hcmd with hcmd | hcmd
      · exact hhome cmd hcmd
      · rw [List.mem_singleton.mp hcmd]
  · exact fun _ _ => ⟨done ++ queued, hids, hmarks⟩

/-- The commands of the streams so far, with those that are left still without a queue. -/
def Built (left : List ((Text × Json.Value) × StreamId)) (qs : Queues) (marks : List Mark) : Prop :=
  ∃ cmds, Numbered cmds ∧ marks = cmds.map enqMark ∧ qs.nextCmdId = 1 + cmds.length
    ∧ (∀ sid, eventSystem.onQueue sid cmds = qs.queue sid)
    ∧ (left.map Prod.snd).Nodup ∧ ∀ sid ∈ left.map Prod.snd, qs.queue sid = []

theorem onQueue_of_home {cmds : List Command} (hhome : ∀ cmd ∈ cmds, cmd.streamId = sid)
    (sid' : StreamId) :
    eventSystem.onQueue sid' cmds = if sid' = sid then cmds else [] := by
  unfold EventGraph.System.onQueue eventSystem
  split
  · next hsame =>
    exact List.filter_eq_self.mpr fun cmd hcmd => decide_eq_true ((hhome cmd hcmd).trans hsame.symm)
  · next hne =>
    refine List.filter_eq_nil_iff.mpr fun cmd hcmd => ?_
    rw [decide_eq_true_iff]
    exact fun h => hne (h.symm.trans (hhome cmd hcmd))

theorem build_triple (streams : List ((Text × Json.Value) × StreamId)) {qs : Queues}
    {marks : List Mark} (h : Built streams qs marks) :
    Triple StreamLog.add marks (streams.foldlM (buildTraced env res) qs)
      (streams.foldlM (buildStream env res) qs) (Built []) (fun _ => OnlyQueued) := by
  apply Triple.foldlM (I := Built) _ streams qs marks h
  rintro stream left qs marks ⟨done, hids, hmarks, hnext, hqueue, hnodup, hempty⟩
  rw [List.map_cons, List.nodup_cons] at hnodup
  have hqueued : OnlyQueued marks := ⟨done, hids, hmarks⟩
  refine Triple.quietly_bind (fun so _ => ?_) fun _ _ => hqueued
  refine Triple.quietly_bind (fun commands _ => ?_) fun _ _ => hqueued
  refine Triple.quietly_bind (fun cmds _ => ?_) fun _ _ => hqueued
  have hpushed : Pushed done stream.2 ([], qs.nextCmdId) marks :=
    ⟨by rwa [List.append_nil], by rw [List.append_nil, hmarks], by rw [List.append_nil, hnext],
      fun _ h => absurd h List.not_mem_nil⟩
  apply (push_triple cmds hpushed).bind
  rintro ⟨queued, next⟩ marks' _ ⟨hids', hmarks', hnext', hhome⟩
  apply Triple.pure
  refine ⟨done ++ queued, hids', hmarks', hnext', fun sid => ?_, hnodup.2, fun sid hsid => ?_⟩
  · have hsplit : eventSystem.onQueue sid (done ++ queued)
        = eventSystem.onQueue sid done ++ eventSystem.onQueue sid queued :=
      EventGraph.System.onQueue_append ..
    rw [hsplit, hqueue, onQueue_of_home hhome]
    split
    · next hsame =>
      rw [hsame, hempty stream.2 List.mem_cons_self]
      exact (Function.update_self stream.2 queued qs.queue).symm
    · next hne =>
      rw [List.append_nil]
      exact (Function.update_of_ne hne queued qs.queue).symm
  · have hne : sid ≠ stream.2 := by
      rintro rfl
      exact hnodup.1 hsid
    exact (Function.update_of_ne hne queued qs.queue).trans
      (hempty sid (List.mem_cons_of_mem _ hsid))

/-- The commands of a workload that is ready, and their marks. -/
def Queued (p : Prepared) (marks : List Mark) : Prop :=
  ∃ cmds, Numbered cmds ∧ marks = cmds.map enqMark ∧ ∀ sid, eventSystem.onQueue sid cmds
    = p.queue sid

theorem prepare_eq (env : Env) (rt : Runtime) (path : Text) :
    prepare env rt path = (do
      let text ← slurp env path
      let root ← parseRoot text
      let alloc ← allocRoot env rt root
      let qs ← (numbered alloc.1.streams).foldlM (buildStream env alloc.2.2) {}
      return { rt := alloc.2.1, devBufs := alloc.2.2.devBufs
               streamIds := (numbered alloc.1.streams).map Prod.snd, queue := qs.queue }) := by
  unfold prepare prepareRoot allocRoot
  simp only [bind_assoc, pure_bind]

theorem prepare_triple (env : Env) (rt : Runtime) (path : Text) :
    Triple StreamLog.add [] (prepareTraced env rt path) (prepare env rt path) Queued
      (fun _ => OnlyQueued) := by
  have hnone : OnlyQueued [] := ⟨[], rfl, rfl⟩
  rw [prepare_eq]
  apply Triple.quietly_bind _ fun _ _ => hnone
  intro text _
  apply Triple.quietly_bind _ fun _ _ => hnone
  intro root _
  apply Triple.quietly_bind _ fun _ _ => hnone
  rintro ⟨decls, rt', res⟩ _
  have hbuilt : Built (numbered decls.streams) {} [] :=
    ⟨[], rfl, rfl, rfl, fun _ => rfl, nodup_numbered _, fun _ _ => rfl⟩
  apply (build_triple _ hbuilt).bind
  rintro qs marks _ ⟨cmds, hids, hmarks, -, hqueue, -⟩
  exact .pure ⟨cmds, hids, hmarks, hqueue⟩

end Queueing

/-! ### Running -/

section Running

variable {env : Env} {run : RunKernel} {devBufs : DeviceBufs} {p : Prepared} {st : ScheduleState}
  {round : Round} {base marks : List Mark}

/-- What has run has left its marks. -/
structure Marked (p : Prepared) (base : List Mark) (st : ScheduleState) (marks : List Mark) :
    Prop where
  inv : ScheduleInv p st
  marks_eq : marks = base ++ st.executed.flatMap runMarks

/-- The last command is left open. -/
def LeftOpen (p : Prepared) (base : List Mark) (e : Exit) (marks : List Mark) : Prop :=
  ∃ ran cmd rest, eventSystem.Progress p.queue rest (ran ++ [cmd])
    ∧ marks = base ++ ran.flatMap runMarks ++ startMarks cmd
    ∧ (e.result.completed = true → e.result.diag ≠ none)

theorem caught_completed (t : Throw) : (caught t).completed = false := by
  cases t with
  | schema diag => rfl
  | parse what => rfl
  | fatal what => rfl

theorem caught_failed (t : Throw) : (caught t).completed = true → (caught t).diag ≠ none :=
  fun h => absurd ((caught_completed t).symm.trans h) Bool.false_ne_true

/-- A run that fails in a command does not report success. -/
theorem execute_failed {cmd : Command} {e : Exit}
    (hexec : execute env run devBufs cmd st = .error e) :
    e.result.completed = true → e.result.diag ≠ none := by
  unfold execute at hexec
  repeat' split at hexec
  all_goals cases hexec
  · exact caught_failed _
  · exact caught_failed _
  · exact caught_failed _
  · next hdiag => exact fun _ => Option.isSome_iff_ne_none.mp hdiag
  · next hrunning =>
    rw [Bool.not_eq_true'] at hrunning
    exact fun h => absurd (hrunning.symm.trans h) Bool.false_ne_true

theorem emitEvent_bind {ε β : Type} {cmd : Command} {f : Unit → LogM StreamLog ε β} {r : Except ε β}
    {J : β → List Mark → Prop} {E : ε → List Mark → Prop}
    (hf : Triple StreamLog.add (marks ++ eventMarks cmd) (f ()) r J E) :
    Triple StreamLog.add marks (emitEvent cmd.streamId cmd >>= f) r J E := by
  unfold emitEvent
  unfold eventMarks at hf
  cases hkind : cmd.kind with
  | eventRecord ev =>
      rw [hkind] at hf
      exact .record_bind hf
  | eventWait ev =>
      rw [hkind] at hf
      exact .record_bind hf
  | copy cp =>
      rw [hkind] at hf
      exact List.append_nil marks ▸ hf
  | kernel kp =>
      rw [hkind] at hf
      exact List.append_nil marks ▸ hf
  | sync =>
      rw [hkind] at hf
      exact List.append_nil marks ▸ hf

theorem turn_triple (hwell : WellQueued p) (sid : StreamId) (h : Marked p base round.st marks) :
    Triple StreamLog.add marks (turnTraced env run devBufs round sid)
    (turn env run devBufs round sid)
      (fun round' => Marked p base round'.st) (LeftOpen p base) := by
  obtain ⟨hinv, hmarks⟩ := h
  unfold turnTraced turn
  cases hhead : round.st.queue sid with
  | nil => exact .pure ⟨hinv, hmarks⟩
  | cons cmd rest =>
      have hcmd : cmd ∈ p.queue sid := hinv.mem (by rw [hhead]; exact List.mem_cons_self)
      obtain rfl : cmd.streamId = sid := hwell.home sid cmd hcmd
      by_cases hready : ready round.st cmd = true
      · simp only [if_pos hready]
        apply Triple.record_bind
        apply Triple.record_bind
        cases hexec : execute env run devBufs cmd round.st with
        | error e =>
            have hprogress := hinv.progress.step hhead rfl ((hinv.ready_iff hcmd).mp hready)
            refine .throw ⟨round.st.executed, cmd, _, hprogress, ?_, execute_failed hexec⟩
            rw [← hmarks, List.append_assoc]
            rfl
        | ok st' =>
            apply Triple.ok_bind
            apply emitEvent_bind
            apply Triple.record_bind
            apply Triple.pure
            have hexecuted := execute_ok hexec
            refine ⟨hinv.step hwell hhead hready hexecuted, ?_⟩
            rw [hexecuted.executed, List.flatMap_append, ← List.append_assoc, ← hmarks]
            simp [runMarks, startMarks, Command.mark]
      · simp only [if_neg hready]
        exact .pure ⟨hinv, hmarks⟩

/-- How a schedule ends, with the marks it leaves. -/
inductive Ended (p : Prepared) (base : List Mark) :
    Except Exit ScheduleState → List Mark → Prop where
  | completed (st : ScheduleState) (horder : eventSystem.Schedules p.queue st.executed) :
      Ended p base (.ok st) (base ++ st.executed.flatMap runMarks)
  | deadlock (steps : BitVec 64) (ran : List Command) (rest : StreamId → List Command)
    (sid : StreamId)
      (hprogress : eventSystem.Progress p.queue rest ran) (hleft : rest sid ≠ []) :
      Ended p base (.error (.deadlock steps)) (base ++ ran.flatMap runMarks)
  | inside (e : Exit) (marks : List Mark) (hopen : LeftOpen p base e marks) :
      Ended p base (.error e) marks

theorem schedule_ended (hwell : WellQueued p) {fuel : Nat} (h : Marked p base st marks)
    {r : Except Exit ScheduleState} (hrun : runSchedule env run p fuel st = some r) :
    ∃ marks', scheduleTraced env run p fuel st (marks.foldl StreamLog.add {})
        = some (r, marks'.foldl StreamLog.add {}) ∧ Ended p base r marks' := by
  induction fuel generalizing st marks with
  | zero => cases hrun
  | succ fuel ih =>
      obtain ⟨marks', hexec, hok, herror⟩ : Triple StreamLog.add marks
          (p.streamIds.foldlM (turnTraced env run p.devBufs) { st := st })
          (p.streamIds.foldlM (turn env run p.devBufs) { st := st })
          (fun round' => Marked p base round'.st) (LeftOpen p base) :=
        Triple.foldlM (I := fun _ (round : Round) => Marked p base round.st)
          (fun sid _ _ _ hmarked => turn_triple hwell sid hmarked) p.streamIds { st := st } marks h
      rw [runSchedule] at hrun
      rw [scheduleTraced, hexec]
      cases hround : p.streamIds.foldlM (turn env run p.devBufs) { st := st } with
      | error e =>
          rw [hround] at hrun
          cases hrun
          exact ⟨marks', rfl, .inside e marks' (herror e hround)⟩
      | ok round' =>
          rw [hround] at hrun
          have heffect := round_effect hwell h.inv hround
          have hmarked := hok round' hround
          dsimp only at hrun ⊢
          by_cases hended : (!round'.anyRemaining) = true
          · rw [if_pos hended] at hrun ⊢
            cases hrun
            obtain ⟨hsame, hempty⟩ := heffect.ended (by simpa using hended)
            refine ⟨marks', rfl, ?_⟩
            rw [hmarked.marks_eq]
            refine .completed _ (hmarked.inv.progress.complete fun sid => ?_)
            by_cases hsid : sid ∈ p.streamIds
            · rw [hsame]
              exact hempty sid hsid
            · exact hmarked.inv.unlisted hwell hsid
          · rw [if_neg hended] at hrun ⊢
            by_cases hidle : (!round'.progressed) = true
            · rw [if_pos hidle] at hrun ⊢
              cases hrun
              have hprogressed : round'.progressed = false := by simpa using hidle
              obtain ⟨sid, -, hne⟩ := heffect.remains rfl (by simpa using hended) hprogressed
              refine ⟨marks', rfl, ?_⟩
              rw [hmarked.marks_eq]
              refine .deadlock _ _ _ sid hmarked.inv.progress ?_
              rw [(heffect.idle hprogressed).1]
              exact hne
            · rw [if_neg hidle] at hrun ⊢
              exact ih hmarked hrun

end Running

/-! ### The law -/

/-- The events of a run: the commands queued, those run to the end and the one left open. -/
structure Transcript (events : List Event) (queued ran : List Command) (opened : Option Command) :
    Prop where
  events_eq : events
    = stamped (queued.map enqMark ++ ran.flatMap runMarks ++ opened.toList.flatMap startMarks)
  numbered : Numbered queued
  /-- Each stream runs from its head. -/
  fifo : ∀ sid, eventSystem.onQueue sid (ran ++ opened.toList) <+: eventSystem.onQueue sid queued
  /-- A wait runs behind a record of its event. -/
  respects : eventSystem.Respects (ran ++ opened.toList)

theorem Transcript.of_progress {p : Prepared} (rest : StreamId → List Command)
    {queued ran : List Command}
    {opened : Option Command} {marks : List Mark} (hids : Numbered queued)
    (hqueue : ∀ sid, eventSystem.onQueue sid queued = p.queue sid)
    (hprogress : eventSystem.Progress p.queue rest (ran ++ opened.toList))
    (hmarks : marks
      = queued.map enqMark ++ ran.flatMap runMarks ++ opened.toList.flatMap startMarks) :
    Transcript (marks.foldl StreamLog.add {}).events queued ran opened where
  events_eq := by rw [(foldl_add marks).1, hmarks]
  numbered := hids
  fifo sid := by
    rw [hqueue, ← hprogress.fifo sid]
    exact List.prefix_append ..
  respects := hprogress.respects

/-- **Workload traces.** Every run ends, as the run without a trace does, and its events are those
of a transcript, stamped with 1, 2, and so on. It reports success exactly when the workload was
ready to run, no command was left open and each stream has run to its end. -/
theorem workload_trace (env : Env) (run : RunKernel) (rt : Runtime) (path : Text) :
    ∃ bound, ∀ fuel, bound < fuel → ∃ sim log queued ran opened,
      runTraced env run rt path fuel = some (sim, log)
      ∧ runWorkload env run rt path fuel = some sim
      ∧ Transcript log.events queued ran opened
      ∧ (sim.completed = true ∧ sim.diag = none
        ↔ (∃ p, prepare env rt path = .ok p) ∧ opened = none
          ∧ ∀ sid, eventSystem.onQueue sid ran = eventSystem.onQueue sid queued) := by
  obtain ⟨marks, hexec, hok, herror⟩ := prepare_triple env rt path
  have htraced :
      exec (prepareTraced env rt path) {} = (prepare env rt path, marks.foldl StreamLog.add {}) :=
    hexec {}
  cases hprepare : prepare env rt path with
  | error t =>
      obtain ⟨queued, hids, hmarks⟩ := herror t hprepare
      refine ⟨0, fun fuel _ =>
        ⟨caught t, marks.foldl StreamLog.add {}, queued, [], none, ?_, ?_, ?_, ?_⟩⟩
      · rw [runTraced, htraced, hprepare]
      · rw [runWorkload, hprepare]
      · refine ⟨?_, hids, fun sid => List.nil_prefix, .nil⟩
        rw [(foldl_add marks).1, hmarks]
        simp
      · refine iff_of_false (fun h => caught_failed t h.1 h.2) ?_
        rintro ⟨⟨p, hready⟩, -⟩
        cases hready
  | ok p =>
      obtain ⟨queued, hids, hmarks, hqueue⟩ := hok p hprepare
      have hwell := wellQueued_prepare hprepare
      refine ⟨p.size, fun fuel hfuel => ?_⟩
      have hstart : p.size < p.start.executed.length + fuel := by
        rw [show p.start.executed.length = 0 from rfl]
        omega
      obtain ⟨r, hrun, -⟩ : ∃ r, runSchedule env run p fuel p.start = some r ∧ ScheduleEnd p r :=
        runSchedule_end hwell (.start p) hstart
      have hmarked : Marked p marks p.start marks := ⟨.start p, (List.append_nil _).symm⟩
      obtain ⟨marks', hlogged, hended⟩ := schedule_ended hwell hmarked hrun
      have hruns : runTraced env run rt path fuel
          = some (scheduleResult r, marks'.foldl StreamLog.add {}) := by
        rw [runTraced, htraced, hprepare]
        dsimp only
        rw [hlogged]
        rfl
      have hplain : runWorkload env run rt path fuel = some (scheduleResult r) := by
        rw [runWorkload, hprepare]
        exact congrArg (Option.map scheduleResult) hrun
      cases hended with
      | completed st horder =>
          refine ⟨_, _, queued, st.executed, none, hruns, hplain, ?_, ?_⟩
          · refine .of_progress (fun _ => []) hids hqueue ?_ ?_
            · refine ⟨fun sid => ?_, ?_⟩
              · simpa using horder.fifo sid
              · simpa using horder.respects
            · rw [hmarks]
              simp
          · refine iff_of_true ⟨rfl, rfl⟩ ⟨⟨p, rfl⟩, rfl, fun sid => ?_⟩
            rw [horder.fifo, hqueue]
      | deadlock steps ran rest sid hprogress hleft =>
          refine ⟨_, _, queued, ran, none, hruns, hplain, ?_, ?_⟩
          · refine .of_progress rest hids hqueue ?_ ?_
            · simpa using hprogress
            · rw [hmarks]
              simp
          · refine iff_of_false (fun h => Bool.false_ne_true h.1) fun h => hleft ?_
            have hsame := hprogress.fifo sid
            rw [h.2.2 sid, hqueue] at hsame
            exact List.append_cancel_left (hsame.trans (List.append_nil _).symm)
      | inside e marks' hopen =>
          obtain ⟨ran, cmd, rest, hprogress, hmarks', hresult⟩ := hopen
          refine ⟨_, _, queued, ran, some cmd, hruns, hplain, ?_, ?_⟩
          · refine .of_progress rest hids hqueue hprogress ?_
            rw [hmarks', hmarks]
            simp
          · exact iff_of_false (fun h => hresult h.1 h.2) fun h =>
              absurd h.2.1 (Option.some_ne_none cmd)

end ProtoGpu.Workload

import ProtoGpu.Proof.ParserRun
import ProtoGpu.Runtime.Workload

/-!
# Reading a workload

When each reader of a document succeeds, and with what.
-/

namespace ProtoGpu.Workload

open Throwing

open Json (Value Object)

variable {v : Value} {o : Object} {key message : String}

theorem requireObject_ok : requireObject v message = .ok o ↔ v = .object o := by
  cases v with
  | object o' =>
    exact ⟨fun h => congrArg _ (Except.ok.inj h), fun h => congrArg _ (Value.object.inj h)⟩
  | null => exact ⟨nofun, nofun⟩
  | bool b => exact ⟨nofun, nofun⟩
  | number d => exact ⟨nofun, nofun⟩
  | string s => exact ⟨nofun, nofun⟩
  | array a => exact ⟨nofun, nofun⟩

theorem asObject_ok : asObject v = .ok o ↔ v = .object o := by
  cases v with
  | object o' =>
    exact ⟨fun h => congrArg _ (Except.ok.inj h), fun h => congrArg _ (Value.object.inj h)⟩
  | null => exact ⟨nofun, nofun⟩
  | bool b => exact ⟨nofun, nofun⟩
  | number d => exact ⟨nofun, nofun⟩
  | string s => exact ⟨nofun, nofun⟩
  | array a => exact ⟨nofun, nofun⟩

theorem asArray_ok {a : List Value} : asArray v = .ok a ↔ v = .array a := by
  cases v with
  | array a' =>
    exact ⟨fun h => congrArg _ (Except.ok.inj h), fun h => congrArg _ (Value.array.inj h)⟩
  | null => exact ⟨nofun, nofun⟩
  | bool b => exact ⟨nofun, nofun⟩
  | number d => exact ⟨nofun, nofun⟩
  | string s => exact ⟨nofun, nofun⟩
  | object o => exact ⟨nofun, nofun⟩

theorem requireField_ok : requireField o key = .ok v ↔ Json.find? key.toList o = some v := by
  unfold requireField
  cases Json.find? key.toList o with
  | none => exact ⟨nofun, nofun⟩
  | some v' =>
    exact ⟨fun h => congrArg _ (Except.ok.inj h), fun h => congrArg _ (Option.some.inj h)⟩

theorem commandMember_ok {member : Text × Value} :
    commandMember v = .ok member ↔ v = .object [member] := by
  constructor
  · intro hmember
    obtain ⟨o, ho, hone⟩ := bind_ok.mp hmember
    obtain rfl := requireObject_ok.mp ho
    unfold requireOne at hone
    split at hone
    · cases hone
      rfl
    · cases hone
  · rintro rfl
    rfl

variable {res : Resources} {name : Text} {off n size : BitVec 64}

theorem findHostBuf_ok {buf : HostBufId × BitVec 64} :
    findHostBuf res name = .ok buf ↔ res.hostBufs.lookup name = some buf := by
  unfold findHostBuf
  cases res.hostBufs.lookup name with
  | none => exact ⟨nofun, nofun⟩
  | some b => exact ⟨fun h => congrArg _ (Except.ok.inj h), fun h => congrArg _ (Option.some.inj h)⟩

theorem findDeviceBuf_ok {buf : Addr × BitVec 64} :
    findDeviceBuf res name = .ok buf ↔ res.devBufs.lookup name = some buf := by
  unfold findDeviceBuf
  cases res.devBufs.lookup name with
  | none => exact ⟨nofun, nofun⟩
  | some b => exact ⟨fun h => congrArg _ (Except.ok.inj h), fun h => congrArg _ (Option.some.inj h)⟩

theorem checkRange_ok {u : Unit} :
    checkRange off n size message = .ok u ↔ (off + n).toNat ≤ size.toNat := by
  unfold checkRange
  split
  · next hgt => exact iff_of_false nofun (Nat.not_le.mpr hgt)
  · next hnot => exact iff_of_true rfl (Nat.not_lt.mp hnot)

/-! ### The commands of a document -/

/-- A command of one of the streams. -/
def InStreams (streams : Object) (cmdv : Value) : Prop :=
  ∃ stream ∈ streams, ∃ so cmds, stream.2 = .object so ∧ Json.find? "commands".toList so
    = some (.array cmds)
    ∧ cmdv ∈ cmds

/-- The declarations of the document at a path. -/
def readDecls (env : Env) (path : Text) : Except Throw Decls := do
  parseDecls env (← requireObject (← parseRoot (← slurp env path)) "root must be object")

/-- The parts of a workload that is ready to run: its buffers, and the queues built from its
streams. -/
structure PreparedBy (env : Env) (rt : Runtime) (decls : Decls) (res : Resources) (p : Prepared) :
    Prop where
  hosts : ∃ rt', decls.hosts.foldlM (allocHostBuf env) (rt, []) = .ok (rt', res.hostBufs)
    ∧ decls.devices.foldlM allocDeviceBuf (rt', []) = .ok (p.rt, res.devBufs)
  devBufs : p.devBufs = res.devBufs
  modules : res.modules = decls.modules
  eventIds : res.eventIds = numbered decls.eventNames
  streamIds : p.streamIds = (numbered decls.streams).map Prod.snd
  queues : ∃ qs, (numbered decls.streams).foldlM (buildStream env res) {} = .ok qs ∧
    p.queue = qs.queue

theorem prepare_parts {env : Env} {rt : Runtime} {path : Text} {p : Prepared}
    (hprepare : prepare env rt path = .ok p) :
    ∃ decls res, readDecls env path = .ok decls ∧ PreparedBy env rt decls res p := by
  obtain ⟨text, htext, hprepare⟩ := bind_ok.mp hprepare
  obtain ⟨root, hroot, hprepare⟩ := bind_ok.mp hprepare
  obtain ⟨o, ho, hprepare⟩ := bind_ok.mp hprepare
  obtain ⟨decls, hdecls, hprepare⟩ := bind_ok.mp hprepare
  obtain ⟨⟨rt₁, hostBufs⟩, hhosts, hprepare⟩ := bind_ok.mp hprepare
  obtain ⟨⟨rt₂, devBufs⟩, hdevices, hprepare⟩ := bind_ok.mp hprepare
  obtain ⟨qs, hbuild, hok⟩ := bind_ok.mp hprepare
  cases hok
  exact ⟨decls, { hostBufs := hostBufs, devBufs := devBufs, modules := decls.modules
                  eventIds := numbered decls.eventNames },
    bind_ok.mpr ⟨text, htext, bind_ok.mpr ⟨root, hroot, bind_ok.mpr ⟨o, ho, hdecls⟩⟩⟩,
    ⟨⟨rt₁, hhosts, hdevices⟩, rfl, rfl, rfl, rfl, qs, hbuild, rfl⟩⟩

section Queues

variable {env : Env} {qs qs' : Queues}

/-- The command of a stream that a value of the document becomes. -/
def ReadAs (env : Env) (res : Resources) (sid : StreamId) (cmdv : Value) (cmd : Command) : Prop :=
  cmd.streamId = sid ∧ parseCommand env res cmdv = .ok cmd.kind

theorem pushCommands_effect {sid : StreamId} {cmds : List Value} {acc acc' : List Command × CmdId}
    (hrun : cmds.foldlM (pushCommand env res sid) acc = .ok acc') :
    ∃ queue, acc'.1 = acc.1 ++ queue ∧ List.Forall₂ (ReadAs env res sid) cmds queue := by
  induction cmds generalizing acc with
  | nil =>
      cases hrun
      exact ⟨[], (List.append_nil _).symm, .nil⟩
  | cons cmdv cmds ih =>
      obtain ⟨mid, hmid, hrest⟩ := foldlM_cons_ok.mp hrun
      obtain ⟨kind, hkind, hok⟩ := bind_ok.mp hmid
      cases hok
      obtain ⟨queue, hqueue, hread⟩ := ih hrest
      exact ⟨_ :: queue, by rw [hqueue, List.append_assoc]; rfl, .cons ⟨rfl, hkind⟩ hread⟩

/-- A step sets the queue of its stream, to the commands of the stream. -/
theorem buildStream_effect {stream : (Text × Value) × StreamId}
    (hbuild : buildStream env res qs stream = .ok qs') :
    ∃ so cmds queue, stream.1.2 = .object so ∧ Json.find? "commands".toList so = some (.array cmds)
      ∧ qs'.queue = Function.update qs.queue stream.2 queue
      ∧ List.Forall₂ (ReadAs env res stream.2) cmds queue := by
  obtain ⟨so, hso, hbuild⟩ := bind_ok.mp hbuild
  obtain ⟨v, hv, hbuild⟩ := bind_ok.mp hbuild
  obtain ⟨cmds, hcmds, hbuild⟩ := bind_ok.mp hbuild
  obtain ⟨built, hrun, hok⟩ := bind_ok.mp hbuild
  cases hok
  obtain ⟨queue, hqueue, hread⟩ := pushCommands_effect hrun
  refine ⟨so, cmds, queue, asObject_ok.mp hso, ?_, ?_, hread⟩
  · rw [requireField_ok.mp hv, asArray_ok.mp hcmds]
  · rw [hqueue]
    rfl

/-- The streams fill different queues. -/
theorem buildStreams_effect {streams : List ((Text × Value) × StreamId)}
    (hids : (streams.map Prod.snd).Nodup)
    (hbuild : streams.foldlM (buildStream env res) qs = .ok qs') :
    (∀ sid, sid ∉ streams.map Prod.snd → qs'.queue sid = qs.queue sid)
      ∧ ∀ stream ∈ streams, ∃ so cmds, stream.1.2 = .object so
        ∧ Json.find? "commands".toList so = some (.array cmds)
        ∧ List.Forall₂ (ReadAs env res stream.2) cmds (qs'.queue stream.2) := by
  induction streams generalizing qs with
  | nil =>
      cases hbuild
      exact ⟨fun _ _ => rfl, fun _ h => absurd h List.not_mem_nil⟩
  | cons stream streams ih =>
      obtain ⟨mid, hmid, hrest⟩ := foldlM_cons_ok.mp hbuild
      rw [List.map_cons, List.nodup_cons] at hids
      obtain ⟨hkept, hall⟩ := ih hids.2 hrest
      obtain ⟨so, cmds, queue, hso, hcmds, hset, hread⟩ := buildStream_effect hmid
      refine ⟨fun sid hsid => ?_, fun s hs => ?_⟩
      · rw [List.map_cons, List.mem_cons, not_or] at hsid
        rw [hkept sid hsid.2, hset, Function.update_of_ne hsid.1]
      · rcases List.mem_cons.mp hs with rfl | hs
        · refine ⟨so, cmds, hso, hcmds, ?_⟩
          rw [hkept _ hids.1, hset, Function.update_self]
          exact hread
        · exact hall s hs

theorem nodup_numbered {α : Type} (names : List α) : ((numbered names).map Prod.snd).Nodup := by
  rw [numbered, List.zipIdx_map_snd]
  exact List.nodup_range' ..

theorem names_numbered {α : Type} (names : List α) : (numbered names).map Prod.fst = names :=
  List.zipIdx_map_fst 1 names

/-- Every command of the document is queued, and every queued command is one of the document. -/
theorem PreparedBy.commands {rt : Runtime} {decls : Decls} {p : Prepared}
    (hp : PreparedBy env rt decls res p) :
    (∀ cmdv, InStreams decls.streams cmdv → ∃ sid, ∃ cmd ∈ p.queue sid, ReadAs env res sid cmdv cmd)
      ∧ ∀ sid, ∀ cmd ∈ p.queue sid, sid ∈ p.streamIds
        ∧ ∃ cmdv, InStreams decls.streams cmdv ∧ ReadAs env res sid cmdv cmd := by
  obtain ⟨qs, hbuild, hqueue⟩ := hp.queues
  obtain ⟨hnone, hall⟩ := buildStreams_effect (nodup_numbered decls.streams) hbuild
  rw [hqueue, hp.streamIds]
  constructor
  · rintro cmdv ⟨entry, hentry, so, cmds, hso, hcmds, hcmdv⟩
    rw [← names_numbered decls.streams] at hentry
    obtain ⟨stream, hstream, rfl⟩ := List.mem_map.mp hentry
    obtain ⟨so', cmds', hso', hcmds', hread⟩ := hall stream hstream
    obtain rfl := Value.object.inj (hso.symm.trans hso')
    obtain rfl := Value.array.inj (Option.some.inj (hcmds.symm.trans hcmds'))
    obtain ⟨cmd, hcmd, hreads⟩ := (forall₂_mem hread).1 cmdv hcmdv
    exact ⟨stream.2, cmd, hcmd, hreads⟩
  · intro sid cmd hcmd
    have hlisted : sid ∈ (numbered decls.streams).map Prod.snd := by
      by_contra hsid
      rw [hnone sid hsid] at hcmd
      exact List.not_mem_nil hcmd
    obtain ⟨stream, hstream, rfl⟩ := List.mem_map.mp hlisted
    obtain ⟨so, cmds, hso, hcmds, hread⟩ := hall stream hstream
    obtain ⟨cmdv, hcmdv, hreads⟩ := (forall₂_mem hread).2 cmd hcmd
    refine ⟨hlisted, cmdv, ⟨stream.1, ?_, so, cmds, hso, hcmds, hcmdv⟩, hreads⟩
    have hin := List.mem_map_of_mem (f := Prod.fst) hstream
    rwa [names_numbered] at hin

end Queues

end ProtoGpu.Workload

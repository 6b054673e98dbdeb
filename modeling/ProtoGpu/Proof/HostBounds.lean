import ProtoGpu.Proof.SparseMemory
import ProtoGpu.Proof.WorkloadSchema
import ProtoGpu.Proof.WorkloadSchedule

/-!
# Host buffer bounds

Every range check of the runtime and of the workload loader compares a 64-bit sum of an offset and a
length with a size. A sum that wraps passes as soon as what is left of it is small enough.
-/

namespace ProtoGpu

open Throwing

namespace Runtime

variable {rt : Runtime} {id : HostBufId} {buf : List Byte} {off n : BitVec 64} {bytes : List Byte}

theorem hostWrite_succeeds_iff (off : BitVec 64) (bytes : List Byte)
    (hbuf : rt.hostBufs id = some buf) :
    (∃ rt', rt.hostWrite id off bytes = .ok rt')
      ↔ (off + BitVec.ofNat 64 bytes.length).toNat ≤ buf.length := by
  unfold hostWrite
  rw [hbuf]
  dsimp only
  split
  · next hlt => exact iff_of_false nofun (Nat.not_le.mpr hlt)
  · next hnot => exact iff_of_true ⟨_, rfl⟩ (Nat.not_lt.mp hnot)

theorem hostRead_succeeds_iff (hbuf : rt.hostBufs id = some buf) :
    (rt.hostRead id off n).isSome = true ↔ (off + n).toNat ≤ buf.length := by
  unfold hostRead
  rw [hbuf]
  dsimp only
  split
  · next hlt => exact iff_of_false nofun (Nat.not_le.mpr hlt)
  · next hnot => exact iff_of_true rfl (Nat.not_lt.mp hnot)

/-- A write replaces bytes of one buffer. -/
theorem hostWrite_effect {rt' : Runtime} (hbuf : rt.hostBufs id = some buf)
    (hwrite : rt.hostWrite id off bytes = .ok rt') :
    ∃ buf', rt'.hostBufs = Function.update rt.hostBufs id (some buf') ∧ buf'.length = buf.length
      ∧ rt'.nextHostBufId = rt.nextHostBufId := by
  unfold hostWrite at hwrite
  rw [hbuf] at hwrite
  dsimp only at hwrite
  split at hwrite
  · cases hwrite
  · cases hwrite
    exact ⟨_, rfl, length_storeBytes .., rfl⟩

end Runtime

namespace Workload

open Json (Value)

/-! ### The bytes of a copy -/

/-- The range of a copy in its buffer, read as natural numbers. -/
def NoWrap (off n : BitVec 64) : Prop := off.toNat + n.toNat < 2 ^ 64

def CopyPayload.Copies (env : Env) (cp : CopyPayload) (rt : Runtime) : Prop :=
  ∃ rt', runCopy env cp rt = .ok rt'

/-- The sums of a copy do not wrap, as far as it gets. -/
def CopyPayload.Safe (env : Env) (cp : CopyPayload) (rt : Runtime) : Prop :=
  match cp.kind with
  | .h2d => env.hostFits cp.bytes.toNat = true → NoWrap cp.hostOff cp.bytes
      ∧ (rt.mem.globalRangeAllocated (cp.dev + cp.devOff) cp.bytes = true →
        NoWrap cp.devOff cp.bytes)
  | .d2h => env.hostFits cp.bytes.toNat = true →
      rt.mem.globalRangeAllocated (cp.dev + cp.devOff) cp.bytes = true →
        NoWrap cp.hostOff cp.bytes ∧ NoWrap cp.devOff cp.bytes
  | _ => True

section Copy
variable {env : Env} {cp : CopyPayload} {rt : Runtime} {hostSize devSize : BitVec 64}

/-- The checks of `run_workload`, and a host buffer of the declared size. -/
structure CopyChecked (cp : CopyPayload) (rt : Runtime) (hostSize devSize : BitVec 64) : Prop where
  host : (cp.hostOff + cp.bytes).toNat ≤ hostSize.toNat
  device : (cp.devOff + cp.bytes).toNat ≤ devSize.toNat
  buffer : ∃ buf, rt.hostBufs cp.host = some buf ∧ buf.length = hostSize.toNat

theorem CopyChecked.hostRead (h : CopyChecked cp rt hostSize devSize) :
    (rt.hostRead cp.host cp.hostOff cp.bytes).isSome = true := by
  obtain ⟨buf, hbuf, hlength⟩ := h.buffer
  rw [Runtime.hostRead_succeeds_iff hbuf, hlength]
  exact h.host

theorem reserve_ok {inRange : Bool} {n : BitVec 64} {u : Unit} (hin : inRange = true) :
    reserve env inRange n = .ok u ↔ env.hostFits n.toNat = true := by
  rw [reserve, hin, Bool.true_and]
  cases env.hostFits n.toNat with
  | true => exact iff_of_true rfl rfl
  | false => exact iff_of_false nofun nofun

theorem orFatal_ok {α : Type} {x : Except String α} {a : α} : orFatal x = .ok a ↔ x = .ok a := by
  cases x with
  | ok b => exact ⟨fun h => congrArg _ (Except.ok.inj h), fun h => congrArg _ (Except.ok.inj h)⟩
  | error e => exact ⟨nofun, nofun⟩

theorem CopyChecked.h2d_iff (h : CopyChecked cp rt hostSize devSize) (hkind : cp.kind = .h2d) :
    cp.Copies env rt ↔ env.hostFits cp.bytes.toNat = true
      ∧ rt.mem.globalRangeAllocated (cp.dev + cp.devOff) cp.bytes = true := by
  obtain ⟨data, hread⟩ := Option.isSome_iff_exists.mp h.hostRead
  have hlength : BitVec.ofNat 64 data.length = cp.bytes := by
    unfold Runtime.hostRead at hread
    split at hread
    · cases hread
    · split at hread
      · cases hread
      · obtain rfl := Option.some.inj hread
        rw [List.length_map, List.length_range, BitVec.ofNat_toNat, BitVec.setWidth_eq]
  unfold CopyPayload.Copies runCopy
  rw [hkind]
  simp only [bind_ok, orFatal_ok, Runtime.memcpyH2d, hread, AddrSpaceManager.writeGlobal, hlength]
  constructor
  · rintro ⟨rt', u, hroom, hcopy⟩
    refine ⟨(reserve_ok rfl).mp hroom, ?_⟩
    by_contra hnone
    rw [if_neg hnone] at hcopy
    cases hcopy
  · rintro ⟨hfits, hallocated⟩
    rw [if_pos hallocated]
    exact ⟨_, (), (reserve_ok rfl).mpr hfits, rfl⟩

theorem CopyChecked.d2h_iff (h : CopyChecked cp rt hostSize devSize) (hkind : cp.kind = .d2h) :
    cp.Copies env rt ↔ env.hostFits cp.bytes.toNat = true
      ∧ rt.mem.globalRangeAllocated (cp.dev + cp.devOff) cp.bytes = true := by
  obtain ⟨buf, hbuf, hlength⟩ := h.buffer
  have hdata : BitVec.ofNat 64 (readSparse rt.mem.global (cp.dev + cp.devOff) cp.bytes.toNat).length
      = cp.bytes := by
    rw [length_readSparse, BitVec.ofNat_toNat, BitVec.setWidth_eq]
  have hwrite := (Runtime.hostWrite_succeeds_iff cp.hostOff
    (readSparse rt.mem.global (cp.dev + cp.devOff) cp.bytes.toNat) hbuf).mpr
      (by rw [hdata, hlength]; exact h.host)
  unfold CopyPayload.Copies runCopy
  rw [hkind]
  simp only [bind_ok, orFatal_ok, Runtime.memcpyD2h, AddrSpaceManager.readGlobal]
  constructor
  · rintro ⟨rt', u, hroom, hcopy⟩
    by_cases hallocated : rt.mem.globalRangeAllocated (cp.dev + cp.devOff) cp.bytes = true
    · rw [if_pos hallocated] at hroom
      exact ⟨(reserve_ok rfl).mp hroom, hallocated⟩
    · rw [if_neg hallocated] at hcopy
      cases hcopy
  · rintro ⟨hfits, hallocated⟩
    obtain ⟨rt', hok⟩ := hwrite
    rw [if_pos hallocated]
    exact ⟨rt', (), (reserve_ok rfl).mpr hfits, hok⟩

end Copy

/-! ### The buffers a document names -/

def CopyKind.hostKey : CopyKind → String
  | .d2h => "dst"
  | _ => "src"

def CopyKind.deviceKey : CopyKind → String
  | .d2h => "src"
  | _ => "dst"

/-- The document's copy has the buffer reference under a key. -/
def RefersTo (env : Env) (cv : Value) (key : String) (ref : BufRef) : Prop :=
  ∃ po v ctx, cv = .object po ∧ Json.find? key.toList po = some v
    ∧ parseBufRef env.outOfRange v ctx = .ok ref

/-- The buffers that a copy of the document names, and the checks it has passed. -/
structure CopyNames (env : Env) (res : Resources) (cv : Value) (cp : CopyPayload)
    (hostSize devSize : BitVec 64) : Prop where
  host : ∃ ref, RefersTo env cv cp.kind.hostKey ref ∧ ref.offset = cp.hostOff
    ∧ res.hostBufs.lookup ref.name = some (cp.host, hostSize)
  device : ∃ ref, RefersTo env cv cp.kind.deviceKey ref ∧ ref.offset = cp.devOff
    ∧ res.devBufs.lookup ref.name = some (cp.dev, devSize)
  hostCheck : (cp.hostOff + cp.bytes).toNat ≤ hostSize.toNat
  deviceCheck : (cp.devOff + cp.bytes).toNat ≤ devSize.toNat

/-- The tables hold the declared buffers, with their declared sizes. -/
structure TablesDeclared (decls : Decls) (res : Resources) : Prop where
  hosts : res.hostBufs.map (fun buf => (buf.1, buf.2.2)) = decls.hosts.map fun d => (d.1, d.2.bytes)
  devices : res.devBufs.map (fun buf => (buf.1, buf.2.2)) = decls.devices.map fun d =>
    (d.1, d.2.bytes)

section Document
variable {env : Env} {res : Resources} {rt rt' : Runtime} {cv : Value} {cp : CopyPayload}

theorem parseCopy_names (hparse : parseCopy env res cv = .ok cp) :
    ∃ hostSize devSize, CopyNames env res cv cp hostSize devSize := by
  obtain ⟨po, hpo, hparse⟩ := bind_ok.mp hparse
  obtain ⟨kv, -, hparse⟩ := bind_ok.mp hparse
  obtain ⟨kind, -, hparse⟩ := bind_ok.mp hparse
  obtain ⟨dstv, hdstv, hparse⟩ := bind_ok.mp hparse
  obtain ⟨dst, hdst, hparse⟩ := bind_ok.mp hparse
  obtain ⟨srcv, hsrcv, hparse⟩ := bind_ok.mp hparse
  obtain ⟨src, hsrc, hparse⟩ := bind_ok.mp hparse
  obtain ⟨bv, -, hparse⟩ := bind_ok.mp hparse
  obtain ⟨bytes, -, hparse⟩ := bind_ok.mp hparse
  have hdstRef : RefersTo env cv "dst" dst :=
    ⟨po, dstv, _, requireObject_ok.mp hpo, requireField_ok.mp hdstv, hdst⟩
  have hsrcRef : RefersTo env cv "src" src :=
    ⟨po, srcv, _, requireObject_ok.mp hpo, requireField_ok.mp hsrcv, hsrc⟩
  split at hparse
  · obtain ⟨⟨host, hostSize⟩, hhost, hparse⟩ := bind_ok.mp hparse
    obtain ⟨⟨dev, devSize⟩, hdev, hparse⟩ := bind_ok.mp hparse
    obtain ⟨u, hcheckHost, hparse⟩ := bind_ok.mp hparse
    obtain ⟨u', hcheckDev, hok⟩ := bind_ok.mp hparse
    cases hok
    exact ⟨hostSize, devSize, ⟨src, hsrcRef, rfl, findHostBuf_ok.mp hhost⟩,
      ⟨dst, hdstRef, rfl, findDeviceBuf_ok.mp hdev⟩, checkRange_ok.mp hcheckHost,
      checkRange_ok.mp hcheckDev⟩
  · split at hparse
    · obtain ⟨⟨dev, devSize⟩, hdev, hparse⟩ := bind_ok.mp hparse
      obtain ⟨⟨host, hostSize⟩, hhost, hparse⟩ := bind_ok.mp hparse
      obtain ⟨u, hcheckDev, hparse⟩ := bind_ok.mp hparse
      obtain ⟨u', hcheckHost, hok⟩ := bind_ok.mp hparse
      cases hok
      exact ⟨hostSize, devSize, ⟨dst, hdstRef, rfl, findHostBuf_ok.mp hhost⟩,
        ⟨src, hsrcRef, rfl, findDeviceBuf_ok.mp hdev⟩, checkRange_ok.mp hcheckHost,
        checkRange_ok.mp hcheckDev⟩
    · cases hparse

theorem parseCommand_copy {cmdv : Value} (hparse : parseCommand env res cmdv = .ok (.copy cp)) :
    ∃ cv, cmdv = .object [("copy".toList, cv)] ∧ parseCopy env res cv = .ok cp := by
  obtain ⟨⟨ck, cv⟩, hmember, hparse⟩ := bind_ok.mp hparse
  dsimp only at hparse
  split at hparse
  · next hck =>
    obtain ⟨cp', hcopy, hok⟩ := bind_ok.mp hparse
    cases hok
    exact ⟨cv, by rw [commandMember_ok.mp hmember, hck], hcopy⟩
  · split at hparse
    · obtain ⟨kp, -, hok⟩ := bind_ok.mp hparse
      cases hok
    · split at hparse
      · obtain ⟨ev, -, hok⟩ := bind_ok.mp hparse
        cases hok
      · split at hparse
        · obtain ⟨ev, -, hok⟩ := bind_ok.mp hparse
          cases hok
        · split at hparse
          · cases hparse
          · cases hparse

/-! ### Host buffers keep their size -/

/-- Every buffer of the table is there, as long as declared. -/
def SizesKept (hostBufs : HostBufs) (rt : Runtime) : Prop :=
  ∀ buf ∈ hostBufs, ∃ bytes, rt.hostBufs buf.2.1 = some bytes ∧ bytes.length = buf.2.2.toNat

theorem SizesKept.update {hostBufs : HostBufs} {id : HostBufId} {old new : List Byte}
    (h : SizesKept hostBufs rt) (hold : rt.hostBufs id = some old)
    (hlength : new.length = old.length)
    (heffect : rt'.hostBufs = Function.update rt.hostBufs id (some new)) :
    SizesKept hostBufs rt' := by
  intro buf hbuf
  obtain ⟨bytes, hbytes, hsize⟩ := h buf hbuf
  rw [heffect]
  by_cases heq : buf.2.1 = id
  · rw [heq, hold] at hbytes
    cases hbytes
    exact ⟨new, by rw [heq, Function.update_self], hlength.trans hsize⟩
  · exact ⟨bytes, by rw [Function.update_of_ne heq, hbytes], hsize⟩

/-- The table while host buffers are allocated: its ids are below the next one. -/
structure HostsAllocated (acc : Runtime × HostBufs) : Prop where
  below : ∀ buf ∈ acc.2, buf.2.1.toNat < acc.1.nextHostBufId.toNat
  sizes : SizesKept acc.2 acc.1

theorem initHostBuf_effect {id : HostBufId} {name : Text} {d : HostBufDecl} {old : List Byte}
    (hold : rt.hostBufs id = some old) (hlength : old.length = d.bytes.toNat)
    (hinit : initHostBuf env rt id name d = .ok rt') :
    ∃ new, rt'.hostBufs = Function.update rt.hostBufs id (some new) ∧ new.length = d.bytes.toNat
      ∧ rt'.nextHostBufId = rt.nextHostBufId := by
  have hwritten : ∀ bytes message, writeInit rt id d bytes message = .ok rt' →
      ∃ new, rt'.hostBufs = Function.update rt.hostBufs id (some new) ∧ new.length = d.bytes.toNat
        ∧ rt'.nextHostBufId = rt.nextHostBufId := by
    intro bytes message hwrite
    unfold writeInit at hwrite
    split at hwrite
    · cases hwrite
    · obtain ⟨new, heffect, hnew, hnext⟩ := Runtime.hostWrite_effect hold (orFatal_ok.mp hwrite)
      exact ⟨new, heffect, hnew.trans hlength, hnext⟩
  unfold initHostBuf at hinit
  split at hinit
  · cases hinit
    exact ⟨old, by rw [← hold, Function.update_eq_self], hlength, rfl⟩
  · obtain ⟨bytes, -, hwrite⟩ := bind_ok.mp hinit
    exact hwritten _ _ hwrite
  · obtain ⟨text, -, hwrite⟩ := bind_ok.mp hinit
    exact hwritten _ _ hwrite

theorem allocHostBuf_allocated {acc acc' : Runtime × HostBufs} {decl : Text × HostBufDecl}
    (h : HostsAllocated acc) (hid : acc.1.nextHostBufId.toNat + 1 < 2 ^ 64)
    (halloc : allocHostBuf env acc decl = .ok acc') :
    HostsAllocated acc' ∧ acc'.1.nextHostBufId.toNat = acc.1.nextHostBufId.toNat + 1 := by
  have hnext : (acc.1.nextHostBufId + 1).toNat = acc.1.nextHostBufId.toNat + 1 := by bv_omega
  unfold allocHostBuf Runtime.hostAlloc at halloc
  dsimp only at halloc
  split at halloc
  · obtain ⟨id, hid', halloc⟩ := bind_ok.mp halloc
    cases hid'
    obtain ⟨rt', hinit, hok⟩ := bind_ok.mp halloc
    cases hok
    obtain ⟨new, heffect, hlength, hsame⟩ := initHostBuf_effect
      (Function.update_self ..) (List.length_replicate ..) hinit
    have hsame' : rt'.nextHostBufId = acc.1.nextHostBufId + 1 := hsame
    have heffect' : rt'.hostBufs
        = Function.update acc.1.hostBufs acc.1.nextHostBufId (some new) :=
      heffect.trans (Function.update_idem ..)
    refine ⟨⟨fun buf hbuf => ?_, fun buf hbuf => ?_⟩, by rw [hsame', hnext]⟩
    · rw [hsame', hnext]
      rcases List.mem_append.mp hbuf with hold | hnew
      · have := h.below buf hold
        omega
      · obtain rfl := List.mem_singleton.mp hnew
        exact Nat.lt_succ_self _
    · dsimp only
      rw [heffect']
      rcases List.mem_append.mp hbuf with hold | hnew
      · have hne : buf.2.1 ≠ acc.1.nextHostBufId := by
          intro heq
          have := h.below buf hold
          rw [heq] at this
          omega
        rw [Function.update_of_ne hne]
        exact h.sizes buf hold
      · obtain rfl := List.mem_singleton.mp hnew
        exact ⟨new, Function.update_self .., hlength⟩
  · obtain ⟨id, hid', -⟩ := bind_ok.mp halloc
    cases hid'

theorem allocHostBufs_allocated {hosts : List (Text × HostBufDecl)} {acc acc' : Runtime × HostBufs}
    (h : HostsAllocated acc) (hids : acc.1.nextHostBufId.toNat + hosts.length < 2 ^ 64)
    (halloc : hosts.foldlM (allocHostBuf env) acc = .ok acc') : HostsAllocated acc' := by
  induction hosts generalizing acc with
  | nil =>
      cases halloc
      exact h
  | cons decl hosts ih =>
      obtain ⟨mid, hmid, hrest⟩ := foldlM_cons_ok.mp halloc
      rw [List.length_cons] at hids
      obtain ⟨hmidOk, hmidNext⟩ := allocHostBuf_allocated h (by omega) hmid
      exact ih hmidOk (by omega) hrest

theorem allocHostBufs_table {hosts : List (Text × HostBufDecl)} {acc acc' : Runtime × HostBufs}
    (halloc : hosts.foldlM (allocHostBuf env) acc = .ok acc') :
    acc'.2.map (fun buf => (buf.1, buf.2.2))
      = acc.2.map (fun buf => (buf.1, buf.2.2)) ++ hosts.map fun d => (d.1, d.2.bytes) := by
  induction hosts generalizing acc with
  | nil =>
      cases halloc
      exact (List.append_nil _).symm
  | cons decl hosts ih =>
      obtain ⟨mid, hmid, hrest⟩ := foldlM_cons_ok.mp halloc
      obtain ⟨id, -, hmid⟩ := bind_ok.mp hmid
      obtain ⟨rt₁, -, hok⟩ := bind_ok.mp hmid
      cases hok
      rw [ih hrest, List.map_append, List.append_assoc]
      rfl

theorem allocDeviceBufs_table {devices : List (Text × DeviceBufDecl)}
    {acc acc' : Runtime × DeviceBufs} (halloc : devices.foldlM allocDeviceBuf acc = .ok acc') :
    acc'.2.map (fun buf => (buf.1, buf.2.2))
      = acc.2.map (fun buf => (buf.1, buf.2.2)) ++ devices.map fun d => (d.1, d.2.bytes) := by
  induction devices generalizing acc with
  | nil =>
      cases halloc
      exact (List.append_nil _).symm
  | cons decl devices ih =>
      obtain ⟨mid, hmid, hrest⟩ := foldlM_cons_ok.mp halloc
      unfold allocDeviceBuf at hmid
      split at hmid
      · cases hmid
      · cases hmid
        rw [ih hrest, List.map_append, List.append_assoc]
        rfl

theorem allocDeviceBufs_hostBufs {devices : List (Text × DeviceBufDecl)}
    {acc acc' : Runtime × DeviceBufs}
    (halloc : devices.foldlM allocDeviceBuf acc = .ok acc') : acc'.1.hostBufs = acc.1.hostBufs := by
  refine foldlM_invariant (P := fun s : Runtime × DeviceBufs => s.1.hostBufs = acc.1.hostBufs)
    (fun s decl s' hs hstep => ?_) rfl halloc
  unfold allocDeviceBuf at hstep
  split at hstep
  · cases hstep
  · cases hstep
    exact hs

end Document

/-! ### Runs -/

/-- A kernel leaves the host buffers. -/
def KeepsHostBufs (run : RunKernel) : Prop :=
  ∀ rt kp ka sim rt', run rt kp ka = .ok (sim, rt') → rt'.hostBufs = rt.hostBufs

/-- The states of the schedule whose copies so far were safe. -/
inductive SafelyReached (env : Env) (run : RunKernel) (p : Prepared) : ScheduleState → Prop
  | start : SafelyReached env run p p.start
  | turn {round round' : Round} {sid : StreamId} : SafelyReached env run p round.st →
      (∀ cmd rest cp, round.st.queue sid = cmd :: rest → cmd.kind = .copy cp →
        cp.Safe env round.st.rt) →
      turn env run p.devBufs round sid = .ok round' → SafelyReached env run p round'.st

section Run
variable {env : Env} {run : RunKernel} {rt rt' : Runtime} {path : Text} {p : Prepared}
  {decls : Decls}
  {hostBufs : HostBufs} {cp : CopyPayload}

theorem PreparedBy.tables {res : Resources} (hp : PreparedBy env rt decls res p) :
    TablesDeclared decls res := by
  obtain ⟨rt', hhosts, hdevices⟩ := hp.hosts
  exact ⟨allocHostBufs_table hhosts, allocDeviceBufs_table hdevices⟩

theorem PreparedBy.sizes {res : Resources} (hp : PreparedBy env rt decls res p)
    (hids : rt.nextHostBufId.toNat + decls.hosts.length < 2 ^ 64) :
    SizesKept res.hostBufs p.rt := by
  obtain ⟨rt', hhosts, hdevices⟩ := hp.hosts
  have hallocated : HostsAllocated (rt', res.hostBufs) :=
    allocHostBufs_allocated ⟨fun _ h => absurd h List.not_mem_nil, fun _ h =>
      absurd h List.not_mem_nil⟩
      hids hhosts
  have hkept : p.rt.hostBufs = rt'.hostBufs := allocDeviceBufs_hostBufs hdevices
  intro buf hbuf
  rw [hkept]
  exact hallocated.sizes buf hbuf

/-- The checks of a copy of the document, in a state whose buffers have their sizes. -/
theorem CopyNames.checked {res : Resources} {cv : Value} {hostSize devSize : BitVec 64}
    (h : CopyNames env res cv cp hostSize devSize) (hsizes : SizesKept res.hostBufs rt) :
    CopyChecked cp rt hostSize devSize := by
  obtain ⟨ref, -, -, hlookup⟩ := h.host
  obtain ⟨front, back, hsplit, -⟩ := List.lookup_eq_some_iff.mp hlookup
  have hmem : (ref.name, cp.host, hostSize) ∈ res.hostBufs := by
    rw [hsplit]
    exact List.mem_append_right _ List.mem_cons_self
  exact ⟨h.hostCheck, h.deviceCheck, hsizes _ hmem⟩

/-- A copy leaves the host buffers as long as they were. -/
theorem runCopy_sizes {hostSize devSize : BitVec 64} (hsizes : SizesKept hostBufs rt)
    (hchecked : CopyChecked cp rt hostSize devSize) (hcopy : runCopy env cp rt = .ok rt') :
    SizesKept hostBufs rt' := by
  have hcopies : cp.Copies env rt := ⟨rt', hcopy⟩
  unfold runCopy at hcopy
  cases hkind : cp.kind with
  | h2d =>
      rw [hkind] at hcopy
      obtain ⟨u, -, hcopy⟩ := bind_ok.mp hcopy
      have hmemcpy := orFatal_ok.mp hcopy
      unfold Runtime.memcpyH2d at hmemcpy
      split at hmemcpy
      · cases hmemcpy
      · split at hmemcpy
        · cases hmemcpy
        · cases hmemcpy
          exact hsizes
  | d2h =>
      obtain ⟨hfits, hallocated⟩ := (hchecked.d2h_iff hkind).mp hcopies
      obtain ⟨buf, hbuf, hlength⟩ := hchecked.buffer
      rw [hkind] at hcopy
      obtain ⟨u, -, hcopy⟩ := bind_ok.mp hcopy
      have hmemcpy := orFatal_ok.mp hcopy
      unfold Runtime.memcpyD2h AddrSpaceManager.readGlobal at hmemcpy
      rw [if_pos hallocated] at hmemcpy
      obtain ⟨new, heffect, hnew, -⟩ := Runtime.hostWrite_effect hbuf hmemcpy
      exact hsizes.update hbuf hnew heffect
  | d2d =>
      rw [hkind] at hcopy
      cases hcopy
      exact hsizes
  | memset =>
      rw [hkind] at hcopy
      cases hcopy
      exact hsizes

/-- What every state of the schedule keeps. -/
structure RunKept (res : Resources) (p : Prepared) (st : ScheduleState) : Prop where
  sizes : SizesKept res.hostBufs st.rt
  queued : ∀ sid, ∀ cmd ∈ st.queue sid, cmd ∈ p.queue sid

variable {res : Resources} {rt₀ : Runtime}

/-- A queued copy is one of the document. -/
theorem PreparedBy.copy (hp : PreparedBy env rt₀ decls res p) {sid : StreamId} {cmd : Command}
    (hcmd : cmd ∈ p.queue sid) (hkind : cmd.kind = .copy cp) :
    ∃ cv hostSize devSize, InStreams decls.streams (.object [("copy".toList, cv)])
      ∧ CopyNames env res cv cp hostSize devSize := by
  obtain ⟨-, cmdv, hin, -, hcmdv⟩ := hp.commands.2 sid cmd hcmd
  rw [hkind] at hcmdv
  obtain ⟨cv, rfl, hcv⟩ := parseCommand_copy hcmdv
  obtain ⟨hostSize, devSize, hnames⟩ := parseCopy_names hcv
  exact ⟨cv, hostSize, devSize, hin, hnames⟩

theorem execute_sizes (hrun : KeepsHostBufs run) (hp : PreparedBy env rt₀ decls res p)
    {st st' : ScheduleState} (hkept : RunKept res p st) {sid : StreamId} {cmd : Command}
    (hcmd : cmd ∈ st.queue sid) (hexec : execute env run p.devBufs cmd st = .ok st') :
    SizesKept res.hostBufs st'.rt := by
  unfold execute at hexec
  cases hkind : cmd.kind with
  | copy cp =>
      obtain ⟨cv, hostSize, devSize, -, hnames⟩ := hp.copy (hkept.queued sid cmd hcmd) hkind
      rw [hkind] at hexec
      dsimp only at hexec
      split at hexec
      · cases hexec
      · next rt' hcopy =>
        cases hexec
        exact runCopy_sizes hkept.sizes (hnames.checked hkept.sizes) hcopy
  | kernel kp =>
      rw [hkind] at hexec
      dsimp only at hexec
      split at hexec
      · cases hexec
      · split at hexec
        · cases hexec
        · next sim rt' hkernel =>
          have hsame := hrun _ _ _ _ _ hkernel
          split at hexec
          · cases hexec
          · split at hexec
            · cases hexec
            · cases hexec
              intro buf hbuf
              dsimp only
              rw [hsame]
              exact hkept.sizes buf hbuf
  | eventRecord ev =>
      rw [hkind] at hexec
      cases hexec
      exact hkept.sizes
  | eventWait ev =>
      rw [hkind] at hexec
      cases hexec
      exact hkept.sizes
  | sync =>
      rw [hkind] at hexec
      cases hexec
      exact hkept.sizes

theorem turn_kept (hrun : KeepsHostBufs run) (hp : PreparedBy env rt₀ decls res p)
    {round round' : Round} {sid : StreamId} (hkept : RunKept res p round.st)
    (hturn : turn env run p.devBufs round sid = .ok round') : RunKept res p round'.st := by
  unfold turn at hturn
  split at hturn
  · cases hturn
    exact hkept
  · next cmd rest hqueue =>
    split at hturn
    · split at hturn
      · cases hturn
      · next st hexec =>
        cases hturn
        have hhead : cmd ∈ round.st.queue sid := by
          rw [hqueue]
          exact List.mem_cons_self
        have hsizes : SizesKept res.hostBufs st.rt :=
          execute_sizes hrun hp hkept hhead hexec
        refine ⟨hsizes, ?_⟩
        intro sid' cmd' hcmd'
        dsimp only at hcmd'
        rw [(execute_ok hexec).queue, Function.update_apply] at hcmd'
        split at hcmd'
        · next heq =>
          rw [heq]
          exact hkept.queued sid cmd' (by rw [hqueue]; exact List.mem_cons_of_mem _ hcmd')
        · exact hkept.queued sid' cmd' hcmd'
    · cases hturn
      exact hkept

theorem SafelyReached.kept (hrun : KeepsHostBufs run) (hp : PreparedBy env rt₀ decls res p)
    (hids : rt₀.nextHostBufId.toNat + decls.hosts.length < 2 ^ 64) {st : ScheduleState}
    (hreached : SafelyReached env run p st) : RunKept res p st := by
  induction hreached with
  | start => exact ⟨hp.sizes hids, fun _ _ => id⟩
  | turn _ _ hturn ih => exact turn_kept hrun hp ih hturn

end Run

/-! ### The law -/

/-- A document of one stream with one command, over the buffers given. -/
def oneCommand (host device : Json.Object) (cmd : Value) : Value :=
  .object
    [("buffers".toList, .object [("device".toList, .object device), ("host".toList, .object host)]),
      ("modules".toList, .object []),
      ("streams".toList, .object [(['s'], .object [("commands".toList, .array [cmd])])])]

def natural (n : Nat) : Value := .number (.finite false n)

/-- The declaration of a buffer. -/
def sized (n : Nat) : Value := .object [("bytes".toList, natural n)]

/-- A copy of `n` bytes from the host buffer `h` to an offset in the device buffer `b`. -/
def copyTo (off n : Nat) : Value :=
  .object [("copy".toList, .object
    [("bytes".toList, natural n),
      ("dst".toList, .object [("buffer".toList, .string ['b']), ("offset".toList, natural off)]),
      ("kind".toList, .string "H2D".toList), ("src".toList, .string ['h'])])]

theorem readsBack_natural {n : Nat} (hn : n < 10 ^ 6) : Json.ReadsBack (natural n) :=
  .natural (by omega) (sixDigits_of_lt hn)

theorem readsBack_one {k : Text} {v : Value} (hv : Json.ReadsBack v) :
    Json.ReadsBack (.object [(k, v)]) := by
  refine .object (fun m hm => ?_) (List.pairwise_singleton ..)
  obtain rfl := List.mem_singleton.mp hm
  exact hv

theorem sorted_of_keys {o : Json.Object} (keys : List String)
    (hkeys : Json.Keys o = keys.map String.toList)
    (hsorted : (keys.map String.toList).Pairwise (· < ·)) : Json.Sorted o := by
  rw [Json.Sorted, hkeys]
  exact hsorted

theorem readsBack_copyTo {off n : Nat} (hoff : off < 10 ^ 6) (hn : n < 10 ^ 6) :
    Json.ReadsBack (copyTo off n) := by
  refine readsBack_one (.object ?_ (sorted_of_keys ["bytes", "dst", "kind", "src"] rfl (by decide)))
  simp only [List.forall_mem_cons, List.not_mem_nil, false_imp_iff, implies_true, and_true]
  refine ⟨readsBack_natural hn, .object ?_ (sorted_of_keys ["buffer", "offset"] rfl (by decide)),
    .string _, .string _⟩
  simp only [List.forall_mem_cons, List.not_mem_nil, false_imp_iff, implies_true, and_true]
  exact ⟨.string _, readsBack_natural hoff⟩

theorem readsBack_oneCommand {host device : Json.Object} {cmd : Value}
    (hhost : Json.ReadsBack (.object host)) (hdevice : Json.ReadsBack (.object device))
    (hcmd : Json.ReadsBack cmd) : Json.ReadsBack (oneCommand host device cmd) := by
  have hempty : Json.ReadsBack (.object []) := .object (fun _ h => absurd h List.not_mem_nil) .nil
  have hcmds : Json.ReadsBack (.array [cmd]) := by
    refine .array fun v hv => ?_
    obtain rfl := List.mem_singleton.mp hv
    exact hcmd
  refine .object ?_ (sorted_of_keys ["buffers", "modules", "streams"] rfl (by decide))
  simp only [List.forall_mem_cons, List.not_mem_nil, false_imp_iff, implies_true, and_true]
  refine ⟨.object ?_ (sorted_of_keys ["device", "host"] rfl (by decide)), hempty,
    readsBack_one (readsBack_one hcmds)⟩
  simp only [List.forall_mem_cons, List.not_mem_nil, false_imp_iff, implies_true, and_true]
  exact ⟨hdevice, hhost⟩

def insidePayload : CopyPayload where
  host := 1
  dev := 0x1000
  devOff := 4
  bytes := 4

def insideRun : Prepared where
  rt := { mem := (({} : AddrSpaceManager).allocGlobal 8 16).2
          nextHostBufId := 2
          hostBufs := Function.update (fun _ => none) 1 (some (List.replicate 8 0)) }
  devBufs := [(['b'], 0x1000, 8)]
  streamIds := [1]
  queue := Function.update (fun _ => []) 1
    [{ cmdId := 1, streamId := 1, kind := .copy insidePayload }]

theorem keepsHostBufs_noKernel : KeepsHostBufs noKernel := by
  intro rt kp ka sim rt' hrun
  cases hrun
  rfl

end Workload

end ProtoGpu

import ProtoGpu.Lib.Buffers
import ProtoGpu.Lib.Transitions
import ProtoGpu.Proof.Allocations
import ProtoGpu.Proof.HostBounds
import ProtoGpu.Proof.MemoryConfinement
import ProtoGpu.Proof.WorkloadTrace

/-!
# The buffers of a workload

The buffers of a document as arrays, over the ids and addresses that a run has for them. A copy
moves the range it names from one array to another and leaves the others, and a kernel does what its
specification says. So every state of a run holds what its commands have made of the initial
contents.
-/

namespace ProtoGpu

open Buffers (slice splice)

/-! ### Ranges of sparse memory -/

theorem getElem?_readSparse (mem : SparseMem) (base : Addr) (size i : Nat) :
    (readSparse mem base size)[i]?
      = if i < size then some ((mem (base + BitVec.ofNat 64 i)).getD 0) else none := by
  rw [readSparse, List.getElem?_map]
  split
  · next hi => rw [List.getElem?_range hi, Option.map_some]
  · next hi => rw [List.getElem?_eq_none (by rw [List.length_range]; omega), Option.map_none]

theorem readSparse_slice (mem : SparseMem) (base : Addr) {off n size : Nat} (h : off + n ≤ size) :
    readSparse mem (base + BitVec.ofNat 64 off) n = slice (readSparse mem base size) off n := by
  apply List.ext_getElem?
  intro i
  rw [Buffers.getElem?_slice, getElem?_readSparse, getElem?_readSparse]
  split
  · next hi =>
    rw [if_pos (by omega), BitVec.add_assoc, ← BitVec.ofNat_add]
  · rfl

/-- A write inside the range. -/
theorem readSparse_writeSparse_inside (mem : SparseMem) (base : Addr) {off size : Nat}
    {bytes : List Byte} (h : off + bytes.length ≤ size) (hsize : size ≤ 2 ^ 64) :
    readSparse (writeSparse mem (base + BitVec.ofNat 64 off) bytes) base size
      = splice (readSparse mem base size) off bytes := by
  apply List.ext_getElem?
  intro i
  rw [Buffers.getElem?_splice (by rwa [length_readSparse]), getElem?_readSparse,
    getElem?_readSparse]
  by_cases hi : i < size
  · have hrange : InRange (base + BitVec.ofNat 64 off) bytes.length (base + BitVec.ofNat 64 i)
        ↔ off ≤ i ∧ i < off + bytes.length := by
      unfold InRange
      bv_omega
    rw [if_pos hi, writeSparse_apply _ _ _ (by omega)]
    by_cases hin : off ≤ i ∧ i < off + bytes.length
    · have hdist : (base + BitVec.ofNat 64 i - (base + BitVec.ofNat 64 off)).toNat = i - off := by
        bv_omega
      rw [if_pos (hrange.mpr hin), if_pos hin, hdist, Option.getD_some,
        List.getElem?_eq_getElem (by omega), List.getD_eq_getElem _ _ (by omega)]
    · rw [if_neg fun hw => hin (hrange.mp hw), if_neg hin, if_pos hi]
  · rw [if_neg hi, if_neg hi, if_neg (by omega)]

/-- A write to another range. -/
theorem readSparse_writeSparse_apart (mem : SparseMem) {addr base : Addr} {size : Nat}
    {bytes : List Byte}
    (hwrite : addr.toNat + bytes.length ≤ 2 ^ 64) (hread : base.toNat + size ≤ 2 ^ 64)
    (hapart : addr.toNat + bytes.length ≤ base.toNat ∨ base.toNat + size ≤ addr.toNat) :
    readSparse (writeSparse mem addr bytes) base size = readSparse mem base size := by
  apply readSparse_congr (by omega)
  intro a ha
  have hout : ¬ InRange addr bytes.length a := by
    unfold InRange at ha ⊢
    bv_omega
  rw [writeSparse_of_not_inRange mem addr (by omega) hout]

namespace Workload

open Throwing
open Transitions (Run)

/-! ### The buffers of a table -/

abbrev ByteStore := Buffers.Store HostBufId Addr Byte

/-- The size of the buffer at an address. -/
def deviceSize (devBufs : DeviceBufs) (base : Addr) : Nat :=
  match devBufs.find? fun buf => buf.2.1 == base with
  | none => 0
  | some buf => buf.2.2.toNat

/-- What the buffers hold. -/
def contents (devBufs : DeviceBufs) (rt : Runtime) : ByteStore where
  host id := (rt.hostBufs id).getD []
  device base := readSparse rt.mem.global base (deviceSize devBufs base)

/-- The buffer ends where the other begins, or before. -/
def EndsBefore (b c : Text × Addr × BitVec 64) : Prop := b.2.1.toNat + b.2.2.toNat ≤ c.2.1.toNat

/-- The buffers stand one behind the other. -/
structure DevicesApart (devBufs : DeviceBufs) : Prop where
  below : ∀ buf ∈ devBufs, buf.2.1.toNat + buf.2.2.toNat ≤ 2 ^ 64
  nonempty : ∀ buf ∈ devBufs, 0 < buf.2.2.toNat
  apart : devBufs.Pairwise EndsBefore

section Table

variable {devBufs : DeviceBufs} {buf : Text × Addr × BitVec 64}

theorem deviceSize_of_mem (h : DevicesApart devBufs) (hbuf : buf ∈ devBufs) :
    deviceSize devBufs buf.2.1 = buf.2.2.toNat := by
  obtain ⟨-, hnonempty, hapart⟩ := h
  unfold deviceSize
  induction devBufs with
  | nil => exact absurd hbuf List.not_mem_nil
  | cons b devBufs ih =>
      obtain ⟨hb, hrest⟩ := List.pairwise_cons.mp hapart
      rcases List.mem_cons.mp hbuf with rfl | hbuf
      · rw [List.find?_cons_of_pos (by rw [beq_self_eq_true])]
      · have hne : ¬ (b.2.1 == buf.2.1) = true := by
          have hpos := hnonempty b List.mem_cons_self
          have hle : b.2.1.toNat + b.2.2.toNat ≤ buf.2.1.toNat := hb buf hbuf
          rw [beq_iff_eq]
          intro heq
          rw [heq] at hle
          omega
        have hskip : (b :: devBufs).find? (fun c => c.2.1 == buf.2.1)
            = devBufs.find? fun c => c.2.1 == buf.2.1 := List.find?_cons_of_neg hne
        rw [hskip]
        exact ih hbuf (fun c hc => hnonempty c (List.mem_cons_of_mem b hc)) hrest

/-- Another address of the table is that of a buffer apart, any other address that of no buffer. -/
theorem apart_of_ne (h : DevicesApart devBufs) (hbuf : buf ∈ devBufs) {base : Addr}
    (hne : base ≠ buf.2.1) :
    deviceSize devBufs base = 0
      ∨ base.toNat + deviceSize devBufs base ≤ 2 ^ 64
        ∧ (buf.2.1.toNat + buf.2.2.toNat ≤ base.toNat
          ∨ base.toNat + deviceSize devBufs base ≤ buf.2.1.toNat) := by
  cases hfind : devBufs.find? fun buf => buf.2.1 == base with
  | none =>
      left
      rw [deviceSize, hfind]
  | some other =>
      right
      obtain rfl : other.2.1 = base := by simpa using List.find?_some hfind
      have hother := List.mem_of_find?_eq_some hfind
      rw [deviceSize_of_mem h hother]
      refine ⟨h.below other hother, ?_⟩
      have hsides : buf = other ∨ EndsBefore buf other ∨ EndsBefore other buf :=
        List.Pairwise.forall_of_forall_of_flip (R := fun b c => b = c ∨ EndsBefore b c ∨
          EndsBefore c b)
          (fun _ _ => .inl rfl) (h.apart.imp fun hle => .inr (.inl hle))
          (h.apart.imp fun hle => .inr (.inr hle)) hbuf hother
      exact hsides.resolve_left fun heq => hne (congrArg (fun b => b.2.1) heq.symm)

end Table

/-! ### One command -/

/-- What a copy does to the buffers. -/
def CopyPayload.applied (cp : CopyPayload) (s : ByteStore) : ByteStore :=
  match cp.kind with
  | .h2d => s.toDevice cp.host cp.hostOff.toNat cp.dev cp.devOff.toNat cp.bytes.toNat
  | .d2h => s.toHost cp.host cp.hostOff.toNat cp.dev cp.devOff.toNat cp.bytes.toNat
  | _ => s

/-- The buffers before a kernel and after it. -/
abbrev KernelSpec := KernelPayload → KernelArgs → ByteStore → ByteStore → Prop

/-- What a command does to the buffers. -/
def BufferStep (env : Env) (devBufs : DeviceBufs) (K : KernelSpec) (s : ByteStore) (cmd : Command)
    (s' : ByteStore) : Prop :=
  match cmd.kind with
  | .copy cp => s' = cp.applied s
  | .kernel kp => ∃ ka, packKernelArgs env kp.mod kp.entry kp.args devBufs = .ok ka ∧ K kp ka s s'
  | _ => s' = s

/-- A kernel that completes has done what is specified. -/
def Meets (run : RunKernel) (devBufs : DeviceBufs) (K : KernelSpec) : Prop :=
  ∀ rt kp ka sim rt', run rt kp ka = .ok (sim, rt') → sim.completed = true → sim.diag = none →
    K kp ka (contents devBufs rt) (contents devBufs rt')

/-- `run` is a run of the runtime, on the texts of the payload's module. -/
def RunsKernels (renv : RunEnv) (run : RunKernel) : Prop :=
  ∀ rt kp ka sim rt', run rt kp ka = .ok (sim, rt') →
    ∃ job : KernelJob, job.entry = some kp.entry ∧ job.launch = kp.launch ∧ job.args = some ka
      ∧ KernelRun renv job rt (.ok sim) rt'

theorem keepsHostBufs_of_runsKernels {renv : RunEnv} {run : RunKernel}
    (hruns : RunsKernels renv run) : KeepsHostBufs run := by
  intro rt kp ka sim rt' hrun
  obtain ⟨job, -, -, -, hkernel⟩ := hruns rt kp ka sim rt' hrun
  exact hkernel.frame.hostBufs

section Command

variable {env : Env} {run : RunKernel} {devBufs : DeviceBufs} {K : KernelSpec} {cp : CopyPayload}
  {rt rt' : Runtime} {hostSize devSize : BitVec 64}

theorem toNat_add_le_of_noWrap {off n size : BitVec 64} (h : NoWrap off n)
    (hcheck : (off + n).toNat ≤ size.toNat) : off.toNat + n.toNat ≤ size.toNat := by
  rwa [BitVec.toNat_add, Nat.mod_eq_of_lt h] at hcheck

theorem hostRead_slice {id : HostBufId} {buf data : List Byte} {off n : BitVec 64}
    (hbuf : rt.hostBufs id = some buf) (hin : off.toNat + n.toNat ≤ buf.length)
    (hread : rt.hostRead id off n = some data) : data = slice buf off.toNat n.toNat := by
  unfold Runtime.hostRead at hread
  rw [hbuf] at hread
  dsimp only at hread
  split at hread
  · cases hread
  · obtain rfl := Option.some.inj hread
    apply List.ext_getElem?
    intro i
    rw [Buffers.getElem?_slice, List.getElem?_map]
    split
    · next hi =>
      rw [List.getElem?_range hi, Option.map_some, List.getD_eq_getElem _ _ (by omega),
        List.getElem?_eq_getElem (by omega)]
    · next hi => rw [List.getElem?_eq_none (by rw [List.length_range]; omega), Option.map_none]

/-- The device buffers after a write to one of them. -/
theorem contents_write {name : Text} (hapart : DevicesApart devBufs)
    (hmem : (name, cp.dev, devSize) ∈ devBufs)
    {bytes : List Byte} {off : BitVec 64} (hin : off.toNat + bytes.length ≤ devSize.toNat)
    (base : Addr) :
    readSparse (writeSparse rt.mem.global (cp.dev + off) bytes) base (deviceSize devBufs base)
      = Function.update (contents devBufs rt).device cp.dev
          (splice ((contents devBufs rt).device cp.dev) off.toNat bytes) base := by
  have hbelow := hapart.below _ hmem
  have hsize := deviceSize_of_mem hapart hmem
  dsimp only at hbelow hsize
  by_cases hbase : base = cp.dev
  · subst hbase
    have hoff : cp.dev + off = cp.dev + BitVec.ofNat 64 off.toNat := by
      rw [BitVec.ofNat_toNat, BitVec.setWidth_eq]
    rw [Function.update_self, hoff, readSparse_writeSparse_inside _ _ (by omega) (by omega)]
    rfl
  · rw [Function.update_of_ne hbase]
    rcases apart_of_ne hapart hmem hbase with hnone | ⟨hother, hsides⟩
    · rw [hnone]
      unfold contents
      dsimp only
      rw [hnone]
      rfl
    · dsimp only at hsides
      apply readSparse_writeSparse_apart
      · bv_omega
      · exact hother
      · bv_omega

/-- A safe copy, on the buffers. -/
theorem runCopy_contents {name : Text} (hapart : DevicesApart devBufs)
    (hmem : (name, cp.dev, devSize) ∈ devBufs) (hchecked : CopyChecked cp rt hostSize devSize)
    (hsafe : cp.Safe env rt) (hcopy : runCopy env cp rt = .ok rt') :
    contents devBufs rt' = cp.applied (contents devBufs rt) := by
  have hcopies : cp.Copies env rt := ⟨rt', hcopy⟩
  obtain ⟨buf, hbuf, hlength⟩ := hchecked.buffer
  have hhost : (contents devBufs rt).host cp.host = buf := congrArg (fun o => o.getD []) hbuf
  unfold CopyPayload.Safe at hsafe
  unfold runCopy at hcopy
  unfold CopyPayload.applied
  cases hkind : cp.kind with
  | h2d =>
      obtain ⟨hfits, hallocated⟩ := (hchecked.h2d_iff hkind).mp hcopies
      rw [hkind] at hcopy hsafe
      obtain ⟨hhostSum, hdevSum⟩ := hsafe hfits
      have hhostIn := toNat_add_le_of_noWrap hhostSum hchecked.host
      have hdevIn := toNat_add_le_of_noWrap (hdevSum hallocated) hchecked.device
      obtain ⟨u, -, hcopy⟩ := bind_ok.mp hcopy
      have hmemcpy := orFatal_ok.mp hcopy
      unfold Runtime.memcpyH2d at hmemcpy
      split at hmemcpy
      · cases hmemcpy
      · next data hread =>
        obtain rfl := hostRead_slice hbuf (by omega) hread
        have hslice : (slice buf cp.hostOff.toNat cp.bytes.toNat).length = cp.bytes.toNat :=
          Buffers.length_slice (by omega)
        unfold AddrSpaceManager.writeGlobal at hmemcpy
        rw [hslice, BitVec.ofNat_toNat, BitVec.setWidth_eq, if_pos hallocated] at hmemcpy
        cases hmemcpy
        unfold Buffers.Store.toDevice
        rw [hhost]
        refine congrArg (Buffers.Store.mk _) (funext fun base => ?_)
        exact contents_write hapart hmem (by omega) base
  | d2h =>
      obtain ⟨hfits, hallocated⟩ := (hchecked.d2h_iff hkind).mp hcopies
      rw [hkind] at hcopy hsafe
      obtain ⟨hhostSum, hdevSum⟩ := hsafe hfits hallocated
      have hhostIn := toNat_add_le_of_noWrap hhostSum hchecked.host
      have hdevIn := toNat_add_le_of_noWrap hdevSum hchecked.device
      obtain ⟨u, -, hcopy⟩ := bind_ok.mp hcopy
      have hmemcpy := orFatal_ok.mp hcopy
      unfold Runtime.memcpyD2h AddrSpaceManager.readGlobal at hmemcpy
      rw [if_pos hallocated] at hmemcpy
      dsimp only at hmemcpy
      have hoff : cp.dev + cp.devOff = cp.dev + BitVec.ofNat 64 cp.devOff.toNat := by
        rw [BitVec.ofNat_toNat, BitVec.setWidth_eq]
      have hdevice : (contents devBufs rt).device cp.dev
          = readSparse rt.mem.global cp.dev devSize.toNat := by
        unfold contents
        dsimp only
        rw [deviceSize_of_mem hapart hmem]
      rw [hoff, readSparse_slice _ _ hdevIn, ← hdevice] at hmemcpy
      unfold Runtime.hostWrite at hmemcpy
      rw [hbuf] at hmemcpy
      dsimp only at hmemcpy
      split at hmemcpy
      · cases hmemcpy
      · cases hmemcpy
        have hslice : (slice ((contents devBufs rt).device cp.dev) cp.devOff.toNat
            cp.bytes.toNat).length = cp.bytes.toNat := by
          rw [hdevice]
          exact Buffers.length_slice (by rw [length_readSparse]; omega)
        have hend := buf.length.le_refl
        unfold Buffers.Store.toHost
        rw [hhost, ← Runtime.storeBytes_eq_splice (by rw [hslice]; omega) (by rw [hslice]; omega)]
        exact congrArg (fun host => Buffers.Store.mk host (contents devBufs rt).device)
          (Function.comp_update (fun o : Option (List Byte) => o.getD []) rt.hostBufs cp.host _)
  | d2d =>
      rw [hkind] at hcopy
      cases hcopy
      rfl
  | memset =>
      rw [hkind] at hcopy
      cases hcopy
      rfl

theorem execute_buffers {decls : Decls} {res : Resources} {rt₀ : Runtime} {p : Prepared}
    (hp : PreparedBy env rt₀ decls res p) (hapart : DevicesApart p.devBufs)
    (hmeets : Meets run p.devBufs K)
    {st st' : ScheduleState} (hkept : RunKept res p st) {sid : StreamId} {cmd : Command}
    (hcmd : cmd ∈ st.queue sid) (hsafe : ∀ cp, cmd.kind = .copy cp → cp.Safe env st.rt)
    (hexec : execute env run p.devBufs cmd st = .ok st') :
    BufferStep env p.devBufs K (contents p.devBufs st.rt) cmd (contents p.devBufs st'.rt) := by
  unfold execute at hexec
  unfold BufferStep
  cases hkind : cmd.kind with
  | copy cp =>
      obtain ⟨cv, hostSize, devSize, -, hnames⟩ := hp.copy (hkept.queued sid cmd hcmd) hkind
      obtain ⟨ref, -, -, hlookup⟩ := hnames.device
      obtain ⟨front, back, hsplit, -⟩ := List.lookup_eq_some_iff.mp hlookup
      have hmem : (ref.name, cp.dev, devSize) ∈ p.devBufs := by
        rw [hp.devBufs, hsplit]
        exact List.mem_append_right _ List.mem_cons_self
      rw [hkind] at hexec
      dsimp only at hexec
      split at hexec
      · cases hexec
      · next rt' hcopy =>
        cases hexec
        exact runCopy_contents hapart hmem (hnames.checked hkept.sizes) (hsafe cp hkind) hcopy
  | kernel kp =>
      rw [hkind] at hexec
      dsimp only at hexec
      split at hexec
      · cases hexec
      · next ka hpack =>
        split at hexec
        · cases hexec
        · next sim rt' hkernel =>
          split at hexec
          · cases hexec
          · next hdiag =>
            split at hexec
            · cases hexec
            · next hcompleted =>
              cases hexec
              exact ⟨ka, hpack, hmeets _ _ _ _ _ hkernel (by simpa using hcompleted)
                (by simpa using hdiag)⟩
  | eventRecord ev =>
      rw [hkind] at hexec
      cases hexec
      rfl
  | eventWait ev =>
      rw [hkind] at hexec
      cases hexec
      rfl
  | sync =>
      rw [hkind] at hexec
      cases hexec
      rfl

end Command

/-! ### Runs -/

section Run

variable {env : Env} {run : RunKernel} {K : KernelSpec} {rt₀ : Runtime} {decls : Decls}
  {res : Resources}
  {p : Prepared}

/-- What the commands of a state have made of the initial contents. -/
def Made (env : Env) (K : KernelSpec) (p : Prepared) (st : ScheduleState) : Prop :=
  Run (BufferStep env p.devBufs K) (contents p.devBufs p.rt) st.executed (contents p.devBufs st.rt)

theorem SafelyReached.made (hp : PreparedBy env rt₀ decls res p) (hapart : DevicesApart p.devBufs)
    (hrun : KeepsHostBufs run) (hmeets : Meets run p.devBufs K)
    (hids : rt₀.nextHostBufId.toNat + decls.hosts.length < 2 ^ 64) {st : ScheduleState}
    (hreached : SafelyReached env run p st) : Made env K p st := by
  induction hreached with
  | start => exact .start
  | @turn round round' sid hreached hsafe hturn ih =>
      have hkept := hreached.kept hrun hp hids
      unfold Workload.turn at hturn
      split at hturn
      · cases hturn
        exact ih
      · next cmd rest hqueue =>
        split at hturn
        · split at hturn
          · cases hturn
          · next st hexec =>
            cases hturn
            have hhead : cmd ∈ round.st.queue sid := by
              rw [hqueue]
              exact List.mem_cons_self
            have hstep := execute_buffers hp hapart hmeets hkept hhead
              (fun cp => hsafe cmd rest cp hqueue) hexec
            unfold Made
            dsimp only
            rw [(execute_ok hexec).executed]
            exact ih.next hstep
        · cases hturn
          exact ih

/-- What every turn keeps, a schedule keeps. -/
theorem runSchedule_invariant {P : ScheduleState → Prop}
    (hturn : ∀ round sid round', P round.st → turn env run p.devBufs round sid = .ok round' →
      P round'.st)
    {fuel : Nat} {st st' : ScheduleState} (hst : P st)
    (hrun : runSchedule env run p fuel st = some (.ok st')) : P st' := by
  induction fuel generalizing st with
  | zero => cases hrun
  | succ fuel ih =>
      rw [runSchedule] at hrun
      cases hround : p.streamIds.foldlM (turn env run p.devBufs) { st := st } with
      | error e =>
          rw [hround] at hrun
          cases hrun
      | ok round =>
          rw [hround] at hrun
          have hkept : P round.st :=
            foldlM_invariant (P := fun round : Round => P round.st) hturn hst hround
          dsimp only at hrun
          split at hrun
          · cases hrun
            exact hkept
          · split at hrun
            · cases hrun
            · exact ih hkept hrun

/-- No range of a copy wraps. -/
def RangesFit (p : Prepared) : Prop :=
  ∀ sid, ∀ cmd ∈ p.queue sid, ∀ cp, cmd.kind = .copy cp →
    NoWrap cp.hostOff cp.bytes ∧ NoWrap cp.devOff cp.bytes

theorem RangesFit.safe {cp : CopyPayload} {rt : Runtime}
    (h : NoWrap cp.hostOff cp.bytes ∧ NoWrap cp.devOff cp.bytes) : cp.Safe env rt := by
  unfold CopyPayload.Safe
  split
  · exact fun _ => ⟨h.1, fun _ => h.2⟩
  · exact fun _ _ => h
  · trivial

theorem RangesFit.reached (h : RangesFit p) (hp : PreparedBy env rt₀ decls res p)
    (hrun : KeepsHostBufs run)
    (hids : rt₀.nextHostBufId.toNat + decls.hosts.length < 2 ^ 64) {fuel : Nat} {st : ScheduleState}
    (hend : runSchedule env run p fuel p.start = some (.ok st)) : SafelyReached env run p st := by
  refine runSchedule_invariant (fun round sid round' hreached hturn => ?_) .start hend
  refine .turn hreached (fun cmd rest cp hqueue hkind => ?_) hturn
  have hmem :=
    (hreached.kept hrun hp hids).queued sid cmd (by rw [hqueue]; exact List.mem_cons_self)
  exact RangesFit.safe (h sid cmd hmem cp hkind)

end Run

/-! ### Where the buffers are -/

section Layout

variable {env : Env} {rt : Runtime} {decls : Decls} {res : Resources} {p : Prepared}

def deviceRequest (d : Text × DeviceBufDecl) : AllocRequest where
  bytes := d.2.bytes
  align := d.2.align

def deviceBlock (buf : Text × Addr × BitVec 64) : Bump.Block where
  base := buf.2.1.toNat
  size := buf.2.2.toNat

theorem allocDeviceBufs_blocks {devices : List (Text × DeviceBufDecl)}
    {acc acc' : Runtime × DeviceBufs} (halloc : devices.foldlM allocDeviceBuf acc = .ok acc') :
    acc'.1.mem.global = acc.1.mem.global ∧ ∃ bufs, acc'.2 = acc.2 ++ bufs
      ∧ bufs.map deviceBlock = List.zipWith grantedBlock (devices.map deviceRequest)
          (grants acc.1.mem (devices.map deviceRequest))
      ∧ ∀ buf ∈ bufs, 0 < buf.2.2.toNat := by
  induction devices generalizing acc with
  | nil =>
      cases halloc
      exact ⟨rfl, [], (List.append_nil _).symm, rfl, fun _ h => absurd h List.not_mem_nil⟩
  | cons d devices ih =>
      obtain ⟨mid, hmid, hrest⟩ := foldlM_cons_ok.mp halloc
      unfold allocDeviceBuf at hmid
      split at hmid
      · cases hmid
      · next hbytes =>
        cases hmid
        obtain ⟨hglobal, bufs, htable, hblocks, hpos⟩ := ih hrest
        have hsize : 0 < d.2.bytes.toNat := Nat.pos_of_ne_zero fun h =>
            hbytes (BitVec.eq_of_toNat_eq h)
        refine ⟨hglobal, (d.1, (acc.1.mem.allocGlobal d.2.bytes d.2.align).1, d.2.bytes)
          :: bufs, ?_, ?_,
          List.forall_mem_cons.mpr ⟨hsize, hpos⟩⟩
        · rw [htable, List.append_assoc]
          rfl
        · rw [List.map_cons, hblocks, List.map_cons, grants, List.zipWith_cons_cons]
          refine congrArg (fun b => b :: _) ?_
          unfold deviceBlock grantedBlock AllocRequest.effective deviceRequest
          dsimp only
          rw [Nat.max_eq_left hsize]

/-- The bytes that a host buffer is initialised with. -/
def HostBufDecl.payload (env : Env) (d : HostBufDecl) : Except Throw (List Byte) :=
  match d.initKind with
  | .zeros => .ok []
  | .hex => parseHexBytes d.initPayload
  | .file => do
      let text ← slurp env d.initPayload
      return text.map fun c => BitVec.ofNat 8 c.toNat

/-- The bytes, and zeros behind them. -/
def HostBufDecl.padded (d : HostBufDecl) (bytes : List Byte) : List Byte :=
  bytes ++ List.replicate (d.bytes.toNat - bytes.length) 0

theorem writeInit_zeros {rt' : Runtime} {id : HostBufId} {d : HostBufDecl} {bytes : List Byte}
    {message : String} (hzeros : rt.hostBufs id = some (List.replicate d.bytes.toNat 0))
    (hwrite : writeInit rt id d bytes message = .ok rt') :
    rt' = { rt with hostBufs := Function.update rt.hostBufs id (some (d.padded bytes)) } := by
  unfold writeInit at hwrite
  split at hwrite
  · cases hwrite
  · have hok := orFatal_ok.mp hwrite
    unfold Runtime.hostWrite at hok
    rw [hzeros] at hok
    dsimp only at hok
    split at hok
    · cases hok
    · cases hok
      next hfits _ =>
      have hlength : bytes.length ≤ d.bytes.toNat := Nat.not_lt.mp hfits
      have hzero : (0 : BitVec 64).toNat = 0 := rfl
      have hbound := d.bytes.isLt
      rw [Runtime.storeBytes_eq_splice (by rw [List.length_replicate]; omega) (by omega)]
      simp [Buffers.splice, HostBufDecl.padded]

theorem initHostBuf_payload {rt' : Runtime} {id : HostBufId} {name : Text} {d : HostBufDecl}
    (hzeros : rt.hostBufs id = some (List.replicate d.bytes.toNat 0))
    (hinit : initHostBuf env rt id name d = .ok rt') :
    ∃ bytes, d.payload env = .ok bytes
      ∧ rt' = { rt with hostBufs := Function.update rt.hostBufs id (some (d.padded bytes)) } := by
  unfold initHostBuf at hinit
  unfold HostBufDecl.payload
  cases hkind : d.initKind with
  | zeros =>
      rw [hkind] at hinit
      cases hinit
      have hsame : d.padded [] = List.replicate d.bytes.toNat 0 := rfl
      refine ⟨[], rfl, ?_⟩
      rw [hsame, ← hzeros, Function.update_eq_self]
  | hex =>
      rw [hkind] at hinit
      obtain ⟨bytes, hbytes, hwrite⟩ := bind_ok.mp hinit
      exact ⟨bytes, hbytes, writeInit_zeros hzeros hwrite⟩
  | file =>
      rw [hkind] at hinit
      obtain ⟨text, htext, hwrite⟩ := bind_ok.mp hinit
      exact ⟨_, bind_ok.mpr ⟨text, htext, rfl⟩, writeInit_zeros hzeros hwrite⟩

theorem allocHostBuf_initial {acc acc' : Runtime × HostBufs} {decl : Text × HostBufDecl}
    (halloc : allocHostBuf env acc decl = .ok acc') :
    ∃ bytes, decl.2.payload env = .ok bytes
      ∧ acc'.1.hostBufs
        = Function.update acc.1.hostBufs acc.1.nextHostBufId (some (decl.2.padded bytes))
      ∧ acc'.1.nextHostBufId = acc.1.nextHostBufId + 1 ∧ acc'.1.mem = acc.1.mem
      ∧ acc'.2 = acc.2 ++ [(decl.1, acc.1.nextHostBufId, decl.2.bytes)] := by
  unfold allocHostBuf Runtime.hostAlloc at halloc
  dsimp only at halloc
  split at halloc
  · obtain ⟨id, hid, halloc⟩ := bind_ok.mp halloc
    cases hid
    obtain ⟨rt', hinit, hok⟩ := bind_ok.mp halloc
    cases hok
    obtain ⟨bytes, hbytes, rfl⟩ := initHostBuf_payload (Function.update_self ..) hinit
    exact ⟨bytes, hbytes, Function.update_idem .., rfl, rfl, rfl⟩
  · obtain ⟨id, hid, -⟩ := bind_ok.mp halloc
    cases hid

/-- The buffers of a table hold the initial bytes of their declarations. -/
def HoldInitial (env : Env) (hosts : List (Text × HostBufDecl)) (hostBufs : HostBufs)
    (held : HostBufId → Option (List Byte)) : Prop :=
  List.Forall₂ (fun d buf => ∃ bytes, d.2.payload env = .ok bytes
    ∧ held buf.2.1 = some (d.2.padded bytes)) hosts hostBufs

theorem allocHostBufs_initial {hosts : List (Text × HostBufDecl)} {acc acc' : Runtime × HostBufs}
    (hids : acc.1.nextHostBufId.toNat + hosts.length < 2 ^ 64)
    (halloc : hosts.foldlM (allocHostBuf env) acc = .ok acc') :
    acc'.1.mem = acc.1.mem
      ∧ (∀ id : HostBufId, id.toNat < acc.1.nextHostBufId.toNat → acc'.1.hostBufs id
        = acc.1.hostBufs id)
      ∧ ∃ bufs, acc'.2 = acc.2 ++ bufs ∧ HoldInitial env hosts bufs acc'.1.hostBufs := by
  induction hosts generalizing acc with
  | nil =>
      cases halloc
      exact ⟨rfl, fun _ _ => rfl, [], (List.append_nil _).symm, .nil⟩
  | cons d hosts ih =>
      obtain ⟨mid, hmid, hrest⟩ := foldlM_cons_ok.mp halloc
      rw [List.length_cons] at hids
      obtain ⟨bytes, hbytes, hheld, hnext, hmem, htable⟩ := allocHostBuf_initial hmid
      have hid : mid.1.nextHostBufId.toNat = acc.1.nextHostBufId.toNat + 1 := by
        rw [hnext]
        bv_omega
      obtain ⟨hmem', hkept, bufs, htable', hinitial⟩ := ih (by omega) hrest
      refine ⟨hmem'.trans hmem, fun id hlt => ?_, (d.1, acc.1.nextHostBufId, d.2.bytes)
        :: bufs, ?_, ?_⟩
      · have hne : id ≠ acc.1.nextHostBufId := by
          rintro rfl
          omega
        rw [hkept id (by omega), hheld, Function.update_of_ne hne]
      · rw [htable', htable, List.append_assoc]
        rfl
      · refine .cons ⟨bytes, hbytes, ?_⟩ hinitial
        dsimp only
        rw [hkept _ (by omega), hheld, Function.update_self]

/-- The layout of a workload that is ready to run. -/
theorem PreparedBy.layout (hp : PreparedBy env rt decls res p)
    (hids : rt.nextHostBufId.toNat + decls.hosts.length < 2 ^ 64)
    (hfits : FitsBelow rt.mem.nextGlobalAddr.toNat (decls.devices.map deviceRequest)) :
    DevicesApart p.devBufs ∧ p.rt.mem.global = rt.mem.global
      ∧ HoldInitial env decls.hosts res.hostBufs p.rt.hostBufs := by
  obtain ⟨rt', hhosts, hdevices⟩ := hp.hosts
  obtain ⟨hmem, -, bufs, htable, hinitial⟩ := allocHostBufs_initial hids hhosts
  obtain ⟨hglobal, devBufs, hdevTable, hblocks, hpos⟩ := allocDeviceBufs_blocks hdevices
  rw [List.nil_append] at htable hdevTable
  dsimp only at hmem htable hdevTable hglobal hblocks hinitial
  have hkept : p.rt.hostBufs = rt'.hostBufs := allocDeviceBufs_hostBufs hdevices
  rw [hmem, grants_eq_blocks hfits] at hblocks
  refine ⟨?_, by rw [hglobal, hmem], by rw [htable, hkept]; exact hinitial⟩
  rw [hp.devBufs, hdevTable]
  refine ⟨fun buf hbuf => ?_, hpos, ?_⟩
  · exact hfits (deviceBlock buf) (hblocks ▸ List.mem_map_of_mem hbuf)
  · have hpairs := Bump.pairwise_blocks rt.mem.nextGlobalAddr.toNat
      ((decls.devices.map deviceRequest).map AllocRequest.effective)
    rw [← hblocks, List.pairwise_map] at hpairs
    exact hpairs

end Layout

/-! ### The law -/

/-- **Workload buffers.** The buffers start with their declared bytes, the device buffers with what
is in their memory, and a copy is between those that its command names. In every state behind safe
copies they hold what the commands so far make of that, and a workload no range of which wraps ends
with what a schedule of all its commands makes of it. -/
theorem workload_buffers {env : Env} {run : RunKernel} {K : KernelSpec} {rt : Runtime} {path : Text}
    {p : Prepared} {decls : Decls} (hprepare : prepare env rt path = .ok p)
    (hdecls : readDecls env path = .ok decls)
    (hids : rt.nextHostBufId.toNat + decls.hosts.length < 2 ^ 64)
    (hfits : FitsBelow rt.mem.nextGlobalAddr.toNat (decls.devices.map deviceRequest))
    (hrun : KeepsHostBufs run) (hmeets : Meets run p.devBufs K) :
    (∃ res, TablesDeclared decls res ∧ res.devBufs = p.devBufs
      ∧ HoldInitial env decls.hosts res.hostBufs p.rt.hostBufs ∧ p.rt.mem.global = rt.mem.global
      ∧ ∀ sid, ∀ cmd ∈ p.queue sid, ∀ cp, cmd.kind = .copy cp → ∃ cv hostSize devSize,
          InStreams decls.streams (.object [("copy".toList, cv)])
            ∧ CopyNames env res cv cp hostSize devSize)
    ∧ (∀ st, SafelyReached env run p st → Made env K p st)
    ∧ (RangesFit p → ∀ fuel st, runSchedule env run p fuel p.start = some (.ok st) →
        eventSystem.Schedules p.queue st.executed ∧ Made env K p st) := by
  obtain ⟨decls', res, hdecls', hp⟩ := prepare_parts hprepare
  obtain rfl := Except.ok.inj (hdecls'.symm.trans hdecls)
  obtain ⟨hapart, hglobal, hinitial⟩ := hp.layout hids hfits
  have hmade : ∀ st, SafelyReached env run p st → Made env K p st :=
    fun st hreached => hreached.made hp hapart hrun hmeets hids
  refine ⟨⟨res, hp.tables, hp.devBufs.symm, hinitial, hglobal, fun _ _ hcmd _ => hp.copy hcmd⟩,
    hmade, fun hranges fuel st hend => ?_⟩
  refine ⟨?_, hmade st (hranges.reached hp hrun hids hend)⟩
  have hmarked : Marked p [] p.start [] := ⟨.start p, rfl⟩
  obtain ⟨marks, -, hended⟩ := schedule_ended (wellQueued_prepare hprepare) hmarked hend
  cases hended with
  | completed st horder => exact horder

/-- Half of `h` is copied into the second half of `b`. -/
def hexDoc : Json.Value :=
  oneCommand
    [(['h'], .object
      [("bytes".toList, natural 8),
        ("init".toList, .object [("hex".toList, .string "0A0B0C0D".toList)])])]
    [(['b'], sized 8)] (copyTo 4 4)

def hexRun : Prepared :=
  { insideRun with
    rt := { insideRun.rt with
      hostBufs :=
        Function.update insideRun.rt.hostBufs 1 (some [0x0A, 0x0B, 0x0C, 0x0D, 0, 0, 0, 0]) } }

theorem readsBack_hexDoc : Json.ReadsBack hexDoc := by
  refine readsBack_oneCommand
    (readsBack_one (.object ?_ (sorted_of_keys ["bytes", "init"] rfl (by decide))))
    (readsBack_one (readsBack_one (readsBack_natural (by decide))))
      (readsBack_copyTo (by decide) (by decide))
  simp only [List.forall_mem_cons, List.not_mem_nil, false_imp_iff, implies_true, and_true]
  exact ⟨readsBack_natural (by decide), readsBack_one (.string _)⟩

theorem prepare_hexDoc : prepare (fileEnv hexDoc) {} [] = .ok hexRun := by
  have hroot : parseRoot (Json.stringify hexDoc) = .ok hexDoc := by
    rw [parseRoot, readsBack_hexDoc.parse_stringify]
  exact bind_ok.mpr ⟨Json.stringify hexDoc, rfl, bind_ok.mpr ⟨hexDoc, hroot, rfl⟩⟩

theorem rangesFit_hexRun : RangesFit hexRun := by
  intro sid cmd hcmd cp hkind
  change cmd ∈ Function.update (fun _ => []) 1 _ sid at hcmd
  rw [Function.update_apply] at hcmd
  split at hcmd
  · obtain rfl := List.mem_singleton.mp hcmd
    cases hkind
    exact ⟨show 0 + 4 < 2 ^ 64 by decide, show 4 + 4 < 2 ^ 64 by decide⟩
  · exact absurd hcmd List.not_mem_nil

/-- The copy moves the bytes of the document. -/
theorem workload_buffers_hex :
    ∃ st, runSchedule (fileEnv hexDoc) noKernel hexRun 2 hexRun.start = some (.ok st)
      ∧ eventSystem.Schedules hexRun.queue st.executed
      ∧ Made (fileEnv hexDoc) (fun _ _ s s' => s' = s) hexRun st
      ∧ st.rt.mem.readGlobal 0x1000 8 = some [0, 0, 0, 0, 0x0A, 0x0B, 0x0C, 0x0D] := by
  have hroot : parseRoot (Json.stringify hexDoc) = .ok hexDoc := by
    rw [parseRoot, readsBack_hexDoc.parse_stringify]
  have hdecls : ∃ decls, readDecls (fileEnv hexDoc) [] = .ok decls ∧ decls.hosts.length = 1
      ∧ decls.devices.map deviceRequest = [⟨8, 16⟩] :=
    ⟨_, bind_ok.mpr ⟨Json.stringify hexDoc, rfl, bind_ok.mpr ⟨hexDoc, hroot, rfl⟩⟩, rfl, rfl⟩
  obtain ⟨decls, hdecls, hone, hdevice⟩ := hdecls
  have hids : (1 : HostBufId).toNat + decls.hosts.length < 2 ^ 64 := by
    rw [hone]
    decide
  have hfits : FitsBelow (0x1000 : Addr).toNat (decls.devices.map deviceRequest) := by
    rw [hdevice]
    decide
  have hmeets : Meets noKernel hexRun.devBufs (fun _ _ s s' => s' = s) := by
    rintro rt kp ka sim rt' hrun - -
    cases hrun
    rfl
  have hend : ∃ st, runSchedule (fileEnv hexDoc) noKernel hexRun 2 hexRun.start = some (.ok st)
      ∧ st.rt.mem.readGlobal 0x1000 8 = some [0, 0, 0, 0, 0x0A, 0x0B, 0x0C, 0x0D] :=
    ⟨_, rfl, by decide⟩
  obtain ⟨st, hend, hbytes⟩ := hend
  have hbuffers := workload_buffers prepare_hexDoc hdecls hids hfits keepsHostBufs_noKernel hmeets
  obtain ⟨horder, hmade⟩ := hbuffers.2.2 rangesFit_hexRun 2 st hend
  exact ⟨st, hend, horder, hmade, hbytes⟩

end Workload

end ProtoGpu

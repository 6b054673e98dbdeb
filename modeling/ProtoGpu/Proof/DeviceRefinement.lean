import ProtoGpu.Proof.Allocations
import ProtoGpu.Proof.DeviceBytes

/-!
# Device memory refines a byte array

The array knows the live allocations and the writes made so far; what a byte holds is what the last
write over it put there. A call of the shim comes with the memory of its caller as it stands at that
moment and with what the host can allocate then.
-/

namespace ProtoGpu

/-! ### Calls -/

inductive DeviceCall where
  | malloc (outDevPtr bytes : Addr)
  | free (devPtr : Addr)
  | memcpy (dst src bytes : Addr) (kind : CudaMemcpyKind)
deriving DecidableEq

/-- A call, where and when its caller makes it. -/
structure CallSite where
  call : DeviceCall
  host : Addr → Byte
  hostFits : Nat → Bool

/-- The code of the call, the pointer a `malloc` gives out and the state it leaves. -/
def ShimMemory.callAt (st : ShimMemory) (site : CallSite) :
    CudaError × Option Addr × ShimMemory :=
  let st := { st with host := site.host }
  match site.call with
  | .malloc outDevPtr bytes => st.malloc outDevPtr bytes
  | .free devPtr =>
      let (err, st) := st.free devPtr
      (err, none, st)
  | .memcpy dst src bytes kind =>
      let (err, st) := st.memcpy site.hostFits dst src bytes kind
      (err, none, st)

/-! ### The array -/

/-- The bytes that a call wrote from an address on. -/
structure DeviceWrite where
  dst : Addr
  bytes : List Byte

/-- What the last write over an address put there, the newest write first. -/
def lastWritten : List DeviceWrite → Addr → Byte
  | [], _ => 0
  | w :: older, a =>
      if InRange w.dst w.bytes.length a then w.bytes.getD (a - w.dst).toNat 0
      else lastWritten older a

structure ByteArrayModel where
  live : List (Addr × Addr) := []
  writes : List DeviceWrite := []

namespace ByteArrayModel

def byte (m : ByteArrayModel) : Addr → Byte := lastWritten m.writes

def load (m : ByteArrayModel) (addr : Addr) (n : Nat) : List Byte :=
  (List.range n).map fun i => m.byte (addr + BitVec.ofNat 64 i)

/-- What a call that succeeded did to the array. -/
def succeed (m : ByteArrayModel) (site : CallSite) (out : Option Addr) : ByteArrayModel :=
  match site.call, out with
  | .malloc _ bytes, some p => if bytes = 0 then m else { m with live := m.live ++ [(p, bytes)] }
  | .free devPtr, _ =>
      if devPtr = 0 then m else { m with live := m.live.filter fun pn => pn.1 != devPtr }
  | .memcpy dst src bytes .hostToDevice, _ =>
      { m with writes := ⟨dst, readHost site.host src bytes.toNat⟩ :: m.writes }
  | .memcpy dst src bytes .deviceToDevice, _ =>
      { m with writes := ⟨dst, m.load src bytes.toNat⟩ :: m.writes }
  | _, _ => m

end ByteArrayModel

/-! ### Runs -/

/-- The shim beside the array. -/
structure DeviceRun where
  shim : ShimMemory := {}
  array : ByteArrayModel := {}

namespace DeviceRun

def step (r : DeviceRun) (site : CallSite) : DeviceRun :=
  let (err, out, shim) := r.shim.callAt site
  { shim := shim, array := if err = .cudaSuccess then r.array.succeed site out else r.array }

/-- The bump pointer, with the room of an allocation behind it, stays below `2 ^ 64`. -/
def Unwrapped (r : DeviceRun) : DeviceCall → Prop
  | .malloc outDevPtr bytes =>
      outDevPtr ≠ 0 → bytes ≠ 0 →
        (r.shim.runtime.mem.nextGlobalAddr.toNat + 15) / 16 * 16 + bytes.toNat < 2 ^ 64
  | _ => True

instance (r : DeviceRun) : (call : DeviceCall) → Decidable (r.Unwrapped call)
  | .malloc _ _ => inferInstanceAs (Decidable (_ → _))
  | .free _ => .isTrue trivial
  | .memcpy _ _ _ _ => .isTrue trivial

/-- The sequences of calls during which the bump pointer has not wrapped. -/
inductive Reached : DeviceRun → Prop where
  | start : Reached {}
  | step {r : DeviceRun} (site : CallSite) (hroom : r.Unwrapped site.call) (hreached : Reached r) :
      Reached (r.step site)

end DeviceRun

/-! ### Agreement -/

/-- The allocation of the shim for a live pointer. -/
def shimAllocation (pn : Addr × Addr) : Addr × DeviceAllocation :=
  (pn.1, { base := pn.1, bytes := pn.2, align := 16 })

/-- Allocations in the order of their addresses, the last one ending at or before `next`. -/
structure PackedLive (live : List (Addr × Addr)) (next : Addr) : Prop where
  apart : live.Pairwise fun x y => x.1.toNat + x.2.toNat ≤ y.1.toNat
  inside : ∀ pn ∈ live, 0 < pn.2.toNat ∧ pn.1.toNat + pn.2.toNat ≤ next.toNat

/-- The shim and the array agree. -/
structure Agrees (r : DeviceRun) : Prop where
  allocs : r.shim.deviceMemory.allocs = r.array.live.map shimAllocation
  bytes : ∀ a, r.shim.byte a = r.array.byte a
  packed : PackedLive r.array.live r.shim.runtime.mem.nextGlobalAddr

theorem toNat_alignUp_16 {v : Addr} (hroom : (v.toNat + 15) / 16 * 16 < 2 ^ 64) :
    (alignUp v 16).toNat = (v.toNat + 15) / 16 * 16 := by
  have hround : Bump.roundUp v.toNat (16 : Addr).toNat = (v.toNat + 15) / 16 * 16 := by
    have h16 : (16 : Addr).toNat = 16 := rfl
    rw [h16, Bump.roundUp]
    split <;> omega
  rw [← hround] at hroom ⊢
  exact toNat_alignUp (by decide) hroom

theorem assign_of_lt {p : Addr} (a : DeviceAllocation) {allocs : List (Addr × DeviceAllocation)}
    (hlast : ∀ kv ∈ allocs, kv.1 < p) :
    DeviceMemory.assign p a allocs = allocs ++ [(p, a)] := by
  induction allocs with
  | nil => rfl
  | cons kv rest ih =>
      have hlt := hlast kv List.mem_cons_self
      rw [DeviceMemory.assign, if_neg (by bv_omega), if_neg (by bv_omega),
        ih fun kv' hkv' => hlast kv' (List.mem_cons_of_mem kv hkv')]
      rfl

theorem PackedLive.snoc {live : List (Addr × Addr)} {next p n : Addr} (h : PackedLive live next)
    (hp : next.toNat ≤ p.toNat) (hn : n ≠ 0) (hroom : p.toNat + n.toNat < 2 ^ 64) :
    PackedLive (live ++ [(p, n)]) (p + n) where
  apart := by
    rw [List.pairwise_append]
    refine ⟨h.apart, List.pairwise_singleton .., fun x hx y hy => ?_⟩
    obtain rfl := List.mem_singleton.mp hy
    exact (h.inside x hx).2.trans hp
  inside := by
    have hsum : (p + n).toNat = p.toNat + n.toNat := by
      rw [BitVec.toNat_add, Nat.mod_eq_of_lt hroom]
    have hpos : 0 < n.toNat := by
      apply Nat.pos_of_ne_zero
      exact fun hzero => hn (BitVec.eq_of_toNat_eq hzero)
    intro x hx
    rw [hsum]
    rcases List.mem_append.mp hx with hx | hx
    · have hin := h.inside x hx
      exact ⟨hin.1, by omega⟩
    · obtain rfl := List.mem_singleton.mp hx
      exact ⟨hpos, le_rfl⟩

theorem PackedLive.filter {live : List (Addr × Addr)} {next : Addr} (keep : Addr × Addr → Bool)
    (h : PackedLive live next) : PackedLive (live.filter keep) next where
  apart := h.apart.filter keep
  inside pn hpn := h.inside pn (List.mem_of_mem_filter hpn)

theorem byte_write {mem : AddrSpaceManager} (m : ByteArrayModel) (dst : Addr) {bytes : List Byte}
    (hlength : bytes.length ≤ 2 ^ 64) (hagree : ∀ a, (mem.global a).getD 0 = m.byte a) (a : Addr) :
    (writeSparse mem.global dst bytes a).getD 0 = lastWritten (⟨dst, bytes⟩ :: m.writes) a := by
  rw [writeSparse_apply _ _ _ hlength, lastWritten]
  split
  · rfl
  · exact hagree a

theorem readSparse_eq_load {mem : AddrSpaceManager} (m : ByteArrayModel)
    (hagree : ∀ a, (mem.global a).getD 0 = m.byte a) (src : Addr) (n : Nat) :
    readSparse mem.global src n = m.load src n := by
  unfold readSparse ByteArrayModel.load
  exact List.map_congr_left fun i _ => hagree _

/-! ### One call -/

theorem malloc_cases (st : ShimMemory) (outDevPtr bytes : Addr) :
    st.malloc outDevPtr bytes = (.cudaErrorInvalidValue, none, st) ∨
    (bytes = 0 ∧ st.malloc outDevPtr bytes = (.cudaSuccess, some 0, st)) ∨
    (bytes ≠ 0 ∧ ∃ p st', st.malloc outDevPtr bytes = (.cudaSuccess, some p, st') ∧
      p = alignUp st.runtime.mem.nextGlobalAddr 16 ∧
      st'.deviceMemory.allocs
        = DeviceMemory.assign p (shimAllocation (p, bytes)).2 st.deviceMemory.allocs ∧
      st'.runtime.mem.nextGlobalAddr = p + bytes ∧
      st'.runtime.mem.global = st.runtime.mem.global) := by
  unfold ShimMemory.malloc
  split
  · exact .inl rfl
  · split
    · next hzero => exact .inr (.inl ⟨hzero, rfl⟩)
    · next hnonzero =>
      have hmax : (if bytes < 1 then 1 else bytes) = bytes := if_neg (by bv_omega)
      refine .inr (.inr ⟨hnonzero, _, _, rfl, rfl, rfl, ?_, rfl⟩)
      change _ + (if bytes < 1 then 1 else bytes) = _
      rw [hmax]

theorem free_cases (st : ShimMemory) (devPtr : Addr) :
    (∃ err, err ≠ .cudaSuccess ∧ st.free devPtr = (err, st)) ∨
    ∃ st', st.free devPtr = (.cudaSuccess, st') ∧ st'.runtime = st.runtime ∧
      st'.deviceMemory.allocs = if devPtr = 0 then st.deviceMemory.allocs
        else st.deviceMemory.allocs.filter fun kv => kv.1 != devPtr := by
  unfold ShimMemory.free
  split
  · exact .inr ⟨st, rfl, rfl, rfl⟩
  · split
    · exact .inr ⟨_, rfl, rfl, rfl⟩
    · exact .inl ⟨.cudaErrorInvalidDevicePointer, by decide, rfl⟩

theorem memcpy_deviceMemory (hostFits : Nat → Bool) (st : ShimMemory) (dst src n : Addr)
    (kind : CudaMemcpyKind) :
    (st.memcpy hostFits dst src n kind).2.deviceMemory = st.deviceMemory := by
  unfold ShimMemory.memcpy ShimMemory.memcpyHostToDevice ShimMemory.memcpyDeviceToHost
    ShimMemory.memcpyDeviceToDevice
  repeat' split
  all_goals rfl

theorem nextGlobalAddr_memcpy {st st' : ShimMemory} {dst src n : Addr} {kind : CudaMemcpyKind}
    {err : CudaError} (heffect : CopyEffect st dst src n st' kind err) :
    st'.runtime.mem.nextGlobalAddr = st.runtime.mem.nextGlobalAddr := by
  cases heffect with
  | failed _ _ _ hmem _ => rw [hmem]
  | empty _ _ hst => rw [hst]
  | toDevice hmem _ => rw [hmem]
  | toHost hmem _ => rw [hmem]
  | onDevice hmem _ => rw [hmem]
  | onHost hmem _ => rw [hmem]

theorem byte_failed {st st' : ShimMemory} {dst src n : Addr} {kind : CudaMemcpyKind}
    {err : CudaError} (heffect : CopyEffect st dst src n st' kind err) (herr : err ≠ .cudaSuccess) :
    st'.byte = st.byte := by
  unfold ShimMemory.byte
  cases heffect with
  | failed _ _ _ hmem _ => rw [hmem]
  | empty _ _ _ => exact absurd rfl herr
  | toDevice _ _ => exact absurd rfl herr
  | toHost _ _ => exact absurd rfl herr
  | onDevice _ _ => exact absurd rfl herr
  | onHost _ _ => exact absurd rfl herr

/-! ### A step -/

namespace DeviceRun
variable {r : DeviceRun} {site : CallSite}

theorem agrees_malloc {outDevPtr bytes : Addr} (h : Agrees r)
    (hcall : site.call = .malloc outDevPtr bytes) (hroom : r.Unwrapped site.call) :
    Agrees (r.step site) := by
  have hsite : r.shim.callAt site
      = ShimMemory.malloc { r.shim with host := site.host } outDevPtr bytes := by
    unfold ShimMemory.callAt
    rw [hcall]
  unfold step
  rw [hsite]
  rcases malloc_cases { r.shim with host := site.host } outDevPtr bytes with
    hfail | ⟨hzero, hempty⟩ | ⟨hnonzero, p, st', hok, hp, hallocs, hnext, hglobal⟩
  · rw [hfail]
    exact ⟨h.allocs, h.bytes, h.packed⟩
  · rw [hempty]
    have harray : r.array.succeed site (some 0) = r.array := by
      unfold ByteArrayModel.succeed
      rw [hcall]
      exact if_pos hzero
    dsimp only
    rw [if_pos rfl, harray]
    exact ⟨h.allocs, h.bytes, h.packed⟩
  · rw [hok]
    have harray : r.array.succeed site (some p)
        = { r.array with live := r.array.live ++ [(p, bytes)] } := by
      unfold ByteArrayModel.succeed
      rw [hcall]
      exact if_neg hnonzero
    have hout : outDevPtr ≠ 0 := by
      rintro rfl
      rw [ShimMemory.malloc, if_pos rfl] at hok
      cases hok
    rw [hcall] at hroom
    replace hroom := hroom hout hnonzero
    have hbase : p.toNat = (r.shim.runtime.mem.nextGlobalAddr.toNat + 15) / 16 * 16 := by
      rw [hp]
      exact toNat_alignUp_16 ((Nat.le_add_right ..).trans_lt hroom)
    have hbehind : r.shim.runtime.mem.nextGlobalAddr.toNat ≤ p.toNat := by omega
    have hend : p.toNat + bytes.toNat < 2 ^ 64 := by
      rw [hbase]
      exact hroom
    dsimp only
    rw [if_pos rfl, harray]
    refine ⟨?_, fun a => ?_, ?_⟩
    · dsimp only
      rw [hallocs, h.allocs, assign_of_lt, List.map_append]
      · rfl
      · intro kv hkv
        obtain ⟨pn, hpn, rfl⟩ := List.mem_map.mp hkv
        have hin := h.packed.inside pn hpn
        have hlt : pn.1.toNat < p.toNat := by omega
        exact hlt
    · dsimp only [ShimMemory.byte]
      rw [hglobal]
      exact h.bytes a
    · dsimp only
      rw [hnext]
      exact h.packed.snoc hbehind hnonzero hend

theorem agrees_free {devPtr : Addr} (h : Agrees r) (hcall : site.call = .free devPtr) :
    Agrees (r.step site) := by
  have hsite : r.shim.callAt site
      = ((ShimMemory.free { r.shim with host := site.host } devPtr).1, none,
          (ShimMemory.free { r.shim with host := site.host } devPtr).2) := by
    unfold ShimMemory.callAt
    rw [hcall]
  unfold step
  rw [hsite]
  rcases free_cases { r.shim with host := site.host } devPtr with
    ⟨err, herr, hfail⟩ | ⟨st', hok, hruntime, hallocs⟩
  · rw [hfail]
    dsimp only
    rw [if_neg herr]
    exact ⟨h.allocs, h.bytes, h.packed⟩
  · rw [hok]
    dsimp only at hruntime hallocs ⊢
    rw [if_pos rfl]
    unfold ByteArrayModel.succeed
    rw [hcall]
    dsimp only
    split
    · next hzero =>
      rw [if_pos hzero] at hallocs
      refine ⟨hallocs.trans h.allocs, fun a => ?_, ?_⟩
      · dsimp only [ShimMemory.byte]
        rw [hruntime]
        exact h.bytes a
      · dsimp only
        rw [hruntime]
        exact h.packed
    · next hnonzero =>
      rw [if_neg hnonzero, h.allocs] at hallocs
      refine ⟨?_, fun a => ?_, ?_⟩
      · dsimp only
        rw [hallocs, List.filter_map]
        rfl
      · dsimp only [ShimMemory.byte]
        rw [hruntime]
        exact h.bytes a
      · dsimp only
        rw [hruntime]
        exact h.packed.filter _

theorem callAt_memcpy {dst src n : Addr} {kind : CudaMemcpyKind}
    (hcall : site.call = .memcpy dst src n kind) :
    r.shim.callAt site
      = ((ShimMemory.memcpy site.hostFits { r.shim with host := site.host } dst src n kind).1, none,
          (ShimMemory.memcpy site.hostFits { r.shim with host := site.host } dst src n
            kind).2) := by
  unfold ShimMemory.callAt
  rw [hcall]

theorem lastWritten_empty (dst : Addr) (older : List DeviceWrite) :
    lastWritten (⟨dst, []⟩ :: older) = lastWritten older := by
  funext a
  rw [lastWritten]
  exact if_neg (Nat.not_lt_zero (a - dst).toNat)

/-- A copy of nothing writes nothing. -/
theorem byte_succeed_memcpy_zero {dst src : Addr} {kind : CudaMemcpyKind} (m : ByteArrayModel)
    (hcall : site.call = .memcpy dst src 0 kind) : (m.succeed site none).byte = m.byte := by
  unfold ByteArrayModel.succeed
  rw [hcall]
  cases kind with
  | hostToDevice => exact lastWritten_empty dst m.writes
  | deviceToDevice => exact lastWritten_empty dst m.writes
  | hostToHost => rfl
  | deviceToHost => rfl
  | default => rfl
  | other value => rfl

theorem live_succeed_memcpy {dst src n : Addr} {kind : CudaMemcpyKind} (m : ByteArrayModel)
    (hcall : site.call = .memcpy dst src n kind) : (m.succeed site none).live = m.live := by
  unfold ByteArrayModel.succeed
  rw [hcall]
  cases kind <;> rfl

theorem byte_succeed_memcpy {dst src n : Addr} {kind : CudaMemcpyKind} {st' : ShimMemory}
    (h : Agrees r) (hcall : site.call = .memcpy dst src n kind)
    (heffect : CopyEffect { r.shim with host := site.host } dst src n st' kind .cudaSuccess)
    (a : Addr) : st'.byte a = (r.array.succeed site none).byte a := by
  unfold ShimMemory.byte
  cases heffect with
  | failed _ _ herr _ _ => exact absurd rfl herr
  | empty _ hn hst =>
      subst hn hst
      rw [byte_succeed_memcpy_zero r.array hcall]
      exact h.bytes a
  | toDevice hmem _ =>
      have hlength : (readHost site.host src n.toNat).length ≤ 2 ^ 64 := by
        rw [length_readHost]
        omega
      unfold ByteArrayModel.succeed
      rw [hmem, hcall]
      exact byte_write r.array dst hlength h.bytes a
  | onDevice hmem _ =>
      have hlength : (r.array.load src n.toNat).length ≤ 2 ^ 64 := by
        rw [ByteArrayModel.load, List.length_map, List.length_range]
        omega
      unfold ByteArrayModel.succeed
      rw [hmem, hcall]
      dsimp only
      rw [readSparse_eq_load r.array h.bytes]
      exact byte_write r.array dst hlength h.bytes a
  | toHost hmem _ =>
      unfold ByteArrayModel.succeed
      rw [hmem, hcall]
      exact h.bytes a
  | onHost hmem _ =>
      unfold ByteArrayModel.succeed
      rw [hmem, hcall]
      exact h.bytes a

theorem agrees_memcpy {dst src n : Addr} {kind : CudaMemcpyKind} (h : Agrees r)
    (hcall : site.call = .memcpy dst src n kind) : Agrees (r.step site) := by
  have heffect := ShimMemory.memcpy_effect site.hostFits { r.shim with host := site.host } dst src n
    kind
  have hdevice := memcpy_deviceMemory site.hostFits { r.shim with host := site.host } dst src n kind
  have hnext := nextGlobalAddr_memcpy heffect
  unfold step
  rw [callAt_memcpy hcall]
  generalize ShimMemory.memcpy site.hostFits { r.shim with host := site.host } dst src n kind = res
    at heffect hdevice hnext
  obtain ⟨err, st'⟩ := res
  dsimp only at heffect hdevice hnext ⊢
  by_cases herr : err = .cudaSuccess
  · subst herr
    rw [if_pos rfl]
    have hlive := live_succeed_memcpy r.array hcall
    constructor
    · dsimp only
      rw [hdevice, hlive]
      exact h.allocs
    · exact byte_succeed_memcpy h hcall heffect
    · dsimp only
      rw [hlive, hnext]
      exact h.packed
  · rw [if_neg herr]
    constructor
    · dsimp only
      rw [hdevice]
      exact h.allocs
    · intro a
      dsimp only
      rw [byte_failed heffect herr]
      exact h.bytes a
    · dsimp only
      rw [hnext]
      exact h.packed

theorem agrees_step (h : Agrees r) (hroom : r.Unwrapped site.call) : Agrees (r.step site) := by
  cases hcall : site.call with
  | malloc outDevPtr bytes => exact agrees_malloc h hcall hroom
  | free devPtr => exact agrees_free h hcall
  | memcpy dst src n kind => exact agrees_memcpy h hcall

theorem Reached.agrees (hreached : Reached r) : Agrees r := by
  induction hreached with
  | start => exact ⟨rfl, fun _ => rfl, List.Pairwise.nil, fun _ hpn => nomatch hpn⟩
  | step site hroom _ ih => exact agrees_step ih hroom

end DeviceRun

/-! ### The refinement -/

section
variable {st st' : ShimMemory} {dst src n : Addr}

end

end ProtoGpu

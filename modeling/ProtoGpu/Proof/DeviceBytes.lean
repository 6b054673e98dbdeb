import ProtoGpu.Shim.DeviceMemory
import ProtoGpu.Proof.SparseMemory

/-!
# Device memory as bytes

A copy of the shim goes through a staging buffer of its own size, so what it moves is the range as
it was before the call. The map of the shim follows the bump allocator below it: a new allocation
begins behind all that were ever made, and the live ones stay apart as long as the allocator does
not wrap.
-/

namespace ProtoGpu

/-! ### The staging buffer -/

namespace Runtime
variable {rt rt' : Runtime} {id : HostBufId} {n dst src : BitVec 64} {buf : List Byte}

theorem hostAlloc_ok {hostFits : Nat → Bool} (halloc : rt.hostAlloc hostFits n = (.ok id, rt')) :
    rt'.mem = rt.mem ∧ rt'.hostBufs id = some (List.replicate n.toNat 0) := by
  unfold hostAlloc at halloc
  dsimp only at halloc
  split at halloc
  · cases halloc
    exact ⟨rfl, Function.update_self ..⟩
  · cases halloc

theorem hostAlloc_mem (hostFits : Nat → Bool) (rt : Runtime) (n : BitVec 64) :
    (rt.hostAlloc hostFits n).2.mem = rt.mem := by
  unfold hostAlloc
  dsimp only
  split <;> rfl

theorem hostWrite_ok {bytes : List Byte} (hwrite : rt.hostWrite id 0 bytes = .ok rt')
    (hbuf : rt.hostBufs id = some buf) (hlength : buf.length = bytes.length)
    (hfits : bytes.length ≤ 2 ^ 64) : rt'.mem = rt.mem ∧ rt'.hostBufs id = some bytes := by
  unfold hostWrite at hwrite
  rw [hbuf] at hwrite
  dsimp only at hwrite
  split at hwrite
  · cases hwrite
  · cases hwrite
    refine ⟨rfl, ?_⟩
    have hzero : (0 : BitVec 64).toNat = 0 := rfl
    have hbytes : storeBytes buf 0 bytes = bytes := by
      rw [storeBytes_eq_splice (by omega) (by omega), Buffers.splice, hzero, List.take_zero,
        List.nil_append, Nat.zero_add, ← hlength, List.drop_length, List.append_nil]
    dsimp only
    rw [Function.update_self, hbytes]

theorem hostRead_eq (hbuf : rt.hostBufs id = some buf) (hlength : buf.length = n.toNat) :
    rt.hostRead id 0 n = some buf := by
  unfold hostRead
  rw [hbuf]
  dsimp only
  have hend : (0 : BitVec 64) + n = n := BitVec.zero_add n
  rw [hend, if_neg (by omega)]
  congr 1
  apply List.ext_getElem
  · simp [hlength]
  · intro i hi hi'
    simp [hi']

theorem memcpyH2d_ok (hcopy : rt.memcpyH2d dst id 0 n = .ok rt') (hbuf : rt.hostBufs id = some buf)
    (hlength : buf.length = n.toNat) :
    rt'.mem = { rt.mem with global := writeSparse rt.mem.global dst buf } := by
  unfold memcpyH2d at hcopy
  rw [hostRead_eq hbuf hlength] at hcopy
  unfold AddrSpaceManager.writeGlobal at hcopy
  dsimp only at hcopy
  split at hcopy
  · cases hcopy
  · next mem hwrite =>
    split at hwrite
    · cases hcopy
      exact (Option.some.inj hwrite).symm
    · cases hwrite

theorem memcpyD2h_ok (hcopy : rt.memcpyD2h id 0 src n = .ok rt') (hbuf : rt.hostBufs id = some buf)
    (hlength : buf.length = n.toNat) :
    rt'.mem = rt.mem ∧ rt'.hostBufs id = some (readSparse rt.mem.global src n.toNat) := by
  unfold memcpyD2h AddrSpaceManager.readGlobal at hcopy
  split at hcopy
  · cases hcopy
  · next data hread =>
    split at hread
    · obtain rfl := Option.some.inj hread
      have hread := length_readSparse rt.mem.global src n.toNat
      exact hostWrite_ok hcopy hbuf (hlength.trans hread.symm) (hread.trans_le n.isLt.le)
    · cases hread

end Runtime

/-! ### One copy -/

/-- The device bytes, an unwritten one being `0`. -/
def ShimMemory.byte (st : ShimMemory) (a : Addr) : Byte := (st.runtime.mem.global a).getD 0

/-- What a copy does. -/
inductive CopyEffect (st : ShimMemory) (dst src n : Addr) (st' : ShimMemory) :
    CudaMemcpyKind → CudaError → Prop where
  | failed (kind : CudaMemcpyKind) (err : CudaError) (herr : err ≠ .cudaSuccess)
      (hmem : st'.runtime.mem = st.runtime.mem) (hhost : st'.host = st.host) :
      CopyEffect st dst src n st' kind err
  | empty (kind : CudaMemcpyKind) (hn : n = 0) (hst : st' = st) :
      CopyEffect st dst src n st' kind .cudaSuccess
  | toDevice
      (hmem : st'.runtime.mem = { st.runtime.mem with
        global := writeSparse st.runtime.mem.global dst (readHost st.host src n.toNat) })
      (hhost : st'.host = st.host) :
      CopyEffect st dst src n st' .hostToDevice .cudaSuccess
  | toHost (hmem : st'.runtime.mem = st.runtime.mem)
      (hhost : st'.host
        = writeHost st.host dst (readSparse st.runtime.mem.global src n.toNat)) :
      CopyEffect st dst src n st' .deviceToHost .cudaSuccess
  | onDevice
      (hmem : st'.runtime.mem = { st.runtime.mem with
        global := writeSparse st.runtime.mem.global dst
          (readSparse st.runtime.mem.global src n.toNat) })
      (hhost : st'.host = st.host) :
      CopyEffect st dst src n st' .deviceToDevice .cudaSuccess
  | onHost (hmem : st'.runtime.mem = st.runtime.mem)
      (hhost : st'.host = writeHost st.host dst (readHost st.host src n.toNat)) :
      CopyEffect st dst src n st' .hostToHost .cudaSuccess

theorem length_readHost (host : Addr → Byte) (addr : Addr) (n : Nat) :
    (readHost host addr n).length = n := by
  simp [readHost]

namespace ShimMemory
variable {hostFits : Nat → Bool} {st st' : ShimMemory} {dst src n : Addr} {err : CudaError}

theorem caught_effect {rt : Runtime} (what : String) (kind : CudaMemcpyKind)
    (hmem : rt.mem = st.runtime.mem) :
    CopyEffect st dst src n (st.caught rt what).2 kind (st.caught rt what).1 :=
  .failed kind _ (by simp [caught]) hmem rfl

theorem memcpyHostToDevice_effect :
    CopyEffect st dst src n (st.memcpyHostToDevice hostFits dst src n).2 .hostToDevice
      (st.memcpyHostToDevice hostFits dst src n).1 := by
  unfold memcpyHostToDevice
  split
  · exact .failed _ .cudaErrorInvalidDevicePointer (by decide) rfl rfl
  · split
    · next what rt halloc =>
      have hmem := Runtime.hostAlloc_mem hostFits st.runtime n
      rw [halloc] at hmem
      exact caught_effect what _ hmem
    · next buf rt halloc =>
      obtain ⟨hmem, hbuf⟩ := Runtime.hostAlloc_ok halloc
      split
      · next what _ => exact caught_effect what _ hmem
      · next rt₁ hwrite =>
        obtain ⟨hmem₁, hbuf₁⟩ := Runtime.hostWrite_ok hwrite hbuf
          (by rw [List.length_replicate, length_readHost]) ((length_readHost ..).trans_le n.isLt.le)
        split
        · next what _ => exact caught_effect what _ (hmem₁.trans hmem)
        · next rt₂ hcopy =>
          have hmem₂ := Runtime.memcpyH2d_ok hcopy hbuf₁ (length_readHost ..)
          exact .toDevice (by rw [hmem₂, hmem₁, hmem]) rfl

theorem memcpyDeviceToHost_effect :
    CopyEffect st dst src n (st.memcpyDeviceToHost hostFits dst src n).2 .deviceToHost
      (st.memcpyDeviceToHost hostFits dst src n).1 := by
  unfold memcpyDeviceToHost
  split
  · exact .failed _ .cudaErrorInvalidDevicePointer (by decide) rfl rfl
  · split
    · next what rt halloc =>
      have hmem := Runtime.hostAlloc_mem hostFits st.runtime n
      rw [halloc] at hmem
      exact caught_effect what _ hmem
    · next buf rt halloc =>
      obtain ⟨hmem, hbuf⟩ := Runtime.hostAlloc_ok halloc
      split
      · next what _ => exact caught_effect what _ hmem
      · next rt₁ hcopy =>
        obtain ⟨hmem₁, hbuf₁⟩ := Runtime.memcpyD2h_ok hcopy hbuf (List.length_replicate ..)
        rw [hmem] at hmem₁ hbuf₁
        rw [Runtime.hostRead_eq hbuf₁ (length_readSparse ..)]
        exact .toHost hmem₁ rfl

theorem memcpyDeviceToDevice_effect :
    CopyEffect st dst src n (st.memcpyDeviceToDevice hostFits dst src n).2 .deviceToDevice
      (st.memcpyDeviceToDevice hostFits dst src n).1 := by
  unfold memcpyDeviceToDevice
  split
  · exact .failed _ .cudaErrorInvalidDevicePointer (by decide) rfl rfl
  · split
    · exact .failed _ .cudaErrorInvalidDevicePointer (by decide) rfl rfl
    · split
      · next what rt halloc =>
        have hmem := Runtime.hostAlloc_mem hostFits st.runtime n
        rw [halloc] at hmem
        exact caught_effect what _ hmem
      · next buf rt halloc =>
        obtain ⟨hmem, hbuf⟩ := Runtime.hostAlloc_ok halloc
        split
        · next what _ => exact caught_effect what _ hmem
        · next rt₁ hcopy =>
          obtain ⟨hmem₁, hbuf₁⟩ := Runtime.memcpyD2h_ok hcopy hbuf (List.length_replicate ..)
          rw [hmem] at hmem₁ hbuf₁
          split
          · next what _ => exact caught_effect what _ hmem₁
          · next rt₂ hcopy₂ =>
            have hmem₂ := Runtime.memcpyH2d_ok hcopy₂ hbuf₁ (length_readSparse ..)
            exact .onDevice (by rw [hmem₂, hmem₁]) rfl

theorem memcpy_effect (hostFits : Nat → Bool) (st : ShimMemory) (dst src n : Addr)
    (kind : CudaMemcpyKind) :
    CopyEffect st dst src n (st.memcpy hostFits dst src n kind).2 kind
      (st.memcpy hostFits dst src n kind).1 := by
  unfold memcpy
  split
  · next hn => exact .empty kind hn rfl
  · split
    · exact .failed _ .cudaErrorInvalidValue (by decide) rfl rfl
    · cases kind with
      | hostToDevice => exact memcpyHostToDevice_effect
      | deviceToHost => exact memcpyDeviceToHost_effect
      | deviceToDevice => exact memcpyDeviceToDevice_effect
      | hostToHost => exact .onHost rfl rfl
      | default => exact .failed _ .cudaErrorInvalidMemcpyDirection (by decide) rfl rfl
      | other value => exact .failed _ .cudaErrorInvalidMemcpyDirection (by decide) rfl rfl

end ShimMemory

end ProtoGpu

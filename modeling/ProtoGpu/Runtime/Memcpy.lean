import ProtoGpu.Lib.Buffers
import ProtoGpu.Memory

/-!
# Host buffers and copies

The part of `Runtime` (`runtime.cpp`) that owns host buffers and copies between them and global
memory. A thrown exception is its `what()`; the state it leaves behind is returned with it where it
differs from the one before.
-/

namespace ProtoGpu

abbrev HostBufId := BitVec 64

structure Runtime where
  mem : AddrSpaceManager := {}
  nextHostBufId : HostBufId := 1
  hostBufs : HostBufId → Option (List Byte) := fun _ => none

namespace Runtime

/-- `hostFits` says which sizes of a `std::vector` the host can allocate. -/
def hostAlloc (hostFits : Nat → Bool) (rt : Runtime) (bytes : BitVec 64) :
    Except String HostBufId × Runtime :=
  let id := rt.nextHostBufId
  let rt := { rt with nextHostBufId := id + 1 }
  if hostFits bytes.toNat then
    (.ok id, { rt with
      hostBufs := Function.update rt.hostBufs id (some (List.replicate bytes.toNat 0)) })
  else (.error "std::bad_alloc", rt)

/-- The loop of `host_write`, `buf[offset + i] = bytes[i]` in 64 bits. A store past the end of the
vector, which the check lets through where the sum wraps, is undefined in the source; here it is
lost. -/
def storeBytes : List Byte → BitVec 64 → List Byte → List Byte
  | buf, _, [] => buf
  | buf, offset, b :: bytes => storeBytes (buf.set offset.toNat b) (offset + 1) bytes

@[simp]
theorem length_storeBytes (buf : List Byte) (offset : BitVec 64) (bytes : List Byte) :
    (storeBytes buf offset bytes).length = buf.length := by
  induction bytes generalizing buf offset with
  | nil => rfl
  | cons b bytes ih => rw [storeBytes, ih, List.length_set]

/-- Inside the buffer a range is replaced. -/
theorem storeBytes_eq_splice {buf : List Byte} {offset : BitVec 64} {bytes : List Byte}
    (hin : offset.toNat + bytes.length ≤ buf.length)
    (hfits : offset.toNat + bytes.length ≤ 2 ^ 64) :
    storeBytes buf offset bytes = Buffers.splice buf offset.toNat bytes := by
  induction bytes generalizing buf offset with
  | nil => simp [storeBytes, Buffers.splice]
  | cons b bytes ih =>
      rw [List.length_cons] at hin hfits
      cases bytes with
      | nil =>
          rw [storeBytes, storeBytes, Buffers.splice, List.set_eq_take_append_cons_drop,
            if_pos (by simpa using hin), List.append_assoc, List.length_singleton]
          rfl
      | cons b' bytes =>
          have hnext : (offset + 1).toNat = offset.toNat + 1 := by
            rw [List.length_cons] at hfits
            rw [BitVec.toNat_add, Nat.mod_eq_of_lt]
            · rfl
            · change offset.toNat + 1 < 2 ^ 64
              omega
          have hset : (buf.set offset.toNat b).take (offset.toNat + 1)
              = buf.take offset.toNat ++ [b] := by
            rw [List.take_set, List.take_add_one, List.set_append_right _ _ (by simp)]
            simp [List.getElem?_eq_getElem (show offset.toNat < buf.length by omega),
              Nat.min_eq_left (show offset.toNat ≤ buf.length by omega)]
          rw [storeBytes, ih (by rw [hnext, List.length_set]; omega) (by rw [hnext]; omega), hnext,
            Buffers.splice, hset, List.drop_set_of_lt (by omega), Buffers.splice,
            List.append_assoc _ [b], Nat.add_assoc, Nat.add_comm 1]
          rfl

def hostWrite (rt : Runtime) (id : HostBufId) (offset : BitVec 64) (bytes : List Byte) :
    Except String Runtime :=
  match rt.hostBufs id with
  | none => .error "Runtime: host buffer not found"
  | some buf =>
      if buf.length < (offset + BitVec.ofNat 64 bytes.length).toNat then
        .error "Runtime: host_write out of range"
      else
        .ok { rt with
          hostBufs := Function.update rt.hostBufs id (some (storeBytes buf offset bytes)) }

/-- An element past the end of the vector, which the check lets through where the sum wraps, is
undefined in the source; here it reads as `0`. -/
def hostRead (rt : Runtime) (id : HostBufId) (offset bytes : BitVec 64) : Option (List Byte) :=
  match rt.hostBufs id with
  | none => none
  | some buf =>
      if buf.length < (offset + bytes).toNat then none
      else some ((List.range bytes.toNat).map fun i => buf.getD (offset.toNat + i) 0)

def deviceMalloc (rt : Runtime) (bytes align : Addr) : Addr × Runtime :=
  let (base, mem) := rt.mem.allocGlobal bytes align
  (base, { rt with mem := mem })

def memcpyH2d (rt : Runtime) (dst : Addr) (src : HostBufId) (srcOffset bytes : BitVec 64) :
    Except String Runtime :=
  match rt.hostRead src srcOffset bytes with
  | none => .error "Runtime: memcpy_h2d host_read failed"
  | some data =>
      match rt.mem.writeGlobal dst data with
      | none => .error "Runtime: memcpy_h2d write_global failed"
      | some mem => .ok { rt with mem := mem }

/-- The first byte of a range that cannot be read alone. -/
def firstMissing (rt : Runtime) (src bytes : BitVec 64) : Nat :=
  ((List.range bytes.toNat).find? fun i =>
    (rt.mem.readGlobal (src + BitVec.ofNat 64 i) 1).isNone).getD bytes.toNat

def memcpyD2h (rt : Runtime) (dst : HostBufId) (dstOffset : BitVec 64) (src : Addr)
    (bytes : BitVec 64) : Except String Runtime :=
  match rt.mem.readGlobal src bytes with
  | none =>
      .error ("Runtime: memcpy_d2h read_global failed src=" ++ toString src.toNat
        ++ " bytes=" ++ toString bytes.toNat
        ++ " first_missing=" ++ toString (rt.firstMissing src bytes))
  | some data => rt.hostWrite dst dstOffset data

end Runtime

end ProtoGpu

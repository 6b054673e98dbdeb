import ProtoGpu.Lib.BumpAllocator
import ProtoGpu.Memory
import Mathlib.Tactic.SplitIfs

/-!
# Allocations of global memory

`alloc_global` is a bump allocator in 64 bits. As long as every block ends at or below `2 ^ 64` it
hands out the blocks of the allocator on natural numbers. A range is allocated when one block,
itself inside the address space, holds all of it.
-/

namespace ProtoGpu

open Bump (roundUp)

/-! ### Rounding up -/

theorem toNat_alignUp {v a : Addr} (ha : a ≠ 0) (hroom : roundUp v.toNat a.toNat < 2 ^ 64) :
    (alignUp v a).toNat = roundUp v.toNat a.toNat := by
  have hpos : 0 < a.toNat := Nat.pos_of_ne_zero fun h => ha (BitVec.eq_of_toNat_eq h)
  have hmod : (v % a).toNat = v.toNat % a.toNat := BitVec.toNat_umod
  have hzero : v % a = 0 ↔ v.toNat % a.toNat = 0 := by
    rw [← hmod]
    exact ⟨fun h => by rw [h]; rfl, fun h => BitVec.eq_of_toNat_eq h⟩
  unfold alignUp
  rw [if_neg ha]
  unfold roundUp at hroom ⊢
  dsimp only
  split_ifs at hroom ⊢ with h₁ h₂ h₂
  · rfl
  · exact absurd (hzero.mp h₁) h₂
  · exact absurd (hzero.mpr h₂) h₁
  · have hlt := Nat.mod_lt v.toNat hpos
    have hsub : (a - v % a).toNat = a.toNat - v.toNat % a.toNat := by
      rw [← hmod] at hlt ⊢
      generalize v % a = r at hlt ⊢
      bv_omega
    rw [BitVec.toNat_add, hsub]
    exact Nat.mod_eq_of_lt hroom

/-! ### Requests -/

structure AllocRequest where
  bytes : Addr
  align : Addr
deriving DecidableEq

/-- What the allocator takes the request for: no empty block, no alignment zero. -/
def AllocRequest.effective (r : AllocRequest) : Bump.Request where
  size := max r.bytes.toNat 1
  align := if r.align = 0 then 1 else r.align.toNat

/-- The bases handed out for a sequence of requests. -/
def grants (mem : AddrSpaceManager) : List AllocRequest → List Addr
  | [] => []
  | r :: rs =>
      let (base, mem) := mem.allocGlobal r.bytes r.align
      base :: grants mem rs

/-- The block a request got. -/
def grantedBlock (r : AllocRequest) (base : Addr) : Bump.Block where
  base := base.toNat
  size := r.effective.size

/-- Every base is a multiple of its alignment, every block ends at or below `2 ^ 64`, and no two
blocks overlap. -/
structure SoundGrants (rs : List AllocRequest) (bases : List Addr) : Prop where
  aligned : List.Forall₂ (fun r base => r.effective.align ∣ base.toNat) rs bases
  below : ∀ b ∈ List.zipWith grantedBlock rs bases, b.limit ≤ 2 ^ 64
  apart : (List.zipWith grantedBlock rs bases).Pairwise Bump.Block.Apart

/-- As natural numbers, no block goes beyond `2 ^ 64`. -/
def FitsBelow (next : Nat) (rs : List AllocRequest) : Prop :=
  ∀ b ∈ Bump.blocks next (rs.map AllocRequest.effective), b.limit ≤ 2 ^ 64

instance (next : Nat) (rs : List AllocRequest) : Decidable (FitsBelow next rs) :=
  inferInstanceAs (Decidable (∀ b ∈ _, _))

theorem AllocRequest.effective_pos (r : AllocRequest) :
    0 < r.effective.size ∧ 0 < r.effective.align := by
  constructor
  · exact Nat.lt_of_lt_of_le Nat.zero_lt_one (Nat.le_max_right ..)
  · unfold effective
    dsimp only
    split
    · exact Nat.zero_lt_one
    · next hne => exact Nat.pos_of_ne_zero fun h => hne (BitVec.eq_of_toNat_eq h)

/-- A request whose block ends at or below `2 ^ 64` gets that block. -/
theorem toNat_allocGlobal (mem : AddrSpaceManager) (r : AllocRequest)
    (hroom : roundUp mem.nextGlobalAddr.toNat r.effective.align + r.effective.size ≤ 2 ^ 64) :
    (mem.allocGlobal r.bytes r.align).1.toNat = roundUp mem.nextGlobalAddr.toNat r.effective.align
      ∧ (mem.allocGlobal r.bytes r.align).2.nextGlobalAddr.toNat
        = (roundUp mem.nextGlobalAddr.toNat r.effective.align + r.effective.size) % 2 ^ 64 := by
  have hsize := r.effective_pos.1
  have halign : (if r.align = 0 then 1 else r.align : Addr) ≠ 0
      ∧ (if r.align = 0 then 1 else r.align : Addr).toNat = r.effective.align := by
    unfold AllocRequest.effective
    split
    · exact ⟨by decide, rfl⟩
    · next hne => exact ⟨hne, rfl⟩
  have hbytes : (if r.bytes < 1 then 1 else r.bytes : Addr).toNat = r.effective.size := by
    unfold AllocRequest.effective
    split <;> bv_omega
  have hbase := toNat_alignUp (v := mem.nextGlobalAddr) halign.1 (by rw [halign.2]; omega)
  rw [halign.2] at hbase
  refine ⟨hbase, ?_⟩
  calc (mem.allocGlobal r.bytes r.align).2.nextGlobalAddr.toNat
      = (alignUp mem.nextGlobalAddr (if r.align = 0 then 1 else r.align)
          + (if r.bytes < 1 then 1 else r.bytes)).toNat := rfl
    _ = (roundUp mem.nextGlobalAddr.toNat r.effective.align + r.effective.size) % 2 ^ 64 := by
        rw [BitVec.toNat_add, hbase, hbytes]

/-- While the blocks fit, the allocator is the one on natural numbers. -/
theorem grants_eq_blocks {mem : AddrSpaceManager} {rs : List AllocRequest}
    (hfits : FitsBelow mem.nextGlobalAddr.toNat rs) :
    List.zipWith grantedBlock rs (grants mem rs)
      = Bump.blocks mem.nextGlobalAddr.toNat (rs.map AllocRequest.effective) := by
  induction rs generalizing mem with
  | nil => rfl
  | cons r rs ih =>
      have hfirst :
          roundUp mem.nextGlobalAddr.toNat r.effective.align + r.effective.size ≤ 2 ^ 64 :=
        hfits _ List.mem_cons_self
      obtain ⟨hbase, hnext⟩ := toNat_allocGlobal mem r hfirst
      have hrest :
          FitsBelow (roundUp mem.nextGlobalAddr.toNat r.effective.align + r.effective.size) rs :=
        fun b hb => hfits b (List.mem_cons_of_mem _ hb)
      have hhead : grantedBlock r (mem.allocGlobal r.bytes r.align).1
          = { base := roundUp mem.nextGlobalAddr.toNat r.effective.align
              size := r.effective.size } := by
        unfold grantedBlock
        rw [hbase]
      rw [grants, List.zipWith_cons_cons, hhead, List.map_cons, Bump.blocks]
      congr 1
      rcases Nat.lt_or_eq_of_le hfirst with hlt | hfull
      · rw [Nat.mod_eq_of_lt hlt] at hnext
        rw [← hnext] at hrest ⊢
        exact ih hrest
      · -- the last block ends at `2 ^ 64`, and no other can follow
        cases rs with
        | nil => rfl
        | cons r' rs =>
            have hlimit := hrest _ List.mem_cons_self
            have hle := Bump.le_roundUp
              (roundUp mem.nextGlobalAddr.toNat r.effective.align + r.effective.size)
              r'.effective.align
            have hpos := r'.effective_pos.1
            unfold Bump.Block.limit at hlimit
            dsimp only at hlimit
            omega

theorem length_grants (mem : AddrSpaceManager) (rs : List AllocRequest) :
    (grants mem rs).length = rs.length := by
  induction rs generalizing mem with
  | nil => rfl
  | cons r rs ih => exact congrArg (· + 1) (ih _)

/-- What holds of the blocks holds of the requests and their bases. -/
theorem forall₂_of_zipWith {rs : List AllocRequest} {bases : List Addr} {bs : List Bump.Block}
    (hlength : bases.length = rs.length) (hzip : List.zipWith grantedBlock rs bases = bs)
    (hall : List.Forall₂ (fun r b => r.align ∣ b.base ∧ b.size = r.size)
      (rs.map AllocRequest.effective) bs) :
    List.Forall₂ (fun r base => r.effective.align ∣ base.toNat) rs bases := by
  subst hzip
  induction rs generalizing bases with
  | nil =>
      obtain rfl := List.length_eq_zero_iff.mp hlength
      exact .nil
  | cons r rs ih =>
      obtain ⟨base, bases, rfl⟩ := List.exists_cons_of_length_eq_add_one hlength
      rw [List.map_cons, List.zipWith_cons_cons] at hall
      cases hall with
      | cons hfirst hrest => exact .cons hfirst.1 (ih (Nat.succ.inj hlength) hrest)

/-- **Allocations** are aligned, below `2 ^ 64` and disjoint, while none goes beyond it. -/
theorem allocations_sound {rs : List AllocRequest}
    (hfits : FitsBelow ({} : AddrSpaceManager).nextGlobalAddr.toNat rs) :
    SoundGrants rs (grants {} rs) := by
  have hblocks := grants_eq_blocks hfits
  constructor
  · refine forall₂_of_zipWith (length_grants ..) hblocks (Bump.aligned_blocks ?_ _)
    intro r hr
    obtain ⟨r', -, rfl⟩ := List.mem_map.mp hr
    exact r'.effective_pos.2
  · rw [hblocks]
    exact hfits
  · rw [hblocks]
    exact (Bump.pairwise_blocks _ _).imp fun h => .inl h

theorem allocations_sound_mixed :
    SoundGrants [⟨5, 16⟩, ⟨0, 0⟩, ⟨100, 24⟩]
      (grants {} [⟨5, 16⟩, ⟨0, 0⟩, ⟨100, 24⟩]) :=
  allocations_sound (by decide)

/-- A request of `2 ^ 64 - 16` bytes is granted, and the next one gets the block of the first
again. -/
theorem huge_request_wraps :
    grants {} [⟨16, 16⟩, ⟨0xfffffffffffffff0, 16⟩, ⟨16, 16⟩] = [0x1000, 0x1010, 0x1000]
      ∧ ¬ SoundGrants [⟨16, 16⟩, ⟨0xfffffffffffffff0, 16⟩, ⟨16, 16⟩]
        (grants {} [⟨16, 16⟩, ⟨0xfffffffffffffff0, 16⟩, ⟨16, 16⟩]) := by
  have hgrants :
      grants {} [⟨16, 16⟩, ⟨0xfffffffffffffff0, 16⟩, ⟨16, 16⟩] = [0x1000, 0x1010, 0x1000] := by
    decide
  refine ⟨hgrants, fun hsound => ?_⟩
  rw [hgrants] at hsound
  have hblock : grantedBlock ⟨16, 16⟩ 0x1000 = { base := 4096, size := 16 } := rfl
  have hmem : grantedBlock ⟨16, 16⟩ 0x1000
      ∈ [grantedBlock ⟨0xfffffffffffffff0, 16⟩ 0x1010, grantedBlock ⟨16, 16⟩ 0x1000] :=
    List.mem_cons_of_mem _ List.mem_cons_self
  have happart := (List.pairwise_cons.mp hsound.apart).1 _ hmem
  rw [hblock] at happart
  revert happart
  simp [Bump.Block.Apart, Bump.Block.limit]

/-! ### Allocated ranges -/

/-- The allocation, inside the address space, holds the whole range. -/
def Allocation.Covers (a : Allocation) (addr : Addr) (size : Nat) : Prop :=
  a.base.toNat + a.size.toNat < 2 ^ 64 ∧ a.base.toNat ≤ addr.toNat
    ∧ addr.toNat + size ≤ a.base.toNat + a.size.toNat

theorem globalRangeAllocated_iff {mem : AddrSpaceManager} {addr size : Addr} (hsize : size ≠ 0) :
    mem.globalRangeAllocated addr size = true ↔ ∃ a ∈ mem.allocs, a.Covers addr size.toNat := by
  have hpos : 0 < size.toNat := Nat.pos_of_ne_zero fun h => hsize (BitVec.eq_of_toNat_eq h)
  unfold AddrSpaceManager.globalRangeAllocated
  rw [if_neg hsize]
  dsimp only
  split
  · next hwrap =>
    refine iff_of_false Bool.false_ne_true ?_
    rintro ⟨a, -, hbelow, -, hend⟩
    bv_omega
  · next hfits =>
    rw [List.any_eq_true]
    refine exists_congr fun a => and_congr_right fun _ => ?_
    unfold Allocation.holds Allocation.Covers
    dsimp only
    split
    · next hcorrupt =>
      refine iff_of_false Bool.false_ne_true ?_
      rintro ⟨hbelow, -⟩
      bv_omega
    · next hbelow =>
      rw [Bool.and_eq_true, decide_eq_true_eq, decide_eq_true_eq]
      constructor
      · rintro ⟨hlow, hhigh⟩
        exact ⟨by bv_omega, by bv_omega, by bv_omega⟩
      · rintro ⟨-, hlow, hhigh⟩
        exact ⟨by bv_omega, by bv_omega⟩

end ProtoGpu

import ProtoGpu.Proof.DeviceRefinement

/-!
# Valid device ranges

The map of the shim is searched for the last allocation at or before a pointer. In a packed map that
is the allocation the pointer lies in, if there is one. The length is then tested with a 64-bit sum,
which accepts lengths that reach around the address space.
-/

namespace ProtoGpu

/-- The pointer lies in the allocation. -/
def HoldsPtr (pn : Addr × Addr) (p : Addr) : Prop :=
  pn.1.toNat ≤ p.toNat ∧ p.toNat < pn.1.toNat + pn.2.toNat

/-- The allocation holds the whole range, in natural numbers. -/
def HoldsRange (pn : Addr × Addr) (p n : Addr) : Prop :=
  pn.1.toNat ≤ p.toNat ∧ p.toNat + n.toNat ≤ pn.1.toNat + pn.2.toNat

namespace DeviceMemory
variable {live : List (Addr × Addr)} {next p : Addr} {pn : Addr × Addr}

/-- The last entry at or before the pointer is the one that holds it. -/
theorem getLast?_takeWhile (hpacked : PackedLive live next) (hmem : pn ∈ live)
    (hholds : HoldsPtr pn p) :
    ((live.map shimAllocation).takeWhile fun kv => kv.1 ≤ p).getLast?
      = some (shimAllocation pn) := by
  obtain ⟨pre, post, rfl⟩ := List.append_of_mem hmem
  obtain ⟨-, hpost, hcross⟩ := List.pairwise_append.mp hpacked.apart
  have hbefore : ∀ kv ∈ pre.map shimAllocation, decide (kv.1 ≤ p) = true := by
    intro kv hkv
    obtain ⟨x, hx, rfl⟩ := List.mem_map.mp hkv
    have hend := hcross x hx pn List.mem_cons_self
    have hle : x.1.toNat ≤ p.toNat := by
      have := hholds.1
      omega
    exact decide_eq_true hle
  have hstop : ((post.map shimAllocation).takeWhile fun kv => kv.1 ≤ p) = [] := by
    cases post with
    | nil => rfl
    | cons y post =>
        have hbehind := (List.pairwise_cons.mp hpost).1 y List.mem_cons_self
        have hgt : ¬ (shimAllocation y).1 ≤ p := by
          have hlt : p.toNat < y.1.toNat := by
            have := hholds.2
            omega
          exact Nat.not_le.mpr hlt
        rw [List.map_cons]
        exact List.takeWhile_cons_of_neg (by simpa using hgt)
  have hself : ((shimAllocation pn :: post.map shimAllocation).takeWhile fun kv => kv.1 ≤ p)
      = shimAllocation pn :: (post.map shimAllocation).takeWhile fun kv => kv.1 ≤ p :=
    List.takeWhile_cons_of_pos (decide_eq_true hholds.1)
  rw [List.map_append, List.map_cons, List.takeWhile_append_of_pos hbefore, hself, hstop]
  exact List.getLast?_concat

theorem findAllocationContaining_some {dm : DeviceMemory} (hpacked : PackedLive live next)
    (hallocs : dm.allocs = live.map shimAllocation) (hmem : pn ∈ live) (hholds : HoldsPtr pn p) :
    dm.findAllocationContaining p = some (shimAllocation pn).2 := by
  unfold findAllocationContaining
  rw [hallocs, getLast?_takeWhile hpacked hmem hholds]
  obtain ⟨hlow, hhigh⟩ := hholds
  have hbase : ¬ p < pn.1 := Nat.not_lt.mpr hlow
  have hoff : ¬ pn.2 ≤ p - pn.1 := by bv_omega
  dsimp only [shimAllocation]
  rw [if_neg hbase, if_neg hoff]

theorem findAllocationContaining_holds {dm : DeviceMemory} {a : DeviceAllocation}
    (hallocs : dm.allocs = live.map shimAllocation) (hpacked : PackedLive live next)
    (hfind : dm.findAllocationContaining p = some a) :
    ∃ pn ∈ live, HoldsPtr pn p ∧ a = (shimAllocation pn).2 := by
  unfold findAllocationContaining at hfind
  rw [hallocs] at hfind
  split at hfind
  · cases hfind
  · next key a' hlast =>
    have hin := List.mem_of_getLast? hlast
    obtain ⟨pn, hpn, heq⟩ := List.mem_map.mp ((List.takeWhile_prefix _).subset hin)
    obtain ⟨rfl, rfl⟩ := Prod.mk.inj heq
    have hend := hpacked.inside pn hpn
    split at hfind
    · cases hfind
    · next hbase =>
      split at hfind
      · cases hfind
      · next hoff =>
        obtain rfl := Option.some.inj hfind
        dsimp only at hbase hoff
        refine ⟨pn, hpn, ⟨Nat.not_lt.mp hbase, ?_⟩, rfl⟩
        bv_omega

/-- What the shim accepts as a range. -/
theorem isValidDeviceRange_iff {dm : DeviceMemory} (n : Addr)
    (hallocs : dm.allocs = live.map shimAllocation) (hpacked : PackedLive live next) :
    dm.isValidDeviceRange p n = true ↔
      ∃ pn ∈ live, HoldsPtr pn p ∧ (p.toNat - pn.1.toNat + n.toNat) % 2 ^ 64 ≤ pn.2.toNat := by
  unfold isValidDeviceRange
  have hsum : ∀ pn : Addr × Addr, HoldsPtr pn p →
      (p - pn.1 + n).toNat = (p.toNat - pn.1.toNat + n.toNat) % 2 ^ 64 := by
    intro pn hholds
    rw [BitVec.toNat_add, BitVec.toNat_sub_of_le hholds.1]
  cases hfind : dm.findAllocationContaining p with
  | none =>
      refine iff_of_false Bool.false_ne_true ?_
      rintro ⟨pn, hpn, hholds, -⟩
      rw [findAllocationContaining_some hpacked hallocs hpn hholds] at hfind
      cases hfind
  | some a =>
      obtain ⟨pn, hpn, hholds, rfl⟩ := findAllocationContaining_holds hallocs hpacked hfind
      dsimp only
      rw [decide_eq_true_eq, BitVec.le_def, show (shimAllocation pn).2.base = pn.1 from rfl,
        hsum pn hholds]
      constructor
      · exact fun hle => ⟨pn, hpn, hholds, hle⟩
      · rintro ⟨pn', hpn', hholds', hle⟩
        have hsame := findAllocationContaining_some hpacked hallocs hpn' hholds'
        rw [hfind] at hsame
        have hbase : pn.1 = pn'.1 := congrArg DeviceAllocation.base (Option.some.inj hsame)
        have hbytes : pn.2 = pn'.2 := congrArg DeviceAllocation.bytes (Option.some.inj hsame)
        rw [hbase]
        exact hle.trans_eq (congrArg BitVec.toNat hbytes.symm)

end DeviceMemory

/-- **Valid ranges** are those inside a live allocation, unless the pointer's offset and the length
reach `2 ^ 64`. -/
theorem valid_range_iff {r : DeviceRun} (hreached : r.Reached) (p n : Addr) (hn : n ≠ 0) :
    (r.shim.deviceMemory.isValidDeviceRange p n = true ↔ ∃ pn ∈ r.array.live, HoldsRange pn p n)
      ↔ ∀ pn ∈ r.array.live, HoldsPtr pn p → p.toNat - pn.1.toNat + n.toNat < 2 ^ 64 := by
  have hagrees := hreached.agrees
  have hpos : 0 < n.toNat := Nat.pos_of_ne_zero fun h => hn (BitVec.eq_of_toNat_eq h)
  rw [DeviceMemory.isValidDeviceRange_iff n hagrees.allocs hagrees.packed]
  have hbelow : ∀ pn ∈ r.array.live, pn.1.toNat + pn.2.toNat < 2 ^ 64 := fun pn hpn =>
    Nat.lt_of_le_of_lt (hagrees.packed.inside pn hpn).2
      r.shim.runtime.mem.nextGlobalAddr.isLt
  constructor
  · intro hvalid pn hpn hholds
    by_contra hwraps
    have hlow := hholds.1
    have hhigh := hholds.2
    have hlt := hbelow pn hpn
    obtain ⟨qn, hqn, hbase, hend⟩ := hvalid.mp ⟨pn, hpn, hholds, by omega⟩
    have hlt' := hbelow qn hqn
    omega
  · intro hfits
    constructor
    · rintro ⟨pn, hpn, hholds, hle⟩
      have hlt := hfits pn hpn hholds
      rw [Nat.mod_eq_of_lt hlt] at hle
      have hlow := hholds.1
      exact ⟨pn, hpn, hlow, by omega⟩
    · rintro ⟨pn, hpn, hlow, hend⟩
      have hholds : HoldsPtr pn p := ⟨hlow, by omega⟩
      refine ⟨pn, hpn, hholds, ?_⟩
      rw [Nat.mod_eq_of_lt (hfits pn hpn hholds)]
      omega

/-- One allocation of 64 bytes, at `0x1000`. -/
def oneAllocation : DeviceRun := ({} : DeviceRun).step ⟨.malloc 8 64, fun _ => 0, fun _ => true⟩

theorem oneAllocation_reached : oneAllocation.Reached :=
  .step ⟨.malloc 8 64, fun _ => 0, fun _ => true⟩ (by decide) .start

theorem valid_range_iff_inside :
    oneAllocation.shim.deviceMemory.isValidDeviceRange 0x1010 48 = true
      ↔ ∃ pn ∈ oneAllocation.array.live, HoldsRange pn 0x1010 48 := by
  refine (valid_range_iff oneAllocation_reached 0x1010 48 (by decide)).mpr fun pn hpn _ => ?_
  obtain rfl : pn = (0x1000, 64) := List.mem_singleton.mp hpn
  decide

/-- Sixteen bytes into the allocation, a length of `2 ^ 64 - 8` is valid. -/
theorem wrapped_length_valid :
    ¬ (oneAllocation.shim.deviceMemory.isValidDeviceRange 0x1010 0xfffffffffffffff8 = true
      ↔ ∃ pn ∈ oneAllocation.array.live, HoldsRange pn 0x1010 0xfffffffffffffff8) := by
  intro hvalid
  obtain ⟨pn, hpn, -, hend⟩ := hvalid.mp (by rfl)
  obtain rfl : pn = (0x1000, 64) := List.mem_singleton.mp hpn
  revert hend
  decide

end ProtoGpu

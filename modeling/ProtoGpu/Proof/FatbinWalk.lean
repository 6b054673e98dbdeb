import ProtoGpu.Shim.Fatbin
import ProtoGpu.Proof.SparseMemory

/-!
# The walk over a fatbin

A mapped region is shorter than half the address space, so of the sums of one pass only the last,
the end of an entry's data, can wrap. As long as it does not, the offset grows and every read stays
within the blob.
-/

namespace ProtoGpu

/-! ### Padding -/

/-- The first multiple of eight at or after `n`. -/
def roundUp8 (n : Nat) : Nat := (n + 7) / 8 * 8

theorem le_roundUp8 (n : Nat) : n ≤ roundUp8 n := by
  unfold roundUp8
  omega

theorem roundUp8_le (n : Nat) : roundUp8 n ≤ n + 7 := by
  unfold roundUp8
  omega

theorem skipPadding_toNat {safe : BitVec 64} {passes : Nat} {off : BitVec 64}
    (hle : off ≤ safe) (hpasses : roundUp8 off.toNat ≤ off.toNat + passes) :
    (skipPadding safe passes off).toNat = min safe.toNat (roundUp8 off.toNat) := by
  rw [BitVec.le_def] at hle
  induction passes generalizing off with
  | zero =>
    have hround := le_roundUp8 off.toNat
    rw [skipPadding]
    omega
  | succ passes ih =>
    have hround := le_roundUp8 off.toNat
    have hmod : (off % 8).toNat = off.toNat % 8 := by rw [BitVec.toNat_umod]; rfl
    rw [skipPadding]
    split
    · next hpad =>
      simp only [Bool.and_eq_true, decide_eq_true_eq, bne_iff_ne, ne_eq] at hpad
      have hlt : off.toNat < safe.toNat := hpad.1
      have hne : off.toNat % 8 ≠ 0 := by
        intro hzero
        exact hpad.2 (BitVec.eq_of_toNat_eq (by rw [hmod, hzero]; rfl))
      have hnext : (off + 1).toNat = off.toNat + 1 := by
        have := safe.isLt
        rw [BitVec.toNat_add]
        exact Nat.mod_eq_of_lt (by simp; omega)
      have hsame : roundUp8 (off + 1).toNat = roundUp8 off.toNat := by
        rw [hnext]
        unfold roundUp8
        omega
      rw [ih (by omega) (by rw [hsame, hnext]; omega), hsame]
    · next hstop =>
      simp only [Bool.and_eq_true, decide_eq_true_eq, bne_iff_ne, ne_eq, not_and_or,
        not_not] at hstop
      rcases hstop with hstop | hstop
      · have hge : safe.toNat ≤ off.toNat := by simpa [BitVec.lt_def] using hstop
        omega
      · have hzero : off.toNat % 8 = 0 := by rw [← hmod, hstop]; rfl
        have hself : roundUp8 off.toNat = off.toNat := by
          unfold roundUp8
          omega
        omega

/-! ### One pass -/

namespace MappedRegion

variable {region : MappedRegion} {off off' : BitVec 64} {v : Visit}

theorem safeBlobSize_lt (region : MappedRegion) : region.safeBlobSize.toNat < 2 ^ 63 := by
  have hfits := region.fits
  unfold safeBlobSize
  split
  · next hlt =>
    rw [BitVec.lt_def] at hlt
    omega
  · exact hfits

/-- The bounds a pass has checked when it accepts an entry. -/
structure Accepts (region : MappedRegion) (off : BitVec 64) (v : Visit) : Prop where
  visit : v = region.visitAt off
  enters : off + 16 ≤ region.safeBlobSize
  kind : v.header.kind ≠ 0
  headerSize : 16 ≤ v.header.headerSize
  dataEnd : v.dataEnd ≤ region.safeBlobSize
  reserves : v.header.kind = 1 → v.header.dataSize.toNat ≤ stringMaxSize

theorem walkStep_some_iff :
    region.walkStep off = .ok (some (v, off')) ↔
      Accepts region off v ∧ off' = region.nextOff v := by
  unfold walkStep
  dsimp only
  constructor
  · intro hstep
    split at hstep
    · next henters =>
      split at hstep
      · cases hstep
      · next hkind =>
        split at hstep
        · cases hstep
        · next hsize =>
          split at hstep
          · cases hstep
          · next hend =>
            split at hstep
            · cases hstep
            · next hreserve =>
              cases hstep
              refine ⟨⟨rfl, henters, hkind, ?_, ?_, ?_⟩, rfl⟩
              · simpa [BitVec.not_lt] using hsize
              · simpa [BitVec.not_lt] using hend
              · intro hone
                exact Nat.le_of_not_lt fun hlt => hreserve ⟨hone, hlt⟩
    · cases hstep
  · rintro ⟨⟨rfl, henters, hkind, hsize, hend, hreserves⟩, rfl⟩
    rw [if_pos henters, if_neg hkind, if_neg (by simpa [BitVec.not_lt] using hsize),
      if_neg (by simpa [BitVec.not_lt] using hend), if_neg]
    rintro ⟨hone, hlt⟩
    exact absurd (hreserves hone) (Nat.not_le.mpr hlt)

/-- The offsets at which a pass begins. -/
inductive Reaches (region : MappedRegion) : BitVec 64 → Prop
  | start : Reaches region region.start
  | next {off off' : BitVec 64} {v : Visit} : Reaches region off →
      region.walkStep off = .ok (some (v, off')) → Reaches region off'

theorem nextOff_toNat (hend : v.dataEnd ≤ region.safeBlobSize) :
    (region.nextOff v).toNat = min region.safeBlobSize.toNat (roundUp8 v.dataEnd.toNat) := by
  apply skipPadding_toNat hend
  have := roundUp8_le v.dataEnd.toNat
  omega

theorem Reaches.lt (hreach : Reaches region off) : off.toNat < 2 ^ 63 := by
  cases hreach with
  | start =>
    rw [MappedRegion.start, BitVec.toNat_setWidth]
    have := region.fatbinHeader.headerSize.isLt
    omega
  | next hprev hstep =>
    obtain ⟨haccepts, rfl⟩ := walkStep_some_iff.mp hstep
    have := region.safeBlobSize_lt
    rw [nextOff_toNat haccepts.dataEnd]
    omega

theorem Reaches.add_16 (hreach : Reaches region off) : (off + 16).toNat = off.toNat + 16 := by
  have := hreach.lt
  rw [BitVec.toNat_add]
  exact Nat.mod_eq_of_lt (by simp; omega)

theorem Accepts.dataOff (haccepts : Accepts region off v) (hreach : Reaches region off) :
    v.dataOff.toNat = off.toNat + v.header.headerSize.toNat := by
  have hlt := hreach.lt
  have hsize := v.header.headerSize.isLt
  have hoff : v.off = off := by rw [haccepts.visit]; rfl
  rw [Visit.dataOff, hoff, BitVec.toNat_add, BitVec.toNat_setWidth]
  omega

/-! ### The entries that keep the walk in bounds -/

/-- No sum wraps for the entry, or it is not PTX and the walk still moves forward. -/
def EntrySound (region : MappedRegion) (v : Visit) : Prop :=
  v.dataOff.toNat + v.header.dataSize.toNat < 2 ^ 64 ∨
    (v.header.kind ≠ 1 ∧ v.off < region.nextOff v)

/-- What the walk is to keep. -/
structure WalkSafe (region : MappedRegion) : Prop where
  terminates : ∃ passes, (region.walk passes region.start).isSome = true
  increases : ∀ off v off', Reaches region off → region.walkStep off = .ok (some (v, off')) →
    off < off'
  inBounds : ∀ off, Reaches region off → ∀ r ∈ region.reads off, ∀ i < r.2,
    r.1 + i < region.safeBlobSize.toNat

theorem Accepts.dataEnd_toNat (haccepts : Accepts region off v) (hreach : Reaches region off)
    (hfits : v.dataOff.toNat + v.header.dataSize.toNat < 2 ^ 64) :
    v.dataEnd.toNat = off.toNat + v.header.headerSize.toNat + v.header.dataSize.toNat := by
  rw [Visit.dataEnd, BitVec.toNat_add, Nat.mod_eq_of_lt hfits, haccepts.dataOff hreach]

theorem Accepts.increases (haccepts : Accepts region off v) (hreach : Reaches region off)
    (hsound : EntrySound region v) : off < region.nextOff v := by
  have hoff : v.off = off := by rw [haccepts.visit]; rfl
  rcases hsound with hfits | ⟨-, hnext⟩
  · have hend := haccepts.dataEnd_toNat hreach hfits
    have henters := haccepts.enters
    have hsize := haccepts.headerSize
    rw [BitVec.le_def] at henters hsize
    rw [hreach.add_16] at henters
    have hsize : 16 ≤ v.header.headerSize.toNat := hsize
    have hround := le_roundUp8 v.dataEnd.toNat
    rw [BitVec.lt_def, nextOff_toNat haccepts.dataEnd]
    omega
  · rwa [hoff] at hnext

theorem walk_terminates (hincreases : ∀ off v off', Reaches region off →
      region.walkStep off = .ok (some (v, off')) → off < off')
    (hreach : Reaches region off) {passes : Nat}
    (hpasses : region.safeBlobSize.toNat - off.toNat < passes) :
    (region.walk passes off).isSome = true := by
  induction passes generalizing off with
  | zero => omega
  | succ passes ih =>
    rw [walk]
    split
    · rfl
    · rfl
    · next v off' hstep =>
      have hlt := hincreases off v off' hreach hstep
      obtain ⟨haccepts, rfl⟩ := walkStep_some_iff.mp hstep
      have henters := haccepts.enters
      rw [BitVec.le_def, hreach.add_16] at henters
      rw [BitVec.lt_def] at hlt
      rw [Option.isSome_map]
      exact ih (hreach.next hstep) (by omega)

theorem mem_reads {r : Nat × Nat} (hr : r ∈ region.reads off) :
    off + 16 ≤ region.safeBlobSize ∧
      (r = (off.toNat, 16) ∨ ∃ v off', region.walkStep off = .ok (some (v, off')) ∧
        v.header.kind = 1 ∧ r = (v.dataOff.toNat, v.header.dataSize.toNat)) := by
  unfold reads at hr
  split at hr
  · next henters =>
    refine ⟨henters, ?_⟩
    rcases List.mem_cons.mp hr with hr | hr
    · exact .inl hr
    · split at hr
      · next v off' hstep =>
        split at hr
        · next hone => exact .inr ⟨v, off', hstep, hone, List.mem_singleton.mp hr⟩
        · cases hr
      · cases hr
  · cases hr

theorem payload_mem_reads (hstep : region.walkStep off = .ok (some (v, off')))
    (hone : v.header.kind = 1) :
    (v.dataOff.toNat, v.header.dataSize.toNat) ∈ region.reads off := by
  obtain ⟨haccepts, -⟩ := walkStep_some_iff.mp hstep
  rw [reads, if_pos haccepts.enters, hstep]
  simp [hone]

/-- **The walk.** It ends, moves forward and reads inside the blob on exactly the regions where
every entry it accepts is sound. -/
theorem walk_safe_iff (region : MappedRegion) :
    WalkSafe region ↔ ∀ off v, Reaches region off → Accepts region off v → EntrySound region v := by
  constructor
  · intro hsafe off v hreach haccepts
    have hstep := walkStep_some_iff.mpr ⟨haccepts, rfl⟩
    have hoff : v.off = off := by rw [haccepts.visit]; rfl
    by_cases hone : v.header.kind = 1
    · left
      by_contra hwrap
      -- the last byte of the text would be read behind the end of the address space
      have hsize := haccepts.dataOff hreach
      have hpos : 0 < v.header.dataSize.toNat := by
        have := v.dataOff.isLt
        omega
      have hlast := hsafe.inBounds off hreach _ (payload_mem_reads hstep hone)
        (v.header.dataSize.toNat - 1) (by dsimp only; omega)
      have := region.safeBlobSize_lt
      dsimp only at hlast
      omega
    · refine .inr ⟨hone, ?_⟩
      rw [hoff]
      exact hsafe.increases off v _ hreach hstep
  · intro hsound
    have hincreases : ∀ off v off', Reaches region off →
        region.walkStep off = .ok (some (v, off')) → off < off' := by
      intro off v off' hreach hstep
      obtain ⟨haccepts, rfl⟩ := walkStep_some_iff.mp hstep
      exact haccepts.increases hreach (hsound off v hreach haccepts)
    refine ⟨⟨_, walk_terminates hincreases .start (Nat.lt_succ_self _)⟩, hincreases, ?_⟩
    intro off hreach r hr i hi
    obtain ⟨henters, rfl | ⟨v, off', hstep, hone, rfl⟩⟩ := mem_reads hr
    · rw [BitVec.le_def, hreach.add_16] at henters
      dsimp only at hi ⊢
      omega
    · obtain ⟨haccepts, -⟩ := walkStep_some_iff.mp hstep
      have hfits := (hsound off v hreach haccepts).resolve_right fun h => h.1 hone
      have hend := haccepts.dataEnd
      rw [BitVec.le_def, haccepts.dataEnd_toNat hreach hfits,
        ← haccepts.dataOff hreach] at hend
      dsimp only at hi ⊢
      omega

/-- A container of one ELF entry, whose data is said to be 2^64 - 16 bytes long. -/
def endlessFatbin : MappedRegion where
  bytes := fun i => (packLe 0xBA55ED50 4 ++ packLe 1 2 ++ packLe 16 2 ++ packLe 16 8
    ++ packLe 2 2 ++ packLe 0 2 ++ packLe 16 4 ++ packLe (-16) 8).getD i 0
  len := 32
  fits := by decide

/-- The end of the data wraps to the entry's own offset, and the walk comes back to it. -/
theorem endlessFatbin_step :
    endlessFatbin.walkStep 16 = .ok (some (⟨16, ⟨2, 0, 16, -16⟩⟩, 16)) := by rfl

theorem endless_walk :
    endlessFatbin.fatbinHeader.magic = fatbinMagic ∧ ¬WalkSafe endlessFatbin := by
  have hstart : endlessFatbin.start = 16 := by rfl
  refine ⟨by rfl, ?_⟩
  intro hsafe
  have hreach : Reaches endlessFatbin 16 := hstart ▸ .start
  exact absurd (hsafe.increases 16 _ 16 hreach endlessFatbin_step) (by decide)

end MappedRegion

end ProtoGpu

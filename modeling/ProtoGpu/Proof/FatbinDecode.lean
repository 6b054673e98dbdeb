import ProtoGpu.Proof.FatbinWalk

/-!
# Decoding a packed fatbin

Entries laid out as a fatbin packer lays them out are what the walk visits, in their order, and the
texts it returns are their cleaned texts without repetition.
-/

namespace ProtoGpu

/-! ### Bytes in memory -/

namespace MappedRegion

/-- The bytes stand in memory at the position. -/
def Holds (region : MappedRegion) (pos : Nat) (bytes : List Byte) : Prop :=
  region.slice pos bytes.length = bytes

variable {region : MappedRegion} {pos : Nat} {a b : List Byte}

theorem slice_add (region : MappedRegion) (pos m n : Nat) :
    region.slice pos (m + n) = region.slice pos m ++ region.slice (pos + m) n := by
  rw [slice, List.range_add, List.map_append, List.map_map]
  congr 1
  apply List.map_congr_left
  intro i _
  rw [Function.comp_apply, Nat.add_assoc]

@[simp]
theorem length_slice (region : MappedRegion) (pos n : Nat) : (region.slice pos n).length = n := by
  simp [slice]

theorem holds_append : region.Holds pos (a ++ b) ↔
    region.Holds pos a ∧ region.Holds (pos + a.length) b := by
  rw [Holds, List.length_append, slice_add]
  constructor
  · exact fun h => List.append_inj h (length_slice ..)
  · rintro ⟨ha, hb⟩
    rw [ha, hb]

theorem readLe_of_holds {v : BitVec 64} {size : Nat} (hsize : v.toNat < 2 ^ (8 * size))
    (hholds : region.Holds pos (packLe v size)) : region.readLe pos size = v := by
  have hslice : region.slice pos size = packLe v size := by
    have h := hholds
    rwa [Holds, length_packLe] at h
  apply BitVec.eq_of_toNat_eq
  rw [readLe, hslice, unpackLe_packLe, lowBytes, BitVec.toNat_ofNat, Nat.mod_eq_of_lt hsize,
    Nat.mod_eq_of_lt v.isLt]

end MappedRegion

/-! ### Layout -/

/-- An entry to pack: the fields of its header, the bytes its header has beyond them, and its
data. -/
structure FatbinEntry where
  kind : BitVec 16
  version : BitVec 16
  headerRest : List Byte
  payload : List Byte
  kindKnown : kind = 1 ∨ kind = 2
  headerFits : 16 + headerRest.length < 2 ^ 32

namespace FatbinEntry

def headerSize (e : FatbinEntry) : Nat := 16 + e.headerRest.length

def size (e : FatbinEntry) : Nat := e.headerSize + e.payload.length

def bytes (e : FatbinEntry) : List Byte :=
  packLe (e.kind.setWidth 64) 2 ++ (packLe (e.version.setWidth 64) 2
    ++ (packLe (BitVec.ofNat 64 e.headerSize) 4
    ++ (packLe (BitVec.ofNat 64 e.payload.length) 8 ++ (e.headerRest ++ e.payload))))

def header (e : FatbinEntry) : FatbinDataHeader :=
  { kind := e.kind
    version := e.version
    headerSize := BitVec.ofNat 32 e.headerSize
    dataSize := BitVec.ofNat 64 e.payload.length }

/-- The text the shim makes of the entry. -/
def ptxText (e : FatbinEntry) : Option Text :=
  if e.kind = 1 ∧ looksLikePtxHeader (deobfuscatePtxTextMvp e.payload) = true then
    some (deobfuscatePtxTextMvp e.payload)
  else none

end FatbinEntry

/-- Where the entries go: the first at `pos`, each other at the first multiple of eight at or after
the end of the one before. -/
def layout : Nat → List FatbinEntry → List (Nat × FatbinEntry)
  | _, [] => []
  | pos, e :: es => (pos, e) :: layout (roundUp8 (pos + e.size)) es

/-- Where the last of them ends. -/
def layoutEnd : Nat → List FatbinEntry → Nat
  | pos, [] => pos
  | pos, [e] => pos + e.size
  | pos, e :: es => layoutEnd (roundUp8 (pos + e.size)) es

/-- The entries are packed behind the fatbin header, whose sizes cover them and no more. -/
structure Packed (region : MappedRegion) (es : List FatbinEntry) : Prop where
  magic : region.fatbinHeader.magic = fatbinMagic
  holds : ∀ p ∈ layout region.fatbinHeader.headerSize.toNat es, region.Holds p.1 p.2.bytes
  covers : region.fatbinHeader.headerSize.toNat + region.fatbinHeader.fatSize.toNat
    = layoutEnd region.fatbinHeader.headerSize.toNat es
  mapped : layoutEnd region.fatbinHeader.headerSize.toNat es ≤ region.len.toNat

/-! ### One entry -/

section Entry
variable {region : MappedRegion} {pos : Nat} {e : FatbinEntry}

theorem FatbinEntry.kind_ne (e : FatbinEntry) : e.kind ≠ 0 := by
  rcases e.kindKnown with h | h <;> rw [h] <;> decide

/-- A field of a header reads back. -/
theorem readLe_field {width size : Nat} {field : BitVec width}
    (hholds : region.Holds pos (packLe (field.setWidth 64) size)) (hwidth : width = 8 * size)
    (hword : width ≤ 64) :
    (region.readLe pos size).setWidth width = field := by
  have hlt : (field.setWidth 64).toNat < 2 ^ (8 * size) := by
    rw [BitVec.toNat_setWidth_of_le hword, ← hwidth]
    exact field.isLt
  rw [MappedRegion.readLe_of_holds hlt hholds, BitVec.setWidth_setWidth_of_le field hword,
    BitVec.setWidth_eq]

/-- What stands in memory where an entry does. -/
theorem holds_entry (hholds : region.Holds pos e.bytes) (hfits : pos + e.size < 2 ^ 64) :
    region.dataHeader pos = e.header ∧
      region.slice (pos + e.headerSize) e.payload.length = e.payload := by
  simp only [FatbinEntry.bytes, MappedRegion.holds_append, length_packLe, Nat.add_assoc,
    Nat.reduceAdd] at hholds
  obtain ⟨hkind, hversion, hsize, hdata, -, hpayload⟩ := hholds
  constructor
  · have hheader := e.headerFits
    have hlength : e.payload.length < 2 ^ 64 := by
      unfold FatbinEntry.size at hfits
      omega
    have hsize' : (region.readLe (pos + 4) 4).setWidth 32 = BitVec.ofNat 32 e.headerSize := by
      have hword : (BitVec.ofNat 32 e.headerSize).setWidth 64 = BitVec.ofNat 64 e.headerSize := by
        apply BitVec.eq_of_toNat_eq
        rw [BitVec.toNat_setWidth, BitVec.toNat_ofNat, BitVec.toNat_ofNat,
          Nat.mod_eq_of_lt (a := e.headerSize) hheader]
      rw [← hword] at hsize
      exact readLe_field hsize rfl (by decide)
    have hdata' : region.readLe (pos + 8) 8 = BitVec.ofNat 64 e.payload.length := by
      apply MappedRegion.readLe_of_holds _ hdata
      rw [BitVec.toNat_ofNat, Nat.mod_eq_of_lt hlength]
      exact hlength
    rw [MappedRegion.dataHeader, readLe_field hkind rfl (by decide),
      readLe_field hversion rfl (by decide), hsize', hdata', FatbinEntry.header]
  · rw [FatbinEntry.headerSize, ← Nat.add_assoc]
    rw [MappedRegion.Holds, ← Nat.add_assoc] at hpayload
    exact hpayload

/-- The visit of an entry packed at a position. -/
def visitOf (p : Nat × FatbinEntry) : Visit := { off := BitVec.ofNat 64 p.1, header := p.2.header }

section Visited
variable (hfits : pos + e.size ≤ region.safeBlobSize.toNat)
include hfits

theorem visitOf_dataOff : (visitOf (pos, e)).dataOff.toNat = pos + e.headerSize := by
  have hsafe := region.safeBlobSize_lt
  have hheader := e.headerFits
  have hsize : e.headerSize < 2 ^ 32 := hheader
  rw [FatbinEntry.size] at hfits
  rw [Visit.dataOff, BitVec.toNat_add, BitVec.toNat_setWidth]
  simp only [visitOf, FatbinEntry.header, BitVec.toNat_ofNat]
  omega

theorem visitOf_dataEnd : (visitOf (pos, e)).dataEnd.toNat = pos + e.size := by
  have hsafe := region.safeBlobSize_lt
  rw [Visit.dataEnd, BitVec.toNat_add, visitOf_dataOff hfits]
  rw [FatbinEntry.size] at hfits ⊢
  simp only [visitOf, FatbinEntry.header, BitVec.toNat_ofNat]
  omega

theorem payload_visitOf (hholds : region.Holds pos e.bytes) :
    region.payload (visitOf (pos, e)) = e.payload := by
  have hsafe := region.safeBlobSize_lt
  have hdata : (visitOf (pos, e)).header.dataSize.toNat = e.payload.length := by
    rw [FatbinEntry.size] at hfits
    simp only [visitOf, FatbinEntry.header, BitVec.toNat_ofNat]
    omega
  rw [MappedRegion.payload, visitOf_dataOff hfits, hdata]
  exact (holds_entry hholds (by omega)).2

theorem ptxText_visitOf (hholds : region.Holds pos e.bytes) :
    region.ptxText (visitOf (pos, e)) = e.ptxText := by
  rw [MappedRegion.ptxText, payload_visitOf hfits hholds, FatbinEntry.ptxText, ite_and]
  rfl

theorem walkStep_entry {off : BitVec 64} (hoff : off.toNat = pos)
    (hholds : region.Holds pos e.bytes) :
    region.walkStep off
      = .ok (some (visitOf (pos, e), region.nextOff (visitOf (pos, e)))) := by
  have hsafe := region.safeBlobSize_lt
  have hpayload : e.payload.length ≤ stringMaxSize := by
    rw [FatbinEntry.size] at hfits
    unfold stringMaxSize
    omega
  have hself : off = BitVec.ofNat 64 pos := by
    rw [← hoff, BitVec.ofNat_toNat, BitVec.setWidth_eq]
  rw [MappedRegion.walkStep_some_iff]
  refine ⟨⟨?_, ?_, e.kind_ne, ?_, ?_, ?_⟩, rfl⟩
  · rw [MappedRegion.visitAt, hoff, (holds_entry hholds (by omega)).1, hself]
    rfl
  · have h16 : (16 : BitVec 64).toNat = 16 := rfl
    rw [FatbinEntry.size, FatbinEntry.headerSize] at hfits
    rw [BitVec.le_def, BitVec.toNat_add, hoff, h16]
    omega
  · have hheader := e.headerFits
    have h16 : (16 : BitVec 32).toNat = 16 := rfl
    rw [BitVec.le_def, h16]
    simp only [visitOf, FatbinEntry.header, FatbinEntry.headerSize, BitVec.toNat_ofNat]
    omega
  · rw [BitVec.le_def, visitOf_dataEnd hfits]
    exact hfits
  · intro _
    simp only [visitOf, FatbinEntry.header, BitVec.toNat_ofNat]
    exact (Nat.mod_le _ _).trans hpayload

theorem nextOff_entry : (region.nextOff (visitOf (pos, e))).toNat
    = min region.safeBlobSize.toNat (roundUp8 (pos + e.size)) := by
  rw [MappedRegion.nextOff_toNat, visitOf_dataEnd hfits]
  rw [BitVec.le_def, visitOf_dataEnd hfits]
  exact hfits

end Visited

end Entry

/-! ### The whole container -/

theorem layoutEnd_cons_cons (pos : Nat) (e e' : FatbinEntry) (es : List FatbinEntry) :
    layoutEnd pos (e :: e' :: es) = layoutEnd (roundUp8 (pos + e.size)) (e' :: es) := rfl

theorem le_layoutEnd (pos : Nat) (es : List FatbinEntry) : pos ≤ layoutEnd pos es := by
  induction es generalizing pos with
  | nil => exact Nat.le_refl _
  | cons e es ih =>
    cases es with
    | nil => exact Nat.le_add_right _ _
    | cons e' es =>
      have hround := le_roundUp8 (pos + e.size)
      have hrest := ih (roundUp8 (pos + e.size))
      rw [layoutEnd_cons_cons]
      omega

theorem mem_layout_le {pos : Nat} {es : List FatbinEntry} {p : Nat × FatbinEntry}
    (hp : p ∈ layout pos es) : p.1 + p.2.size ≤ layoutEnd pos es := by
  induction es generalizing pos with
  | nil => cases hp
  | cons e es ih =>
    rw [layout, List.mem_cons] at hp
    cases es with
    | nil =>
      obtain rfl := hp.resolve_right (by simp [layout])
      exact Nat.le_refl _
    | cons e' es =>
      rw [layoutEnd_cons_cons]
      rcases hp with rfl | hp
      · exact (le_roundUp8 _).trans (le_layoutEnd _ _)
      · exact ih hp

theorem walk_layout {region : MappedRegion} {es : List FatbinEntry} {pos : Nat} {off : BitVec 64}
    (hoff : off.toNat = pos) (hholds : ∀ p ∈ layout pos es, region.Holds p.1 p.2.bytes)
    (hend : layoutEnd pos es = region.safeBlobSize.toNat) {passes : Nat}
    (hpasses : es.length < passes) :
    region.walk passes off = some (.ok ((layout pos es).map visitOf)) := by
  have hsafe := region.safeBlobSize_lt
  induction es generalizing pos off passes with
  | nil =>
    obtain ⟨passes, rfl⟩ := Nat.exists_eq_add_of_lt hpasses
    have hstop : region.walkStep off = .ok none := by
      rw [layoutEnd] at hend
      rw [MappedRegion.walkStep, if_neg]
      have h16 : (16 : BitVec 64).toNat = 16 := rfl
      rw [BitVec.le_def, BitVec.toNat_add, hoff, h16]
      omega
    rw [MappedRegion.walk, hstop]
    rfl
  | cons e es ih =>
    obtain ⟨passes, rfl⟩ : ∃ n, passes = n + 1 := ⟨passes - 1, by omega⟩
    have hfirst : (pos, e) ∈ layout pos (e :: es) := List.mem_cons_self ..
    have hfits : pos + e.size ≤ region.safeBlobSize.toNat := hend ▸ mem_layout_le hfirst
    have hnext := nextOff_entry hfits
    have hrest : region.walk passes (region.nextOff (visitOf (pos, e)))
        = some (.ok ((layout (roundUp8 (pos + e.size)) es).map visitOf)) := by
      rw [List.length_cons] at hpasses
      cases es with
      | nil =>
        -- the padding ends at the end of the blob
        have hstop : layoutEnd region.safeBlobSize.toNat [] = region.safeBlobSize.toNat := rfl
        refine @ih region.safeBlobSize.toNat _ ?_ ?_ hstop _ (by omega)
        · have hround := le_roundUp8 (pos + e.size)
          rw [layoutEnd] at hend
          omega
        · intro p hp
          cases hp
      | cons e' es =>
        rw [layoutEnd_cons_cons] at hend
        have hle := le_layoutEnd (roundUp8 (pos + e.size)) (e' :: es)
        refine ih (by omega) ?_ hend (by omega)
        intro p hp
        exact hholds p (List.mem_cons_of_mem _ hp)
    rw [MappedRegion.walk, walkStep_entry hfits hoff (hholds _ hfirst)]
    dsimp only
    rw [hrest]
    rfl

theorem safeBlobSize_of_packed {region : MappedRegion} {es : List FatbinEntry}
    (hpacked : Packed region es) :
    layoutEnd region.fatbinHeader.headerSize.toNat es = region.safeBlobSize.toNat := by
  have hfits := region.fits
  have hcovers := hpacked.covers
  have hmapped := hpacked.mapped
  have hblob : region.blobSize.toNat
      = region.fatbinHeader.headerSize.toNat + region.fatbinHeader.fatSize.toNat := by
    have hheader := region.fatbinHeader.headerSize.isLt
    rw [MappedRegion.blobSize, BitVec.toNat_add, BitVec.toNat_setWidth]
    omega
  rw [MappedRegion.safeBlobSize]
  split
  · omega
  · next hlt =>
    rw [BitVec.lt_def] at hlt
    omega

theorem filterMap_layout {region : MappedRegion} {pos : Nat} {es : List FatbinEntry}
    (hholds : ∀ p ∈ layout pos es, region.Holds p.1 p.2.bytes)
    (hfits : ∀ p ∈ layout pos es, p.1 + p.2.size ≤ region.safeBlobSize.toNat) :
    ((layout pos es).map visitOf).filterMap region.ptxText = es.filterMap FatbinEntry.ptxText := by
  induction es generalizing pos with
  | nil => rfl
  | cons e es ih =>
    rw [layout] at hholds hfits ⊢
    have hfirst := ptxText_visitOf (hfits (pos, e) (List.mem_cons_self ..))
      (hholds (pos, e) (List.mem_cons_self ..))
    have hrest := ih (fun p hp => hholds p (List.mem_cons_of_mem _ hp))
      (fun p hp => hfits p (List.mem_cons_of_mem _ hp))
    rw [List.map_cons, List.filterMap_cons, List.filterMap_cons, hfirst, hrest]

theorem map_payload_layout {region : MappedRegion} {pos : Nat} {es : List FatbinEntry}
    (hholds : ∀ p ∈ layout pos es, region.Holds p.1 p.2.bytes)
    (hfits : ∀ p ∈ layout pos es, p.1 + p.2.size ≤ region.safeBlobSize.toNat) :
    ((layout pos es).map visitOf).map (fun v => (v.header, region.payload v))
      = es.map fun e => (e.header, e.payload) := by
  induction es generalizing pos with
  | nil => rfl
  | cons e es ih =>
    rw [layout] at hholds hfits ⊢
    have hfirst := payload_visitOf (hfits (pos, e) (List.mem_cons_self ..))
      (hholds (pos, e) (List.mem_cons_self ..))
    have hrest := ih (fun p hp => hholds p (List.mem_cons_of_mem _ hp))
      (fun p hp => hfits p (List.mem_cons_of_mem _ hp))
    rw [List.map_cons, List.map_cons, List.map_cons, hfirst, hrest]
    rfl

theorem dedupeFrom_eq (deduped texts : List Text) :
    dedupeFrom deduped texts = List.eraseDupsBy.loop (· == ·) texts deduped.reverse := by
  induction texts generalizing deduped with
  | nil => rw [dedupeFrom, List.eraseDupsBy.loop, List.reverse_reverse]
  | cons text texts ih =>
    have hany : deduped.reverse.any (text == ·) = deduped.any (· == text) := by
      rw [List.any_reverse]
      congr 1
      funext prior
      exact BEq.comm
    rw [dedupeFrom, List.eraseDupsBy.loop, hany]
    cases deduped.any (· == text) with
    | true => exact ih deduped
    | false =>
      rw [if_neg (by decide), ih, List.reverse_append]
      rfl

/-- A text is kept at its first position only. -/
theorem dedupeExactPreserveOrder_eq (texts : List Text) :
    dedupeExactPreserveOrder texts = texts.eraseDups := dedupeFrom_eq [] texts

/-- **Decoding.** The walk visits the packed entries in their order and finds their data, and the
texts are those the PTX entries give, each at its first position. -/
theorem fatbin_decode {region : MappedRegion} {es : List FatbinEntry} (hpacked : Packed region es)
    {passes : Nat} (hpasses : es.length < passes) :
    (∃ visits, region.walk passes region.start = some (.ok visits) ∧
      visits.map Visit.off
        = (layout region.fatbinHeader.headerSize.toNat es).map (fun p => BitVec.ofNat 64 p.1) ∧
      visits.map (fun v => (v.header, region.payload v))
        = es.map fun e => (e.header, e.payload)) ∧
    region.extractPtxTexts passes
      = some (.ok (es.filterMap FatbinEntry.ptxText).eraseDups) := by
  have hend := safeBlobSize_of_packed hpacked
  have hfits : ∀ p ∈ layout region.fatbinHeader.headerSize.toNat es,
      p.1 + p.2.size ≤ region.safeBlobSize.toNat := fun p hp => hend ▸ mem_layout_le hp
  have hstart : region.start.toNat = region.fatbinHeader.headerSize.toNat :=
    BitVec.toNat_setWidth_of_le (by decide)
  have hwalk := walk_layout hstart hpacked.holds hend hpasses
  refine ⟨⟨_, hwalk, ?_, map_payload_layout hpacked.holds hfits⟩, ?_⟩
  · rw [List.map_map]
    rfl
  · rw [MappedRegion.extractPtxTexts, hwalk, ← filterMap_layout hpacked.holds hfits,
      ← dedupeExactPreserveOrder_eq]
    rfl

/-- Two entries with one text, and an ELF entry between them. -/
def twiceEntries : List FatbinEntry :=
  let text : FatbinEntry :=
    { kind := 1
      version := 0
      headerRest := []
      payload := ".version.target.entry".toList.map fun c => BitVec.ofNat 8 c.toNat
      kindKnown := .inl rfl
      headerFits := by decide }
  [text, { text with kind := 2, payload := [0x7F], kindKnown := .inr rfl }, text]

def twiceFatbin : MappedRegion where
  bytes := fun i => (packLe 0xBA55ED50 4 ++ packLe 1 2 ++ packLe 16 2 ++ packLe 101 8
    ++ (twiceEntries.flatMap fun (e : FatbinEntry) =>
      e.bytes ++ List.replicate (7 - (e.size + 7) % 8) 0)).getD i 0
  len := 128
  fits := by decide

theorem fatbin_decode_twice :
    twiceFatbin.extractPtxTexts 4 = some (.ok [".version.target.entry\n".toList]) := by
  have hpacked : Packed twiceFatbin twiceEntries :=
    { magic := by rfl
      holds := by
        intro p hp
        have hlayout : layout twiceFatbin.fatbinHeader.headerSize.toNat twiceEntries
            = [16, 56, 80].zip twiceEntries := by rfl
        rw [hlayout] at hp
        simp only [twiceEntries, List.zip_cons_cons, List.zip_nil_right, List.mem_cons,
          List.not_mem_nil, or_false] at hp
        rcases hp with rfl | rfl | rfl
        all_goals exact (rfl : _ = _)
      covers := by rfl
      mapped := by decide }
  rw [(fatbin_decode hpacked (by decide)).2]
  rfl

end ProtoGpu

import ProtoGpu.Shim.PtxClean
import ProtoGpu.Units.MemUnit

/-!
# The fatbin container

The part of `FatbinRegistry::extract_ptx_texts_mvp` (`fatbin_registry.cpp`) that walks a fatbin: a
header, then entries with a header and data each. Offsets are `std::size_t` and their sums wrap. The
memory is what lies behind `begin`, of which the bytes up to `end` are mapped.
-/

namespace ProtoGpu

structure FatbinHeader where
  magic : BitVec 32
  version : BitVec 16
  headerSize : BitVec 16
  fatSize : BitVec 64
deriving DecidableEq

structure FatbinDataHeader where
  kind : BitVec 16
  version : BitVec 16
  headerSize : BitVec 32
  dataSize : BitVec 64
deriving DecidableEq

def fatbinMagic : BitVec 32 := 0xBA55ED50

/-- The memory from `begin` on, mapped up to `begin + len`. -/
structure MappedRegion where
  bytes : Nat → Byte
  len : BitVec 64
  fits : len.toNat < 2 ^ 63    -- `end - begin` is a `std::ptrdiff_t`

/-- `std::string::max_size()`. -/
def stringMaxSize : Nat := 2 ^ 63 - 1

namespace MappedRegion

variable (region : MappedRegion)

def slice (pos size : Nat) : List Byte := (List.range size).map fun i => region.bytes (pos + i)

def readLe (pos size : Nat) : BitVec 64 := unpackLe (region.slice pos size)

def fatbinHeader : FatbinHeader :=
  { magic := (region.readLe 0 4).setWidth 32
    version := (region.readLe 4 2).setWidth 16
    headerSize := (region.readLe 6 2).setWidth 16
    fatSize := region.readLe 8 8 }

def dataHeader (off : Nat) : FatbinDataHeader :=
  { kind := (region.readLe off 2).setWidth 16
    version := (region.readLe (off + 2) 2).setWidth 16
    headerSize := (region.readLe (off + 4) 4).setWidth 32
    dataSize := region.readLe (off + 8) 8 }

def blobSize : BitVec 64 :=
  region.fatbinHeader.headerSize.setWidth 64 + region.fatbinHeader.fatSize

def safeBlobSize : BitVec 64 :=
  if region.blobSize < region.len then region.blobSize else region.len

/-- The offset of the first entry. -/
def start : BitVec 64 := region.fatbinHeader.headerSize.setWidth 64

end MappedRegion

/-- An entry the walk has accepted. -/
structure Visit where
  off : BitVec 64
  header : FatbinDataHeader
deriving DecidableEq

namespace Visit

def dataOff (v : Visit) : BitVec 64 := v.off + v.header.headerSize.setWidth 64

def dataEnd (v : Visit) : BitVec 64 := v.dataOff + v.header.dataSize

end Visit

/-- `while (off < safe_blob_size && (off % 8) != 0) off++`, which ends within eight passes. -/
def skipPadding (safe : BitVec 64) : Nat → BitVec 64 → BitVec 64
  | 0, off => off
  | passes + 1, off =>
      if off < safe && off % 8 != 0 then skipPadding safe passes (off + 1) else off

namespace MappedRegion

variable (region : MappedRegion)

def visitAt (off : BitVec 64) : Visit := { off := off, header := region.dataHeader off.toNat }

/-- The offset behind an entry. -/
def nextOff (v : Visit) : BitVec 64 := skipPadding region.safeBlobSize 8 v.dataEnd

/-- One pass of the loop: it ends, or it accepts an entry and moves on. The text of a PTX entry is
begun with `text.reserve(n)`, which throws for what no string can hold. -/
def walkStep (off : BitVec 64) : Except String (Option (Visit × BitVec 64)) :=
  if off + 16 ≤ region.safeBlobSize then
    let v := region.visitAt off
    if v.header.kind = 0 then .ok none
    else if v.header.headerSize < 16 then .ok none
    else if region.safeBlobSize < v.dataEnd then .ok none
    else if v.header.kind = 1 ∧ stringMaxSize < v.header.dataSize.toNat then
      .error "basic_string::reserve"
    else .ok (some (v, region.nextOff v))
  else .ok none

/-- The walk, if it ends within the passes allowed: the entries it accepts, or what is thrown. -/
def walk : Nat → BitVec 64 → Option (Except String (List Visit))
  | 0, _ => none
  | passes + 1, off =>
      match region.walkStep off with
      | .error what => some (.error what)
      | .ok none => some (.ok [])
      | .ok (some (v, off')) => (walk passes off').map fun rest => rest.map (v :: ·)

/-- The bytes one pass reads: a position and a number of bytes each. -/
def reads (off : BitVec 64) : List (Nat × Nat) :=
  if off + 16 ≤ region.safeBlobSize then
    (off.toNat, 16) ::
      match region.walkStep off with
      | .ok (some (v, _)) =>
          if v.header.kind = 1 then [(v.dataOff.toNat, v.header.dataSize.toNat)] else []
      | _ => []
  else []

def payload (v : Visit) : List Byte := region.slice v.dataOff.toNat v.header.dataSize.toNat

/-- The text of an entry, if it is one of PTX and looks like it. -/
def ptxText (v : Visit) : Option Text :=
  if v.header.kind = 1 then
    let ptx := deobfuscatePtxTextMvp (region.payload v)
    if looksLikePtxHeader ptx then some ptx else none
  else none

end MappedRegion

/-- The loop of `dedupe_exact_preserve_order`. -/
def dedupeFrom : List Text → List Text → List Text
  | deduped, [] => deduped
  | deduped, text :: texts =>
      if deduped.any (· == text) then dedupeFrom deduped texts
      else dedupeFrom (deduped ++ [text]) texts

def dedupeExactPreserveOrder (texts : List Text) : List Text := dedupeFrom [] texts

/-- The texts of a container, if the walk ends within the passes allowed. -/
def MappedRegion.extractPtxTexts (region : MappedRegion) (passes : Nat) :
    Option (Except String (List Text)) :=
  (region.walk passes region.start).map fun visits =>
    visits.map fun visits => dedupeExactPreserveOrder (visits.filterMap region.ptxText)

end ProtoGpu

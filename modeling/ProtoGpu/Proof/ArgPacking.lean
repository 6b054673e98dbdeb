import ProtoGpu.Proof.ParamLayout
import ProtoGpu.Proof.DeviceRefinement

/-!
# Packing and reading back

The packer fills the blob slot by slot, the slot of an entry from the pointer at its index, and
`ld.param` finds the first entry of a name. Every argument is read back as it was passed exactly
when the names are distinct and the slots have no byte in common.
-/

namespace ProtoGpu

open Slots (Slot fill)

variable {host : Addr → Byte} {deviceMemory : DeviceMemory} {kernelParams : Nat → Addr}

/-! ### Packing -/

/-- The packer takes the argument at index `i`. -/
def PackAccepts (host : Addr → Byte) (deviceMemory : DeviceMemory) (kernelParams : Nat → Addr)
    (p : ParamDesc) (i : Nat) : Prop :=
  kernelParams i ≠ 0 ∧ (p.type = .u64 → unpackLe (readHost host (kernelParams i) 8) = 0 ∨
    deviceMemory.isValidDeviceRange (unpackLe (readHost host (kernelParams i) 8)) 1 = true)

/-- What the packer copies for an entry and its index. -/
def argSlot (host : Addr → Byte) (kernelParams : Nat → Addr) (pi : ParamDesc × Nat) :
    Slot Byte where
  off := pi.1.start
  cells := readHost host (kernelParams pi.2) pi.1.type.bytes

theorem stop_argSlot {pi : ParamDesc × Nat} (hp : pi.1.Natural) :
    (argSlot host kernelParams pi).stop = pi.1.stop := by
  rw [hp.stop_eq, Slot.stop, argSlot, length_readHost]

theorem length_overlay_arg (host : Addr → Byte) (kernelParams : Nat → Addr) {p : ParamDesc}
    (hp : p.Natural) (i : Nat) {blob : List Byte} (hfits : p.stop ≤ blob.length) :
    (Slots.overlay blob p.start (readHost host (kernelParams i) p.type.bytes)).length
      = blob.length := by
  apply Slots.length_overlay
  rw [length_readHost, ← hp.stop_eq]
  exact hfits

theorem packArg_iff {p : ParamDesc} (hp : p.Natural) (i : Nat) {blob blob' : List Byte}
    (hfits : p.stop ≤ blob.length) :
    packArg host deviceMemory kernelParams blob p i = .ok blob' ↔
      PackAccepts host deviceMemory kernelParams p i ∧
        blob' = Slots.overlay blob p.start (readHost host (kernelParams i) p.type.bytes) := by
  have hsize := hp.size
  unfold packArg PackAccepts
  dsimp only
  by_cases hnull : kernelParams i = 0
  · rw [if_pos hnull]
    exact iff_of_false nofun fun h => h.1.1 hnull
  · have hbound : ¬ blob.length < p.offset.toNat + p.size.toNat := Nat.not_lt.mpr hfits
    rw [if_neg hnull, if_neg hbound]
    cases htype : p.type with
    | u32 =>
      rw [htype] at hsize
      dsimp only
      rw [hsize, if_neg (by decide), Except.ok.injEq]
      exact ⟨fun h => ⟨⟨hnull, nofun⟩, h.symm⟩, fun h => h.2.symm⟩
    | u64 =>
      rw [htype] at hsize
      dsimp only
      rw [hsize, if_neg (by decide)]
      split
      · next hbad =>
        refine iff_of_false nofun fun h => ?_
        rcases h.1.2 rfl with hzero | hvalid
        · exact hbad.1 hzero
        · rw [hvalid] at hbad
          exact absurd hbad.2 nofun
      · next hgood =>
        rw [Except.ok.injEq]
        refine ⟨fun h => ⟨⟨hnull, fun _ => ?_⟩, h.symm⟩, fun h => h.2.symm⟩
        by_cases hzero : unpackLe (readHost host (kernelParams i) 8) = 0
        · exact .inl hzero
        · exact .inr (by simpa using fun hinvalid => hgood ⟨hzero, hinvalid⟩)

variable {layout : List ParamDesc}

theorem packFrom_fill (hnatural : ∀ p ∈ layout, p.Natural) {i : Nat} {blob blob' : List Byte}
    (hfits : ∀ p ∈ layout, p.stop ≤ blob.length)
    (hpack : packFrom host deviceMemory kernelParams i blob layout = .ok blob') :
    blob' = fill blob ((layout.zipIdx i).map (argSlot host kernelParams)) := by
  induction layout generalizing i blob with
  | nil =>
    cases hpack
    rfl
  | cons p layout ih =>
    have hp := hnatural p List.mem_cons_self
    have hfit := hfits p List.mem_cons_self
    rw [packFrom] at hpack
    split at hpack
    · cases hpack
    · next mid harg =>
      obtain ⟨-, rfl⟩ := (packArg_iff hp i hfit).mp harg
      have hlength := length_overlay_arg host kernelParams hp i hfit
      exact ih (fun q hq => hnatural q (List.mem_cons_of_mem p hq))
        (fun q hq => (hfits q (List.mem_cons_of_mem p hq)).trans hlength.ge) hpack

theorem packFrom_ok (hnatural : ∀ p ∈ layout, p.Natural) (i : Nat) {blob : List Byte}
    (hfits : ∀ p ∈ layout, p.stop ≤ blob.length)
    (haccepts : ∀ p ∈ layout, ∀ j, PackAccepts host deviceMemory kernelParams p j) :
    ∃ blob', packFrom host deviceMemory kernelParams i blob layout = .ok blob' := by
  induction layout generalizing i blob with
  | nil => exact ⟨blob, rfl⟩
  | cons p layout ih =>
    have hp := hnatural p List.mem_cons_self
    have hfit := hfits p List.mem_cons_self
    have harg := (packArg_iff hp i hfit).mpr ⟨haccepts p List.mem_cons_self i, rfl⟩
    rw [packFrom, harg]
    refine ih (fun q hq => hnatural q (List.mem_cons_of_mem p hq)) (i + 1) (fun q hq => ?_)
      fun q hq => haccepts q (List.mem_cons_of_mem p hq)
    rw [length_overlay_arg host kernelParams hp i hfit]
    exact hfits q (List.mem_cons_of_mem p hq)

theorem le_blobSize {p : ParamDesc} (hp : p ∈ layout) : p.stop ≤ blobSize layout := by
  have hgrow : ∀ (layout : List ParamDesc) (n : Nat),
      n ≤ layout.foldl (fun size p => max size (p.offset.toNat + p.size.toNat)) n ∧
      ∀ p ∈ layout,
        p.stop ≤ layout.foldl (fun size p => max size (p.offset.toNat + p.size.toNat)) n := by
    intro layout
    induction layout with
    | nil => exact fun n => ⟨le_rfl, nofun⟩
    | cons q layout ih =>
      intro n
      obtain ⟨hbase, hrest⟩ := ih (max n (q.offset.toNat + q.size.toNat))
      refine ⟨(Nat.le_max_left ..).trans hbase, fun p hp => ?_⟩
      rcases List.mem_cons.mp hp with rfl | hp
      · exact (Nat.le_max_right ..).trans hbase
      · exact hrest p hp
  exact (hgrow layout 0).2 p hp

/-- The blob of a packed layout. -/
theorem packKernelArgs_blob (hnatural : ∀ p ∈ layout, p.Natural) {kargs : KernelArgs}
    (hpack : packKernelArgsMvp host deviceMemory layout (some kernelParams) = .ok kargs) :
    kargs.layout = layout ∧ kargs.blob = fill (List.replicate (blobSize layout) 0)
      (layout.zipIdx.map (argSlot host kernelParams)) := by
  unfold packKernelArgsMvp at hpack
  dsimp only at hpack
  split at hpack
  · cases hpack
  · next blob hfrom =>
    cases hpack
    refine ⟨rfl, packFrom_fill hnatural (fun p hp => ?_) hfrom⟩
    rw [List.length_replicate]
    exact le_blobSize hp

theorem packKernelArgs_ok (hnatural : ∀ p ∈ layout, p.Natural)
    (haccepts : ∀ p ∈ layout, ∀ j, PackAccepts host deviceMemory kernelParams p j) :
    ∃ kargs, packKernelArgsMvp host deviceMemory layout (some kernelParams) = .ok kargs := by
  have hfits : ∀ p ∈ layout, p.stop ≤ (List.replicate (blobSize layout) (0 : Byte)).length := by
    intro p hp
    rw [List.length_replicate]
    exact le_blobSize hp
  obtain ⟨blob, hfrom⟩ := packFrom_ok hnatural 0 hfits haccepts
  refine ⟨{ layout := layout, blob := blob }, ?_⟩
  unfold packKernelArgsMvp
  dsimp only
  rw [hfrom]

/-! ### Reading back -/

theorem readParamSymbol_eq (mgr : AddrSpaceManager) {kargs : KernelArgs} {p : ParamDesc}
    {name : String} (hfind : kargs.layout.find? (fun q => q.name == name) = some p)
    (t : ParamType) :
    (mgr.setParams kargs).readParamSymbol name (BitVec.ofNat 64 t.bytes)
      = if kargs.blob.length < p.start + t.bytes then none
        else some ((List.range t.bytes).map fun i => kargs.blob.getD (p.start + i) 0) := by
  unfold AddrSpaceManager.readParamSymbol
  have hlayout : (mgr.setParams kargs).paramLayout name = some p := hfind
  have hblob : (mgr.setParams kargs).paramBlob = kargs.blob := rfl
  rw [hlayout, hblob]
  dsimp only
  have hlt : p.start < 2 ^ 32 := p.offset.isLt
  have hsize : (BitVec.ofNat 64 t.bytes).toNat = t.bytes := by cases t <;> rfl
  have hstart : (p.offset.setWidth 64).toNat = p.start := by
    rw [BitVec.toNat_setWidth]
    exact Nat.mod_eq_of_lt (hlt.trans (by decide))
  have hend : (p.offset.setWidth 64 + BitVec.ofNat 64 t.bytes).toNat = p.start + t.bytes := by
    have hbytes := t.bytes_cases
    rw [BitVec.toNat_add, hsize, hstart, Nat.mod_eq_of_lt (by omega)]
  rw [hend, hsize, hstart]

/-- Every entry of the layout is read as it was passed. -/
def ReadsBack (host : Addr → Byte) (kernelParams : Nat → Addr) (layout : List ParamDesc)
    (kargs : KernelArgs) : Prop :=
  ∀ i p, layout[i]? = some p → ∀ mgr : AddrSpaceManager,
    (mgr.setParams kargs).readParamSymbol p.name (BitVec.ofNat 64 p.type.bytes)
      = some (readHost host (kernelParams i) p.type.bytes)

theorem find?_of_names {front back : List ParamDesc} {p : ParamDesc}
    (hfront : ∀ q ∈ front, q.name ≠ p.name) :
    (front ++ p :: back).find? (fun q => q.name == p.name) = some p := by
  have hnone : front.find? (fun q => q.name == p.name) = none := by
    rw [List.find?_eq_none]
    intro q hq
    simpa using hfront q hq
  rw [List.find?_append, hnone, Option.none_or]
  exact List.find?_cons_of_pos (beq_self_eq_true p.name)

theorem readHost_getD {n i : Nat} (host : Addr → Byte) (addr : Addr) (hi : i < n) :
    (readHost host addr n)[i]? = some (host (addr + BitVec.ofNat 64 i)) := by
  rw [readHost, List.getElem?_map, List.getElem?_range hi]
  rfl

theorem exists_split_at {α : Type*} {xs : List α} {i : Nat} {x : α} (hx : xs[i]? = some x) :
    ∃ front back, xs = front ++ x :: back ∧ front.length = i := by
  obtain ⟨hi, hget⟩ := List.getElem?_eq_some_iff.mp hx
  refine ⟨xs.take i, xs.drop (i + 1), ?_, List.length_take_of_le hi.le⟩
  rw [← hget, ← List.drop_eq_getElem_cons hi, List.take_append_drop]

theorem argSlots_split (front back : List ParamDesc) (p : ParamDesc) :
    ((front ++ p :: back).zipIdx).map (argSlot host kernelParams)
      = front.zipIdx.map (argSlot host kernelParams) ++ argSlot host kernelParams (p, front.length)
        :: (back.zipIdx (front.length + 1)).map (argSlot host kernelParams) := by
  rw [List.zipIdx_append, List.zipIdx_cons, List.map_append, List.map_cons, Nat.zero_add]

/-- The slots of a layout lie in its blob. -/
theorem stop_le_blob (host : Addr → Byte) (kernelParams : Nat → Addr)
    (hnatural : ∀ p ∈ layout, p.Natural) :
    ∀ s ∈ layout.zipIdx.map (argSlot host kernelParams),
      s.stop ≤ (List.replicate (blobSize layout) (0 : Byte)).length := by
  intro s hs
  obtain ⟨pi, hpi, rfl⟩ := List.mem_map.mp hs
  have hp := List.mem_zipIdx_iff_getElem?.mp hpi
  have hmem := List.mem_of_getElem? hp
  rw [stop_argSlot (hnatural pi.1 hmem), List.length_replicate]
  exact le_blobSize hmem

theorem length_blob (hnatural : ∀ p ∈ layout, p.Natural) {kargs : KernelArgs}
    (hpack : packKernelArgsMvp host deviceMemory layout (some kernelParams) = .ok kargs) :
    kargs.blob.length = blobSize layout := by
  rw [(packKernelArgs_blob hnatural hpack).2,
    Slots.length_fill (stop_le_blob host kernelParams hnatural),
    List.length_replicate]

theorem reads_back (hnatural : ∀ p ∈ layout, p.Natural) (hapart : layout.Pairwise ParamDesc.Apart)
    (hnames : layout.Pairwise fun p q => p.name ≠ q.name) {kargs : KernelArgs}
    (hpack : packKernelArgsMvp host deviceMemory layout (some kernelParams) = .ok kargs) :
    ReadsBack host kernelParams layout kargs := by
  obtain ⟨hlayout, hblob⟩ := packKernelArgs_blob hnatural hpack
  have hlength := length_blob hnatural hpack
  intro i p hp mgr
  have hmem := List.mem_of_getElem? hp
  obtain ⟨front, back, rfl, rfl⟩ := exists_split_at hp
  rw [List.pairwise_append] at hapart hnames
  have hfind : kargs.layout.find? (fun q => q.name == p.name) = some p := by
    rw [hlayout]
    exact find?_of_names fun q hq => hnames.2.2 q hq p List.mem_cons_self
  have hin : p.start + p.type.bytes ≤ kargs.blob.length := by
    rw [hlength, ← (hnatural p hmem).stop_eq]
    exact le_blobSize hmem
  rw [readParamSymbol_eq mgr hfind, if_neg (Nat.not_lt.mpr hin)]
  congr 1
  refine List.map_congr_left fun j hj => ?_
  rw [List.mem_range] at hj
  have hlater : ∀ t ∈ (back.zipIdx (front.length + 1)).map (argSlot host kernelParams),
      (argSlot host kernelParams (p, front.length)).Apart t := by
    intro t ht
    obtain ⟨qk, hqk, rfl⟩ := List.mem_map.mp ht
    have hq := List.mem_of_getElem? (List.mem_zipIdx_iff_le_and_getElem?_sub.mp hqk).2
    have hqnatural := hnatural qk.1 (List.mem_append_right _ (List.mem_cons_of_mem p hq))
    rw [Slot.Apart, stop_argSlot hqnatural, stop_argSlot (hnatural p hmem)]
    exact List.rel_of_pairwise_cons hapart.2.1 hq
  have hread : kargs.blob[p.start + j]?
      = (readHost host (kernelParams front.length) p.type.bytes)[j]? := by
    have hfit := stop_le_blob host kernelParams hnatural
    rw [argSlots_split] at hfit
    rw [hblob, argSlots_split]
    exact Slots.read_fill hfit hlater (by rw [argSlot, length_readHost]; exact hj)
  rw [List.getD_eq_getElem?_getD, hread, readHost_getD _ _ hj]
  rfl

/-! ### Arguments that are not read back -/

/-- Memory where a marked argument has `0x10` in the second byte of each word, and points into the
allocation of `markedMemory`. -/
def markedHost : Addr → Byte := fun a => if a = 0x101 ∨ a = 0x105 then 0x10 else 0

def markedMemory : DeviceMemory where
  allocs := [(0x1000, { base := 0x1000, bytes := 2 ^ 50, align := 16 })]

def marks (marked : Nat → Bool) (i : Nat) : Addr := if marked i then 0x100 else 0x200

theorem packAccepts_marks (marked : Nat → Bool) (p : ParamDesc) (i : Nat) :
    PackAccepts markedHost markedMemory (marks marked) p i := by
  unfold PackAccepts marks
  cases marked i with
  | true => exact ⟨by decide, fun _ => .inr (by decide)⟩
  | false => exact ⟨by decide, fun _ => .inl (by decide)⟩

theorem readHost_marks (marked : Nat → Bool) (i : Nat) (t : ParamType) {d : Nat} (hd : d < t.bytes)
    (hmod : d % 4 = 1) :
    (readHost markedHost (marks marked i) t.bytes)[d]? = some (if marked i then 0x10 else 0) := by
  have hbytes := t.bytes_cases
  obtain rfl | rfl : d = 1 ∨ d = 5 := by omega
  all_goals
    rw [readHost_getD _ _ hd]
    unfold marks
    cases marked i <;> rfl

/-- What the blob has in the second byte of a word is from the last argument over it. -/
theorem blob_marks (hnatural : ∀ p ∈ layout, p.Natural) (hquad : ∀ p ∈ layout, p.start % 4 = 0)
    {marked : Nat → Bool} {kargs : KernelArgs}
    (hpack : packKernelArgsMvp markedHost markedMemory layout (some (marks marked)) = .ok kargs)
    {j : Nat} (pos : Nat) {q : ParamDesc} (hq : layout[j]? = some q) (hmod : pos % 4 = 1)
    (hstart : q.start ≤ pos) (hstop : pos < q.stop) :
    ∃ k ≥ j, kargs.blob.getD pos 0 = if marked k then 0x10 else 0 := by
  obtain ⟨-, hblob⟩ := packKernelArgs_blob hnatural hpack
  have hfit := stop_le_blob markedHost (marks marked) hnatural
  have hmem := List.mem_of_getElem? hq
  obtain ⟨front, back, rfl, rfl⟩ := exists_split_at hq
  have hsplit : ((q :: back).zipIdx front.length).map (argSlot markedHost (marks marked))
      = argSlot markedHost (marks marked) (q, front.length)
        :: (back.zipIdx (front.length + 1)).map (argSlot markedHost (marks marked)) := rfl
  rw [argSlots_split, ← hsplit] at hfit hblob
  have hcover : ∃ s ∈ ((q :: back).zipIdx front.length).map (argSlot markedHost (marks marked)),
      s.Covers pos := by
    refine ⟨_, List.mem_cons_self, hstart, ?_⟩
    rw [stop_argSlot (hnatural q hmem)]
    exact hstop
  obtain ⟨before, s, after, hlast, hcovers, hafter⟩ := Slots.exists_last_cover hcover
  obtain ⟨rk, hrk, hs⟩ := List.mem_map.mp
    (hlast ▸ List.mem_append_right before List.mem_cons_self : s ∈ _)
  obtain ⟨hge, hr⟩ := List.mem_zipIdx_iff_le_and_getElem?_sub.mp hrk
  have hrmem : rk.1 ∈ front ++ q :: back := List.mem_append_right _ (List.mem_of_getElem? hr)
  rw [hlast, ← List.append_assoc] at hfit hblob
  have hbyte := Slots.getElem?_fill_last hfit hcovers hafter
  rw [← hblob] at hbyte
  subst hs
  have hrstart := hquad rk.1 hrmem
  obtain ⟨hle, hlt⟩ := hcovers
  rw [stop_argSlot (hnatural rk.1 hrmem), (hnatural rk.1 hrmem).stop_eq] at hlt
  change rk.1.start ≤ pos at hle
  have hcell := readHost_marks marked rk.2 rk.1.type (d := pos - rk.1.start) (by omega) (by omega)
  refine ⟨rk.2, hge, ?_⟩
  rw [List.getD_eq_getElem?_getD, hbyte]
  change ((readHost markedHost (marks marked rk.2) rk.1.type.bytes)[pos - rk.1.start]?).getD 0 = _
  rw [hcell]
  rfl

theorem ReadsBack.marked_byte {marked : Nat → Bool} {kargs : KernelArgs}
    (hreads : ReadsBack markedHost (marks marked) layout kargs) {i d : Nat} {p r : ParamDesc}
    (hp : layout[i]? = some p) (hfind : kargs.layout.find? (fun q => q.name == p.name) = some r)
    (hd : d < p.type.bytes) (hmod : d % 4 = 1) :
    kargs.blob.getD (r.start + d) 0 = if marked i then 0x10 else 0 := by
  have hread := hreads i p hp {}
  rw [readParamSymbol_eq _ hfind] at hread
  split at hread
  · cases hread
  · have hbytes := congrArg (fun bytes : List Byte => bytes[d]?) (Option.some.inj hread)
    rw [readHost_marks marked i p.type hd hmod, List.getElem?_map, List.getElem?_range hd] at hbytes
    exact Option.some.inj hbytes

/-- Two elements that break a relation, the first of them the first to break it with any. -/
theorem exists_clash {α : Type*} {R : α → α → Prop} {xs : List α} (h : ¬ xs.Pairwise R) :
    ∃ front x mid y back, xs = front ++ x :: (mid ++ y :: back) ∧ ¬ R x y ∧ ∀ z ∈ front, R z x := by
  induction xs with
  | nil => exact absurd List.Pairwise.nil h
  | cons a xs ih =>
    by_cases hhead : ∀ y ∈ xs, R a y
    · obtain ⟨front, x, mid, y, back, rfl, hxy, hfront⟩ :=
        ih fun hpair => h (List.pairwise_cons.mpr ⟨hhead, hpair⟩)
      refine ⟨a :: front, x, mid, y, back, rfl, hxy, fun z hz => ?_⟩
      rcases List.mem_cons.mp hz with rfl | hz
      · exact hhead x (List.mem_append_right _ List.mem_cons_self)
      · exact hfront z hz
    · push Not at hhead
      obtain ⟨y, hy, hay⟩ := hhead
      obtain ⟨mid, back, rfl⟩ := List.append_of_mem hy
      exact ⟨[], a, mid, y, back, rfl, hay, nofun⟩

theorem getElem?_middle {α : Type*} (front : List α) (x : α) (back : List α) :
    (front ++ x :: back)[front.length]? = some x := by
  rw [List.getElem?_append_right le_rfl, Nat.sub_self]
  rfl

/-- Of two entries with one name, the first is read for both. -/
theorem not_readsBack_of_same_name (hnatural : ∀ p ∈ layout, p.Natural)
    (hnames : ¬ layout.Pairwise fun p q => p.name ≠ q.name) :
    ∃ marked kargs, packKernelArgsMvp markedHost markedMemory layout (some (marks marked))
      = .ok kargs ∧
      ¬ ReadsBack markedHost (marks marked) layout kargs := by
  obtain ⟨front, p, mid, q, back, hsplit, hsame, hfront⟩ := exists_clash hnames
  rw [not_ne_iff] at hsame
  have hp : layout[front.length]? = some p := by
    rw [hsplit]
    exact getElem?_middle front p _
  have hq : layout[(front ++ p :: mid).length]? = some q := by
    rw [hsplit, ← List.cons_append, ← List.append_assoc]
    exact getElem?_middle (front ++ p :: mid) q back
  refine ⟨fun k => k == front.length, ?_⟩
  obtain ⟨kargs, hpack⟩ := packKernelArgs_ok hnatural fun r _ j =>
    packAccepts_marks (fun k => k == front.length) r j
  refine ⟨kargs, hpack, fun hreads => ?_⟩
  have hmem := List.mem_of_getElem? hp
  have hfind : kargs.layout.find? (fun r => r.name == p.name) = some p := by
    rw [(packKernelArgs_blob hnatural hpack).1, hsplit]
    exact find?_of_names hfront
  have hfind' : kargs.layout.find? (fun r => r.name == q.name) = some p := by
    rw [← hsame]
    exact hfind
  have hone : ∀ t : ParamType, 1 < t.bytes := fun t => by cases t <;> decide
  -- the first one is marked and reads as marked, so the second one does as well
  have hfirst := hreads.marked_byte hp hfind (hone p.type) rfl
  have hsecond := hreads.marked_byte hq hfind' (hone q.type) rfl
  rw [hfirst, beq_self_eq_true, if_pos rfl] at hsecond
  have hother : ((front ++ p :: mid).length == front.length) = false := by
    rw [beq_eq_false_iff_ne, List.length_append, List.length_cons]
    omega
  rw [hother] at hsecond
  exact absurd hsecond (by decide)

/-- Of two entries that share a byte, the first is read with what the second has there. -/
theorem not_readsBack_of_overlap (hnatural : ∀ p ∈ layout, p.Natural)
    (hquad : ∀ p ∈ layout, p.start % 4 = 0)
    (hnames : layout.Pairwise fun p q => p.name ≠ q.name)
    (hmeet : ¬ layout.Pairwise ParamDesc.Apart) :
    ∃ marked kargs, packKernelArgsMvp markedHost markedMemory layout (some (marks marked))
      = .ok kargs ∧
      ¬ ReadsBack markedHost (marks marked) layout kargs := by
  obtain ⟨front, p, mid, q, back, hsplit, hpq, -⟩ := exists_clash hmeet
  have hp : layout[front.length]? = some p := by
    rw [hsplit]
    exact getElem?_middle front p _
  have hq : layout[(front ++ p :: mid).length]? = some q := by
    rw [hsplit, ← List.cons_append, ← List.append_assoc]
    exact getElem?_middle (front ++ p :: mid) q back
  refine ⟨fun k => k != front.length, ?_⟩
  obtain ⟨kargs, hpack⟩ := packKernelArgs_ok hnatural fun r _ j =>
    packAccepts_marks (fun k => k != front.length) r j
  refine ⟨kargs, hpack, fun hreads => ?_⟩
  have hpmem := List.mem_of_getElem? hp
  have hqmem := List.mem_of_getElem? hq
  have hpstop := (hnatural p hpmem).stop_eq
  have hqstop := (hnatural q hqmem).stop_eq
  have hpquad := hquad p hpmem
  have hqquad := hquad q hqmem
  have hfind : kargs.layout.find? (fun r => r.name == p.name) = some p := by
    rw [(packKernelArgs_blob hnatural hpack).1, hsplit]
    rw [hsplit, List.pairwise_append] at hnames
    exact find?_of_names fun r hr => hnames.2.2 r hr p List.mem_cons_self
  have hmeets : p.start < q.stop ∧ q.start < p.stop := by
    unfold ParamDesc.Apart at hpq
    omega
  have hpbytes := p.type.bytes_cases
  have hqbytes := q.type.bytes_cases
  -- the second byte of the first word they share
  obtain ⟨k, hk, hbyte⟩ := blob_marks hnatural hquad hpack (max p.start q.start + 1) hq
    (by omega) (by omega) (by omega)
  have hread := hreads.marked_byte (d := max p.start q.start + 1 - p.start) hp hfind (by omega)
    (by omega)
  rw [show p.start + (max p.start q.start + 1 - p.start) = max p.start q.start + 1 by omega,
    hbyte] at hread
  have hlater : (k != front.length) = true := by
    rw [List.length_append, List.length_cons] at hk
    rw [bne_iff_ne]
    omega
  rw [hlater, bne_self_eq_false] at hread
  exact absurd hread (by decide)

end ProtoGpu

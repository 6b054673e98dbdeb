import ProtoGpu.Lib.CellLoop
import ProtoGpu.Proof.LaneLocal

/-!
# What a lane loop writes

The loops of the execution core and of the loads write one entry a turn: the destination's entry of
the lane. Entries of one row are distinct, so a lane's entry ends with what its turn wrote; every
other entry is kept, wherever the loop stops. All of this is without an assumption on register
numbers: a row that wraps at `2 ^ 64` is still a row of distinct entries.
-/

namespace ProtoGpu

open LocalLoop CellLoop

/-! ### Entries -/

/-- An entry of the 64-bit or of the 32-bit register file. -/
def WarpState.entry (w : WarpState) (wide : Bool) (i : Nat) : BitVec 64 :=
  if wide then w.rU64.getD i 0 else (w.rU32.getD i 0).setWidth 64

/-- What an entry keeps of a word. -/
def bankValue (wide : Bool) (v : BitVec 64) : BitVec 64 :=
  if wide then v else (v.setWidth 32).setWidth 64

/-- The least index that a write cannot reach. -/
def WarpState.capacity (w : WarpState) (wide : Bool) : Nat :=
  if wide then max w.rU64.length maxSizeU64 else max w.rU32.length maxSizeU32

theorem regLaneIndex_inj {n lane lane' warpSize : Nat} (hlane : lane < 32) (hlane' : lane' < 32)
    (h : regLaneIndex n lane warpSize = regLaneIndex n lane' warpSize) : lane = lane' := by
  unfold regLaneIndex at h
  omega

theorem readRegLane_eq_entry {o : Operand} {w : WarpState} {lane : Nat} (hkind : o.kind = .reg)
    (hlane : lane < w.active.width) :
    readRegLane o w lane = w.entry o.type.isWide (regLaneIndex o.regNo lane w.active.width) := by
  unfold readRegLane WarpState.entry
  simp only [hkind, ne_eq, not_true_eq_false, if_false, if_neg (show ¬ w.active.width = 0 by omega),
    if_neg (show ¬ lane ≥ w.active.width by omega)]

/-- A word is stored in the lane's entry of the bank of the operand's type. -/
theorem writeRegLane_spec {o : Operand} {w w' : WarpState} {lane : Nat} {v : BitVec 64}
    (hkind : o.kind = .reg) (hlane : lane < w.active.width)
    (h : writeRegLane o w lane v = .ok w') :
    (∀ wide i, w'.entry wide i =
        if wide = o.type.isWide ∧ i = regLaneIndex o.regNo lane w.active.width
        then bankValue wide v else w.entry wide i)
      ∧ (∀ wide, w'.capacity wide = w.capacity wide)
      ∧ regLaneIndex o.regNo lane w.active.width < w.capacity o.type.isWide
      ∧ w'.p = w.p ∧ w'.active = w.active := by
  rw [writeRegLane_ok_iff rfl hlane, if_neg (not_not.mpr hkind)] at h
  split at h
  next hwide =>
    obtain ⟨file, hfile, rfl⟩ := h
    obtain ⟨hget, hroom⟩ := growAndSet_ok hfile
    refine ⟨fun wide i => ?_, fun wide => ?_, ?_, rfl, rfl⟩
    · cases wide
      · simp [WarpState.entry, hwide]
      · simp only [WarpState.entry, bankValue, hwide, if_true, hget, true_and]
    · simp only [WarpState.capacity, hroom]
    · rw [WarpState.capacity, if_pos hwide]
      exact growAndSet_ok_iff.mp ⟨_, hfile⟩
  next hwide =>
    obtain ⟨file, hfile, rfl⟩ := h
    obtain ⟨hget, hroom⟩ := growAndSet_ok hfile
    refine ⟨fun wide i => ?_, fun wide => ?_, ?_, rfl, rfl⟩
    · cases wide
      · simp only [WarpState.entry, bankValue, hget, Bool.eq_false_of_not_eq_true hwide]
        simp only [Bool.false_eq_true, if_false, true_and]
        split <;> rfl
      · simp [WarpState.entry, hwide]
    · simp only [WarpState.capacity, hroom]
    · rw [WarpState.capacity, if_neg hwide]
      exact growAndSet_ok_iff.mp ⟨_, hfile⟩

/-- The write empties the file, and stores past its end. -/
def WarpState.Loses (w : WarpState) (wide : Bool) (idx : Nat) : Prop :=
  w.capacity wide ≤ idx ∧ idx + 1 = 2 ^ 64

/-- The write asks for a file that no vector can be. -/
def WarpState.Refuses (w : WarpState) (wide : Bool) (idx : Nat) : Prop :=
  w.capacity wide ≤ idx ∧ idx + 1 ≠ 2 ^ 64

theorem writeRegLane_undefined_iff {o : Operand} {w : WarpState} {lane : Nat} {v : BitVec 64}
    (hlane : lane < w.active.width) :
    writeRegLane o w lane v = .error .undefined ↔
      o.kind = .reg ∧ w.Loses o.type.isWide (regLaneIndex o.regNo lane w.active.width) := by
  unfold writeRegLane WarpState.Loses WarpState.capacity
  dsimp only
  split
  next hkind => exact iff_of_false (fun h => by cases h) fun h => hkind h.1
  next hkind =>
    rw [if_neg (by omega), if_neg (by omega), and_iff_right (not_not.mp hkind)]
    split
    · rw [← growAndSet_undefined_iff (v := v)]
      split
      next f hgrow =>
        rw [hgrow]
        exact ⟨fun h => by cases h; rfl, fun h => by cases h; rfl⟩
      next hgrow => exact iff_of_false (fun h => by cases h) fun h => by cases hgrow.symm.trans h
    · rw [← growAndSet_undefined_iff (v := v.setWidth 32)]
      split
      next f hgrow =>
        rw [hgrow]
        exact ⟨fun h => by cases h; rfl, fun h => by cases h; rfl⟩
      next hgrow => exact iff_of_false (fun h => by cases h) fun h => by cases hgrow.symm.trans h

theorem writeRegLane_ok_of_lt {o : Operand} {w : WarpState} {lane : Nat} (v : BitVec 64)
    (hlane : lane < w.active.width)
    (hfits : o.kind = .reg →
      regLaneIndex o.regNo lane w.active.width < w.capacity o.type.isWide) :
    ∃ w', writeRegLane o w lane v = .ok w' := by
  simp only [writeRegLane_ok_iff rfl hlane]
  split
  · exact ⟨w, rfl⟩
  next hkind =>
    have h := hfits (not_not.mp hkind)
    unfold WarpState.capacity at h
    split
    next hwide =>
      rw [if_pos hwide] at h
      obtain ⟨file, hfile⟩ := growAndSet_ok_iff.mpr h
      exact ⟨_, file, hfile, rfl⟩
    next hwide =>
      rw [if_neg hwide] at h
      obtain ⟨file, hfile⟩ := growAndSet_ok_iff.mpr h
      exact ⟨_, file, hfile, rfl⟩

/-- A 32-bit entry does not see the high half of the word written to it. -/
theorem writeRegLane_bankValue {o : Operand} {w : WarpState} {lane : Nat} {v v' : BitVec 64}
    (h : bankValue o.type.isWide v = bankValue o.type.isWide v') :
    writeRegLane o w lane v = writeRegLane o w lane v' := by
  unfold writeRegLane
  unfold bankValue at h
  cases hwide : o.type.isWide with
  | true =>
      simp only [hwide, if_true] at h
      rw [h]
  | false =>
      have hlow : v.setWidth 32 = v'.setWidth 32 := by
        simp only [hwide, Bool.false_eq_true, if_false] at h
        have := congrArg (BitVec.setWidth 32) h
        simpa using this
      simp only [Bool.false_eq_true, if_false, hlow]

/-! ### The lanes of a loop -/

/-- The lanes a loop visits, in its order. -/
def loopLanes (mask : LaneMask) : List Nat :=
  (List.range (min mask.width 32)).filter (laneMaskTest mask)

theorem mem_loopLanes_iff {mask : LaneMask} {lane : Nat} :
    lane ∈ loopLanes mask ↔ laneMaskTest mask lane = true := by
  rw [loopLanes, List.mem_filter, List.mem_range]
  refine ⟨fun h => h.2, fun h => ⟨?_, h⟩⟩
  rw [laneMaskTest_eq, Bool.and_eq_true, decide_eq_true_eq] at h
  have := LaneMask.has_lt h.2
  omega

theorem laneMaskTest_lt {mask : LaneMask} {lane : Nat} (h : laneMaskTest mask lane = true) :
    lane < mask.width ∧ lane < 32 := by
  rw [laneMaskTest_eq, Bool.and_eq_true, decide_eq_true_eq] at h
  exact ⟨h.1, LaneMask.has_lt h.2⟩

/-- The lanes a micro-op works on. -/
def MicroOp.execMask (uop : MicroOp) (w : WarpState) : LaneMask := laneMaskAnd w.active uop.guard

/-- A step under a guard has a turn for the lane. -/
def LaneRuns (guard : LaneMask) (w : WarpState) (lane : Nat) : Prop :=
  w.done = false ∧ laneMaskTest (laneMaskAnd w.active guard) lane = true

abbrev MicroOp.RunsAt (uop : MicroOp) : WarpState → Nat → Prop := LaneRuns uop.guard

theorem mem_loopLanes_runsAt {uop : MicroOp} {w : WarpState} (hdone : w.done = false) {lane : Nat} :
    lane ∈ loopLanes (uop.execMask w) ↔ uop.RunsAt w lane := by
  rw [mem_loopLanes_iff]
  exact ⟨fun h => ⟨hdone, h⟩, fun h => h.2⟩

theorem loopLanes_dom {uop : MicroOp} {w : WarpState} {lane : Nat}
    (hlane : lane ∈ loopLanes (uop.execMask w)) : lane < w.active.width ∧ lane < 32 := by
  have h := laneMaskTest_lt (mem_loopLanes_iff.mp hlane)
  exact h

theorem pairwise_loopLanes (mask : LaneMask) : (loopLanes mask).Pairwise (· < ·) :=
  List.Pairwise.filter _ List.pairwise_lt_range

/-- The lanes before a lane are the lower ones. -/
theorem loopLanes_split {mask : LaneMask} {pre post : List Nat} {lane : Nat}
    (h : loopLanes mask = pre ++ lane :: post) :
    pre = (List.range lane).filter (laneMaskTest mask) := by
  have hsorted := pairwise_loopLanes mask
  rw [h, List.pairwise_append] at hsorted
  obtain ⟨-, hpost, hpre⟩ := hsorted
  have hlane : lane < min mask.width 32 := by
    have : lane ∈ loopLanes mask := by simp [h]
    rw [loopLanes, List.mem_filter, List.mem_range] at this
    exact this.1
  -- both are the lanes of the loop below `lane`
  have hleft : (loopLanes mask).filter (· < lane) = pre := by
    rw [h, List.filter_append, List.filter_cons_of_neg (by simp), List.filter_eq_self.mpr,
      List.filter_eq_nil_iff.mpr, List.append_nil]
    · intro j hj
      have := (List.pairwise_cons.mp hpost).1 j hj
      simp only [decide_eq_true_eq]
      omega
    · intro j hj
      have := hpre j hj lane (by simp)
      simpa using this
  rw [← hleft, loopLanes, List.filter_filter]
  obtain ⟨k, hk⟩ : ∃ k, min mask.width 32 = lane + k := ⟨_, (Nat.add_sub_of_le hlane.le).symm⟩
  rw [hk, List.range_add, List.filter_append, List.filter_map]
  have hnone : (List.range k).filter
      ((fun a => decide (a < lane) && laneMaskTest mask a) ∘ (lane + ·)) = [] := by
    rw [List.filter_eq_nil_iff]
    intro j _
    simp
  rw [hnone, List.map_nil, List.append_nil]
  refine List.filter_congr fun j hj => ?_
  have := List.mem_range.mp hj
  simp [this]

/-- The lanes a loop visits up to one of them. -/
theorem loopLanes_at {mask : LaneMask} {lane : Nat} (hlane : laneMaskTest mask lane = true) :
    ∃ pre post, loopLanes mask = pre ++ lane :: post
      ∧ ∀ l ∈ pre ++ [lane], l ≤ lane ∧ laneMaskTest mask l = true := by
  obtain ⟨pre, post, hsplit⟩ := List.append_of_mem (mem_loopLanes_iff.mpr hlane)
  refine ⟨pre, post, hsplit, fun l hl => ?_⟩
  rw [loopLanes_split hsplit] at hl
  rcases List.mem_append.mp hl with hl | hl
  · rw [List.mem_filter, List.mem_range] at hl
    exact ⟨hl.1.le, hl.2⟩
  · obtain rfl := List.mem_singleton.mp hl
    exact ⟨le_rfl, hlane⟩

/-- A loop that stops ran some of its lanes to their end. -/
theorem forEach_ran {ι σ ε : Type} (body : ι → σ → Except ε σ) (is : List ι) (s : σ) :
    ∃ pre post, is = pre ++ post ∧ forEach body pre s = (none, (forEach body is s).2) := by
  induction is generalizing s with
  | nil => exact ⟨[], [], rfl, rfl⟩
  | cons i is ih =>
      rw [forEach]
      cases hturn : body i s with
      | error e => exact ⟨[], i :: is, rfl, rfl⟩
      | ok t =>
          obtain ⟨pre, post, hsplit, hrun⟩ := ih t
          exact ⟨i :: pre, post, by
            rw [hsplit, List.cons_append], by rw [forEach, hturn]; exact hrun⟩

/-- A loop that fails fails at the turn it stopped at. -/
theorem forEach_failed {ι σ ε : Type} {body : ι → σ → Except ε σ} {is : List ι} {s : σ} {e : ε}
    (h : (forEach body is s).1 = some e) :
    ∃ pre i post t, is = pre ++ i :: post ∧ forEach body pre s = (none, t) ∧
      body i t = .error e := by
  induction is generalizing s with
  | nil => cases h
  | cons i is ih =>
      rw [forEach] at h
      cases hturn : body i s with
      | error e' =>
          rw [hturn] at h
          cases h
          exact ⟨[], i, is, s, rfl, rfl, hturn⟩
      | ok t =>
          rw [hturn] at h
          obtain ⟨pre, j, post, t', hsplit, hrun, hfails⟩ := ih h
          refine ⟨i :: pre, j, post, t', by rw [hsplit, List.cons_append], ?_, hfails⟩
          rw [forEach, hturn]
          exact hrun

/-! ### The entries a loop writes -/

theorem orFault_ok_iff {α : Type} {f : Fault} {x : Option α} {v : α} :
    orFault f x = .ok v ↔ x = some v := by
  cases x <;> simp [orFault]

/-- The entry a lane's turn writes, when the destination is a register. -/
def Operand.StoredAt (out : Operand) (warpSize lane : Nat) (wide : Bool) (i : Nat) : Prop :=
  out.kind = .reg ∧ wide = out.type.isWide ∧ i = regLaneIndex out.regNo lane warpSize

/-- What the turns of some lanes do to a warp: they write entries of the destination's row. -/
structure WroteLanes (out : Operand) (lanes : List Nat) (w w' : WarpState) : Prop where
  onlyRegs : OnlyRegs w w'
  p : w'.p = w.p
  capacity : ∀ wide, w'.capacity wide = w.capacity wide
  fits : ∀ lane ∈ lanes, out.kind = .reg →
    regLaneIndex out.regNo lane w.active.width < w.capacity out.type.isWide
  entry : ∀ wide i, (∀ lane ∈ lanes, ¬ out.StoredAt w.active.width lane wide i) →
    w'.entry wide i = w.entry wide i

section Writes

variable {out : Operand} {value : WarpState → Nat → Except Fault (BitVec 64)} {w w' : WarpState}
  {lane : Nat} {lanes : List Nat}

theorem WroteLanes.refl (out : Operand) (w : WarpState) : WroteLanes out [] w w :=
  ⟨.refl w, rfl, fun _ => rfl, by simp, fun _ _ _ => rfl⟩

theorem WroteLanes.active (h : WroteLanes out lanes w w') : w'.active = w.active :=
  h.onlyRegs.active

theorem WroteLanes.cons {t : WarpState} (h : WroteLanes out [lane] w t)
    (h' : WroteLanes out lanes t w') : WroteLanes out (lane :: lanes) w w' where
  onlyRegs := h.onlyRegs.trans h'.onlyRegs
  p := h'.p.trans h.p
  capacity := fun wide => (h'.capacity wide).trans (h.capacity wide)
  fits := by
    intro l hl hkind
    rcases List.mem_cons.mp hl with rfl | hl
    · exact h.fits l (by simp) hkind
    · have hfits := h'.fits l hl hkind
      rwa [h.active, h.capacity] at hfits
  entry := by
    intro wide i hnot
    rw [h'.entry wide i fun l hl => ?_, h.entry wide i fun l hl => ?_]
    · rw [List.mem_singleton] at hl
      exact hnot l (by simp [hl])
    · rw [h.active]
      exact hnot l (by simp [hl])

theorem writeLane_wrote (hlane : lane < w.active.width) (h : writeLane out value lane w = .ok w') :
    WroteLanes out [lane] w w' := by
  have honly := writeLane_onlyRegs h
  unfold writeLane at h
  split at h
  · cases h
  next v hv =>
    by_cases hkind : out.kind = .reg
    · obtain ⟨hentry, hcapacity, hfits, hp, hactive⟩ := writeRegLane_spec hkind hlane h
      refine ⟨honly, hp, hcapacity, by simp [hfits], fun wide i hnot => ?_⟩
      rw [hentry, if_neg]
      exact fun hstored => hnot lane (by simp) ⟨hkind, hstored⟩
    · rw [writeRegLane_ok_iff rfl hlane, if_pos hkind] at h
      subst h
      exact ⟨honly, rfl, fun _ => rfl, fun _ _ hreg => absurd hreg hkind, fun _ _ _ => rfl⟩

theorem writeRun_wrote (hlanes : ∀ lane ∈ lanes, lane < w.active.width)
    (hrun : forEach (writeLane out value) lanes w = (none, w')) : WroteLanes out lanes w w' := by
  induction lanes generalizing w with
  | nil =>
      cases hrun
      exact .refl out _
  | cons lane lanes ih =>
      obtain ⟨t, hturn, hrest⟩ := forEach_cons_ok.mp hrun
      have hwrote := writeLane_wrote (hlanes lane (by simp)) hturn
      refine hwrote.cons (ih (fun l hl => ?_) hrest)
      rw [hwrote.active]
      exact hlanes l (by simp [hl])

/-- A loop wrote the entries of its lanes up to the one it stopped at. -/
theorem writeLoop_wrote (out : Operand) (value : WarpState → Nat → Except Fault (BitVec 64))
    {mask : LaneMask} (hmask : mask.width = w.active.width) :
    ∃ lanes post, loopLanes mask = lanes ++ post
      ∧ WroteLanes out lanes w (laneLoop mask (writeLane out value) w).2 := by
  obtain ⟨lanes, post, hsplit, hrun⟩ := forEach_ran (writeLane out value) (loopLanes mask) w
  rw [laneLoop_eq_forEach]
  refine ⟨lanes, post, hsplit, writeRun_wrote (fun lane hlane => ?_) hrun⟩
  have hmem : lane ∈ loopLanes mask := by simp [hsplit, hlane]
  exact hmask ▸ (laneMaskTest_lt (mem_loopLanes_iff.mp hmem)).1

theorem store_writeLane (out : Operand) (value : WarpState → Nat → Except Fault (BitVec 64)) :
    store (fun lane v s => writeRegLane out s lane v) value = writeLane out value := by
  funext lane w
  unfold store writeLane
  cases value w lane <;> rfl

/-- A destination register is a cell for each lane. -/
theorem regCells (hkind : out.kind = .reg) (warpSize : Nat) :
    Cells (fun s : WarpState => s.active.width = warpSize) (fun lane => lane < warpSize ∧ lane < 32)
      (fun lane v s => writeRegLane out s lane v) (fun lane s => readRegLane out s lane)
      (bankValue out.type.isWide) where
  keep := by
    intro lane v s s' hinv hdom h
    obtain ⟨-, -, -, -, hactive⟩ := writeRegLane_spec hkind (hinv ▸ hdom.1) h
    rw [hactive]
    exact hinv
  read_self := by
    intro lane v s s' hinv hdom h
    have hlane : lane < s.active.width := hinv ▸ hdom.1
    obtain ⟨hentry, -, -, -, hactive⟩ := writeRegLane_spec hkind hlane h
    rw [readRegLane_eq_entry hkind (hactive ▸ hlane), hentry, hactive]
    simp
  read_other := by
    intro lane other v s s' hinv hdom hother h hne
    have hlane : lane < s.active.width := hinv ▸ hdom.1
    have hlane' : other < s.active.width := hinv ▸ hother.1
    obtain ⟨hentry, -, -, -, hactive⟩ := writeRegLane_spec hkind hlane h
    rw [readRegLane_eq_entry hkind (hactive ▸ hlane'), readRegLane_eq_entry hkind hlane', hactive,
      hentry, if_neg]
    exact fun heq => hne (regLaneIndex_inj hother.2 hdom.2 heq.2)
  write_congr := writeRegLane_bankValue

/-- A lane's entry ends with the value its turn computed. -/
theorem writeLoop_turn {mask : LaneMask} (hkind : out.kind = .reg)
    (hmask : mask.width = w.active.width) (hlane : laneMaskTest mask lane = true)
    (hrun : laneLoop mask (writeLane out value) w = (none, w')) :
    ∃ t v, laneLoopFrom mask (writeLane out value) (List.range lane) w = (none, t)
      ∧ value t lane = .ok v ∧ readRegLane out w' lane = bankValue out.type.isWide v := by
  obtain ⟨pre, post, hsplit⟩ := List.append_of_mem (mem_loopLanes_iff.mpr hlane)
  rw [laneLoop_eq_forEach, ← store_writeLane] at hrun
  rw [laneLoopFrom_eq_forEach, ← loopLanes_split hsplit, ← store_writeLane]
  obtain ⟨t, v, hpre, hv, hread⟩ := (regCells hkind w.active.width).run_self rfl
    (fun l hl => hmask ▸ laneMaskTest_lt (mem_loopLanes_iff.mp hl)) (nodup_loopLanes mask)
    hsplit hrun
  exact ⟨t, v, hpre, hv, hread⟩

/-- Words for all its lanes, and room for their entries, and the loop succeeds. -/
theorem writeRun_ok (word : Nat → Option (BitVec 64)) (hlanes : ∀ l ∈ lanes, l < w.active.width)
    (hfits : ∀ l ∈ lanes, out.kind = .reg →
      regLaneIndex out.regNo l w.active.width < w.capacity out.type.isWide)
    (hword : ∀ l ∈ lanes, (word l).isSome = true) :
    ∃ w', forEach (writeLane out fun _ l => orFault specialUnknown (word l)) lanes w
      = (none, w') := by
  induction lanes generalizing w with
  | nil => exact ⟨w, rfl⟩
  | cons lane lanes ih =>
      obtain ⟨v, hv⟩ := Option.isSome_iff_exists.mp (hword lane (by simp))
      obtain ⟨t, ht⟩ := writeRegLane_ok_of_lt v (hlanes lane (by simp)) (hfits lane (by simp))
      have hturn : writeLane out (fun _ l => orFault specialUnknown (word l)) lane w = .ok t := by
        simp only [writeLane, hv, orFault]
        exact ht
      have hwrote := writeLane_wrote (hlanes lane (by simp)) hturn
      obtain ⟨w', hw'⟩ := ih
        (fun l hl => by rw [hwrote.active]; exact hlanes l (by simp [hl]))
        (fun l hl => by
          rw [hwrote.active, hwrote.capacity]
          exact hfits l (by simp [hl]))
        (fun l hl => hword l (by simp [hl]))
      exact ⟨w', forEach_cons_ok.mpr ⟨t, hturn, hw'⟩⟩

end Writes

/-! ### Reading after writing -/

/-- Two register operands that name one row of one file. -/
def Operand.SameRow (warpSize : Nat) (a b : Operand) : Prop :=
  a.kind = .reg ∧ b.kind = .reg ∧ a.type.isWide = b.type.isWide
    ∧ a.regNo * warpSize % 2 ^ 64 = b.regNo * warpSize % 2 ^ 64

section Read

variable {out o : Operand} {w s : WarpState} {lanes : List Nat} {lane l warpSize : Nat}

/-- Where no row wraps, a lane's turn writes an entry of that lane, in the rows of its register. -/
theorem Operand.StoredAt.of_aligned (hout : out.Aligned warpSize)
    (ho : o.kind = .reg → LaneAligned warpSize o.regNo) (hkind : o.kind = .reg)
    (hl : l < warpSize) (hlane : lane < warpSize)
    (h : out.StoredAt warpSize l o.type.isWide (regLaneIndex o.regNo lane warpSize)) :
    l = lane ∧ o.SameRow warpSize out := by
  obtain ⟨hreg, hwide, hidx⟩ := h
  have hrow := ho hkind
  have hrow' := hout.1 (.inl hreg)
  have heq : lane = l := by
    rw [← hrow.regLaneIndex_mod hlane, hidx, hrow'.regLaneIndex_mod hl]
  refine ⟨heq.symm, hkind, hreg, hwide, ?_⟩
  subst heq
  obtain ⟨-, hle⟩ := hrow
  obtain ⟨-, hle'⟩ := hrow'
  unfold regLaneIndex at hidx
  omega

theorem WroteLanes.readRegLane_eq (h : WroteLanes out lanes w s) (hlane : lane < w.active.width)
    (hnot : o.kind = .reg → ∀ l ∈ lanes,
      ¬ out.StoredAt w.active.width l o.type.isWide (regLaneIndex o.regNo lane w.active.width)) :
    readRegLane o s lane = readRegLane o w lane := by
  by_cases hkind : o.kind = .reg
  · rw [readRegLane_eq_entry hkind (h.active ▸ hlane), readRegLane_eq_entry hkind hlane, h.active,
      h.entry _ _ (hnot hkind)]
  · simp [readRegLane, hkind]

/-- Only registers can be stale. -/
theorem readOperandLane_of_onlyRegs (h : OnlyRegs w s)
    (hreg : readRegLane o s lane = readRegLane o w lane) :
    readOperandLane o s lane = readOperandLane o w lane := by
  obtain ⟨_, _, _, rfl⟩ := h
  unfold readOperandLane
  split
  · rfl
  · rw [hreg]
  · rfl
  · rfl

/-- Whether an operand can be read is a matter of its name alone. -/
theorem isSome_readOperandLane (h : OnlyRegs w s) (o : Operand) (lane lane' : Nat) :
    (readOperandLane o s lane).isSome = (readOperandLane o w lane').isSome := by
  obtain ⟨_, _, _, rfl⟩ := h
  unfold readOperandLane
  split
  · rfl
  · rfl
  · simp only [readSpecialU32, apply_ite Option.isSome, Option.isSome_some]
  · rfl

end Read

/-! ### The predicates a loop writes -/

/-- `warp.p[base + lane] = v`. -/
def writePred (base lane : Nat) (v : Byte) (w : WarpState) : Except Fault WarpState :=
  if (base + lane) % 2 ^ 64 < w.p.length then
    .ok { w with p := w.p.set ((base + lane) % 2 ^ 64) v }
  else .error .undefined

theorem store_writePredLane (base : Nat) (value : WarpState → Nat → Option Bool) :
    store (writePred base) (fun s l => orFault specialUnknown
      ((value s l).map fun pred => if pred then 1 else 0)) = writePredLane base value := by
  funext lane w
  unfold store writePredLane writePred
  cases hv : value w lane <;> simp [hv, orFault]

/-- A predicate row is a row of cells, as a register row is. -/
theorem predCells (base : Nat) (w : WarpState) :
    Cells (fun s : WarpState => ∃ p, s = { w with p := p }) (fun lane => lane < 32)
      (writePred base) (fun lane s => s.p.getD ((base + lane) % 2 ^ 64) 0) id where
  keep := by
    intro lane v s s' hinv _ h
    unfold writePred at h
    split at h
    · cases h
      obtain ⟨p, rfl⟩ := hinv
      exact ⟨_, rfl⟩
    · cases h
  read_self := by
    intro lane v s s' _ _ h
    unfold writePred at h
    split at h
    next hlt =>
      cases h
      simp only [getD_set hlt, if_true, id]
    · cases h
  read_other := by
    intro lane other v s s' _ hdom hother h hne
    unfold writePred at h
    split at h
    next hlt =>
      cases h
      simp only [getD_set hlt]
      rw [if_neg]
      omega
    · cases h
  write_congr := by
    intro lane v v' s h
    rw [show v = v' from h]

/-- A lane's predicate entry ends with the outcome of its turn, whose state has the registers of the
start. -/
theorem predLoop_turn {mask : LaneMask} {base lane : Nat} {value : WarpState → Nat → Option Bool}
    {w w' : WarpState} (hlane : laneMaskTest mask lane = true)
    (hrun : laneLoop mask (writePredLane base value) w = (none, w')) :
    ∃ p pred, value { w with p := p } lane = some pred
      ∧ w'.p.getD ((base + lane) % 2 ^ 64) 0 = if pred then 1 else 0 := by
  rw [laneLoop_eq_forEach, ← store_writePredLane] at hrun
  obtain ⟨pre, post, hsplit⟩ := List.append_of_mem (mem_loopLanes_iff.mpr hlane)
  have hdom : ∀ l ∈ loopLanes mask, l < 32 :=
    fun l hl => (laneMaskTest_lt (mem_loopLanes_iff.mp hl)).2
  obtain ⟨t, v, hpre, hv, hread⟩ := (predCells base w).run_self ⟨w.p, rfl⟩ hdom
    (nodup_loopLanes mask) hsplit hrun
  have hdomPre : ∀ l ∈ pre, l < 32 := fun l hl => hdom l (by simp [hsplit, hl])
  have hregs := (predCells base w).run_keep (fun s l => orFault specialUnknown
    ((value s l).map fun pred => if pred then 1 else 0)) ⟨w.p, rfl⟩ hdomPre
  rw [hpre] at hregs
  obtain ⟨p, rfl⟩ := hregs
  rw [orFault_ok_iff, Option.map_eq_some_iff] at hv
  obtain ⟨pred, hpred, rfl⟩ := hv
  exact ⟨p, pred, hpred, hread⟩

end ProtoGpu

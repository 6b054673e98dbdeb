import ProtoGpu.Lib.Grid
import ProtoGpu.Proof.Launch

/-!
# The threads of a launch

Which lanes a launch starts, and which thread of the grid each stands for by what it reads from its
special registers. A position in the list of submitted items is a position in the grid, and a lane
of a warp is a position in the block, so the coverage is the arithmetic of `Grid` once the loop that
sets up the warps ends. The loop's counter has 32 bits and its bound 64.
-/

namespace ProtoGpu

/-! ### Coordinates -/

def Dim3.Inside (d c : Dim3) : Prop := c.x < d.x ∧ c.y < d.y ∧ c.z < d.z

def Dim3.volume (d : Dim3) : Nat := d.x.toNat * d.y.toNat * d.z.toNat

def Dim3.position (d c : Dim3) : Nat := Grid.index d.x.toNat d.y.toNat c.x.toNat c.y.toNat c.z.toNat

def Dim3.coords (d : Dim3) (n : Nat) : Dim3 where
  x := BitVec.ofNat 32 (n % d.x.toNat)
  y := BitVec.ofNat 32 (n / d.x.toNat % d.y.toNat)
  z := BitVec.ofNat 32 (n / (d.x.toNat * d.y.toNat))

section Coords

variable {d c : Dim3} {n : Nat}

theorem toNat_ofNat_of_lt {w a b : Nat} (hlt : a < b) (hb : b ≤ 2 ^ w) :
    (BitVec.ofNat w a).toNat = a := by
  rw [BitVec.toNat_ofNat, Nat.mod_eq_of_lt (by omega)]

theorem Dim3.coords_toNat (h : n < d.volume) :
    (d.coords n).x.toNat = n % d.x.toNat ∧ (d.coords n).y.toNat = n / d.x.toNat % d.y.toNat
      ∧ (d.coords n).z.toNat = n / (d.x.toNat * d.y.toNat) := by
  obtain ⟨hx, hy, hz⟩ := Grid.coords_lt h
  exact ⟨toNat_ofNat_of_lt hx d.x.isLt.le, toNat_ofNat_of_lt hy d.y.isLt.le,
    toNat_ofNat_of_lt hz d.z.isLt.le⟩

theorem Dim3.inside_coords (h : n < d.volume) : d.Inside (d.coords n) := by
  obtain ⟨hx, hy, hz⟩ := Dim3.coords_toNat h
  obtain ⟨hxlt, hylt, hzlt⟩ := Grid.coords_lt h
  refine ⟨BitVec.lt_def.mpr ?_, BitVec.lt_def.mpr ?_, BitVec.lt_def.mpr ?_⟩
  · rwa [hx]
  · rwa [hy]
  · rwa [hz]

theorem Dim3.position_coords (h : n < d.volume) : d.position (d.coords n) = n := by
  obtain ⟨hx, hy, hz⟩ := Dim3.coords_toNat h
  rw [Dim3.position, hx, hy, hz, Grid.index_coords]

theorem Dim3.position_lt (h : d.Inside c) : d.position c < d.volume :=
  Grid.index_lt (BitVec.lt_def.mp h.1) (BitVec.lt_def.mp h.2.1) (BitVec.lt_def.mp h.2.2)

theorem Dim3.coords_position (h : d.Inside c) : d.coords (d.position c) = c := by
  have hx := BitVec.lt_def.mp h.1
  have hy := BitVec.lt_def.mp h.2.1
  rw [Dim3.coords, Dim3.position, Grid.index_mod hx, Grid.index_div_mod hx hy,
    Grid.index_div_div hx hy]
  simp only [BitVec.ofNat_toNat, BitVec.setWidth_eq]

end Coords

/-! ### The submitted items -/

theorem ctaItems_eq (grid : Dim3) :
    ctaItems grid = (List.range grid.volume).map fun k =>
      ctaItem grid (k / (grid.x.toNat * grid.y.toNat)) (k / grid.x.toNat % grid.y.toNat)
        (k % grid.x.toNat) := by
  have hvolume : grid.z.toNat * (grid.y.toNat * grid.x.toNat) = grid.volume := by
    rw [Dim3.volume]
    ring
  simp only [ctaItems, Grid.flatMap_range_map]
  rw [hvolume]
  refine List.map_congr_left fun k _ => ?_
  rw [Nat.mod_mul_left_div_self, Nat.mod_mul_left_mod, Nat.mul_comm grid.y.toNat]

/-- The item at a position is the CTA with the position's coordinates. -/
theorem ctaItems_getElem? {grid : Dim3} {k : Nat} {item : CtaWorkItem} :
    (ctaItems grid)[k]? = some item ↔ k < grid.volume
      ∧ item = ctaItem grid (k / (grid.x.toNat * grid.y.toNat)) (k / grid.x.toNat % grid.y.toNat)
          (k % grid.x.toNat) := by
  rw [ctaItems_eq, List.getElem?_map]
  by_cases hk : k < grid.volume
  · simp [hk, eq_comm]
  · simp [hk]

/-! ### The loop over the warps -/

section InitLoop

variable {init : BitVec 32 → WarpState}

theorem initLoop_ok {warpCount : Nat} (hlt : warpCount < 2 ^ 32) (todo : Nat) :
    ∀ {done : Nat} {warps : List WarpState}, done + todo = warpCount →
      warps.length = warpCount →
      initLoop init warpCount (todo + 1) (BitVec.ofNat 32 done) warps
        = some (warps.take done
          ++ (List.range' done todo).map fun w => init (BitVec.ofNat 32 w)) := by
  induction todo with
  | zero =>
      intro done warps hdone hlen
      have hw : (BitVec.ofNat 32 done).toNat = done :=
        toNat_ofNat_of_lt (Nat.lt_succ_self done) (by omega)
      rw [initLoop, hw, if_neg (by omega), List.take_of_length_le (by omega)]
      simp
  | succ todo ih =>
      intro done warps hdone hlen
      have hw : (BitVec.ofNat 32 done).toNat = done :=
        toNat_ofNat_of_lt (Nat.lt_succ_self done) (by omega)
      have hnext : BitVec.ofNat 32 done + 1 = BitVec.ofNat 32 (done + 1) := by
        apply BitVec.eq_of_toNat_eq
        simp [BitVec.toNat_add]
      rw [initLoop, hw, if_pos (by omega), hnext, ih (by omega) (by simpa using hlen),
        List.range'_succ, List.map_cons, List.take_add_one, List.take_set_of_le (Nat.le_refl _),
        List.getElem?_set_self (by omega), List.append_assoc]
      rfl

/-- A 32-bit counter never passes `2 ^ 32` warps: the loop has no last turn. -/
theorem initLoop_diverges {warpCount : Nat} (hge : 2 ^ 32 ≤ warpCount) (fuel : Nat) :
    ∀ (w : BitVec 32) (warps : List WarpState), initLoop init warpCount fuel w warps = none := by
  induction fuel with
  | zero =>
      intro w warps
      rfl
  | succ fuel ih =>
      intro w warps
      have hw := w.isLt
      rw [initLoop, if_pos (by omega), ih]

end InitLoop

theorem initWarps_ok {kernel : KernelImage} {launch : LaunchConfig} {plan : LaunchPlan}
    (item : CtaWorkItem) (hlt : plan.warpCount < 2 ^ 32) :
    initWarps kernel launch plan item (plan.warpCount + 1)
      = some ((List.range plan.warpCount).map fun w =>
          initWarp kernel launch plan item (BitVec.ofNat 32 w)) := by
  have hlen : (List.replicate plan.warpCount ({} : WarpState)).length = plan.warpCount :=
    List.length_replicate
  calc initWarps kernel launch plan item (plan.warpCount + 1)
      = some ((List.replicate plan.warpCount {}).take 0
          ++ (List.range' 0 plan.warpCount).map fun w =>
            initWarp kernel launch plan item (BitVec.ofNat 32 w)) :=
        initLoop_ok hlt plan.warpCount (Nat.zero_add _) hlen
    _ = some ((List.range plan.warpCount).map fun w =>
          initWarp kernel launch plan item (BitVec.ofNat 32 w)) := by
        rw [List.take_zero, List.nil_append, ← List.range_eq_range']

/-- At most `2 ^ 32` threads make `2 ^ 32` warps only as warps of one lane. -/
theorem LaunchPlan.Checked.warpCount_lt_iff {launch : LaunchConfig} {plan : LaunchPlan}
    (h : plan.Checked launch) (hthreads : plan.threadsPerBlock ≤ 2 ^ 32) :
    plan.warpCount < 2 ^ 32 ↔ ¬ (plan.warpSize = 1 ∧ plan.threadsPerBlock = 2 ^ 32) := by
  have hpos := h.warpSizePos
  have hle := h.warpSizeLe
  rw [h.warpCount, Nat.mod_eq_of_lt (by omega), Nat.div_lt_iff_lt_mul hpos]
  constructor
  · rintro hlt ⟨hone, hfull⟩
    omega
  · intro hne
    by_cases hone : plan.warpSize = 1
    · omega
    · have htwo : 2 ^ 32 * 2 ≤ 2 ^ 32 * plan.warpSize := Nat.mul_le_mul_left _ (by omega)
      omega

/-! ### What a lane reads -/

/-- The special registers of a lane say that it is thread `tid` of block `ctaid`. -/
def RepresentsThread (warp : WarpState) (lane : Nat) (ctaid tid : Dim3) : Prop :=
  readSpecialU32 "ctaid.x" warp lane = some (ctaid.x.setWidth 64)
    ∧ readSpecialU32 "ctaid.y" warp lane = some (ctaid.y.setWidth 64)
    ∧ readSpecialU32 "ctaid.z" warp lane = some (ctaid.z.setWidth 64)
    ∧ readSpecialU32 "tid.x" warp lane = some (tid.x.setWidth 64)
    ∧ readSpecialU32 "tid.y" warp lane = some (tid.y.setWidth 64)
    ∧ readSpecialU32 "tid.z" warp lane = some (tid.z.setWidth 64)

theorem some_setWidth_inj {a b : BitVec 32} :
    (some (a.setWidth 64) = some (b.setWidth 64)) ↔ a = b := by
  constructor
  · intro h
    have htoNat := congrArg BitVec.toNat (Option.some.inj h)
    rw [BitVec.toNat_setWidth_of_le (by omega), BitVec.toNat_setWidth_of_le (by omega)] at htoNat
    exact BitVec.eq_of_toNat_eq htoNat
  · rintro rfl
    rfl

section ReadSpecial

variable {warp : WarpState} {lane n : Nat}

/-- The number of the lane in its block. -/
theorem threadLinear_toNat (hn : warp.laneBaseThreadLinear.toNat + lane = n) (hlt : n < 2 ^ 64) :
    (warp.laneBaseThreadLinear.setWidth 64 + BitVec.ofNat 64 lane).toNat = n := by
  rw [BitVec.toNat_add, BitVec.toNat_setWidth_of_le (by omega), BitVec.toNat_ofNat,
    Nat.mod_eq_of_lt (show lane < 2 ^ 64 by omega), hn, Nat.mod_eq_of_lt hlt]

theorem readSpecialU32_ctaid (lane : Nat) {d : Dim3} (hd : warp.launch.blockDim = d)
    (hpos : 0 < d.volume) :
    readSpecialU32 "ctaid.x" warp lane = some (warp.ctaid.x.setWidth 64)
      ∧ readSpecialU32 "ctaid.y" warp lane = some (warp.ctaid.y.setWidth 64)
      ∧ readSpecialU32 "ctaid.z" warp lane = some (warp.ctaid.z.setWidth 64) := by
  have hdims : ¬ (d.x = 0 ∨ d.y = 0 ∨ d.z = 0) := by
    rintro (hzero | hzero | hzero) <;> simp [Dim3.volume, hzero] at hpos
  unfold readSpecialU32
  rw [hd]
  refine ⟨?_, ?_, ?_⟩
  · rw [if_neg hdims]
    rfl
  · rw [if_neg hdims]
    rfl
  · rw [if_neg hdims]
    rfl

theorem readSpecialU32_tid {d : Dim3} (hd : warp.launch.blockDim = d)
    (hn : warp.laneBaseThreadLinear.toNat + lane = n) (hlt : n < d.volume)
    (hvolume : d.volume < 2 ^ 64) :
    readSpecialU32 "tid.x" warp lane = some ((d.coords n).x.setWidth 64)
      ∧ readSpecialU32 "tid.y" warp lane = some ((d.coords n).y.setWidth 64)
      ∧ readSpecialU32 "tid.z" warp lane = some ((d.coords n).z.setWidth 64) := by
  have hpos : 0 < d.volume := by omega
  have hdims : ¬ (d.x = 0 ∨ d.y = 0 ∨ d.z = 0) := by
    rintro (hzero | hzero | hzero) <;> simp [Dim3.volume, hzero] at hpos
  have hlinear := threadLinear_toNat hn (by omega)
  obtain ⟨hx, hy, hz⟩ := Dim3.coords_toNat hlt
  have hxy : (d.x.setWidth 64 * d.y.setWidth 64).toNat = d.x.toNat * d.y.toNat := by
    have hprod := Nat.mul_le_mul (Nat.le_of_lt_succ d.x.isLt) (Nat.le_of_lt_succ d.y.isLt)
    rw [BitVec.toNat_mul, BitVec.toNat_setWidth_of_le (by omega),
      BitVec.toNat_setWidth_of_le (by omega), Nat.mod_eq_of_lt (by omega)]
  have hxyNe : d.x.setWidth 64 * d.y.setWidth 64 ≠ (0 : BitVec 64) := by
    intro hzero
    rw [Dim3.volume, ← hxy, hzero] at hpos
    simp at hpos
  unfold readSpecialU32
  rw [hd]
  refine ⟨?_, ?_, ?_⟩
  · rw [if_neg hdims]
    refine congrArg (fun c : BitVec 32 => some (c.setWidth 64)) (BitVec.eq_of_toNat_eq ?_)
    rw [hx, BitVec.toNat_setWidth, BitVec.toNat_umod, hlinear,
      BitVec.toNat_setWidth_of_le (by omega), ← hx, Nat.mod_eq_of_lt (d.coords n).x.isLt]
  · rw [if_neg hdims]
    refine congrArg (fun c : BitVec 32 => some (c.setWidth 64)) (BitVec.eq_of_toNat_eq ?_)
    rw [hy, BitVec.toNat_setWidth, BitVec.toNat_umod, BitVec.toNat_udiv, hlinear,
      BitVec.toNat_setWidth_of_le (by omega), BitVec.toNat_setWidth_of_le (by omega), ← hy,
      Nat.mod_eq_of_lt (d.coords n).y.isLt]
  · rw [if_neg hdims]
    refine congrArg (fun c : BitVec 32 => some (c.setWidth 64)) (BitVec.eq_of_toNat_eq ?_)
    rw [hz, BitVec.toNat_setWidth, BitVec.toNat_udiv, if_neg hxyNe, hlinear, hxy, ← hz,
      Nat.mod_eq_of_lt (d.coords n).z.isLt]

/-- A lane represents one thread: the warp's block, and the coordinates of its number there. -/
theorem representsThread_iff {d ctaid tid : Dim3} (hd : warp.launch.blockDim = d)
    (hn : warp.laneBaseThreadLinear.toNat + lane = n) (hlt : n < d.volume)
    (hvolume : d.volume < 2 ^ 64) :
    RepresentsThread warp lane ctaid tid ↔ ctaid = warp.ctaid ∧ tid = d.coords n := by
  obtain ⟨hcx, hcy, hcz⟩ := readSpecialU32_ctaid lane hd (by omega)
  obtain ⟨htx, hty, htz⟩ := readSpecialU32_tid hd hn hlt hvolume
  rw [RepresentsThread, hcx, hcy, hcz, htx, hty, htz]
  simp only [some_setWidth_inj]
  constructor
  · rintro ⟨hcx, hcy, hcz, htx, hty, htz⟩
    exact ⟨Dim3.ext hcx.symm hcy.symm hcz.symm, Dim3.ext htx.symm hty.symm htz.symm⟩
  · rintro ⟨rfl, rfl⟩
    exact ⟨rfl, rfl, rfl, rfl, rfl, rfl⟩

end ReadSpecial

/-! ### Coverage -/

/-- A submitted item, one of its warps, one lane of the warp. -/
structure ThreadSlot where
  item : Nat
  warp : Nat
  lane : Nat
deriving DecidableEq, Repr

/-- The slot's lane is initially active, and `w` is its warp. -/
def ThreadSlot.Starts (slot : ThreadSlot) (items : List CtaWorkItem)
    (warps : CtaWorkItem → List WarpState) (w : WarpState) : Prop :=
  ∃ item, items[slot.item]? = some item ∧ (warps item)[slot.warp]? = some w
    ∧ w.active.has slot.lane = true

/-- The initially active lanes of these warps are the threads of the grid, each once. -/
structure Coverage (launch : LaunchConfig) (warps : CtaWorkItem → List WarpState) : Prop where
  represents : ∀ (slot : ThreadSlot) (w : WarpState),
    slot.Starts (ctaItems launch.gridDim) warps w →
      ∃ ctaid tid, RepresentsThread w slot.lane ctaid tid
  inside : ∀ (slot : ThreadSlot) (w : WarpState),
    slot.Starts (ctaItems launch.gridDim) warps w → ∀ ctaid tid,
      RepresentsThread w slot.lane ctaid tid →
        launch.gridDim.Inside ctaid ∧ launch.blockDim.Inside tid
  unique : ∀ ctaid tid, launch.gridDim.Inside ctaid → launch.blockDim.Inside tid →
    ∃! slot : ThreadSlot, ∃ w, slot.Starts (ctaItems launch.gridDim) warps w
      ∧ RepresentsThread w slot.lane ctaid tid
  count : ((ctaItems launch.gridDim).map fun item =>
      ((warps item).map fun w => w.active.lanes.card).sum).sum
    = launch.gridDim.volume * launch.blockDim.volume

/-- Every CTA gets its warps, and their active lanes are the threads of the grid. -/
def ThreadCoverage (kernel : KernelImage) (launch : LaunchConfig) (plan : LaunchPlan) : Prop :=
  ∃ warps : CtaWorkItem → List WarpState,
    (∀ item ∈ ctaItems launch.gridDim, ∃ fuel,
      initWarps kernel launch plan item fuel = some (warps item)) ∧ Coverage launch warps

section Slots

variable {kernel : KernelImage} {launch : LaunchConfig} {plan : LaunchPlan}

/-- The warps of an item, as the finished loop leaves them. -/
def plannedWarps (kernel : KernelImage) (launch : LaunchConfig) (plan : LaunchPlan)
    (item : CtaWorkItem) : List WarpState :=
  (List.range plan.warpCount).map fun w => initWarp kernel launch plan item (BitVec.ofNat 32 w)

theorem LaunchPlan.Checked.volume (h : plan.Checked launch) :
    launch.blockDim.volume = plan.threadsPerBlock :=
  h.threadsPerBlock.symm

/-- The warps have a lane for every thread of the block. -/
theorem LaunchPlan.Checked.threads_le (h : plan.Checked launch)
    (hthreads : plan.threadsPerBlock ≤ 2 ^ 32) :
    plan.threadsPerBlock ≤ plan.warpCount * plan.warpSize := by
  have hpos := h.warpSizePos
  have hle := h.warpSizeLe
  have hdiv := Nat.lt_div_mul_add (a := plan.threadsPerBlock + plan.warpSize - 1) hpos
  rw [h.warpCount, Nat.mod_eq_of_lt (by omega)]
  omega

/-- The first lane of a warp of a block whose threads a 32-bit number can count. -/
theorem LaunchPlan.Checked.laneBase_toNat (h : plan.Checked launch)
    (hthreads : plan.threadsPerBlock ≤ 2 ^ 32) {w : Nat} (hw : w < plan.warpCount) :
    (BitVec.ofNat 32 w * BitVec.ofNat 32 plan.warpSize).toNat = w * plan.warpSize
      ∧ w * plan.warpSize < plan.threadsPerBlock := by
  have hpos := h.warpSizePos
  have hle := h.warpSizeLe
  rw [h.warpCount, Nat.mod_eq_of_lt (by omega), Nat.lt_iff_add_one_le,
    Nat.le_div_iff_mul_le hpos, Nat.add_mul, Nat.one_mul] at hw
  have hone : w ≤ w * plan.warpSize := Nat.le_mul_of_pos_right w hpos
  constructor
  · rw [BitVec.toNat_mul, BitVec.toNat_ofNat, BitVec.toNat_ofNat,
      Nat.mod_eq_of_lt (show w < 2 ^ 32 by omega),
      Nat.mod_eq_of_lt (show plan.warpSize < 2 ^ 32 by omega), Nat.mod_eq_of_lt (by omega)]
  · omega

/-- The initially active lanes of a warp: those whose number is a thread of the block. -/
theorem LaunchPlan.Checked.active_has (h : plan.Checked launch)
    (hthreads : plan.threadsPerBlock ≤ 2 ^ 32) (item : CtaWorkItem) {w : Nat}
    (hw : w < plan.warpCount) (lane : Nat) :
    (initWarp kernel launch plan item (BitVec.ofNat 32 w)).active.has lane
      = decide (lane < min plan.warpSize (plan.threadsPerBlock - w * plan.warpSize)) := by
  obtain ⟨lanesOn, hlanesOn, hhas⟩ := initWarp_active h kernel item (BitVec.ofNat 32 w)
  rw [(h.laneBase_toNat hthreads hw).1] at hlanesOn
  rw [hhas, hlanesOn]

theorem LaunchPlan.Checked.starts_iff (h : plan.Checked launch)
    (hthreads : plan.threadsPerBlock ≤ 2 ^ 32) {slot : ThreadSlot} {w : WarpState} :
    slot.Starts (ctaItems launch.gridDim) (plannedWarps kernel launch plan) w
      ↔ slot.item < launch.gridDim.volume ∧ slot.lane < plan.warpSize
        ∧ slot.warp * plan.warpSize + slot.lane < plan.threadsPerBlock ∧ slot.warp < plan.warpCount
        ∧ ∃ item, (ctaItems launch.gridDim)[slot.item]? = some item
          ∧ w = initWarp kernel launch plan item (BitVec.ofNat 32 slot.warp) := by
  constructor
  · rintro ⟨item, hitem, hwarp, hlane⟩
    have hk := (ctaItems_getElem?.mp hitem).1
    rw [plannedWarps, List.getElem?_map, Option.map_eq_some_iff] at hwarp
    obtain ⟨j, hj, rfl⟩ := hwarp
    obtain ⟨hlt, hslot⟩ := List.getElem?_eq_some_iff.mp hj
    rw [List.length_range] at hlt
    rw [List.getElem_range] at hslot
    subst j
    rw [h.active_has hthreads item hlt, decide_eq_true_eq] at hlane
    exact ⟨hk, by omega, by omega, hlt, item, hitem, rfl⟩
  · rintro ⟨-, hlane, hthread, hj, item, hitem, rfl⟩
    refine ⟨item, hitem, ?_, ?_⟩
    · simp [plannedWarps, hj]
    · rw [h.active_has hthreads item hj, decide_eq_true_eq]
      omega

/-- An initially active lane represents the thread at its positions in the grid and in the block. -/
theorem LaunchPlan.Checked.starts_represents (h : plan.Checked launch)
    (hthreads : plan.threadsPerBlock ≤ 2 ^ 32) {slot : ThreadSlot} {w : WarpState}
    (hstarts : slot.Starts (ctaItems launch.gridDim) (plannedWarps kernel launch plan) w)
    {ctaid tid : Dim3} :
    RepresentsThread w slot.lane ctaid tid
      ↔ ctaid = launch.gridDim.coords slot.item
        ∧ tid = launch.blockDim.coords (slot.warp * plan.warpSize + slot.lane) := by
  obtain ⟨-, -, hthread, hwarp, item, hitem, rfl⟩ := (h.starts_iff hthreads).mp hstarts
  obtain ⟨-, rfl⟩ := ctaItems_getElem?.mp hitem
  have hvolume := h.volume
  have hlt := h.threadsLt
  have hbase := (h.laneBase_toNat hthreads hwarp).1
  exact representsThread_iff rfl (congrArg (· + slot.lane) hbase) (by omega) (by omega)

/-- The slot of a thread is determined by its coordinates. -/
theorem LaunchPlan.Checked.slot_eq (h : plan.Checked launch)
    (hthreads : plan.threadsPerBlock ≤ 2 ^ 32) {slot : ThreadSlot} {w : WarpState}
    (hstarts : slot.Starts (ctaItems launch.gridDim) (plannedWarps kernel launch plan) w)
    {ctaid tid : Dim3} (hrepresents : RepresentsThread w slot.lane ctaid tid) :
    slot = ⟨launch.gridDim.position ctaid, launch.blockDim.position tid / plan.warpSize,
      launch.blockDim.position tid % plan.warpSize⟩ := by
  have hpos := h.warpSizePos
  obtain ⟨rfl, rfl⟩ := (h.starts_represents hthreads hstarts).mp hrepresents
  obtain ⟨hitem, hlane, hthread, -⟩ := (h.starts_iff hthreads).mp hstarts
  rw [Dim3.position_coords hitem, Dim3.position_coords (by rwa [h.volume]),
    Nat.add_comm, Nat.add_mul_div_right _ _ hpos, Nat.div_eq_of_lt hlane, Nat.zero_add,
    Nat.add_mul_mod_self_right, Nat.mod_eq_of_lt hlane]

theorem LaunchPlan.Checked.exists_slot (h : plan.Checked launch)
    (hthreads : plan.threadsPerBlock ≤ 2 ^ 32) {ctaid tid : Dim3}
    (hctaid : launch.gridDim.Inside ctaid) (htid : launch.blockDim.Inside tid) :
    ∃ (slot : ThreadSlot) (w : WarpState),
      slot.Starts (ctaItems launch.gridDim) (plannedWarps kernel launch plan) w
        ∧ RepresentsThread w slot.lane ctaid tid := by
  have hpos := h.warpSizePos
  have hitem := Dim3.position_lt hctaid
  have hthread := Dim3.position_lt htid
  rw [h.volume] at hthread
  have hsplit := Nat.div_add_mod' (launch.blockDim.position tid) plan.warpSize
  have hwarp : launch.blockDim.position tid / plan.warpSize < plan.warpCount :=
    (Nat.div_lt_iff_lt_mul hpos).mpr (Nat.lt_of_lt_of_le hthread (h.threads_le hthreads))
  let slot : ThreadSlot := ⟨launch.gridDim.position ctaid,
    launch.blockDim.position tid / plan.warpSize, launch.blockDim.position tid % plan.warpSize⟩
  obtain ⟨w, hstarts⟩ : ∃ w,
      slot.Starts (ctaItems launch.gridDim) (plannedWarps kernel launch plan) w :=
    ⟨_, (h.starts_iff hthreads).mpr ⟨hitem, Nat.mod_lt _ hpos, by rwa [hsplit], hwarp, _,
      ctaItems_getElem?.mpr ⟨hitem, rfl⟩, rfl⟩⟩
  refine ⟨slot, w, hstarts, (h.starts_represents hthreads hstarts).mpr ⟨?_, ?_⟩⟩
  · exact (Dim3.coords_position hctaid).symm
  · calc tid = launch.blockDim.coords (launch.blockDim.position tid) :=
          (Dim3.coords_position htid).symm
      _ = launch.blockDim.coords (slot.warp * plan.warpSize + slot.lane) := by rw [hsplit]

/-- The lanes of the warps of one item. -/
theorem LaunchPlan.Checked.sum_active (h : plan.Checked launch)
    (hthreads : plan.threadsPerBlock ≤ 2 ^ 32) (item : CtaWorkItem) :
    ((plannedWarps kernel launch plan item).map fun w => w.active.lanes.card).sum
      = launch.blockDim.volume := by
  have hcard : ∀ w ∈ List.range plan.warpCount,
      (initWarp kernel launch plan item (BitVec.ofNat 32 w)).active.lanes.card
        = min plan.warpSize (plan.threadsPerBlock - w * plan.warpSize) := by
    intro w hw
    have hws := h.warpSizeLe
    have hlanes : (initWarp kernel launch plan item (BitVec.ofNat 32 w)).active.lanes
        = Finset.range (min plan.warpSize (plan.threadsPerBlock - w * plan.warpSize)) := by
      ext lane
      rw [LaneMask.mem_lanes, h.active_has hthreads item (List.mem_range.mp hw),
        decide_eq_true_eq, Finset.mem_range]
    rw [hlanes, Finset.card_range]
  calc ((plannedWarps kernel launch plan item).map fun w => w.active.lanes.card).sum
      = ((List.range plan.warpCount).map fun w =>
          min plan.warpSize (plan.threadsPerBlock - w * plan.warpSize)).sum := by
        rw [plannedWarps, List.map_map]
        exact congrArg List.sum (List.map_congr_left hcard)
    _ = min (plan.warpCount * plan.warpSize) plan.threadsPerBlock := Grid.sum_chunks _ _ _
    _ = launch.blockDim.volume := by
        rw [Nat.min_eq_right (h.threads_le hthreads), h.volume]

theorem LaunchPlan.Checked.coverage (h : plan.Checked launch)
    (hthreads : plan.threadsPerBlock ≤ 2 ^ 32) :
    Coverage launch (plannedWarps kernel launch plan) where
  represents slot w hstarts :=
    ⟨_, _, (h.starts_represents hthreads hstarts).mpr ⟨rfl, rfl⟩⟩
  inside slot w hstarts ctaid tid hrepresents := by
    obtain ⟨rfl, rfl⟩ := (h.starts_represents hthreads hstarts).mp hrepresents
    obtain ⟨hitem, -, hthread, -⟩ := (h.starts_iff hthreads).mp hstarts
    exact ⟨Dim3.inside_coords hitem, Dim3.inside_coords (by rwa [h.volume])⟩
  unique ctaid tid hctaid htid := by
    obtain ⟨slot, w, hstarts, hrepresents⟩ := h.exists_slot hthreads hctaid htid
    refine ⟨slot, ⟨w, hstarts, hrepresents⟩, ?_⟩
    rintro slot' ⟨w', hstarts', hrepresents'⟩
    rw [h.slot_eq hthreads hstarts' hrepresents', h.slot_eq hthreads hstarts hrepresents]
  count := by
    have hsum : ∀ n ∈ (ctaItems launch.gridDim).map fun item =>
        ((plannedWarps kernel launch plan item).map fun w => w.active.lanes.card).sum,
          n = launch.blockDim.volume := by
      intro n hn
      obtain ⟨item, -, rfl⟩ := List.mem_map.mp hn
      exact h.sum_active hthreads item
    rw [List.sum_eq_card_nsmul _ _ hsum, List.length_map, ctaItems_eq, List.length_map,
      List.length_range, smul_eq_mul]

end Slots

/-- **Thread coverage**: of the launches with at most `2 ^ 32` threads in a block, those that fill
`2 ^ 32` warps of one lane never finish setting up the first CTA, and all others start every thread
of the grid exactly once. -/
theorem thread_coverage_iff {cfg : SimConfig} {kernel : KernelImage} {launch : LaunchConfig}
    {plan : LaunchPlan} (hplan : checkLaunch cfg kernel launch = .ok plan)
    (hthreads : plan.threadsPerBlock ≤ 2 ^ 32) :
    ThreadCoverage kernel launch plan
      ↔ ¬ (plan.warpSize = 1 ∧ plan.threadsPerBlock = 2 ^ 32) := by
  have h := checkLaunch_ok hplan
  rw [← h.warpCount_lt_iff hthreads]
  constructor
  · rintro ⟨warps, hinit, -⟩
    by_contra hge
    have hfirst : (ctaItems launch.gridDim)[0]? = some (ctaItem launch.gridDim _ _ _) :=
      ctaItems_getElem?.mpr ⟨by
        obtain ⟨hx, hy, hz⟩ := h.gridPos
        exact Nat.mul_pos (Nat.mul_pos hx hy) hz, rfl⟩
    obtain ⟨fuel, hfuel⟩ := hinit _ (List.mem_of_getElem? hfirst)
    rw [initWarps, initLoop_diverges (Nat.le_of_not_lt hge)] at hfuel
    cases hfuel
  · intro hlt
    exact ⟨plannedWarps kernel launch plan,
      fun item _ => ⟨plan.warpCount + 1, initWarps_ok item hlt⟩, h.coverage hthreads⟩

/-! ### A block of `2 ^ 32` warps -/

def wideBlockLaunch : LaunchConfig where
  blockDim := { x := 65536, y := 65536, z := 1 }
  warpSize := 1

def wideBlockPlan : LaunchPlan where
  threadsPerBlock := 2 ^ 32
  warpSize := 1
  warpCount := 2 ^ 32
  smCount := 1
  ctaSched := .fifo
  warpSched := .inOrderRunToCompletion

theorem wide_block_not_covered :
    checkLaunch {} {} wideBlockLaunch = .ok wideBlockPlan
      ∧ wideBlockPlan.threadsPerBlock ≤ 2 ^ 32
      ∧ ¬ ThreadCoverage {} wideBlockLaunch wideBlockPlan := by
  refine ⟨by decide, by decide, ?_⟩
  rintro ⟨warps, hinit, -⟩
  obtain ⟨fuel, hfuel⟩ := hinit (ctaItem {} 0 0 0) (by decide)
  rw [initWarps, initLoop_diverges (by decide)] at hfuel
  cases hfuel

/-- Five threads in warps of two lanes: the last warp is partial. -/
theorem thread_coverage_partial_warp :
    ThreadCoverage {} { blockDim := { x := 5 }, warpSize := 2 }
      { threadsPerBlock := 5, warpSize := 2, warpCount := 3, smCount := 1
        ctaSched := .fifo, warpSched := .inOrderRunToCompletion } := by
  have hplan : checkLaunch {} {} { blockDim := { x := 5 }, warpSize := 2 }
      = .ok { threadsPerBlock := 5, warpSize := 2, warpCount := 3, smCount := 1
              ctaSched := .fifo, warpSched := .inOrderRunToCompletion } := by decide
  exact (thread_coverage_iff hplan (by decide)).mpr (by decide)

end ProtoGpu

import ProtoGpu.Simt.WarpStep

/-!
# What normalization keeps

`normalize_stack` takes frames off the stack for two reasons, an empty mask and an arrival at the
reconvergence point, and stops at the first frame that can execute. A property of stacks that
survives both is therefore a property of what it stops at, and every invariant of the stack is
proved through that one rule. The two properties that hold whatever the kernel does are here: how
many frames hold a lane, and how the joins nest.
-/

namespace ProtoGpu

/-! ### Lanes of a mask -/

/-- A mask of a warp of this size: the width, and no bit beyond it. -/
structure LaneMask.Fits (warpSize : Nat) (m : LaneMask) : Prop where
  width : m.width = warpSize
  lt : ∀ lane, m.has lane = true → lane < warpSize

def LaneMask.lanes (m : LaneMask) : Finset Nat := (Finset.range 32).filter fun lane => m.has lane

@[simp]
theorem LaneMask.mem_lanes {m : LaneMask} {lane : Nat} : lane ∈ m.lanes ↔ m.has lane = true := by
  simp only [LaneMask.lanes, Finset.mem_filter, Finset.mem_range, and_iff_right_iff_imp]
  exact LaneMask.has_lt

theorem LaneMask.lanes_subset_iff {a b : LaneMask} :
    a.lanes ⊆ b.lanes ↔ ∀ lane, a.has lane = true → b.has lane = true := by
  simp [Finset.subset_iff]

theorem LaneMask.lanes_nonempty_iff {m : LaneMask} :
    m.lanes.Nonempty ↔ laneMaskEmpty m = false := by
  rw [laneMaskEmpty_eq_false_iff]
  simp [Finset.Nonempty]

section Fits

variable {warpSize : Nat} {a b m : LaneMask}

theorem LaneMask.Fits.and (ha : a.Fits warpSize) : (laneMaskAnd a b).Fits warpSize where
  width := ha.width
  lt := by
    intro lane hlane
    simp only [has_laneMaskAnd, Bool.and_eq_true] at hlane
    exact ha.lt lane hlane.1

theorem LaneMask.Fits.or (ha : a.Fits warpSize) (hb : b.Fits warpSize) :
    (laneMaskOrSameWidth a b).Fits warpSize where
  width := ha.width
  lt := by
    intro lane hlane
    simp only [has_laneMaskOrSameWidth, Bool.or_eq_true] at hlane
    exact hlane.elim (ha.lt lane) (hb.lt lane)

theorem LaneMask.fits_zero : LaneMask.Fits warpSize { width := warpSize, bitsLo := 0 } where
  width := rfl
  lt := by simp [LaneMask.has]

/-- Complementing and intersecting is a set difference on the lanes that fit. -/
theorem has_and_not (hws : warpSize ≤ 32) (hm : m.width = warpSize) (ha : a.Fits warpSize)
    (lane : Nat) :
    (laneMaskAnd a (laneMaskNotWidth m)).has lane = (a.has lane && !m.has lane) := by
  rw [has_laneMaskAnd, has_laneMaskNotWidth (by omega), hm]
  cases hlane : a.has lane with
  | false => simp
  | true => simp [ha.lt lane hlane]

end Fits

/-! ### Frames that hold a lane -/

/-- The frame has the lane, and the lane has not returned. -/
def SimtFrame.holds (exited : LaneMask) (lane : Nat) (f : SimtFrame) : Bool :=
  f.active.has lane && !exited.has lane

def holders (exited : LaneMask) (lane : Nat) (fs : List SimtFrame) : Nat :=
  fs.countP (SimtFrame.holds exited lane)

@[simp]
theorem holders_nil (exited : LaneMask) (lane : Nat) : holders exited lane [] = 0 := rfl

@[simp]
theorem holders_cons (exited : LaneMask) (lane : Nat) (f : SimtFrame) (fs : List SimtFrame) :
    holders exited lane (f :: fs) = (f.holds exited lane).toNat + holders exited lane fs := by
  unfold holders
  rw [List.countP_cons]
  cases f.holds exited lane <;> simp [Nat.add_comm]

@[simp]
theorem holders_append (exited : LaneMask) (lane : Nat) (fs gs : List SimtFrame) :
    holders exited lane (fs ++ gs) = holders exited lane fs + holders exited lane gs := by
  simp [holders, List.countP_append]

theorem holders_pos_iff {exited : LaneMask} {lane : Nat} {fs : List SimtFrame} :
    0 < holders exited lane fs ↔ ∃ f ∈ fs, f.holds exited lane = true :=
  List.countP_pos_iff

/-- Frames that share no lane, from the count. -/
theorem pairwise_of_holders_le_one {exited : LaneMask} {fs : List SimtFrame}
    (h : ∀ lane, holders exited lane fs ≤ 1) :
    fs.Pairwise fun f g => ∀ lane,
      ¬ (f.holds exited lane = true ∧ g.holds exited lane = true) := by
  induction fs with
  | nil => exact .nil
  | cons f fs ih =>
      simp only [holders_cons] at h
      refine .cons (fun g hg lane hboth => ?_) (ih fun lane => ?_)
      · have hpos := holders_pos_iff.mpr ⟨g, hg, hboth.2⟩
        have hle := h lane
        rw [hboth.1, Bool.toNat_true] at hle
        omega
      · have hle := h lane
        omega

theorem holders_eq_zero_of_exited {exited : LaneMask} {lane : Nat} (hlane : exited.has lane = true)
    (fs : List SimtFrame) : holders exited lane fs = 0 := by
  simp [holders, SimtFrame.holds, hlane]

/-- Fewer lanes are held when more have returned. -/
theorem holds_of_holds {exited exited' : LaneMask} {lane : Nat}
    (hmono : exited.has lane = true → exited'.has lane = true) {f : SimtFrame}
    (h : f.holds exited' lane = true) : f.holds exited lane = true := by
  simp only [SimtFrame.holds, Bool.and_eq_true, Bool.not_eq_true'] at h ⊢
  refine ⟨h.1, ?_⟩
  by_contra hcon
  rw [hmono (by simpa using hcon)] at h
  cases h.2

theorem holders_le {exited exited' : LaneMask} {lane : Nat}
    (hmono : exited.has lane = true → exited'.has lane = true) (fs : List SimtFrame) :
    holders exited' lane fs ≤ holders exited lane fs :=
  List.countP_mono_left fun _ _ => holds_of_holds hmono

theorem holders_congr {exited exited' : LaneMask} {lane : Nat}
    (hlane : exited'.has lane = exited.has lane) (fs : List SimtFrame) :
    holders exited' lane fs = holders exited lane fs := by
  have hholds : SimtFrame.holds exited' lane = SimtFrame.holds exited lane := by
    funext f
    rw [SimtFrame.holds, SimtFrame.holds, hlane]
  rw [holders, holders, hholds]

section Refresh

variable {warpSize : Nat} {exited : LaneMask} {f : SimtFrame}

theorem has_refresh (hws : warpSize ≤ 32) (hexited : exited.width = warpSize)
    (hf : f.active.Fits warpSize) (lane : Nat) :
    (f.refresh exited).active.has lane = f.holds exited lane :=
  has_and_not hws hexited hf lane

theorem refresh_empty_iff (hws : warpSize ≤ 32) (hexited : exited.width = warpSize)
    (hf : f.active.Fits warpSize) :
    laneMaskEmpty (f.refresh exited).active = true ↔ ∀ lane, f.holds exited lane = false := by
  rw [laneMaskEmpty_iff]
  simp only [has_refresh hws hexited hf]

theorem refresh_nonempty_iff (hws : warpSize ≤ 32) (hexited : exited.width = warpSize)
    (hf : f.active.Fits warpSize) :
    laneMaskEmpty (f.refresh exited).active = false ↔ ∃ lane, f.holds exited lane = true := by
  rw [laneMaskEmpty_eq_false_iff]
  simp only [has_refresh hws hexited hf]

end Refresh

/-! ### The merge search -/

/-- The merge search finds the first join that waits at `reconvPc`. -/
theorem mergeIntoJoin_eq_some {reconvPc : Int} {arrived : LaneMask} {fs fs' : List SimtFrame}
    (h : mergeIntoJoin reconvPc arrived fs = some fs') :
    ∃ above join below, fs = above ++ join :: below
      ∧ (∀ f ∈ above, ¬ (f.isJoin = true ∧ f.pc = reconvPc))
      ∧ join.isJoin = true ∧ join.pc = reconvPc
      ∧ fs' = above ++ { join with active := laneMaskOrSameWidth join.active arrived }
        :: below := by
  induction fs generalizing fs' with
  | nil => cases h
  | cons f fs ih =>
      rw [mergeIntoJoin] at h
      split at h
      next hjoin =>
        simp only [Bool.and_eq_true, beq_iff_eq] at hjoin
        cases h
        exact ⟨[], f, fs, rfl, by simp, hjoin.1, hjoin.2, rfl⟩
      next hjoin =>
        simp only [Bool.and_eq_true, beq_iff_eq] at hjoin
        rw [Option.map_eq_some_iff] at h
        obtain ⟨rest, hrest, rfl⟩ := h
        obtain ⟨above, join, below, rfl, habove, hisJoin, hpc, rfl⟩ := ih hrest
        refine ⟨f :: above, join, below, rfl, ?_, hisJoin, hpc, rfl⟩
        intro g hg
        cases hg with
        | head => exact hjoin
        | tail _ hmem => exact habove g hmem

theorem mergeIntoJoin_join {reconvPc : Int} {arrived : LaneMask} {join : SimtFrame}
    {fs : List SimtFrame} (hjoin : join.isJoin = true) (hpc : join.pc = reconvPc) :
    mergeIntoJoin reconvPc arrived (join :: fs)
      = some ({ join with active := laneMaskOrSameWidth join.active arrived } :: fs) := by
  simp [mergeIntoJoin, hjoin, hpc]

theorem mergeIntoJoin_path {reconvPc : Int} {arrived : LaneMask} {f : SimtFrame}
    {fs : List SimtFrame} (hpath : f.isJoin = false) :
    mergeIntoJoin reconvPc arrived (f :: fs)
      = (mergeIntoJoin reconvPc arrived fs).map (f :: ·) := by
  simp [mergeIntoJoin, hpath]

theorem length_mergeIntoJoin {reconvPc : Int} {arrived : LaneMask} {fs fs' : List SimtFrame}
    (h : mergeIntoJoin reconvPc arrived fs = some fs') : fs'.length = fs.length := by
  obtain ⟨above, join, below, rfl, -, -, -, rfl⟩ := mergeIntoJoin_eq_some h
  simp

/-! ### The rule of normalization -/

/-- What `normalize_stack` stops at, for a property `P` that its pops and merges keep. -/
def Normalized.StopsAt (P : List SimtFrame → Prop) (exited : LaneMask) : Normalized → Prop
  | .ready top rest joined =>
      ∃ f, P (f :: rest) ∧ top = { f.refresh exited with isJoin := false }
        ∧ joined = f.isJoin ∧ laneMaskEmpty (f.refresh exited).active = false
        ∧ (f.isJoin = false → f.pc ≠ f.reconvPc)
  | .empty => P []
  | .invalid reconvPc rest =>
      ∃ f, P (f :: rest) ∧ laneMaskEmpty (f.refresh exited).active = false ∧ f.isJoin = false
        ∧ f.pc = f.reconvPc ∧ f.pc = reconvPc
        ∧ mergeIntoJoin f.pc (f.refresh exited).active rest = none

/-- **The normalization rule.** A property kept by popping a frame without live lanes, and by
merging a frame that has arrived, holds of the stack that normalization stops at. -/
theorem normalizeFrames_stopsAt {P : List SimtFrame → Prop} {exited : LaneMask}
    (hpop : ∀ f fs, P (f :: fs) → laneMaskEmpty (f.refresh exited).active = true → P fs)
    (hmerge : ∀ f fs fs', P (f :: fs) → laneMaskEmpty (f.refresh exited).active = false →
      f.isJoin = false → f.pc = f.reconvPc →
      mergeIntoJoin f.pc (f.refresh exited).active fs = some fs' → P fs')
    {fuel : Nat} {fs : List SimtFrame} (hfuel : fs.length ≤ fuel) (hfs : P fs) :
    (normalizeFrames exited fuel fs).StopsAt P exited := by
  induction fuel generalizing fs with
  | zero =>
      cases fs with
      | nil => exact hfs
      | cons f fs => simp at hfuel
  | succ fuel ih =>
      cases fs with
      | nil => exact hfs
      | cons f fs =>
          simp only [List.length_cons, Nat.add_le_add_iff_right] at hfuel
          rw [normalizeFrames]
          split
          next hempty => exact ih hfuel (hpop f fs hfs hempty)
          next hlive =>
            simp only [Bool.not_eq_true] at hlive
            split
            next hjoin =>
              exact ⟨f, hfs, rfl, hjoin.symm, hlive, by simp [show f.isJoin = true from hjoin]⟩
            next hpath =>
              have hpath' : f.isJoin = false := by simpa [SimtFrame.refresh] using hpath
              split
              next hpc =>
                split
                next hnone => exact ⟨f, hfs, hlive, hpath', hpc, rfl, hnone⟩
                next fs' hsome =>
                  have hlen := length_mergeIntoJoin hsome
                  exact ih (by omega) (hmerge f fs fs' hfs hlive hpath' hpc hsome)
              next hpc =>
                refine ⟨f, hfs, ?_, hpath'.symm, hlive, fun _ => hpc⟩
                rw [← hpath']
                rfl

/-! ### Counting holders -/

section Counting

variable {warpSize : Nat} {exited : LaneMask} {f : SimtFrame} {fs fs' : List SimtFrame}

theorem holders_pop (hws : warpSize ≤ 32) (hexited : exited.width = warpSize)
    (hf : f.active.Fits warpSize) (hempty : laneMaskEmpty (f.refresh exited).active = true)
    (lane : Nat) : holders exited lane fs = holders exited lane (f :: fs) := by
  simp [(refresh_empty_iff hws hexited hf).mp hempty lane]

/-- A merge moves the arrived lanes from one frame to another; no frame below held them. -/
theorem holders_merge (hws : warpSize ≤ 32) (hexited : exited.width = warpSize)
    (hf : f.active.Fits warpSize) (hone : ∀ lane, holders exited lane (f :: fs) ≤ 1)
    (hmerge : mergeIntoJoin f.pc (f.refresh exited).active fs = some fs') (lane : Nat) :
    holders exited lane fs' = holders exited lane (f :: fs) := by
  obtain ⟨above, join, below, rfl, -, -, -, rfl⟩ := mergeIntoJoin_eq_some hmerge
  have hone := hone lane
  have hrefresh := has_refresh hws hexited hf lane
  have hjoin :
      SimtFrame.holds exited lane
          { join with active := laneMaskOrSameWidth join.active (f.refresh exited).active }
        = (join.holds exited lane || f.holds exited lane) := by
    simp only [SimtFrame.holds, has_laneMaskOrSameWidth, hrefresh]
    cases join.active.has lane <;> cases f.active.has lane <;> cases exited.has lane <;> rfl
  simp only [holders_cons, holders_append, hjoin] at hone ⊢
  cases hj : join.holds exited lane <;> cases hfl : f.holds exited lane <;>
    simp only [hj, hfl, Bool.toNat_true, Bool.toNat_false, Bool.or_self, Bool.or_true,
      Bool.or_false] at hone ⊢ <;> omega

theorem fits_merge (hf : f.active.Fits warpSize) (hfs : ∀ g ∈ fs, g.active.Fits warpSize)
    (hmerge : mergeIntoJoin f.pc (f.refresh exited).active fs = some fs') :
    ∀ g ∈ fs', g.active.Fits warpSize := by
  obtain ⟨above, join, below, rfl, -, -, -, rfl⟩ := mergeIntoJoin_eq_some hmerge
  intro g hg
  rw [List.mem_append, List.mem_cons] at hg
  rcases hg with habove | rfl | hbelow
  · exact hfs g (by simp [habove])
  · exact (hfs join (by simp)).or hf.and
  · exact hfs g (by simp [hbelow])

end Counting

/-! ### Nesting -/

/-- The stack below a set `lanes` of lanes that reconverge at `reconvPc`. Each level is a join,
perhaps with the pending fall-through path of its branch above it, and each level was reached by
strictly more lanes than the one above; the lanes a join collects are among those. -/
inductive Below (initial : Finset Nat) (exitPc : Int) :
    Finset Nat → Int → List SimtFrame → Prop where
  | bottom {lanes : Finset Nat} (hlanes : lanes ⊆ initial) : Below initial exitPc lanes exitPc []
  | join {lanes outer : Finset Nat} {reconvPc : Int} {join : SimtFrame} {rest : List SimtFrame}
      (hjoin : join.isJoin = true) (hpc : join.pc = reconvPc) (hactive : join.active.lanes ⊆ outer)
      (hlanes : lanes ⊂ outer) (hrest : Below initial exitPc outer join.reconvPc rest) :
      Below initial exitPc lanes reconvPc (join :: rest)
  | fall {lanes outer : Finset Nat} {reconvPc : Int} {fall join : SimtFrame}
      {rest : List SimtFrame} (hfall : fall.isJoin = false) (hreconv : fall.reconvPc = reconvPc)
      (hfallActive : fall.active.lanes ⊂ outer)
      (hjoin : join.isJoin = true) (hpc : join.pc = reconvPc) (hactive : join.active.lanes ⊆ outer)
      (hlanes : lanes ⊂ outer) (hrest : Below initial exitPc outer join.reconvPc rest) :
      Below initial exitPc lanes reconvPc (fall :: join :: rest)

section Nesting

variable {initial : Finset Nat} {exitPc : Int}

/-- Two frames for each lane a level adds. -/
theorem Below.length_le {lanes : Finset Nat} {reconvPc : Int} {fs : List SimtFrame}
    (h : Below initial exitPc lanes reconvPc fs) :
    fs.length + 2 * lanes.card ≤ 2 * initial.card := by
  induction h with
  | bottom hlanes =>
      have := Finset.card_le_card hlanes
      simp only [List.length_nil]
      omega
  | join hjoin hpc hactive hlanes hrest ih =>
      have := Finset.card_lt_card hlanes
      simp only [List.length_cons]
      omega
  | fall hfall hreconv hfallActive hjoin hpc hactive hlanes hrest ih =>
      have := Finset.card_lt_card hlanes
      simp only [List.length_cons]
      omega

theorem Below.subset {lanes : Finset Nat} {reconvPc : Int} {fs : List SimtFrame}
    (h : Below initial exitPc lanes reconvPc fs) : lanes ⊆ initial := by
  induction h with
  | bottom hlanes => exact hlanes
  | join hjoin hpc hactive hlanes hrest ih => exact hlanes.1.trans ih
  | fall hfall hreconv hfallActive hjoin hpc hactive hlanes hrest ih => exact hlanes.1.trans ih

theorem Below.mono {lanes lanes' : Finset Nat} {reconvPc : Int} {fs : List SimtFrame}
    (h : Below initial exitPc lanes reconvPc fs) (hsub : lanes' ⊆ lanes) :
    Below initial exitPc lanes' reconvPc fs := by
  cases h with
  | bottom hlanes => exact .bottom (hsub.trans hlanes)
  | join hjoin hpc hactive hlanes hrest =>
      exact .join hjoin hpc hactive (Finset.ssubset_of_subset_of_ssubset hsub hlanes) hrest
  | fall hfall hreconv hfallActive hjoin hpc hactive hlanes hrest =>
      exact .fall hfall hreconv hfallActive hjoin hpc hactive
        (Finset.ssubset_of_subset_of_ssubset hsub hlanes) hrest

/-- Lanes that arrive where the levels below wait are merged into the nearest of them. -/
theorem Below.merge {lanes : Finset Nat} {reconvPc : Int} {fs fs' : List SimtFrame}
    {arrived : LaneMask} (h : Below initial exitPc lanes reconvPc fs)
    (harrived : arrived.lanes ⊆ lanes) (hmerge : mergeIntoJoin reconvPc arrived fs = some fs') :
    Below initial exitPc lanes reconvPc fs' := by
  have hor : ∀ {m : LaneMask} {outer : Finset Nat}, m.lanes ⊆ outer → lanes ⊂ outer →
      (laneMaskOrSameWidth m arrived).lanes ⊆ outer := by
    intro m outer hm houter lane hlane
    simp only [LaneMask.mem_lanes, has_laneMaskOrSameWidth, Bool.or_eq_true] at hlane
    rcases hlane with hlane | hlane
    · exact hm (by simpa using hlane)
    · exact houter.1 (harrived (by simpa using hlane))
  cases h with
  | bottom hlanes => cases hmerge
  | join hjoin hpc hactive hlanes hrest =>
      rw [mergeIntoJoin_join hjoin hpc] at hmerge
      cases hmerge
      exact .join hjoin hpc (hor hactive hlanes) hlanes hrest
  | fall hfall hreconv hfallActive hjoin hpc hactive hlanes hrest =>
      rw [mergeIntoJoin_path hfall, mergeIntoJoin_join hjoin hpc] at hmerge
      cases hmerge
      exact .fall hfall hreconv hfallActive hjoin hpc (hor hactive hlanes) hlanes hrest

/-- The merge search stops at the first join: only paths lie above it. -/
theorem Below.nearest {lanes : Finset Nat} {reconvPc : Int} {fs fs' : List SimtFrame}
    {arrived : LaneMask} (h : Below initial exitPc lanes reconvPc fs)
    (hmerge : mergeIntoJoin reconvPc arrived fs = some fs') :
    ∃ paths join below, fs = paths ++ join :: below ∧ (∀ f ∈ paths, f.isJoin = false)
      ∧ join.isJoin = true ∧ join.pc = reconvPc
      ∧ fs' = paths ++ { join with active := laneMaskOrSameWidth join.active arrived }
        :: below := by
  cases h with
  | bottom hlanes => cases hmerge
  | join hjoin hpc hactive hlanes hrest =>
      rw [mergeIntoJoin_join hjoin hpc] at hmerge
      cases hmerge
      exact ⟨[], _, _, rfl, by simp, hjoin, hpc, rfl⟩
  | fall hfall hreconv hfallActive hjoin hpc hactive hlanes hrest =>
      rw [mergeIntoJoin_path hfall, mergeIntoJoin_join hjoin hpc] at hmerge
      cases hmerge
      exact ⟨[_], _, _, rfl, by simpa using hfall, hjoin, hpc, rfl⟩

/-- Without a join that waits at `reconvPc` the levels below are none. -/
theorem Below.eq_nil {lanes : Finset Nat} {reconvPc : Int} {fs : List SimtFrame}
    {arrived : LaneMask} (h : Below initial exitPc lanes reconvPc fs)
    (hmerge : mergeIntoJoin reconvPc arrived fs = none) : fs = [] ∧ reconvPc = exitPc := by
  cases h with
  | bottom => exact ⟨rfl, rfl⟩
  | join hjoin hpc => simp [mergeIntoJoin_join hjoin hpc] at hmerge
  | fall hfall hreconv hfallActive hjoin hpc =>
      simp [mergeIntoJoin_path hfall, mergeIntoJoin_join hjoin hpc] at hmerge

/-- The first join of a stack against any other. -/
theorem append_join_cases {paths above below below' : List SimtFrame} {join join' : SimtFrame}
    (hpaths : ∀ f ∈ paths, f.isJoin = false) (hjoin' : join'.isJoin = true)
    (h : paths ++ join :: below = above ++ join' :: below') :
    (above = paths ∧ join' = join ∧ below' = below)
      ∨ ∃ mid, above = paths ++ join :: mid ∧ below = mid ++ join' :: below' := by
  rcases List.append_eq_append_iff.mp h with ⟨mid, rfl, hmid⟩ | ⟨mid, rfl, hmid⟩
  · cases mid with
    | nil =>
        rw [List.nil_append, List.cons.injEq] at hmid
        exact .inl ⟨List.append_nil _, hmid.1.symm, hmid.2.symm⟩
    | cons g mid =>
        rw [List.cons_append, List.cons.injEq] at hmid
        exact .inr ⟨mid, by rw [hmid.1], hmid.2⟩
  · cases mid with
    | nil =>
        rw [List.nil_append, List.cons.injEq] at hmid
        exact .inl ⟨(List.append_nil _).symm, hmid.1, hmid.2⟩
    | cons g mid =>
        rw [List.cons_append, List.cons.injEq] at hmid
        have hpath := hpaths g (by simp)
        rw [← hmid.1, hjoin'] at hpath
        cases hpath

/-- A stack whose top is a path over its levels, or whose path has been taken off. -/
inductive Nested (initial : Finset Nat) (exitPc : Int) : List SimtFrame → Prop where
  | path {lanes : Finset Nat} {top : SimtFrame} {rest : List SimtFrame} (hne : lanes.Nonempty)
      (hpath : top.isJoin = false) (htop : top.active.lanes ⊆ lanes)
      (hrest : Below initial exitPc lanes top.reconvPc rest) : Nested initial exitPc (top :: rest)
  | levels {lanes : Finset Nat} {reconvPc : Int} {fs : List SimtFrame} (hne : lanes.Nonempty)
      (hfs : Below initial exitPc lanes reconvPc fs) : Nested initial exitPc fs

theorem Nested.length_le {fs : List SimtFrame} (h : Nested initial exitPc fs) :
    fs.length ≤ 2 * initial.card - 1 := by
  cases h with
  | path hne hpath htop hrest =>
      have := hrest.length_le
      have := hne.card_pos
      simp only [List.length_cons]
      omega
  | levels hne hfs =>
      have := hfs.length_le
      have := hne.card_pos
      omega

theorem Nested.pop {f : SimtFrame} {fs : List SimtFrame} (h : Nested initial exitPc (f :: fs)) :
    Nested initial exitPc fs := by
  cases h with
  | path hne hpath htop hrest => exact .levels hne hrest
  | levels hne hfs =>
      cases hfs with
      | join hjoin hpc hactive hlanes hrest => exact .levels (hne.mono hlanes.1) hrest
      | fall hfall hreconv hfallActive hjoin hpc hactive hlanes hrest =>
          exact .levels hne (.join hjoin hpc hactive hlanes hrest)

/-- A path frame over the levels that wait for it, whichever level it was pending in. -/
theorem Nested.path_below {f : SimtFrame} {fs : List SimtFrame}
    (h : Nested initial exitPc (f :: fs)) (hpath : f.isJoin = false)
    (hlive : f.active.lanes.Nonempty) :
    ∃ lanes : Finset Nat, lanes.Nonempty ∧ f.active.lanes ⊆ lanes
      ∧ Below initial exitPc lanes f.reconvPc fs := by
  cases h with
  | path hne _ htop hrest => exact ⟨_, hne, htop, hrest⟩
  | levels hne hfs =>
      cases hfs with
      | join hjoin => simp [hjoin] at hpath
      | fall hfall hreconv hfallActive hjoin hpc hactive hlanes hrest =>
          rw [hreconv]
          exact ⟨_, hlive, subset_rfl, .join hjoin hpc hactive hfallActive hrest⟩

theorem lanes_refresh_subset {exited : LaneMask} {f : SimtFrame} :
    (f.refresh exited).active.lanes ⊆ f.active.lanes := by
  rw [LaneMask.lanes_subset_iff]
  intro lane hlane
  simp only [SimtFrame.refresh, has_laneMaskAnd, Bool.and_eq_true] at hlane
  exact hlane.1

theorem Nested.merge {exited : LaneMask} {f : SimtFrame} {fs fs' : List SimtFrame}
    (h : Nested initial exitPc (f :: fs)) (hpath : f.isJoin = false)
    (hlive : laneMaskEmpty (f.refresh exited).active = false) (hpc : f.pc = f.reconvPc)
    (hmerge : mergeIntoJoin f.pc (f.refresh exited).active fs = some fs') :
    Nested initial exitPc fs' := by
  have hne := (LaneMask.lanes_nonempty_iff.mpr hlive).mono (lanes_refresh_subset (f := f))
  obtain ⟨lanes, hlanes, hsub, hbelow⟩ := h.path_below hpath hne
  rw [hpc] at hmerge
  exact .levels hlanes (hbelow.merge (lanes_refresh_subset.trans hsub) hmerge)

/-- The frame that becomes executable is a path over the levels below it. -/
theorem Nested.ready {exited : LaneMask} {f : SimtFrame} {rest : List SimtFrame}
    (h : Nested initial exitPc (f :: rest))
    (hlive : laneMaskEmpty (f.refresh exited).active = false) :
    ∃ lanes : Finset Nat, lanes.Nonempty ∧ (f.refresh exited).active.lanes ⊆ lanes
      ∧ Below initial exitPc lanes f.reconvPc rest := by
  have hne := (LaneMask.lanes_nonempty_iff.mpr hlive).mono (lanes_refresh_subset (f := f))
  cases hjoin : f.isJoin with
  | false =>
      obtain ⟨lanes, hlanes, hsub, hbelow⟩ := h.path_below hjoin hne
      exact ⟨lanes, hlanes, lanes_refresh_subset.trans hsub, hbelow⟩
  | true =>
      cases h with
      | path _ hpath => simp [hpath] at hjoin
      | levels hlanes hfs =>
          cases hfs with
          | join _ _ hactive hss hrest =>
              exact ⟨_, hlanes.mono hss.1, lanes_refresh_subset.trans hactive, hrest⟩
          | fall hfall => simp [hfall] at hjoin

end Nesting

end ProtoGpu

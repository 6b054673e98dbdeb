import ProtoGpu.Proof.MaskPartition
import ProtoGpu.Proof.Successors

/-!
# Reconvergence

A divergent branch leaves a join that waits at the branch's immediate post-dominator. Whatever runs
above the join has the join's program counter among the post-dominators of its own, and does not
pass it, so the first instruction issued there finds the join on top, with every lane of the branch
that has not returned. The one exception is a join that waits where it is itself to be merged: the
normalization executes it before it is merged, and the lanes of the outer branch are not there yet.
-/

namespace ProtoGpu

open PostDominance

/-! ### Frames and the levels below them -/

section Levels

variable (ctx : WarpContext) (pd : Nat → Set Nat)

/-- The frame relative to a join below it. -/
def FrameAbove (exited : LaneMask) (f join : SimtFrame) : Prop :=
  Above pd (∃ lane, f.holds exited lane = true) (nodeOf ctx.nInsts f.pc)
    (nodeOf ctx.nInsts f.reconvPc) (nodeOf ctx.nInsts join.pc)

/-- Every frame is on its way to its own point, which is the exit or where a join below waits, and
above every join below it. -/
inductive Levels (exited : LaneMask) : List SimtFrame → Prop where
  | nil : Levels exited []
  | cons {f : SimtFrame} {fs : List SimtFrame}
      (hway : ∀ lane, f.holds exited lane = true →
        nodeOf ctx.nInsts f.reconvPc ∈ pd (nodeOf ctx.nInsts f.pc))
      (hpoint : f.reconvPc = ctx.exitPc ∨ ∃ join ∈ fs, join.isJoin = true ∧ join.pc = f.reconvPc)
      (habove : ∀ join ∈ fs, join.isJoin = true → FrameAbove ctx pd exited f join)
      (hrest : Levels exited fs) : Levels exited (f :: fs)

end Levels

section Keep

variable {ctx : WarpContext} {pd : Nat → Set Nat} {exited : LaneMask}

theorem Levels.tail {f : SimtFrame} {fs : List SimtFrame} (h : Levels ctx pd exited (f :: fs)) :
    Levels ctx pd exited fs := by
  cases h with
  | cons hway hpoint habove hrest => exact hrest

/-- Fewer lanes run when more have returned. -/
theorem Levels.mono {exited' : LaneMask} (hmono : ∀ lane, exited.has lane = true →
      exited'.has lane = true) {fs : List SimtFrame} (h : Levels ctx pd exited fs) :
    Levels ctx pd exited' fs := by
  have hholds : ∀ (f : SimtFrame) lane, f.holds exited' lane = true → f.holds exited lane = true :=
    fun f lane => holds_of_holds (hmono lane)
  induction h with
  | nil => exact .nil
  | cons hway hpoint habove hrest ih =>
      refine .cons (fun lane hf => hway lane (hholds _ lane hf)) hpoint
        (fun join hjoin his => ?_) ih
      exact ⟨fun ⟨lane, hf⟩ => (habove join hjoin his).onWay ⟨lane, hholds _ lane hf⟩,
        (habove join hjoin his).outer⟩

/-- A live path that has arrived is merged: the join takes its place on the way of those below. -/
theorem Levels.merge (hpd : Solution (CfgEdge ctx.kernel ctx.registry ctx.warpSize) ctx.nInsts pd)
    {f : SimtFrame} {fs fs' : List SimtFrame} {arrived : LaneMask}
    (h : Levels ctx pd exited (f :: fs)) (hlive : ∃ lane, f.holds exited lane = true)
    (hmerge : mergeIntoJoin f.pc arrived fs = some fs') : Levels ctx pd exited fs' := by
  obtain ⟨above, join, below, rfl, habove, hisJoin, hpc, rfl⟩ := mergeIntoJoin_eq_some hmerge
  have hf : ∀ outer ∈ join :: below, outer.isJoin = true → FrameAbove ctx pd exited f outer := by
    cases h with
    | cons hway hpoint hfs hrest => exact fun outer houter => hfs outer (by simp_all)
  clear habove hmerge
  have hrest := h.tail
  clear h
  induction above with
  | nil =>
      cases hrest with
      | cons hway hpoint hjoins hbelow =>
          refine .cons (fun lane _ => ?_) hpoint (fun outer houter hisOuter => ?_) hbelow
          · -- the join's own point is the exit, or an outer join on the arrived path's way
            rcases hpoint with hexit | ⟨outer, houter, hisOuter, houterPc⟩
            · change nodeOf ctx.nInsts join.reconvPc ∈ pd (nodeOf ctx.nInsts join.pc)
              rw [hexit, WarpContext.exitPc, nodeOf_self]
              exact hpd.exit_mem _
            · have hway := (hf outer (by simp [houter]) hisOuter).onWay hlive
              rw [← hpc, houterPc] at hway
              exact hway
          · have houterAbove := hjoins outer houter hisOuter
            refine Above.arrive (hf outer (by simp [houter]) hisOuter) hlive
              ⟨False.elim, houterAbove.outer⟩ ?_
            change nodeOf ctx.nInsts join.pc = _
            rw [hpc]
  | cons g above ih =>
      cases hrest with
      | cons hway hpoint hjoins hbelow =>
          refine .cons hway ?_ ?_ (ih hbelow)
          · rcases hpoint with hexit | ⟨outer, houter, hisOuter, houterPc⟩
            · exact .inl hexit
            · refine .inr ?_
              rcases List.mem_append.mp houter with hmem | hmem
              · exact ⟨outer, by simp [hmem], hisOuter, houterPc⟩
              · rcases List.mem_cons.mp hmem with rfl | hmem
                · exact ⟨_, List.mem_append_right _ List.mem_cons_self, hisOuter, houterPc⟩
                · exact ⟨outer, by simp [hmem], hisOuter, houterPc⟩
          · intro outer houter hisOuter
            rcases List.mem_append.mp houter with hmem | hmem
            · exact hjoins outer (by simp [hmem]) hisOuter
            · rcases List.mem_cons.mp hmem with rfl | hmem
              · exact hjoins join (by simp) hisJoin
              · exact hjoins outer (by simp [hmem]) hisOuter

/-- The path on top, with a program counter it has not to be merged at, is where no join below
waits. -/
theorem Levels.pc_ne {f : SimtFrame} {fs : List SimtFrame} (h : Levels ctx pd exited (f :: fs))
    (hlive : ∃ lane, f.holds exited lane = true) (hpc : 0 ≤ f.pc) (hlt : f.pc.toNat < ctx.nInsts)
    (hne : f.pc ≠ f.reconvPc) :
    ∀ join ∈ fs, join.isJoin = true → nodeOf ctx.nInsts join.pc ≠ nodeOf ctx.nInsts f.pc := by
  cases h with
  | cons hway hpoint habove hrest =>
      intro join hjoin hisJoin
      obtain ⟨lane, hlane⟩ := hlive
      refine Above.ne (habove join hjoin hisJoin) (hway lane hlane) fun heq => hne ?_
      exact (nodeOf_inj hpc hlt heq.symm).symm

end Keep

/-! ### Issuing -/

section Issuing

variable {ctx : WarpContext} {pd : Nat → Set Nat} {exited : LaneMask} {pc reconvPc : Int}
  {active : LaneMask} {rest : List SimtFrame}

/-- The path moves on along an edge. -/
theorem Levels.move (hpd : Solution (CfgEdge ctx.kernel ctx.registry ctx.warpSize) ctx.nInsts pd)
    (h : Levels ctx pd exited ({ pc := pc, active := active, reconvPc := reconvPc } :: rest))
    (hlive : ∃ lane, SimtFrame.holds exited lane { pc := pc, active := active } = true)
    (hne : ∀ join ∈ rest, join.isJoin = true → nodeOf ctx.nInsts join.pc ≠ nodeOf ctx.nInsts pc)
    (hreconv : nodeOf ctx.nInsts reconvPc ≠ nodeOf ctx.nInsts pc) {pc' : Int}
    (hleads : Leads ctx pc pc') {active' exited' : LaneMask}
    (hmono : ∀ lane, exited.has lane = true → exited'.has lane = true) :
    Levels ctx pd exited'
      ({ pc := pc', active := active', reconvPc := reconvPc } :: rest) := by
  cases h with
  | cons hway hpoint habove hrest =>
      obtain ⟨lane, hlane⟩ := hlive
      refine .cons (fun _ _ => ?_) hpoint (fun join hjoin hisJoin => ?_) (hrest.mono hmono)
      · exact hpd.leads hleads (hway lane hlane) hreconv
      · exact Above.step hpd (habove join hjoin hisJoin) (fun _ => ⟨lane, hlane⟩) hleads
          (hne join hjoin hisJoin)

/-- The path splits at its immediate post-dominator. -/
theorem Levels.split (hpd : Solution (CfgEdge ctx.kernel ctx.registry ctx.warpSize) ctx.nInsts pd)
    (h : Levels ctx pd exited ({ pc := pc, active := active, reconvPc := reconvPc } :: rest))
    (hlive : ∃ lane, SimtFrame.holds exited lane { pc := pc, active := active } = true)
    (hne : ∀ join ∈ rest, join.isJoin = true → nodeOf ctx.nInsts join.pc ≠ nodeOf ctx.nInsts pc)
    {split : PendingSplit}
    (himm : Immediate pd (nodeOf ctx.nInsts pc) (nodeOf ctx.nInsts split.reconvPc))
    (htaken : Leads ctx pc split.targetPc) (hfall : Leads ctx pc (pc + 1)) {exited' : LaneMask}
    (hmono : ∀ lane, exited.has lane = true → exited'.has lane = true) :
    Levels ctx pd exited' (splitFrames ctx split pc reconvPc ++ rest) := by
  cases h with
  | cons hway hpoint habove hrest =>
      obtain ⟨lane, hlane⟩ := hlive
      have harm : ∀ {pc' : Int} {m : LaneMask}, Leads ctx pc pc' →
          ∀ join ∈ rest, join.isJoin = true → FrameAbove ctx pd exited'
            { pc := pc', active := m, reconvPc := split.reconvPc } join := by
        intro pc' m hleads join hjoin hisJoin
        exact Above.branch hpd himm ((habove join hjoin hisJoin).onWay ⟨lane, hlane⟩)
          (hne join hjoin hisJoin) hleads
      have hjoinLevel : Levels ctx pd exited'
          ({ pc := split.reconvPc, active := { width := ctx.warpSize, bitsLo := 0 },
             reconvPc := reconvPc, isJoin := true } :: rest) := by
        have hempty : ∀ lane, ¬ SimtFrame.holds exited' lane
            { pc := split.reconvPc, active := { width := ctx.warpSize, bitsLo := 0 } } = true := by
          intro lane
          simp [SimtFrame.holds, LaneMask.has]
        refine .cons (fun lane hlane => absurd hlane (hempty lane)) hpoint
          (fun join hjoin hisJoin => ?_) (hrest.mono hmono)
        refine ⟨fun hruns => ?_, (habove join hjoin hisJoin).outer⟩
        obtain ⟨lane, hlane⟩ := hruns
        exact absurd hlane (hempty lane)
      have hway' : ∀ {pc' : Int}, Leads ctx pc pc' →
          nodeOf ctx.nInsts split.reconvPc ∈ pd (nodeOf ctx.nInsts pc') :=
        fun hleads => hpd.leads hleads himm.mem himm.ne
      refine .cons (fun _ _ => hway' htaken)
        (.inr ⟨_, List.mem_cons_of_mem _ List.mem_cons_self, rfl, rfl⟩) ?_
        (.cons (fun _ _ => hway' hfall) (.inr ⟨_, List.mem_cons_self, rfl, rfl⟩) ?_ hjoinLevel)
      · intro join hjoin hisJoin
        rcases List.mem_cons.mp hjoin with rfl | hjoin
        · cases hisJoin
        rcases List.mem_cons.mp hjoin with rfl | hjoin
        · exact ⟨fun _ => hway' htaken, .inl rfl⟩
        · exact harm htaken join hjoin hisJoin
      · intro join hjoin hisJoin
        rcases List.mem_cons.mp hjoin with rfl | hjoin
        · exact ⟨fun _ => hway' hfall, .inl rfl⟩
        · exact harm hfall join hjoin hisJoin

end Issuing

/-! ### The join that is executed too early -/

/-- A join that waits where it is itself to be merged is the next to run: what lies above it has no
live lane or has arrived there too. -/
def InnerJoinDue (ctx : WarpContext) (exited : LaneMask) (fs : List SimtFrame) : Prop :=
  ∃ above join below, fs = above ++ join :: below ∧ join.isJoin = true
    ∧ join.pc = join.reconvPc ∧ join.pc < ctx.exitPc
    ∧ (∀ f ∈ above, (∀ lane, f.holds exited lane = false)
        ∨ f.isJoin = false ∧ f.pc = f.reconvPc ∧ f.pc = join.pc)
    ∧ ∃ f ∈ join :: above, ∃ lane, f.holds exited lane = true

section Due

variable {ctx : WarpContext} {initial exited : LaneMask}

/-- The merged frame of an arrival holds what arrived. -/
theorem holds_merged {f join : SimtFrame} {lane : Nat} (hws : ctx.warpSize ≤ 32)
    (hwidth : exited.width = ctx.warpSize) (hf : f.active.Fits ctx.warpSize) :
    SimtFrame.holds exited lane
        { join with active := laneMaskOrSameWidth join.active (f.refresh exited).active }
      = (join.holds exited lane || f.holds exited lane) := by
  simp only [SimtFrame.holds, has_laneMaskOrSameWidth, has_refresh hws hwidth hf]
  cases join.active.has lane <;> cases f.active.has lane <;> cases exited.has lane <;> rfl

theorem InnerJoinDue.pop {f : SimtFrame} {fs : List SimtFrame}
    (hdead : ∀ lane, f.holds exited lane = false) (h : InnerJoinDue ctx exited fs) :
    InnerJoinDue ctx exited (f :: fs) := by
  obtain ⟨above, join, below, rfl, hjoin, hpc, hlt, habove, g, hg, hlive⟩ := h
  refine ⟨f :: above, join, below, rfl, hjoin, hpc, hlt, fun k hk => ?_, g, ?_, hlive⟩
  · rcases List.mem_cons.mp hk with rfl | hk
    · exact .inl hdead
    · exact habove k hk
  · rcases List.mem_cons.mp hg with rfl | hg
    · exact List.mem_cons_self
    · exact List.mem_cons_of_mem _ (List.mem_cons_of_mem _ hg)

theorem InnerJoinDue.merge (hws : ctx.warpSize ≤ 32) (hwidth : exited.width = ctx.warpSize)
    {f : SimtFrame} {fs fs' : List SimtFrame} (hinv : StackInv ctx initial exited (f :: fs))
    (hlive : laneMaskEmpty (f.refresh exited).active = false) (hpath : f.isJoin = false)
    (hpc : f.pc = f.reconvPc)
    (hmerge : mergeIntoJoin f.pc (f.refresh exited).active fs = some fs')
    (h : InnerJoinDue ctx exited fs') : InnerJoinDue ctx exited (f :: fs) := by
  have hf := hinv.framesFit f (by simp)
  obtain ⟨lane, hlane⟩ := (refresh_nonempty_iff hws hwidth hf).mp hlive
  have hne := (LaneMask.lanes_nonempty_iff.mpr hlive).mono lanes_refresh_subset
  obtain ⟨lanes, -, -, hbelow⟩ := hinv.nested.path_below hpath hne
  rw [hpc] at hmerge
  obtain ⟨paths, join, below, rfl, hpaths, hisJoin, hjoinPc, rfl⟩ := hbelow.nearest hmerge
  obtain ⟨above, due, below', heq, hdue, hduePc, hlt, habove, -⟩ := h
  rcases append_join_cases hpaths hdue heq with ⟨rfl, rfl, rfl⟩ | ⟨mid, rfl, rfl⟩
  · refine ⟨f :: above, join, below', rfl, hisJoin, hduePc, hlt, fun k hk => ?_, f, by simp, lane,
      hlane⟩
    rcases List.mem_cons.mp hk with rfl | hk
    · exact .inr ⟨hpath, hpc, hpc.trans hjoinPc.symm⟩
    · exact habove k hk
  · -- the merged join is live, so no join below it is due
    rcases habove _ (List.mem_append_right _ List.mem_cons_self) with hdead | ⟨hnot, -⟩
    · have hholds := hdead lane
      rw [holds_merged hws hwidth hf, hlane, Bool.or_true] at hholds
      cases hholds
    · rw [hisJoin] at hnot
      cases hnot

/-- Normalization that stops at a join with its own point as program counter found it due. -/
theorem innerJoinDue_of_ready (hws : ctx.warpSize ≤ 32) {w : WarpState}
    (hinv : WarpInv ctx initial w) {top : SimtFrame} {rest : List SimtFrame} {joined : Bool}
    (h : normalizeFrames w.exited w.simtStack.length w.simtStack = .ready top rest joined)
    (hpc : top.pc = top.reconvPc) (hlt : top.pc < ctx.exitPc) :
    InnerJoinDue ctx w.exited w.simtStack := by
  have hwidth := hinv.exitedFits.width
  have hstop := normalizeFrames_stopsAt
    (P := fun fs => StackInv ctx initial w.exited fs
      ∧ (InnerJoinDue ctx w.exited fs → InnerJoinDue ctx w.exited w.simtStack))
    (fun f fs hfs hempty => ⟨hfs.1.pop hws hwidth hempty, fun hdue => hfs.2
      (hdue.pop ((refresh_empty_iff hws hwidth (hfs.1.framesFit f (by simp))).mp hempty))⟩)
    (fun f fs fs' hfs hlive hpath hpc hmerge =>
      ⟨hfs.1.merge hws hwidth hlive hpath hpc hmerge,
        fun hdue => hfs.2 (hdue.merge hws hwidth hfs.1 hlive hpath hpc hmerge)⟩)
    (le_refl w.simtStack.length) ⟨hinv.stack, id⟩
  rw [h] at hstop
  obtain ⟨f, ⟨hfs, hback⟩, rfl, -, hlive, hnot⟩ := hstop
  have hjoin : f.isJoin = true := by
    by_contra hcon
    exact hnot (by simpa using hcon) hpc
  have hf := (refresh_nonempty_iff hws hwidth (hfs.framesFit f (by simp))).mp hlive
  exact hback ⟨[], f, rest, rfl, hjoin, hpc, hlt, by simp, f, by simp, hf⟩

end Due

/-! ### Following one split -/

/-- The lanes of a split that reconverges at `r`: they are in the frames above its join and in the
join, and those frames hold no others, until all of them have returned. -/
inductive Follows (lanes : Nat → Prop) (r : Int) (exited : LaneMask) (fs : List SimtFrame) :
    Prop where
  | waiting (above below : List SimtFrame) (join : SimtFrame) (hfs : fs = above ++ join :: below)
      (hjoin : join.isJoin = true) (hpc : join.pc = r)
      (hin : ∀ f ∈ above ++ [join], ∀ lane, f.holds exited lane = true → lanes lane)
      (hout : ∀ lane, lanes lane → holders exited lane below = 0) : Follows lanes r exited fs
  | returned (hall : ∀ lane, lanes lane → exited.has lane = true) : Follows lanes r exited fs

section Follow

variable {ctx : WarpContext} {initial exited : LaneMask} {lanes : Nat → Prop} {r : Int}

theorem Follows.pop (hlanes : ∀ lane, lanes lane → initial.has lane = true) {f : SimtFrame}
    {fs : List SimtFrame} (hinv : StackInv ctx initial exited (f :: fs))
    (hdead : ∀ lane, f.holds exited lane = false) (h : Follows lanes r exited (f :: fs)) :
    Follows lanes r exited fs := by
  cases h with
  | returned hall => exact .returned hall
  | waiting above below join hfs hjoin hpc hin hout =>
      cases above with
      | nil =>
          rw [List.nil_append, List.cons.injEq] at hfs
          obtain ⟨rfl, rfl⟩ := hfs
          refine .returned fun lane hlane => ?_
          have hcount := hinv.partition lane
          rw [holders_cons, hdead lane, hout lane hlane, hlanes lane hlane] at hcount
          by_contra hcon
          simp [hcon] at hcount
      | cons g above =>
          rw [List.cons_append, List.cons.injEq] at hfs
          obtain ⟨rfl, rfl⟩ := hfs
          exact .waiting _ _ _ rfl hjoin hpc (fun k hk => hin k (by simp_all)) hout

theorem Follows.merge (hws : ctx.warpSize ≤ 32) (hwidth : exited.width = ctx.warpSize)
    {f : SimtFrame} {fs fs' : List SimtFrame} (hinv : StackInv ctx initial exited (f :: fs))
    (hlive : laneMaskEmpty (f.refresh exited).active = false) (hpath : f.isJoin = false)
    (hpc : f.pc = f.reconvPc)
    (hmerge : mergeIntoJoin f.pc (f.refresh exited).active fs = some fs')
    (h : Follows lanes r exited (f :: fs)) : Follows lanes r exited fs' := by
  cases h with
  | returned hall => exact .returned hall
  | waiting above below join hfs hjoin hpcJoin hin hout =>
      have hf := hinv.framesFit f (by simp)
      have hne := (LaneMask.lanes_nonempty_iff.mpr hlive).mono lanes_refresh_subset
      obtain ⟨path, -, -, hbelow⟩ := hinv.nested.path_below hpath hne
      rw [hpc] at hmerge
      obtain ⟨paths, near, below', rfl, hpaths, hisJoin, -, rfl⟩ := hbelow.nearest hmerge
      cases above with
      | nil =>
          rw [List.nil_append, List.cons.injEq] at hfs
          rw [hfs.1, hjoin] at hpath
          cases hpath
      | cons g above =>
          rw [List.cons_append, List.cons.injEq] at hfs
          obtain ⟨rfl, heq⟩ := hfs
          have harrived : ∀ k ∈ above ++ [join], ∀ lane,
              SimtFrame.holds exited lane
                { k with active := laneMaskOrSameWidth k.active (f.refresh exited).active } = true →
              lanes lane := by
            intro k hk lane hholds
            rw [holds_merged hws hwidth hf, Bool.or_eq_true] at hholds
            rcases hholds with hholds | hholds
            · exact hin k (by simp_all) lane hholds
            · exact hin f (by simp) lane hholds
          rcases append_join_cases hpaths hjoin heq with ⟨rfl, rfl, rfl⟩ | ⟨mid, rfl, rfl⟩
          · refine .waiting _ _ _ rfl hjoin hpcJoin (fun k hk => ?_) hout
            rcases List.mem_append.mp hk with hk | hk
            · exact hin k (by simp [hk])
            · rw [List.mem_singleton.mp hk]
              exact harrived join (by simp)
          · refine .waiting (paths ++ _ :: mid) _ _ (by simp; rfl) hjoin hpcJoin
              (fun k hk => ?_) hout
            rcases List.mem_append.mp hk with hk | hk
            · rcases List.mem_append.mp hk with hk | hk
              · exact hin k (by simp [hk])
              · rcases List.mem_cons.mp hk with rfl | hk
                · exact harrived near (by simp)
                · exact hin k (by simp [hk])
            · exact hin k (List.mem_append_right _ hk)

/-- The path on top is replaced by frames that hold no other lanes. -/
theorem Follows.replace {exited' : LaneMask} {top : SimtFrame} {rest frames : List SimtFrame}
    (h : Follows lanes r exited (top :: rest)) (hpath : top.isJoin = false)
    (hmono : ∀ lane, exited.has lane = true → exited'.has lane = true)
    (hframes : ∀ f ∈ frames, ∀ lane, f.holds exited' lane = true →
      top.holds exited lane = true) : Follows lanes r exited' (frames ++ rest) := by
  cases h with
  | returned hall => exact .returned fun lane hlane => hmono lane (hall lane hlane)
  | waiting above below join hfs hjoin hpc hin hout =>
      cases above with
      | nil =>
          rw [List.nil_append, List.cons.injEq] at hfs
          rw [hfs.1, hjoin] at hpath
          cases hpath
      | cons g above =>
          rw [List.cons_append, List.cons.injEq] at hfs
          obtain ⟨rfl, rfl⟩ := hfs
          refine .waiting (frames ++ above) below join (by simp) hjoin hpc
            (fun f hf lane hholds => ?_)
            (fun lane hlane => ?_)
          · rw [List.append_assoc] at hf
            rcases List.mem_append.mp hf with hf | hf
            · exact hin top (by simp) lane (hframes f hf lane hholds)
            · exact hin f (List.mem_cons_of_mem _ hf) lane (holds_of_holds (hmono lane) hholds)
          · have hle := holders_le (hmono lane) below
            rw [hout lane hlane] at hle
            omega

end Follow

end ProtoGpu

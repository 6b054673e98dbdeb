import ProtoGpu.Simt.WarpScheduler
import Mathlib.Tactic.SplitIfs

/-!
# No live warp is passed over

A scheduler that picks no warp has seen every warp done: the in-order one because the warps before
its cursor were done already, the round-robin one because its turns pass through all of them. The
latter needs `next_ + k` not to wrap, which holds up to `2 ^ 31` warps.
-/

namespace ProtoGpu

variable {warpCount : BitVec 32} {isWarpDone : BitVec 32 → Bool}

theorem firstNotDone_some {todo : Nat} {i j : BitVec 32}
    (h : firstNotDone isWarpDone todo i = some j) (hlt : i.toNat + todo < 2 ^ 32) :
    i.toNat ≤ j.toNat ∧ j.toNat < i.toNat + todo ∧ isWarpDone j = false
      ∧ ∀ k : BitVec 32, i.toNat ≤ k.toNat → k.toNat < j.toNat → isWarpDone k = true := by
  induction todo generalizing i with
  | zero => cases h
  | succ todo ih =>
      rw [firstNotDone] at h
      split at h
      next hdone =>
        have hi : (i + 1).toNat = i.toNat + 1 := by
          rw [BitVec.toNat_add]
          exact Nat.mod_eq_of_lt (by simp; omega)
        obtain ⟨hle, hbound, hlive, hbetween⟩ := ih h (by omega)
        refine ⟨by omega, by omega, hlive, fun k hk hkj => ?_⟩
        rcases Nat.eq_or_lt_of_le hk with heq | hgt
        · rw [← BitVec.eq_of_toNat_eq heq]
          exact hdone
        · exact hbetween k (by omega) hkj
      next hlive =>
        obtain rfl := Option.some.inj h
        exact ⟨le_refl _, by omega, Bool.eq_false_of_not_eq_true hlive, fun k hk hkj => by omega⟩

theorem firstNotDone_none {todo : Nat} {i : BitVec 32} (h : firstNotDone isWarpDone todo i = none)
    (hlt : i.toNat + todo < 2 ^ 32) {k : BitVec 32} (hle : i.toNat ≤ k.toNat)
    (hk : k.toNat < i.toNat + todo) : isWarpDone k = true := by
  induction todo generalizing i with
  | zero => omega
  | succ todo ih =>
      rw [firstNotDone] at h
      split at h
      next hdone =>
        have hi : (i + 1).toNat = i.toNat + 1 := by
          rw [BitVec.toNat_add]
          exact Nat.mod_eq_of_lt (by simp; omega)
        rcases Nat.eq_or_lt_of_le hle with heq | hgt
        · rw [← BitVec.eq_of_toNat_eq heq]
          exact hdone
        · exact ih h (by omega) (by omega) (by omega)
      · cases h

theorem pickFrom_some {next : BitVec 32} {todo : Nat} {k w : BitVec 32}
    (h : RoundRobinInterleaveStep.pickFrom next warpCount isWarpDone todo k = some w) :
    isWarpDone w = false ∧ ∃ k, w = (next + k) % warpCount := by
  induction todo generalizing k with
  | zero => cases h
  | succ todo ih =>
      rw [RoundRobinInterleaveStep.pickFrom] at h
      split at h
      · exact ih h
      next hlive =>
        obtain rfl := Option.some.inj h
        exact ⟨Bool.eq_false_of_not_eq_true hlive, k, rfl⟩

theorem pickFrom_none {next : BitVec 32} {todo : Nat} {k : BitVec 32}
    (h : RoundRobinInterleaveStep.pickFrom next warpCount isWarpDone todo k = none)
    (hlt : k.toNat + todo < 2 ^ 32) {turn : BitVec 32} (hle : k.toNat ≤ turn.toNat)
    (hturn : turn.toNat < k.toNat + todo) : isWarpDone ((next + turn) % warpCount) = true := by
  induction todo generalizing k with
  | zero => omega
  | succ todo ih =>
      rw [RoundRobinInterleaveStep.pickFrom] at h
      split at h
      next hdone =>
        have hk : (k + 1).toNat = k.toNat + 1 := by
          rw [BitVec.toNat_add]
          exact Nat.mod_eq_of_lt (by simp; omega)
        rcases Nat.eq_or_lt_of_le hle with heq | hgt
        · rw [← BitVec.eq_of_toNat_eq heq]
          exact hdone
        · exact ih h (by omega) (by omega) (by omega)
      · cases h

theorem turn_toNat (warpCount next : BitVec 32) (n : Nat) (hn : next.toNat + n < 2 ^ 32) :
    (BitVec.ofNat 32 n).toNat = n
      ∧ ((next + BitVec.ofNat 32 n) % warpCount).toNat = (next.toNat + n) % warpCount.toNat := by
  have hfits : (BitVec.ofNat 32 n).toNat = n := by
    rw [BitVec.toNat_ofNat, Nat.mod_eq_of_lt (by omega)]
  refine ⟨hfits, ?_⟩
  rw [BitVec.toNat_umod, BitVec.toNat_add, hfits, Nat.mod_eq_of_lt hn]

/-- Up to `2 ^ 31` warps, some turn of the round-robin loop comes to each of them. -/
theorem exists_turn {next w : BitVec 32} (hsmall : warpCount.toNat ≤ 2 ^ 31)
    (hnext : next.toNat < warpCount.toNat) (hw : w.toNat < warpCount.toNat) :
    ∃ turn : BitVec 32, turn.toNat < warpCount.toNat ∧ (next + turn) % warpCount = w := by
  rcases Nat.lt_or_ge w.toNat next.toNat with hlt | hge
  · obtain ⟨hturn, hidx⟩ := turn_toNat warpCount next
      (w.toNat + warpCount.toNat - next.toNat) (by omega)
    refine ⟨_, by omega, BitVec.eq_of_toNat_eq (hidx.trans ?_)⟩
    rw [Nat.add_sub_cancel' (by omega), Nat.add_mod_right, Nat.mod_eq_of_lt hw]
  · obtain ⟨hturn, hidx⟩ := turn_toNat warpCount next (w.toNat - next.toNat) (by omega)
    refine ⟨_, by omega, BitVec.eq_of_toNat_eq (hidx.trans ?_)⟩
    rw [Nat.add_sub_cancel' hge, Nat.mod_eq_of_lt hw]

/-- What the cursor of a scheduler says about the warps. -/
def WarpScheduler.Sound (s : WarpScheduler) (warpCount : BitVec 32)
    (isWarpDone : BitVec 32 → Bool) : Prop :=
  match s.kind with
  | .inOrderRunToCompletion => ∀ w, w.toNat < s.cursor.toNat → isWarpDone w = true
  | .roundRobinInterleaveStep => warpCount ≠ 0 → s.cursor.toNat < warpCount.toNat

theorem WarpScheduler.Sound.mono {s : WarpScheduler} {isWarpDone' : BitVec 32 → Bool}
    (h : s.Sound warpCount isWarpDone)
    (hmono : ∀ w, isWarpDone w = true → isWarpDone' w = true) : s.Sound warpCount isWarpDone' := by
  unfold WarpScheduler.Sound at h ⊢
  split at h
  · exact fun w hw => hmono w (h w hw)
  · exact h

theorem WarpScheduler.sound_onCtaStart (kind : WarpSchedulerKind) :
    (onCtaStart kind).Sound warpCount isWarpDone := by
  cases kind with
  | inOrderRunToCompletion => exact fun w hw => absurd hw (Nat.not_lt_zero _)
  | roundRobinInterleaveStep =>
      intro hne
      exact BitVec.pos_iff_ne_zero warpCount |>.mpr hne

namespace InOrderRunToCompletion

theorem pickNext_some {current w : BitVec 32}
    (hbefore : ∀ w : BitVec 32, w.toNat < current.toNat → isWarpDone w = true)
    (hpick : (pickNext current warpCount isWarpDone).1 = some w) :
    w.toNat < warpCount.toNat ∧ isWarpDone w = false
      ∧ ∀ v : BitVec 32, v.toNat < (pickNext current warpCount isWarpDone).2.toNat →
        isWarpDone v = true := by
  rw [pickNext] at hpick ⊢
  split_ifs at hpick ⊢ with hzero hcurrent
  · obtain rfl := Option.some.inj hpick
    rw [Bool.and_eq_true, decide_eq_true_eq, Bool.not_eq_true'] at hcurrent
    exact ⟨hcurrent.1, hcurrent.2, hbefore⟩
  · cases hfirst : firstNotDone isWarpDone (warpCount.toNat - current.toNat) current with
    | none =>
        rw [hfirst] at hpick
        cases hpick
    | some i =>
        simp only [hfirst, Option.some.injEq] at hpick ⊢
        subst hpick
        have hbound : current.toNat + (warpCount.toNat - current.toNat) < 2 ^ 32 := by
          have := warpCount.isLt
          have := current.isLt
          omega
        obtain ⟨hle, hlt, hlive, hbetween⟩ := firstNotDone_some hfirst hbound
        refine ⟨by omega, hlive, fun v hv => ?_⟩
        rcases Nat.lt_or_ge v.toNat current.toNat with hearly | hlate
        · exact hbefore v hearly
        · exact hbetween v hlate hv

theorem pickNext_none {current w : BitVec 32}
    (hbefore : ∀ w : BitVec 32, w.toNat < current.toNat → isWarpDone w = true)
    (hpick : (pickNext current warpCount isWarpDone).1 = none) (hw : w.toNat < warpCount.toNat) :
    isWarpDone w = true := by
  have hne : warpCount ≠ 0 := by
    rintro rfl
    exact absurd hw (Nat.not_lt_zero _)
  rw [pickNext, if_neg hne] at hpick
  split_ifs at hpick
  cases hfirst : firstNotDone isWarpDone (warpCount.toNat - current.toNat) current with
  | some i =>
      rw [hfirst] at hpick
      cases hpick
  | none =>
      rcases Nat.lt_or_ge w.toNat current.toNat with hearly | hlate
      · exact hbefore w hearly
      · have := warpCount.isLt
        exact firstNotDone_none hfirst (by omega) hlate (by omega)

theorem pickNext_cursor {current w : BitVec 32}
    (hpick : (pickNext current warpCount isWarpDone).1 = some w) :
    (pickNext current warpCount isWarpDone).2 = w := by
  rw [pickNext] at hpick ⊢
  split_ifs at hpick ⊢
  · exact Option.some.inj hpick
  · cases hfirst : firstNotDone isWarpDone (warpCount.toNat - current.toNat) current with
    | none =>
        rw [hfirst] at hpick
        cases hpick
    | some i =>
        rw [hfirst] at hpick
        exact Option.some.inj hpick

end InOrderRunToCompletion

namespace RoundRobinInterleaveStep

theorem pickNext_some {next w : BitVec 32}
    (hpick : (pickNext next warpCount isWarpDone).1 = some w) :
    w.toNat < warpCount.toNat ∧ isWarpDone w = false
      ∧ (pickNext next warpCount isWarpDone).2.toNat < warpCount.toNat := by
  rw [pickNext] at hpick ⊢
  split_ifs at hpick ⊢ with hzero
  have hpos : 0 < warpCount := (BitVec.pos_iff_ne_zero warpCount).mpr hzero
  cases hfrom : pickFrom next warpCount isWarpDone warpCount.toNat 0 with
  | none =>
      rw [hfrom] at hpick
      cases hpick
  | some idx =>
      simp only [hfrom, Option.some.injEq] at hpick ⊢
      subst hpick
      obtain ⟨hlive, k, rfl⟩ := pickFrom_some hfrom
      exact ⟨BitVec.umod_lt _ hpos, hlive, BitVec.umod_lt _ hpos⟩

theorem pickNext_none {next w : BitVec 32} (hsmall : warpCount.toNat ≤ 2 ^ 31)
    (hnext : next.toNat < warpCount.toNat)
    (hpick : (pickNext next warpCount isWarpDone).1 = none) (hw : w.toNat < warpCount.toNat) :
    isWarpDone w = true := by
  have hne : warpCount ≠ 0 := by
    rintro rfl
    exact absurd hw (Nat.not_lt_zero _)
  rw [pickNext, if_neg hne] at hpick
  cases hfrom : pickFrom next warpCount isWarpDone warpCount.toNat 0 with
  | some idx =>
      rw [hfrom] at hpick
      cases hpick
  | none =>
      obtain ⟨turn, hturn, hidx⟩ := exists_turn hsmall hnext hw
      rw [← hidx]
      exact pickFrom_none hfrom (by simp; omega) (Nat.zero_le _) (by simpa using hturn)

/-- A live warp at the cursor is picked. -/
theorem pickNext_cursor {next : BitVec 32} (hnext : next.toNat < warpCount.toNat)
    (hlive : isWarpDone next = false) :
    pickNext next warpCount isWarpDone = (some next, (next + 1) % warpCount) := by
  have hne : warpCount ≠ 0 := by
    rintro rfl
    exact absurd hnext (Nat.not_lt_zero _)
  have hidx : (next + 0) % warpCount = next := by
    rw [add_zero]
    exact BitVec.eq_of_toNat_eq (Nat.mod_eq_of_lt hnext)
  obtain ⟨todo, htodo⟩ := Nat.exists_eq_succ_of_ne_zero (Nat.ne_zero_of_lt hnext)
  have hfrom : pickFrom next warpCount isWarpDone warpCount.toNat 0 = some next := by
    rw [htodo, pickFrom, hidx, hlive]
    rfl
  rw [pickNext, if_neg hne, hfrom]

end RoundRobinInterleaveStep

/-- A picked warp is live, and the cursor stays sound. -/
theorem WarpScheduler.pickNext_some {s : WarpScheduler} {w : BitVec 32}
    (hsound : s.Sound warpCount isWarpDone) (hpick : (s.pickNext warpCount isWarpDone).1 = some w) :
    w.toNat < warpCount.toNat ∧ isWarpDone w = false
      ∧ (s.pickNext warpCount isWarpDone).2.Sound warpCount isWarpDone := by
  obtain ⟨kind, cursor⟩ := s
  cases kind with
  | inOrderRunToCompletion => exact InOrderRunToCompletion.pickNext_some hsound hpick
  | roundRobinInterleaveStep =>
      obtain ⟨hlt, hlive, hcursor⟩ := RoundRobinInterleaveStep.pickNext_some hpick
      exact ⟨hlt, hlive, fun _ => hcursor⟩

/-- **No warp picked, no warp left.** -/
theorem WarpScheduler.pickNext_none {s : WarpScheduler}
    (hsound : s.Sound warpCount isWarpDone) (hpick : (s.pickNext warpCount isWarpDone).1 = none)
    (hkind : s.kind = .inOrderRunToCompletion ∨ warpCount.toNat ≤ 2 ^ 31) {w : BitVec 32}
    (hw : w.toNat < warpCount.toNat) : isWarpDone w = true := by
  obtain ⟨kind, cursor⟩ := s
  cases kind with
  | inOrderRunToCompletion => exact InOrderRunToCompletion.pickNext_none hsound hpick hw
  | roundRobinInterleaveStep =>
      have hsmall : warpCount.toNat ≤ 2 ^ 31 := hkind.resolve_left (by simp)
      have hne : warpCount ≠ 0 := by
        rintro rfl
        exact absurd hw (Nat.not_lt_zero _)
      exact RoundRobinInterleaveStep.pickNext_none hsmall (hsound hne) hpick hw

/-- In order, the first live warp is picked. -/
theorem WarpScheduler.pickNext_first {s : WarpScheduler} {w : BitVec 32}
    (hkind : s.kind = .inOrderRunToCompletion) (hsound : s.Sound warpCount isWarpDone)
    (hw : w.toNat < warpCount.toNat) (hbefore : ∀ v : BitVec 32, v.toNat < w.toNat →
      isWarpDone v = true) (hlive : isWarpDone w = false) :
    ∃ s', s.pickNext warpCount isWarpDone = (some w, s') ∧ s'.kind = .inOrderRunToCompletion
      ∧ s'.Sound warpCount isWarpDone := by
  cases hpick : (s.pickNext warpCount isWarpDone).1 with
  | none =>
      have hdone := pickNext_none hsound hpick (.inl hkind) hw
      rw [hlive] at hdone
      cases hdone
  | some v =>
      obtain ⟨-, hvlive, hsound'⟩ := pickNext_some hsound hpick
      obtain ⟨kind, current⟩ := s
      obtain rfl : kind = .inOrderRunToCompletion := hkind
      have hcursor : ((WarpScheduler.mk .inOrderRunToCompletion current).pickNext warpCount
          isWarpDone).2.cursor = v := InOrderRunToCompletion.pickNext_cursor hpick
      have hsame : v = w := by
        rcases Nat.lt_trichotomy v.toNat w.toNat with hlt | heq | hgt
        · rw [hbefore v hlt] at hvlive
          cases hvlive
        · exact BitVec.eq_of_toNat_eq heq
        · have hdone := hsound' w (hcursor.symm ▸ hgt)
          rw [hlive] at hdone
          cases hdone
      exact ⟨_, Prod.ext (hpick.trans (congrArg some hsame)) rfl, rfl, hsound'⟩

end ProtoGpu

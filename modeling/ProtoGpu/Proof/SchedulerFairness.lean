import ProtoGpu.Proof.WarpScheduling

/-!
# No warp starves

The picks of a CTA, when warps only ever become done between them. What makes round robin fair is
the distance from the cursor to a live warp, in the order of the turns: each pick of another warp
shortens it. Beyond `2 ^ 31` warps the 32-bit `next_ + k` wraps, and with the cursor at the last
warp the turns pass over the warp before it.
-/

namespace ProtoGpu

namespace WarpScheduler

/-- The scheduler before pick `n`, where pick `n` sees the warps as `isWarpDone n` has them. -/
def beforePick (kind : WarpSchedulerKind) (warpCount : BitVec 32)
    (isWarpDone : Nat → BitVec 32 → Bool) : Nat → WarpScheduler
  | 0 => onCtaStart kind
  | n + 1 => ((beforePick kind warpCount isWarpDone n).pickNext warpCount (isWarpDone n)).2

def pick (kind : WarpSchedulerKind) (warpCount : BitVec 32) (isWarpDone : Nat → BitVec 32 → Bool)
    (n : Nat) : Option (BitVec 32) :=
  ((beforePick kind warpCount isWarpDone n).pickNext warpCount (isWarpDone n)).1

/-- Only live warps are picked, there is no pick exactly when all warps are done, and round robin
comes to each warp that stays live in every `warpCount` consecutive picks. -/
structure Fair (kind : WarpSchedulerKind) (warpCount : BitVec 32)
    (isWarpDone : Nat → BitVec 32 → Bool) : Prop where
  live : ∀ n w, pick kind warpCount isWarpDone n = some w →
    w.toNat < warpCount.toNat ∧ isWarpDone n w = false
  stop : ∀ n, pick kind warpCount isWarpDone n = none ↔
    ∀ w : BitVec 32, w.toNat < warpCount.toNat → isWarpDone n w = true
  turn : kind = .roundRobinInterleaveStep → ∀ (n : Nat) (w : BitVec 32), w.toNat < warpCount.toNat →
    (∀ i < warpCount.toNat, isWarpDone (n + i) w = false) →
      ∃ i < warpCount.toNat, pick kind warpCount isWarpDone (n + i) = some w

end WarpScheduler

/-! ### The turns of round robin -/

namespace RoundRobinInterleaveStep

variable {next warpCount idx w : BitVec 32} {isWarpDone : BitVec 32 → Bool}

/-- The picked warp is the first live one in the order of the turns. -/
theorem pickFrom_first {todo : Nat} {k : BitVec 32}
    (h : pickFrom next warpCount isWarpDone todo k = some idx) (hlt : k.toNat + todo < 2 ^ 32) :
    ∃ turn : BitVec 32, turn.toNat < k.toNat + todo ∧ idx = (next + turn) % warpCount
      ∧ ∀ j : BitVec 32, k.toNat ≤ j.toNat → j.toNat < turn.toNat →
        isWarpDone ((next + j) % warpCount) = true := by
  induction todo generalizing k with
  | zero => cases h
  | succ todo ih =>
      rw [pickFrom] at h
      split at h
      next hdone =>
        have hk : (k + 1).toNat = k.toNat + 1 := by
          rw [BitVec.toNat_add]
          exact Nat.mod_eq_of_lt (by simp; omega)
        obtain ⟨turn, hturn, hidx, hbefore⟩ := ih h (by omega)
        refine ⟨turn, by omega, hidx, fun j hj hjturn => ?_⟩
        rcases Nat.eq_or_lt_of_le hj with heq | hgt
        · rw [← BitVec.eq_of_toNat_eq heq]
          exact hdone
        · exact hbefore j (by omega) hjturn
      next hlive =>
        obtain rfl := Option.some.inj h
        exact ⟨k, by omega, rfl, fun j hj hjk => absurd hjk (by omega)⟩

/-- How many turns after the cursor a warp comes. -/
def distance (warpCount next w : BitVec 32) : Nat :=
  if next.toNat ≤ w.toNat then w.toNat - next.toNat
  else w.toNat + warpCount.toNat - next.toNat

theorem distance_lt (hnext : next.toNat < warpCount.toNat) (hw : w.toNat < warpCount.toNat) :
    distance warpCount next w < warpCount.toNat := by
  unfold distance
  split <;> omega

/-- A number less than twice the modulus. -/
theorem mod_of_lt_twice {n c : Nat} (h : n < 2 * c) : n % c = if n < c then n else n - c := by
  split
  · next hlt => exact Nat.mod_eq_of_lt hlt
  · next hge =>
    rw [Nat.mod_eq_sub_mod (by omega), Nat.mod_eq_of_lt (by omega)]

theorem toNat_turn (hsmall : warpCount.toNat ≤ 2 ^ 31) (hnext : next.toNat < warpCount.toNat)
    {n : Nat} (hn : n < warpCount.toNat) :
    ((next + BitVec.ofNat 32 n) % warpCount).toNat
      = if next.toNat + n < warpCount.toNat then next.toNat + n
        else next.toNat + n - warpCount.toNat := by
  obtain ⟨-, hidx⟩ := turn_toNat warpCount next n (by omega)
  rw [hidx]
  exact mod_of_lt_twice (by omega)

/-- A pick of another warp brings the cursor closer to a live one. -/
theorem distance_pickNext (hsmall : warpCount.toNat ≤ 2 ^ 31) (hnext : next.toNat < warpCount.toNat)
    (hpick : (pickNext next warpCount isWarpDone).1 = some idx) (hw : w.toNat < warpCount.toNat)
    (hlive : isWarpDone w = false) (hne : idx ≠ w) :
    distance warpCount (pickNext next warpCount isWarpDone).2 w < distance warpCount next w := by
  have hzero : warpCount ≠ 0 := by
    rintro rfl
    exact absurd hw (Nat.not_lt_zero _)
  have hidxlt := (pickNext_some hpick).1
  rw [pickNext, if_neg hzero] at hpick ⊢
  cases hfrom : pickFrom next warpCount isWarpDone warpCount.toNat 0 with
  | none =>
      rw [hfrom] at hpick
      cases hpick
  | some picked =>
      simp only [hfrom, Option.some.injEq] at hpick ⊢
      subst hpick
      obtain ⟨turn, hturn, hidx, hbefore⟩ := pickFrom_first hfrom (by simp; omega)
      have hturn' : turn.toNat < warpCount.toNat := by simpa using hturn
      have hpicked := toNat_turn hsmall hnext hturn'
      rw [BitVec.ofNat_toNat, BitVec.setWidth_eq, ← hidx] at hpicked
      have hdist := distance_lt hnext hw
      have hcomes : (next + BitVec.ofNat 32 (distance warpCount next w)) % warpCount = w := by
        apply BitVec.eq_of_toNat_eq
        rw [toNat_turn hsmall hnext hdist]
        unfold distance
        split_ifs <;> omega
      have hfits :
          (BitVec.ofNat 32 (distance warpCount next w)).toNat = distance warpCount next w := by
        rw [BitVec.toNat_ofNat]
        exact Nat.mod_eq_of_lt (by omega)
      have hlater : turn.toNat < distance warpCount next w := by
        rcases Nat.lt_trichotomy (distance warpCount next w) turn.toNat with hlt | heq | hgt
        · have hdone := hbefore (BitVec.ofNat 32 (distance warpCount next w)) (by simp) (by omega)
          rw [hcomes, hlive] at hdone
          cases hdone
        · rw [heq, BitVec.ofNat_toNat, BitVec.setWidth_eq, ← hidx] at hcomes
          exact absurd hcomes hne
        · exact hgt
      have hsucc : (picked + 1).toNat = picked.toNat + 1 := by
        rw [BitVec.toNat_add]
        exact Nat.mod_eq_of_lt (by simp; omega)
      have hcursor : ((picked + 1) % warpCount).toNat
          = if picked.toNat + 1 < warpCount.toNat then picked.toNat + 1
            else picked.toNat + 1 - warpCount.toNat := by
        rw [BitVec.toNat_umod, hsucc]
        exact mod_of_lt_twice (by omega)
      unfold distance at hlater ⊢
      split_ifs at hpicked hcursor hlater ⊢ <;> omega

/-- With the cursor at the last of more than `2 ^ 31` warps no turn comes to the warp before it. -/
theorem turn_ne_of_wide (hwide : 2 ^ 31 < warpCount.toNat) (k : BitVec 32)
    (hk : k.toNat < warpCount.toNat) :
    ((warpCount - 1 + k) % warpCount).toNat ≠ warpCount.toNat - 2 := by
  have hcount := warpCount.isLt
  have hlast : (warpCount - 1).toNat = warpCount.toNat - 1 := by bv_omega
  rw [BitVec.toNat_umod, BitVec.toNat_add, hlast]
  rcases Nat.lt_or_ge (warpCount.toNat - 1 + k.toNat) (2 ^ 32) with hfits | hwraps
  · rw [Nat.mod_eq_of_lt hfits, mod_of_lt_twice (by omega)]
    split <;> omega
  · have hsum : (warpCount.toNat - 1 + k.toNat) % 2 ^ 32
        = warpCount.toNat - 1 + k.toNat - 2 ^ 32 := by
      rw [Nat.mod_eq_sub_mod hwraps]
      exact Nat.mod_eq_of_lt (by omega)
    rw [hsum, Nat.mod_eq_of_lt (by omega)]
    omega

end RoundRobinInterleaveStep

/-! ### A run of picks -/

namespace WarpScheduler

variable {kind : WarpSchedulerKind} {warpCount : BitVec 32} {isWarpDone : Nat → BitVec 32 → Bool}

theorem kind_beforePick (kind : WarpSchedulerKind) (warpCount : BitVec 32)
    (isWarpDone : Nat → BitVec 32 → Bool) (n : Nat) :
    (beforePick kind warpCount isWarpDone n).kind = kind := by
  induction n with
  | zero => rfl
  | succ n ih => exact ih

theorem sound_pickNext {s : WarpScheduler} {isWarpDone : BitVec 32 → Bool}
    (hsound : s.Sound warpCount isWarpDone) :
    (s.pickNext warpCount isWarpDone).2.Sound warpCount isWarpDone := by
  cases hpick : (s.pickNext warpCount isWarpDone).1 with
  | some w => exact (pickNext_some hsound hpick).2.2
  | none =>
      suffices hsame : (s.pickNext warpCount isWarpDone).2 = s by
        rw [hsame]
        exact hsound
      obtain ⟨kind, cursor⟩ := s
      cases kind with
      | inOrderRunToCompletion =>
          unfold pickNext InOrderRunToCompletion.pickNext at hpick ⊢
          dsimp only at hpick ⊢
          split_ifs at hpick ⊢
          · rfl
          · split at hpick
            · cases hpick
            · rfl
      | roundRobinInterleaveStep =>
          unfold pickNext RoundRobinInterleaveStep.pickNext at hpick ⊢
          dsimp only at hpick ⊢
          split_ifs at hpick ⊢
          · rfl
          · split at hpick
            · cases hpick
            · rfl

/-- The cursor stays sound, since warps only become done. -/
theorem sound_beforePick (kind : WarpSchedulerKind) (warpCount : BitVec 32)
    (hmono : ∀ n w, isWarpDone n w = true → isWarpDone (n + 1) w = true) (n : Nat) :
    (beforePick kind warpCount isWarpDone n).Sound warpCount (isWarpDone n) := by
  induction n with
  | zero => exact sound_onCtaStart kind
  | succ n ih => exact (sound_pickNext ih).mono (hmono n)

/-- A rank that falls until something happens falls no longer than its first value. -/
theorem exists_of_descends {happens : Nat → Prop} (rank : Nat → Nat) {n : Nat} (hrank : rank 0 < n)
    (hfall : ∀ i < n, ¬ happens i → rank (i + 1) < rank i) : ∃ i < n, happens i := by
  by_contra hnever
  push Not at hnever
  have hbound : ∀ i ≤ n, rank i + i ≤ rank 0 := by
    intro i
    induction i with
    | zero => exact fun _ => le_refl _
    | succ i ih =>
        intro hi
        have hprev := ih (by omega)
        have hstep := hfall i hi (hnever i hi)
        omega
  have := hbound n (le_refl n)
  omega

theorem distance_beforePick (hsmall : warpCount.toNat ≤ 2 ^ 31) {n : Nat} {w : BitVec 32}
    (hcursor : (beforePick .roundRobinInterleaveStep warpCount isWarpDone n).cursor.toNat
      < warpCount.toNat)
    (hpicked : (pick .roundRobinInterleaveStep warpCount isWarpDone n).isSome)
    (hw : w.toNat < warpCount.toNat) (hlive : isWarpDone n w = false)
    (hne : pick .roundRobinInterleaveStep warpCount isWarpDone n ≠ some w) :
    RoundRobinInterleaveStep.distance warpCount
        (beforePick .roundRobinInterleaveStep warpCount isWarpDone (n + 1)).cursor w
      < RoundRobinInterleaveStep.distance warpCount
        (beforePick .roundRobinInterleaveStep warpCount isWarpDone n).cursor w := by
  obtain ⟨idx, hidx⟩ := Option.isSome_iff_exists.mp hpicked
  have hkind := kind_beforePick .roundRobinInterleaveStep warpCount isWarpDone n
  rw [beforePick]
  unfold pick at hidx hne
  generalize beforePick .roundRobinInterleaveStep warpCount isWarpDone n = s at *
  obtain ⟨kind, cursor⟩ := s
  obtain rfl : kind = .roundRobinInterleaveStep := hkind
  refine RoundRobinInterleaveStep.distance_pickNext hsmall hcursor hidx hw hlive ?_
  rintro rfl
  exact hne hidx

theorem pick_live (hmono : ∀ n w, isWarpDone n w = true → isWarpDone (n + 1) w = true) {n : Nat}
    {w : BitVec 32} (hpick : pick kind warpCount isWarpDone n = some w) :
    w.toNat < warpCount.toNat ∧ isWarpDone n w = false := by
  obtain ⟨hlt, hlive, -⟩ := pickNext_some (sound_beforePick kind warpCount hmono n) hpick
  exact ⟨hlt, hlive⟩

theorem pick_eq_none_iff (hkind : kind = .inOrderRunToCompletion ∨ warpCount.toNat ≤ 2 ^ 31)
    (hmono : ∀ n w, isWarpDone n w = true → isWarpDone (n + 1) w = true) (n : Nat) :
    pick kind warpCount isWarpDone n = none ↔
      ∀ w : BitVec 32, w.toNat < warpCount.toNat → isWarpDone n w = true := by
  constructor
  · intro hpick w hw
    refine pickNext_none (sound_beforePick kind warpCount hmono n) hpick ?_ hw
    rw [kind_beforePick]
    exact hkind
  · intro hdone
    cases hpick : pick kind warpCount isWarpDone n with
    | none => rfl
    | some w =>
        obtain ⟨hlt, hlive⟩ := pick_live hmono hpick
        rw [hdone w hlt] at hlive
        cases hlive

theorem roundRobin_turn (hsmall : warpCount.toNat ≤ 2 ^ 31)
    (hmono : ∀ n w, isWarpDone n w = true → isWarpDone (n + 1) w = true) (n : Nat) {w : BitVec 32}
    (hw : w.toNat < warpCount.toNat) (hlive : ∀ i < warpCount.toNat, isWarpDone (n + i) w = false) :
    ∃ i < warpCount.toNat,
      pick .roundRobinInterleaveStep warpCount isWarpDone (n + i) = some w := by
  have hne : warpCount ≠ 0 := by
    rintro rfl
    exact absurd hw (Nat.not_lt_zero _)
  have hcursor : ∀ i, (beforePick .roundRobinInterleaveStep warpCount isWarpDone i).cursor.toNat
      < warpCount.toNat := by
    intro i
    have hsound := sound_beforePick .roundRobinInterleaveStep warpCount hmono i
    unfold Sound at hsound
    rw [kind_beforePick] at hsound
    exact hsound hne
  refine exists_of_descends (fun i => RoundRobinInterleaveStep.distance warpCount
    (beforePick .roundRobinInterleaveStep warpCount isWarpDone (n + i)).cursor w)
    (RoundRobinInterleaveStep.distance_lt (hcursor n) hw) fun i hi hother => ?_
  refine distance_beforePick hsmall (hcursor (n + i)) ?_ hw (hlive i hi) hother
  rw [Option.isSome_iff_ne_none, Ne, pick_eq_none_iff (.inr hsmall) hmono]
  intro hdone
  exact absurd (hdone w hw) (Bool.eq_false_iff.mp (hlive i hi))

/-! ### More than `2 ^ 31` warps -/

/-- All warps are done but one. -/
def onlyLive (w : BitVec 32) : Nat → BitVec 32 → Bool := fun _ v => v != w

theorem onlyLive_eq_false {w v : BitVec 32} {n : Nat} (h : onlyLive w n v = false) : v = w := by
  unfold onlyLive at h
  exact bne_eq_false_iff_eq.mp h

section Wide

variable (hwide : 2 ^ 31 < warpCount.toNat) (n : Nat)
include hwide

theorem ne_zero_of_wide : warpCount ≠ 0 := by
  rintro rfl
  exact absurd hwide (by decide)

/-- The warp before the last is picked when it is the only live one. -/
theorem roundRobin_first :
    (onCtaStart .roundRobinInterleaveStep).pickNext warpCount (onlyLive (warpCount - 2) n)
      = (some (warpCount - 2), { kind := .roundRobinInterleaveStep, cursor := warpCount - 1 }) := by
  have hcount := warpCount.isLt
  have hlive : (warpCount - 2).toNat = warpCount.toNat - 2 := by bv_omega
  have hfirst : RoundRobinInterleaveStep.pickFrom 0 warpCount (onlyLive (warpCount - 2) n)
      warpCount.toNat 0 = some (warpCount - 2) := by
    cases hfrom : RoundRobinInterleaveStep.pickFrom 0 warpCount (onlyLive (warpCount - 2) n)
        warpCount.toNat 0 with
    | some w => rw [onlyLive_eq_false (pickFrom_some hfrom).1]
    | none =>
        have hdone := pickFrom_none hfrom (by simp; omega) (Nat.zero_le (warpCount - 2).toNat)
          (by simp; omega)
        have hturn : (0 + (warpCount - 2)) % warpCount = warpCount - 2 := by
          rw [zero_add]
          apply BitVec.eq_of_toNat_eq
          rw [BitVec.toNat_umod]
          exact Nat.mod_eq_of_lt (by omega)
        rw [hturn, onlyLive, bne_self_eq_false] at hdone
        cases hdone
  have hcursor : (warpCount - 2 + 1) % warpCount = warpCount - 1 := by
    have hsucc : warpCount - 2 + 1 = warpCount - 1 := by bv_omega
    rw [hsucc]
    apply BitVec.eq_of_toNat_eq
    rw [BitVec.toNat_umod]
    exact Nat.mod_eq_of_lt (by bv_omega)
  unfold pickNext onCtaStart RoundRobinInterleaveStep.pickNext
  rw [if_neg (ne_zero_of_wide hwide), hfirst, ← hcursor]

/-- From the last warp on no turn comes to the one before it. -/
theorem roundRobin_passes :
    (WarpScheduler.mk .roundRobinInterleaveStep (warpCount - 1)).pickNext warpCount
        (onlyLive (warpCount - 2) n)
      = (none, { kind := .roundRobinInterleaveStep, cursor := warpCount - 1 }) := by
  have hcount := warpCount.isLt
  have hlive : (warpCount - 2).toNat = warpCount.toNat - 2 := by bv_omega
  have hnone : RoundRobinInterleaveStep.pickFrom (warpCount - 1) warpCount
      (onlyLive (warpCount - 2) n) warpCount.toNat 0 = none := by
    cases hfrom : RoundRobinInterleaveStep.pickFrom (warpCount - 1) warpCount
        (onlyLive (warpCount - 2) n) warpCount.toNat 0 with
    | none => rfl
    | some w =>
        obtain ⟨turn, hturn, hw, -⟩ :=
          RoundRobinInterleaveStep.pickFrom_first hfrom (by simp; omega)
        have hw' := onlyLive_eq_false (pickFrom_some hfrom).1
        have hmiss := RoundRobinInterleaveStep.turn_ne_of_wide hwide turn (by simpa using hturn)
        rw [← hw, hw', hlive] at hmiss
        exact absurd rfl hmiss
  unfold pickNext RoundRobinInterleaveStep.pickNext
  dsimp only
  rw [if_neg (ne_zero_of_wide hwide), hnone]

/-- The warp before the last is picked once and never seen again. -/
theorem roundRobin_overlooks :
    pick .roundRobinInterleaveStep warpCount (onlyLive (warpCount - 2)) 1 = none := by
  rw [pick, beforePick, beforePick, roundRobin_first hwide, roundRobin_passes hwide]

end Wide

theorem not_fair_of_wide (warpCount : BitVec 32) (hwide : 2 ^ 31 < warpCount.toNat) :
    ¬ Fair .roundRobinInterleaveStep warpCount (onlyLive (warpCount - 2)) := by
  intro hfair
  have hdone := (hfair.stop 1).mp (roundRobin_overlooks hwide) (warpCount - 2) (by bv_omega)
  rw [onlyLive, bne_self_eq_false] at hdone
  cases hdone

/-- With `2 ^ 31 + 1` warps, of which all but one are done, round robin stops before that one is
done. -/
theorem wide_cta_stops_early :
    ¬ ∀ isWarpDone : Nat → BitVec 32 → Bool,
      (∀ n w, isWarpDone n w = true → isWarpDone (n + 1) w = true) →
        Fair .roundRobinInterleaveStep 0x80000001 isWarpDone :=
  fun hfair => not_fair_of_wide 0x80000001 (by decide)
    (hfair (onlyLive (0x80000001 - 2)) fun _ _ hdone => hdone)

/-- **Schedulers are fair** up to `2 ^ 31` warps. -/
theorem scheduler_fair_iff (kind : WarpSchedulerKind) (warpCount : BitVec 32) :
    (∀ isWarpDone : Nat → BitVec 32 → Bool,
      (∀ n w, isWarpDone n w = true → isWarpDone (n + 1) w = true) →
        Fair kind warpCount isWarpDone)
      ↔ kind = .inOrderRunToCompletion ∨ warpCount.toNat ≤ 2 ^ 31 := by
  constructor
  · intro hfair
    by_contra hwide
    push Not at hwide
    obtain ⟨hkind, hwide⟩ := hwide
    cases kind with
    | inOrderRunToCompletion => exact hkind rfl
    | roundRobinInterleaveStep =>
        exact not_fair_of_wide warpCount hwide
          (hfair (onlyLive (warpCount - 2)) fun _ _ hdone => hdone)
  · intro hkind isWarpDone hmono
    refine ⟨fun n w hpick => pick_live hmono hpick, pick_eq_none_iff hkind hmono, ?_⟩
    rintro rfl n w hw hlive
    exact roundRobin_turn (hkind.resolve_left (by decide)) hmono n hw hlive

end WarpScheduler

end ProtoGpu

import Mathlib.Data.Finset.Card
import Mathlib.Data.Finset.Range
import ProtoGpu.Lib.PostDominance

/-!
# Post-dominance by paths

A node post-dominates another when it lies on every path from there to the exit, so it fails to
exactly when some path avoids it. Where the exit can be reached the post-dominators of a node form a
chain, whose first element is the immediate post-dominator. A path that avoids a node need not visit
a node twice, so in a finite graph its length is bounded by the number of nodes.
-/

namespace PostDominance

variable {V : Type*} {succ : V → V → Prop} {exit : V} {c d x y : V}

/-- The nodes of a walk, its ends included. -/
inductive Path (succ : V → V → Prop) : V → List V → V → Prop where
  | last (x : V) : Path succ x [x] x
  | step {x s y : V} {nodes : List V} (hedge : succ x s) (hrest : Path succ s nodes y) :
      Path succ x (x :: nodes) y

def Reaches (succ : V → V → Prop) (exit x : V) : Prop := ∃ nodes, Path succ x nodes exit

/-- `c` lies on every path from `x` to the exit. -/
def OnEveryPath (succ : V → V → Prop) (exit x c : V) : Prop :=
  ∀ nodes, Path succ x nodes exit → c ∈ nodes

/-- The immediate post-dominator of `x`: a post-dominator other than `x` that the other ones
post-dominate in turn. -/
structure IsIpdom (succ : V → V → Prop) (exit x r : V) : Prop where
  ne : r ≠ x
  onPaths : OnEveryPath succ exit x r
  nearest : ∀ d, d ≠ x → d ≠ r → OnEveryPath succ exit x d → OnEveryPath succ exit r d

/-! ### Avoiding a node -/

/-- Some path from `x` to the exit does not pass through `c`. -/
inductive Avoids (succ : V → V → Prop) (exit c : V) : V → Prop where
  | exit (hne : exit ≠ c) : Avoids succ exit c exit
  | step {x s : V} (hne : x ≠ c) (hedge : succ x s) (hrest : Avoids succ exit c s) :
      Avoids succ exit c x

theorem Avoids.ne (h : Avoids succ exit c x) : x ≠ c := by
  cases h with
  | exit hne => exact hne
  | step hne => exact hne

theorem Avoids.exit_ne (h : Avoids succ exit c x) : exit ≠ c := by
  induction h with
  | exit hne => exact hne
  | step _ _ _ ih => exact ih

theorem avoids_iff : Avoids succ exit c x ↔ ∃ nodes, Path succ x nodes exit ∧ c ∉ nodes := by
  constructor
  · intro h
    induction h with
    | exit hne => exact ⟨[exit], .last exit, by simpa using hne.symm⟩
    | step hne hedge _ ih =>
        obtain ⟨nodes, hpath, hnot⟩ := ih
        exact ⟨_, .step hedge hpath, by simpa using ⟨hne.symm, hnot⟩⟩
  · rintro ⟨nodes, hpath, hnot⟩
    induction hpath with
    | last x => exact .exit (by simpa [eq_comm] using hnot)
    | step hedge _ ih =>
        rw [List.mem_cons, not_or] at hnot
        exact .step (Ne.symm hnot.1) hedge (ih hnot.2)

theorem onEveryPath_iff : OnEveryPath succ exit x c ↔ ¬ Avoids succ exit c x := by
  rw [avoids_iff]
  push Not
  rfl

/-- A path that avoids `c` either avoids `d` as well or leads on from `d`. -/
theorem Avoids.split (h : Avoids succ exit c x) :
    Avoids succ exit d x ∨ Avoids succ exit c d := by
  induction h with
  | exit hne =>
      by_cases hd : exit = d
      · subst hd
        exact .inr (.exit hne)
      · exact .inl (.exit hd)
  | @step x s hne hedge hrest ih =>
      rcases ih with havoid | hother
      · by_cases hd : x = d
        · subst hd
          exact .inr (.step hne hedge hrest)
        · exact .inl (.step hd hedge havoid)
      · exact .inr hother

section Chain

/-- Two post-dominators of a node that reaches the exit are comparable. -/
theorem onEveryPath_total (hreach : Reaches succ exit x) (hc : OnEveryPath succ exit x c)
    (hd : OnEveryPath succ exit x d) :
    OnEveryPath succ exit d c ∨ OnEveryPath succ exit c d := by
  rw [onEveryPath_iff, onEveryPath_iff]
  rw [onEveryPath_iff] at hc hd
  by_contra hnone
  push Not at hnone
  obtain ⟨hdc, hcd⟩ := hnone
  obtain ⟨nodes, hpath⟩ := hreach
  induction hpath with
  | last x =>
      -- both are the exit
      have hxc : x = c := by
        by_contra hne
        exact hc (.exit hne)
      exact hdc.exit_ne hxc
  | @step x s y nodes hedge hrest ih =>
      by_cases hxc : x = c
      · subst hxc
        exact hd hcd
      by_cases hxd : x = d
      · subst hxd
        exact hc hdc
      · exact ih (fun hs => hc (.step hxc hedge hs)) (fun hs => hd (.step hxd hedge hs)) hdc hcd

/-- If `c` and `d` post-dominated each other, every node that reaches the exit would avoid one. -/
theorem avoids_or_avoids (hne : c ≠ d) (hcd : ¬ Avoids succ exit c d)
    (hdc : ¬ Avoids succ exit d c) (hreach : Reaches succ exit x) :
    Avoids succ exit c x ∨ Avoids succ exit d x := by
  obtain ⟨nodes, hpath⟩ := hreach
  induction hpath with
  | last x =>
      by_cases hx : x = c
      · exact .inr (.exit (hx ▸ hne))
      · exact .inl (.exit hx)
  | @step x s y nodes hedge hrest ih =>
      have hboth : Avoids succ y c s ∧ Avoids succ y d s := by
        rcases ih hcd hdc with hs | hs
        · exact ⟨hs, hs.split.resolve_right hcd⟩
        · exact ⟨hs.split.resolve_right hdc, hs⟩
      by_cases hx : x = c
      · exact .inr (.step (hx ▸ hne) hedge hboth.2)
      · exact .inl (.step hx hedge hboth.1)

/-- Different nodes do not post-dominate each other. -/
theorem onEveryPath_antisymm (hreach : Reaches succ exit c) (hcd : OnEveryPath succ exit d c)
    (hdc : OnEveryPath succ exit c d) : c = d := by
  rw [onEveryPath_iff] at hcd hdc
  by_contra hne
  rcases avoids_or_avoids hne hcd hdc hreach with hc | hd
  · exact hc.ne rfl
  · exact hdc hd

/-- The first post-dominator on a path. -/
theorem exists_nearest {S : Set V} (hreach : Reaches succ exit x) (hexit : exit ∈ S)
    (hS : ∀ c ∈ S, OnEveryPath succ exit x c) :
    ∃ r ∈ S, ∀ c ∈ S, OnEveryPath succ exit r c := by
  obtain ⟨nodes, hpath⟩ := hreach
  induction hpath with
  | last x => exact ⟨x, hexit, hS⟩
  | @step x s y nodes hedge hrest ih =>
      by_cases hx : x ∈ S
      · exact ⟨x, hx, hS⟩
      · refine ih hexit fun c hc => ?_
        have hxc := hS c hc
        rw [onEveryPath_iff] at hxc ⊢
        exact fun hs => hxc (.step (fun heq => hx (heq ▸ hc)) hedge hs)

theorem exists_isIpdom (hreach : Reaches succ exit x) (hx : x ≠ exit) :
    ∃ r, IsIpdom succ exit x r := by
  have hexit : OnEveryPath succ exit x exit := onEveryPath_iff.mpr fun h => h.exit_ne rfl
  obtain ⟨nodes, hpath⟩ := hreach
  cases hpath with
  | last => exact absurd rfl hx
  | @step _ s _ nodes hedge hrest =>
      obtain ⟨r, ⟨hr, hne⟩, hnearest⟩ := exists_nearest
        (S := {c | OnEveryPath succ exit x c ∧ c ≠ x}) ⟨nodes, hrest⟩ ⟨hexit, hx.symm⟩ (by
          rintro c ⟨hc, hne⟩
          rw [onEveryPath_iff] at hc ⊢
          exact fun hs => hc (.step (Ne.symm hne) hedge hs))
      exact ⟨r, hne, hr, fun d hd _ honPaths => hnearest d ⟨honPaths, hd⟩⟩

theorem IsIpdom.unique {r r' : V} (h : IsIpdom succ exit x r) (h' : IsIpdom succ exit x r')
    (hreach : Reaches succ exit r) : r = r' := by
  by_contra hne
  exact hne (onEveryPath_antisymm hreach (h'.nearest r h.ne hne h.onPaths)
    (h.nearest r' h'.ne (Ne.symm hne) h'.onPaths))

/-- A post-dominator that post-dominates no other one is the immediate one, and conversely. -/
theorem isIpdom_iff (hreach : ∀ y, OnEveryPath succ exit x y → Reaches succ exit y)
    (hx : Reaches succ exit x) {r : V} :
    IsIpdom succ exit x r ↔ r ≠ x ∧ OnEveryPath succ exit x r
      ∧ ∀ d, d ≠ x → d ≠ r → OnEveryPath succ exit x d → ¬ OnEveryPath succ exit d r := by
  constructor
  · intro h
    exact ⟨h.ne, h.onPaths, fun d hd hdr honPaths hback =>
      hdr (onEveryPath_antisymm (hreach d honPaths) (h.nearest d hd hdr honPaths) hback)⟩
  · rintro ⟨hne, honPaths, honly⟩
    exact ⟨hne, honPaths, fun d hd hdr hdPaths =>
      (onEveryPath_total hx hdPaths honPaths).resolve_right (honly d hd hdr hdPaths)⟩

end Chain

/-! ### Short paths -/

/-- Some path of at most `k` edges from `x` to the exit does not pass through `c`. -/
def AvoidsIn (succ : V → V → Prop) (exit c : V) : Nat → V → Prop
  | 0, x => x = exit ∧ exit ≠ c
  | k + 1, x => AvoidsIn succ exit c k x ∨ (x ≠ c ∧ ∃ s, succ x s ∧ AvoidsIn succ exit c k s)

theorem AvoidsIn.mono {k m : Nat} (h : AvoidsIn succ exit c k x) (hle : k ≤ m) :
    AvoidsIn succ exit c m x := by
  induction m with
  | zero =>
      obtain rfl : k = 0 := by omega
      exact h
  | succ m ih =>
      by_cases hk : k = m + 1
      · subst hk
        exact h
      · exact .inl (ih (by omega))

theorem AvoidsIn.step {k : Nat} (h : AvoidsIn succ exit c k x) :
    (x = exit ∧ exit ≠ c) ∨ (x ≠ c ∧ ∃ s, succ x s ∧ AvoidsIn succ exit c k s) := by
  induction k with
  | zero => exact .inl h
  | succ k ih =>
      rcases h with h | ⟨hne, s, hedge, hs⟩
      · rcases ih h with hexit | ⟨hne, s, hedge, hs⟩
        · exact .inl hexit
        · exact .inr ⟨hne, s, hedge, .inl hs⟩
      · exact .inr ⟨hne, s, hedge, .inl hs⟩

theorem AvoidsIn.avoids {k : Nat} (h : AvoidsIn succ exit c k x) : Avoids succ exit c x := by
  induction k generalizing x with
  | zero =>
      obtain ⟨rfl, hne⟩ := h
      exact .exit hne
  | succ k ih =>
      rcases h with h | ⟨hne, s, hedge, hs⟩
      · exact ih h
      · exact .step hne hedge (ih hs)

theorem Avoids.exists_avoidsIn (h : Avoids succ exit c x) : ∃ k, AvoidsIn succ exit c k x := by
  induction h with
  | exit hne => exact ⟨0, rfl, hne⟩
  | step hne hedge _ ih =>
      obtain ⟨k, hk⟩ := ih
      exact ⟨k + 1, .inr ⟨hne, _, hedge, hk⟩⟩

/-- With `n + 1` nodes a path of `n` edges is long enough. -/
theorem Avoids.avoidsIn {succ : Nat → Nat → Prop} {n c x : Nat} (h : Avoids succ n c x)
    (hle : ∀ x s, succ x s → x ≤ n) : AvoidsIn succ n c n x := by
  classical
  have hnode : ∀ k x, AvoidsIn succ n c k x → x ≤ n := by
    intro k x hk
    rcases hk.step with ⟨rfl, -⟩ | ⟨-, s, hedge, -⟩
    · exact le_rfl
    · exact hle x s hedge
  let T : Nat → Finset Nat := fun k => (Finset.range (n + 1)).filter fun x => AvoidsIn succ n c k x
  have hmem : ∀ {k x}, x ∈ T k ↔ AvoidsIn succ n c k x := by
    intro k x
    rw [Finset.mem_filter, Finset.mem_range, and_iff_right_iff_imp]
    exact fun hk => Nat.lt_succ_of_le (hnode k x hk)
  have hsub : ∀ k, T k ⊆ T (k + 1) := fun k x hx => hmem.mpr (.inl (hmem.mp hx))
  have hstable : ∀ k, T k = T (k + 1) → T (k + 1) = T (k + 2) := by
    intro k heq
    refine Finset.Subset.antisymm (hsub _) fun x hx => ?_
    rcases hmem.mp hx with hx | ⟨hne, s, hedge, hs⟩
    · exact hmem.mpr hx
    · have hs' : s ∈ T k := heq ▸ hmem.mpr hs
      exact hmem.mpr (.inr ⟨hne, s, hedge, hmem.mp hs'⟩)
  -- the sets grow by a node until they stay
  have hgrow : ∀ k, T k = T (k + 1) ∨ k + 2 ≤ (T (k + 1)).card := by
    intro k
    induction k with
    | zero =>
        by_cases heq : T 0 = T 1
        · exact .inl heq
        · have hlt := Finset.card_lt_card ((hsub 0).ssubset_of_ne heq)
          have hexit : n ∈ T 0 := hmem.mpr ⟨rfl, h.exit_ne⟩
          have hpos := Finset.card_pos.mpr ⟨n, hexit⟩
          exact .inr (by omega)
    | succ k ih =>
        rcases ih with heq | hcard
        · exact .inl (hstable k heq)
        · by_cases heq : T (k + 1) = T (k + 2)
          · exact .inl heq
          · have hlt := Finset.card_lt_card ((hsub (k + 1)).ssubset_of_ne heq)
            exact .inr (by omega)
  have hn : T n = T (n + 1) := by
    refine (hgrow n).resolve_right fun hcard => ?_
    have hle := Finset.card_filter_le (Finset.range (n + 1)) fun x => AvoidsIn succ n c (n + 1) x
    rw [Finset.card_range] at hle
    have : (T (n + 1)).card ≤ n + 1 := hle
    omega
  have hall : ∀ m, T (n + m) = T n := by
    intro m
    have hstep : ∀ m, T (n + m) = T (n + m + 1) := by
      intro m
      induction m with
      | zero => exact hn
      | succ m ih => exact hstable (n + m) ih
    induction m with
    | zero => rfl
    | succ m ih => exact (hstep m).symm.trans ih
  obtain ⟨k, hk⟩ := h.exists_avoidsIn
  have hlong := hmem.mpr (hk.mono (Nat.le_add_left k n))
  rw [hall] at hlong
  exact hmem.mp hlong

end PostDominance

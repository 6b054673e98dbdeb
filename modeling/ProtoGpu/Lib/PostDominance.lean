import Mathlib.Data.Set.Basic

/-!
# Reconvergence on post-dominators

A graph with an exit, a set of post-dominators for every node that satisfies the data-flow
inequations, and the immediate ones. Only the closure of the sets under edges is used, so any
solution will do, the greatest or not. A machine that stacks the arms of its branches needs to know
that an arm does not pass the point where an outer branch waits; `Above` is the relation between an
arm and such a point that carries this, and every move of the arm keeps it.
-/

namespace PostDominance

variable {V : Type*}

/-- Sets of post-dominators: the exit has itself only, everything has the exit, and what
post-dominates a node, itself apart, post-dominates its successors. -/
structure Solution (succ : V → V → Prop) (exit : V) (pd : V → Set V) : Prop where
  exit_eq : pd exit = {exit}
  exit_mem : ∀ x, exit ∈ pd x
  step : ∀ {x s c}, succ x s → c ∈ pd x → c ≠ x → c ∈ pd s

/-- `r` is the candidate of `b` that post-dominates no other candidate. -/
structure Immediate (pd : V → Set V) (b r : V) : Prop where
  mem : r ∈ pd b
  ne : r ≠ b
  only : ∀ d ∈ pd b, d ≠ b → d ≠ r → r ∉ pd d

/-- An arm that will reconverge at `r` and, when it still runs, is at `pc`, above an outer point
`j`: `j` lies on its way, and either it is the arm's own point or not on the way there. -/
structure Above (pd : V → Set V) (runs : Prop) (pc r j : V) : Prop where
  onWay : runs → j ∈ pd pc
  outer : j = r ∨ r ∉ pd j

section Arms

variable {succ : V → V → Prop} {exit : V} {pd : V → Set V} {pc r j : V} {runs : Prop}

/-- An arm that has not reached its own point is at no outer point either. -/
theorem Above.ne (h : Above pd runs pc r j) (hr : r ∈ pd pc) (hpc : pc ≠ r) : j ≠ pc := by
  rintro rfl
  rcases h.outer with rfl | houter
  · exact hpc rfl
  · exact houter hr

/-- What post-dominates a node post-dominates where it leads. A node with an edge to the exit has no
other post-dominator, so from there it does not matter where an arm goes. -/
theorem Solution.leads (hpd : Solution succ exit pd) {s : V} (hs : succ pc s ∨ succ pc exit)
    (hj : j ∈ pd pc) (hne : j ≠ pc) : j ∈ pd s := by
  rcases hs with hs | hexit
  · exact hpd.step hs hj hne
  · have hmem := hpd.step hexit hj hne
    rw [hpd.exit_eq] at hmem
    rw [hmem]
    exact hpd.exit_mem s

/-- The arm moves on. -/
theorem Above.step (hpd : Solution succ exit pd) (h : Above pd runs pc r j) {runs' : Prop} {s : V}
    (himp : runs' → runs) (hs : succ pc s ∨ succ pc exit) (hne : j ≠ pc) :
    Above pd runs' s r j where
  onWay := fun hruns => hpd.leads hs (h.onWay (himp hruns)) hne
  outer := h.outer

/-- An arm of a new branch at `pc`, which reconverges at `pc`'s immediate post-dominator. -/
theorem Above.branch (hpd : Solution succ exit pd) {ipdom : V} (himm : Immediate pd pc ipdom)
    (hj : j ∈ pd pc) (hne : j ≠ pc) {s : V} (hs : succ pc s ∨ succ pc exit) :
    Above pd runs s ipdom j where
  onWay := fun _ => hpd.leads hs hj hne
  outer := by
    by_cases heq : j = ipdom
    · exact .inl heq
    · exact .inr (himm.only j hj hne heq)

/-- An arm that has arrived hands its place to the join that waits there. -/
theorem Above.arrive {pc' r' : V} (h : Above pd runs pc r j) (hruns : runs)
    (hjoin : Above pd False pc' r' j) (hpc : pc' = pc) {runs' : Prop} :
    Above pd runs' pc' r' j where
  onWay := fun _ => hpc ▸ h.onWay hruns
  outer := hjoin.outer

end Arms

end PostDominance

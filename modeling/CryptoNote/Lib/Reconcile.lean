import Mathlib.Data.Finset.Basic

/-!
# Reconciling replicas of a set against a union and an intersection

Several replicas each hold a set {lit}`K` that may be out of date with a
source.  A reconciler that only knows the union {lit}`U` and the intersection
{lit}`I` of the replicas asks the source what it has beyond {lit}`I` and what
{lit}`U` has beyond the source, and sends every replica the same correction:
add the first, drop the second.  Each replica lies between {lit}`I` and
{lit}`U`, so each one ends up with the source's set.  When the source changes
between the two questions, from {lit}`P` to {lit}`Q`, each replica ends up
between {lit}`P ∩ Q` and {lit}`P ∪ Q`.

The union and the intersection are folded over the replicas one after the
other, as a loop over a container computes them.

Main results:

- Theorem {lit}`correct_bounds`: a replica between {lit}`I` and {lit}`U`,
  corrected by {lit}`Q \ I` and {lit}`U \ P`, lies between {lit}`P ∩ Q` and
  {lit}`P ∪ Q`; theorem {lit}`correct_eq` is the case {lit}`P = Q`.
- Theorem {lit}`mem_foldl_unionInterStep`: every set of a list lies between the
  intersection and the union folded over it.
-/

namespace Reconcile

variable {α : Type} [DecidableEq α]

/-- One step of the fold over the replicas: the union takes in the next set,
the intersection keeps what the next set holds. -/
def unionInterStep (acc : Finset α × Finset α) (k : Finset α) : Finset α × Finset α :=
  (acc.1 ∪ k, acc.2.filter (· ∈ k))

/-- A replica corrected by what to add and what to drop. -/
def correct (k add drop : Finset α) : Finset α := (k ∪ add) \ drop

section Correct

variable {I K U P Q : Finset α}

/-- Corrected by what the source had beyond the intersection and what the union
had beyond the source, a replica between the two keeps what the source had at
both questions and nothing it had at neither. -/
theorem correct_bounds (hI : I ⊆ K) (hU : K ⊆ U) :
    P ∩ Q ⊆ correct K (Q \ I) (U \ P) ∧ correct K (Q \ I) (U \ P) ⊆ P ∪ Q := by
  constructor
  · intro x hx
    obtain ⟨hP, hQ⟩ := Finset.mem_inter.mp hx
    have hkeep : x ∈ K ∪ Q \ I := by
      by_cases hxI : x ∈ I
      · exact Finset.mem_union_left _ (hI hxI)
      · exact Finset.mem_union_right _ (Finset.mem_sdiff.mpr ⟨hQ, hxI⟩)
    exact Finset.mem_sdiff.mpr ⟨hkeep, fun hdrop => (Finset.mem_sdiff.mp hdrop).2 hP⟩
  · intro x hx
    obtain ⟨hkeep, hdrop⟩ := Finset.mem_sdiff.mp hx
    rcases Finset.mem_union.mp hkeep with hK | hnew
    · by_cases hP : x ∈ P
      · exact Finset.mem_union_left _ hP
      · exact absurd (Finset.mem_sdiff.mpr ⟨hU hK, hP⟩) hdrop
    · exact Finset.mem_union_right _ (Finset.mem_sdiff.mp hnew).1

/-- Against a source that did not change, the corrected replica is the source's
set. -/
theorem correct_eq (hI : I ⊆ K) (hU : K ⊆ U) : correct K (P \ I) (U \ P) = P := by
  obtain ⟨hlow, hhigh⟩ := correct_bounds (P := P) (Q := P) hI hU
  rw [Finset.inter_self] at hlow
  rw [Finset.union_self] at hhigh
  exact Finset.Subset.antisymm hhigh hlow

end Correct

/-- The fold only shrinks the intersection and grows the union, and every set
it takes in lies between the two it ends with. -/
theorem foldl_unionInterStep_bounds (l : List (Finset α)) (acc : Finset α × Finset α) :
    (l.foldl unionInterStep acc).2 ⊆ acc.2 ∧ acc.1 ⊆ (l.foldl unionInterStep acc).1 ∧
      ∀ k ∈ l, (l.foldl unionInterStep acc).2 ⊆ k ∧ k ⊆ (l.foldl unionInterStep acc).1 := by
  induction l generalizing acc with
  | nil => exact ⟨subset_rfl, subset_rfl, by simp⟩
  | cons k l ih =>
    obtain ⟨hinter, hunion, hmem⟩ := ih (unionInterStep acc k)
    have hfilter : (unionInterStep acc k).2 ⊆ k := fun x hx => (Finset.mem_filter.mp hx).2
    have hgrow : k ⊆ (unionInterStep acc k).1 := Finset.subset_union_right
    refine ⟨hinter.trans (Finset.filter_subset _ _),
      Finset.subset_union_left.trans hunion, ?_⟩
    intro k' hk'
    rcases List.mem_cons.mp hk' with rfl | hk'
    · exact ⟨hinter.trans hfilter, hgrow.trans hunion⟩
    · exact hmem k' hk'

/-- Every set of a non-empty list lies between the intersection and the union
folded over the list from its first set. -/
theorem mem_foldl_unionInterStep {k₀ : Finset α} {l : List (Finset α)} {k : Finset α}
    (hk : k ∈ k₀ :: l) :
    (l.foldl unionInterStep (k₀, k₀)).2 ⊆ k ∧ k ⊆ (l.foldl unionInterStep (k₀, k₀)).1 := by
  obtain ⟨hinter, hunion, hmem⟩ := foldl_unionInterStep_bounds l (k₀, k₀)
  rcases List.mem_cons.mp hk with rfl | hk
  · exact ⟨hinter, hunion⟩
  · exact hmem k hk

end Reconcile

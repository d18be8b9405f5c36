import Mathlib.Order.Lattice

/-!
# {lit}`std::lower_bound`

The binary search of the C++ standard library as libstdc++ writes it
({lit}`__lower_bound`): the range is a start and a length; the element in the
middle is compared, and the search goes on after it when it is less than the
value and before it otherwise.  The comparison is a predicate on positions, so
the search runs over any random-access range.

The standard only specifies the result on ranges that the comparison
partitions; the code this models searches ranges that are not sorted.  What
holds for every predicate is that the result lies in the range, one past its end
included.

Main results:

- Theorems {lit}`le_lowerBound`, {lit}`lowerBound_le`: the result lies between
  the start and the end of the range.
- Theorem {lit}`lowerBound_of_forall_less`: over a range whose elements are all
  less than the value, the result is the end of the range.
- Theorem {lit}`find?_eq_some_of_greatest`: a linear search of a strictly
  decreasing list finds the greatest element the predicate holds of.
-/

namespace Search

/-- {lit}`std::lower_bound` over the {lit}`len` positions from {lit}`first` on,
with {lit}`less i` the comparison of the element at {lit}`i` with the value:
halve the range, go past the middle when it is less, keep the lower half
otherwise. -/
def lowerBound (less : Nat → Bool) (first len : Nat) : Nat :=
  if 0 < len then
    if less (first + len / 2) then lowerBound less (first + len / 2 + 1) (len - len / 2 - 1)
    else lowerBound less first (len / 2)
  else first
termination_by len
decreasing_by all_goals omega

variable (less : Nat → Bool)

/-- The search never returns a position before the start of its range. -/
theorem le_lowerBound (first len : Nat) : first ≤ lowerBound less first len := by
  fun_induction lowerBound less first len with
  | case1 first len _ _ ih => omega
  | case2 first len _ _ ih => exact ih
  | case3 first len _ => omega

/-- The search never returns a position past the end of its range. -/
theorem lowerBound_le (first len : Nat) : lowerBound less first len ≤ first + len := by
  fun_induction lowerBound less first len with
  | case1 first len _ _ ih => omega
  | case2 first len _ _ ih => omega
  | case3 first len _ => omega

/-- Over a range all of whose elements are less than the value, the search
ends one past the range. -/
theorem lowerBound_of_forall_less (first len : Nat)
    (hless : ∀ i, first ≤ i → i < first + len → less i = true) :
    lowerBound less first len = first + len := by
  fun_induction lowerBound less first len with
  | case1 first len _ _ ih =>
    rw [ih (fun i hi hlt => hless i (by omega) (by omega))]
    omega
  | case2 first len hpos hmid _ =>
    exact absurd (hless _ (by omega) (by omega)) hmid
  | case3 first len hlen => omega

/-! ## Linear search of a decreasing list -/

/-- In a strictly decreasing list, the first element a predicate holds of is the
greatest one it holds of. -/
theorem find?_eq_some_of_greatest {α : Type} [LinearOrder α] {p : α → Bool} {x : α} :
    ∀ {l : List α}, l.Pairwise (· > ·) → x ∈ l → p x = true → (∀ y ∈ l, p y = true → y ≤ x) →
      l.find? p = some x
  | [], _, hx, _, _ => absurd hx List.not_mem_nil
  | a :: l, hl, hx, hpx, hgreatest => by
    rw [List.pairwise_cons] at hl
    by_cases hpa : p a = true
    · have hax : a ≤ x := hgreatest a List.mem_cons_self hpa
      rcases List.mem_cons.mp hx with rfl | hmem
      · exact List.find?_cons_of_pos hpa
      · exact absurd hax (not_le.mpr (hl.1 x hmem))
    · have hmem : x ∈ l := by
        rcases List.mem_cons.mp hx with rfl | hmem
        · exact absurd hpx hpa
        · exact hmem
      rw [List.find?_cons_of_neg hpa]
      exact find?_eq_some_of_greatest hl.2 hmem hpx fun y hy => hgreatest y (List.mem_cons_of_mem a hy)

end Search

import Mathlib.Data.List.Perm.Basic
import Mathlib.Logic.Function.Basic

/-!
# The shuffle generator

{lit}`ShuffleGenerator<T, Gen>` of {lit}`common/ShuffleGenerator.h` draws the numbers
{lit}`0, ..., n - 1` in random order without repetition: a lazy Fisher-Yates shuffle
that keeps only the slots moved so far in a map. Each call draws a slot below the
count, returns what that slot holds and moves the last slot into it.

The value type {lit}`T` is {lit}`size_t` at its one use and is modelled by {lit}`Nat`;
{lit}`std::uniform_int_distribution` over the generator is a function {lit}`distr` from
the generator state and the upper bound to a value and the next state, of which the
results assume only that the value is in range. {lit}`reset` is not used by the
node and is not modelled.

Main results:

- Theorem {lit}`call_perm`: one call returns one of the values left and leaves the
  others.
- Theorem {lit}`draws_spec`: the first {lit}`k` calls, {lit}`k` up to the count,
  return and together with the values left give back the values there were.
- Theorem {lit}`shuffle_draws_perm`: the first {lit}`n` calls of a generator of
  {lit}`n` values return a permutation of {lit}`0, ..., n - 1`, and the next throws.
-/

namespace CryptoNote

/-! ## Two list facts -/

/-- Setting an entry and putting its old value in front is the list with the new
value appended, up to order. -/
theorem perm_cons_set {α : Type} (l : List α) {i : Nat} (hi : i < l.length) (x : α) :
    (l[i] :: l.set i x).Perm (l ++ [x]) := by
  induction l generalizing i with
  | nil => simp at hi
  | cons a t ih =>
    cases i with
    | zero => exact .cons a (List.perm_append_singleton x t).symm
    | succ i =>
      have hi' : i < t.length := by simpa using hi
      exact (List.Perm.swap a t[i] _).trans (.cons a (ih hi'))

/-- Updating the function at one index is setting that entry of the mapped range. -/
theorem map_range_update (f : Nat → Nat) (value count rval : Nat) :
    (List.range count).map (fun k => if k = value then rval else f k) =
      ((List.range count).map f).set value rval := by
  apply List.ext_getElem <;> simp [List.getElem_set]
  grind

/-! ## The generator -/

/-- The state of {lit}`ShuffleGenerator<size_t, Gen>`. -/
structure ShuffleGenerator (Gen : Type) where
  /-- {lit}`selected`: the slots moved so far and what they hold. -/
  selected : Nat → Option Nat
  /-- {lit}`count`: the number of values not yet returned. -/
  count : Nat
  /-- {lit}`N`: the number of values. -/
  N : Nat
  /-- {lit}`generator`. -/
  generator : Gen

namespace ShuffleGenerator

variable {Gen : Type}

/-- The constructor: {lit}`n` values, none moved. -/
def new (n : Nat) (gen : Gen) : ShuffleGenerator Gen := ⟨fun _ => none, n, n, gen⟩

variable (distr : Gen → Nat → Nat × Gen)

/-- {lit}`operator()`: draw a slot below the count, return what it holds and move the
last slot into it; with no value left it throws. -/
def call (g : ShuffleGenerator Gen) : Except String (Nat × ShuffleGenerator Gen) :=
  if g.count = 0 then .error "shuffle sequence ended"
  else
    let count := g.count - 1
    let (value, generator) := distr g.generator count
    let rval := match g.selected count with
      | some rval => rval
      | none => count
    let g := { g with count, generator }
    match g.selected value with
    | some lval => .ok (lval, { g with selected := Function.update g.selected value (some rval) })
    | none => .ok (value, { g with selected := Function.update g.selected value (some rval) })

/-- The values of {lit}`k` calls in a row, or the exception of the first that throws. -/
def draws : Nat → ShuffleGenerator Gen → Except String (List Nat × ShuffleGenerator Gen)
  | 0, g => .ok ([], g)
  | k + 1, g => do
    let (value, g) ← g.call distr
    let (values, g) ← draws k g
    return (value :: values, g)

/-! ## The values left -/

/-- What a slot holds: its moved value, or itself. -/
def slot (g : ShuffleGenerator Gen) (k : Nat) : Nat := (g.selected k).getD k

/-- The values not yet returned: the slots below the count. -/
def remaining (g : ShuffleGenerator Gen) : List Nat := (List.range g.count).map g.slot

/-- A call that does not end the sequence returns the slot the distribution picks and moves
the last remaining slot into it. -/
theorem call_eq {g : ShuffleGenerator Gen} (hcount : g.count ≠ 0) :
    g.call distr =
      .ok (g.slot (distr g.generator (g.count - 1)).1,
        { g with
          selected := (Function.update g.selected (distr g.generator (g.count - 1)).1
            (some (g.slot (g.count - 1)))),
          count := g.count - 1, generator := (distr g.generator (g.count - 1)).2 }) := by
  unfold call
  rw [if_neg hcount]
  dsimp only
  split <;> rename_i hv <;> split <;> rename_i hc
  all_goals simp [slot, hv, hc]

theorem remaining_of_count_eq {g : ShuffleGenerator Gen} {c : Nat} (hc : g.count = c + 1) :
    g.remaining = (List.range c).map g.slot ++ [g.slot c] := by
  simp [remaining, hc, List.range_succ]

/-- One call that does not end the sequence returns one of the remaining values and leaves
the others: the step of the lazy Fisher-Yates shuffle. -/
theorem call_perm {g g' : ShuffleGenerator Gen} {value : Nat}
    (hdistr : (distr g.generator (g.count - 1)).1 ≤ g.count - 1)
    (h : g.call distr = .ok (value, g')) :
    (value :: g'.remaining).Perm g.remaining ∧ g'.count + 1 = g.count ∧ g'.N = g.N := by
  have hcount : g.count ≠ 0 := by
    intro h0
    simp [call, h0] at h
  obtain ⟨c, hc⟩ : ∃ c, g.count = c + 1 := ⟨g.count - 1, by omega⟩
  rw [call_eq distr hcount] at h
  obtain ⟨rfl, rfl⟩ := Prod.mk.inj (Except.ok.inj h)
  refine ⟨?_, by simp [hc], rfl⟩
  rw [remaining_of_count_eq hc]
  simp only [hc, Nat.add_sub_cancel] at hdistr ⊢
  generalize distr g.generator c = d at hdistr ⊢
  obtain ⟨v, gen⟩ := d
  have hslot : slot ⟨Function.update g.selected v (some (g.slot c)), c, g.N, gen⟩ =
      fun k => if k = v then g.slot c else g.slot k := by
    funext k
    by_cases hk : k = v <;> simp [slot, hk]
  simp only [remaining, hslot]
  rcases Nat.lt_or_ge v c with hlt | hge
  · rw [map_range_update]
    have h := perm_cons_set ((List.range c).map g.slot) (by simpa using hlt) (g.slot c)
    rwa [List.getElem_map, List.getElem_range] at h
  · obtain rfl : v = c := by simp at hdistr; omega
    have hmap : (List.range v).map (fun k => if k = v then g.slot v else g.slot k) =
        (List.range v).map g.slot :=
      List.map_congr_left fun k hk => if_neg (by simp at hk; omega)
    rw [hmap]
    exact (List.perm_append_singleton _ _).symm

theorem call_eq_error {g : ShuffleGenerator Gen} (hcount : g.count = 0) :
    g.call distr = .error "shuffle sequence ended" := by
  simp [call, hcount]

/-- The first {lit}`k` calls, for {lit}`k` up to the count, all return, and the values
they return together with the values left are the values there were: the run lemma. -/
theorem draws_spec (hdistr : ∀ gen hi, (distr gen hi).1 ≤ hi) :
    ∀ (k : Nat) (g : ShuffleGenerator Gen), k ≤ g.count →
      ∃ values g', draws distr k g = .ok (values, g') ∧
        (values ++ g'.remaining).Perm g.remaining ∧ g'.count + k = g.count ∧ g'.N = g.N
  | 0, g, _ => ⟨[], g, rfl, by simp, rfl, rfl⟩
  | k + 1, g, hk => by
    have hcount : g.count ≠ 0 := by omega
    obtain ⟨value, g₁, hcall⟩ : ∃ value g₁, g.call distr = .ok (value, g₁) :=
      ⟨_, _, call_eq distr hcount⟩
    obtain ⟨hperm₁, hcount₁, hN₁⟩ := call_perm distr (hdistr _ _) hcall
    obtain ⟨values, g', hdraws, hperm, hcount', hN'⟩ := draws_spec hdistr k g₁ (by omega)
    have hrun : draws distr (k + 1) g = .ok (value :: values, g') := by
      rw [draws, hcall]
      simp only [bind, Except.bind, hdraws]
      rfl
    refine ⟨value :: values, g', hrun, ?_, by omega, hN'.trans hN₁⟩
    exact (hperm.cons value).trans hperm₁

theorem remaining_new (n : Nat) (gen : Gen) : (new n gen).remaining = List.range n := by
  show (List.range n).map (fun k => (none : Option Nat).getD k) = _
  simp

/-- The generator of {lit}`n` values draws without repetition: its first {lit}`n` calls
return a permutation of {lit}`0, ..., n - 1` and the next one throws, whatever values the
distribution picks in its range. -/
theorem shuffle_draws_perm (hdistr : ∀ gen hi, (distr gen hi).1 ≤ hi) (n : Nat) (gen : Gen) :
    ∃ values g, draws distr n (new n gen) = .ok (values, g) ∧ values.Perm (List.range n) ∧
      g.call distr = .error "shuffle sequence ended" := by
  obtain ⟨values, g, hdraws, hperm, hcount, -⟩ := draws_spec distr hdistr n (new n gen) (Nat.le_refl _)
  have hzero : g.count = 0 := by simp [new] at hcount; omega
  refine ⟨values, g, hdraws, ?_, call_eq_error distr hzero⟩
  rwa [remaining_new, remaining, hzero, List.range_zero, List.map_nil, List.append_nil] at hperm

end ShuffleGenerator

end CryptoNote

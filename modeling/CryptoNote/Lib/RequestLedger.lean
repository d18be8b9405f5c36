import Mathlib.Data.Finset.Basic
import Mathlib.Data.Multiset.OrderedMonoid

/-!
# A ledger of requests and answers

A requester keeps the set of items it has asked for and not yet received.  A
step of it may ask for items, which join the set; take the items of an answer,
which must be exactly those the set holds, and clear it; or drop items from the
set.  Over a run, the items taken together with those still outstanding are at
most the items asked for, counted with multiplicity: nothing is taken that was
not asked for, and nothing more often than it was asked for.

Main results:

- Theorems {lit}`keeps_ask`, {lit}`keeps_take` and {lit}`keeps_of_subset`: the
  three kinds of step keep the ledger, and {lit}`Keeps.trans` composes steps.
- Theorem {lit}`Keeps.invariant`: a step that keeps the ledger keeps the run's
  invariant {lit}`taken + outstanding ≤ asked`.
-/

namespace RequestLedger

variable {α : Type}

/-- A step from the outstanding set {lit}`s` to {lit}`s'` keeps the ledger when
what it takes and leaves outstanding is at most what was outstanding and what
it asked for. -/
def Keeps (s s' : Finset α) (taken asked : Multiset α) : Prop :=
  taken + s'.val ≤ s.val + asked

variable {s s₁ s₂ s₃ : Finset α} {taken asked t₁ t₂ a₁ a₂ : Multiset α}

/-- Dropping outstanding items, and asking for anything besides, keeps the ledger. -/
theorem keeps_of_subset (h : s' ⊆ s) (asked : Multiset α) : Keeps s s' 0 asked := by
  rw [Keeps, zero_add]
  exact (Finset.val_le_iff.mpr h).trans (Multiset.le_add_right _ _)

/-- Asking for the items of a list adds each of them to the outstanding set at
most as often as the list names it. -/
theorem keeps_ask [DecidableEq α] (s : Finset α) (l : List α) : Keeps s (s ∪ l.toFinset) 0 ↑l := by
  have hdedup : l.toFinset.val ≤ ↑l := by
    rw [List.toFinset_val]
    exact Multiset.dedup_le _
  rw [Keeps, zero_add, Finset.union_val]
  exact (Multiset.union_le_add _ _).trans (add_le_add_right hdedup _)

/-- Taking an answer that holds each outstanding item once, and nothing else,
clears the outstanding set. -/
theorem keeps_take [DecidableEq α] {l : List α} (hnodup : l.Nodup) (h : l.toFinset = s) : Keeps s ∅ ↑l 0 := by
  have hval : s.val = ↑l := by
    rw [← h, List.toFinset_val, hnodup.dedup]
  rw [Keeps, Finset.empty_val, add_zero, add_zero, hval]

/-- Two steps that keep the ledger make one that does. -/
theorem Keeps.trans (h₁ : Keeps s₁ s₂ t₁ a₁) (h₂ : Keeps s₂ s₃ t₂ a₂) :
    Keeps s₁ s₃ (t₁ + t₂) (a₁ + a₂) :=
  calc t₁ + t₂ + s₃.val
      = t₁ + (t₂ + s₃.val) := add_assoc _ _ _
    _ ≤ t₁ + (s₂.val + a₂) := add_le_add_right h₂ _
    _ = t₁ + s₂.val + a₂ := (add_assoc _ _ _).symm
    _ ≤ s₁.val + a₁ + a₂ := add_le_add_left h₁ _
    _ = s₁.val + (a₁ + a₂) := add_assoc _ _ _

/-- A step that keeps the ledger keeps the invariant of the run: what was taken
and is outstanding is at most what was asked for. -/
theorem Keeps.invariant (hinv : taken + s.val ≤ asked) (h : Keeps s s' t₁ a₁) :
    taken + t₁ + s'.val ≤ asked + a₁ :=
  calc taken + t₁ + s'.val
      = taken + (t₁ + s'.val) := add_assoc _ _ _
    _ ≤ taken + (s.val + a₁) := add_le_add_right h _
    _ = taken + s.val + a₁ := (add_assoc _ _ _).symm
    _ ≤ asked + a₁ := add_le_add_left hinv _

end RequestLedger

import Mathlib.Data.List.GetD
import Mathlib.Data.List.Infix
import Mathlib.Data.List.TakeDrop

/-!
# Windows of a list

A window is a list {lit}`w` laid over a list {lit}`l` from a position {lit}`s`
on: position {lit}`k` of {lit}`l` faces position {lit}`k - s` of {lit}`w`.  A
replica that receives a window of a longer list checks it against what it holds
and keeps its own elements below {lit}`s`; what it should hold afterwards is
{lit}`l.take s ++ w`.  These lemmas say when that list is already a prefix of
{lit}`l`, and what cutting {lit}`l` at the first disagreement and appending the
rest of the window gives.

Reads out of range are {lit}`getD` with the default element, as a replica's
checks read them.

Main results:

- Theorem {lit}`take_append_drop_of_agrees`: cut at a position up to which
  {lit}`l` agrees with the window, the rest of the window completes
  {lit}`l.take s ++ w`.
- Theorems {lit}`prefix_of_agrees` and {lit}`not_prefix_of_getD_ne`: the window
  is already in place exactly when {lit}`l` agrees with all of it.
- Theorem {lit}`take_append_window`: a window cut out of a list {lit}`m` at
  {lit}`s`, laid over a list that shares {lit}`m`'s first {lit}`s` elements, is
  a prefix of {lit}`m`.
-/

namespace ListWindow

variable {α : Type} [Inhabited α]

/-- The list agrees with the window laid at {lit}`s` at the positions from
{lit}`s` below {lit}`d`. -/
def Agrees (l w : List α) (s d : Nat) : Prop :=
  ∀ k, s ≤ k → k < d → l.getD k default = w.getD (k - s) default

variable {l w : List α} {s d : Nat}

theorem Agrees.mono {d' : Nat} (h : Agrees l w s d) (hd : d' ≤ d) : Agrees l w s d' :=
  fun k hk hkd => h k hk (lt_of_lt_of_le hkd hd)

/-- Up to a position where they agree, the list is its own first {lit}`s`
elements followed by the window. -/
theorem take_eq_of_agrees (h : Agrees l w s d) (hs : s ≤ d) (hd : d ≤ l.length)
    (hw : d - s ≤ w.length) : l.take d = l.take s ++ w.take (d - s) := by
  apply List.ext_getElem
  · simp only [List.length_take, List.length_append]
    omega
  · intro k hk _
    rw [List.length_take] at hk
    rw [List.getElem_take]
    by_cases hks : k < s
    · rw [List.getElem_append_left (by simp; omega), List.getElem_take]
    · rw [List.getElem_append_right (by simp; omega), List.getElem_take]
      have hagree := h k (by omega) (by omega)
      rw [List.getD_eq_getElem _ _ (by omega), List.getD_eq_getElem _ _ (by omega)] at hagree
      simp only [List.length_take, Nat.min_eq_left (show s ≤ l.length by omega)]
      exact hagree

/-- Up to a position where they agree, the list is the first elements of its
own first {lit}`s` elements followed by the window. -/
theorem take_eq_take_of_agrees (h : Agrees l w s d) (hs : s ≤ d) (hd : d ≤ l.length)
    (hw : d - s ≤ w.length) : l.take d = (l.take s ++ w).take d := by
  rw [take_eq_of_agrees h hs hd hw, List.take_append, List.take_take, List.length_take,
    Nat.min_eq_left (show s ≤ l.length by omega), Nat.min_eq_right hs]

/-- Cut at a position up to which the list agrees with the window, the rest of
the window completes the list's first {lit}`s` elements followed by the
window. -/
theorem take_append_drop_of_agrees (h : Agrees l w s d) (hs : s ≤ d) (hd : d ≤ l.length)
    (hw : d - s ≤ w.length) : l.take d ++ w.drop (d - s) = l.take s ++ w := by
  rw [take_eq_of_agrees h hs hd hw, List.append_assoc, List.take_append_drop]

/-- A window the list agrees with all along is already in place. -/
theorem prefix_of_agrees (h : Agrees l w s (s + w.length)) (hw : s + w.length ≤ l.length) :
    l.take s ++ w <+: l := by
  have htake := take_eq_of_agrees h (Nat.le_add_right s _) hw (by omega)
  rw [Nat.add_sub_cancel_left, List.take_length] at htake
  rw [← htake]
  exact List.take_prefix _ _

omit [Inhabited α] in
/-- A window that ends above the list is not in place. -/
theorem not_prefix_of_length_lt (h : l.length < s + w.length) (hs : s ≤ l.length) :
    ¬l.take s ++ w <+: l := by
  intro hpre
  have := hpre.length_le
  simp only [List.length_append, List.length_take] at this
  omega

/-- A window the list disagrees with at some position is not in place. -/
theorem not_prefix_of_getD_ne (hs : s ≤ d) (hd : d < l.length) (hw : d - s < w.length)
    (hne : l.getD d default ≠ w.getD (d - s) default) : ¬l.take s ++ w <+: l := by
  intro hpre
  apply hne
  have hlen : s ≤ l.length := by omega
  have hget := hpre.getElem (i := d) (by simp; omega)
  rw [List.getElem_append_right (by simp; omega)] at hget
  simp only [List.length_take, Nat.min_eq_left hlen] at hget
  rw [List.getD_eq_getElem _ _ hd, List.getD_eq_getElem _ _ hw, hget]

omit [Inhabited α] in
/-- A window cut out of {lit}`m` at {lit}`s`, over a list with {lit}`m`'s first
{lit}`s` elements, gives a prefix of {lit}`m`. -/
theorem take_append_window {m : List α} (h : l.take s = m.take s) (k : Nat) :
    l.take s ++ (m.drop s).take k = m.take (s + k) := by
  rw [h, List.take_add]

end ListWindow

import Mathlib.Data.List.Sort

/-!
# Ordered non-unique indices

An index of a multi-index container that orders its elements by a key and
allows equal keys, kept as the list of the elements in index order.  A new
element goes after every element whose key is at most its own, the place the
usual red-black implementation links it at.  Replacing an element keeps its
place when the new key still fits between its neighbours and otherwise moves
it as an insertion would.  Trimming from the front, as a bounded container does
to make room, drops the elements of least key.

Main results:

- Theorems {lit}`sorted_insert`, {lit}`sorted_replaceAt`: both operations keep
  the list sorted by the key.
- Theorems {lit}`perm_insert`, {lit}`perm_replaceAt`: they add or swap exactly
  one element.
- Theorem {lit}`trimFront_spec`: trimming keeps the last {lit}`maxSize`
  elements, and on a sorted list no dropped element has a larger key than a
  kept one.
- Theorem {lit}`take_reverse_filter_ge`: a walk from the back of the index meets
  the greatest keys first.
-/

namespace OrderedIndex

variable {α β : Type} [LinearOrder β] (key : α → β)

/-- The elements are in non-decreasing order of their keys. -/
def Sorted (l : List α) : Prop := l.Pairwise fun a b => key a ≤ key b

/-- Insert after every element whose key is at most the new one's. -/
def insert (a : α) (l : List α) : List α := l.orderedInsert (fun a b => key a < key b) a

/-- Replace the element at position {lit}`i`: in place when the new key lies
between the keys of its neighbours, otherwise by an insertion among the
others. -/
def replaceAt (i : Nat) (a : α) (l : List α) : List α :=
  if (∀ b ∈ (l.take i).getLast?, key b ≤ key a) ∧ (∀ b ∈ (l.drop (i + 1)).head?, key a ≤ key b) then
    l.take i ++ a :: l.drop (i + 1)
  else insert key a (l.eraseIdx i)

/-- Erase the first element while more than {lit}`maxSize` remain. -/
def trimFront (maxSize : Nat) : List α → List α
  | [] => []
  | a :: l => if (a :: l).length > maxSize then trimFront maxSize l else a :: l

variable {key}

theorem perm_insert (a : α) (l : List α) : List.Perm (insert key a l) (a :: l) :=
  List.perm_orderedInsert _ a l

theorem mem_insert {a b : α} {l : List α} : b ∈ insert key a l ↔ b = a ∨ b ∈ l := by
  rw [(perm_insert a l).mem_iff, List.mem_cons]

theorem length_insert (a : α) (l : List α) : (insert key a l).length = l.length + 1 :=
  (perm_insert a l).length_eq

/-- Insertion keeps the index sorted. -/
theorem sorted_insert (a : α) : ∀ {l : List α}, Sorted key l → Sorted key (insert key a l)
  | [], _ => List.pairwise_singleton _ a
  | b :: l, hl => by
    rw [Sorted, List.pairwise_cons] at hl
    unfold insert
    rw [List.orderedInsert_cons]
    split_ifs with hab
    · refine List.pairwise_cons.mpr ⟨?_, List.pairwise_cons.mpr hl⟩
      intro c hc
      rcases List.mem_cons.mp hc with rfl | hc
      · exact le_of_lt hab
      · exact (le_of_lt hab).trans (hl.1 c hc)
    · refine List.pairwise_cons.mpr ⟨?_, sorted_insert a hl.2⟩
      intro c hc
      rcases mem_insert.mp hc with rfl | hc
      · exact le_of_not_gt hab
      · exact hl.1 c hc

theorem length_eraseIdx_add_one {i : Nat} {l : List α} (hi : i < l.length) :
    (l.eraseIdx i).length + 1 = l.length := by
  rw [List.length_eraseIdx_of_lt hi]
  omega

/-- Replacing an element permutes the list with it erased and the new one added. -/
theorem perm_replaceAt (i : Nat) (l : List α) (a : α) :
    List.Perm (replaceAt key i a l) (a :: l.eraseIdx i) := by
  unfold replaceAt
  split_ifs
  · rw [List.eraseIdx_eq_take_drop_succ]
    exact List.perm_middle
  · exact perm_insert a _

/-- In a sorted list every element is at most the last one. -/
theorem le_getLast_of_sorted {l : List α} (hl : Sorted key l) {b : α} (hb : b ∈ l) :
    key b ≤ key (l.getLast (List.ne_nil_of_mem hb)) := by
  have hsplit := List.dropLast_append_getLast (List.ne_nil_of_mem hb)
  rw [← hsplit] at hb
  rcases List.mem_append.mp hb with hb | hb
  · rw [Sorted, ← hsplit, List.pairwise_append] at hl
    exact hl.2.2 b hb _ (List.mem_singleton_self _)
  · exact le_of_eq (congrArg key (List.mem_singleton.mp hb))

/-- In a sorted list the first element is at most every element. -/
theorem head_le_of_sorted {l : List α} (hl : Sorted key l) {c : α} (hc : c ∈ l) :
    key (l.head (List.ne_nil_of_mem hc)) ≤ key c := by
  obtain ⟨d, rest, rfl⟩ := List.exists_cons_of_ne_nil (List.ne_nil_of_mem hc)
  rcases List.mem_cons.mp hc with rfl | hc
  · exact le_refl _
  · exact (List.pairwise_cons.mp hl).1 c hc

/-- The sublist around position {lit}`i` of a sorted list, with a key in between,
is still sorted. -/
theorem sorted_take_cons_drop {i : Nat} {l : List α} {a : α} (hl : Sorted key l)
    (hprev : ∀ b ∈ (l.take i).getLast?, key b ≤ key a)
    (hnext : ∀ b ∈ (l.drop (i + 1)).head?, key a ≤ key b) :
    Sorted key (l.take i ++ a :: l.drop (i + 1)) := by
  have hdrop : Sorted key (l.drop (i + 1)) := hl.sublist (List.drop_sublist _ _)
  have htake : Sorted key (l.take i) := hl.sublist (List.take_sublist _ _)
  have hacross : ∀ b ∈ l.take i, ∀ c ∈ l.drop (i + 1), key b ≤ key c := by
    intro b hb c hc
    have hsplit := hl
    rw [← List.take_append_drop i l, Sorted, List.pairwise_append] at hsplit
    exact hsplit.2.2 b hb c (List.mem_of_mem_tail (by rwa [List.tail_drop]))
  refine List.pairwise_append.mpr ⟨htake, List.pairwise_cons.mpr ⟨?_, hdrop⟩, ?_⟩
  · intro c hc
    exact (hnext _ (List.head?_eq_some_head (List.ne_nil_of_mem hc) ▸ rfl)).trans
      (head_le_of_sorted hdrop hc)
  · intro b hb c hc
    rcases List.mem_cons.mp hc with rfl | hc
    · exact (le_getLast_of_sorted htake hb).trans
        (hprev _ (List.getLast?_eq_some_getLast (List.ne_nil_of_mem hb) ▸ rfl))
    · exact hacross b hb c hc

theorem sorted_replaceAt (i : Nat) (a : α) {l : List α} (hl : Sorted key l) :
    Sorted key (replaceAt key i a l) := by
  unfold replaceAt
  split_ifs with hfit
  · exact sorted_take_cons_drop hl hfit.1 hfit.2
  · exact sorted_insert a (hl.sublist (List.eraseIdx_sublist _ _))

/-- Trimming keeps the last {lit}`maxSize` elements. -/
theorem trimFront_eq_drop (maxSize : Nat) :
    ∀ l : List α, trimFront maxSize l = l.drop (l.length - maxSize)
  | [] => by simp [trimFront]
  | a :: l => by
    unfold trimFront
    split_ifs with h
    · rw [trimFront_eq_drop maxSize l, List.length_cons,
        show l.length + 1 - maxSize = (l.length - maxSize) + 1 by simp at h; omega]
      rfl
    · simp at h
      rw [show (a :: l).length - maxSize = 0 by simp; omega]
      rfl

theorem length_trimFront_le (maxSize : Nat) (l : List α) : (trimFront maxSize l).length ≤ maxSize := by
  rw [trimFront_eq_drop, List.length_drop]
  omega

theorem trimFront_sublist (maxSize : Nat) (l : List α) : List.Sublist (trimFront maxSize l) l := by
  rw [trimFront_eq_drop]
  exact List.drop_sublist _ _

/-- On a sorted list, trimming drops elements of least key: the dropped prefix is
below everything kept. -/
theorem trimFront_spec (maxSize : Nat) {l : List α} (hl : Sorted key l) :
    ∃ dropped, l = dropped ++ trimFront maxSize l ∧
      ∀ b ∈ dropped, ∀ c ∈ trimFront maxSize l, key b ≤ key c := by
  refine ⟨l.take (l.length - maxSize), ?_, ?_⟩
  · rw [trimFront_eq_drop, List.take_append_drop]
  · intro b hb c hc
    rw [trimFront_eq_drop] at hc
    have hsplit := hl
    rw [Sorted, ← List.take_append_drop (l.length - maxSize) l, List.pairwise_append] at hsplit
    exact hsplit.2.2 b hb c hc

/-- Walked backwards, a sorted list gives its elements in non-increasing order of
key, so the first {lit}`n` of those a filter keeps have keys at least those of
the rest. -/
theorem take_reverse_filter_ge {l : List α} (hl : Sorted key l) (p : α → Bool) (n : Nat) :
    ((l.reverse.filter p).take n).Pairwise (fun a b => key b ≤ key a) ∧
      ∀ a ∈ (l.reverse.filter p).take n, ∀ b ∈ (l.reverse.filter p).drop n, key b ≤ key a := by
  have hdesc : (l.reverse.filter p).Pairwise (fun a b => key b ≤ key a) :=
    (List.pairwise_reverse.mpr hl).filter p
  rw [← List.take_append_drop n (l.reverse.filter p), List.pairwise_append] at hdesc
  exact ⟨hdesc.1, hdesc.2.2⟩

end OrderedIndex

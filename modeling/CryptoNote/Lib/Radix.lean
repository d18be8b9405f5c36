import Mathlib.Data.Nat.Digits.Defs

/-!
# Fixed-width digits and lists read in blocks

Two tools for codecs that cut their input into blocks and write each block as a
number in some base.

{lit}`Radix.fixedDigits b w v` is the list of the {lit}`w` lowest base-{lit}`b`
digits of {lit}`v`, the least significant first, padded with zeros.  With
Mathlib's {lit}`Nat.ofDigits` it is a bijection between the numbers below
{lit}`b ^ w` and the lists of {lit}`w` digits below {lit}`b`.

A list cut into blocks of {lit}`n` is read at the offsets {lit}`i * n`, as a loop
over block indices reads it; the block lemmas say what such a loop sees, and the
{lit}`Option` lemmas what a loop that can fail on a block returns.

Main results:

- Theorems {lit}`ofDigits_fixedDigits` and {lit}`fixedDigits_ofDigits`: the two
  round trips between numbers and fixed-width digit lists.
- Theorem {lit}`flatten_map_range_block`: the first {lit}`k` blocks of a list,
  laid end to end, are its first {lit}`k * n` elements.
- Theorem {lit}`map_range_block_flatten`: the blocks of a list of blocks of
  length {lit}`n`, whatever follows them, are those blocks.
- Theorems {lit}`mapM_eq_some_map` and {lit}`forall₂_of_mapM_eq_some`: when a
  fallible loop succeeds, and what its results are.
-/

namespace Radix

/-- The {lit}`w` lowest base-{lit}`b` digits of {lit}`v`, the least significant
first. -/
def fixedDigits (b : Nat) : Nat → Nat → List Nat
  | 0, _ => []
  | w + 1, v => v % b :: fixedDigits b w (v / b)

variable {b : Nat}

@[simp] theorem fixedDigits_zero_width (v : Nat) : fixedDigits b 0 v = [] := rfl

@[simp] theorem fixedDigits_succ (w v : Nat) :
    fixedDigits b (w + 1) v = v % b :: fixedDigits b w (v / b) := rfl

@[simp] theorem length_fixedDigits (w v : Nat) : (fixedDigits b w v).length = w := by
  induction w generalizing v with
  | zero => rfl
  | succ w ih => simp [ih]

/-- Every digit is below the base. -/
theorem lt_of_mem_fixedDigits {w v d : Nat} (hb : 0 < b) (hd : d ∈ fixedDigits b w v) :
    d < b := by
  induction w generalizing v with
  | zero => simp at hd
  | succ w ih =>
    rcases List.mem_cons.mp hd with rfl | hd
    · exact Nat.mod_lt v hb
    · exact ih hd

/-- The digits are those of the number modulo {lit}`b ^ w`. -/
theorem ofDigits_fixedDigits (w v : Nat) : Nat.ofDigits b (fixedDigits b w v) = v % b ^ w := by
  induction w generalizing v with
  | zero => simp [Nat.mod_one]
  | succ w ih => rw [fixedDigits_succ, Nat.ofDigits_cons, ih, Nat.pow_succ', Nat.mod_mul]

theorem ofDigits_fixedDigits_of_lt {w v : Nat} (hv : v < b ^ w) :
    Nat.ofDigits b (fixedDigits b w v) = v := by
  rw [ofDigits_fixedDigits, Nat.mod_eq_of_lt hv]

/-- A list of digits below {lit}`b` is the fixed-width digit list of its value. -/
theorem fixedDigits_ofDigits {ds : List Nat} (hds : ∀ d ∈ ds, d < b) :
    fixedDigits b ds.length (Nat.ofDigits b ds) = ds := by
  induction ds with
  | nil => rfl
  | cons d ds ih =>
    have hd : d < b := hds d List.mem_cons_self
    have hrest := ih fun x hx => hds x (List.mem_cons_of_mem d hx)
    have hmod : (d + b * Nat.ofDigits b ds) % b = d := by
      rw [Nat.add_mul_mod_self_left, Nat.mod_eq_of_lt hd]
    have hdiv : (d + b * Nat.ofDigits b ds) / b = Nat.ofDigits b ds := by
      rw [Nat.add_mul_div_left _ _ (by omega), Nat.div_eq_of_lt hd, Nat.zero_add]
    rw [List.length_cons, fixedDigits_succ, Nat.ofDigits_cons, hmod, hdiv, hrest]

/-- The digits of zero are zeros. -/
theorem fixedDigits_zero (w : Nat) : fixedDigits b w 0 = List.replicate w 0 := by
  induction w with
  | zero => rfl
  | succ w ih => simp [ih, List.replicate_succ]

/-- Digit {lit}`j` of {lit}`v` is {lit}`v / b ^ j % b`. -/
theorem fixedDigits_eq_map_range (w v : Nat) :
    fixedDigits b w v = (List.range w).map fun j => v / b ^ j % b := by
  induction w generalizing v with
  | zero => rfl
  | succ w ih =>
    rw [fixedDigits_succ, ih, List.range_succ_eq_map, List.map_cons, List.map_map]
    congr 1
    · simp
    · apply List.map_congr_left
      intro j _
      simp [Nat.pow_succ', Nat.div_div_eq_div_mul]

/-! ## Lists read in blocks -/

variable {α β : Type}

/-- Block {lit}`i` of a list cut into blocks of {lit}`n`. -/
def block (n : Nat) (l : List α) (i : Nat) : List α :=
  (l.drop (i * n)).take n

theorem length_block {n : Nat} {l : List α} {i : Nat} (h : (i + 1) * n ≤ l.length) :
    (block n l i).length = n := by
  rw [block, List.length_take, List.length_drop]
  rw [Nat.succ_mul] at h
  omega

/-- The first {lit}`k` blocks, laid end to end, are the first {lit}`k * n`
elements. -/
theorem flatten_map_range_block (n : Nat) (l : List α) (k : Nat) :
    ((List.range k).map (block n l)).flatten = l.take (k * n) := by
  induction k with
  | zero => simp
  | succ k ih =>
    rw [List.range_succ, List.map_append, List.flatten_append, ih, Nat.succ_mul, List.take_add]
    simp [block]

/-- Blocks of one length flatten to that many elements per block. -/
theorem length_flatten_of_forall {n : Nat} :
    ∀ {bs : List (List α)}, (∀ x ∈ bs, x.length = n) → bs.flatten.length = bs.length * n
  | [], _ => by simp
  | x :: bs, h => by
    rw [List.flatten_cons, List.length_append, h x List.mem_cons_self,
      length_flatten_of_forall fun y hy => h y (List.mem_cons_of_mem x hy), List.length_cons,
      Nat.succ_mul, Nat.add_comm]

/-- Block {lit}`i` of blocks of length {lit}`n` laid end to end, whatever follows
them, is the {lit}`i`-th of them. -/
theorem block_flatten_append {n : Nat} {bs : List (List α)} (hbs : ∀ x ∈ bs, x.length = n)
    (t : List α) : ∀ {i : Nat} (hi : i < bs.length), block n (bs.flatten ++ t) i = bs[i] := by
  induction bs with
  | nil => intro i hi; simp at hi
  | cons x bs ih =>
    have hx : x.length = n := hbs x List.mem_cons_self
    intro i hi
    cases i with
    | zero => simp [block, ← hx]
    | succ i =>
      have hdrop : (x ++ (bs.flatten ++ t)).drop ((i + 1) * n) =
          (bs.flatten ++ t).drop (i * n) := by
        rw [Nat.succ_mul, Nat.add_comm, ← List.drop_drop, ← hx, List.drop_left]
      simp only [block, List.flatten_cons, List.append_assoc, hdrop, List.getElem_cons_succ]
      exact ih (fun y hy => hbs y (List.mem_cons_of_mem x hy)) (by simpa using hi)

theorem map_range_block_flatten {n : Nat} {bs : List (List α)} (hbs : ∀ x ∈ bs, x.length = n)
    (t : List α) : (List.range bs.length).map (block n (bs.flatten ++ t)) = bs := by
  apply List.ext_getElem (by simp)
  intro i hi _
  simp only [List.getElem_map, List.getElem_range]
  exact block_flatten_append hbs t (by simpa using hi)

/-- A length below {lit}`n` after {lit}`k` whole blocks leaves {lit}`k` whole
blocks and the rest. -/
theorem length_div_mod_of_blocks {n k r : Nat} (hr : r < n) :
    (k * n + r) / n = k ∧ (k * n + r) % n = r := by
  have hn : 0 < n := by omega
  constructor
  · rw [Nat.add_comm, Nat.add_mul_div_right _ _ hn, Nat.div_eq_of_lt hr, Nat.zero_add]
  · rw [Nat.add_comm, Nat.add_mul_mod_self_right, Nat.mod_eq_of_lt hr]

/-! ## Loops that can fail -/

/-- A loop whose every step succeeds returns every step's result. -/
theorem mapM_eq_some_map {f : α → Option β} {g : α → β} :
    ∀ {l : List α}, (∀ a ∈ l, f a = some (g a)) → l.mapM f = some (l.map g)
  | [], _ => rfl
  | a :: l, h => by
    have hrest := mapM_eq_some_map fun x hx => h x (List.mem_cons_of_mem a hx)
    simp [h a List.mem_cons_self, hrest]

/-- A loop that succeeds returned, for each input, the result of its step. -/
theorem forall₂_of_mapM_eq_some {f : α → Option β} :
    ∀ {l : List α} {ys : List β}, l.mapM f = some ys → List.Forall₂ (fun a y => f a = some y) l ys
  | [], ys, h => by
    simp only [List.mapM_nil] at h
    cases h
    exact List.Forall₂.nil
  | a :: l, ys, h => by
    simp only [List.mapM_cons, Option.bind_eq_bind, Option.bind_eq_some_iff] at h
    obtain ⟨y, hy, rest, hrest, hys⟩ := h
    cases hys
    exact List.Forall₂.cons hy (forall₂_of_mapM_eq_some hrest)

end Radix

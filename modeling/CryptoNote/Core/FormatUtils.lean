import Mathlib.Data.List.Sort
import Mathlib.Data.UInt

/-!
# Output offsets and the digits of an amount

Two helpers of {lit}`CryptoNoteFormatUtils`.

The ring members of a key input are stored as relative offsets: the first
global output index, then the distance from each index to the one before.
{lit}`absolute_output_offsets_to_relative` sorts the indexes and takes the
differences from the last index down to the second;
{lit}`relative_output_offsets_to_absolute` adds each entry to the one before it,
from the second on.  Both work in place on a vector of {lit}`uint32_t`, and
both loops are modelled with their indexes over a list; the sort is
{lit}`insertionSort` under the order {lit}`std::sort` uses.

Main results:

- Theorems {lit}`relativeOutputOffsetsToAbsolute_eq` and
  {lit}`absoluteOutputOffsetsToRelative_eq`: the two index loops compute the
  running sums and the differences of their input.
- Theorem {lit}`outputOffsets_round_trip`: relative offsets made absolute give
  back the sorted indexes, whatever the wrap of the additions; absolute offsets
  made relative give back relative offsets whose running sums fit in
  {lit}`uint32_t`.
-/

namespace CryptoNote

/-! ## Output offsets -/

/-- The loop of {lit}`relative_output_offsets_to_absolute` from index {lit}`i`:
each entry is added to the entry before it, which the loop has already made
absolute. -/
def relativeToAbsoluteLoop (res : List UInt32) (i : Nat) : List UInt32 :=
  if i < res.length then
    relativeToAbsoluteLoop (res.set i (res.getD i 0 + res.getD (i - 1) 0)) (i + 1)
  else res
termination_by res.length - i
decreasing_by
  rw [List.length_set]
  omega

/-- {lit}`relative_output_offsets_to_absolute`. -/
def relativeOutputOffsetsToAbsolute (off : List UInt32) : List UInt32 :=
  relativeToAbsoluteLoop off 1

/-- The loop of {lit}`absolute_output_offsets_to_relative` from index {lit}`i`
down to 1: each entry less the entry before it, which the loop has not reached
yet. -/
def absoluteToRelativeLoop (res : List UInt32) : Nat → List UInt32
  | 0 => res
  | i + 1 => absoluteToRelativeLoop (res.set (i + 1) (res.getD (i + 1) 0 - res.getD i 0)) i

/-- {lit}`absolute_output_offsets_to_relative`. -/
def absoluteOutputOffsetsToRelative (off : List UInt32) : List UInt32 :=
  if off.length = 0 then off
  else
    let res := off.insertionSort (· ≤ ·)
    absoluteToRelativeLoop res (res.length - 1)

/-- The running sums of the offsets after the first, from the absolute offset
before them. -/
def absoluteFrom (previous : UInt32) : List UInt32 → List UInt32
  | [] => []
  | offset :: rest => (offset + previous) :: absoluteFrom (offset + previous) rest

/-- The differences of the indexes after the first, from the index before them. -/
def relativeFrom (previous : UInt32) : List UInt32 → List UInt32
  | [] => []
  | offset :: rest => (offset - previous) :: relativeFrom offset rest

/-- One more absolute offset adds its difference from the one before it. -/
theorem relativeFrom_concat (previous last : UInt32) (offsets : List UInt32) :
    relativeFrom previous (offsets ++ [last]) =
      relativeFrom previous offsets ++ [last - (previous :: offsets).getLast (by simp)] := by
  induction offsets generalizing previous with
  | nil => rfl
  | cons offset rest ih =>
    simp only [List.cons_append, relativeFrom, ih, List.getLast_cons_cons]

/-- The forward loop from an entry that is already absolute: the entries before
it stay, and the rest become running sums from it. -/
theorem relativeToAbsoluteLoop_append (done : List UInt32) (previous : UInt32)
    (rest : List UInt32) :
    relativeToAbsoluteLoop (done ++ previous :: rest) (done.length + 1) =
      done ++ previous :: absoluteFrom previous rest := by
  induction rest generalizing done previous with
  | nil =>
    rw [relativeToAbsoluteLoop, if_neg (by simp)]
    rfl
  | cons offset rest ih =>
    have hlength : done.length + 1 < (done ++ previous :: offset :: rest).length := by simp
    have hset : (done ++ previous :: offset :: rest).set (done.length + 1)
        ((done ++ previous :: offset :: rest).getD (done.length + 1) 0 +
          (done ++ previous :: offset :: rest).getD (done.length + 1 - 1) 0) =
        (done ++ [previous]) ++ (offset + previous) :: rest := by
      simp [List.set_append_right, List.getD_eq_getElem?_getD]
    rw [relativeToAbsoluteLoop, if_pos hlength, hset]
    have hdone : (done ++ [previous]).length + 1 = done.length + 1 + 1 := by simp
    rw [← hdone, ih]
    simp [absoluteFrom]

/-- {lit}`relative_output_offsets_to_absolute` keeps the first offset and
replaces the others by running sums from it. -/
theorem relativeOutputOffsetsToAbsolute_eq (first : UInt32) (rest : List UInt32) :
    relativeOutputOffsetsToAbsolute (first :: rest) = first :: absoluteFrom first rest :=
  relativeToAbsoluteLoop_append [] first rest

@[simp]
theorem relativeOutputOffsetsToAbsolute_nil : relativeOutputOffsetsToAbsolute [] = [] := by
  simp [relativeOutputOffsetsToAbsolute, relativeToAbsoluteLoop]

/-- The backward loop from the last index not yet reached: the entries after it
stay, and the ones up to it become differences. -/
theorem absoluteToRelativeLoop_append (first : UInt32) (rest done : List UInt32) :
    absoluteToRelativeLoop ((first :: rest) ++ done) rest.length =
      (first :: relativeFrom first rest) ++ done := by
  induction rest using List.reverseRecOn generalizing done with
  | nil => rfl
  | append_singleton rest last ih =>
    have hlast : ((first :: rest) ++ [last] ++ done).getD rest.length 0 =
        (first :: rest).getLast (by simp) := by
      rw [List.getD_eq_getElem?_getD, List.append_assoc, List.getElem?_append_left (by simp),
        List.getLast_eq_getElem]
      simp
    have hset : ((first :: rest) ++ [last] ++ done).set (rest.length + 1)
        (((first :: rest) ++ [last] ++ done).getD (rest.length + 1) 0 -
          ((first :: rest) ++ [last] ++ done).getD rest.length 0) =
        (first :: rest) ++ (last - (first :: rest).getLast (by simp)) :: done := by
      rw [hlast]
      simp [List.set_append_right, List.getD_eq_getElem?_getD]
    rw [List.length_append, List.length_singleton, ← List.cons_append, absoluteToRelativeLoop,
      hset, ih]
    simp [relativeFrom_concat]

/-- {lit}`absolute_output_offsets_to_relative` keeps the least index and replaces
the others, in sorted order, by their differences. -/
theorem absoluteOutputOffsetsToRelative_eq {off : List UInt32} {first : UInt32}
    {rest : List UInt32} (hsorted : off.insertionSort (· ≤ ·) = first :: rest) :
    absoluteOutputOffsetsToRelative off = first :: relativeFrom first rest := by
  have hlength : off.length ≠ 0 := by
    rw [← List.length_insertionSort (· ≤ ·), hsorted]
    simp
  have hloop := absoluteToRelativeLoop_append first rest []
  simp only [List.append_nil] at hloop
  simp only [absoluteOutputOffsetsToRelative, if_neg hlength, hsorted, List.length_cons,
    Nat.add_sub_cancel, hloop]

example : absoluteOutputOffsetsToRelative [7, 3, 3, 10] = [3, 0, 4, 3] := by decide

@[simp]
theorem absoluteOutputOffsetsToRelative_nil : absoluteOutputOffsetsToRelative [] = [] := rfl

/-! ### Round trips -/

/-- Running sums undo differences, in {lit}`uint32_t` with or without a wrap. -/
@[simp]
theorem absoluteFrom_relativeFrom (previous : UInt32) (offsets : List UInt32) :
    absoluteFrom previous (relativeFrom previous offsets) = offsets := by
  induction offsets generalizing previous with
  | nil => rfl
  | cons offset rest ih => simp [relativeFrom, absoluteFrom, ih]

/-- Differences undo running sums. -/
@[simp]
theorem relativeFrom_absoluteFrom (previous : UInt32) (offsets : List UInt32) :
    relativeFrom previous (absoluteFrom previous offsets) = offsets := by
  induction offsets generalizing previous with
  | nil => rfl
  | cons offset rest ih => simp [relativeFrom, absoluteFrom, ih]

/-- Running sums that do not wrap never fall. -/
theorem isChain_absoluteFrom (previous : UInt32) (offsets : List UInt32)
    (hfit : previous.toNat + (offsets.map UInt32.toNat).sum < 2 ^ 32) :
    (previous :: absoluteFrom previous offsets).IsChain (· ≤ ·) := by
  induction offsets generalizing previous with
  | nil => exact .singleton previous
  | cons offset rest ih =>
    simp only [List.map_cons, List.sum_cons] at hfit
    have hsum : (offset + previous).toNat = offset.toNat + previous.toNat := by
      rw [UInt32.toNat_add, Nat.mod_eq_of_lt (by omega)]
    refine List.isChain_cons_cons.mpr ⟨?_, ih (offset + previous) (by omega)⟩
    rw [UInt32.le_iff_toNat_le, hsum]
    omega

/-- Sorting and taking differences, then running sums, gives the sorted indexes. -/
theorem relativeOutputOffsetsToAbsolute_absoluteOutputOffsetsToRelative (off : List UInt32) :
    relativeOutputOffsetsToAbsolute (absoluteOutputOffsetsToRelative off) =
      off.insertionSort (· ≤ ·) := by
  rcases hsorted : off.insertionSort (· ≤ ·) with _ | ⟨first, rest⟩
  · have hnil : off = [] := List.length_eq_zero_iff.mp (by
      rw [← List.length_insertionSort (· ≤ ·), hsorted, List.length_nil])
    subst hnil
    simp
  · rw [absoluteOutputOffsetsToRelative_eq hsorted, relativeOutputOffsetsToAbsolute_eq,
      absoluteFrom_relativeFrom]

/-- Absolute offsets, made relative and absolute again, come back sorted; relative
offsets whose running sums fit in 32 bits, made absolute and relative again,
come back as they were. -/
theorem outputOffsets_round_trip :
    (∀ v : List UInt32,
      (relativeOutputOffsetsToAbsolute (absoluteOutputOffsetsToRelative v)).Pairwise (· ≤ ·) ∧
        (relativeOutputOffsetsToAbsolute (absoluteOutputOffsetsToRelative v)).Perm v) ∧
      ∀ r : List UInt32, (∀ k, ((r.take k).map UInt32.toNat).sum < 2 ^ 32) →
        absoluteOutputOffsetsToRelative (relativeOutputOffsetsToAbsolute r) = r := by
  refine ⟨fun v => ?_, fun r hfit => ?_⟩
  · rw [relativeOutputOffsetsToAbsolute_absoluteOutputOffsetsToRelative]
    exact ⟨List.pairwise_insertionSort _ v, List.perm_insertionSort _ v⟩
  · cases r with
    | nil => simp
    | cons first rest =>
      -- the running sums fit, so they are sorted and the sort leaves them
      have hwhole := hfit (first :: rest).length
      rw [List.take_length, List.map_cons, List.sum_cons] at hwhole
      have hchain := isChain_absoluteFrom first rest hwhole
      have hsort : (first :: absoluteFrom first rest).insertionSort (· ≤ ·) =
          first :: absoluteFrom first rest :=
        (List.isChain_iff_pairwise.mp hchain).insertionSort_eq
      rw [relativeOutputOffsetsToAbsolute_eq, absoluteOutputOffsetsToRelative_eq hsort,
        relativeFrom_absoluteFrom]

/-! ## The digits of an amount -/

/-- A call that {lit}`decompose_amount_into_digits` makes: to the chunk handler
with a digit times its power of ten, or to the dust handler with the dust. -/
inductive DecomposeCall where
  | chunk (value : UInt64)
  | dust (value : UInt64)
deriving DecidableEq, Repr

/-- The value a call passes to its handler. -/
def DecomposeCall.value : DecomposeCall → UInt64
  | .chunk value => value
  | .dust value => value

/-- The value of a call to the chunk handler. -/
def DecomposeCall.chunk? : DecomposeCall → Option UInt64
  | .chunk value => some value
  | .dust _ => none

/-- The value of a call to the dust handler. -/
def DecomposeCall.dust? : DecomposeCall → Option UInt64
  | .chunk _ => none
  | .dust value => some value

/-- The locals of the loop of {lit}`decompose_amount_into_digits`, with the
handler calls made so far. -/
structure DecomposeState where
  amount : UInt64
  dust : UInt64
  order : UInt64
  isDustHandled : Bool
  calls : List DecomposeCall
deriving DecidableEq, Repr

/-- One pass of the loop body: the lowest digit times the order is the chunk;
it joins the dust while the dust stays within the threshold, and otherwise the
dust is handed over once and the chunk, when it is not zero, after it. -/
def decomposeStep (dustThreshold : UInt64) (s : DecomposeState) : DecomposeState :=
  let chunk := s.amount % 10 * s.order
  let amount := s.amount / 10
  let order := s.order * 10
  if s.dust + chunk ≤ dustThreshold then
    { s with amount, order, dust := s.dust + chunk }
  else
    let flush := !s.isDustHandled && s.dust != 0
    { s with amount, order, isDustHandled := s.isDustHandled || flush,
             calls := s.calls ++ (if flush then [.dust s.dust] else []) ++
               (if chunk != 0 then [.chunk chunk] else []) }

@[simp]
theorem decomposeStep_amount (dustThreshold : UInt64) (s : DecomposeState) :
    (decomposeStep dustThreshold s).amount = s.amount / 10 := by
  unfold decomposeStep
  dsimp only
  split <;> rfl

/-- The loop: the body while the amount is not spent. -/
def decomposeLoop (dustThreshold : UInt64) (s : DecomposeState) : DecomposeState :=
  if s.amount = 0 then s else decomposeLoop dustThreshold (decomposeStep dustThreshold s)
termination_by s.amount.toNat
decreasing_by
  rw [decomposeStep_amount, UInt64.toNat_div]
  have hpos : 0 < s.amount.toNat := by
    rw [Nat.pos_iff_ne_zero, ne_eq, ← UInt64.toNat_zero, UInt64.toNat_inj]
    assumption
  exact Nat.div_lt_self hpos (by decide)

/-- {lit}`decompose_amount_into_digits`: the calls to the two handlers, in the
order it makes them. -/
def decomposeAmountIntoDigits (amount dustThreshold : UInt64) : List DecomposeCall :=
  if amount = 0 then []
  else
    let s := decomposeLoop dustThreshold ⟨amount, 0, 1, false, []⟩
    s.calls ++ (if !s.isDustHandled && s.dust != 0 then [.dust s.dust] else [])

/-- The example of the source's comment, with the threshold at 500000. -/
example : decomposeAmountIntoDigits 62387455827 500000 =
    [.dust 455827, .chunk 7000000, .chunk 80000000, .chunk 300000000, .chunk 2000000000,
      .chunk 60000000000] := by
  decide +kernel

/-- What the decomposition of {lit}`amount` should be, as the source's comment
describes it: at most one dust, not zero and within the threshold; chunks that
are each a digit from 1 to 9 times a power of ten, in increasing powers; the
dust and the chunks adding up to the amount; and the dust the largest value of
low digits that is within the threshold. -/
structure DecomposesInto (amount dustThreshold : UInt64) (calls : List DecomposeCall) : Prop where
  dust_once : (calls.filterMap DecomposeCall.dust?).length ≤ 1
  dust_pos_le : ∀ dust ∈ calls.filterMap DecomposeCall.dust?, dust ≠ 0 ∧ dust ≤ dustThreshold
  chunks_digits : ∃ digits : List (Nat × Nat),
    digits.Pairwise (fun p q => p.2 < q.2) ∧ (∀ p ∈ digits, 1 ≤ p.1 ∧ p.1 ≤ 9) ∧
      (calls.filterMap DecomposeCall.chunk?).map UInt64.toNat = digits.map fun p => p.1 * 10 ^ p.2
  sum_eq : ((calls.filterMap DecomposeCall.dust?).map UInt64.toNat).sum +
      ((calls.filterMap DecomposeCall.chunk?).map UInt64.toNat).sum = amount.toNat
  dust_greatest : ∃ j, ((calls.filterMap DecomposeCall.dust?).map UInt64.toNat).sum =
      amount.toNat % 10 ^ j ∧
    ∀ j', amount.toNat % 10 ^ j' ≤ dustThreshold.toNat →
      amount.toNat % 10 ^ j' ≤ ((calls.filterMap DecomposeCall.dust?).map UInt64.toNat).sum

/-! ### The digits the loop reads -/

/-- The decimal digit of {lit}`amount` at position {lit}`j`. -/
def decimalDigit (amount j : Nat) : Nat := amount / 10 ^ j % 10

/-- The positions from {lit}`boundary` up to {lit}`k` whose digit is not zero. -/
def chunkPositions (amount boundary : Nat) : Nat → List Nat
  | 0 => []
  | k + 1 => chunkPositions amount boundary k ++
      (if boundary ≤ k ∧ decimalDigit amount k ≠ 0 then [k] else [])

/-- The chunk calls for those positions. -/
def digitChunks (amount boundary k : Nat) : List DecomposeCall :=
  (chunkPositions amount boundary k).map fun j => .chunk (decimalDigit amount j * 10 ^ j).toUInt64

/-- The low digits up to one more position: the digit times its power of ten
comes on top. -/
theorem mod_pow_ten_succ (amount k : Nat) :
    amount % 10 ^ (k + 1) = amount % 10 ^ k + decimalDigit amount k * 10 ^ k := by
  rw [Nat.mod_pow_succ, decimalDigit, Nat.mul_comm, Nat.add_comm]

/-- Fewer low digits are worth less. -/
theorem mod_pow_ten_le {amount i j : Nat} (h : i ≤ j) : amount % 10 ^ i ≤ amount % 10 ^ j := by
  rw [← Nat.mod_mod_of_dvd amount (Nat.pow_dvd_pow 10 h)]
  exact Nat.mod_le _ _

theorem decimalDigit_mul_le (amount j : Nat) : decimalDigit amount j * 10 ^ j ≤ amount := by
  have hlow := mod_pow_ten_succ amount j
  have hmod := Nat.mod_le amount (10 ^ (j + 1))
  omega

theorem decimalDigit_lt (amount j : Nat) : decimalDigit amount j < 10 :=
  Nat.mod_lt _ (by decide)

/-- No position lies between the boundary and a bound at or below it. -/
theorem chunkPositions_of_le {amount boundary k : Nat} (h : k ≤ boundary) :
    chunkPositions amount boundary k = [] := by
  induction k with
  | zero => rfl
  | succ k ih =>
    rw [chunkPositions, ih (by omega), if_neg (by omega)]
    rfl

/-- A chunk position lies from the boundary up to the bound, at a digit that is
not zero. -/
theorem mem_chunkPositions {amount boundary k j : Nat} (h : j ∈ chunkPositions amount boundary k) :
    boundary ≤ j ∧ j < k ∧ decimalDigit amount j ≠ 0 := by
  induction k with
  | zero => simp [chunkPositions] at h
  | succ k ih =>
    rw [chunkPositions, List.mem_append] at h
    rcases h with hmem | hnew
    · have := ih hmem
      omega
    · split_ifs at hnew with hdigit
      · rw [List.mem_singleton] at hnew
        subst hnew
        exact ⟨hdigit.1, by omega, hdigit.2⟩
      · simp at hnew

/-- The chunks come in increasing positions. -/
theorem pairwise_chunkPositions (amount boundary k : Nat) :
    (chunkPositions amount boundary k).Pairwise (· < ·) := by
  induction k with
  | zero => exact List.Pairwise.nil
  | succ k ih =>
    rw [chunkPositions, List.pairwise_append]
    refine ⟨ih, ?_, fun i hi j hj => ?_⟩
    · split_ifs <;> simp
    · have hlt := (mem_chunkPositions hi).2.1
      split_ifs at hj
      · rw [List.mem_singleton] at hj
        omega
      · simp at hj

/-- The dust below the boundary and the chunks from it make up the low digits. -/
theorem sum_chunkPositions (amount : Nat) {boundary k : Nat} (h : boundary ≤ k) :
    amount % 10 ^ boundary +
        ((chunkPositions amount boundary k).map fun j => decimalDigit amount j * 10 ^ j).sum =
      amount % 10 ^ k := by
  induction k with
  | zero =>
    rw [Nat.le_zero.mp h]
    rfl
  | succ k ih =>
    rcases Nat.lt_or_ge k boundary with hk | hk
    · rw [chunkPositions_of_le (by omega), show boundary = k + 1 by omega]
      simp
    · rw [chunkPositions, List.map_append, List.sum_append, ← Nat.add_assoc, ih hk,
        mod_pow_ten_succ]
      by_cases hdigit : decimalDigit amount k = 0
      · simp [hdigit]
      · simp [hk, hdigit]

/-! ### The loop invariant -/

/-- The loop after {lit}`k` passes, with the dust boundary at {lit}`boundary`:
the digits below the boundary are the dust, the pass at the boundary found the
dust full, and the digits from it on that are not zero went to the chunk
handler, after the dust if the dust was handed over. -/
structure DecomposeInv (amount threshold k boundary : Nat) (s : DecomposeState) : Prop where
  amount_eq : s.amount.toNat = amount / 10 ^ k
  order_eq : s.order.toNat = 10 ^ k % 2 ^ 64
  boundary_le : boundary ≤ k
  dust_eq : s.dust.toNat = amount % 10 ^ boundary
  dust_le : s.dust.toNat ≤ threshold
  stopped : boundary < k → threshold < amount % 10 ^ (boundary + 1)
  handled_iff : s.isDustHandled = true ↔ boundary < k ∧ s.dust ≠ 0
  calls_eq : s.calls = (if s.isDustHandled then [.dust s.dust] else []) ++
    digitChunks amount boundary k

/-- The invariant of the decomposition holds where its loop starts. -/
theorem decomposeInv_init (amount : UInt64) (threshold : Nat) :
    DecomposeInv amount.toNat threshold 0 0 ⟨amount, 0, 1, false, []⟩ where
  amount_eq := by simp
  order_eq := rfl
  boundary_le := le_rfl
  dust_eq := (Nat.mod_one _).symm
  dust_le := Nat.zero_le _
  stopped := by omega
  handled_iff := by simp
  calls_eq := rfl

section Step

variable {amount threshold k boundary : Nat} {dustThreshold : UInt64} {s : DecomposeState}

/-- The chunk of a pass is the digit at the pass's position times its power of
ten; it does not wrap, as it is part of the amount. -/
theorem toNat_chunk (hinv : DecomposeInv amount threshold k boundary s)
    (hamount : amount < 2 ^ 64) (hpos : s.amount ≠ 0) :
    10 ^ k ≤ amount ∧ s.order.toNat = 10 ^ k ∧
      (s.amount % 10 * s.order).toNat = decimalDigit amount k * 10 ^ k := by
  have hlow : 0 < amount / 10 ^ k := by
    rw [← hinv.amount_eq, Nat.pos_iff_ne_zero, ne_eq, ← UInt64.toNat_zero, UInt64.toNat_inj]
    exact hpos
  have hle : 10 ^ k ≤ amount := by
    rw [Nat.div_pos_iff] at hlow
    exact hlow.2
  have horder : s.order.toNat = 10 ^ k := by
    rw [hinv.order_eq, Nat.mod_eq_of_lt (by omega)]
  refine ⟨hle, horder, ?_⟩
  have hbound := decimalDigit_mul_le amount k
  have hten : (10 : UInt64).toNat = 10 := rfl
  rw [UInt64.toNat_mul, UInt64.toNat_mod, hinv.amount_eq, horder, hten]
  exact Nat.mod_eq_of_lt (by unfold decimalDigit at hbound; omega)

/-- What a pass computes, read as numbers: the amount and the order move one
digit up, the chunk is the digit's, and the dust plus the chunk does not wrap. -/
theorem decomposeStep_toNat (hinv : DecomposeInv amount threshold k boundary s)
    (hamount : amount < 2 ^ 64) (hpos : s.amount ≠ 0) :
    (s.amount / 10).toNat = amount / 10 ^ (k + 1) ∧
      (s.order * 10).toNat = 10 ^ (k + 1) % 2 ^ 64 ∧
      (s.dust + s.amount % 10 * s.order).toNat =
        s.dust.toNat + decimalDigit amount k * 10 ^ k ∧
      s.amount % 10 * s.order = (decimalDigit amount k * 10 ^ k).toUInt64 := by
  obtain ⟨-, horder, hchunk⟩ := toNat_chunk hinv hamount hpos
  have hdust : s.dust.toNat ≤ amount % 10 ^ k := hinv.dust_eq ▸ mod_pow_ten_le hinv.boundary_le
  have hlow := mod_pow_ten_succ amount k
  have hmod := Nat.mod_le amount (10 ^ (k + 1))
  have hten : (10 : UInt64).toNat = 10 := rfl
  refine ⟨?_, ?_, ?_, ?_⟩
  · rw [UInt64.toNat_div, hinv.amount_eq, hten, Nat.pow_succ, Nat.div_div_eq_div_mul]
  · rw [UInt64.toNat_mul, horder, hten, ← Nat.pow_succ]
  · rw [UInt64.toNat_add, hchunk, Nat.mod_eq_of_lt (by omega)]
  · rw [← UInt64.toNat_inj, hchunk, Nat.toUInt64, UInt64.toNat_ofNat', Nat.mod_eq_of_lt (by omega)]

/-- Once the dust is full, no later digit that is not zero fits beside it. -/
theorem decimalDigit_eq_zero_of_stopped (hinv : DecomposeInv amount threshold k boundary s)
    (hstopped : boundary < k) (hfits : s.dust.toNat + decimalDigit amount k * 10 ^ k ≤ threshold) :
    decimalDigit amount k = 0 := by
  by_contra hne
  have hfull := hinv.stopped hstopped
  have hlow := mod_pow_ten_succ amount boundary
  have hdust := hinv.dust_eq
  have hdigit : decimalDigit amount boundary * 10 ^ boundary < 10 ^ k :=
    calc decimalDigit amount boundary * 10 ^ boundary < 10 * 10 ^ boundary :=
          Nat.mul_lt_mul_of_pos_right (decimalDigit_lt amount boundary) (Nat.pow_pos (by decide))
      _ = 10 ^ (boundary + 1) := (Nat.pow_succ' ..).symm
      _ ≤ 10 ^ k := Nat.pow_le_pow_right (by decide) hstopped
  have hunit : 10 ^ k ≤ decimalDigit amount k * 10 ^ k :=
    Nat.le_mul_of_pos_left _ (Nat.pos_of_ne_zero hne)
  omega

/-- A pass whose digit joins a dust that has taken every digit so far moves the
boundary up with it. -/
theorem decomposeInv_absorb (hinv : DecomposeInv amount dustThreshold.toNat k k s)
    (hamount : amount < 2 ^ 64) (hpos : s.amount ≠ 0)
    (habsorb : s.dust + s.amount % 10 * s.order ≤ dustThreshold) :
    DecomposeInv amount dustThreshold.toNat (k + 1) (k + 1)
      { s with amount := s.amount / 10, order := s.order * 10,
               dust := s.dust + s.amount % 10 * s.order } := by
  obtain ⟨hamount', horder', hsum, -⟩ := decomposeStep_toNat hinv hamount hpos
  have hhandled : s.isDustHandled = false := by
    simpa using hinv.handled_iff.not.mpr (by omega)
  refine ⟨hamount', horder', le_rfl, ?_, ?_, by omega, ?_, ?_⟩
  · rw [hsum, hinv.dust_eq, mod_pow_ten_succ]
  · show (s.dust + s.amount % 10 * s.order).toNat ≤ dustThreshold.toNat
    exact UInt64.le_iff_toNat_le.mp habsorb
  · simp [hhandled]
  · rw [hinv.calls_eq, hhandled]
    simp [digitChunks, chunkPositions_of_le]

/-- A pass after the dust is full changes nothing but the amount and the order:
its digit is zero. -/
theorem decomposeInv_absorb_stopped (hinv : DecomposeInv amount dustThreshold.toNat k boundary s)
    (hamount : amount < 2 ^ 64) (hpos : s.amount ≠ 0) (hstopped : boundary < k)
    (habsorb : s.dust + s.amount % 10 * s.order ≤ dustThreshold) :
    DecomposeInv amount dustThreshold.toNat (k + 1) boundary
      { s with amount := s.amount / 10, order := s.order * 10,
               dust := s.dust + s.amount % 10 * s.order } := by
  obtain ⟨hamount', horder', hsum, hchunk⟩ := decomposeStep_toNat hinv hamount hpos
  have hzero := decimalDigit_eq_zero_of_stopped hinv hstopped
    (hsum ▸ UInt64.le_iff_toNat_le.mp habsorb)
  have hdust : s.dust + s.amount % 10 * s.order = s.dust := by
    rw [hchunk, hzero, Nat.zero_mul]
    exact UInt64.add_zero _
  refine ⟨hamount', horder', by omega, ?_, ?_, fun _ => hinv.stopped hstopped, ?_, ?_⟩
  · simp only [hdust]
    exact hinv.dust_eq
  · simp only [hdust]
    exact hinv.dust_le
  · simp only [hdust]
    rw [hinv.handled_iff]
    exact ⟨fun h => ⟨by omega, h.2⟩, fun h => ⟨hstopped, h.2⟩⟩
  · simp only [hdust]
    rw [hinv.calls_eq]
    simp [digitChunks, chunkPositions, hzero]

/-- A pass whose digit does not fit beside the dust hands the dust over, once,
and the chunk after it. -/
theorem decomposeInv_full (hinv : DecomposeInv amount dustThreshold.toNat k boundary s)
    (hamount : amount < 2 ^ 64) (hpos : s.amount ≠ 0)
    (hfull : ¬ s.dust + s.amount % 10 * s.order ≤ dustThreshold) :
    DecomposeInv amount dustThreshold.toNat (k + 1) boundary
      { s with amount := s.amount / 10, order := s.order * 10,
               isDustHandled := s.isDustHandled || (!s.isDustHandled && s.dust != 0),
               calls := s.calls ++ (if (!s.isDustHandled && s.dust != 0) then [.dust s.dust] else []) ++
                 (if s.amount % 10 * s.order != 0 then [.chunk (s.amount % 10 * s.order)] else []) } := by
  obtain ⟨hamount', horder', hsum, hchunk⟩ := decomposeStep_toNat hinv hamount hpos
  rw [UInt64.le_iff_toNat_le, hsum] at hfull
  have hlow := mod_pow_ten_succ amount k
  have hdust := hinv.dust_eq
  have hboundary := hinv.boundary_le
  refine ⟨hamount', horder', by omega, hinv.dust_eq, hinv.dust_le, fun _ => ?_, ?_, ?_⟩
  · rcases Nat.lt_or_ge boundary k with hstopped | hfresh
    · exact hinv.stopped hstopped
    · obtain rfl : boundary = k := le_antisymm hboundary hfresh
      omega
  · cases hhandled : s.isDustHandled
    · simp only [Bool.false_or, Bool.not_false, Bool.true_and, bne_iff_ne]
      exact ⟨fun h => ⟨by omega, h⟩, fun h => h.2⟩
    · have := hinv.handled_iff.mp hhandled
      simp only [Bool.true_or, true_iff]
      exact ⟨by omega, this.2⟩
  · have hchunkCall : (if (s.amount % 10 * s.order != 0) = true then
          [DecomposeCall.chunk (s.amount % 10 * s.order)] else []) =
        if boundary ≤ k ∧ decimalDigit amount k ≠ 0 then
          [DecomposeCall.chunk (decimalDigit amount k * 10 ^ k).toUInt64] else [] := by
      have hpow : 0 < 10 ^ k := Nat.pow_pos (by decide)
      have hne : s.amount % 10 * s.order ≠ 0 ↔ decimalDigit amount k ≠ 0 := by
        rw [ne_eq, ← UInt64.toNat_inj, (toNat_chunk hinv hamount hpos).2.2, UInt64.toNat_zero,
          Nat.mul_eq_zero]
        omega
      by_cases hdigit : decimalDigit amount k = 0
      · simp [hdigit, hne.not_left.mpr hdigit]
      · rw [if_pos (by simpa using hne.mpr hdigit), if_pos ⟨hboundary, hdigit⟩, hchunk]
    have hchunks : digitChunks amount boundary (k + 1) = digitChunks amount boundary k ++
        if boundary ≤ k ∧ decimalDigit amount k ≠ 0 then
          [DecomposeCall.chunk (decimalDigit amount k * 10 ^ k).toUInt64] else [] := by
      rw [digitChunks, digitChunks, chunkPositions, List.map_append]
      split_ifs <;> rfl
    show s.calls ++ _ ++ _ = _
    rw [hchunkCall, hchunks, hinv.calls_eq]
    cases hhandled : s.isDustHandled
    · by_cases hzero : s.dust = 0
      · simp [hzero]
      · have hfresh : boundary = k := by
          by_contra hne
          exact Bool.false_ne_true (hhandled ▸ hinv.handled_iff.mpr ⟨by omega, hzero⟩)
        simp [hzero, hfresh, digitChunks, chunkPositions_of_le]
    · simp

/-- One pass keeps the invariant: the boundary moves up with the pass while the
dust takes every digit, and stays where the dust first did not fit. -/
theorem decomposeInv_step (hinv : DecomposeInv amount dustThreshold.toNat k boundary s)
    (hamount : amount < 2 ^ 64) (hpos : s.amount ≠ 0) :
    ∃ boundary', DecomposeInv amount dustThreshold.toNat (k + 1) boundary'
      (decomposeStep dustThreshold s) := by
  unfold decomposeStep
  dsimp only
  by_cases habsorb : s.dust + s.amount % 10 * s.order ≤ dustThreshold
  · rw [if_pos habsorb]
    rcases Nat.lt_or_ge boundary k with hstopped | hfresh
    · exact ⟨boundary, decomposeInv_absorb_stopped hinv hamount hpos hstopped habsorb⟩
    · obtain rfl : boundary = k := le_antisymm hinv.boundary_le hfresh
      exact ⟨boundary + 1, decomposeInv_absorb hinv hamount hpos habsorb⟩
  · rw [if_neg habsorb]
    exact ⟨boundary, decomposeInv_full hinv hamount hpos habsorb⟩

/-- The whole loop keeps the invariant and stops with the amount spent. -/
theorem decomposeInv_loop (hamount : amount < 2 ^ 64)
    (hinv : DecomposeInv amount dustThreshold.toNat k boundary s) :
    ∃ k' boundary', DecomposeInv amount dustThreshold.toNat k' boundary'
        (decomposeLoop dustThreshold s) ∧ (decomposeLoop dustThreshold s).amount = 0 := by
  fun_induction decomposeLoop dustThreshold s generalizing k boundary with
  | case1 s hzero => exact ⟨k, boundary, hinv, hzero⟩
  | case2 s hpos ih =>
    obtain ⟨boundary', hstep⟩ := decomposeInv_step hinv hamount hpos
    exact ih hstep

end Step

/-! ### The decomposition it computes -/

/-- The chunk calls carry the values of their positions' digits. -/
theorem chunkValues_digitChunks {amount : Nat} (hamount : amount < 2 ^ 64) (boundary k : Nat) :
    ((digitChunks amount boundary k).filterMap DecomposeCall.chunk?).map UInt64.toNat =
      (chunkPositions amount boundary k).map fun j => decimalDigit amount j * 10 ^ j := by
  rw [digitChunks, List.filterMap_map, List.map_filterMap, ← List.filterMap_eq_map]
  refine List.filterMap_congr fun j _ => ?_
  have hfit : decimalDigit amount j * 10 ^ j < 2 ^ 64 :=
    Nat.lt_of_le_of_lt (decimalDigit_mul_le amount j) hamount
  simp only [Function.comp_apply, DecomposeCall.chunk?, Option.map_some, Nat.toUInt64,
    UInt64.toNat_ofNat', Nat.mod_eq_of_lt hfit]

@[simp]
theorem dustValues_digitChunks (amount boundary k : Nat) :
    (digitChunks amount boundary k).filterMap DecomposeCall.dust? = [] := by
  simp [digitChunks, List.filterMap_map, DecomposeCall.dust?]

/-- A spent amount makes every decomposition empty. -/
theorem decomposesInto_zero (dustThreshold : UInt64) :
    DecomposesInto 0 dustThreshold (decomposeAmountIntoDigits 0 dustThreshold) := by
  have hnil : decomposeAmountIntoDigits 0 dustThreshold = [] := rfl
  rw [hnil]
  exact ⟨by simp, by simp, ⟨[], by simp, by simp, by simp⟩, by simp, ⟨0, by simp, by simp⟩⟩

/-- {lit}`decompose_amount_into_digits` makes the decomposition its comment
describes, for every amount and threshold. -/
theorem decomposeAmountIntoDigits_decomposesInto (amount dustThreshold : UInt64) :
    DecomposesInto amount dustThreshold (decomposeAmountIntoDigits amount dustThreshold) := by
  by_cases hzero : amount = 0
  · subst hzero
    exact decomposesInto_zero dustThreshold
  have hloop : ∃ k boundary, DecomposeInv amount.toNat dustThreshold.toNat k boundary
        (decomposeLoop dustThreshold ⟨amount, 0, 1, false, []⟩) ∧
      (decomposeLoop dustThreshold ⟨amount, 0, 1, false, []⟩).amount = 0 :=
    decomposeInv_loop amount.toNat_lt (decomposeInv_init amount _)
  obtain ⟨k, boundary, hinv, hspent⟩ := hloop
  unfold decomposeAmountIntoDigits
  rw [if_neg hzero]
  generalize decomposeLoop dustThreshold ⟨amount, 0, 1, false, []⟩ = final at hinv hspent ⊢
  have hwhole : amount.toNat % 10 ^ k = amount.toNat := by
    have hdiv := hinv.amount_eq
    rw [hspent, UInt64.toNat_zero, eq_comm, Nat.div_eq_zero_iff] at hdiv
    exact Nat.mod_eq_of_lt (hdiv.resolve_left (Nat.pow_pos (by decide)).ne')
  have hdusts : (final.calls ++ (if (!final.isDustHandled && final.dust != 0) = true then
        [DecomposeCall.dust final.dust] else [])).filterMap DecomposeCall.dust? =
      if final.dust = 0 then [] else [final.dust] := by
    rw [hinv.calls_eq]
    cases hhandled : final.isDustHandled
    · by_cases hdust : final.dust = 0 <;> simp [hdust, DecomposeCall.dust?]
    · have hdust := (hinv.handled_iff.mp hhandled).2
      simp [hdust, DecomposeCall.dust?]
  have hchunks : ((final.calls ++ (if (!final.isDustHandled && final.dust != 0) = true then
        [DecomposeCall.dust final.dust] else [])).filterMap DecomposeCall.chunk?).map UInt64.toNat =
      (chunkPositions amount.toNat boundary k).map
        fun j => decimalDigit amount.toNat j * 10 ^ j := by
    have hnone : ∀ (c : Prop) [Decidable c] (value : UInt64),
        (if c then [DecomposeCall.dust value] else []).filterMap DecomposeCall.chunk? = [] := by
      intro c _ value
      split_ifs <;> rfl
    rw [hinv.calls_eq, ← chunkValues_digitChunks amount.toNat_lt]
    simp only [List.filterMap_append, hnone, List.nil_append, List.append_nil]
  have hdustSum : ((if final.dust = 0 then [] else [final.dust]).map UInt64.toNat).sum =
      amount.toNat % 10 ^ boundary := by
    rw [← hinv.dust_eq]
    split_ifs with hdust
    · simp [hdust]
    · simp
  refine ⟨?_, ?_, ?_, ?_, ?_⟩
  · rw [hdusts]
    split_ifs <;> simp
  · rw [hdusts]
    split_ifs with hdust
    · simp
    · simpa using ⟨hdust, UInt64.le_iff_toNat_le.mpr hinv.dust_le⟩
  · refine ⟨(chunkPositions amount.toNat boundary k).map fun j => (decimalDigit amount.toNat j, j),
      ?_, ?_, by rw [hchunks, List.map_map]; rfl⟩
    · exact List.pairwise_map.mpr (pairwise_chunkPositions _ _ _)
    · simp only [List.mem_map]
      rintro _ ⟨j, hj, rfl⟩
      have hdigit := (mem_chunkPositions hj).2.2
      have hlt := decimalDigit_lt amount.toNat j
      exact ⟨by omega, by omega⟩
  · rw [hdusts, hchunks, hdustSum, sum_chunkPositions _ hinv.boundary_le, hwhole]
  · rw [hdusts, hdustSum]
    refine ⟨boundary, rfl, fun j hj => ?_⟩
    rcases le_or_gt j boundary with hle | hlt
    · exact mod_pow_ten_le hle
    · rcases Nat.lt_or_ge boundary k with hstopped | hfresh
      · have hfull := hinv.stopped hstopped
        have hmono : amount.toNat % 10 ^ (boundary + 1) ≤ amount.toNat % 10 ^ j :=
          mod_pow_ten_le hlt
        omega
      · obtain rfl : boundary = k := le_antisymm hinv.boundary_le hfresh
        rw [hwhole]
        exact Nat.mod_le _ _

end CryptoNote

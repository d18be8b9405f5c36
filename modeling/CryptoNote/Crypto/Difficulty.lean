import Mathlib.Data.List.GetD
import Mathlib.Data.List.Sort
import Mathlib.Tactic.Ring
import CryptoNote.Types
import CryptoNote.Lib.ByteFile

/-!
# The difficulty of the next block

{lit}`next_difficulty` in {lit}`crypto/difficulty.c` and its caller
{lit}`Currency::nextDifficulty`.  The last blocks' timestamps and cumulative
difficulties give the work done over the time it took; the window is cut at
both ends after sorting the timestamps, and the difficulty is the work per
target interval, rounded up.

The timestamps are sorted by {lit}`qsort` with the comparator {lit}`compare`,
which reads the low 32 bits of each {lit}`uint64_t` as an {lit}`int` and
subtracts them.  Signed overflow is undefined in C; the subtraction is
modelled as the machine does it, wrapping modulo {lit}`2 ^ 32`.  The C library
leaves {lit}`qsort`'s algorithm open; it is modelled by an insertion sort
under the same comparator, and every statement below that depends on the
order holds for any sort that the comparator makes unique.

The release build defines {lit}`NDEBUG`, so the assertions of
{lit}`next_difficulty` are not evaluated.  The count of timestamps is passed
as a {lit}`uint16_t`.

Main results:

- {lit}`mul128_spec`: the two words of {lit}`mul128` hold the whole product.
- {lit}`compare_nonpos_iff`: the comparator agrees with the unsigned order on
  timestamps less than {lit}`2 ^ 31` apart, and only there.
- {lit}`currency_nextDifficulty_eq_reference`: within that range the code
  computes {lit}`referenceDifficulty`, the difficulty the window should give.
- {lit}`checkHash_one`: every hash meets difficulty 1.
- {lit}`checkHash_eq_true_iff`: {lit}`check_hash` is exact 256-bit arithmetic,
  the carry with a carry in included.
-/

namespace CryptoNote

namespace Difficulty

/-- {lit}`difficulty_config_t`; {lit}`lag` is not read by
{lit}`next_difficulty`. -/
structure DifficultyConfig where
  target : UInt8
  cut : UInt8
  window : UInt32
deriving DecidableEq, Repr

/-- {lit}`hi_dword` of {lit}`util.h`. -/
def hiDword (val : UInt64) : UInt64 := val >>> 32

/-- {lit}`lo_dword` of {lit}`util.h`. -/
def loDword (val : UInt64) : UInt64 := val &&& 0xFFFFFFFF

/-- {lit}`mul128` of {lit}`util.h`: the low and the high word of a 64 by 64-bit
product, from the four products of 32-bit halves. -/
def mul128 (multiplier multiplicand : UInt64) : UInt64 × UInt64 :=
  let a := hiDword multiplier
  let b := loDword multiplier
  let c := hiDword multiplicand
  let d := loDword multiplicand
  let ac := a * c
  let ad := a * d
  let bc := b * c
  let bd := b * d
  let adbc := ad + bc
  let adbcCarry : UInt64 := if adbc < ad then 1 else 0
  let productLo := bd + (adbc <<< 32)
  let productLoCarry : UInt64 := if productLo < bd then 1 else 0
  let productHi := ac + (adbc >>> 32) + (adbcCarry <<< 32) + productLoCarry
  (productLo, productHi)

theorem toNat_hiDword (val : UInt64) : (hiDword val).toNat = val.toNat / 2 ^ 32 := by
  simp [hiDword, UInt64.toNat_shiftRight, Nat.shiftRight_eq_div_pow]

theorem toNat_loDword (val : UInt64) : (loDword val).toNat = val.toNat % 2 ^ 32 := by
  rw [loDword, UInt64.toNat_and, ← Nat.and_two_pow_sub_one_eq_mod]
  rfl

/-- A product of two halves does not wrap. -/
theorem toNat_mul_of_lt {x y : UInt64} (hx : x.toNat < 2 ^ 32) (hy : y.toNat < 2 ^ 32) :
    (x * y).toNat = x.toNat * y.toNat := by
  rw [UInt64.toNat_mul, Nat.mod_eq_of_lt]
  calc x.toNat * y.toNat < 2 ^ 32 * 2 ^ 32 := Nat.mul_lt_mul'' hx hy
    _ = 2 ^ 64 := rfl

/-- The bound on a product of two 32-bit halves. -/
theorem mul_le_of_lt_two_pow_32 {a b : Nat} (ha : a < 2 ^ 32) (hb : b < 2 ^ 32) :
    a * b ≤ (2 ^ 32 - 1) * (2 ^ 32 - 1) :=
  Nat.mul_le_mul (by omega) (by omega)

/-- The carries of {lit}`mul128`: from four partial products of 32-bit halves,
its two words hold their weighted sum. -/
theorem toNat_mul128_words {ac ad bc bd : UInt64} (hac : ac.toNat ≤ (2 ^ 32 - 1) * (2 ^ 32 - 1))
    (had : ad.toNat ≤ (2 ^ 32 - 1) * (2 ^ 32 - 1)) (hbc : bc.toNat ≤ (2 ^ 32 - 1) * (2 ^ 32 - 1))
    (hbd : bd.toNat ≤ (2 ^ 32 - 1) * (2 ^ 32 - 1)) :
    (bd + ((ad + bc) <<< 32)).toNat +
        (ac + ((ad + bc) >>> 32) + ((if ad + bc < ad then (1 : UInt64) else 0) <<< 32) +
          (if bd + ((ad + bc) <<< 32) < bd then (1 : UInt64) else 0)).toNat * 2 ^ 64 =
      ac.toNat * 2 ^ 64 + (ad.toNat + bc.toNat) * 2 ^ 32 + bd.toNat := by
  have h32 : (32 : UInt64).toNat % 64 = 32 := rfl
  simp only [UInt64.toNat_add, UInt64.toNat_shiftLeft, UInt64.toNat_shiftRight, h32,
    Nat.shiftLeft_eq, Nat.shiftRight_eq_div_pow, UInt64.lt_iff_toNat_lt]
  split_ifs <;> simp only [UInt64.toNat_one, UInt64.toNat_zero] <;> omega

/-- {lit}`mul128` computes the whole product: the high word times {lit}`2 ^ 64`
plus the low word. -/
theorem mul128_spec (multiplier multiplicand : UInt64) :
    (mul128 multiplier multiplicand).1.toNat + (mul128 multiplier multiplicand).2.toNat * 2 ^ 64 =
      multiplier.toNat * multiplicand.toNat := by
  have hx := multiplier.toNat_lt
  have hy := multiplicand.toNat_lt
  have ha : (hiDword multiplier).toNat < 2 ^ 32 := by rw [toNat_hiDword]; omega
  have hb : (loDword multiplier).toNat < 2 ^ 32 := by rw [toNat_loDword]; omega
  have hc : (hiDword multiplicand).toNat < 2 ^ 32 := by rw [toNat_hiDword]; omega
  have hd : (loDword multiplicand).toNat < 2 ^ 32 := by rw [toNat_loDword]; omega
  have hproduct : multiplier.toNat * multiplicand.toNat =
      (hiDword multiplier).toNat * (hiDword multiplicand).toNat * 2 ^ 64 +
        ((hiDword multiplier).toNat * (loDword multiplicand).toNat +
          (loDword multiplier).toNat * (hiDword multiplicand).toNat) * 2 ^ 32 +
        (loDword multiplier).toNat * (loDword multiplicand).toNat := by
    rw [toNat_hiDword, toNat_hiDword, toNat_loDword, toNat_loDword]
    conv_lhs => rw [← Nat.div_add_mod multiplier.toNat (2 ^ 32),
      ← Nat.div_add_mod multiplicand.toNat (2 ^ 32)]
    ring
  simp only [mul128]
  rw [toNat_mul128_words, toNat_mul_of_lt ha hc, toNat_mul_of_lt ha hd, toNat_mul_of_lt hb hc,
    toNat_mul_of_lt hb hd, hproduct]
  all_goals
    rw [toNat_mul_of_lt (by assumption) (by assumption)]
    exact mul_le_of_lt_two_pow_32 (by assumption) (by assumption)

/-- {lit}`compare`: {lit}`*(int *)a - *(int *)b` on two {lit}`uint64_t`, that is
the difference of their low halves as signed 32-bit numbers. -/
def compare (a b : UInt64) : Int32 := a.toUInt32.toInt32 - b.toUInt32.toInt32

/-- {lit}`qsort` of the timestamps with {lit}`compare`. -/
def qsort (timestamps : List UInt64) : List UInt64 :=
  timestamps.insertionSort fun a b => compare a b ≤ 0

/-- The cut of the sorted window: the first and one past the last index kept. -/
def cutBounds (length : Nat) (config : DifficultyConfig) : Nat × Nat :=
  -- {lit}`config->window - 2 * config->cut` is computed as an {lit}`unsigned int`
  let kept := (config.window - 2 * config.cut.toUInt32).toNat
  if length ≤ kept then (0, length)
  else
    let cutBegin := (length - kept + 1) / 2
    (cutBegin, cutBegin + kept)

/-- The end of {lit}`next_difficulty`: {lit}`totalWork * target` over the time
span, rounded up, or {lit}`0` when {lit}`totalWork * target + timeSpan - 1` does
not fit in 64 bits. -/
def roundUpDifficulty (totalWork : UInt64) (target : UInt8) (timeSpan : UInt64) : UInt64 :=
  let (low, high) := mul128 totalWork target.toUInt64
  if high ≠ 0 ∨ low + timeSpan - 1 < low then 0
  else (low + timeSpan - 1) / timeSpan

/-- The number of timestamps {lit}`next_difficulty` uses: at most the window. -/
def windowLength (timestampsLength : UInt16) (config : DifficultyConfig) : UInt16 :=
  if timestampsLength.toUInt32 > config.window then config.window.toUInt16 else timestampsLength

/-- {lit}`next_difficulty`. -/
def nextDifficulty (timestamps : List UInt64) (timestampsLength : UInt16)
    (cumulativeDifficulties : List UInt64) (config : DifficultyConfig) : UInt64 :=
  let length := (windowLength timestampsLength config).toNat
  if length ≤ 1 then 1
  else
    -- only the first {lit}`length` entries are sorted, and only they are read
    let sorted := qsort (timestamps.take length)
    let (cutBegin, cutEnd) := cutBounds length config
    let timeSpan := sorted.getD (cutEnd - 1) 0 - sorted.getD cutBegin 0
    let timeSpan := if timeSpan = 0 then 1 else timeSpan
    let totalWork :=
      cumulativeDifficulties.getD (cutEnd - 1) 0 - cumulativeDifficulties.getD cutBegin 0
    roundUpDifficulty totalWork config.target timeSpan

/-- {lit}`Currency::nextDifficulty`: the whole vectors, their size cut to a
{lit}`uint16_t`. -/
def Currency.nextDifficulty (config : DifficultyConfig)
    (timestamps cumulativeDifficulties : List UInt64) : UInt64 :=
  Difficulty.nextDifficulty timestamps timestamps.length.toUInt16 cumulativeDifficulties config

/-- The difficulty parameters of {lit}`CryptoNoteConfig.h`: a target of 120
seconds, a window of one day of blocks, 60 timestamps cut at each end. -/
def cryptoNoteConfig : DifficultyConfig := ⟨120, 60, 720⟩

/-! ## The difficulty the window should give

The timestamps of the window sorted as unsigned numbers, cut as
{lit}`next_difficulty` cuts them, and the work per target interval rounded up;
{lit}`0` when that does not fit in 64 bits.  The total work is the difference
of cumulative difficulties as the code takes it, modulo {lit}`2 ^ 64`. -/

/-- The rounded-up quotient of the work by the time span, on natural numbers. -/
def roundUpWork (work timeSpan : Nat) : Nat :=
  if work + timeSpan - 1 < 2 ^ 64 then (work + timeSpan - 1) / timeSpan else 0

/-- The difficulty the window should give: one for a window of one timestamp or
none, and otherwise the work between the cut ends of the sorted window per
target interval over its time span, rounded up. -/
def referenceDifficulty (config : DifficultyConfig)
    (timestamps cumulativeDifficulties : List UInt64) : Nat :=
  let length := min timestamps.length config.window.toNat
  if length ≤ 1 then 1
  else
    let sorted := ((timestamps.take length).map UInt64.toNat).insertionSort (· ≤ ·)
    let (cutBegin, cutEnd) := cutBounds length config
    let timeSpan := max 1 (sorted.getD (cutEnd - 1) 0 - sorted.getD cutBegin 0)
    let totalWork :=
      cumulativeDifficulties.getD (cutEnd - 1) 0 - cumulativeDifficulties.getD cutBegin 0
    roundUpWork (totalWork.toNat * config.target.toNat) timeSpan

/-! ## The comparator -/

theorem toInt_toInt32_toUInt32 (x : UInt64) :
    x.toUInt32.toInt32.toInt = (x.toNat : Int).bmod (2 ^ 32) := by
  have hbits : x.toUInt32.toInt32.toInt = x.toUInt32.toBitVec.toInt := rfl
  rw [hbits, BitVec.toInt_eq_toNat_bmod, UInt32.toNat_toBitVec, UInt64.toNat_toUInt32,
    Int.natCast_emod, Int.emod_bmod]

/-- Two timestamps less than {lit}`2 ^ 31` seconds apart are ordered by the
comparator as unsigned numbers: the wrapped difference of their low halves is
their difference. -/
theorem compare_nonpos_iff {a b : UInt64} (hab : a.toNat < b.toNat + 2 ^ 31)
    (hba : b.toNat < a.toNat + 2 ^ 31) : compare a b ≤ 0 ↔ a.toNat ≤ b.toNat := by
  rw [compare, Int32.le_iff_toInt_le, Int32.toInt_sub, toInt_toInt32_toUInt32,
    toInt_toInt32_toUInt32, ← Int.sub_bmod, Int.bmod_eq_of_le (by omega) (by omega),
    Int32.toInt_zero]
  omega

/-- Every two of the timestamps are less than {lit}`2 ^ 31` seconds (68 years)
apart, the range in which the comparator is right. -/
def WithinComparatorRange (timestamps : List UInt64) : Prop :=
  ∀ a ∈ timestamps, ∀ b ∈ timestamps, a.toNat < b.toNat + 2 ^ 31

instance (timestamps : List UInt64) : Decidable (WithinComparatorRange timestamps) :=
  inferInstanceAs (Decidable (∀ a ∈ timestamps, ∀ b ∈ timestamps, a.toNat < b.toNat + 2 ^ 31))

/-- Within that range {lit}`qsort` sorts the timestamps as unsigned numbers. -/
theorem map_toNat_qsort {timestamps : List UInt64} (h : WithinComparatorRange timestamps) :
    (qsort timestamps).map UInt64.toNat = (timestamps.map UInt64.toNat).insertionSort (· ≤ ·) :=
  List.map_insertionSort _ _ _ _ fun a ha b hb => compare_nonpos_iff (h a ha b hb) (h b hb a ha)

/-! ## The window and its cut -/

/-- The window is the smaller of the count of timestamps and the configured window. -/
theorem toNat_windowLength (timestampsLength : UInt16) (config : DifficultyConfig) :
    (windowLength timestampsLength config).toNat = min timestampsLength.toNat config.window.toNat := by
  unfold windowLength
  split_ifs with h
  · -- a window below the 16-bit count survives the cut to {lit}`uint16_t`
    have hlt : config.window.toNat < timestampsLength.toNat := by
      simpa [UInt32.lt_iff_toNat_lt, UInt16.toNat_toUInt32] using h
    have hcount := timestampsLength.toNat_lt
    rw [UInt32.toNat_toUInt16, Nat.mod_eq_of_lt (by omega)]
    omega
  · have hle : timestampsLength.toNat ≤ config.window.toNat := by
      simpa [UInt32.lt_iff_toNat_lt, UInt16.toNat_toUInt32] using h
    omega

/-- The number of timestamps kept after the cut, as a natural number. -/
theorem toNat_kept {config : DifficultyConfig} (hcut : 2 * config.cut.toNat ≤ config.window.toNat) :
    (config.window - 2 * config.cut.toUInt32).toNat = config.window.toNat - 2 * config.cut.toNat := by
  have hcut32 : (2 * config.cut.toUInt32).toNat = 2 * config.cut.toNat := by
    have htwo : (2 : UInt32).toNat = 2 := rfl
    have hcut8 := config.cut.toNat_lt
    rw [UInt32.toNat_mul, UInt8.toNat_toUInt32, htwo, Nat.mod_eq_of_lt (by omega)]
  rw [UInt32.toNat_sub_of_le _ _ (by rw [UInt32.le_iff_toNat_le, hcut32]; exact hcut), hcut32]

/-- The cut keeps at least two timestamps, inside the window. -/
theorem cutBounds_spec {length : Nat} {config : DifficultyConfig} (hlength : 2 ≤ length)
    (hkept : 2 ≤ (config.window - 2 * config.cut.toUInt32).toNat) :
    (cutBounds length config).1 + 2 ≤ (cutBounds length config).2 ∧
      (cutBounds length config).2 ≤ length := by
  simp only [cutBounds]
  split_ifs with h
  · exact ⟨by simpa using hlength, le_refl _⟩
  · simp only
    omega

/-! ## The rounded quotient -/

/-- {lit}`roundUpDifficulty` is the rounded-up quotient of the exact product. -/
theorem toNat_roundUpDifficulty (totalWork : UInt64) (target : UInt8) {timeSpan : UInt64}
    (htimeSpan : timeSpan ≠ 0) :
    (roundUpDifficulty totalWork target timeSpan).toNat =
      roundUpWork (totalWork.toNat * target.toNat) timeSpan.toNat := by
  have hspec := mul128_spec totalWork target.toUInt64
  rw [UInt8.toNat_toUInt64] at hspec
  have hpos : 0 < timeSpan.toNat := by
    rcases Nat.eq_zero_or_pos timeSpan.toNat with h | h
    · exact absurd (UInt64.toNat_inj.mp (h.trans UInt64.toNat_zero.symm)) htimeSpan
    · exact h
  have hts := timeSpan.toNat_lt
  unfold roundUpDifficulty roundUpWork
  generalize mul128 totalWork target.toUInt64 = product at hspec ⊢
  obtain ⟨low, high⟩ := product
  dsimp only at hspec ⊢
  have hlow := low.toNat_lt
  by_cases hhigh : high = 0
  · -- the product fits: the test is whether the rounding addition wraps
    have hhigh0 : high.toNat = 0 := by rw [hhigh]; rfl
    rw [hhigh0] at hspec
    have hsum : (low + timeSpan - 1).toNat = (low.toNat + timeSpan.toNat - 1) % 2 ^ 64 := by
      rw [UInt64.toNat_sub, UInt64.toNat_add, UInt64.toNat_one]
      omega
    by_cases hwrap : low + timeSpan - 1 < low
    · have hge : 2 ^ 64 ≤ low.toNat + timeSpan.toNat - 1 := by
        rw [UInt64.lt_iff_toNat_lt, hsum] at hwrap
        omega
      rw [if_pos (Or.inr hwrap), if_neg (by omega)]
      rfl
    · have hlt : low.toNat + timeSpan.toNat - 1 < 2 ^ 64 := by
        rw [UInt64.lt_iff_toNat_lt, hsum] at hwrap
        omega
      rw [if_neg (by simp only [hhigh, ne_eq, not_true_eq_false, false_or]; exact hwrap),
        if_pos (by omega), UInt64.toNat_div, hsum, Nat.mod_eq_of_lt hlt]
      congr 1
      omega
  · have hhigh1 : 1 ≤ high.toNat := by
      rcases Nat.eq_zero_or_pos high.toNat with h | h
      · exact absurd (UInt64.toNat_inj.mp (h.trans UInt64.toNat_zero.symm)) hhigh
      · exact h
    rw [if_pos (Or.inl hhigh), if_neg (by omega)]
    rfl

/-! ## The code against the reference -/

theorem getD_map_toNat (l : List UInt64) (n : Nat) :
    (l.map UInt64.toNat).getD n 0 = (l.getD n 0).toNat := by
  simpa using List.getD_map l 0 UInt64.toNat (n := n)

/-- A time span of zero counts as one second, so it is never zero. -/
theorem span_ne_zero (timeSpan : UInt64) : (if timeSpan = 0 then 1 else timeSpan) ≠ 0 := by
  split_ifs with h
  · decide
  · exact h

/-- The span of a sorted window as {lit}`next_difficulty` takes it: it does not
wrap, and a span of zero counts as one second. -/
theorem toNat_span {sorted : List UInt64} (hsorted : (sorted.map UInt64.toNat).SortedLE)
    {i j : Nat} (hij : i ≤ j) (hj : j < sorted.length) :
    (if sorted.getD j 0 - sorted.getD i 0 = 0 then 1 else sorted.getD j 0 - sorted.getD i 0).toNat =
      max 1 ((sorted.map UInt64.toNat).getD j 0 - (sorted.map UInt64.toNat).getD i 0) := by
  have hle : (sorted.getD i 0).toNat ≤ (sorted.getD j 0).toNat := by
    rw [← getD_map_toNat, ← getD_map_toNat, List.getD_eq_getElem _ _ (by simp; omega),
      List.getD_eq_getElem _ _ (by simp; omega)]
    exact List.sortedLE_iff_getElem_le_getElem_of_le.mp hsorted hij
  have hsub : (sorted.getD j 0 - sorted.getD i 0).toNat =
      (sorted.getD j 0).toNat - (sorted.getD i 0).toNat :=
    UInt64.toNat_sub_of_le _ _ (UInt64.le_iff_toNat_le.mpr hle)
  rw [getD_map_toNat, getD_map_toNat]
  split_ifs with hzero
  · rw [hzero, UInt64.toNat_zero] at hsub
    rw [UInt64.toNat_one]
    omega
  · have hpos : (sorted.getD j 0 - sorted.getD i 0).toNat ≠ 0 := fun h =>
      hzero (UInt64.toNat_inj.mp (h.trans UInt64.toNat_zero.symm))
    omega

/-- For fewer than {lit}`2 ^ 16` timestamps, every two less than {lit}`2 ^ 31`
seconds apart, {lit}`Currency::nextDifficulty` is the difficulty the window
should give. -/
theorem currency_nextDifficulty_eq_reference (config : DifficultyConfig)
    (timestamps cumulativeDifficulties : List UInt64)
    (hwindow : 2 ≤ config.window.toNat) (hcut : 2 * config.cut.toNat ≤ config.window.toNat - 2)
    (hlength : timestamps.length < 2 ^ 16) (hclose : WithinComparatorRange timestamps) :
    (Currency.nextDifficulty config timestamps cumulativeDifficulties).toNat =
      referenceDifficulty config timestamps cumulativeDifficulties := by
  have hcount : (windowLength timestamps.length.toUInt16 config).toNat =
      min timestamps.length config.window.toNat := by
    rw [toNat_windowLength, UInt16.toNat_ofNat_of_lt' hlength]
  simp only [Currency.nextDifficulty, nextDifficulty, referenceDifficulty, hcount]
  by_cases hshort : min timestamps.length config.window.toNat ≤ 1
  · rw [if_pos hshort, if_pos hshort]
    rfl
  · rw [if_neg hshort, if_neg hshort]
    have hkept : 2 ≤ (config.window - 2 * config.cut.toUInt32).toNat := by
      rw [toNat_kept (by omega)]
      omega
    obtain ⟨hbegin, hend⟩ := @cutBounds_spec (min timestamps.length config.window.toNat) config
      (by omega) hkept
    have hsorted := @map_toNat_qsort (timestamps.take
      (min timestamps.length config.window.toNat)) fun a ha b hb =>
        hclose a (List.mem_of_mem_take ha) b (List.mem_of_mem_take hb)
    have hsortedLE : ((qsort (timestamps.take (min timestamps.length config.window.toNat))).map
        UInt64.toNat).SortedLE := by
      rw [hsorted]
      exact List.sortedLE_insertionSort
    have hsortedLength : (qsort (timestamps.take (min timestamps.length config.window.toNat))).length =
        min timestamps.length config.window.toNat := by
      simp only [qsort, List.length_insertionSort, List.length_take]
      omega
    generalize cutBounds (min timestamps.length config.window.toNat) config = bounds at hbegin hend ⊢
    obtain ⟨cutBegin, cutEnd⟩ := bounds
    dsimp only at hbegin hend ⊢
    rw [toNat_roundUpDifficulty _ _ (span_ne_zero _), toNat_span hsortedLE (by omega) (by omega),
      hsorted]

/-- Three blocks a minute apart and then two, under the CryptoNote configuration. -/
theorem currency_nextDifficulty_eq_reference_minute :
    2 ≤ cryptoNoteConfig.window.toNat ∧
      2 * cryptoNoteConfig.cut.toNat ≤ cryptoNoteConfig.window.toNat - 2 ∧
      [1000, 1060, 1180].length < 2 ^ 16 ∧ WithinComparatorRange [1000, 1060, 1180] ∧
      (Currency.nextDifficulty cryptoNoteConfig [1000, 1060, 1180] [10, 20, 40]).toNat =
        referenceDifficulty cryptoNoteConfig [1000, 1060, 1180] [10, 20, 40] := by
  have hwindow : 2 ≤ cryptoNoteConfig.window.toNat := by decide
  have hcut : 2 * cryptoNoteConfig.cut.toNat ≤ cryptoNoteConfig.window.toNat - 2 := by decide
  have hlength : [1000, 1060, 1180].length < 2 ^ 16 := by decide
  -- by simp, not decide: under all of Mathlib 2 ^ 31 is a monoid power, which
  -- decide unfolds step by step
  have hclose : WithinComparatorRange [1000, 1060, 1180] := by simp [WithinComparatorRange]
  exact ⟨hwindow, hcut, hlength, hclose,
    currency_nextDifficulty_eq_reference cryptoNoteConfig [1000, 1060, 1180] [10, 20, 40]
      hwindow hcut hlength hclose⟩

/-- A timestamp just past {lit}`2 ^ 31` sorts before {lit}`0`: as an
{lit}`int` its low half is negative, and the difference does not wrap back.
The span then wraps around, and the difficulty overflows to {lit}`0` where the
window gives {lit}`8`. -/
theorem currency_nextDifficulty_wrapped_span :
    qsort [0, 2147483649] = [2147483649, 0] ∧
      Currency.nextDifficulty cryptoNoteConfig [0, 2147483649] [0, 134217728] = 0 ∧
      referenceDifficulty cryptoNoteConfig [0, 2147483649] [0, 134217728] = 8 := by
  decide

/-! ## The proof-of-work test -/

/-- The {lit}`k`-th 64-bit word of a hash, read little-endian as
{lit}`swap64le(((const uint64_t *)hash)[k])` reads it. -/
def hashWord (hash : Hash) (k : Nat) : UInt64 :=
  ((hash.bytes.drop (8 * k)).take 8).foldr (fun byte word => byte.toUInt64 ||| (word <<< 8)) 0

/-- {lit}`cadd`: the carry out of {lit}`a + b`. -/
def cadd (a b : UInt64) : Bool := a + b < a

/-- {lit}`cadc`: the carry out of {lit}`a + b + c`. -/
def cadc (a b : UInt64) (c : Bool) : Bool := a + b < a || (c && a + b == 0xFFFFFFFFFFFFFFFF)

/-- {lit}`check_hash`: the hash, as a 256-bit number, times the difficulty does not
overflow 256 bits.  The products of the four words are added with their carries,
from the lowest word up, after the highest word alone was tested. -/
def checkHash (hash : Hash) (difficulty : UInt64) : Bool :=
  let (top, high) := mul128 (hashWord hash 3) difficulty
  if high ≠ 0 then false
  else
    let (_, cur) := mul128 (hashWord hash 0) difficulty
    let (low, high) := mul128 (hashWord hash 1) difficulty
    let carry := cadd cur low
    let cur := high
    let (low, high) := mul128 (hashWord hash 2) difficulty
    let carry := cadc cur low carry
    let carry := cadc high top carry
    !carry

/-- The product by one has no high word. -/
theorem mul128_one (word : UInt64) : mul128 word 1 = (word, 0) := by
  have hspec := mul128_spec word 1
  have hlt := (mul128 word 1).1.toNat_lt
  rw [UInt64.toNat_one, Nat.mul_one] at hspec
  have hhigh : (mul128 word 1).2.toNat = 0 := by
    have := word.toNat_lt
    by_contra hne
    have : 2 ^ 64 ≤ (mul128 word 1).2.toNat * 2 ^ 64 := Nat.le_mul_of_pos_left _ (by omega)
    omega
  have hlow : (mul128 word 1).1 = word := UInt64.toNat_inj.mp (by omega)
  exact Prod.ext hlow (UInt64.toNat_inj.mp (by simpa using hhigh))

/-- Every hash meets difficulty 1: multiplying by one never carries. -/
theorem checkHash_one (hash : Hash) : checkHash hash 1 = true := by
  simp [checkHash, mul128_one, cadd, cadc]

/-! ## The proof-of-work test is exact -/

section CheckHash

open ByteCodec

/-- The bytes of a word, folded as {lit}`hashWord` folds them, hold their
little-endian value while there are at most eight. -/
theorem toNat_foldr_bytes {bytes : List UInt8} (hlen : bytes.length ≤ 8) :
    (bytes.foldr (fun byte (word : UInt64) => byte.toUInt64 ||| (word <<< 8)) 0).toNat =
      LittleEndian.value bytes := by
  induction bytes with
  | nil => rfl
  | cons byte bytes ih =>
    have hlen' : bytes.length ≤ 7 := by
      rw [List.length_cons] at hlen
      omega
    have hbound : LittleEndian.value bytes < 2 ^ 56 :=
      calc LittleEndian.value bytes < 256 ^ bytes.length := LittleEndian.value_lt bytes
        _ ≤ 256 ^ 7 := Nat.pow_le_pow_right (by norm_num) hlen'
        _ = 2 ^ 56 := by norm_num
    have hbyte := byte.toNat_lt
    have hshift : LittleEndian.value bytes <<< 8 % 2 ^ 64 = LittleEndian.value bytes <<< 8 := by
      rw [Nat.shiftLeft_eq, Nat.mod_eq_of_lt (by omega)]
    rw [List.foldr_cons, UInt64.toNat_or, UInt64.toNat_shiftLeft, ih (by omega),
      LittleEndian.value, UInt8.toNat_toUInt64]
    show byte.toNat ||| LittleEndian.value bytes <<< 8 % 2 ^ 64 = _
    rw [hshift, Nat.or_comm, ← Nat.shiftLeft_add_eq_or_of_lt hbyte, Nat.shiftLeft_eq]
    omega

theorem toNat_hashWord (hash : Hash) (k : Nat) :
    (hashWord hash k).toNat = LittleEndian.value ((hash.bytes.drop (8 * k)).take 8) :=
  toNat_foldr_bytes (List.length_take_le _ _)

/-- The hash as a number is its four words, the first the least significant. -/
theorem value_hash (hash : Hash) :
    LittleEndian.value hash.bytes =
      (hashWord hash 0).toNat + (hashWord hash 1).toNat * 2 ^ 64 +
        (hashWord hash 2).toNat * 2 ^ 128 + (hashWord hash 3).toNat * 2 ^ 192 := by
  have hlen := hash.length_eq
  have hlast : (hash.bytes.drop 24).take 8 = hash.bytes.drop 24 :=
    List.take_of_length_le (by simp [hlen])
  rw [toNat_hashWord, toNat_hashWord, toNat_hashWord, toNat_hashWord,
    LittleEndian.value_take_drop hash.bytes (n := 8) (by omega),
    LittleEndian.value_take_drop (hash.bytes.drop 8) (n := 8) (by simp [hlen]),
    LittleEndian.value_take_drop ((hash.bytes.drop 8).drop 8) (n := 8) (by simp [hlen])]
  simp only [List.drop_drop, Nat.mul_zero, List.drop_zero, hlast]
  norm_num
  ring

theorem cadd_eq (a b : UInt64) : cadd a b = decide (2 ^ 64 ≤ a.toNat + b.toNat) := by
  have ha := a.toNat_lt
  have hb := b.toNat_lt
  simp only [cadd, UInt64.lt_iff_toNat_lt, UInt64.toNat_add, decide_eq_decide]
  omega

/-- {lit}`cadc` is the carry out of the sum with the carry in, also when the sum
without it is the largest word. -/
theorem cadc_eq (a b : UInt64) (c : Bool) :
    cadc a b c = decide (2 ^ 64 ≤ a.toNat + b.toNat + c.toNat) := by
  have ha := a.toNat_lt
  have hb := b.toNat_lt
  cases c with
  | false =>
    simp only [cadc, Bool.false_and, Bool.or_false, UInt64.lt_iff_toNat_lt, UInt64.toNat_add,
      Bool.toNat_false, decide_eq_decide]
    omega
  | true =>
    rw [Bool.eq_iff_iff]
    simp only [cadc, Bool.true_and, Bool.or_eq_true, decide_eq_true_eq, beq_iff_eq,
      UInt64.lt_iff_toNat_lt, ← UInt64.toNat_inj, UInt64.toNat_add, Bool.toNat_true]
    have hmax : UInt64.toNat 18446744073709551615 = 2 ^ 64 - 1 := rfl
    omega

/-- Three 64-bit limbs added with their carries, over a lowest word that carries
nothing: the sum stays below {lit}`2 ^ 256` exactly when the last addition does
not carry. -/
theorem limbs_lt_iff {lo0 hi0 lo1 hi1 lo2 hi2 lo3 : Nat} (hlo0 : lo0 < 2 ^ 64)
    (hhi0 : hi0 < 2 ^ 64) (hlo1 : lo1 < 2 ^ 64) (hhi1 : hi1 < 2 ^ 64) (hlo2 : lo2 < 2 ^ 64) :
    lo0 + hi0 * 2 ^ 64 + (lo1 + hi1 * 2 ^ 64) * 2 ^ 64 + (lo2 + hi2 * 2 ^ 64) * 2 ^ 128 +
        lo3 * 2 ^ 192 < 2 ^ 256 ↔
      ¬2 ^ 64 ≤ hi2 + lo3 +
        (decide (2 ^ 64 ≤ hi1 + lo2 + (decide (2 ^ 64 ≤ hi0 + lo1)).toNat)).toNat := by
  simp only [Bool.toNat, Bool.cond_decide]
  split_ifs <;> omega

/-- {lit}`check_hash` computes exactly whether the hash, read as a little-endian
256-bit number, times the difficulty stays below {lit}`2 ^ 256`. -/
theorem checkHash_eq_true_iff (hash : Hash) (difficulty : UInt64) :
    checkHash hash difficulty = true ↔
      LittleEndian.value hash.bytes * difficulty.toNat < 2 ^ 256 := by
  have h0 := mul128_spec (hashWord hash 0) difficulty
  have h1 := mul128_spec (hashWord hash 1) difficulty
  have h2 := mul128_spec (hashWord hash 2) difficulty
  have h3 := mul128_spec (hashWord hash 3) difficulty
  have hvalue : LittleEndian.value hash.bytes * difficulty.toNat =
      (hashWord hash 0).toNat * difficulty.toNat +
        (hashWord hash 1).toNat * difficulty.toNat * 2 ^ 64 +
        (hashWord hash 2).toNat * difficulty.toNat * 2 ^ 128 +
        (hashWord hash 3).toNat * difficulty.toNat * 2 ^ 192 := by
    rw [value_hash]
    ring
  rw [hvalue, ← h0, ← h1, ← h2, ← h3, checkHash]
  rcases mul128 (hashWord hash 0) difficulty with ⟨lo0, hi0⟩
  rcases mul128 (hashWord hash 1) difficulty with ⟨lo1, hi1⟩
  rcases mul128 (hashWord hash 2) difficulty with ⟨lo2, hi2⟩
  rcases mul128 (hashWord hash 3) difficulty with ⟨top, hi3⟩
  simp only [cadd_eq, cadc_eq, ne_eq, ← UInt64.toNat_inj, UInt64.toNat_zero]
  by_cases hhigh : hi3.toNat = 0
  · simp only [hhigh, not_true_eq_false, if_false, Bool.not_eq_true', decide_eq_false_iff_not,
      Nat.zero_mul, Nat.add_zero]
    exact (limbs_lt_iff lo0.toNat_lt hi0.toNat_lt lo1.toNat_lt hi1.toNat_lt lo2.toNat_lt).symm
  · simp only [hhigh, not_false_eq_true, if_true, Bool.false_eq_true, false_iff, not_lt]
    omega

end CheckHash

end Difficulty

end CryptoNote

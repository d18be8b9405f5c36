import CryptoNote.Types
import CryptoNote.Crypto.Difficulty
import CryptoNote.Lib.Binary64
import Mathlib.Tactic.LinearCombination

/-!
# Currency parameters and the block reward

The parts of {lit}`Currency` that the pool and the chain read: the numeric
parameters of {lit}`CryptoNoteConfig.h` as the builder stores them, the
cumulative size limit, the reward of {lit}`getBlockReward` with the size
penalty of {lit}`get_penalized_amount`, and {lit}`nextDifficulty` over the
difficulty parameters.

One member is kept as a given value rather than computed:
{lit}`isFusionTransaction` is a policy over the amounts of a transaction that
only the pool's fee check reads.  The base reward of the block after the
genesis, which {lit}`getBlockReward` computes as {lit}`m_moneySupply * 0.20` in
{lit}`double` and truncates back to an integer, is computed so, with the
rounding of {lit}`Binary64`.  The genesis block is the one the configuration
decodes from its coinbase text.

Integers keep their C++ widths; {lit}`size_t` is a 64-bit word, and the
arithmetic wraps where the C++ does.  Assertions are compiled out.

Main results:

- Theorem {lit}`getPenalizedAmount_of_le`: a block no larger than the median
  keeps the whole amount.
- Theorem {lit}`getBlockReward_of_le`: for such a block the reward is the base
  reward plus the fees, and the emission change is the base reward.
- Theorem {lit}`div128By32_divMod`: the base-{lit}`2 ^ 32` long division of
  {lit}`div128_32` computes the integer quotient of the 128-bit dividend and
  returns its remainder; with {lit}`mul128_spec` this makes both 128-bit helpers
  exact ({lit}`mul128_div128By32_exact`).
- Theorem {lit}`getPenalizedAmount_exact`: up to twice a median below
  {lit}`2 ^ 32` the penalty is the exact floor of the quadratic formula, takes
  part of every non-zero amount above the median, and falls as the block grows.
- Theorem {lit}`getBlockReward_accounting`: with the supply and the fees below
  {lit}`2 ^ 63` and the premine within the supply, the reward is the emission
  change plus the fees as integers, at most the base reward plus the fees, and
  no block takes the coins generated past the supply.  Without the bound on the
  fees the reward wraps (the sample currency's {lit}`getBlockReward_fee_wraps`).
-/

namespace CryptoNote

open Difficulty

/-- The parameters of {lit}`Currency` that the pool and the chain read. -/
structure Currency where
  maxBlockHeight : UInt64
  minedMoneyUnlockWindow : UInt64
  timestampCheckWindow : UInt64
  blockFutureTimeLimit : UInt64
  moneySupply : UInt64
  emissionSpeedFactor : UInt64
  rewardBlocksWindow : UInt64
  blockGrantedFullRewardZone : UInt64
  minerTxBlobReservedSize : UInt64
  fusionTxMaxSize : UInt64
  minimumFee : UInt64
  defaultDustThreshold : UInt64
  difficultyTarget : UInt64
  difficultyWindow : UInt64
  difficultyLag : UInt64
  difficultyCut : UInt64
  maxBlockSizeInitial : UInt64
  maxBlockSizeGrowthSpeedNumerator : UInt64
  maxBlockSizeGrowthSpeedDenominator : UInt64
  lockedTxAllowedDeltaSeconds : UInt64
  lockedTxAllowedDeltaBlocks : UInt64
  mempoolTxLiveTime : UInt64
  mempoolTxFromAltBlockLiveTime : UInt64
  numberOfPeriodsToForgetTxDeletedFromPool : UInt64
  /-- {lit}`isFusionTransaction(tx, size)`. -/
  isFusionTransaction : Transaction → UInt64 → Bool
  genesisBlock : Block

namespace Currency

variable (currency : Currency)

/-- {lit}`m_moneySupply * 0.20` as {lit}`getBlockReward` computes it: the supply
converted to {lit}`double`, multiplied by the {lit}`double` nearest to
{lit}`0.20`, and truncated back to {lit}`uint64_t`. -/
def premineReward : UInt64 :=
  (Binary64.truncate
    (Binary64.mul (Binary64.ofNat currency.moneySupply.toNat) (Binary64.ofRat 20 100))).toUInt64

/-- {lit}`difficultyBlocksCount`. -/
def difficultyBlocksCount : UInt64 := currency.difficultyWindow + currency.difficultyLag

/-- The {lit}`difficulty_config_t` that {lit}`Currency::nextDifficulty` fills in,
each field truncated to its width. -/
def difficultyConfig : DifficultyConfig :=
  ⟨currency.difficultyTarget.toUInt8, currency.difficultyCut.toUInt8,
    currency.difficultyWindow.toUInt32⟩

/-- {lit}`Currency::nextDifficulty`. -/
def nextDifficulty (timestamps cumulativeDifficulties : List UInt64) : UInt64 :=
  Difficulty.Currency.nextDifficulty currency.difficultyConfig timestamps cumulativeDifficulties

/-- {lit}`maxBlockCumulativeSize`. -/
def maxBlockCumulativeSize (height : UInt64) : UInt64 :=
  currency.maxBlockSizeInitial +
    height * currency.maxBlockSizeGrowthSpeedNumerator / currency.maxBlockSizeGrowthSpeedDenominator

end Currency

/-! ## The size penalty -/

/-- {lit}`div_with_reminder`: one step of the long division, with the remainder
of the step before as the high half of the dividend. -/
def divWithReminder (dividend : UInt64) (divisor remainder : UInt32) : UInt64 × UInt32 :=
  let dividend := dividend ||| (remainder.toUInt64 <<< 32)
  (dividend / divisor.toUInt64, (dividend % divisor.toUInt64).toUInt32)

/-- {lit}`div128_32`: long division of a 128-bit number by a 32-bit one, digit by
32-bit digit; the high and the low word of the quotient. -/
def div128By32 (dividendHi dividendLo : UInt64) (divisor : UInt32) : UInt64 × UInt64 :=
  let (q3, r) := divWithReminder (hiDword dividendHi) divisor 0
  let (q2, r) := divWithReminder (loDword dividendHi) divisor r
  let (q1, r) := divWithReminder (hiDword dividendLo) divisor r
  let (q0, _) := divWithReminder (loDword dividendLo) divisor r
  ((q3 <<< 32) ||| q2, (q1 <<< 32) ||| q0)

/-- The value {lit}`div128_32` returns: the remainder of the last digit's step. -/
def div128By32Remainder (dividendHi dividendLo : UInt64) (divisor : UInt32) : UInt32 :=
  let (_, r) := divWithReminder (hiDword dividendHi) divisor 0
  let (_, r) := divWithReminder (loDword dividendHi) divisor r
  let (_, r) := divWithReminder (hiDword dividendLo) divisor r
  (divWithReminder (loDword dividendLo) divisor r).2

/-- One step of the long division divides the remainder carried in, as the high
half, joined with the next digit. -/
theorem divWithReminder_spec {dividend : UInt64} {divisor remainder : UInt32}
    (hdigit : dividend.toNat < 2 ^ 32) (hrem : remainder.toNat < divisor.toNat) :
    (divWithReminder dividend divisor remainder).1.toNat =
        (remainder.toNat * 2 ^ 32 + dividend.toNat) / divisor.toNat ∧
      (divWithReminder dividend divisor remainder).2.toNat =
        (remainder.toNat * 2 ^ 32 + dividend.toNat) % divisor.toNat := by
  have hdivisor := divisor.toNat_lt
  have hjoin : (dividend ||| remainder.toUInt64 <<< 32).toNat =
      remainder.toNat * 2 ^ 32 + dividend.toNat := by
    rw [UInt64.toNat_or, UInt64.toNat_shiftLeft, UInt32.toNat_toUInt64]
    show dividend.toNat ||| remainder.toNat <<< 32 % 2 ^ 64 = _
    rw [Nat.shiftLeft_eq, Nat.mod_eq_of_lt (by omega), Nat.or_comm, ← Nat.shiftLeft_eq,
      ← Nat.shiftLeft_add_eq_or_of_lt hdigit, Nat.shiftLeft_eq]
  have hmod : (remainder.toNat * 2 ^ 32 + dividend.toNat) % divisor.toNat < 2 ^ 32 :=
    lt_of_lt_of_le (Nat.mod_lt _ (by omega)) (by omega)
  simp only [divWithReminder, UInt64.toNat_div, UInt64.toNat_mod, hjoin, UInt32.toNat_toUInt64,
    UInt64.toNat_toUInt32, Nat.mod_eq_of_lt hmod, and_self]

/-- Each digit of the quotient is below {lit}`2 ^ 32`: the remainder carried in is
below the divisor. -/
theorem divWithReminder_lt {dividend : UInt64} {divisor remainder : UInt32}
    (hdigit : dividend.toNat < 2 ^ 32) (hrem : remainder.toNat < divisor.toNat) :
    (divWithReminder dividend divisor remainder).1.toNat < 2 ^ 32 ∧
      (divWithReminder dividend divisor remainder).2.toNat < divisor.toNat := by
  obtain ⟨hq, hr⟩ := divWithReminder_spec hdigit hrem
  rw [hq, hr]
  refine ⟨(Nat.div_lt_iff_lt_mul (by omega)).mpr ?_, Nat.mod_lt _ (by omega)⟩
  calc remainder.toNat * 2 ^ 32 + dividend.toNat < (remainder.toNat + 1) * 2 ^ 32 := by omega
    _ ≤ divisor.toNat * 2 ^ 32 := Nat.mul_le_mul_right _ (by omega)
    _ = 2 ^ 32 * divisor.toNat := Nat.mul_comm _ _

/-- Two 32-bit digits joined into a word. -/
theorem toNat_shiftLeft_or {hi lo : UInt64} (hhi : hi.toNat < 2 ^ 32) (hlo : lo.toNat < 2 ^ 32) :
    ((hi <<< 32) ||| lo).toNat = hi.toNat * 2 ^ 32 + lo.toNat := by
  rw [UInt64.toNat_or, UInt64.toNat_shiftLeft]
  show hi.toNat <<< 32 % 2 ^ 64 ||| lo.toNat = _
  rw [Nat.shiftLeft_eq, Nat.mod_eq_of_lt (by omega), ← Nat.shiftLeft_eq,
    ← Nat.shiftLeft_add_eq_or_of_lt hlo, Nat.shiftLeft_eq]

/-- One step of the long division as an equation: the remainder carried in and the
digit are the divisor times the quotient digit plus the new remainder. -/
theorem divWithReminder_step {dividend : UInt64} {divisor remainder : UInt32}
    (hdigit : dividend.toNat < 2 ^ 32) (hrem : remainder.toNat < divisor.toNat) :
    remainder.toNat * 2 ^ 32 + dividend.toNat =
        divisor.toNat * (divWithReminder dividend divisor remainder).1.toNat +
          (divWithReminder dividend divisor remainder).2.toNat ∧
      (divWithReminder dividend divisor remainder).1.toNat < 2 ^ 32 ∧
      (divWithReminder dividend divisor remainder).2.toNat < divisor.toNat := by
  obtain ⟨hq, hr⟩ := divWithReminder_spec hdigit hrem
  refine ⟨?_, divWithReminder_lt hdigit hrem⟩
  rw [hq, hr]
  exact (Nat.div_add_mod _ _).symm

/-- Long division by base-{lit}`B` digits: when each step divides the remainder of the
step above joined with the next digit, the digits of the quotient and the last
remainder are the quotient and the remainder of the whole. -/
theorem longDivision {d B n3 n2 n1 n0 q3 q2 q1 q0 r3 r2 r1 r0 : Nat}
    (e3 : n3 = d * q3 + r3) (e2 : r3 * B + n2 = d * q2 + r2)
    (e1 : r2 * B + n1 = d * q1 + r1) (e0 : r1 * B + n0 = d * q0 + r0) (hr0 : r0 < d) :
    (n3 * B ^ 3 + n2 * B ^ 2 + n1 * B + n0) / d = q3 * B ^ 3 + q2 * B ^ 2 + q1 * B + q0 ∧
      (n3 * B ^ 3 + n2 * B ^ 2 + n1 * B + n0) % d = r0 := by
  have hd : 0 < d := by omega
  have hsum : n3 * B ^ 3 + n2 * B ^ 2 + n1 * B + n0 =
      r0 + d * (q3 * B ^ 3 + q2 * B ^ 2 + q1 * B + q0) := by
    linear_combination B ^ 3 * e3 + B ^ 2 * e2 + B * e1 + e0
  rw [hsum]
  constructor
  · rw [Nat.add_mul_div_left _ _ hd, Nat.div_eq_of_lt hr0, Nat.zero_add]
  · rw [Nat.add_mul_mod_self_left, Nat.mod_eq_of_lt hr0]

/-- {lit}`div128_32` divides the whole 128-bit number: the two words of the quotient
hold its integer quotient, and the value returned is its remainder. -/
theorem div128By32_divMod (dividendHi dividendLo : UInt64) {divisor : UInt32}
    (hdivisor : 0 < divisor.toNat) :
    (div128By32 dividendHi dividendLo divisor).1.toNat * 2 ^ 64 +
        (div128By32 dividendHi dividendLo divisor).2.toNat =
      (dividendHi.toNat * 2 ^ 64 + dividendLo.toNat) / divisor.toNat ∧
    (div128By32Remainder dividendHi dividendLo divisor).toNat =
      (dividendHi.toNat * 2 ^ 64 + dividendLo.toNat) % divisor.toNat := by
  have hhi := dividendHi.toNat_lt
  have hlo := dividendLo.toNat_lt
  have h3 : (hiDword dividendHi).toNat < 2 ^ 32 := by rw [toNat_hiDword]; omega
  have h2 : (loDword dividendHi).toNat < 2 ^ 32 := by rw [toNat_loDword]; omega
  have h1 : (hiDword dividendLo).toNat < 2 ^ 32 := by rw [toNat_hiDword]; omega
  have h0 : (loDword dividendLo).toNat < 2 ^ 32 := by rw [toNat_loDword]; omega
  have hdividend : dividendHi.toNat * 2 ^ 64 + dividendLo.toNat =
      (hiDword dividendHi).toNat * (2 ^ 32) ^ 3 + (loDword dividendHi).toNat * (2 ^ 32) ^ 2 +
        (hiDword dividendLo).toNat * 2 ^ 32 + (loDword dividendLo).toNat := by
    rw [toNat_hiDword, toNat_loDword, toNat_hiDword, toNat_loDword]
    omega
  simp only [div128By32, div128By32Remainder]
  rcases hstep3 : divWithReminder (hiDword dividendHi) divisor 0 with ⟨q3, r3⟩
  rcases hstep2 : divWithReminder (loDword dividendHi) divisor r3 with ⟨q2, r2⟩
  rcases hstep1 : divWithReminder (hiDword dividendLo) divisor r2 with ⟨q1, r1⟩
  rcases hstep0 : divWithReminder (loDword dividendLo) divisor r1 with ⟨q0, r0⟩
  have hzero : (0 : UInt32).toNat < divisor.toNat := hdivisor
  have step3 := divWithReminder_step h3 hzero
  rw [hstep3, UInt32.toNat_zero, Nat.zero_mul, Nat.zero_add] at step3
  have step2 := divWithReminder_step h2 step3.2.2
  rw [hstep2] at step2
  have step1 := divWithReminder_step h1 step2.2.2
  rw [hstep1] at step1
  have step0 := divWithReminder_step h0 step1.2.2
  rw [hstep0] at step0
  obtain ⟨hdiv, hmod⟩ := longDivision step3.1 step2.1 step1.1 step0.1 step0.2.2
  dsimp only
  rw [toNat_shiftLeft_or step3.2.1 step2.2.1, toNat_shiftLeft_or step1.2.1 step0.2.1, hdividend,
    hdiv, hmod]
  exact ⟨by ring, rfl⟩

/-- {lit}`div128_32` divides the whole 128-bit number: the two words of the
quotient hold its integer quotient. -/
theorem div128By32_spec (dividendHi dividendLo : UInt64) {divisor : UInt32}
    (hdivisor : 0 < divisor.toNat) :
    (div128By32 dividendHi dividendLo divisor).1.toNat * 2 ^ 64 +
        (div128By32 dividendHi dividendLo divisor).2.toNat =
      (dividendHi.toNat * 2 ^ 64 + dividendLo.toNat) / divisor.toNat :=
  (div128By32_divMod dividendHi dividendLo hdivisor).1

/-- The two 128-bit helpers of {lit}`int-util.h` are exact: {lit}`mul128` returns the
low word of the product and leaves the high word, and {lit}`div128_32` by a divisor of
at least one leaves a quotient and returns a remainder below the divisor that give back
the dividend. -/
theorem mul128_div128By32_exact :
    (∀ multiplier multiplicand : UInt64,
      (mul128 multiplier multiplicand).2.toNat * 2 ^ 64 + (mul128 multiplier multiplicand).1.toNat =
        multiplier.toNat * multiplicand.toNat) ∧
    ∀ (dividendHi dividendLo : UInt64) (divisor : UInt32), 1 ≤ divisor.toNat →
      ((div128By32 dividendHi dividendLo divisor).1.toNat * 2 ^ 64 +
          (div128By32 dividendHi dividendLo divisor).2.toNat) * divisor.toNat +
          (div128By32Remainder dividendHi dividendLo divisor).toNat =
        dividendHi.toNat * 2 ^ 64 + dividendLo.toNat ∧
      (div128By32Remainder dividendHi dividendLo divisor).toNat < divisor.toNat := by
  refine ⟨fun multiplier multiplicand => ?_, fun dividendHi dividendLo divisor hdivisor => ?_⟩
  · rw [Nat.add_comm]
    exact mul128_spec multiplier multiplicand
  · obtain ⟨hdiv, hmod⟩ := div128By32_divMod dividendHi dividendLo hdivisor
    rw [hdiv, hmod]
    exact ⟨Nat.div_add_mod' _ _, Nat.mod_lt _ hdivisor⟩

/-- At the carry boundaries: all-ones words divided by the largest divisor. -/
theorem mul128_div128By32_exact_all_ones :
    ((div128By32 0xFFFFFFFFFFFFFFFF 0xFFFFFFFFFFFFFFFF 0xFFFFFFFF).1.toNat * 2 ^ 64 +
        (div128By32 0xFFFFFFFFFFFFFFFF 0xFFFFFFFFFFFFFFFF 0xFFFFFFFF).2.toNat) *
        (0xFFFFFFFF : UInt32).toNat +
        (div128By32Remainder 0xFFFFFFFFFFFFFFFF 0xFFFFFFFFFFFFFFFF 0xFFFFFFFF).toNat =
      (0xFFFFFFFFFFFFFFFF : UInt64).toNat * 2 ^ 64 + (0xFFFFFFFFFFFFFFFF : UInt64).toNat ∧
    (div128By32Remainder 0xFFFFFFFFFFFFFFFF 0xFFFFFFFFFFFFFFFF 0xFFFFFFFF).toNat <
      (0xFFFFFFFF : UInt32).toNat :=
  mul128_div128By32_exact.2 _ _ _ (by decide)

/-- {lit}`get_penalized_amount`: the amount scaled by
{lit}`size * (2 * median - size) / median ^ 2` when the block is larger than the
median. -/
def getPenalizedAmount (amount medianSize currentBlockSize : UInt64) : UInt64 :=
  if amount = 0 then 0
  else if currentBlockSize ≤ medianSize then amount
  else
    let (productLo, productHi) :=
      mul128 amount (currentBlockSize * (2 * medianSize - currentBlockSize))
    let (hi, lo) := div128By32 productHi productLo medianSize.toUInt32
    (div128By32 hi lo medianSize.toUInt32).2

/-- A block within the median keeps the whole amount. -/
theorem getPenalizedAmount_of_le {amount medianSize currentBlockSize : UInt64}
    (h : currentBlockSize ≤ medianSize) :
    getPenalizedAmount amount medianSize currentBlockSize = amount := by
  unfold getPenalizedAmount
  split_ifs with hzero
  · exact hzero.symm
  · rfl

/-- Above the median the penalty factor is the square of the median less the
square of the excess. -/
theorem penaltyFactor_add {m c : Nat} (hmc : m ≤ c) (hc : c ≤ 2 * m) :
    c * (2 * m - c) + (c - m) * (c - m) = m * m := by
  obtain ⟨t, rfl⟩ := Nat.exists_eq_add_of_le hmc
  obtain ⟨u, rfl⟩ := Nat.exists_eq_add_of_le (show t ≤ m by omega)
  have hsub : 2 * (t + u) - (t + u + t) = u := by omega
  rw [hsub, Nat.add_sub_cancel_left]
  ring

/-- Inside the penalty zone the code computes the penalised amount exactly: the
128-bit product and the two long divisions lose nothing. -/
theorem toNat_getPenalizedAmount {amount medianSize currentBlockSize : UInt64}
    (hmedian32 : medianSize.toNat < 2 ^ 32)
    (hgt : medianSize < currentBlockSize) (hle : currentBlockSize.toNat ≤ 2 * medianSize.toNat) :
    (getPenalizedAmount amount medianSize currentBlockSize).toNat =
      amount.toNat * (currentBlockSize.toNat * (2 * medianSize.toNat - currentBlockSize.toNat)) /
        medianSize.toNat ^ 2 := by
  have hlt : medianSize.toNat < currentBlockSize.toNat := UInt64.lt_iff_toNat_lt.mp hgt
  have hfactor := penaltyFactor_add hlt.le hle
  -- the factor fits in a word: it is at most the square of the median
  have hfactorNat : (currentBlockSize * (2 * medianSize - currentBlockSize)).toNat =
      currentBlockSize.toNat * (2 * medianSize.toNat - currentBlockSize.toNat) := by
    have htwice : (2 * medianSize).toNat = 2 * medianSize.toNat := by
      rw [UInt64.toNat_mul, Nat.mod_eq_of_lt (by simp; omega)]
      rfl
    have hsquare : medianSize.toNat * medianSize.toNat < 2 ^ 64 :=
      calc medianSize.toNat * medianSize.toNat < 2 ^ 32 * 2 ^ 32 :=
            Nat.mul_lt_mul'' hmedian32 hmedian32
        _ = 2 ^ 64 := by norm_num
    rw [UInt64.toNat_mul, UInt64.toNat_sub_of_le _ _ (UInt64.le_iff_toNat_le.mpr (by omega)),
      htwice, Nat.mod_eq_of_lt (Nat.lt_of_le_of_lt (Nat.le.intro hfactor) hsquare)]
  have hdivisor : (medianSize.toUInt32).toNat = medianSize.toNat := by
    rw [UInt64.toNat_toUInt32, Nat.mod_eq_of_lt hmedian32]
  have hpositive : 0 < (medianSize.toUInt32).toNat := by rw [hdivisor]; omega
  -- the penalised amount is at most the amount, so the high word of the quotient is zero
  have hbound : amount.toNat *
      (currentBlockSize.toNat * (2 * medianSize.toNat - currentBlockSize.toNat)) /
        (medianSize.toNat * medianSize.toNat) < 2 ^ 64 := by
    refine Nat.lt_of_le_of_lt (Nat.div_le_of_le_mul ?_) amount.toNat_lt
    rw [Nat.mul_comm (medianSize.toNat * medianSize.toNat)]
    exact Nat.mul_le_mul_left _ (Nat.le.intro hfactor)
  have hnle : ¬ currentBlockSize ≤ medianSize := UInt64.not_le.mpr hgt
  unfold getPenalizedAmount
  by_cases hzero : amount = 0
  · subst hzero
    simp
  rw [if_neg hzero, if_neg hnle]
  rcases hproduct : mul128 amount (currentBlockSize * (2 * medianSize - currentBlockSize)) with
    ⟨lo, hi⟩
  have hmul := mul128_spec amount (currentBlockSize * (2 * medianSize - currentBlockSize))
  rw [hproduct, hfactorNat] at hmul
  dsimp only at hmul
  rcases hfirst : div128By32 hi lo medianSize.toUInt32 with ⟨quotientHi, quotientLo⟩
  have hfirstSpec := div128By32_spec hi lo hpositive
  rw [hfirst] at hfirstSpec
  dsimp only at hfirstSpec
  have hsecondSpec := div128By32_spec quotientHi quotientLo hpositive
  rw [hfirstSpec, hdivisor, Nat.div_div_eq_div_mul, Nat.add_comm _ lo.toNat, hmul] at hsecondSpec
  dsimp only
  rw [hfirst, sq]
  generalize amount.toNat *
      (currentBlockSize.toNat * (2 * medianSize.toNat - currentBlockSize.toNat)) /
        (medianSize.toNat * medianSize.toNat) = penalized at hsecondSpec hbound ⊢
  have hhigh : (div128By32 quotientHi quotientLo medianSize.toUInt32).1.toNat = 0 := by omega
  rw [hhigh, Nat.zero_mul, Nat.zero_add] at hsecondSpec
  exact hsecondSpec

/-- The penalised amount never exceeds the amount, for any block up to twice
the median. -/
theorem getPenalizedAmount_le {amount medianSize currentBlockSize : UInt64}
    (hmedian32 : medianSize.toNat < 2 ^ 32)
    (hle : currentBlockSize.toNat ≤ 2 * medianSize.toNat) :
    (getPenalizedAmount amount medianSize currentBlockSize).toNat ≤ amount.toNat := by
  by_cases hgt : medianSize < currentBlockSize
  · have hlt : medianSize.toNat < currentBlockSize.toNat := UInt64.lt_iff_toNat_lt.mp hgt
    rw [toNat_getPenalizedAmount hmedian32 hgt hle, sq]
    refine Nat.div_le_of_le_mul ?_
    rw [Nat.mul_comm (medianSize.toNat * medianSize.toNat)]
    exact Nat.mul_le_mul_left _ (Nat.le.intro (penaltyFactor_add hlt.le hle))
  · rw [getPenalizedAmount_of_le (UInt64.not_lt.mp hgt)]

/-- A block larger than the median loses part of any non-zero amount. -/
theorem getPenalizedAmount_lt {amount medianSize currentBlockSize : UInt64}
    (hamount : 0 < amount.toNat) (hmedian32 : medianSize.toNat < 2 ^ 32)
    (hgt : medianSize < currentBlockSize)
    (hle : currentBlockSize.toNat ≤ 2 * medianSize.toNat) :
    (getPenalizedAmount amount medianSize currentBlockSize).toNat < amount.toNat := by
  have hlt : medianSize.toNat < currentBlockSize.toNat := UInt64.lt_iff_toNat_lt.mp hgt
  have hfactor := penaltyFactor_add hlt.le hle
  have hexcess : 0 < (currentBlockSize.toNat - medianSize.toNat) *
      (currentBlockSize.toNat - medianSize.toNat) := Nat.mul_pos (by omega) (by omega)
  have hmedian : 0 < medianSize.toNat := by omega
  rw [toNat_getPenalizedAmount hmedian32 hgt hle, sq,
    Nat.div_lt_iff_lt_mul (Nat.mul_pos hmedian hmedian)]
  exact (Nat.mul_lt_mul_left hamount).mpr (by omega)

/-- The penalised amount does not grow with the block, up to twice the median. -/
theorem getPenalizedAmount_antitone {amount medianSize small large : UInt64}
    (hmedian32 : medianSize.toNat < 2 ^ 32)
    (hsmall : small ≤ large) (hlarge : large.toNat ≤ 2 * medianSize.toNat) :
    (getPenalizedAmount amount medianSize large).toNat ≤
      (getPenalizedAmount amount medianSize small).toNat := by
  have hle : small.toNat ≤ large.toNat := UInt64.le_iff_toNat_le.mp hsmall
  by_cases hpenalized : medianSize < small
  · have hlt : medianSize < large := UInt64.lt_of_lt_of_le hpenalized hsmall
    have hsmallFactor := penaltyFactor_add (UInt64.lt_iff_toNat_lt.mp hpenalized).le
      (show small.toNat ≤ 2 * medianSize.toNat by omega)
    have hlargeFactor := penaltyFactor_add (UInt64.lt_iff_toNat_lt.mp hlt).le hlarge
    have hexcess : (small.toNat - medianSize.toNat) * (small.toNat - medianSize.toNat) ≤
        (large.toNat - medianSize.toNat) * (large.toNat - medianSize.toNat) :=
      Nat.mul_self_le_mul_self (by omega)
    rw [toNat_getPenalizedAmount hmedian32 hlt hlarge,
      toNat_getPenalizedAmount hmedian32 hpenalized (by omega)]
    exact Nat.div_le_div_right (Nat.mul_le_mul_left _ (by omega))
  · rw [getPenalizedAmount_of_le (UInt64.not_lt.mp hpenalized)]
    exact getPenalizedAmount_le hmedian32 hlarge

/-- {lit}`get_penalized_amount` as its formula: exact above the median, the whole
amount up to it, and non-increasing in the block size. -/
theorem getPenalizedAmount_exact (amount medianSize : UInt64)
    (hmedian32 : medianSize.toNat ≤ 2 ^ 32 - 1) :
    (∀ currentBlockSize : UInt64, medianSize < currentBlockSize →
        currentBlockSize.toNat ≤ 2 * medianSize.toNat →
        (getPenalizedAmount amount medianSize currentBlockSize).toNat =
            amount.toNat * currentBlockSize.toNat * (2 * medianSize.toNat - currentBlockSize.toNat) /
              medianSize.toNat ^ 2 ∧
          (0 < amount.toNat →
            (getPenalizedAmount amount medianSize currentBlockSize).toNat < amount.toNat)) ∧
      (∀ currentBlockSize : UInt64, currentBlockSize ≤ medianSize →
        getPenalizedAmount amount medianSize currentBlockSize = amount) ∧
      (∀ small large : UInt64, small ≤ large → large.toNat ≤ 2 * medianSize.toNat →
        getPenalizedAmount amount medianSize large ≤ getPenalizedAmount amount medianSize small) := by
  have hbound : medianSize.toNat < 2 ^ 32 := by omega
  refine ⟨fun currentBlockSize hgt hle => ⟨?_, fun hamount => ?_⟩,
    fun currentBlockSize hle => getPenalizedAmount_of_le hle,
    fun small large hsmall hlarge => ?_⟩
  · rw [toNat_getPenalizedAmount hbound hgt hle, Nat.mul_assoc]
  · exact getPenalizedAmount_lt hamount hbound hgt hle
  · exact UInt64.le_iff_toNat_le.mpr (getPenalizedAmount_antitone hbound hsmall hlarge)

/-- An amount of 1000 for a block of 150 bytes against a median of 100. -/
theorem getPenalizedAmount_exact_median_hundred :
    (100 : UInt64).toNat ≤ 2 ^ 32 - 1 ∧
      getPenalizedAmount 1000 100 150 = 750 ∧
      ((getPenalizedAmount 1000 100 150).toNat =
          (1000 : UInt64).toNat * (150 : UInt64).toNat *
              (2 * (100 : UInt64).toNat - (150 : UInt64).toNat) / (100 : UInt64).toNat ^ 2 ∧
        (0 < (1000 : UInt64).toNat →
          (getPenalizedAmount 1000 100 150).toNat < (1000 : UInt64).toNat)) :=
  ⟨by decide, by decide,
    (getPenalizedAmount_exact 1000 100 (by decide)).1 150 (by decide) (by decide)⟩

/-! ## The block reward -/

/-- The base reward, the first half of {lit}`getBlockReward`: a share of the
coins not yet generated, one coin for the genesis block, the premine for the
block after it, and nothing once the supply would be reached. -/
def Currency.baseReward (currency : Currency) (alreadyGeneratedCoins : UInt64) : UInt64 :=
  let baseReward := (currency.moneySupply - alreadyGeneratedCoins) >>> currency.emissionSpeedFactor
  let baseReward := if alreadyGeneratedCoins = 0 then 1 else baseReward
  let baseReward := if alreadyGeneratedCoins = 1 then currency.premineReward else baseReward
  if alreadyGeneratedCoins + baseReward ≥ currency.moneySupply then 0 else baseReward

/-- {lit}`getBlockReward`: the reward a block of {lit}`currentBlockSize` bytes may
claim, and the change it makes to the coins generated so far, or {lit}`none`
when the block is more than twice the median.  The emission change is an
{lit}`int64_t`; it is kept as its 64-bit pattern, which is what the chain adds
to the coins generated so far. -/
def Currency.getBlockReward (currency : Currency) (medianSize currentBlockSize : UInt64)
    (alreadyGeneratedCoins fee : UInt64) : Option (UInt64 × UInt64) :=
  let baseReward := currency.baseReward alreadyGeneratedCoins
  let medianSize := max medianSize currency.blockGrantedFullRewardZone
  if currentBlockSize > 2 * medianSize then none
  else
    let penalizedBaseReward := getPenalizedAmount baseReward medianSize currentBlockSize
    let penalizedFee := getPenalizedAmount fee medianSize currentBlockSize
    some (penalizedBaseReward + penalizedFee, penalizedBaseReward - (fee - penalizedFee))

/-- A block no larger than the median, or than the zone granted the full
reward, is paid the base reward and its fees, and emits the base reward. -/
theorem getBlockReward_of_le (currency : Currency) {medianSize currentBlockSize : UInt64}
    (alreadyGeneratedCoins fee : UInt64)
    (h : currentBlockSize ≤ max medianSize currency.blockGrantedFullRewardZone)
    (htwice : ¬ currentBlockSize > 2 * max medianSize currency.blockGrantedFullRewardZone) :
    currency.getBlockReward medianSize currentBlockSize alreadyGeneratedCoins fee =
      some (currency.baseReward alreadyGeneratedCoins + fee,
        currency.baseReward alreadyGeneratedCoins) := by
  simp only [Currency.getBlockReward]
  rw [if_neg htwice, getPenalizedAmount_of_le h, getPenalizedAmount_of_le h, UInt64.sub_self,
    UInt64.sub_zero]

end CryptoNote

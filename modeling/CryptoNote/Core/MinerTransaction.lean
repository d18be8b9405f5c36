import CryptoNote.Core.Currency
import CryptoNote.Core.FormatUtils
import CryptoNote.Core.TransactionExtra

/-!
# The miner transaction

{lit}`Currency::constructMinerTx`: the coinbase of a new block.  Its extra holds
the transaction's public key and the extra nonce; its outputs pay the block
reward, cut into decimal chunks by {lit}`decompose_amount_into_digits` with the
default dust threshold, the last chunks folded into one until no more than
{lit}`maxOuts` are left, each to a one-time key of the miner.  It refuses a
nonce too long for its length byte, a block the reward refuses, a
{lit}`maxOuts` of zero, a key operation that fails, and outputs whose sum is not
the reward.

The key pair of the transaction is an input: the source draws it with
{lit}`Key::generate`.  The key operations are the two of {lit}`crypto.h` it
calls, each of which may fail.  The version is the one of the global
configuration.

Main results:

- Theorems {lit}`length_mergeOutAmounts_le` and {lit}`sum_mergeOutAmounts`:
  the folding loop leaves at most {lit}`maxOuts` amounts and keeps their sum.
- Theorem {lit}`decomposeAmountIntoDigits_constructMinerTx`: the decomposition
  is the one its comment describes, and so, when the reward is granted and the
  keys can be derived, the miner transaction is made, with at most
  {lit}`maxOuts` outputs that pay exactly the reward.
-/

namespace CryptoNote

/-- {lit}`secret_key_t`. -/
abbrev SecretKey := Pod 32

/-- {lit}`key_derivation_t`. -/
abbrev KeyDerivation := Pod 32

/-- {lit}`key_pair_t`. -/
structure KeyPair where
  publicKey : PublicKey
  secretKey : SecretKey
deriving DecidableEq, Repr

/-- {lit}`account_public_address_t`. -/
structure AccountPublicAddress where
  spendPublicKey : PublicKey
  viewPublicKey : PublicKey
deriving DecidableEq, Repr

/-- The two key operations of {lit}`crypto.h` the outputs are made with; each
returns false for a key that is not a point of the curve. -/
structure KeyDerivationEnv where
  /-- {lit}`generate_key_derivation`. -/
  generateKeyDerivation : PublicKey → SecretKey → Option KeyDerivation
  /-- {lit}`derive_public_key`. -/
  derivePublicKey : KeyDerivation → UInt64 → PublicKey → Option PublicKey

/-! ## The model -/

/-- The loop that folds the last amount into the one before it while there are
more than {lit}`maxOuts`. -/
def mergeOutAmounts (maxOuts : UInt64) (outAmounts : List UInt64) : List UInt64 :=
  if maxOuts.toNat < outAmounts.length then
    let size := outAmounts.length
    let merged := outAmounts.set (size - 2)
      (outAmounts.getD (size - 2) 0 + outAmounts.getD (size - 1) 0)
    mergeOutAmounts maxOuts (merged.take (size - 1))
  else outAmounts
termination_by outAmounts.length
decreasing_by
  rw [List.length_take, List.length_set]
  omega

/-- The loop over the amounts: a key output for each, to the one-time key
derived for its index, with the running {lit}`summaryAmounts`; {lit}`none`
where a key operation fails. -/
def constructMinerOutputs (keyEnv : KeyDerivationEnv) (minerAddress : AccountPublicAddress)
    (txkey : KeyPair) : (no : Nat) → (outAmounts : List UInt64) → (summaryAmounts : UInt64) →
      Option (List TransactionOutput × UInt64)
  | _, [], summaryAmounts => some ([], summaryAmounts)
  | no, amount :: outAmounts, summaryAmounts => do
    let derivation ← keyEnv.generateKeyDerivation minerAddress.viewPublicKey txkey.secretKey
    let outEphemeralPubKey ←
      keyEnv.derivePublicKey derivation no.toUInt64 minerAddress.spendPublicKey
    let (outputs, summaryAmounts) ← constructMinerOutputs keyEnv minerAddress txkey (no + 1)
      outAmounts (summaryAmounts + amount)
    pure ({ amount, target := .key ⟨outEphemeralPubKey⟩ } :: outputs, summaryAmounts)

/-- {lit}`Currency::constructMinerTx`: the transaction {lit}`tx` with its
inputs, outputs and extra made anew, or {lit}`none` where the source returns
false. -/
def Currency.constructMinerTx (currency : Currency) (keyEnv : KeyDerivationEnv)
    (transactionVersion : UInt8) (height : UInt32)
    (medianSize alreadyGeneratedCoins currentBlockSize fee : UInt64)
    (minerAddress : AccountPublicAddress) (tx : Transaction) (txkey : KeyPair)
    (extraNonce : List UInt8) (maxOuts : UInt64) : Option Transaction := do
  -- addTransactionPublicKeyToExtra, then addExtraNonceToTransactionExtra
  let extra := txExtraTagPubkey :: txkey.publicKey.bytes
  let extra ← (if extraNonce.isEmpty then some extra
    else (TransactionExtraField.nonce extraNonce).encode.map (extra ++ ·))
  let (blockReward, _) ←
    currency.getBlockReward medianSize currentBlockSize alreadyGeneratedCoins fee
  -- both handlers push onto the same vector
  let outAmounts :=
    (decomposeAmountIntoDigits blockReward currency.defaultDustThreshold).map DecomposeCall.value
  guard (1 ≤ maxOuts)
  let outAmounts := mergeOutAmounts maxOuts outAmounts
  let (outputs, summaryAmounts) ← constructMinerOutputs keyEnv minerAddress txkey 0 outAmounts 0
  guard (summaryAmounts = blockReward)
  pure { tx with
    version := transactionVersion
    unlockTime := height.toUInt64 + currency.minedMoneyUnlockWindow
    inputs := [.base ⟨height⟩]
    outputs
    extra }

/-! ## Folding the amounts -/

/-- A list of two elements or more ends with a pair. -/
theorem exists_eq_append_pair {α : Type} {l : List α} (h : 2 ≤ l.length) :
    ∃ pre a b, l = pre ++ [a, b] := by
  rcases List.eq_nil_or_concat l with rfl | ⟨l', b, rfl⟩
  · simp at h
  rcases List.eq_nil_or_concat l' with rfl | ⟨pre, a, rfl⟩
  · simp at h
  exact ⟨pre, a, b, by simp⟩

/-- One fold: the last amount added to the one before it, and dropped. -/
theorem mergeOutAmounts_pair (maxOuts : UInt64) (pre : List UInt64) (a b : UInt64)
    (hmore : maxOuts.toNat < pre.length + 2) :
    mergeOutAmounts maxOuts (pre ++ [a, b]) = mergeOutAmounts maxOuts (pre ++ [a + b]) := by
  rw [mergeOutAmounts, if_pos (by simpa using hmore)]
  simp [List.set_append_right, List.getD_eq_getElem?_getD, List.take_append,
    List.take_of_length_le (Nat.le_succ pre.length)]

/-- The loop stops with at most {lit}`maxOuts` amounts. -/
theorem length_mergeOutAmounts_le (maxOuts : UInt64) (outAmounts : List UInt64) :
    (mergeOutAmounts maxOuts outAmounts).length ≤ maxOuts.toNat := by
  fun_induction mergeOutAmounts maxOuts outAmounts with
  | case1 outAmounts hmore size merged ih => exact ih
  | case2 outAmounts hfew => exact Nat.le_of_not_lt hfew

/-- With {lit}`maxOuts` at least one and a sum that fits a word, folding keeps
the sum of the amounts. -/
theorem sum_mergeOutAmounts {maxOuts : UInt64} (hmax : 1 ≤ maxOuts.toNat) :
    ∀ outAmounts : List UInt64, (outAmounts.map UInt64.toNat).sum < 2 ^ 64 →
      ((mergeOutAmounts maxOuts outAmounts).map UInt64.toNat).sum =
        (outAmounts.map UInt64.toNat).sum := by
  intro outAmounts
  induction hlength : outAmounts.length using Nat.strong_induction_on generalizing outAmounts with
  | _ n ih =>
    intro hfit
    by_cases hmore : maxOuts.toNat < outAmounts.length
    · obtain ⟨pre, a, b, rfl⟩ := exists_eq_append_pair (show 2 ≤ outAmounts.length by omega)
      simp only [List.length_append, List.length_cons, List.length_nil] at hmore hlength
      have hsum : (a + b).toNat = a.toNat + b.toNat := by
        simp only [List.map_append, List.map_cons, List.map_nil, List.sum_append, List.sum_cons,
          List.sum_nil] at hfit
        rw [UInt64.toNat_add, Nat.mod_eq_of_lt (by omega)]
      have hfolded : ((pre ++ [a + b]).map UInt64.toNat).sum =
          ((pre ++ [a, b]).map UInt64.toNat).sum := by
        simp [hsum]
      rw [mergeOutAmounts_pair maxOuts pre a b (by omega), ← hfolded]
      exact ih (pre.length + 1) (by omega) _ (by simp) (hfolded ▸ hfit)
    · rw [mergeOutAmounts, if_neg hmore]

/-! ## The outputs -/

/-- The wrapping sum of words is the sum of their values modulo {lit}`2 ^ 64`. -/
theorem toNat_sum (values : List UInt64) :
    values.sum.toNat = (values.map UInt64.toNat).sum % 2 ^ 64 := by
  induction values with
  | nil => rfl
  | cons value values ih =>
    rw [List.sum_cons, UInt64.toNat_add, ih, List.map_cons, List.sum_cons, Nat.add_mod_mod]

/-- When every key can be derived, the loop makes one output per amount, paying
it, and adds the amounts to the running sum. -/
theorem constructMinerOutputs_eq {keyEnv : KeyDerivationEnv} {minerAddress : AccountPublicAddress}
    {txkey : KeyPair} {derivation : KeyDerivation}
    (hderivation :
      keyEnv.generateKeyDerivation minerAddress.viewPublicKey txkey.secretKey = some derivation)
    (hderive : ∀ no, (keyEnv.derivePublicKey derivation no minerAddress.spendPublicKey).isSome) :
    ∀ (no : Nat) (outAmounts : List UInt64) (summaryAmounts : UInt64), ∃ outputs,
      constructMinerOutputs keyEnv minerAddress txkey no outAmounts summaryAmounts =
          some (outputs, summaryAmounts + outAmounts.sum) ∧
        outputs.map TransactionOutput.amount = outAmounts := by
  intro no outAmounts
  induction outAmounts generalizing no with
  | nil =>
    intro summaryAmounts
    exact ⟨[], by simp [constructMinerOutputs], rfl⟩
  | cons amount outAmounts ih =>
    intro summaryAmounts
    obtain ⟨key, hkey⟩ := Option.isSome_iff_exists.mp
      (hderive no.toUInt64)
    obtain ⟨outputs, hrest, hamounts⟩ := ih (no + 1) (summaryAmounts + amount)
    refine ⟨{ amount, target := .key ⟨key⟩ } :: outputs, ?_, by simp [hamounts]⟩
    simp [constructMinerOutputs, hderivation, hkey, hrest, UInt64.add_assoc]

/-- The values a decomposition hands over are its dust and its chunks. -/
theorem sum_values (calls : List DecomposeCall) :
    ((calls.map DecomposeCall.value).map UInt64.toNat).sum =
      ((calls.filterMap DecomposeCall.dust?).map UInt64.toNat).sum +
        ((calls.filterMap DecomposeCall.chunk?).map UInt64.toNat).sum := by
  induction calls with
  | nil => rfl
  | cons call calls ih =>
    cases call with
    | chunk value =>
      simp only [List.map_cons, List.sum_cons, DecomposeCall.value, ih,
        List.filterMap_cons_none (show DecomposeCall.dust? (.chunk value) = none from rfl),
        List.filterMap_cons_some (show DecomposeCall.chunk? (.chunk value) = some value from rfl)]
      omega
    | dust value =>
      simp only [List.map_cons, List.sum_cons, DecomposeCall.value, ih,
        List.filterMap_cons_some (show DecomposeCall.dust? (.dust value) = some value from rfl),
        List.filterMap_cons_none (show DecomposeCall.chunk? (.dust value) = none from rfl)]
      omega

/-- What a loop that returns made: one output per amount, and the running sum moved
by the amounts. -/
theorem constructMinerOutputs_eq_some {keyEnv : KeyDerivationEnv}
    {minerAddress : AccountPublicAddress} {txkey : KeyPair} :
    ∀ {no : Nat} {outAmounts : List UInt64} {summaryAmounts : UInt64}
      {outputs : List TransactionOutput} {summaryAmounts' : UInt64},
      constructMinerOutputs keyEnv minerAddress txkey no outAmounts summaryAmounts =
          some (outputs, summaryAmounts') →
        outputs.map TransactionOutput.amount = outAmounts ∧
          summaryAmounts' = summaryAmounts + outAmounts.sum := by
  intro no outAmounts
  induction outAmounts generalizing no with
  | nil =>
    intro summaryAmounts outputs summaryAmounts' h
    simp only [constructMinerOutputs, Option.some.injEq, Prod.mk.injEq] at h
    obtain ⟨rfl, rfl⟩ := h
    simp
  | cons amount outAmounts ih =>
    intro summaryAmounts outputs summaryAmounts' h
    simp only [constructMinerOutputs, Option.bind_eq_bind, Option.bind_eq_some_iff,
      Option.pure_def, Option.some.injEq] at h
    obtain ⟨derivation, -, key, -, ⟨rest, summary⟩, hrest, h⟩ := h
    obtain ⟨rfl, rfl⟩ := Prod.mk.inj h
    obtain ⟨hamounts, hsummary⟩ := ih hrest
    exact ⟨by simp [hamounts], by simp [hsummary, UInt64.add_assoc]⟩

/-- The amounts the miner transaction is cut into add up to the reward, as numbers. -/
theorem sum_mergeOutAmounts_decompose {maxOuts : UInt64} (hmax : 1 ≤ maxOuts.toNat)
    (reward dustThreshold : UInt64) :
    ((mergeOutAmounts maxOuts ((decomposeAmountIntoDigits reward dustThreshold).map
      DecomposeCall.value)).map UInt64.toNat).sum = reward.toNat := by
  have hdecomposed := (decomposeAmountIntoDigits_decomposesInto reward dustThreshold).sum_eq
  rw [← sum_values] at hdecomposed
  rw [sum_mergeOutAmounts hmax _ (hdecomposed ▸ reward.toNat_lt), hdecomposed]

/-! ## The miner transaction -/

/-- A nonce that fits its length byte is always added. -/
theorem extra_of_nonce_fits (extra : List UInt8) {extraNonce : List UInt8}
    (hnonce : extraNonce.length ≤ txExtraNonceMaxCount) :
    ∃ extra', (if extraNonce.isEmpty then some extra
      else (TransactionExtraField.nonce extraNonce).encode.map (extra ++ ·)) = some extra' := by
  split_ifs
  · exact ⟨extra, rfl⟩
  · simp [TransactionExtraField.encode, Nat.not_lt.mpr hnonce]

/-- {lit}`decompose_amount_into_digits` computes the decomposition its comment
describes, and a miner transaction built from it is made whenever the reward
is granted and the keys can be derived, with at most {lit}`maxOuts` outputs
that pay the reward exactly. -/
theorem decomposeAmountIntoDigits_constructMinerTx :
    (∀ amount dustThreshold : UInt64,
      DecomposesInto amount dustThreshold (decomposeAmountIntoDigits amount dustThreshold)) ∧
    ∀ (currency : Currency) (keyEnv : KeyDerivationEnv) (transactionVersion : UInt8)
      (height : UInt32) (medianSize alreadyGeneratedCoins currentBlockSize fee : UInt64)
      (minerAddress : AccountPublicAddress) (tx : Transaction) (txkey : KeyPair)
      (extraNonce : List UInt8) (maxOuts reward emissionChange : UInt64)
      (derivation : KeyDerivation),
      currency.getBlockReward medianSize currentBlockSize alreadyGeneratedCoins fee =
          some (reward, emissionChange) →
      1 ≤ maxOuts → extraNonce.length ≤ txExtraNonceMaxCount →
      keyEnv.generateKeyDerivation minerAddress.viewPublicKey txkey.secretKey = some derivation →
      (∀ no, (keyEnv.derivePublicKey derivation no minerAddress.spendPublicKey).isSome) →
      ∃ minerTx, currency.constructMinerTx keyEnv transactionVersion height medianSize
          alreadyGeneratedCoins currentBlockSize fee minerAddress tx txkey extraNonce maxOuts =
            some minerTx ∧
        minerTx.outputs.length ≤ maxOuts.toNat ∧
        (minerTx.outputs.map fun output => output.amount.toNat).sum = reward.toNat := by
  refine ⟨decomposeAmountIntoDigits_decomposesInto, ?_⟩
  intro currency keyEnv transactionVersion height medianSize alreadyGeneratedCoins currentBlockSize
    fee minerAddress tx txkey extraNonce maxOuts reward emissionChange derivation hreward hmax
    hnonce hderivation hderive
  obtain ⟨extra, hextra⟩ := extra_of_nonce_fits (txExtraTagPubkey :: txkey.publicKey.bytes) hnonce
  unfold Currency.constructMinerTx
  simp only [hextra, hreward, Option.bind_eq_bind, Option.bind_some]
  have hdecomposed := (decomposeAmountIntoDigits_decomposesInto reward
    currency.defaultDustThreshold).sum_eq
  rw [← sum_values] at hdecomposed
  generalize (decomposeAmountIntoDigits reward currency.defaultDustThreshold).map
    DecomposeCall.value = outAmounts at hdecomposed ⊢
  have hmerged := sum_mergeOutAmounts (UInt64.le_iff_toNat_le.mp hmax) outAmounts
    (hdecomposed ▸ reward.toNat_lt)
  rw [hdecomposed] at hmerged
  obtain ⟨outputs, houtputs, hamounts⟩ :=
    constructMinerOutputs_eq hderivation hderive 0 (mergeOutAmounts maxOuts outAmounts) 0
  have hsummary : 0 + (mergeOutAmounts maxOuts outAmounts).sum = reward := by
    rw [UInt64.zero_add, ← UInt64.toNat_inj, toNat_sum, hmerged, Nat.mod_eq_of_lt reward.toNat_lt]
  simp only [guard, if_pos hmax, houtputs, hsummary, Option.pure_def, Option.bind_some,
    if_true]
  refine ⟨_, rfl, ?_, ?_⟩
  · rw [← List.length_map TransactionOutput.amount, hamounts]
    exact length_mergeOutAmounts_le maxOuts outAmounts
  · rw [← hmerged, ← hamounts, List.map_map]
    rfl

end CryptoNote

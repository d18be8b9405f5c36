import Mathlib.Algebra.Order.Field.Rat
import Mathlib.Data.Prod.Lex
import CryptoNote.Core.BlockchainPush

/-!
# The fee index and the block template

The pool's second index, {lit}`fee_index_t`, orders the records by
{lit}`transaction_priority_comparator_t`: the higher fee per byte first, then
the smaller, then the older.  The comparator compares the fees per byte by
cross-multiplying into 128-bit products with {lit}`mul128`.

Main results:

- Theorem {lit}`transactionPriorityComparator_iff`: for sizes that are not
  zero the comparator is the lexicographic order of {lit}`priorityKey`, the
  fee per byte as a rational, the size and the receive time, whatever the
  products' size.
- Theorem {lit}`transactionPriorityComparator_spec`: it is therefore a strict
  weak order that puts every paying transaction before every free one.

{lit}`fill_block_template` walks the index twice, free transactions from the
back and then everything from the front, into one {lit}`BlockTemplate` that
refuses a transaction whose key image or multisignature output is taken.

- Theorem {lit}`fillBlockTemplate_conflictFree`: on a pool of transactions that
  {lit}`check_tx_semantic` lets through, the block lists distinct records of the
  pool, ready to go and pairwise spending nothing in common; the total size and
  the fees are theirs, and each was taken within its size limit.
- Theorem {lit}`fillBlockTemplate_repeats_inputless`: the condition is needed,
  as a free transaction without inputs books nothing into the template, so both
  walks take it and the block lists its id twice.
-/

namespace CryptoNote

open Difficulty

/-! ## The priority order -/

/-- {lit}`transaction_priority_comparator_t`: whether {lit}`lhs` comes before
{lit}`rhs`.  The receive times are {lit}`time_t` values, compared signed. -/
def transactionPriorityComparator (lhs rhs : TransactionDetails) : Bool :=
  let (lhsLo, lhsHi) := mul128 lhs.fee rhs.blobSize
  let (rhsLo, rhsHi) := mul128 rhs.fee lhs.blobSize
  -- prefer more profitable transactions
  lhsHi > rhsHi ||
  (lhsHi == rhsHi && lhsLo > rhsLo) ||
  -- prefer smaller
  (lhsHi == rhsHi && lhsLo == rhsLo && lhs.blobSize < rhs.blobSize) ||
  -- prefer older
  (lhsHi == rhsHi && lhsLo == rhsLo && lhs.blobSize == rhs.blobSize &&
    lhs.receiveTime.toInt64 < rhs.receiveTime.toInt64)

/-- What the comparator is meant to order by, highest first: the fee per byte
as a rational, then the size, smaller first, then the receive time, earlier
first. -/
def priorityKey (txd : TransactionDetails) : ℚ ×ₗ (ℤ ×ₗ ℤ) :=
  toLex ((txd.fee.toNat : ℚ) / txd.blobSize.toNat,
    toLex (-(txd.blobSize.toNat : ℤ), -txd.receiveTime.toInt64.toInt))

/-- Fees per byte compare as the cross products. -/
theorem feePerByte_lt_iff {fee size fee' size' : Nat} (hsize : 0 < size) (hsize' : 0 < size') :
    (fee' : ℚ) / size' < fee / size ↔ fee' * size < fee * size' := by
  rw [div_lt_div_iff₀ (by exact_mod_cast hsize') (by exact_mod_cast hsize)]
  exact_mod_cast Iff.rfl

theorem feePerByte_eq_iff {fee size fee' size' : Nat} (hsize : 0 < size) (hsize' : 0 < size') :
    (fee' : ℚ) / size' = fee / size ↔ fee' * size = fee * size' := by
  rw [div_eq_div_iff (by exact_mod_cast hsize'.ne') (by exact_mod_cast hsize.ne')]
  exact_mod_cast Iff.rfl

/-- For sizes that are not zero the comparator is the order of the priority
keys: the 128-bit cross products compare the fees per byte exactly. -/
theorem transactionPriorityComparator_iff {lhs rhs : TransactionDetails}
    (hlhs : 0 < lhs.blobSize.toNat) (hrhs : 0 < rhs.blobSize.toNat) :
    transactionPriorityComparator lhs rhs = true ↔ priorityKey rhs < priorityKey lhs := by
  have hlhsProduct := mul128_spec lhs.fee rhs.blobSize
  have hrhsProduct := mul128_spec rhs.fee lhs.blobSize
  unfold transactionPriorityComparator priorityKey
  rcases hlhsWords : mul128 lhs.fee rhs.blobSize with ⟨lhsLo, lhsHi⟩
  rcases hrhsWords : mul128 rhs.fee lhs.blobSize with ⟨rhsLo, rhsHi⟩
  rw [hlhsWords] at hlhsProduct
  rw [hrhsWords] at hrhsProduct
  dsimp only at hlhsProduct hrhsProduct ⊢
  have hlhsLo := lhsLo.toNat_lt
  have hrhsLo := rhsLo.toNat_lt
  simp only [Prod.Lex.toLex_lt_toLex, feePerByte_lt_iff hlhs hrhs, feePerByte_eq_iff hlhs hrhs,
    Bool.or_eq_true, Bool.and_eq_true, beq_iff_eq, decide_eq_true_eq, gt_iff_lt,
    UInt64.lt_iff_toNat_lt, ← UInt64.toNat_inj, Int64.lt_iff_toInt_lt, neg_lt_neg_iff,
    neg_inj, Nat.cast_lt, Nat.cast_inj]
  omega

/-- Neither comes before the other: the two are equivalent in the index. -/
def Incomparable (lhs rhs : TransactionDetails) : Prop :=
  transactionPriorityComparator lhs rhs = false ∧ transactionPriorityComparator rhs lhs = false

/-- Equivalent records are those of equal priority keys. -/
theorem incomparable_iff {lhs rhs : TransactionDetails} (hlhs : 0 < lhs.blobSize.toNat)
    (hrhs : 0 < rhs.blobSize.toNat) : Incomparable lhs rhs ↔ priorityKey lhs = priorityKey rhs := by
  rw [Incomparable, ← Bool.not_eq_true, ← Bool.not_eq_true,
    transactionPriorityComparator_iff hlhs hrhs, transactionPriorityComparator_iff hrhs hlhs,
    not_lt, not_lt]
  exact ⟨fun h => le_antisymm h.1 h.2, fun h => ⟨h.le, h.ge⟩⟩

/-- On records of non-empty blobs the comparator is the strict order of the
priority key, highest first: irreflexive and transitive, with a transitive
incomparability, and every paying transaction before every free one. -/
theorem transactionPriorityComparator_spec :
    (∀ a b : TransactionDetails, 0 < a.blobSize.toNat → 0 < b.blobSize.toNat →
      (transactionPriorityComparator a b = true ↔ priorityKey b < priorityKey a)) ∧
    (∀ a : TransactionDetails, 0 < a.blobSize.toNat → transactionPriorityComparator a a = false) ∧
    (∀ a b c : TransactionDetails, 0 < a.blobSize.toNat → 0 < b.blobSize.toNat →
      0 < c.blobSize.toNat → transactionPriorityComparator a b = true →
        transactionPriorityComparator b c = true → transactionPriorityComparator a c = true) ∧
    (∀ a b c : TransactionDetails, 0 < a.blobSize.toNat → 0 < b.blobSize.toNat →
      0 < c.blobSize.toNat → Incomparable a b → Incomparable b c → Incomparable a c) ∧
    (∀ a b : TransactionDetails, 0 < a.blobSize.toNat → 0 < b.blobSize.toNat →
      0 < a.fee.toNat → b.fee = 0 → transactionPriorityComparator a b = true) := by
  refine ⟨fun a b ha hb => transactionPriorityComparator_iff ha hb, fun a ha => ?_,
    fun a b c ha hb hc hab hbc => ?_, fun a b c ha hb hc hab hbc => ?_,
    fun a b ha hb hfee hfree => ?_⟩
  · rw [← Bool.not_eq_true, transactionPriorityComparator_iff ha ha]
    exact lt_irrefl _
  · rw [transactionPriorityComparator_iff ha hb] at hab
    rw [transactionPriorityComparator_iff hb hc] at hbc
    rw [transactionPriorityComparator_iff ha hc]
    exact hbc.trans hab
  · rw [incomparable_iff ha hb] at hab
    rw [incomparable_iff hb hc] at hbc
    rw [incomparable_iff ha hc]
    exact hab.trans hbc
  · rw [transactionPriorityComparator_iff ha hb, priorityKey, priorityKey,
      Prod.Lex.toLex_lt_toLex]
    left
    rw [hfree, UInt64.toNat_zero, Nat.cast_zero, zero_div]
    exact div_pos (by exact_mod_cast hfee) (by exact_mod_cast ha)

/-! ## The fee index -/

/-- {lit}`fee_index_t` in iteration order: the records sorted by the comparator,
equivalent records in the order they were inserted, the oldest first, as an
{lit}`ordered_non_unique` index keeps them.  The container lists the newest
record first. -/
def TxMemoryPool.feeIndex (pool : TxMemoryPool) : List TransactionDetails :=
  pool.transactions.records.reverse.insertionSort
    fun lhs rhs => transactionPriorityComparator rhs lhs = false

/-! ## The block template -/

/-- {lit}`transaction_check_info_t`: the result of the last input check a
record keeps. -/
structure TransactionCheckInfo where
  maxUsedBlock : BlockInfo
  lastFailedBlock : BlockInfo
deriving DecidableEq, Repr

/-- The check information of a record. -/
def TransactionDetails.checkInfo (txd : TransactionDetails) : TransactionCheckInfo :=
  ⟨txd.maxUsedBlock, txd.lastFailedBlock⟩

/-- {lit}`ITransactionValidator` as {lit}`is_transaction_ready_to_go` calls it:
the input check that starts from, and updates, the check information of a
record, and the check of the key images against the chain. -/
structure ReadyValidator where
  checkTransactionInputs : Transaction → TransactionCheckInfo → Bool × TransactionCheckInfo
  haveSpentKeyImages : Transaction → Bool

/-- {lit}`is_transaction_ready_to_go`: the answer and the updated check
information. -/
def isTransactionReadyToGo (validator : ReadyValidator) (tx : Transaction)
    (checkInfo : TransactionCheckInfo) : Bool × TransactionCheckInfo :=
  let (inputsValid, checkInfo) := validator.checkTransactionInputs tx checkInfo
  if !inputsValid then (false, checkInfo)
  else if validator.haveSpentKeyImages tx then (false, checkInfo)
  else (true, checkInfo)

/-- {lit}`BlockTemplate`: the key images and the multisignature outputs the
transactions taken so far spend, and their ids. -/
structure BlockTemplate where
  keyImages : Finset KeyImage
  usedOutputs : Finset (UInt64 × UInt64)
  txHashes : List Hash

namespace BlockTemplate

/-- The empty template. -/
def empty : BlockTemplate := ⟨∅, ∅, []⟩

/-- {lit}`canAdd`: no input spends an image or an output already taken. -/
def canAdd (t : BlockTemplate) (tx : Transaction) : Bool :=
  tx.inputs.all fun
    | .key input => input.keyImage ∉ t.keyImages
    | .multisignature input => (input.amount, input.outputIndex.toUInt64) ∉ t.usedOutputs
    | .base _ => true

/-- One input booked into the template. -/
def bookInput (t : BlockTemplate) : TransactionInput → BlockTemplate
  | .key input => { t with keyImages := insert input.keyImage t.keyImages }
  | .multisignature input =>
    { t with usedOutputs := insert (input.amount, input.outputIndex.toUInt64) t.usedOutputs }
  | .base _ => t

/-- {lit}`addTransaction`: refused when {lit}`canAdd` refuses; otherwise the
inputs are booked and the id appended. -/
def addTransaction (t : BlockTemplate) (txid : Hash) (tx : Transaction) : Bool × BlockTemplate :=
  if !t.canAdd tx then (false, t)
  else
    let t := tx.inputs.foldl bookInput t
    (true, { t with txHashes := t.txHashes ++ [txid] })

/-- A transaction without inputs conflicts with nothing and books nothing, so
it is always added, however often it was added before. -/
theorem addTransaction_of_inputs_nil {tx : Transaction} (hinputs : tx.inputs = [])
    (t : BlockTemplate) (txid : Hash) :
    t.addTransaction txid tx = (true, { t with txHashes := t.txHashes ++ [txid] }) := by
  simp [addTransaction, canAdd, hinputs]

end BlockTemplate

/-- The first loop of {lit}`fill_block_template`, from the back of the fee
index while the fee is zero: a free transaction is taken when it keeps the
total within {lit}`fusionTxMaxSize`, is ready to go and does not conflict.
The check information it computes is dropped. -/
def fillFreeTransactions (currency : Currency) (validator : ReadyValidator) :
    List TransactionDetails → UInt64 → BlockTemplate → UInt64 × BlockTemplate
  | [], totalSize, t => (totalSize, t)
  | txd :: rest, totalSize, t =>
    if txd.fee ≠ 0 then (totalSize, t)
    else if currency.fusionTxMaxSize < totalSize + txd.blobSize then
      fillFreeTransactions currency validator rest totalSize t
    else if (isTransactionReadyToGo validator txd.tx txd.checkInfo).1 then
      match t.addTransaction txd.id txd.tx with
      | (true, t) => fillFreeTransactions currency validator rest (totalSize + txd.blobSize) t
      | (false, t) => fillFreeTransactions currency validator rest totalSize t
    else fillFreeTransactions currency validator rest totalSize t

/-- The second loop of {lit}`fill_block_template`, over the whole fee index from
the front: a transaction is taken when it keeps the total within the median for
a free one and within {lit}`maxTotalSize` for a paying one, is ready to go and
does not conflict.  The check information of every record within the limit is
written back to it; the loop returns the total, the fees, the template and the
updates. -/
def fillTransactions (validator : ReadyValidator) (medianSize maxTotalSize : UInt64) :
    List TransactionDetails → UInt64 → UInt64 → BlockTemplate →
      UInt64 × UInt64 × BlockTemplate × List (Hash × TransactionCheckInfo)
  | [], totalSize, fee, t => (totalSize, fee, t, [])
  | txd :: rest, totalSize, fee, t =>
    let blockSizeLimit := if txd.fee = 0 then medianSize else maxTotalSize
    if blockSizeLimit < totalSize + txd.blobSize then
      fillTransactions validator medianSize maxTotalSize rest totalSize fee t
    else
      let (ready, checkInfo) := isTransactionReadyToGo validator txd.tx txd.checkInfo
      let (totalSize, fee, t) :=
        if ready then
          match t.addTransaction txd.id txd.tx with
          | (true, t) => (totalSize + txd.blobSize, fee + txd.fee, t)
          | (false, t) => (totalSize, fee, t)
        else (totalSize, fee, t)
      let (totalSize, fee, t, updates) :=
        fillTransactions validator medianSize maxTotalSize rest totalSize fee t
      (totalSize, fee, t, (txd.id, checkInfo) :: updates)

/-- The records with the check information written back by {lit}`modify`. -/
def TxContainer.setCheckInfos (updates : List (Hash × TransactionCheckInfo))
    (c : TxContainer) : TxContainer :=
  ⟨c.records.map fun txd =>
      match updates.find? (·.1 = txd.id) with
      | some (_, checkInfo) =>
        { txd with maxUsedBlock := checkInfo.maxUsedBlock,
                   lastFailedBlock := checkInfo.lastFailedBlock }
      | none => txd,
    by
      rw [List.map_map]
      convert c.idsNodup using 2
      funext txd
      simp only [Function.comp_apply]
      split <;> rfl⟩

/-- {lit}`fill_block_template`: the block with the template's transactions, the
total size and the fees, and the pool with the check information updated.  It
always returns true. -/
def TxMemoryPool.fillBlockTemplate (currency : Currency) (validator : ReadyValidator)
    (pool : TxMemoryPool) (block : Block) (medianSize maxCumulativeSize : UInt64)
    (_alreadyGeneratedCoins : UInt64) : Block × UInt64 × UInt64 × TxMemoryPool :=
  let maxTotalSize := min (2 * medianSize - currency.minerTxBlobReservedSize) maxCumulativeSize
  let (totalSize, t) :=
    fillFreeTransactions currency validator pool.feeIndex.reverse 0 BlockTemplate.empty
  let (totalSize, fee, t, updates) :=
    fillTransactions validator medianSize maxTotalSize pool.feeIndex totalSize 0 t
  ({ block with transactionHashes := t.txHashes }, totalSize, fee,
    { pool with transactions := pool.transactions.setCheckInfos updates })

/-! ## What the template takes -/

/-- The key image an input spends, if it is a key input. -/
def TransactionInput.keyImage? : TransactionInput → Option KeyImage
  | .key input => some input.keyImage
  | _ => none

/-- The multisignature output an input spends, as {lit}`BlockTemplate` books it:
the amount and the output index. -/
def TransactionInput.usedOutput? : TransactionInput → Option (UInt64 × UInt64)
  | .multisignature input => some (input.amount, input.outputIndex.toUInt64)
  | _ => none

/-- The key images a transaction spends. -/
def Transaction.keyImages (tx : Transaction) : List KeyImage :=
  tx.inputs.filterMap TransactionInput.keyImage?

/-- The multisignature outputs a transaction spends. -/
def Transaction.usedOutputs (tx : Transaction) : List (UInt64 × UInt64) :=
  tx.inputs.filterMap TransactionInput.usedOutput?

/-- Two transactions that a block may hold together: they spend no key image
and no multisignature output in common. -/
def Compatible (a b : TransactionDetails) : Prop :=
  (∀ k ∈ a.tx.keyImages, k ∉ b.tx.keyImages) ∧ ∀ o ∈ a.tx.usedOutputs, o ∉ b.tx.usedOutputs

namespace BlockTemplate

/-- {lit}`canAdd` asks that the transaction spend nothing the template booked. -/
theorem canAdd_eq_true_iff (t : BlockTemplate) (tx : Transaction) :
    t.canAdd tx = true ↔
      (∀ k ∈ tx.keyImages, k ∉ t.keyImages) ∧ ∀ o ∈ tx.usedOutputs, o ∉ t.usedOutputs := by
  simp only [canAdd, List.all_eq_true, Transaction.keyImages, Transaction.usedOutputs,
    List.mem_filterMap]
  constructor
  · intro h
    refine ⟨?_, ?_⟩
    · rintro k ⟨input, hinput, hk⟩
      cases input <;> simp only [TransactionInput.keyImage?, Option.some.injEq,
        reduceCtorEq] at hk
      subst hk
      simpa using h _ hinput
    · rintro o ⟨input, hinput, ho⟩
      cases input <;> simp only [TransactionInput.usedOutput?, Option.some.injEq,
        reduceCtorEq] at ho
      subst ho
      simpa using h _ hinput
  · rintro ⟨hkeys, houtputs⟩ input hinput
    cases input with
    | base _ => rfl
    | key input => simpa using hkeys input.keyImage ⟨_, hinput, rfl⟩
    | multisignature input => simpa using houtputs _ ⟨_, hinput, rfl⟩

/-- Booking inputs adds their key images and multisignature outputs and leaves
the ids alone. -/
theorem foldl_bookInput (inputs : List TransactionInput) (t : BlockTemplate) :
    (inputs.foldl bookInput t).txHashes = t.txHashes ∧
      (∀ k, k ∈ (inputs.foldl bookInput t).keyImages ↔
        k ∈ t.keyImages ∨ k ∈ inputs.filterMap TransactionInput.keyImage?) ∧
      ∀ o, o ∈ (inputs.foldl bookInput t).usedOutputs ↔
        o ∈ t.usedOutputs ∨ o ∈ inputs.filterMap TransactionInput.usedOutput? := by
  induction inputs generalizing t with
  | nil => simp
  | cons input inputs ih =>
    obtain ⟨hids, hkeys, houtputs⟩ := ih (bookInput t input)
    refine ⟨hids.trans ?_, fun k => (hkeys k).trans ?_, fun o => (houtputs o).trans ?_⟩
    · cases input <;> rfl
    · cases input <;> simp [bookInput, TransactionInput.keyImage?, or_assoc, or_left_comm]
    · cases input <;> simp [bookInput, TransactionInput.usedOutput?, or_assoc, or_left_comm]

/-- A template books exactly the transactions taken: their ids in order, and the
key images and multisignature outputs they spend, no two of them in common. -/
structure Books (t : BlockTemplate) (taken : List TransactionDetails) : Prop where
  txHashes : t.txHashes = taken.map (·.id)
  keyImages : ∀ k, k ∈ t.keyImages ↔ ∃ txd ∈ taken, k ∈ txd.tx.keyImages
  usedOutputs : ∀ o, o ∈ t.usedOutputs ↔ ∃ txd ∈ taken, o ∈ txd.tx.usedOutputs
  compatible : taken.Pairwise Compatible

/-- The empty template books nothing. -/
theorem books_empty : empty.Books [] :=
  ⟨rfl, by simp [empty], by simp [empty], List.Pairwise.nil⟩

/-- A refused transaction leaves the template as it was. -/
theorem addTransaction_false {t t' : BlockTemplate} {txid : Hash} {tx : Transaction}
    (h : t.addTransaction txid tx = (false, t')) : t' = t := by
  cases hcan : t.canAdd tx <;> simp [addTransaction, hcan] at h
  exact h.symm

/-- A transaction the template takes is compatible with everything taken before,
and the template then books it too. -/
theorem Books.addTransaction {t t' : BlockTemplate} {taken : List TransactionDetails}
    {txd : TransactionDetails} (hbooks : t.Books taken)
    (h : t.addTransaction txd.id txd.tx = (true, t')) : t'.Books (taken ++ [txd]) := by
  cases hcan : t.canAdd txd.tx <;> simp [BlockTemplate.addTransaction, hcan] at h
  obtain ⟨hkeysFree, houtputsFree⟩ := (canAdd_eq_true_iff t txd.tx).mp hcan
  obtain ⟨hids, hkeys, houtputs⟩ := foldl_bookInput txd.tx.inputs t
  subst h
  refine ⟨?_, fun k => ?_, fun o => ?_, ?_⟩
  · simp [hids, hbooks.txHashes]
  · simp only [hkeys, hbooks.keyImages, Transaction.keyImages, List.mem_append,
      List.mem_singleton]
    constructor
    · rintro (⟨u, hu, hk⟩ | hk)
      · exact ⟨u, Or.inl hu, hk⟩
      · exact ⟨txd, Or.inr rfl, hk⟩
    · rintro ⟨u, (hu | rfl), hk⟩
      · exact Or.inl ⟨u, hu, hk⟩
      · exact Or.inr hk
  · simp only [houtputs, hbooks.usedOutputs, Transaction.usedOutputs, List.mem_append,
      List.mem_singleton]
    constructor
    · rintro (⟨u, hu, ho⟩ | ho)
      · exact ⟨u, Or.inl hu, ho⟩
      · exact ⟨txd, Or.inr rfl, ho⟩
    · rintro ⟨u, (hu | rfl), ho⟩
      · exact Or.inl ⟨u, hu, ho⟩
      · exact Or.inr ho
  · refine List.pairwise_append.mpr ⟨hbooks.compatible, List.pairwise_singleton _ _, ?_⟩
    intro u hu v hv
    rw [List.mem_singleton] at hv
    subst hv
    exact ⟨fun k hk hk' => hkeysFree k hk' ((hbooks.keyImages k).mpr ⟨u, hu, hk⟩),
      fun o ho ho' => houtputsFree o ho' ((hbooks.usedOutputs o).mpr ⟨u, hu, ho⟩)⟩

end BlockTemplate

/-! ## The two walks -/

/-- Each transaction of a list fits its limit on top of the sizes of those
before it, counted from {lit}`totalSize` in {lit}`size_t` arithmetic: the test
{lit}`fill_block_template` makes before it takes a transaction. -/
def Admitted (limit : TransactionDetails → UInt64) : UInt64 → List TransactionDetails → Prop
  | _, [] => True
  | totalSize, txd :: rest =>
    totalSize + txd.blobSize ≤ limit txd ∧ Admitted limit (totalSize + txd.blobSize) rest

/-- The sizes of a list of records, added in {lit}`size_t`. -/
def blobSizes (l : List TransactionDetails) : UInt64 := (l.map (·.blobSize)).sum

/-- No records, no size. -/
@[simp] theorem blobSizes_nil : blobSizes [] = 0 := rfl

/-- A record adds its size to those after it. -/
@[simp] theorem blobSizes_cons (txd : TransactionDetails) (l : List TransactionDetails) :
    blobSizes (txd :: l) = txd.blobSize + blobSizes l :=
  List.sum_cons

/-- The fees of a list of records, added in {lit}`uint64_t`. -/
def fees (l : List TransactionDetails) : UInt64 := (l.map (·.fee)).sum

/-- No records, no fees. -/
@[simp] theorem fees_nil : fees [] = 0 := rfl

/-- A record adds its fee to those after it. -/
@[simp] theorem fees_cons (txd : TransactionDetails) (l : List TransactionDetails) :
    fees (txd :: l) = txd.fee + fees l :=
  List.sum_cons

/-- The records of two lists fit their limits when the first fit from the start
and the second from the first's total. -/
theorem admitted_append (limit : TransactionDetails → UInt64) :
    ∀ (l l' : List TransactionDetails) (totalSize : UInt64),
      Admitted limit totalSize (l ++ l') ↔
        Admitted limit totalSize l ∧ Admitted limit (totalSize + blobSizes l) l'
  | [], l', totalSize => by simp [Admitted, blobSizes]
  | txd :: l, l', totalSize => by
    rw [List.cons_append, Admitted, Admitted, admitted_append limit l l', blobSizes_cons,
      ← add_assoc, and_assoc]

/-- The sizes of two lists add. -/
theorem blobSizes_append (l l' : List TransactionDetails) :
    blobSizes (l ++ l') = blobSizes l + blobSizes l' := by
  rw [blobSizes, List.map_append, List.sum_append]
  rfl

/-- The fees of two lists add. -/
theorem fees_append (l l' : List TransactionDetails) : fees (l ++ l') = fees l + fees l' := by
  rw [fees, List.map_append, List.sum_append]
  rfl

/-- Free records pay no fees. -/
theorem fees_eq_zero : ∀ {l : List TransactionDetails}, (∀ txd ∈ l, txd.fee = 0) → fees l = 0
  | [], _ => rfl
  | txd :: l, hfree => by
    rw [fees_cons, hfree txd List.mem_cons_self,
      fees_eq_zero fun u hu => hfree u (List.mem_cons_of_mem txd hu), UInt64.add_zero]

/-- Records that fit their limits fit larger ones. -/
theorem Admitted.mono {limit limit' : TransactionDetails → UInt64} :
    ∀ {l : List TransactionDetails} {totalSize : UInt64},
      (∀ txd ∈ l, limit txd ≤ limit' txd) → Admitted limit totalSize l → Admitted limit' totalSize l
  | [], _, _, _ => trivial
  | txd :: _, _, hle, ⟨hfits, hrest⟩ =>
    ⟨UInt64.le_trans hfits (hle txd List.mem_cons_self),
      Admitted.mono (fun u hu => hle u (List.mem_cons_of_mem txd hu)) hrest⟩

section Walks

variable {currency : Currency} {validator : ReadyValidator}

/-- One record of the first walk: a paying one ends it; a free one is passed
over, or it is within the fusion limit, ready to go and booked on the template. -/
theorem fillFreeTransactions_cons (txd : TransactionDetails) (rest : List TransactionDetails)
    (totalSize : UInt64) (t : BlockTemplate) :
    (txd.fee ≠ 0 ∧ fillFreeTransactions currency validator (txd :: rest) totalSize t =
      (totalSize, t)) ∨
    fillFreeTransactions currency validator (txd :: rest) totalSize t =
      fillFreeTransactions currency validator rest totalSize t ∨
    ∃ t', txd.fee = 0 ∧ totalSize + txd.blobSize ≤ currency.fusionTxMaxSize ∧
      (isTransactionReadyToGo validator txd.tx txd.checkInfo).1 = true ∧
      t.addTransaction txd.id txd.tx = (true, t') ∧
      fillFreeTransactions currency validator (txd :: rest) totalSize t =
        fillFreeTransactions currency validator rest (totalSize + txd.blobSize) t' := by
  by_cases hfee : txd.fee ≠ 0
  · exact .inl ⟨hfee, by simp [fillFreeTransactions, hfee]⟩
  by_cases hover : currency.fusionTxMaxSize < totalSize + txd.blobSize
  · exact .inr (.inl (by simp [fillFreeTransactions, hfee, hover]))
  by_cases hready : (isTransactionReadyToGo validator txd.tx txd.checkInfo).1 = true
  · rcases hadd : t.addTransaction txd.id txd.tx with ⟨_ | _, t'⟩
    · exact .inr (.inl (by simp [fillFreeTransactions, hfee, hover, hready, hadd,
        BlockTemplate.addTransaction_false hadd]))
    · exact .inr (.inr ⟨t', not_not.mp hfee, UInt64.not_lt.mp hover, hready, rfl,
        by simp [fillFreeTransactions, hfee, hover, hready, hadd]⟩)
  · exact .inr (.inl (by simp [fillFreeTransactions, hfee, hover, hready]))

/-- The first walk takes, from the records it visits, free transactions that
are ready to go and fit the fusion limit, and books them on the template. -/
theorem fillFreeTransactions_spec :
    ∀ (l : List TransactionDetails) (totalSize : UInt64) (t : BlockTemplate)
      (taken : List TransactionDetails), t.Books taken →
      ∃ taken', taken'.Sublist l ∧
        (fillFreeTransactions currency validator l totalSize t).2.Books (taken ++ taken') ∧
        (fillFreeTransactions currency validator l totalSize t).1 = totalSize + blobSizes taken' ∧
        (∀ txd ∈ taken', txd.fee = 0 ∧
          (isTransactionReadyToGo validator txd.tx txd.checkInfo).1 = true) ∧
        Admitted (fun _ => currency.fusionTxMaxSize) totalSize taken'
  | [], totalSize, t, taken, hbooks =>
    ⟨[], List.Sublist.slnil, by simpa [fillFreeTransactions] using hbooks,
      by simp [fillFreeTransactions, blobSizes], by simp, trivial⟩
  | txd :: rest, totalSize, t, taken, hbooks => by
    rcases @fillFreeTransactions_cons currency validator txd rest totalSize t with
      ⟨-, hstop⟩ | hskip | ⟨t', hfree, hfits, hready, hadd, hrun⟩
    · refine ⟨[], List.nil_sublist _, ?_, ?_, by simp, trivial⟩
      · simpa [hstop] using hbooks
      · simp [hstop]
    · obtain ⟨taken', hsub, hbooks', htotal, hfree, hadmitted⟩ :=
        fillFreeTransactions_spec rest totalSize t taken hbooks
      exact ⟨taken', hsub.cons txd, hskip ▸ hbooks', hskip ▸ htotal, hfree, hadmitted⟩
    · obtain ⟨taken', hsub, hbooks', htotal, hfree', hadmitted⟩ :=
        fillFreeTransactions_spec rest (totalSize + txd.blobSize) t' (taken ++ [txd])
          (hbooks.addTransaction hadd)
      refine ⟨txd :: taken', hsub.cons_cons txd, ?_, ?_, ?_, ⟨hfits, hadmitted⟩⟩
      · simpa [hrun] using hbooks'
      · rw [hrun, htotal, blobSizes_cons, add_assoc]
      · exact List.forall_mem_cons.mpr ⟨⟨hfree, hready⟩, hfree'⟩

/-- One record of the second walk: it is passed over, leaving the total, the
fees and the template to the rest of the walk, or it is within its limit, ready
to go and booked on the template.  The check information it writes back is the
one part of the result that the two cases share. -/
theorem fillTransactions_cons {medianSize maxTotalSize : UInt64} (txd : TransactionDetails)
    (rest : List TransactionDetails) (totalSize fee : UInt64) (t : BlockTemplate) :
    (let r := fillTransactions validator medianSize maxTotalSize (txd :: rest) totalSize fee t
     let r' := fillTransactions validator medianSize maxTotalSize rest totalSize fee t
     r.1 = r'.1 ∧ r.2.1 = r'.2.1 ∧ r.2.2.1 = r'.2.2.1) ∨
    ∃ t', totalSize + txd.blobSize ≤ (if txd.fee = 0 then medianSize else maxTotalSize) ∧
      (isTransactionReadyToGo validator txd.tx txd.checkInfo).1 = true ∧
      t.addTransaction txd.id txd.tx = (true, t') ∧
      let r := fillTransactions validator medianSize maxTotalSize (txd :: rest) totalSize fee t
      let r' := fillTransactions validator medianSize maxTotalSize rest
        (totalSize + txd.blobSize) (fee + txd.fee) t'
      r.1 = r'.1 ∧ r.2.1 = r'.2.1 ∧ r.2.2.1 = r'.2.2.1 := by
  by_cases hover : (if txd.fee = 0 then medianSize else maxTotalSize) < totalSize + txd.blobSize
  · exact .inl (by simp [fillTransactions, hover])
  rcases hcheck : isTransactionReadyToGo validator txd.tx txd.checkInfo with ⟨ready, checkInfo⟩
  cases ready
  · exact .inl (by simp [fillTransactions, hover, hcheck])
  rcases hadd : t.addTransaction txd.id txd.tx with ⟨_ | _, t'⟩
  · exact .inl (by simp [fillTransactions, hover, hcheck, hadd,
      BlockTemplate.addTransaction_false hadd])
  · exact .inr ⟨t', UInt64.not_lt.mp hover, rfl, rfl,
      by simp [fillTransactions, hover, hcheck, hadd]⟩

/-- The second walk takes, from the records it visits, transactions that are
ready to go and fit the median if free and {lit}`maxTotalSize` if paying, and
books them on the template. -/
theorem fillTransactions_spec {medianSize maxTotalSize : UInt64} :
    ∀ (l : List TransactionDetails) (totalSize fee : UInt64) (t : BlockTemplate)
      (taken : List TransactionDetails), t.Books taken →
      ∃ taken', taken'.Sublist l ∧
        (fillTransactions validator medianSize maxTotalSize l totalSize fee t).2.2.1.Books
          (taken ++ taken') ∧
        (fillTransactions validator medianSize maxTotalSize l totalSize fee t).1 =
          totalSize + blobSizes taken' ∧
        (fillTransactions validator medianSize maxTotalSize l totalSize fee t).2.1 =
          fee + fees taken' ∧
        (∀ txd ∈ taken', (isTransactionReadyToGo validator txd.tx txd.checkInfo).1 = true) ∧
        Admitted (fun txd => if txd.fee = 0 then medianSize else maxTotalSize) totalSize taken'
  | [], totalSize, fee, t, taken, hbooks =>
    ⟨[], List.Sublist.slnil, by simpa [fillTransactions] using hbooks,
      by simp [fillTransactions], by simp [fillTransactions], by simp, trivial⟩
  | txd :: rest, totalSize, fee, t, taken, hbooks => by
    rcases @fillTransactions_cons validator medianSize maxTotalSize txd rest totalSize fee t with
      ⟨htotal, hfee, ht⟩ | ⟨t', hfits, hready, hadd, htotal, hfee, ht⟩
    · obtain ⟨taken', hsub, hbooks', htotal', hfee', hready', hadmitted⟩ :=
        fillTransactions_spec rest totalSize fee t taken hbooks
      exact ⟨taken', hsub.cons txd, ht ▸ hbooks', htotal ▸ htotal', hfee ▸ hfee', hready',
        hadmitted⟩
    · obtain ⟨taken', hsub, hbooks', htotal', hfee', hready', hadmitted⟩ :=
        fillTransactions_spec rest (totalSize + txd.blobSize) (fee + txd.fee) t' (taken ++ [txd])
          (hbooks.addTransaction hadd)
      refine ⟨txd :: taken', hsub.cons_cons txd, ?_, ?_, ?_, ?_, ⟨hfits, hadmitted⟩⟩
      · simpa [ht] using hbooks'
      · rw [htotal, htotal', blobSizes_cons, add_assoc]
      · rw [hfee, hfee', fees_cons, add_assoc]
      · exact List.forall_mem_cons.mpr ⟨hready, hready'⟩

end Walks

/-- The two walks of {lit}`fill_block_template`, read off by projection. -/
theorem TxMemoryPool.fillBlockTemplate_eq (currency : Currency) (validator : ReadyValidator)
    (pool : TxMemoryPool) (block : Block) (medianSize maxCumulativeSize alreadyGeneratedCoins : UInt64) :
    pool.fillBlockTemplate currency validator block medianSize maxCumulativeSize
        alreadyGeneratedCoins =
      let first :=
        fillFreeTransactions currency validator pool.feeIndex.reverse 0 BlockTemplate.empty
      let second := fillTransactions validator medianSize
        (min (2 * medianSize - currency.minerTxBlobReservedSize) maxCumulativeSize)
        pool.feeIndex first.1 0 first.2
      ({ block with transactionHashes := second.2.2.1.txHashes }, second.1, second.2.1,
        { pool with transactions := pool.transactions.setCheckInfos second.2.2.2 }) :=
  rfl

/-! ## Pools of checked transactions -/

/-- A transaction that {lit}`check_tx_semantic` lets through spends a key image or
a multisignature output, so a block cannot hold it beside itself. -/
theorem not_compatible_self {txd : TransactionDetails} (hinputs : txd.tx.inputs ≠ [])
    (htypes : checkInputsTypesSupported txd.tx.toTransactionPrefix = true) :
    ¬ Compatible txd txd := by
  obtain ⟨input, rest, hcons⟩ := List.exists_cons_of_ne_nil hinputs
  have hmem : input ∈ txd.tx.inputs := hcons ▸ List.mem_cons_self
  rintro ⟨hkeys, houtputs⟩
  cases input with
  | base _ => simpa using List.all_eq_true.mp htypes _ hmem
  | key input =>
    have hk : input.keyImage ∈ txd.tx.keyImages := List.mem_filterMap.mpr ⟨_, hmem, rfl⟩
    exact hkeys _ hk hk
  | multisignature input =>
    have ho : (input.amount, input.outputIndex.toUInt64) ∈ txd.tx.usedOutputs :=
      List.mem_filterMap.mpr ⟨_, hmem, rfl⟩
    exact houtputs _ ho ho

/-- The records of the fee index are those of the pool. -/
theorem TxMemoryPool.mem_feeIndex {pool : TxMemoryPool} {txd : TransactionDetails} :
    txd ∈ pool.feeIndex ↔ txd ∈ pool.transactions.records := by
  rw [TxMemoryPool.feeIndex, (List.perm_insertionSort _ _).mem_iff, List.mem_reverse]

/-- On a pool of transactions that {lit}`check_tx_semantic` lets through, the
block template lists distinct records of the pool, each ready to go, no two
spending a key image or a multisignature output in common; the total size and
the fees returned are theirs, and each was taken while the total stayed within
the larger of the fusion limit and the median if free, and within
{lit}`min(2 * median - minerTxBlobReservedSize, maxCumulativeSize)` if paying. -/
theorem fillBlockTemplate_conflictFree (currency : Currency) (validator : ReadyValidator)
    (pool : TxMemoryPool) (block : Block) (medianSize maxCumulativeSize alreadyGeneratedCoins : UInt64)
    (hchecked : ∀ txd ∈ pool.transactions.records,
      txd.tx.inputs ≠ [] ∧ checkInputsTypesSupported txd.tx.toTransactionPrefix = true) :
    let r := pool.fillBlockTemplate currency validator block medianSize maxCumulativeSize
      alreadyGeneratedCoins
    ∃ taken : List TransactionDetails,
      r.1.transactionHashes = taken.map (·.id) ∧ (taken.map (·.id)).Nodup ∧
      (∀ txd ∈ taken, txd ∈ pool.transactions.records ∧
        (isTransactionReadyToGo validator txd.tx txd.checkInfo).1 = true) ∧
      taken.Pairwise Compatible ∧ r.2.1 = blobSizes taken ∧ r.2.2.1 = fees taken ∧
      Admitted (fun txd => if txd.fee = 0 then max currency.fusionTxMaxSize medianSize
        else min (2 * medianSize - currency.minerTxBlobReservedSize) maxCumulativeSize) 0 taken := by
  intro r
  obtain ⟨free, hfreeSub, hbooks₁, htotal₁, hfree, hadmitted₁⟩ :=
    @fillFreeTransactions_spec currency validator
      pool.feeIndex.reverse 0 BlockTemplate.empty [] BlockTemplate.books_empty
  rw [List.nil_append] at hbooks₁
  obtain ⟨paying, hpayingSub, hbooks₂, htotal₂, hfee₂, hready₂, hadmitted₂⟩ :=
    @fillTransactions_spec validator medianSize
      (min (2 * medianSize - currency.minerTxBlobReservedSize) maxCumulativeSize)
      pool.feeIndex
      (fillFreeTransactions currency validator pool.feeIndex.reverse 0 BlockTemplate.empty).1 0
      _ free hbooks₁
  have hmem : ∀ txd ∈ free ++ paying, txd ∈ pool.transactions.records := by
    intro txd htxd
    rcases List.mem_append.mp htxd with hin | hin
    · exact TxMemoryPool.mem_feeIndex.mp (List.mem_reverse.mp (hfreeSub.subset hin))
    · exact TxMemoryPool.mem_feeIndex.mp (hpayingSub.subset hin)
  have hnodup : (free ++ paying).Nodup := by
    refine hbooks₂.compatible.imp_of_mem fun {a b} ha _ hab hEq => ?_
    subst hEq
    exact not_compatible_self (hchecked a (hmem a ha)).1 (hchecked a (hmem a ha)).2 hab
  refine ⟨free ++ paying, hbooks₂.txHashes, ?_, ?_, hbooks₂.compatible, ?_, ?_, ?_⟩
  · exact hnodup.map_on fun a ha b hb hid =>
      List.inj_on_of_nodup_map pool.transactions.idsNodup (hmem a ha) (hmem b hb) hid
  · intro txd htxd
    refine ⟨hmem txd htxd, ?_⟩
    rcases List.mem_append.mp htxd with hin | hin
    · exact (hfree txd hin).2
    · exact hready₂ txd hin
  · show (fillTransactions _ _ _ _ _ _ _).1 = _
    rw [htotal₂, htotal₁, blobSizes_append, UInt64.zero_add]
  · show (fillTransactions _ _ _ _ _ _ _).2.1 = _
    rw [hfee₂, fees_append, fees_eq_zero fun txd h => (hfree txd h).1]
  · rw [admitted_append]
    refine ⟨Admitted.mono (fun txd h => ?_) hadmitted₁, ?_⟩
    · rw [if_pos (hfree txd h).1]
      exact UInt64.le_iff_toNat_le.mpr (by rw [UInt64.toNat_max]; omega)
    · rw [← htotal₁]
      refine Admitted.mono (fun txd _ => ?_) hadmitted₂
      split_ifs
      · exact UInt64.le_iff_toNat_le.mpr (by rw [UInt64.toNat_max]; omega)
      · exact UInt64.le_refl _

/-- A pool of a free transaction and a paying one, each spending one key image,
as {lit}`check_tx_semantic` lets through. -/
def templatePool : TxMemoryPool :=
  let spending (image : UInt8) : Transaction :=
    { (default : Transaction) with
      inputs := [.key ⟨1, [0], ⟨List.replicate 31 0 ++ [image], by simp⟩⟩] }
  { TxMemoryPool.empty with
    transactions :=
      ⟨[{ (default : TransactionDetails) with
            id := ⟨List.replicate 32 1, by simp⟩, tx := spending 1, blobSize := 100 },
        { (default : TransactionDetails) with
            id := ⟨List.replicate 32 2, by simp⟩, tx := spending 2, blobSize := 200, fee := 10 }],
        by decide⟩ }

/-- The sample pool: both transactions are checked, and the template over it
is conflict-free and within its limits. -/
theorem fillBlockTemplate_conflictFree_sample :
    let validator : ReadyValidator := ⟨fun _ checkInfo => (true, checkInfo), fun _ => false⟩
    let r := templatePool.fillBlockTemplate Blockchain.sampleCurrency validator default 20000 20000 0
    (∀ txd ∈ templatePool.transactions.records,
      txd.tx.inputs ≠ [] ∧ checkInputsTypesSupported txd.tx.toTransactionPrefix = true) ∧
    ∃ taken : List TransactionDetails,
      r.1.transactionHashes = taken.map (·.id) ∧ (taken.map (·.id)).Nodup ∧
      (∀ txd ∈ taken, txd ∈ templatePool.transactions.records ∧
        (isTransactionReadyToGo validator txd.tx txd.checkInfo).1 = true) ∧
      taken.Pairwise Compatible ∧ r.2.1 = blobSizes taken ∧ r.2.2.1 = fees taken ∧
      Admitted (fun txd => if txd.fee = 0 then max Blockchain.sampleCurrency.fusionTxMaxSize 20000
        else min (2 * 20000 - Blockchain.sampleCurrency.minerTxBlobReservedSize) 20000) 0 taken := by
  intro validator r
  have hchecked : ∀ txd ∈ templatePool.transactions.records,
      txd.tx.inputs ≠ [] ∧ checkInputsTypesSupported txd.tx.toTransactionPrefix = true := by
    decide
  exact ⟨hchecked, fillBlockTemplate_conflictFree Blockchain.sampleCurrency validator templatePool
    default 20000 20000 0 hchecked⟩

/-! ## A free transaction without inputs is taken twice

{lit}`check_tx_semantic` refuses such a transaction, so no pool holds one; the
walks show what its check rules out. -/

section Inputless

variable {currency : Currency} {validator : ReadyValidator} {txd : TransactionDetails}
  {totalSize fee medianSize maxTotalSize : UInt64}

/-- The first loop takes a free, ready transaction without inputs that fits
the fusion limit. -/
theorem fillFreeTransactions_inputless (hfee : txd.fee = 0) (hinputs : txd.tx.inputs = [])
    (hready : (isTransactionReadyToGo validator txd.tx txd.checkInfo).1 = true)
    (hfits : ¬ currency.fusionTxMaxSize < totalSize + txd.blobSize) (t : BlockTemplate) :
    fillFreeTransactions currency validator [txd] totalSize t =
      (totalSize + txd.blobSize, { t with txHashes := t.txHashes ++ [txd.id] }) := by
  simp [fillFreeTransactions, hfee, hfits, hready,
    BlockTemplate.addTransaction_of_inputs_nil hinputs]

/-- The second loop takes the same transaction again when it fits the median:
nothing the first loop booked stands in its way. -/
theorem fillTransactions_inputless (hfee : txd.fee = 0) (hinputs : txd.tx.inputs = [])
    (hready : (isTransactionReadyToGo validator txd.tx txd.checkInfo).1 = true)
    (hfits : ¬ medianSize < totalSize + txd.blobSize) (t : BlockTemplate) :
    (fillTransactions validator medianSize maxTotalSize [txd] totalSize fee t).2.2.1 =
      { t with txHashes := t.txHashes ++ [txd.id] } := by
  rcases hcheck : isTransactionReadyToGo validator txd.tx txd.checkInfo with ⟨ready, checkInfo⟩
  rw [hcheck] at hready
  subst hready
  simp [fillTransactions, hfee, hfits, hcheck, BlockTemplate.addTransaction_of_inputs_nil hinputs]

/-- A pool whose one record is a free transaction without inputs, ready to go
and no larger than the fusion limit or half the median: both loops take it,
and the block lists its id twice. -/
theorem fillBlockTemplate_repeats_inputless (pool : TxMemoryPool) (block : Block)
    (medianSize maxCumulativeSize alreadyGeneratedCoins : UInt64)
    (hrecords : pool.transactions.records = [txd]) (hfee : txd.fee = 0)
    (hinputs : txd.tx.inputs = [])
    (hready : (isTransactionReadyToGo validator txd.tx txd.checkInfo).1 = true)
    (hfusion : txd.blobSize ≤ currency.fusionTxMaxSize)
    (hmedian : 2 * txd.blobSize.toNat ≤ medianSize.toNat) :
    (pool.fillBlockTemplate currency validator block medianSize maxCumulativeSize
      alreadyGeneratedCoins).1.transactionHashes = [txd.id, txd.id] := by
  have hindex : pool.feeIndex = [txd] := by
    simp [TxMemoryPool.feeIndex, hrecords]
  have hsecond : ¬ medianSize < 0 + txd.blobSize + txd.blobSize := by
    have hlt := medianSize.toNat_lt_size
    rw [UInt64.lt_iff_toNat_lt, UInt64.toNat_add, UInt64.toNat_add]
    simp only [UInt64.toNat_zero, zero_add, UInt64.size] at hlt ⊢
    rw [Nat.mod_eq_of_lt (by omega), Nat.mod_eq_of_lt (by omega)]
    omega
  have hfirst : ¬ currency.fusionTxMaxSize < 0 + txd.blobSize := by
    simpa using hfusion
  simp only [TxMemoryPool.fillBlockTemplate, hindex, List.reverse_singleton,
    fillFreeTransactions_inputless hfee hinputs hready hfirst,
    fillTransactions_inputless hfee hinputs hready hsecond]
  rfl

end Inputless

end CryptoNote

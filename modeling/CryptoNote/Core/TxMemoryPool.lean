import Mathlib.Data.Finset.Card
import Mathlib.Data.List.AList
import CryptoNote.Core.Indexing
import CryptoNote.Core.Currency
import CryptoNote.Serialization.Format

/-!
# The transaction pool

{lit}`TxMemoryPool` of {lit}`tx_memory_pool.cpp`: the records of the
transactions waiting for a block, unique by id, and the structures kept beside
them, namely the key images their key inputs spend (each with the ids of the
transactions spending it), the multisignature outputs spent by transactions
that did not come from a block, the ids deleted recently, and the payment-id
and receive-time indices.

{lit}`add_tx` checks a transaction against the pool, the currency and the chain
(through {lit}`ITransactionValidator`), inserts its record and the index entries,
and only then books its inputs, which can still fail.  The index entries are
read from the record after {lit}`m_transactions.insert(std::move(txd))` has
moved it into the container: the moved-from record keeps its scalars and its
vectors are empty, so the payment-id index is given a transaction without extra
bytes.

Every container is modelled by its mathematical content: the records as a list
with distinct ids, the maps of key images and of deleted ids as association
lists, the sets as finite sets, the multimaps as multisets.  Iteration order
over the records is the list's; nothing the model computes depends on it.

Main results:

- Theorem {lit}`paymentIdIndex_buildIndices`: {lit}`buildIndices` files the
  payment id of every record that has one.
- Theorem {lit}`buildIndices_paymentIdIndex_ne_of_addTx`: after a successful
  {lit}`add_tx` of a transaction with a payment id, the payment-id index is not
  what {lit}`buildIndices` computes from the records.
-/

namespace CryptoNote

/-! ## Verification results and the validator -/

/-- {lit}`tx_verification_context_t`, value-initialised by the callers. -/
structure TxVerificationContext where
  shouldBeRelayed : Bool := false
  verificationFailed : Bool := false
  verificationImpossible : Bool := false
  addedToPool : Bool := false
  txFeeTooSmall : Bool := false
deriving DecidableEq, Repr

/-- {lit}`ITransactionValidator`, as {lit}`add_tx` calls it: the check of a
transaction's inputs against the chain, which on success names the highest
block its inputs use, and the size limit. -/
structure TransactionValidator where
  checkTransactionInputs : Transaction → Option BlockInfo
  checkTransactionSize : UInt64 → Bool

/-! ## Amounts and input kinds -/

/-- {lit}`check_inputs_types_supported`: only key and multisignature inputs. -/
def checkInputsTypesSupported (tx : TransactionPrefix) : Bool :=
  tx.inputs.all fun
    | .key _ => true
    | .multisignature _ => true
    | .base _ => false

/-- The amount an input claims, as {lit}`get_inputs_money_amount` reads it. -/
def TransactionInput.amount : TransactionInput → UInt64
  | .key input => input.amount
  | .multisignature input => input.amount
  | .base _ => 0

/-- {lit}`get_inputs_money_amount`: the wrapping sum of the input amounts; it
always succeeds. -/
def getInputsMoneyAmount (tx : Transaction) : UInt64 :=
  tx.inputs.foldl (fun money input => money + input.amount) 0

/-- {lit}`get_outs_money_amount`: the wrapping sum of the output amounts. -/
def getOutsMoneyAmount (tx : Transaction) : UInt64 :=
  tx.outputs.foldl (fun money output => money + output.amount) 0

/-! ## The record container -/

/-- The value a {lit}`transaction_details_t` holds after it was moved from: its
vectors are empty, as a moved-from {lit}`std::vector` is, and its scalars are
unchanged. -/
def TransactionDetails.movedFrom (txd : TransactionDetails) : TransactionDetails :=
  { txd with tx := { txd.tx with inputs := [], outputs := [], extra := [], signatures := [] } }

/-- {lit}`tx_container_t` through its hashed main index: the records, unique by
id. -/
structure TxContainer where
  records : List TransactionDetails
  idsNodup : (records.map TransactionDetails.id).Nodup

namespace TxContainer

/-- The empty container. -/
def empty : TxContainer := ⟨[], List.nodup_nil⟩

/-- {lit}`find(id)`. -/
def find (id : Hash) (c : TxContainer) : Option TransactionDetails :=
  c.records.find? fun txd => txd.id = id

/-- {lit}`insert`: refused when a record with the id is present. -/
def insert (txd : TransactionDetails) (c : TxContainer) : Option TxContainer :=
  if h : txd.id ∈ c.records.map TransactionDetails.id then none
  else some ⟨txd :: c.records, List.nodup_cons.mpr ⟨h, c.idsNodup⟩⟩

/-- {lit}`erase`: drop the record with the id. -/
def erase (id : Hash) (c : TxContainer) : TxContainer :=
  ⟨c.records.filter fun txd => txd.id ≠ id,
    (List.filter_sublist.map TransactionDetails.id).nodup c.idsNodup⟩

theorem insert_eq_some {txd : TransactionDetails} {c : TxContainer}
    (h : txd.id ∉ c.records.map TransactionDetails.id) :
    ∃ c', c.insert txd = some c' ∧ c'.records = txd :: c.records := by
  unfold insert
  rw [dif_neg h]
  exact ⟨_, rfl, rfl⟩

end TxContainer

/-! ## The pool -/

/-- The state of {lit}`TxMemoryPool`. -/
structure TxMemoryPool where
  spentKeyImages : AList fun _ : KeyImage => Finset Hash
  spentOutputs : Finset (UInt64 × UInt64)
  transactions : TxContainer
  recentlyDeletedTransactions : AList fun _ : Hash => UInt64
  paymentIdIndex : PaymentIdIndex
  timestampIndex : TimestampTransactionsIndex

namespace TxMemoryPool

/-- The pool as {lit}`init` leaves it without a file to load. -/
def empty : TxMemoryPool := ⟨∅, ∅, .empty, ∅, .empty, .empty⟩

/-- {lit}`have_tx`. -/
def haveTx (id : Hash) (pool : TxMemoryPool) : Bool := (pool.transactions.find id).isSome

/-- {lit}`haveSpentInputs`: a key image some pool transaction spends, or a
multisignature output a pool transaction not kept by a block spends. -/
def haveSpentInputs (tx : Transaction) (pool : TxMemoryPool) : Bool :=
  tx.inputs.any fun
    | .key input => input.keyImage ∈ pool.spentKeyImages
    | .multisignature input => (input.amount, input.outputIndex.toUInt64) ∈ pool.spentOutputs
    | .base _ => false

/-- The loop of {lit}`addTransactionInputs` over the inputs, on the two maps it
writes.  {lit}`m_spent_key_images[image]` inserts an empty set when the image is
new; a transaction not kept by a block may only start a set, and an id already
in the set stops the loop with false.  The insertion into the set of spent
outputs ignores whether the output was already there. -/
def addInputs (id : Hash) (keptByBlock : Bool) :
    List TransactionInput → (AList fun _ : KeyImage => Finset Hash) →
      Finset (UInt64 × UInt64) → Bool × (AList fun _ : KeyImage => Finset Hash) ×
        Finset (UInt64 × UInt64)
  | [], images, outputs => (true, images, outputs)
  | .key input :: inputs, images, outputs =>
    let set := (images.lookup input.keyImage).getD ∅
    let images := images.insert input.keyImage set
    if !(keptByBlock || set.card = 0) then (false, images, outputs)
    else if id ∈ set then (false, images, outputs)
    else addInputs id keptByBlock inputs (images.insert input.keyImage (insert id set)) outputs
  | .multisignature input :: inputs, images, outputs =>
    if !keptByBlock then
      addInputs id keptByBlock inputs images
        (insert (input.amount, input.outputIndex.toUInt64) outputs)
    else addInputs id keptByBlock inputs images outputs
  | .base _ :: inputs, images, outputs => addInputs id keptByBlock inputs images outputs

/-- {lit}`addTransactionInputs`. -/
def addTransactionInputs (id : Hash) (tx : Transaction) (keptByBlock : Bool)
    (pool : TxMemoryPool) : Bool × TxMemoryPool :=
  let (ok, images, outputs) := addInputs id keptByBlock tx.inputs pool.spentKeyImages pool.spentOutputs
  (ok, { pool with spentKeyImages := images, spentOutputs := outputs })

/-- The loop of {lit}`removeTransactionInputs`: drop the id from the set of each
key image, erasing a set that becomes empty, and stop with false at an image
missing, empty or without the id.  Multisignature outputs are released only
for transactions not kept by a block. -/
def removeInputs (id : Hash) (keptByBlock : Bool) :
    List TransactionInput → (AList fun _ : KeyImage => Finset Hash) →
      Finset (UInt64 × UInt64) → Bool × (AList fun _ : KeyImage => Finset Hash) ×
        Finset (UInt64 × UInt64)
  | [], images, outputs => (true, images, outputs)
  | .key input :: inputs, images, outputs =>
    match images.lookup input.keyImage with
    | none => (false, images, outputs)
    | some set =>
      if set = ∅ then (false, images, outputs)
      else if id ∉ set then (false, images, outputs)
      else
        let set := set.erase id
        let images :=
          if set = ∅ then images.erase input.keyImage else images.insert input.keyImage set
        removeInputs id keptByBlock inputs images outputs
  | .multisignature input :: inputs, images, outputs =>
    if !keptByBlock then
      removeInputs id keptByBlock inputs images
        (outputs.erase (input.amount, input.outputIndex.toUInt64))
    else removeInputs id keptByBlock inputs images outputs
  | .base _ :: inputs, images, outputs => removeInputs id keptByBlock inputs images outputs

/-- {lit}`removeTransactionInputs`. -/
def removeTransactionInputs (id : Hash) (tx : Transaction) (keptByBlock : Bool)
    (pool : TxMemoryPool) : Bool × TxMemoryPool :=
  let (ok, images, outputs) :=
    removeInputs id keptByBlock tx.inputs pool.spentKeyImages pool.spentOutputs
  (ok, { pool with spentKeyImages := images, spentOutputs := outputs })

/-- {lit}`removeTransaction`: release the inputs (whatever the loop answers), drop
the index entries and the record. -/
def removeTransaction (objectHash : Transaction → Hash) (txd : TransactionDetails)
    (pool : TxMemoryPool) : TxMemoryPool :=
  let pool := (pool.removeTransactionInputs txd.id txd.tx txd.keptByBlock).2
  { pool with
    paymentIdIndex := (PaymentIdIndex.remove objectHash txd.tx pool.paymentIdIndex).2
    timestampIndex := (TimestampTransactionsIndex.remove txd.receiveTime txd.id
      pool.timestampIndex).2
    transactions := pool.transactions.erase txd.id }

/-- {lit}`add_tx`: the verification result, the answer, and the pool after the
call.  {lit}`now` is what the time provider returns. -/
def addTx (currency : Currency) (validator : TransactionValidator)
    (objectHash : Transaction → Hash) (now : UInt64) (tx : Transaction) (id : Hash)
    (blobSize : UInt64) (keptByBlock : Bool) (pool : TxMemoryPool) :
    TxVerificationContext × Bool × TxMemoryPool :=
  let failed : TxVerificationContext := { verificationFailed := true }
  if !checkInputsTypesSupported tx.toTransactionPrefix then (failed, false, pool)
  else
  let inputsAmount := getInputsMoneyAmount tx
  let outputsAmount := getOutsMoneyAmount tx
  if outputsAmount > inputsAmount then (failed, false, pool)
  else
  let fee := inputsAmount - outputsAmount
  let isFusionTransaction := fee = 0 && currency.isFusionTransaction tx blobSize
  if !keptByBlock && !isFusionTransaction && fee < currency.minimumFee then
    ({ failed with txFeeTooSmall := true }, false, pool)
  else if !keptByBlock && pool.haveSpentInputs tx then (failed, false, pool)
  else
  let checked := validator.checkTransactionInputs tx
  -- a transaction kept by a block is taken even when its inputs do not check
  if checked.isNone && !keptByBlock then (failed, false, pool)
  else
  let tvc : TxVerificationContext := { verificationImpossible := checked.isNone }
  if !keptByBlock && !validator.checkTransactionSize blobSize then
    ({ tvc with verificationFailed := true }, false, pool)
  else if !keptByBlock && id ∈ pool.recentlyDeletedTransactions then
    ({ tvc with verificationFailed := false, shouldBeRelayed := false, addedToPool := false },
      true, pool)
  else
  let txd : TransactionDetails :=
    { id, blobSize, tx, fee, keptByBlock, receiveTime := now,
      maxUsedBlock := checked.getD default, lastFailedBlock := default }
  match pool.transactions.insert txd with
  | none => (tvc, false, pool)
  | some transactions =>
    -- the indices read the record after it was moved into the container
    let moved := txd.movedFrom
    let pool := { pool with
      transactions
      paymentIdIndex := (PaymentIdIndex.add objectHash moved.tx pool.paymentIdIndex).2
      timestampIndex := TimestampTransactionsIndex.add moved.receiveTime moved.id
        pool.timestampIndex }
    let tvc := { tvc with
      addedToPool := true
      shouldBeRelayed := checked.isSome && (fee > 0 || isFusionTransaction)
      verificationFailed := true }
    match pool.addTransactionInputs id tx keptByBlock with
    | (false, pool) => (tvc, false, pool)
    | (true, pool) => ({ tvc with verificationFailed := false }, true, pool)

/-- {lit}`add_tx(tx, tvc, keeped_by_block)`: {lit}`add_tx` with the object hash of
the transaction as its id and the size of its blob. -/
def addTxOfTransaction (currency : Currency) (validator : TransactionValidator)
    (objectHash : Transaction → Hash) (now : UInt64) (tx : Transaction) (keptByBlock : Bool)
    (pool : TxMemoryPool) : TxVerificationContext × Bool × TxMemoryPool :=
  pool.addTx currency validator objectHash now tx (objectHash tx) tx.encode.length.toUInt64 keptByBlock

/-- {lit}`take_tx`: the transaction, its size and its fee, and the pool without
its record. -/
def takeTx (objectHash : Transaction → Hash) (id : Hash) (pool : TxMemoryPool) :
    Option (Transaction × UInt64 × UInt64) × TxMemoryPool :=
  match pool.transactions.find id with
  | none => (none, pool)
  | some txd => (some (txd.tx, txd.blobSize, txd.fee), pool.removeTransaction objectHash txd)

/-- The deletion loop of {lit}`removeExpiredTransactions` over the records: a
record older than its lifetime is remembered as deleted at {lit}`now` (an id
already remembered keeps its time) and removed. -/
def removeExpired (currency : Currency) (objectHash : Transaction → Hash) (now : UInt64) :
    List TransactionDetails → TxMemoryPool → TxMemoryPool
  | [], pool => pool
  | txd :: records, pool =>
    let txAge := now - txd.receiveTime
    let liveTime :=
      if txd.keptByBlock then currency.mempoolTxFromAltBlockLiveTime else currency.mempoolTxLiveTime
    if txAge > liveTime then
      let deleted :=
        if txd.id ∈ pool.recentlyDeletedTransactions then pool.recentlyDeletedTransactions
        else pool.recentlyDeletedTransactions.insert txd.id now
      removeExpired currency objectHash now records
        ({ pool with recentlyDeletedTransactions := deleted }.removeTransaction objectHash txd)
    else removeExpired currency objectHash now records pool

/-- {lit}`removeExpiredTransactions`: forget the deletions older than the
forgetting period, then remove the records older than their lifetime. -/
def removeExpiredTransactions (currency : Currency) (objectHash : Transaction → Hash)
    (now : UInt64) (pool : TxMemoryPool) : TxMemoryPool :=
  let forget := currency.numberOfPeriodsToForgetTxDeletedFromPool * currency.mempoolTxLiveTime
  let kept := pool.recentlyDeletedTransactions.entries.filter fun e => ¬ now - e.2 > forget
  let deleted : AList fun _ : Hash => UInt64 :=
    ⟨kept, (List.filter_sublist.map Sigma.fst).nodup pool.recentlyDeletedTransactions.nodupKeys⟩
  removeExpired currency objectHash now pool.transactions.records
    { pool with recentlyDeletedTransactions := deleted }

/-- The body of the loop of {lit}`buildIndices`: file one record in both
indices. -/
def indexRecord (objectHash : Transaction → Hash) (pool : TxMemoryPool)
    (txd : TransactionDetails) : TxMemoryPool :=
  { pool with
    paymentIdIndex := (PaymentIdIndex.add objectHash txd.tx pool.paymentIdIndex).2
    timestampIndex := TimestampTransactionsIndex.add txd.receiveTime txd.id pool.timestampIndex }

/-- {lit}`buildIndices`: file every record in both indices. -/
def buildIndices (objectHash : Transaction → Hash) (pool : TxMemoryPool) : TxMemoryPool :=
  pool.transactions.records.foldl (indexRecord objectHash) pool

/-! ## Booking and releasing inputs -/

@[simp] theorem transactions_addTransactionInputs (id : Hash) (tx : Transaction)
    (keptByBlock : Bool) (pool : TxMemoryPool) :
    (pool.addTransactionInputs id tx keptByBlock).2.transactions = pool.transactions := rfl

@[simp] theorem fst_addTransactionInputs (id : Hash) (tx : Transaction) (keptByBlock : Bool)
    (pool : TxMemoryPool) :
    (pool.addTransactionInputs id tx keptByBlock).1 =
      (addInputs id keptByBlock tx.inputs pool.spentKeyImages pool.spentOutputs).1 := rfl

/-! ## Adding a transaction kept by a block -/

section Kept

variable {currency : Currency} {validator : TransactionValidator}
  {objectHash : Transaction → Hash} {now : UInt64} {tx : Transaction} {id : Hash}
  {blobSize : UInt64} {pool : TxMemoryPool}

/-- A transaction kept by a block skips the fee, the spent-input, the validator
and the size checks: once its input kinds and amounts pass and its id is new, its
record goes in, and the answer is whether its inputs book. -/
theorem addTx_kept (htypes : checkInputsTypesSupported tx.toTransactionPrefix = true)
    (hamount : ¬ getOutsMoneyAmount tx > getInputsMoneyAmount tx)
    (hfresh : id ∉ pool.transactions.records.map TransactionDetails.id) :
    (pool.addTx currency validator objectHash now tx id blobSize true).2.1 =
        (addInputs id true tx.inputs pool.spentKeyImages pool.spentOutputs).1 ∧
      ((pool.addTx currency validator objectHash now tx id blobSize true).2.2.transactions.records.map
        fun txd => (txd.id, txd.tx)) =
          (id, tx) :: pool.transactions.records.map (fun txd => (txd.id, txd.tx)) ∧
      (pool.addTx currency validator objectHash now tx id blobSize true).2.2.paymentIdIndex =
        (PaymentIdIndex.add objectHash
          { tx with inputs := [], outputs := [], extra := [], signatures := [] }
          pool.paymentIdIndex).2 := by
  rcases hbook : addInputs id true tx.inputs pool.spentKeyImages pool.spentOutputs with
    ⟨ok, images, outputs⟩
  -- the booking reads only the two maps, which the insertion leaves alone
  cases ok <;>
    simp [addTx, addTransactionInputs, htypes, hamount, hbook, TxContainer.insert, hfresh,
      TransactionDetails.movedFrom]

end Kept

/-! ## Rebuilding the indices -/

/-- The entry {lit}`PaymentIdIndex::add` files for a transaction, if any. -/
def paymentIdEntry (objectHash : Transaction → Hash) (tx : Transaction) : Option (Hash × Hash) :=
  (getPaymentId tx).map fun paymentId => (paymentId, objectHash tx)

/-- Indexing a record adds its payment-id entry, if it has one, to the payment-id
index. -/
theorem paymentIdIndex_indexRecord (objectHash : Transaction → Hash) (pool : TxMemoryPool)
    (txd : TransactionDetails) :
    (pool.indexRecord objectHash txd).paymentIdIndex.index =
      ((paymentIdEntry objectHash txd.tx).map fun e => e ::ₘ pool.paymentIdIndex.index).getD
        pool.paymentIdIndex.index := by
  unfold indexRecord PaymentIdIndex.add paymentIdEntry
  cases getPaymentId txd.tx <;> rfl

/-- Filing records one after another adds the payment-id entries of their
transactions to the index. -/
theorem paymentIdIndex_foldl_indexRecord (objectHash : Transaction → Hash)
    (records : List TransactionDetails) (pool : TxMemoryPool) :
    (records.foldl (indexRecord objectHash) pool).paymentIdIndex.index =
      pool.paymentIdIndex.index +
        ((records.map TransactionDetails.tx).filterMap (paymentIdEntry objectHash) : Multiset _) := by
  induction records generalizing pool with
  | nil => simp
  | cons txd records ih =>
    rw [List.foldl_cons, ih, paymentIdIndex_indexRecord, List.map_cons, List.filterMap_cons]
    cases paymentIdEntry objectHash txd.tx with
    | none => rfl
    | some e =>
      rw [← Multiset.cons_coe, Multiset.add_cons]
      exact Multiset.cons_add e _ _

/-- {lit}`buildIndices` files the payment id of every record that has one. -/
theorem paymentIdIndex_buildIndices (objectHash : Transaction → Hash) (pool : TxMemoryPool) :
    (buildIndices objectHash pool).paymentIdIndex.index =
      pool.paymentIdIndex.index +
        ((pool.transactions.records.map TransactionDetails.tx).filterMap
          (paymentIdEntry objectHash) : Multiset _) :=
  paymentIdIndex_foldl_indexRecord objectHash _ pool

/-- A transaction kept by a block leaves the payment-id index as it was: the
index is handed the moved-from record, whose extra bytes are gone. -/
theorem paymentIdIndex_addTx_kept {currency : Currency} {validator : TransactionValidator}
    {objectHash : Transaction → Hash} {now : UInt64} {tx : Transaction} {id : Hash}
    {blobSize : UInt64} {pool : TxMemoryPool}
    (htypes : checkInputsTypesSupported tx.toTransactionPrefix = true)
    (hamount : ¬ getOutsMoneyAmount tx > getInputsMoneyAmount tx)
    (hfresh : id ∉ pool.transactions.records.map TransactionDetails.id) :
    (pool.addTx currency validator objectHash now tx id blobSize true).2.2.paymentIdIndex =
      pool.paymentIdIndex := by
  rw [(addTx_kept htypes hamount hfresh).2.2, PaymentIdIndex.add,
    getPaymentId_eq_none_of_extra_nil rfl]

/-- After a successful {lit}`add_tx` of a transaction carrying a payment id, the
payment-id index of the pool holds nothing, while {lit}`buildIndices` files the
transaction under its id. -/
theorem buildIndices_paymentIdIndex_ne_of_addTx (currency : Currency)
    (validator : TransactionValidator) (objectHash : Transaction → Hash) (now : UInt64)
    (id : Hash) (blobSize : UInt64) (image : KeyImage) (paymentId : Hash) :
    let tx : Transaction :=
      { version := 1, unlockTime := 0, outputs := [], inputs := [.key ⟨1, [0], image⟩],
        signatures := [[default]],
        extra := (writeTransactionExtra [] [.nonce (setPaymentIdToTransactionExtraNonce paymentId)]).2 }
    let pool := (TxMemoryPool.empty.addTx currency validator objectHash now tx id blobSize true).2.2
    (TxMemoryPool.empty.addTx currency validator objectHash now tx id blobSize true).2.1 = true ∧
      pool.paymentIdIndex.index = 0 ∧
      (buildIndices objectHash { pool with paymentIdIndex := .empty }).paymentIdIndex.index =
        {(paymentId, objectHash tx)} := by
  intro tx pool
  have htypes : checkInputsTypesSupported tx.toTransactionPrefix = true := rfl
  have hamount : ¬ getOutsMoneyAmount tx > getInputsMoneyAmount tx := by
    simp [tx, getOutsMoneyAmount, getInputsMoneyAmount, TransactionInput.amount]
  have hfresh : id ∉ TxMemoryPool.empty.transactions.records.map TransactionDetails.id := by
    simp [TxMemoryPool.empty, TxContainer.empty]
  have hkept :=
    @addTx_kept currency validator objectHash now tx id blobSize TxMemoryPool.empty htypes hamount
      hfresh
  have hpaymentId : getPaymentId tx = some paymentId := by
    have hfields : ExtraFieldsParsable [.nonce (setPaymentIdToTransactionExtraNonce paymentId)] :=
      ⟨by simp [setPaymentIdToTransactionExtraNonce, paymentId.length_eq, txExtraNonceMaxCount],
        trivial⟩
    rw [getPaymentId_of_writeTransactionExtra hfields rfl]
    exact getPaymentIdFromTransactionExtraNonce_set paymentId
  refine ⟨?_, ?_, ?_⟩
  · rw [hkept.1]
    simp [tx, addInputs, TxMemoryPool.empty]
  · rw [paymentIdIndex_addTx_kept htypes hamount hfresh]
    rfl
  · have htxs : pool.transactions.records.map TransactionDetails.tx = [tx] := by
      have hpairs := congrArg (List.map Prod.snd) hkept.2.1
      simpa [pool, Function.comp_def, TxMemoryPool.empty, TxContainer.empty] using hpairs
    rw [paymentIdIndex_buildIndices, htxs]
    simp [paymentIdEntry, hpaymentId, HashMultimap.empty]

end TxMemoryPool

end CryptoNote

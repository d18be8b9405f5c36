import CryptoNote.Core.BlockTemplate

/-!
# The pool's changes against what a caller knows

A wallet keeps the ids of the pool's transactions it has seen and asks the node
what changed: {lit}`TxMemoryPool::get_difference` compares the ids of the
transactions that are ready to go with the ids the caller sends, and the core
({lit}`core::getPoolChanges`, {lit}`core::getPoolChangesLite`) adds the
transactions of the new ids, each with its hash, and whether the caller's last
block is still the tail of the chain (src/cryptonote/core/tx_memory_pool.cpp,
src/cryptonote/core/core.cpp).

The sets the source builds from vectors ({lit}`std::unordered_set`) are
finite sets here, and a vector that only ever becomes such a set, or is only
read as one, is a multiset.  The new ids come in the order of the pool's
records.

Main results:

- Theorem {lit}`getDifference_eq`: the new ids are the ready ids the caller
  does not know, each once, and the deleted ids are the known ids that are not
  ready.
- Theorem {lit}`getPoolChangesLite_eq`: in a pool that files every transaction
  under its hash, the transactions the core sends hash to exactly the new ids.
-/

namespace CryptoNote

namespace TxMemoryPool

/-- The ids of the records that {lit}`is_transaction_ready_to_go` passes, each
checked on a copy of its check information, which the call then drops. -/
def readyTxIds (validator : ReadyValidator) (pool : TxMemoryPool) : List Hash :=
  (pool.transactions.records.filter fun txd =>
    (isTransactionReadyToGo validator txd.tx txd.checkInfo).1).map TransactionDetails.id

/-- The loop of {lit}`get_difference` over the ready ids: an id the caller
knows leaves both sets, the others stay new. -/
def differenceLoop : List Hash → Finset Hash → List Hash × Finset Hash
  | [], knownSet => ([], knownSet)
  | id :: readyTxIds, knownSet =>
    if id ∈ knownSet then differenceLoop readyTxIds (knownSet.erase id)
    else
      let (newTxIds, deletedTxIds) := differenceLoop readyTxIds knownSet
      (id :: newTxIds, deletedTxIds)

/-- {lit}`get_difference`: the new ids, and the known ids that are left once the
ready ones are taken out. -/
def getDifference (validator : ReadyValidator) (pool : TxMemoryPool)
    (knownTxIds : Multiset Hash) : List Hash × Finset Hash :=
  differenceLoop (pool.readyTxIds validator) knownTxIds.toFinset

/-- {lit}`getTransactions`: the transactions of the ids the container holds, in
the order of the ids, and the ids it misses. -/
def getTransactions (pool : TxMemoryPool) : List Hash → List Transaction × List Hash
  | [] => ([], [])
  | id :: txsIds =>
    let (txs, missedTxs) := pool.getTransactions txsIds
    match pool.transactions.find id with
    | some txd => (txd.tx :: txs, missedTxs)
    | none => (txs, id :: missedTxs)

/-- Every record of the pool is filed under the hash of its transaction, as
{lit}`add_tx` files the transactions the core takes in. -/
def FilesByHash (objectHash : Transaction → Hash) (pool : TxMemoryPool) : Prop :=
  ∀ txd ∈ pool.transactions.records, objectHash txd.tx = txd.id

instance (objectHash : Transaction → Hash) (pool : TxMemoryPool) :
    Decidable (FilesByHash objectHash pool) :=
  inferInstanceAs (Decidable (∀ txd ∈ pool.transactions.records, objectHash txd.tx = txd.id))

/-! ## The difference -/

/-- Over ready ids without repeats, the loop gives the ready ids the caller
does not know and the known ids that are not ready. -/
theorem differenceLoop_eq {ids : List Hash} (hnodup : ids.Nodup) (knownSet : Finset Hash) :
    differenceLoop ids knownSet = (ids.filter (· ∉ knownSet), knownSet \ ids.toFinset) := by
  induction ids generalizing knownSet with
  | nil => simp [differenceLoop]
  | cons id ids ih =>
    obtain ⟨hid, hnodup⟩ := List.nodup_cons.mp hnodup
    by_cases hknown : id ∈ knownSet
    · have hfilter : ids.filter (· ∉ knownSet.erase id) = ids.filter (· ∉ knownSet) := by
        refine List.filter_congr fun x hx => ?_
        have hne : x ≠ id := fun h => hid (h ▸ hx)
        simp [Finset.mem_erase, hne]
      rw [differenceLoop, if_pos hknown, ih hnodup, hfilter, List.toFinset_cons,
        Finset.sdiff_insert, Finset.erase_sdiff_comm]
      simp [hknown]
    · rw [differenceLoop, if_neg hknown, ih hnodup, List.toFinset_cons,
        Finset.sdiff_insert_of_notMem hknown]
      simp [hknown]

/-- The container's ids do not repeat, so neither do the ready ones. -/
theorem readyTxIds_nodup (validator : ReadyValidator) (pool : TxMemoryPool) :
    (pool.readyTxIds validator).Nodup :=
  (List.filter_sublist.map TransactionDetails.id).nodup pool.transactions.idsNodup

theorem getDifference_eq (validator : ReadyValidator) (pool : TxMemoryPool)
    (knownTxIds : Multiset Hash) :
    pool.getDifference validator knownTxIds =
      ((pool.readyTxIds validator).filter (· ∉ knownTxIds.toFinset),
        knownTxIds.toFinset \ (pool.readyTxIds validator).toFinset) :=
  differenceLoop_eq (readyTxIds_nodup validator pool) _

/-! ## Looking the new ids up -/

/-- An id the container holds is found, under a record of that id. -/
theorem find_eq_some {pool : TxMemoryPool} {id : Hash}
    (hid : id ∈ pool.transactions.records.map TransactionDetails.id) :
    ∃ txd ∈ pool.transactions.records, pool.transactions.find id = some txd ∧ txd.id = id := by
  obtain ⟨txd₀, hmem₀, hid₀⟩ := List.mem_map.mp hid
  have hsome : (pool.transactions.records.find? fun txd => txd.id = id).isSome :=
    List.find?_isSome.mpr ⟨txd₀, hmem₀, by simp [hid₀]⟩
  cases hfound : pool.transactions.records.find? (fun txd => txd.id = id) with
  | none => rw [hfound] at hsome; contradiction
  | some txd =>
    exact ⟨txd, List.mem_of_find?_eq_some hfound, hfound, by simpa using List.find?_some hfound⟩

/-- In a pool that files by hash, the transactions of ids it holds hash back to
the ids, and none is missed. -/
theorem getTransactions_of_mem {objectHash : Transaction → Hash} {pool : TxMemoryPool}
    (hfiles : pool.FilesByHash objectHash) {txsIds : List Hash}
    (hheld : ∀ id ∈ txsIds, id ∈ pool.transactions.records.map TransactionDetails.id) :
    (pool.getTransactions txsIds).1.map objectHash = txsIds ∧
      (pool.getTransactions txsIds).2 = [] := by
  induction txsIds with
  | nil => simp [getTransactions]
  | cons id txsIds ih =>
    obtain ⟨ihtxs, ihmissed⟩ := ih fun id' hid' => hheld id' (List.mem_cons_of_mem _ hid')
    obtain ⟨txd, hmem, hfind, hid⟩ := find_eq_some (hheld id List.mem_cons_self)
    simp only [getTransactions, hfind, List.map_cons, ihtxs, ihmissed, hfiles txd hmem, hid,
      and_self]

/-- A ready id is an id the container holds. -/
theorem mem_ids_of_mem_readyTxIds {validator : ReadyValidator} {pool : TxMemoryPool} {id : Hash}
    (h : id ∈ pool.readyTxIds validator) :
    id ∈ pool.transactions.records.map TransactionDetails.id :=
  (List.filter_sublist.map TransactionDetails.id).subset h

end TxMemoryPool

/-! ## The core's answer -/

/-- {lit}`transaction_prefix_info_t`: a transaction's prefix, and the hash of the
whole transaction. -/
structure TransactionPrefixInfo where
  txHash : Hash
  txPrefix : TransactionPrefix
deriving DecidableEq, Repr

namespace Core

/-- {lit}`core::getPoolChanges(knownTxsIds, addedTxs, deletedTxsIds)`: the pool's
difference and the transactions of its new ids (the source asserts that none is
missed). -/
def getPoolChangesOfKnown (validator : ReadyValidator) (s : Blockchain)
    (knownTxsIds : Multiset Hash) : List Transaction × Multiset Hash :=
  let (addedTxsIds, deletedTxsIds) := s.pool.getDifference validator knownTxsIds
  ((s.pool.getTransactions addedTxsIds).1, deletedTxsIds.val)

/-- {lit}`core::getPoolChanges(tailBlockId, knownTxsIds, addedTxs, deletedTxsIds)`:
the changes, and whether the caller's block is the tail of the chain. -/
def getPoolChanges (validator : ReadyValidator) (s : Blockchain) (tailBlockId : Hash)
    (knownTxsIds : Multiset Hash) : Bool × List Transaction × Multiset Hash :=
  let (addedTxs, deletedTxsIds) := getPoolChangesOfKnown validator s knownTxsIds
  (tailBlockId = s.getTailId, addedTxs, deletedTxsIds)

/-- {lit}`core::getPoolChangesLite`: the changes with each added transaction as
its prefix and its hash. -/
def getPoolChangesLite (env : ChainEnv) (validator : ReadyValidator) (s : Blockchain)
    (tailBlockId : Hash) (knownTxsIds : Multiset Hash) :
    Bool × List TransactionPrefixInfo × Multiset Hash :=
  let (returnStatus, added, deletedTxsIds) := getPoolChanges validator s tailBlockId knownTxsIds
  (returnStatus,
    added.map fun tx => { txPrefix := tx.toTransactionPrefix, txHash := env.transactionHash tx },
    deletedTxsIds)

/-- What the core answers: whether the caller is on the tail, transactions that
hash to the ready ids the caller does not know, and the known ids that are not
ready. -/
theorem getPoolChangesLite_eq {env : ChainEnv} (validator : ReadyValidator) {s : Blockchain}
    (hfiles : s.pool.FilesByHash env.transactionHash) (tailBlockId : Hash)
    (knownTxsIds : Multiset Hash) :
    (getPoolChangesLite env validator s tailBlockId knownTxsIds).1 =
        decide (tailBlockId = s.getTailId) ∧
      ((getPoolChangesLite env validator s tailBlockId knownTxsIds).2.1.map
          TransactionPrefixInfo.txHash).toFinset =
        (s.pool.readyTxIds validator).toFinset \ knownTxsIds.toFinset ∧
      (getPoolChangesLite env validator s tailBlockId knownTxsIds).2.2.toFinset =
        knownTxsIds.toFinset \ (s.pool.readyTxIds validator).toFinset := by
  have hheld : ∀ id ∈ (s.pool.readyTxIds validator).filter (· ∉ knownTxsIds.toFinset),
      id ∈ s.pool.transactions.records.map TransactionDetails.id :=
    fun id hid => TxMemoryPool.mem_ids_of_mem_readyTxIds (List.mem_filter.mp hid).1
  have hlookup := (TxMemoryPool.getTransactions_of_mem hfiles hheld).1
  simp only [getPoolChangesLite, getPoolChanges, getPoolChangesOfKnown,
    TxMemoryPool.getDifference_eq, List.map_map]
  refine ⟨by simp, ?_, Finset.val_toFinset _⟩
  have hcomp : (TransactionPrefixInfo.txHash ∘ fun tx : Transaction =>
      ({ txPrefix := tx.toTransactionPrefix, txHash := env.transactionHash tx } :
        TransactionPrefixInfo)) = env.transactionHash := rfl
  rw [hcomp, hlookup]
  ext id
  simp

end Core

end CryptoNote

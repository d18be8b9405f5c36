import CryptoNote.Core.Blockchain
import CryptoNote.Lib.StateExcept

/-!
# Pushing and popping transactions and blocks

The primitives that change the chain's maps: {lit}`pushTransaction` and
{lit}`popTransaction`, {lit}`popTransactions`, {lit}`pushBlock(block_entry_t&)`
and {lit}`popBlock`, and the two transfers between the chain and the pool,
{lit}`loadTransactions` and {lit}`saveTransactions`.

They run in {lit}`ChainM`: an exception leaves the state as far as the code got.
Three of them throw.  {lit}`pushTransaction` undoes the key images of an
interrupted transaction by reading each earlier input with {lit}`boost::get` as a
key input, which throws at the first multisignature input it meets.
{lit}`popTransaction` looks the transaction up with {lit}`m_transactionMap.at`.
The transfers to the pool throw when the pool refuses a transaction.

Main results:

- Theorem {lit}`pushTransaction_fresh`: what filing a transaction with a new hash
  and fresh key images changes.
- Theorems {lit}`keeps_pushTransaction`, {lit}`keeps_popTransactions`,
  {lit}`keeps_loadTransactions`, {lit}`keeps_saveTransactions`: the transfers and
  the transaction primitives leave the chain's structure alone.
- Theorem {lit}`pushTransaction_false`: a refused transaction leaves the map and
  the spent images as they were.  An image spent after a multisignature input
  is no refusal: the undo loop throws {lit}`boost::bad_get` with the earlier
  images still inserted.
-/

namespace CryptoNote

namespace Blockchain

variable (currency : Currency) (env : ChainEnv)

/-! ## Between the chain and the pool -/

/-- {lit}`m_tx_pool.add_tx(tx, context, true)`, with the chain as the validator. -/
def addTxToPool (now : UInt64) (tx : Transaction) : ChainM Bool := do
  let s ← get
  let (_, added, pool) := s.pool.addTxOfTransaction currency (validator currency env now s)
    env.transactionHash now tx true
  set { s with pool }
  pure added

/-- Add transactions to the pool, in the order given, as kept by a block; a
refusal throws {lit}`message`. -/
def addTransactionsBack (now : UInt64) (message : String) : List Transaction → ChainM Unit
  | [] => pure ()
  | tx :: txs => do
    if !(← addTxToPool currency env now tx) then throw message
    addTransactionsBack now message txs

/-- {lit}`saveTransactions`: the transactions back into the pool, last first. -/
def saveTransactions (now : UInt64) (transactions : List Transaction) : ChainM Unit :=
  addTransactionsBack currency env now "Blockchain::saveTransactions, failed to add transaction to pool"
    transactions.reverse

/-- The loop of {lit}`loadTransactions`: take each transaction from the pool; when
one is missing, put those taken back, last first, and fail. -/
def loadTransactionsLoop (now : UInt64) : List Transaction → List Hash →
    ChainM (Option (List Transaction))
  | taken, [] => pure (some taken)
  | taken, hash :: hashes => do
    let s ← get
    match s.pool.takeTx env.transactionHash hash with
    | (none, _) =>
      addTransactionsBack currency env now
        "Blockchain::loadTransactions, failed to add transaction to pool" taken.reverse
      pure none
    | (some (tx, _, _), pool) =>
      set { s with pool }
      loadTransactionsLoop now (taken ++ [tx]) hashes

/-- {lit}`loadTransactions`: the transactions of the block, taken from the pool. -/
def loadTransactions (now : UInt64) (block : Block) : ChainM (Option (List Transaction)) :=
  loadTransactionsLoop currency env now [] block.transactionHashes

/-! ## Pushing a transaction -/

/-- The undo loop of {lit}`pushTransaction`: erase the images of the inputs before
the failing one, nearest first, reading each with {lit}`boost::get`. -/
def eraseKeyImagesBack : List TransactionInput → ChainM Unit
  | [] => pure ()
  | .key input :: inputs => do
    modify fun s => { s with spentKeys := s.spentKeys.erase input.keyImage }
    eraseKeyImagesBack inputs
  | _ :: _ => throw "boost::bad_get"

/-- The key-image loop of {lit}`pushTransaction`: insert the image of each key
input; an image already spent undoes the earlier ones and the map entry and
fails.  {lit}`before` holds the inputs already passed, nearest first. -/
def insertKeyImages (transactionHash : Hash) :
    List TransactionInput → List TransactionInput → ChainM Bool
  | _, [] => pure true
  | before, .key input :: inputs => do
    let s ← get
    if input.keyImage ∈ s.spentKeys then
      eraseKeyImagesBack before
      modify fun s => { s with transactionMap := s.transactionMap.erase transactionHash }
      pure false
    else
      set { s with spentKeys := insert input.keyImage s.spentKeys }
      insertKeyImages transactionHash (.key input :: before) inputs
  | before, input :: inputs => insertKeyImages transactionHash (input :: before) inputs

/-- {lit}`pushTransaction`: file the transaction at position {lit}`transactionIndex`
of the block, with its key images, its multisignature inputs marked used, its
outputs and its payment id; the entry in the block receives the global indexes
of its outputs. -/
def pushTransaction (block : BlockEntry) (transactionHash : Hash)
    (transactionIndex : TransactionIndex) : ChainM (Bool × BlockEntry) := do
  let s ← get
  if transactionHash ∈ s.transactionMap then return (false, block)
  set { s with transactionMap := s.transactionMap.insert transactionHash transactionIndex }
  let transaction := block.transactions.getD transactionIndex.transaction.toNat default
  if !checkMultisignatureInputsDiff transaction.tx.toTransactionPrefix then
    modify fun s => { s with transactionMap := s.transactionMap.erase transactionHash }
    return (false, block)
  if !(← insertKeyImages transactionHash [] transaction.tx.inputs) then return (false, block)
  let s ← get
  let multisignatureOutputs :=
    markMultisignatureInputs true transaction.tx.inputs s.multisignatureOutputs
  let (outputs, multisignatureOutputs, indexes) :=
    addTransactionOutputs transactionIndex 0 transaction.tx.outputs s.outputs multisignatureOutputs
  set { s with
    outputs
    multisignatureOutputs
    paymentIdIndex := (PaymentIdIndex.add env.transactionHash transaction.tx s.paymentIdIndex).2 }
  let transactions := block.transactions.set transactionIndex.transaction.toNat
    { transaction with globalOutputIndexes := indexes }
  return (true, { block with transactions })

/-! ## Popping a transaction -/

/-- The output loop of {lit}`popTransaction`, last output first: the last entry of
the vector of its amount is dropped when it is this output of this transaction
(and, for a multisignature output, unused), and an emptied vector is erased;
any mismatch only skips the output. -/
def removeTransactionOutputs (transactionIndex : TransactionIndex) :
    List (TransactionOutput × Nat) → AmountMap (TransactionIndex × UInt16) →
      AmountMap MultisignatureOutputUsage →
        AmountMap (TransactionIndex × UInt16) × AmountMap MultisignatureOutputUsage
  | [], keyOutputs, multisignatureOutputs => (keyOutputs, multisignatureOutputs)
  | (output, position) :: outputs, keyOutputs, multisignatureOutputs =>
    match output.target with
    | .key _ =>
      match keyOutputs.lookup output.amount with
      | some amountOutputs =>
        match amountOutputs.getLast? with
        | some (index, outputIndex) =>
          if index = transactionIndex ∧ outputIndex.toNat = position then
            let amountOutputs := amountOutputs.dropLast
            let keyOutputs := if amountOutputs.isEmpty then keyOutputs.erase output.amount
              else keyOutputs.insert output.amount amountOutputs
            removeTransactionOutputs transactionIndex outputs keyOutputs multisignatureOutputs
          else removeTransactionOutputs transactionIndex outputs keyOutputs multisignatureOutputs
        | none => removeTransactionOutputs transactionIndex outputs keyOutputs multisignatureOutputs
      | none => removeTransactionOutputs transactionIndex outputs keyOutputs multisignatureOutputs
    | .multisignature _ =>
      match multisignatureOutputs.lookup output.amount with
      | some amountOutputs =>
        match amountOutputs.getLast? with
        | some usage =>
          if !usage.isUsed ∧ usage.transactionIndex = transactionIndex ∧
              usage.outputIndex.toNat = position then
            let amountOutputs := amountOutputs.dropLast
            let multisignatureOutputs := if amountOutputs.isEmpty then
              multisignatureOutputs.erase output.amount
              else multisignatureOutputs.insert output.amount amountOutputs
            removeTransactionOutputs transactionIndex outputs keyOutputs multisignatureOutputs
          else removeTransactionOutputs transactionIndex outputs keyOutputs multisignatureOutputs
        | none => removeTransactionOutputs transactionIndex outputs keyOutputs multisignatureOutputs
      | none => removeTransactionOutputs transactionIndex outputs keyOutputs multisignatureOutputs

/-- {lit}`popTransaction`: unfile the transaction with the hash, outputs last
first, then its key images and multisignature inputs, its payment id and its
map entry. -/
def popTransaction (transaction : Transaction) (transactionHash : Hash) : ChainM Unit := do
  let s ← get
  match s.transactionMap.lookup transactionHash with
  | none => throw "std::out_of_range"
  | some transactionIndex =>
    let (outputs, multisignatureOutputs) :=
      removeTransactionOutputs transactionIndex transaction.outputs.zipIdx.reverse
        s.outputs s.multisignatureOutputs
    let multisignatureOutputs :=
      markMultisignatureInputs false transaction.inputs multisignatureOutputs
    set { s with
      outputs
      multisignatureOutputs
      spentKeys := s.spentKeys \ (keyImages transaction.inputs).toFinset
      paymentIdIndex := (PaymentIdIndex.remove env.transactionHash transaction s.paymentIdIndex).2
      transactionMap := s.transactionMap.erase transactionHash }

/-- {lit}`popTransactions`: pop the block's transactions, last first, each under
the hash the block lists for it, then the coinbase. -/
def popTransactions (block : BlockEntry) (minerTransactionHash : Hash) : ChainM Unit := do
  let count := block.transactions.length
  (List.range (count - 1)).forM fun i =>
    popTransaction env (block.transactions.getD (count - 1 - i) default).tx
      (block.bl.transactionHashes.getD (count - 2 - i) default)
  popTransaction env block.bl.baseTransaction minerTransactionHash

/-! ## Pushing and popping a block -/

/-- {lit}`pushBlock(block_entry_t&)`: append the entry and its hash, and file it in
the timestamp and generated-transactions indices. -/
def pushBlockEntry (block : BlockEntry) : ChainM Unit := do
  let blockHash := env.blockHash block.bl
  modify fun s => { s with
    blocks := s.blocks ++ [block]
    blockIndex := pushBlockIndex s.blockIndex blockHash
    timestampIndex := TimestampBlocksIndex.add block.bl.timestamp blockHash s.timestampIndex }
  let s ← get
  match GeneratedTransactionsIndex.add block.bl s.generatedTransactionsIndex with
  | .error e => throw e
  | .ok (_, generatedTransactionsIndex) => set { s with generatedTransactionsIndex }

/-- {lit}`popBlock`: return the last block's transactions to the pool, unfile its
transactions and its index entries, and drop it. -/
def popBlock (now : UInt64) (blockHash : Hash) : ChainM Unit := do
  match (← get).blocks.getLast? with
  | none => pure ()
  | some back =>
    saveTransactions currency env now ((back.transactions.drop 1).map TransactionEntry.tx)
    popTransactions env back (env.transactionHash back.bl.baseTransaction)
    modify fun s => { s with
      timestampIndex := (TimestampBlocksIndex.remove back.bl.timestamp blockHash s.timestampIndex).2 }
    let s ← get
    match GeneratedTransactionsIndex.remove back.bl s.generatedTransactionsIndex with
    | .error e => throw e
    | .ok (_, generatedTransactionsIndex) =>
      set { s with
        generatedTransactionsIndex
        blocks := s.blocks.dropLast
        blockIndex := s.blockIndex.dropLast }

/-! ## Filing and refusing a transaction -/

/-- Erasing a key just inserted in a map without it gives the map back. -/
theorem erase_insert_of_notMem {β : Type} {m : Finmap fun _ : Hash => β} {a : Hash} {b : β}
    (h : a ∉ m) : (m.insert a b).erase a = m := by
  refine Finmap.ext_lookup fun x => ?_
  by_cases hx : x = a
  · subst hx
    rw [Finmap.lookup_erase, Finmap.lookup_eq_none.mpr h]
  · rw [Finmap.lookup_erase_ne hx, Finmap.lookup_insert_of_ne _ hx]

/-- The undo loop, when it gets through, erases the images of the inputs it
walks. -/
theorem eraseKeyImagesBack_ok {inputs : List TransactionInput} {s s' : Blockchain} {u : Unit}
    (h : StateExcept.run (eraseKeyImagesBack inputs) s = (.ok u, s')) :
    s' = { s with spentKeys := s.spentKeys \ (keyImages inputs).toFinset } := by
  induction inputs generalizing s with
  | nil =>
    simp [eraseKeyImagesBack] at h
    subst h
    simp [keyImages]
  | cons input inputs ih =>
    cases input with
    | key input =>
      simp only [eraseKeyImagesBack, StateExcept.run_bind, StateExcept.run_modify] at h
      rw [ih h]
      simp [keyImages, Finset.sdiff_insert, Finset.erase_sdiff_comm]
    | base _ => simp [eraseKeyImagesBack] at h
    | multisignature _ => simp [eraseKeyImagesBack] at h

/-- When the key-image loop refuses, it has erased the images it inserted and the
map entry: with the images of the inputs passed inserted over {lit}`base`, the
spent images are {lit}`base` again.  The induction carries that split of the
spent images along the inputs. -/
theorem insertKeyImages_false {transactionHash : Hash} {inputs before : List TransactionInput}
    {base : Finset KeyImage} {s s' : Blockchain}
    (hkeys : s.spentKeys = base ∪ (keyImages before).toFinset)
    (hdisj : Disjoint base (keyImages before).toFinset)
    (h : StateExcept.run (insertKeyImages transactionHash before inputs) s = (.ok false, s')) :
    s' = { s with spentKeys := base, transactionMap := s.transactionMap.erase transactionHash } := by
  induction inputs generalizing before s with
  | nil => simp [insertKeyImages] at h
  | cons input inputs ih =>
    cases input with
    | key input =>
      simp only [insertKeyImages, StateExcept.run_bind, StateExcept.run_get, StateExcept.run_ite] at h
      by_cases hspent : input.keyImage ∈ s.spentKeys
      · rw [if_pos hspent] at h
        rcases herase : StateExcept.run (eraseKeyImagesBack before) s with ⟨_ | u, t⟩
        · rw [herase] at h
          simp at h
        · rw [herase] at h
          simp only [StateExcept.run_modify, StateExcept.run_pure, Prod.mk.injEq] at h
          rw [← h.2, eraseKeyImagesBack_ok herase, hkeys, Finset.union_sdiff_cancel_right hdisj]
      · rw [if_neg hspent] at h
        simp only [StateExcept.run_set] at h
        have hbase : input.keyImage ∉ base := fun hk => hspent (hkeys ▸ Finset.mem_union_left _ hk)
        have hkeys' : insert input.keyImage s.spentKeys =
            base ∪ (keyImages (.key input :: before)).toFinset := by
          simp [keyImages, hkeys, Finset.union_insert]
        have hdisj' : Disjoint base (keyImages (.key input :: before)).toFinset := by
          simpa [keyImages, Finset.disjoint_insert_right] using ⟨hbase, hdisj⟩
        rw [ih hkeys' hdisj' h]
    | base _ =>
      simp only [insertKeyImages] at h
      exact ih (by simpa [keyImages] using hkeys) (by simpa [keyImages] using hdisj) h
    | multisignature _ =>
      simp only [insertKeyImages] at h
      exact ih (by simpa [keyImages] using hkeys) (by simpa [keyImages] using hdisj) h


theorem pushTransaction_duplicate {block : BlockEntry} {transactionHash : Hash}
    {transactionIndex : TransactionIndex} {s : Blockchain} (h : transactionHash ∈ s.transactionMap) :
    StateExcept.run (pushTransaction env block transactionHash transactionIndex) s =
      (.ok (false, block), s) := by
  simp [pushTransaction, StateExcept.run_bind, h]

/-- A refused transaction leaves the map and the spent images as they were; the
refusals are a hash already filed, two multisignature inputs on one output, and
a spent image after key inputs only. -/
theorem pushTransaction_false {block block' : BlockEntry} {transactionHash : Hash}
    {transactionIndex : TransactionIndex} {s s' : Blockchain}
    (h : StateExcept.run (pushTransaction env block transactionHash transactionIndex) s =
      (.ok (false, block'), s')) :
    s'.transactionMap = s.transactionMap ∧ s'.spentKeys = s.spentKeys := by
  by_cases hdup : transactionHash ∈ s.transactionMap
  · rw [pushTransaction_duplicate env hdup] at h
    simp only [Prod.mk.injEq] at h
    rw [← h.2]
    exact ⟨rfl, rfl⟩
  · simp only [pushTransaction, StateExcept.run_bind, StateExcept.run_get, StateExcept.run_ite,
      if_neg hdup, StateExcept.run_set] at h
    by_cases hdiff : checkMultisignatureInputsDiff
        (block.transactions.getD transactionIndex.transaction.toNat default).tx.toTransactionPrefix
    · simp only [hdiff, Bool.not_true, Bool.false_eq_true, if_false] at h
      rcases hins : StateExcept.run (insertKeyImages transactionHash []
          (block.transactions.getD transactionIndex.transaction.toNat default).tx.inputs)
          { s with transactionMap := s.transactionMap.insert transactionHash transactionIndex }
        with ⟨_ | added, t⟩
      · rw [hins] at h
        simp at h
      · rw [hins] at h
        cases added
        · simp only [Bool.not_false, if_true, StateExcept.run_pure, Prod.mk.injEq] at h
          have hkeys : ({ s with
              transactionMap := s.transactionMap.insert transactionHash transactionIndex } :
                Blockchain).spentKeys = s.spentKeys ∪ (keyImages []).toFinset := by
            simp [keyImages]
          have hdisj : Disjoint s.spentKeys (keyImages []).toFinset := by simp [keyImages]
          rw [← h.2, insertKeyImages_false hkeys hdisj hins]
          exact ⟨erase_insert_of_notMem hdup, rfl⟩
        · simp at h
    · simp only [hdiff, Bool.not_false, if_true, StateExcept.run_modify, StateExcept.run_pure,
        Prod.mk.injEq] at h
      rw [← h.2]
      exact ⟨erase_insert_of_notMem hdup, rfl⟩


/-- The key-image loop over fresh, distinct images inserts them all and
accepts. -/
theorem insertKeyImages_fresh {transactionHash : Hash} {inputs before : List TransactionInput}
    {s : Blockchain} (hfresh : ∀ k ∈ keyImages inputs, k ∉ s.spentKeys)
    (hnodup : (keyImages inputs).Nodup) :
    StateExcept.run (insertKeyImages transactionHash before inputs) s =
      (.ok true, { s with spentKeys := s.spentKeys ∪ (keyImages inputs).toFinset }) := by
  induction inputs generalizing before s with
  | nil => simp [insertKeyImages, keyImages]
  | cons input inputs ih =>
    cases input with
    | key input =>
      simp only [keyImages, List.filterMap_cons, List.mem_cons, forall_eq_or_imp,
        List.nodup_cons] at hfresh hnodup
      obtain ⟨hk, hrest⟩ := hfresh
      have hrest' : ∀ k ∈ keyImages inputs, k ∉ insert input.keyImage s.spentKeys := by
        intro k hmem hin
        rcases Finset.mem_insert.mp hin with rfl | hin
        · exact hnodup.1 hmem
        · exact hrest k hmem hin
      simp only [insertKeyImages, StateExcept.run_bind, StateExcept.run_get, if_neg hk,
        StateExcept.run_set]
      rw [ih hrest' hnodup.2]
      simp [keyImages, Finset.insert_union, Finset.union_insert]
    | base _ =>
      simp only [insertKeyImages]
      exact ih hfresh hnodup
    | multisignature _ =>
      simp only [insertKeyImages]
      exact ih hfresh hnodup


/-- A transaction with a new hash, distinct multisignature inputs and fresh,
distinct key images is filed: the map entry, its images, its multisignature
inputs marked used, its outputs and its payment id; the entry receives the
global indexes of the outputs. -/
theorem pushTransaction_fresh {block : BlockEntry} {transactionHash : Hash}
    {transactionIndex : TransactionIndex} {s : Blockchain} {tx : Transaction}
    (htx : (block.transactions.getD transactionIndex.transaction.toNat default).tx = tx)
    (hnew : transactionHash ∉ s.transactionMap)
    (hdiff : checkMultisignatureInputsDiff tx.toTransactionPrefix = true)
    (hfresh : ∀ k ∈ keyImages tx.inputs, k ∉ s.spentKeys) (hnodup : (keyImages tx.inputs).Nodup) :
    StateExcept.run (pushTransaction env block transactionHash transactionIndex) s =
      let filed := addTransactionOutputs transactionIndex 0 tx.outputs s.outputs
        (markMultisignatureInputs true tx.inputs s.multisignatureOutputs)
      (.ok (true, { block with
          transactions := block.transactions.set transactionIndex.transaction.toNat
            { tx, globalOutputIndexes := filed.2.2 } }),
        { s with
          transactionMap := s.transactionMap.insert transactionHash transactionIndex
          spentKeys := s.spentKeys ∪ (keyImages tx.inputs).toFinset
          outputs := filed.1
          multisignatureOutputs := filed.2.1
          paymentIdIndex := (PaymentIdIndex.add env.transactionHash tx s.paymentIdIndex).2 }) := by
  simp only [pushTransaction, StateExcept.run_bind, StateExcept.run_get, StateExcept.run_ite,
    if_neg hnew, StateExcept.run_set, htx, hdiff, Bool.not_true, Bool.false_eq_true, if_false]
  rw [insertKeyImages_fresh (s := { s with
    transactionMap := s.transactionMap.insert transactionHash transactionIndex }) hfresh hnodup]
  simp

/-! ## What the primitives keep

None of the primitives but the block pushes and pops touches the main chain, the
alternative blocks or the checkpoints, whatever it returns or throws. -/

section Keeps

open StateExcept

/-- The part of the state the chain's structure consists of: the main chain, the
alternative blocks and the checkpoints. -/
def chainView (s : Blockchain) : List BlockEntry × (Finmap fun _ : Hash => BlockEntry) × Checkpoints :=
  (s.blocks, s.alternativeChains, s.checkpoints)

theorem keeps_addTxToPool (now : UInt64) (tx : Transaction) :
    Keeps chainView (addTxToPool currency env now tx) := by
  intro v
  refine Preserves.get_bind fun s hs => ?_
  simpa [run_bind, chainView] using hs

/-- Giving transactions back to the pool leaves the chain's structure as it was. -/
theorem keeps_addTransactionsBack (now : UInt64) (message : String) (txs : List Transaction) :
    Keeps chainView (addTransactionsBack currency env now message txs) := by
  intro v
  induction txs with
  | nil => exact Preserves.pure ()
  | cons tx txs ih =>
    simp only [addTransactionsBack]
    refine Preserves.bind (keeps_addTxToPool currency env now tx v) fun _ => ?_
    exact Preserves.ite (fun _ => Preserves.bind (Preserves.throw message) fun _ => ih) fun _ => ih

theorem keeps_saveTransactions (now : UInt64) (transactions : List Transaction) :
    Keeps chainView (saveTransactions currency env now transactions) :=
  keeps_addTransactionsBack currency env now _ _

/-- Taking a block's transactions out of the pool leaves the chain's structure as
it was. -/
theorem keeps_loadTransactions (now : UInt64) (block : Block) :
    Keeps chainView (loadTransactions currency env now block) := by
  intro v
  suffices h : ∀ taken hashes, Preserves (fun s => s.chainView = v)
      (loadTransactionsLoop currency env now taken hashes) from h _ _
  intro taken hashes
  induction hashes generalizing taken with
  | nil => exact Preserves.pure _
  | cons hash hashes ih =>
    simp only [loadTransactionsLoop]
    refine Preserves.get_bind fun s hs => ?_
    split
    · exact (Preserves.bind (keeps_addTransactionsBack currency env now _ _ v) fun _ =>
        Preserves.pure none) s hs
    · simp only [run_bind, run_set]
      exact ih _ _ (by simpa [chainView] using hs)

/-- Erasing spent key images leaves the chain's structure as it was. -/
theorem keeps_eraseKeyImagesBack (inputs : List TransactionInput) :
    Keeps chainView (eraseKeyImagesBack inputs) := by
  intro v
  induction inputs with
  | nil => exact Preserves.pure _
  | cons input inputs ih =>
    cases input with
    | key input =>
      exact Preserves.bind (Preserves.modify fun s hs => by simpa [chainView] using hs) fun _ => ih
    | base _ => exact Preserves.throw _
    | multisignature _ => exact Preserves.throw _

/-- Inserting spent key images leaves the chain's structure as it was. -/
theorem keeps_insertKeyImages (transactionHash : Hash) (before inputs : List TransactionInput) :
    Keeps chainView (insertKeyImages transactionHash before inputs) := by
  intro v
  induction inputs generalizing before with
  | nil => exact Preserves.pure _
  | cons input inputs ih =>
    cases input with
    | key input =>
      simp only [insertKeyImages]
      refine Preserves.get_bind fun s hs => ?_
      split
      · exact (Preserves.bind (keeps_eraseKeyImagesBack _ v) fun _ =>
          Preserves.bind (Preserves.modify fun t ht => by simpa [chainView] using ht) fun _ =>
            Preserves.pure false) s hs
      · simp only [run_bind, run_set]
        exact ih _ _ (by simpa [chainView] using hs)
    | base _ => exact ih _
    | multisignature _ => exact ih _

/-- Filing a transaction leaves the chain's structure as it was. -/
theorem keeps_pushTransaction (block : BlockEntry) (transactionHash : Hash)
    (transactionIndex : TransactionIndex) :
    Keeps chainView (pushTransaction env block transactionHash transactionIndex) := by
  intro v
  simp only [pushTransaction]
  refine Preserves.get_bind fun s hs => ?_
  refine Preserves.ite (P := fun t : Blockchain => t.chainView = v) (fun _ => Preserves.pure _)
    (fun _ => ?_) s hs
  refine Preserves.bind (Preserves.set (by simpa [chainView] using hs)) fun _ => ?_
  refine Preserves.ite (fun _ => Preserves.bind (Preserves.modify fun t ht => by
    simpa [chainView] using ht) fun _ => Preserves.pure _) fun _ => ?_
  refine Preserves.bind (keeps_insertKeyImages _ _ _ v) fun _ => ?_
  refine Preserves.ite (fun _ => Preserves.pure _) fun _ => ?_
  refine Preserves.get_bind fun t ht => ?_
  exact Preserves.bind (P := fun t : Blockchain => t.chainView = v)
    (Preserves.set (by simpa [chainView] using ht)) (fun _ => Preserves.pure _) t ht

/-- Unfiling a transaction leaves the chain's structure as it was. -/
theorem keeps_popTransaction (transaction : Transaction) (transactionHash : Hash) :
    Keeps chainView (popTransaction env transaction transactionHash) := by
  intro v
  refine Preserves.get_bind fun s hs => ?_
  split
  · exact hs
  · exact Preserves.set (P := fun t : Blockchain => t.chainView = v) (by simpa [chainView] using hs) s hs

theorem keeps_popTransactions (block : BlockEntry) (minerTransactionHash : Hash) :
    Keeps chainView (popTransactions env block minerTransactionHash) := by
  intro v
  exact Preserves.bind (Preserves.forM fun _ _ => keeps_popTransaction env _ _ v) fun _ =>
    keeps_popTransaction env _ _ v

end Keeps

end Blockchain

end CryptoNote

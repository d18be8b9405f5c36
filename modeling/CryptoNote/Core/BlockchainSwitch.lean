import CryptoNote.Core.BlockchainPush

/-!
# Alternative blocks and reorganisations

{lit}`Blockchain::addNewBlock` and what it calls for a block that does not extend
the tail: {lit}`handle_alternative_block`, which files the block among the
alternative chains, and {lit}`switch_to_alternative_blockchain`, which makes an
alternative chain the main chain when it reaches a checkpoint or more work, with
{lit}`rollback_blockchain_switching` to restore the old chain when a block of
the new one is refused.

A reorganisation files the blocks it disconnects as alternative blocks again,
and that may start another reorganisation: the two functions call each other.
The model bounds the depth of that recursion with a fuel argument and throws
when it runs out.  The walk from an alternative block back to the main chain
follows the previous-block hashes through the alternative map; it is bounded by
the size of the map, which only a cycle of hashes would exceed.

The source keeps the alternative chain of a reorganisation as iterators into
{lit}`m_alternative_chains`, an {lit}`std::unordered_map`, and inserts into
that map while it holds them; the model keeps the hashes and entries the
iterators pointed to, and erases by hash.

Main results:

- Theorem {lit}`addNewBlock_of_tail`: a new block on the tail is pushed onto the
  main chain.
- Theorem {lit}`addNewBlock_refused_for_size`: a block refused for its size
  leaves its coinbase filed in the transaction map and the indexes.
- Theorems {lit}`addNewBlock_breaks_cache_consistency` and
  {lit}`addNewBlock_breaks_paymentIdIndex`: so the caches no longer agree with
  the blocks.
- Theorem {lit}`addNewBlock_accepts_any_majorVersion`: the major version of a
  block is not checked.
-/

namespace CryptoNote

namespace Blockchain

variable (currency : Currency) (env : ChainEnv)

/-! ## What an alternative block is checked against -/

/-- {lit}`getBlockCumulativeSize`: the size of the coinbase and of the
transactions of the block found in the main chain or in the pool; missing ones
count nothing. -/
def getBlockCumulativeSize (s : Blockchain) (block : Block) : UInt64 :=
  block.transactionHashes.foldl
    (fun size hash =>
      match s.transactionMap.lookup hash with
      | some index => size + (s.transactionByIndex index).tx.encode.length.toUInt64
      | none =>
        match s.pool.transactions.find hash with
        | some txd => size + txd.tx.encode.length.toUInt64
        | none => size)
    block.baseTransaction.encode.length.toUInt64

/-- The walk of {lit}`handle_alternative_block` from an alternative block back to
the main chain: the alternative blocks on the way, the one nearest the main
chain first.  The walk stops after {lit}`fuel` steps. -/
def altChainBack (alternativeChains : Finmap fun _ : Hash => BlockEntry) :
    Nat → Hash → List (Hash × BlockEntry)
  | 0, _ => []
  | fuel + 1, hash =>
    match alternativeChains.lookup hash with
    | none => []
    | some entry => altChainBack alternativeChains fuel entry.bl.previousBlockHash ++ [(hash, entry)]

/-- The {lit}`do ... while` loop of {lit}`complete_timestamps_vector`: the
timestamps of the main blocks from {lit}`start` down, stopping above
{lit}`stop`, or at the genesis block. -/
def timestampsDown (s : Blockchain) (stop : Nat) : Nat → List UInt64
  | 0 => [(s.blocks.getD 0 default).bl.timestamp]
  | start + 1 =>
    (s.blocks.getD (start + 1) default).bl.timestamp ::
      if start = stop then [] else timestampsDown s stop start

/-- {lit}`complete_timestamps_vector`: the timestamps of the main chain below an
alternative chain, from {lit}`startTopHeight` down, until there are enough for
the median.  A start past the main chain adds nothing. -/
def completeTimestampsVector (s : Blockchain) (startTopHeight : UInt64) (timestamps : List UInt64) :
    List UInt64 :=
  if timestamps.length ≥ currency.timestampCheckWindow.toNat then timestamps
  else
    let needElements := currency.timestampCheckWindow.toNat - timestamps.length
    if startTopHeight.toNat < s.blocks.length then
      let stopOffset := if startTopHeight.toNat > needElements then
        startTopHeight.toNat - needElements else 0
      timestamps ++ timestampsDown s stopOffset startTopHeight.toNat
    else timestamps

/-- {lit}`get_next_difficulty_for_alternative_chain`: the difficulty from the
alternative chain and, when it is shorter than the window, the main blocks
below it, the genesis block left out.  The failed internal check returns
{lit}`false`, which the {lit}`difficulty_t` result reads as 0. -/
def getNextDifficultyForAlternativeChain (s : Blockchain) (altChain : List (Hash × BlockEntry))
    (height : UInt32) : UInt64 :=
  let count := currency.difficultyBlocksCount.toNat
  if altChain.length < count then
    let stopOffset := match altChain.head? with
      | some (_, entry) => entry.height.toNat
      | none => height.toNat
    let mainCount := min (count - min count altChain.length) stopOffset
    let startOffset := stopOffset - mainCount
    let startOffset := if startOffset = 0 then 1 else startOffset
    let main := (List.range' startOffset (stopOffset - startOffset)).map fun i => s.blocks.getD i default
    if altChain.length + main.length > count then 0
    else
      currency.nextDifficulty
        (main.map (fun entry => entry.bl.timestamp) ++ altChain.map fun (_, entry) => entry.bl.timestamp)
        (main.map BlockEntry.cumulativeDifficulty ++ altChain.map fun (_, entry) => entry.cumulativeDifficulty)
  else
    let window := altChain.drop (altChain.length - count)
    currency.nextDifficulty (window.map fun (_, entry) => entry.bl.timestamp)
      (window.map fun (_, entry) => entry.cumulativeDifficulty)

/-- The timestamps {lit}`handle_alternative_block` checks an alternative block
against: those of its alternative chain, the nearest first, completed from the
main chain below it; none when the alternative chain does not connect to the
main chain. -/
def altChainTimestamps (s : Blockchain) (altChain : List (Hash × BlockEntry))
    (mainPrev : Option UInt32) : Option (List UInt64) :=
  let timestamps := altChain.reverse.map fun (_, entry) => entry.bl.timestamp
  match altChain.head?, mainPrev with
  | some (_, front), _ =>
    if !(s.blocks.length > front.height.toNat) then none
    else if env.blockHash (s.blocks.getD (front.height - 1).toNat default).bl ≠
        front.bl.previousBlockHash then none
    else some (completeTimestampsVector currency s (front.height - 1).toUInt64 timestamps)
  | none, some mainPrevHeight =>
    some (completeTimestampsVector currency s mainPrevHeight.toUInt64 timestamps)
  | none, none => none

/-! ## Popping and pushing runs of blocks -/

/-- The disconnecting loop of {lit}`switch_to_alternative_blockchain`: pop the last
block {lit}`count` times; the popped blocks, the lowest first. -/
def popBlocks (now : UInt64) : Nat → ChainM (List Block)
  | 0 => pure []
  | count + 1 => do
    let block := ((← get).blocks.getLastD default).bl
    popBlock currency env now (env.blockHash block)
    let disconnected ← popBlocks now count
    pure (disconnected ++ [block])

/-- The loop of {lit}`rollback_blockchain_switching` over the original chain:
push each block again; a refusal stops it. -/
def pushBlocks (now : UInt64) : List Block → ChainM Bool
  | [] => pure true
  | block :: blocks => do
    if !(← pushBlock currency env now block) then return false
    pushBlocks now blocks

/-- {lit}`rollback_blockchain_switching`: pop down to {lit}`rollbackHeight`, then
push the original chain again. -/
def rollbackBlockchainSwitching (now : UInt64) (originalChain : List Block) (rollbackHeight : Nat) :
    ChainM Bool := do
  let count := (← get).blocks.length - rollbackHeight
  let _ ← popBlocks currency env now count
  pushBlocks currency env now originalChain

/-- Remove alternative blocks from the map and from the orphan index. -/
def eraseAlternativeBlocks : List (Hash × BlockEntry) → ChainM Unit
  | [] => pure ()
  | (hash, entry) :: entries => do
    let s ← get
    match OrphanBlocksIndex.remove env.blockHash entry.bl s.orphanBlocksIndex with
    | .error e => throw e
    | .ok (_, orphanBlocksIndex) =>
      set { s with
        orphanBlocksIndex
        alternativeChains := s.alternativeChains.erase hash }
      eraseAlternativeBlocks entries

/-- The loop of {lit}`switch_to_alternative_blockchain` over the disconnected
blocks, filed again as alternative blocks through {lit}`handleAlternative`;
false at the first refusal. -/
def handleDisconnected (handleAlternative : Block → Hash → ChainM Bool) :
    List Block → ChainM Bool
  | [] => pure true
  | block :: blocks => do
    if !(← handleAlternative block (env.blockHash block)) then return false
    handleDisconnected handleAlternative blocks

/-- The connecting loop of {lit}`switch_to_alternative_blockchain`: push the blocks
of the alternative chain in order; at the first refusal, roll back to the
disconnected chain and drop the refused block and those after it from the
alternative blocks. -/
def connectAlternative (now : UInt64) (disconnected : List Block) (splitHeight : Nat) :
    List (Hash × BlockEntry) → ChainM Bool
  | [] => pure true
  | (hash, entry) :: entries => do
    if ← pushBlock currency env now entry.bl then
      connectAlternative now disconnected splitHeight entries
    else
      let _ ← rollbackBlockchainSwitching currency env now disconnected splitHeight
      eraseAlternativeBlocks env ((hash, entry) :: entries)
      return false

/-- {lit}`switch_to_alternative_blockchain`, with {lit}`handle_alternative_block` as
{lit}`handleAlternative`: disconnect the main chain down to the height of the
alternative chain, push the alternative chain, file the disconnected blocks as
alternative ones unless they are discarded, and drop the new main blocks from
the alternative blocks. -/
def switchToAlternativeBlockchain (handleAlternative : Block → Hash → ChainM Bool) (now : UInt64)
    (altChain : List (Hash × BlockEntry)) (discardDisconnectedChain : Bool) : ChainM Bool := do
  match altChain.head? with
  | none => return false
  | some (_, front) =>
    let splitHeight := front.height.toNat
    let s ← get
    if !(s.blocks.length > splitHeight) then return false
    let disconnected ← popBlocks currency env now (s.blocks.length - splitHeight)
    if !(← connectAlternative currency env now disconnected splitHeight altChain) then return false
    if !discardDisconnectedChain then
      if !(← handleDisconnected env handleAlternative disconnected) then
        let _ ← rollbackBlockchainSwitching currency env now disconnected splitHeight
        return false
    eraseAlternativeBlocks env altChain
    return true

/-! ## Filing an alternative block -/

/-- {lit}`handle_alternative_block`: a block whose previous block is in the main
chain or among the alternative blocks is checked against the chain it extends
and filed as an alternative block; a checkpoint or more work than the main
chain makes its chain the main chain.  A block whose previous block is unknown
is an orphan and is dropped with the answer true.  {lit}`fuel` bounds the
reorganisations it may start in turn. -/
def handleAlternativeBlock (now : UInt64) : Nat → Block → Hash → ChainM Bool
  | 0, _, _ => throw "handle_alternative_block: recursion bound"
  | fuel + 1, block, id => do
    let s ← get
    let blockHeight := CryptoNote.getBlockHeight block
    if blockHeight = 0 then return false
    if !s.checkpoints.isAllowed s.getHeight blockHeight then return false
    if !checkCumulativeBlockSize currency (getBlockCumulativeSize s block) blockHeight.toUInt64 then
      return false
    let mainPrev := s.getBlockHeight block.previousBlockHash
    -- a block whose previous block is unknown is an orphan
    if (s.alternativeChains.lookup block.previousBlockHash).isNone && mainPrev.isNone then
      return true
    let altChain := altChainBack s.alternativeChains s.alternativeChains.keys.card
      block.previousBlockHash
    let some timestamps := altChainTimestamps currency env s altChain mainPrev | return false
    if !checkBlockTimestamp currency timestamps block then return false
    -- the previous block is the last of the alternative chain, or a main block
    let (height, previousDifficulty) := match altChain.getLast? with
      | some (_, entry) => (entry.height + 1, entry.cumulativeDifficulty)
      | none =>
        ((mainPrev.getD 0) + 1, (s.blocks.getD (mainPrev.getD 0).toNat default).cumulativeDifficulty)
      let (checked, isACheckpoint) := s.checkpoints.check height id
      if !checked then return false
      let currentDifficulty := getNextDifficultyForAlternativeChain currency s altChain height
      if currentDifficulty = 0 then return false
      if !checkProofOfWork env block currentDifficulty then return false
      if !prevalidateMinerTransaction currency block height then return false
      let entry : BlockEntry :=
        { bl := block, height, blockCumulativeSize := 0,
          cumulativeDifficulty := previousDifficulty + currentDifficulty,
          alreadyGeneratedCoins := 0, transactions := [] }
      if id ∈ s.alternativeChains then return false
      match OrphanBlocksIndex.add env.blockHash block s.orphanBlocksIndex with
      | .error e =>
        set { s with alternativeChains := s.alternativeChains.insert id entry }
        throw e
      | .ok orphanBlocksIndex =>
        set { s with
          alternativeChains := s.alternativeChains.insert id entry
          orphanBlocksIndex }
        let altChain := altChain ++ [(id, entry)]
        let handleAlternative := fun block id => handleAlternativeBlock now fuel block id
        if isACheckpoint then
          switchToAlternativeBlockchain currency env handleAlternative now altChain true
        else if (s.blocks.getLastD default).cumulativeDifficulty < entry.cumulativeDifficulty then
          switchToAlternativeBlockchain currency env handleAlternative now altChain false
        else return true

/-! ## The entry points -/

/-- {lit}`addNewBlock`: a block already known is refused; one on the tail is
pushed, any other is handled as an alternative block. -/
def addNewBlock (fuel : Nat) (now : UInt64) (block : Block) : ChainM Bool := do
  let id := env.blockHash block
  let s ← get
  if s.haveBlock id then return false
  if block.previousBlockHash ≠ s.getTailId then
    handleAlternativeBlock currency env now fuel block id
  else pushBlock currency env now block

/-! ## Blocks on the tail -/

section Tail

open StateExcept

/-- A new block on the tail goes to {lit}`pushBlock`. -/
theorem addNewBlock_of_tail {fuel : Nat} {now : UInt64} {s : Blockchain} {block : Block}
    (hhave : s.haveBlock (env.blockHash block) = false)
    (htail : block.previousBlockHash = s.getTailId) :
    run (addNewBlock currency env fuel now block) s = run (pushBlock currency env now block) s := by
  simp [addNewBlock, run_bind, hhave, htail]

/-- A block that passes the header checks is not in the main chain; if it is not
an alternative block either, the chain does not have it. -/
theorem haveBlock_of_headerDifficulty {now difficulty : UInt64} {s : Blockchain} {block : Block}
    (hheader : headerDifficulty currency env now s block = some difficulty)
    (halt : env.blockHash block ∉ s.alternativeChains) :
    s.haveBlock (env.blockHash block) = false := by
  have hindex := ((headerDifficulty_eq_some currency env).mp hheader).1
  simp [haveBlock, hindex, halt]

/-- A block on the tail without transactions whose coinbase alone is over the
size limit is refused, and the coinbase stays filed: in the transaction map, its
outputs in the output indexes and its payment id in the payment-id index. -/
theorem addNewBlock_refused_for_size {fuel : Nat} {now difficulty : UInt64} {s : Blockchain}
    {block : Block} (halt : env.blockHash block ∉ s.alternativeChains)
    (hnone : block.transactionHashes = [])
    (hheader : headerDifficulty currency env now s block = some difficulty)
    (hnew : env.transactionHash block.baseTransaction ∉ s.transactionMap)
    (hsize : checkCumulativeBlockSize currency block.baseTransaction.encode.length.toUInt64
      s.blocks.length.toUInt64 = false) :
    run (addNewBlock currency env fuel now block) s =
      let filed := addTransactionOutputs ⟨s.blocks.length.toUInt32, 0⟩ 0
        block.baseTransaction.outputs s.outputs s.multisignatureOutputs
      (.ok false, { s with
        transactionMap := s.transactionMap.insert (env.transactionHash block.baseTransaction)
          ⟨s.blocks.length.toUInt32, 0⟩
        outputs := filed.1
        multisignatureOutputs := filed.2.1
        paymentIdIndex :=
          (PaymentIdIndex.add env.transactionHash block.baseTransaction s.paymentIdIndex).2 }) := by
  have htail := ((headerDifficulty_eq_some currency env).mp hheader).2.1
  rw [addNewBlock_of_tail currency env (haveBlock_of_headerDifficulty currency env hheader halt) htail,
    pushBlock_of_transactionHashes_nil currency env hnone]
  obtain ⟨entry, hpush⟩ := pushTransaction_coinbase currency env hheader hnew
  exact pushBlockWithTransactions_refused_for_size currency env hheader hpush hsize

/-- A state with the blocks of a consistent one and another transaction map is
not consistent. -/
theorem rebuildCache_ne_of_transactionMap_ne {s t : Blockchain} (hconsistent : rebuildCache env s = s)
    (hblocks : t.blocks = s.blocks) (hmap : t.transactionMap ≠ s.transactionMap) :
    rebuildCache env t ≠ t := by
  intro hrebuilt
  have hview := cacheView_rebuildCache_of_blocks_eq env hblocks
  rw [hrebuilt, hconsistent] at hview
  exact hmap (congrArg (fun view => view.2.1) hview)

/-- The chain the refused block leaves is not the one its blocks rebuild, although
the one it started from was. -/
theorem addNewBlock_breaks_cache_consistency {fuel : Nat} {now difficulty : UInt64}
    {s : Blockchain} {block : Block} (hconsistent : rebuildCache env s = s)
    (halt : env.blockHash block ∉ s.alternativeChains) (hnone : block.transactionHashes = [])
    (hheader : headerDifficulty currency env now s block = some difficulty)
    (hnew : env.transactionHash block.baseTransaction ∉ s.transactionMap)
    (hsize : checkCumulativeBlockSize currency block.baseTransaction.encode.length.toUInt64
      s.blocks.length.toUInt64 = false) :
    (run (addNewBlock currency env fuel now block) s).1 = .ok false ∧
      rebuildCache env (run (addNewBlock currency env fuel now block) s).2 ≠
        (run (addNewBlock currency env fuel now block) s).2 := by
  rw [addNewBlock_refused_for_size currency env halt hnone hheader hnew hsize]
  refine ⟨rfl, rebuildCache_ne_of_transactionMap_ne env hconsistent rfl fun hmap => hnew ?_⟩
  simp only at hmap
  rw [← hmap]
  exact Finmap.mem_insert.mpr (Or.inl rfl)

/-- The chain {lit}`init` builds is consistent: rebuilding its caches gives it
back. -/
theorem rebuildCache_sampleGenesisChain :
    rebuildCache sampleEnv sampleGenesisChain = sampleGenesisChain := by
  refine rebuildCache_eq_self sampleEnv ?_
  simp only [cacheView, Prod.mk.injEq]
  exact ⟨by decide +kernel, by decide +kernel, by decide +kernel, by decide +kernel,
    by decide +kernel⟩

/-- The oversized block is neither in the main chain nor among the alternative
blocks of the chain {lit}`init` builds, and its coinbase is not filed there. -/
theorem oversizedBlock_new :
    sampleEnv.blockHash oversizedBlock ∉ sampleGenesisChain.alternativeChains ∧
      sampleEnv.transactionHash oversizedBlock.baseTransaction ∉
        sampleGenesisChain.transactionMap := by
  decide +kernel

/-- On the chain {lit}`init` builds, {lit}`oversizedBlock` is refused for its size
and the caches no longer agree with the blocks. -/
theorem addNewBlock_breaks_cache_consistency_oversized :
    (run (addNewBlock sampleCurrency sampleEnv 0 0 oversizedBlock) sampleGenesisChain).1 =
        .ok false ∧
      rebuildCache sampleEnv
          (run (addNewBlock sampleCurrency sampleEnv 0 0 oversizedBlock) sampleGenesisChain).2 ≠
        (run (addNewBlock sampleCurrency sampleEnv 0 0 oversizedBlock) sampleGenesisChain).2 :=
  addNewBlock_breaks_cache_consistency sampleCurrency sampleEnv rebuildCache_sampleGenesisChain
    oversizedBlock_new.1 rfl headerDifficulty_oversizedBlock oversizedBlock_new.2
    checkCumulativeBlockSize_oversizedBlock

/-- The payment-id entries the main chain carries: the payment id and hash of
each of its transactions that has one. -/
def mainChainPaymentIds (blocks : List BlockEntry) : Multiset (Hash × Hash) :=
  ((blocks.flatMap BlockEntry.transactions).filterMap fun transaction =>
    TxMemoryPool.paymentIdEntry env.transactionHash transaction.tx : List (Hash × Hash))

/-- After a block refused for its size, the payment-id index holds an entry of
its coinbase that no block of the main chain carries. -/
theorem addNewBlock_breaks_paymentIdIndex {fuel : Nat} {now difficulty : UInt64}
    {s : Blockchain} {block : Block}
    (hindex : s.paymentIdIndex.index = mainChainPaymentIds env s.blocks)
    (hpaymentId : (getPaymentId block.baseTransaction).isSome)
    (halt : env.blockHash block ∉ s.alternativeChains) (hnone : block.transactionHashes = [])
    (hheader : headerDifficulty currency env now s block = some difficulty)
    (hnew : env.transactionHash block.baseTransaction ∉ s.transactionMap)
    (hsize : checkCumulativeBlockSize currency block.baseTransaction.encode.length.toUInt64
      s.blocks.length.toUInt64 = false) :
    (run (addNewBlock currency env fuel now block) s).1 = .ok false ∧
      (run (addNewBlock currency env fuel now block) s).2.paymentIdIndex.index ≠
        mainChainPaymentIds env (run (addNewBlock currency env fuel now block) s).2.blocks := by
  rw [addNewBlock_refused_for_size currency env halt hnone hheader hnew hsize]
  refine ⟨rfl, ?_⟩
  obtain ⟨paymentId, hpayment⟩ := Option.isSome_iff_exists.mp hpaymentId
  simp only [PaymentIdIndex.add, hpayment, HashMultimap.index_add, hindex]
  intro h
  simpa using congrArg Multiset.card h

/-- On the chain {lit}`init` builds, whose genesis coinbase has no payment id,
the refused {lit}`oversizedBlock` leaves its payment id in the index. -/
theorem addNewBlock_breaks_paymentIdIndex_oversized :
    (run (addNewBlock sampleCurrency sampleEnv 0 0 oversizedBlock) sampleGenesisChain).1 =
        .ok false ∧
      (run (addNewBlock sampleCurrency sampleEnv 0 0 oversizedBlock)
          sampleGenesisChain).2.paymentIdIndex.index ≠
        mainChainPaymentIds sampleEnv
          (run (addNewBlock sampleCurrency sampleEnv 0 0 oversizedBlock) sampleGenesisChain).2.blocks :=
  addNewBlock_breaks_paymentIdIndex sampleCurrency sampleEnv (by decide +kernel)
    (by decide +kernel) oversizedBlock_new.1 rfl headerDifficulty_oversizedBlock
    oversizedBlock_new.2 checkCumulativeBlockSize_oversizedBlock

/-- Nothing on the way from {lit}`addNewBlock` to the main chain reads the block's
major version: a block that passes the header, size and reward checks is pushed
whatever version it claims. -/
theorem addNewBlock_accepts_any_majorVersion {fuel : Nat} {now difficulty reward emissionChange : UInt64}
    {s : Blockchain} {block : Block}
    (halt : env.blockHash block ∉ s.alternativeChains) (hnone : block.transactionHashes = [])
    (hheader : headerDifficulty currency env now s block = some difficulty)
    (hnew : env.transactionHash block.baseTransaction ∉ s.transactionMap)
    (hsize : checkCumulativeBlockSize currency block.baseTransaction.encode.length.toUInt64
      s.blocks.length.toUInt64 = true)
    (hreward : validateMinerTransaction currency s block block.baseTransaction.encode.length.toUInt64
      ((s.blocks.getLast?.map BlockEntry.alreadyGeneratedCoins).getD 0) 0 = some (reward, emissionChange)) :
    (run (addNewBlock currency env fuel now block) s).1 = .ok true ∧
      ∃ entry, entry.bl = block ∧
        (run (addNewBlock currency env fuel now block) s).2.blocks = s.blocks ++ [entry] := by
  have htail := ((headerDifficulty_eq_some currency env).mp hheader).2.1
  rw [addNewBlock_of_tail currency env (haveBlock_of_headerDifficulty currency env hheader halt) htail,
    pushBlock_of_transactionHashes_nil currency env hnone]
  exact pushBlockWithTransactions_accepted currency env hheader hnew hsize hreward

/-- A block of major version 7 at height 1, where the mainnet schedule asks for
version 1; its coinbase claims the premine. -/
def versionSevenBlock : Block :=
  { (default : Block) with
    majorVersion := 7
    nonce := 2
    previousBlockHash := sampleEnv.blockHash sampleGenesis
    baseTransaction := { (default : Transaction) with
      inputs := [.base ⟨1⟩]
      unlockTime := 61
      outputs := [⟨2000000000000000, .key ⟨default⟩⟩] } }

/-- On the chain {lit}`init` builds, the version-7 block is appended to the main
chain. -/
theorem addNewBlock_accepts_any_majorVersion_seven :
    getMajorVersion mainnetHardforks sampleGenesisChain.blocks.length.toUInt64 ≠
        versionSevenBlock.majorVersion ∧
      (run (addNewBlock sampleCurrency sampleEnv 0 0 versionSevenBlock) sampleGenesisChain).1 =
        .ok true ∧
      ∃ entry, entry.bl = versionSevenBlock ∧
        (run (addNewBlock sampleCurrency sampleEnv 0 0 versionSevenBlock)
            sampleGenesisChain).2.blocks = sampleGenesisChain.blocks ++ [entry] :=
  ⟨by decide +kernel, addNewBlock_accepts_any_majorVersion sampleCurrency sampleEnv
    (by decide +kernel) rfl
    (show headerDifficulty sampleCurrency sampleEnv 0 sampleGenesisChain versionSevenBlock =
      some 1 by decide +kernel)
    (by decide +kernel) (by decide +kernel)
    (show validateMinerTransaction sampleCurrency sampleGenesisChain versionSevenBlock
      versionSevenBlock.baseTransaction.encode.length.toUInt64
      ((sampleGenesisChain.blocks.getLast?.map BlockEntry.alreadyGeneratedCoins).getD 0) 0 =
        some (2000000000000000, 2000000000000000) by decide +kernel)⟩

end Tail

end Blockchain

end CryptoNote

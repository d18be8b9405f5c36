import CryptoNote.Core.BlockchainUpdate

/-!
# Adding a block to the main chain

{lit}`Blockchain::pushBlock(blockData, transactions, bvc)` and its caller
{lit}`pushBlock(blockData, bvc)`, which takes the block's transactions from the
pool first and returns them when the block is refused.

The checks before the first change of the state are collected in
{lit}`headerDifficulty`.  The coinbase is then filed with {lit}`pushTransaction`,
and the transactions one by one after their inputs are checked against the
chain as it stands, so that a transaction spending an image an earlier one of
the block spent is refused.  Two refusals come after that: a block too large
for its height, and a coinbase that does not pay the reward.  The second pops
what was filed; the first returns at once and leaves it filed.
{lit}`init` pushes the genesis block on a new chain.

Main results:

- Theorem {lit}`pushBlockWithTransactions_chainView`: a push either leaves the
  main chain, the alternative blocks and the checkpoints as they were, or
  appends the block after it passed the header checks.
- Theorem {lit}`pushBlockWithTransactions_accepted`: a block of its coinbase
  alone that passes every check is appended as it is.
- Theorem {lit}`pushBlockWithTransactions_refused_keeps_coinbase`: a block of the
  coinbase alone that is too large for its height is refused, with its
  coinbase left filed in the transaction map.
-/

namespace CryptoNote

namespace Blockchain

variable (currency : Currency) (env : ChainEnv)

/-! ## The checks before the first change -/

/-- The proof-of-work test of {lit}`pushBlock`: in the zone the checkpoints cover
the hash is checked against the checkpoint at the height, if any, and outside it
the long hash against the difficulty. -/
def checkBlockWork (s : Blockchain) (block : Block) (difficulty : UInt64) : Bool :=
  if s.checkpoints.isCheckpoint s.getHeight then
    (s.checkpoints.check s.getHeight (env.blockHash block)).1
  else checkProofOfWork env block difficulty

/-- The checks of {lit}`pushBlock` before it files anything, in the source's order:
a new hash, the tail as the previous block, the timestamp, a difficulty, the
proof of work and the coinbase.  On success the difficulty. -/
def headerDifficulty (now : UInt64) (s : Blockchain) (block : Block) : Option UInt64 :=
  if env.blockHash block ∈ s.blockIndex then none
  else if block.previousBlockHash ≠ s.getTailId then none
  else if !checkBlockTimestampMain currency now s block then none
  else
    let difficulty := getDifficultyForNextBlock currency s
    if difficulty = 0 then none
    else if !checkBlockWork env s block difficulty then none
    else if !prevalidateMinerTransaction currency block s.blocks.length.toUInt32 then none
    else some difficulty

/-! ## Filing the transactions -/

/-- The transaction loop of {lit}`pushBlock`: each transaction, under the hash the
block lists at its position, is checked against the chain and filed at the next
position of the entry; the blob sizes and the fees, {lit}`getInputAmount` less
{lit}`getOutputAmount` in 64 bits, add up.  A transaction whose inputs fail pops
everything filed so far and ends the loop. -/
def pushBlockTransactions (now : UInt64) (block : Block) (minerTransactionHash : Hash)
    (height : UInt32) :
    BlockEntry → UInt16 → UInt64 → UInt64 → List (Transaction × Nat) →
      ChainM (Option (BlockEntry × UInt64 × UInt64))
  | entry, _, cumulativeSize, feeSummary, [] => pure (some (entry, cumulativeSize, feeSummary))
  | entry, position, cumulativeSize, feeSummary, (tx, i) :: transactions => do
    if (checkTransactionInputs currency env now (← get) tx).isNone then
      popTransactions env entry minerTransactionHash
      return none
    let entry := { entry with transactions := entry.transactions ++ [⟨tx, []⟩] }
    let (_, entry) ← pushTransaction env entry (block.transactionHashes.getD i default)
      ⟨height, position + 1⟩
    pushBlockTransactions now block minerTransactionHash height entry (position + 1)
      (cumulativeSize + tx.encode.length.toUInt64)
      (feeSummary + (getInputsMoneyAmount tx - getOutsMoneyAmount tx)) transactions

/-- The entry {lit}`pushBlock` starts from: the block and its coinbase, the other
fields value-initialised. -/
def initialEntry (block : Block) : BlockEntry :=
  { bl := block, height := 0, blockCumulativeSize := 0, cumulativeDifficulty := 0,
    alreadyGeneratedCoins := 0, transactions := [⟨block.baseTransaction, []⟩] }

/-- {lit}`pushBlock(blockData, transactions, bvc)`: true when the block was added
to the main chain. -/
def pushBlockWithTransactions (now : UInt64) (block : Block) (transactions : List Transaction) :
    ChainM Bool := do
  let s ← get
  match headerDifficulty currency env now s block with
  | none => return false
  | some difficulty =>
    let height := s.blocks.length.toUInt32
    let minerTransactionHash := env.transactionHash block.baseTransaction
    -- the answer of {lit}`pushTransaction` is not read here
    let (_, entry) ← pushTransaction env (initialEntry block) minerTransactionHash ⟨height, 0⟩
    match ← pushBlockTransactions currency env now block minerTransactionHash height entry 0
        block.baseTransaction.encode.length.toUInt64 0 transactions.zipIdx with
    | none => return false
    | some (entry, cumulativeBlockSize, feeSummary) =>
      -- refused for its size, the block returns with its transactions filed
      if !checkCumulativeBlockSize currency cumulativeBlockSize s.blocks.length.toUInt64 then
        return false
      let s ← get
      let alreadyGeneratedCoins := (s.blocks.getLast?.map BlockEntry.alreadyGeneratedCoins).getD 0
      match validateMinerTransaction currency s block cumulativeBlockSize alreadyGeneratedCoins
          feeSummary with
      | none =>
        popTransactions env entry minerTransactionHash
        return false
      | some (_, emissionChange) =>
        pushBlockEntry env { entry with
          height
          blockCumulativeSize := cumulativeBlockSize
          cumulativeDifficulty :=
            difficulty + (s.blocks.getLast?.map BlockEntry.cumulativeDifficulty).getD 0
          alreadyGeneratedCoins := alreadyGeneratedCoins + emissionChange }
        modify (updateNextComulativeSizeLimit currency)
        return true

/-- {lit}`pushBlock(blockData, bvc)`: the transactions are taken from the pool, and
returned to it when the block is refused. -/
def pushBlock (now : UInt64) (block : Block) : ChainM Bool := do
  match ← loadTransactions currency env now block with
  | none => return false
  | some transactions =>
    if ← pushBlockWithTransactions currency env now block transactions then return true
    saveTransactions currency env now transactions
    return false

/-- {lit}`init` on a new chain: push the genesis block and set the size limit. -/
def init (now : UInt64) : ChainM Bool := do
  if !(← pushBlock currency env now currency.genesisBlock) then return false
  modify (updateNextComulativeSizeLimit currency)
  return true

/-- The chain {lit}`init` leaves on a new chain with the checkpoints {lit}`C`: the
genesis block alone. -/
def genesisChain (C : Checkpoints) (pool : TxMemoryPool) (now : UInt64) : Blockchain :=
  (StateExcept.run (init currency env now) (empty C pool)).2

/-! ## What a push does -/

section Spec

open StateExcept

/-- The header checks pass, with a difficulty, exactly when the block is new,
extends the tail, has a timestamp the main chain accepts, meets the next
difficulty, which is not zero, and has a coinbase that passes prevalidation. -/
theorem headerDifficulty_eq_some {now difficulty : UInt64} {s : Blockchain} {block : Block} :
    headerDifficulty currency env now s block = some difficulty ↔
      env.blockHash block ∉ s.blockIndex ∧ block.previousBlockHash = s.getTailId ∧
        checkBlockTimestampMain currency now s block = true ∧
        difficulty = getDifficultyForNextBlock currency s ∧ difficulty ≠ 0 ∧
        checkBlockWork env s block difficulty = true ∧
        prevalidateMinerTransaction currency block s.blocks.length.toUInt32 = true := by
  unfold headerDifficulty
  split_ifs <;> grind

/-- A block that passes the header checks but is too large with its coinbase is
refused, in the state that filing its coinbase left. -/
theorem pushBlockWithTransactions_refused_for_size {now difficulty : UInt64} {s t : Blockchain}
    {block : Block} {added : Bool} {entry : BlockEntry}
    (hheader : headerDifficulty currency env now s block = some difficulty)
    (hpush : StateExcept.run (pushTransaction env (initialEntry block)
      (env.transactionHash block.baseTransaction) ⟨s.blocks.length.toUInt32, 0⟩) s =
        (.ok (added, entry), t))
    (hsize : checkCumulativeBlockSize currency block.baseTransaction.encode.length.toUInt64
      s.blocks.length.toUInt64 = false) :
    StateExcept.run (pushBlockWithTransactions currency env now block []) s = (.ok false, t) := by
  simp only [pushBlockWithTransactions, StateExcept.run_bind, StateExcept.run_get, hheader]
  rw [hpush]
  simp [pushBlockTransactions, hsize]

/-- Filing a transaction keeps the block of the entry. -/
theorem pushTransaction_bl {block entry : BlockEntry} {transactionHash : Hash}
    {transactionIndex : TransactionIndex} {s t : Blockchain} {added : Bool}
    (h : run (pushTransaction env block transactionHash transactionIndex) s = (.ok (added, entry), t)) :
    entry.bl = block.bl := by
  simp only [pushTransaction, run_bind, run_get, run_ite, run_set, run_modify, run_pure] at h
  split_ifs at h with hdup hdiff
  · simp only [Prod.mk.injEq, Except.ok.injEq] at h
    rw [← h.1.2]
  · simp only [Prod.mk.injEq, Except.ok.injEq] at h
    rw [← h.1.2]
  · split at h
    · split_ifs at h
      · simp only [Prod.mk.injEq, Except.ok.injEq] at h
        rw [← h.1.2]
      · simp only [Prod.mk.injEq, Except.ok.injEq] at h
        rw [← h.1.2]
    · simp at h


/-- Filing the transactions of a block keeps the block of the entry. -/
theorem pushBlockTransactions_bl {now : UInt64} {block : Block} {minerTransactionHash : Hash}
    {height : UInt32} {transactions : List (Transaction × Nat)} :
    ∀ {entry result : BlockEntry} {position : UInt16} {cumulativeSize feeSummary size fee : UInt64}
      {s t : Blockchain},
      run (pushBlockTransactions currency env now block minerTransactionHash height entry position
        cumulativeSize feeSummary transactions) s = (.ok (some (result, size, fee)), t) →
      result.bl = entry.bl := by
  induction transactions with
  | nil =>
    intro entry result position cumulativeSize feeSummary size fee s t h
    simp only [pushBlockTransactions, run_pure, Prod.mk.injEq, Except.ok.injEq,
      Option.some.injEq] at h
    rw [h.1.1]
  | cons transaction transactions ih =>
    intro entry result position cumulativeSize feeSummary size fee s t h
    obtain ⟨tx, i⟩ := transaction
    simp only [pushBlockTransactions, run_bind, run_get, run_ite] at h
    split_ifs at h
    · split at h <;> simp at h
    · split at h
      · rename_i pushed t' hpush
        obtain ⟨added, pushedEntry⟩ := pushed
        rw [ih h, pushTransaction_bl env hpush]
      · simp at h


/-- Filing the transactions of a block leaves the chain's structure as it was. -/
theorem keeps_pushBlockTransactions (now : UInt64) (block : Block) (minerTransactionHash : Hash)
    (height : UInt32) (transactions : List (Transaction × Nat)) (entry : BlockEntry)
    (position : UInt16) (cumulativeSize feeSummary : UInt64) :
    Keeps chainView (pushBlockTransactions currency env now block minerTransactionHash height entry
      position cumulativeSize feeSummary transactions) := by
  intro v
  induction transactions generalizing entry position cumulativeSize feeSummary with
  | nil => exact Preserves.pure _
  | cons transaction transactions ih =>
    obtain ⟨tx, i⟩ := transaction
    simp only [pushBlockTransactions]
    refine Preserves.get_bind fun s hs => ?_
    exact Preserves.ite (P := fun t : Blockchain => t.chainView = v)
      (fun _ => Preserves.bind (keeps_popTransactions env _ _ v) fun _ => Preserves.pure _)
      (fun _ => Preserves.bind (keeps_pushTransaction env _ _ _ v) fun ⟨_, _⟩ => ih _ _ _ _) s hs

theorem pushBlockEntry_chainView (block : BlockEntry) (s : Blockchain) :
    (run (pushBlockEntry env block) s).2.chainView =
      (s.blocks ++ [block], s.alternativeChains, s.checkpoints) := by
  simp only [pushBlockEntry, run_bind, run_modify, run_get]
  split <;> simp [chainView]

/-- The tail of an accepted push: the entry is appended and the size limit moves. -/
theorem acceptBlock_chainView (block : BlockEntry) (s : Blockchain) :
    (run (do
      pushBlockEntry env block
      modify (updateNextComulativeSizeLimit currency)
      pure true : ChainM Bool) s).2.chainView =
      (s.blocks ++ [block], s.alternativeChains, s.checkpoints) := by
  rw [run_bind]
  have hentry := pushBlockEntry_chainView env block s
  rcases hrun : run (pushBlockEntry env block) s with ⟨_ | _, t⟩
  all_goals
    rw [hrun] at hentry
    simpa [updateNextComulativeSizeLimit, chainView] using hentry

/-- Pushing a block leaves the chain's structure as it was, or, past the header
checks, appends an entry of that block to the main chain. -/
theorem pushBlockWithTransactions_chainView (now : UInt64) (block : Block)
    (transactions : List Transaction) (s : Blockchain) :
    (run (pushBlockWithTransactions currency env now block transactions) s).2.chainView =
        s.chainView ∨
      ∃ difficulty entry, headerDifficulty currency env now s block = some difficulty ∧
        entry.bl = block ∧
        (run (pushBlockWithTransactions currency env now block transactions) s).2.chainView =
          (s.blocks ++ [entry], s.alternativeChains, s.checkpoints) := by
  simp only [pushBlockWithTransactions, run_bind, run_get]
  split
  · left
    rfl
  · rename_i difficulty hheader
    -- the coinbase is filed first; whatever it does, the structure stays
    have hcoinbase := keeps_pushTransaction env (initialEntry block)
      (env.transactionHash block.baseTransaction) ⟨s.blocks.length.toUInt32, 0⟩ s.chainView s rfl
    rw [run_bind]
    rcases hpush : run (pushTransaction env (initialEntry block)
      (env.transactionHash block.baseTransaction) ⟨s.blocks.length.toUInt32, 0⟩) s
      with ⟨_ | ⟨added, entry⟩, t⟩
    · rw [hpush] at hcoinbase
      exact Or.inl hcoinbase
    rw [hpush] at hcoinbase
    have hloop := keeps_pushBlockTransactions currency env now block
      (env.transactionHash block.baseTransaction) s.blocks.length.toUInt32 transactions.zipIdx entry 0
      block.baseTransaction.encode.length.toUInt64 0 s.chainView t hcoinbase
    simp only
    rw [run_bind]
    rcases hpushed : run (pushBlockTransactions currency env now block
      (env.transactionHash block.baseTransaction) s.blocks.length.toUInt32 entry 0
      block.baseTransaction.encode.length.toUInt64 0 transactions.zipIdx) t
      with ⟨_ | _ | ⟨entry', cumulativeBlockSize, feeSummary⟩, u⟩
    · rw [hpushed] at hloop
      exact Or.inl hloop
    · rw [hpushed] at hloop
      exact Or.inl hloop
    rw [hpushed] at hloop
    simp only [run_ite, run_pure, run_bind, run_get]
    split_ifs with hsize
    · exact Or.inl hloop
    split
    · exact Or.inl ((Preserves.bind (keeps_popTransactions env _ _ s.chainView) fun _ =>
        Preserves.pure _) u hloop)
    rename_i reward emissionChange hreward
    right
    simp only [chainView, Prod.mk.injEq] at hloop
    refine ⟨difficulty, _, hheader, ?_, (acceptBlock_chainView currency env _ u).trans
      (by rw [hloop.1, hloop.2.1, hloop.2.2])⟩
    show entry'.bl = block
    rw [pushBlockTransactions_bl currency env hpushed, pushTransaction_bl env hpush]
    rfl

/-- The coinbase of a block that passed the header checks has the one base input
naming its height. -/
theorem coinbase_inputs_of_headerDifficulty {now difficulty : UInt64} {s : Blockchain}
    {block : Block} (h : headerDifficulty currency env now s block = some difficulty) :
    block.baseTransaction.inputs = [.base ⟨s.blocks.length.toUInt32⟩] :=
  ((prevalidateMinerTransaction_iff currency block _).mp
    ((headerDifficulty_eq_some currency env).mp h).2.2.2.2.2.2).1

/-- Filing the coinbase of a block that passed the header checks, under a new
hash: the map entry at position 0 of the height, its outputs and its payment
id. -/
theorem pushTransaction_coinbase {now difficulty : UInt64} {s : Blockchain} {block : Block}
    (hheader : headerDifficulty currency env now s block = some difficulty)
    (hnew : env.transactionHash block.baseTransaction ∉ s.transactionMap) :
    ∃ entry, run (pushTransaction env (initialEntry block) (env.transactionHash block.baseTransaction)
        ⟨s.blocks.length.toUInt32, 0⟩) s =
      let filed := addTransactionOutputs ⟨s.blocks.length.toUInt32, 0⟩ 0
        block.baseTransaction.outputs s.outputs s.multisignatureOutputs
      (.ok (true, entry), { s with
        transactionMap := s.transactionMap.insert (env.transactionHash block.baseTransaction)
          ⟨s.blocks.length.toUInt32, 0⟩
        outputs := filed.1
        multisignatureOutputs := filed.2.1
        paymentIdIndex :=
          (PaymentIdIndex.add env.transactionHash block.baseTransaction s.paymentIdIndex).2 }) := by
  have hinputs := coinbase_inputs_of_headerDifficulty currency env hheader
  have hdiff : checkMultisignatureInputsDiff block.baseTransaction.toTransactionPrefix = true := by
    simp [checkMultisignatureInputsDiff, checkMultisignatureInputsDiff.go, hinputs]
  have hnone : keyImages block.baseTransaction.inputs = [] := by simp [keyImages, hinputs]
  have htx : ((initialEntry block).transactions.getD
      (TransactionIndex.transaction ⟨s.blocks.length.toUInt32, 0⟩).toNat default).tx =
        block.baseTransaction := rfl
  rw [pushTransaction_fresh env htx hnew hdiff (by simp [hnone]) (by simp [hnone])]
  refine ⟨_, Prod.ext rfl ?_⟩
  simp [hinputs, markMultisignatureInputs, keyImages]

/-- {lit}`pushBlock(block_entry_t&)` of an entry whose coinbase names its height
does not throw, and appends the entry. -/
theorem pushBlockEntry_of_coinbase {block : BlockEntry} {s : Blockchain} {input : BaseInput}
    {inputs : List TransactionInput}
    (hinputs : block.bl.baseTransaction.inputs = .base input :: inputs) :
    ∃ t, run (pushBlockEntry env block) s = (.ok (), t) ∧ t.blocks = s.blocks ++ [block] := by
  simp only [pushBlockEntry, run_bind, run_modify, run_get]
  split
  · rename_i e he
    -- the coinbase names its height, so the generated-transactions index does not throw
    simp [GeneratedTransactionsIndex.add, coinbaseBlockIndex, hinputs] at he
    split_ifs at he <;> cases he
  · exact ⟨_, rfl, rfl⟩


/-- The tail of an accepted push, for an entry whose coinbase names its height:
the entry is appended and the push answers true. -/
theorem acceptBlock_run {block : BlockEntry} {s : Blockchain} {input : BaseInput}
    {inputs : List TransactionInput}
    (hinputs : block.bl.baseTransaction.inputs = .base input :: inputs) :
    (run (do
      pushBlockEntry env block
      modify (updateNextComulativeSizeLimit currency)
      pure true : ChainM Bool) s).1 = .ok true ∧
    (run (do
      pushBlockEntry env block
      modify (updateNextComulativeSizeLimit currency)
      pure true : ChainM Bool) s).2.blocks = s.blocks ++ [block] := by
  obtain ⟨t, hrun, hblocks⟩ := pushBlockEntry_of_coinbase env hinputs (s := s)
  rw [run_bind_of_ok hrun]
  exact ⟨rfl, hblocks⟩

/-- A block of its coinbase alone that passes the header checks, the size check
and the reward check is appended to the main chain as it is. -/
theorem pushBlockWithTransactions_accepted {now difficulty reward emissionChange : UInt64}
    {s : Blockchain} {block : Block}
    (hheader : headerDifficulty currency env now s block = some difficulty)
    (hnew : env.transactionHash block.baseTransaction ∉ s.transactionMap)
    (hsize : checkCumulativeBlockSize currency block.baseTransaction.encode.length.toUInt64
      s.blocks.length.toUInt64 = true)
    (hreward : validateMinerTransaction currency s block block.baseTransaction.encode.length.toUInt64
      ((s.blocks.getLast?.map BlockEntry.alreadyGeneratedCoins).getD 0) 0 = some (reward, emissionChange)) :
    (run (pushBlockWithTransactions currency env now block []) s).1 = .ok true ∧
      ∃ entry, entry.bl = block ∧
        (run (pushBlockWithTransactions currency env now block []) s).2.blocks = s.blocks ++ [entry] := by
  obtain ⟨entry, hpush⟩ := pushTransaction_coinbase currency env hheader hnew
  simp only [pushBlockWithTransactions, run_bind, run_get, hheader]
  rw [hpush]
  simp only [pushBlockTransactions, List.zipIdx_nil, run_pure, hsize, Bool.not_true, Bool.false_eq_true,
    if_false, run_bind, run_get]
  simp only [validateMinerTransaction, getLastNBlocksSizes] at hreward ⊢
  rw [hreward]
  have hbl : entry.bl = block := pushTransaction_bl env hpush
  have hinputs : entry.bl.baseTransaction.inputs = [.base ⟨s.blocks.length.toUInt32⟩] := by
    rw [hbl]
    exact coinbase_inputs_of_headerDifficulty currency env hheader
  simp only
  refine ⟨(@acceptBlock_run currency env _ _ ⟨s.blocks.length.toUInt32⟩ [] ?_).1, _, ?_,
    (@acceptBlock_run currency env _ _ ⟨s.blocks.length.toUInt32⟩ [] ?_).2⟩
  · exact hinputs
  · exact hbl
  · exact hinputs

/-- A block that lists no transactions takes nothing from the pool and returns
nothing to it. -/
theorem pushBlock_of_transactionHashes_nil {now : UInt64} {block : Block} {s : Blockchain}
    (hnone : block.transactionHashes = []) :
    run (pushBlock currency env now block) s =
      run (pushBlockWithTransactions currency env now block []) s := by
  simp only [pushBlock, loadTransactions, hnone, loadTransactionsLoop, run_bind, run_pure]
  rcases hrun : run (pushBlockWithTransactions currency env now block []) s with ⟨_ | pushed, t⟩
  · rfl
  · cases pushed
    · simp [saveTransactions, addTransactionsBack]
    · simp

end Spec

/-! ## A chain to run on -/

/-- A genesis block: its coinbase, at height 0, pays one coin to the zero key
and unlocks after the mined-money window; it has the one empty signature list
that the codec gives a coinbase. -/
def sampleGenesis : Block :=
  { (default : Block) with
    nonce := 100
    previousBlockHash := nullHash
    baseTransaction := { (default : Transaction) with
      inputs := [.base ⟨0⟩]
      signatures := [[]]
      unlockTime := 60
      outputs := [⟨1, .key ⟨default⟩⟩] } }

/-- The parameters of {lit}`CryptoNoteConfig.h`, with no fusion transactions and
the genesis block above. -/
def sampleCurrency : Currency where
  maxBlockHeight := 500000000
  minedMoneyUnlockWindow := 60
  timestampCheckWindow := 60
  blockFutureTimeLimit := 60 * 60 * 2
  moneySupply := 10000000000000000
  emissionSpeedFactor := 18
  rewardBlocksWindow := 100
  blockGrantedFullRewardZone := 10000
  minerTxBlobReservedSize := 600
  fusionTxMaxSize := 10000 * 30 / 100
  minimumFee := 100
  defaultDustThreshold := 100
  difficultyTarget := 120
  difficultyWindow := 24 * 60 * 60 / 120
  difficultyLag := 15
  difficultyCut := 60
  maxBlockSizeInitial := 20 * 1024
  maxBlockSizeGrowthSpeedNumerator := 100 * 1024
  maxBlockSizeGrowthSpeedDenominator := 365 * 24 * 60 * 60 / 120
  lockedTxAllowedDeltaSeconds := 120
  lockedTxAllowedDeltaBlocks := 1
  mempoolTxLiveTime := 60 * 60 * 24
  mempoolTxFromAltBlockLiveTime := 60 * 60 * 24 * 7
  numberOfPeriodsToForgetTxDeletedFromPool := 7
  isFusionTransaction _ _ := false
  genesisBlock := sampleGenesis

/-- Hashes that tell blocks apart by their nonce and transactions by their unlock
time, a zero long hash, which meets every difficulty, and signatures that
verify. -/
def sampleEnv : ChainEnv where
  blockHash block := ⟨block.nonce.toUInt8 :: List.replicate 31 0, by simp⟩
  longHash _ := default
  transactionHash tx := ⟨tx.unlockTime.toUInt8 :: List.replicate 31 0, by simp⟩
  transactionPrefixHash _ := default
  checkRingSignature _ _ _ _ := true
  checkSignature _ _ _ := true

/-- A chain of one value-initialised block, with no checkpoints and an empty
pool. -/
def sampleChain : Blockchain :=
  { Blockchain.empty Checkpoints.empty TxMemoryPool.empty with
    blocks := [default]
    blockIndex := [sampleEnv.blockHash default] }

/-- The chain {lit}`init` builds for the sample currency: the genesis block
alone, its coinbase filed. -/
def sampleGenesisChain : Blockchain := genesisChain sampleCurrency sampleEnv .empty .empty 0

/-- A block at height 1 of {lit}`sampleGenesisChain` whose coinbase carries a
payment id, the zero hash in a nonce field, and zero padding after it, more
extra data than a block there may hold in all. -/
def oversizedBlock : Block :=
  { (default : Block) with
    nonce := 1
    previousBlockHash := sampleEnv.blockHash sampleGenesis
    baseTransaction := { (default : Transaction) with
      inputs := [.base ⟨1⟩]
      unlockTime := 61
      extra := 2 :: 33 :: List.replicate 20514 0 } }

/-- {lit}`oversizedBlock` passes the header checks of {lit}`sampleGenesisChain`'s
tail. -/
theorem headerDifficulty_oversizedBlock :
    headerDifficulty sampleCurrency sampleEnv 0 sampleGenesisChain oversizedBlock = some 1 := by
  decide +kernel

/-- Its coinbase alone is larger than a block at height 1 may be. -/
theorem checkCumulativeBlockSize_oversizedBlock :
    checkCumulativeBlockSize sampleCurrency oversizedBlock.baseTransaction.encode.length.toUInt64
      sampleGenesisChain.blocks.length.toUInt64 = false := by
  decide +kernel

/-! ## A block refused for its size -/

/-- A block of its coinbase alone that passes the header checks but is too large
for its height is refused, and its coinbase stays filed in the transaction map. -/
theorem pushBlockWithTransactions_refused_keeps_coinbase {now difficulty : UInt64}
    {s : Blockchain} {block : Block}
    (hheader : headerDifficulty currency env now s block = some difficulty)
    (hnew : env.transactionHash block.baseTransaction ∉ s.transactionMap)
    (hsize : checkCumulativeBlockSize currency block.baseTransaction.encode.length.toUInt64
      s.blocks.length.toUInt64 = false) :
    (StateExcept.run (pushBlockWithTransactions currency env now block []) s).1 = .ok false ∧
      env.transactionHash block.baseTransaction ∈
        (StateExcept.run (pushBlockWithTransactions currency env now block []) s).2.transactionMap := by
  obtain ⟨entry, hpush⟩ := pushTransaction_coinbase currency env hheader hnew
  rw [pushBlockWithTransactions_refused_for_size currency env hheader hpush hsize]
  simp [Finmap.mem_insert]


/-- On the chain {lit}`init` builds, {lit}`oversizedBlock` is refused for its size
and its coinbase stays filed. -/
theorem pushBlockWithTransactions_refused_keeps_coinbase_oversized :
    sampleEnv.transactionHash oversizedBlock.baseTransaction ∉ sampleGenesisChain.transactionMap ∧
    (StateExcept.run (pushBlockWithTransactions sampleCurrency sampleEnv 0 oversizedBlock [])
      sampleGenesisChain).1 = .ok false ∧
    sampleEnv.transactionHash oversizedBlock.baseTransaction ∈
      (StateExcept.run (pushBlockWithTransactions sampleCurrency sampleEnv 0 oversizedBlock [])
        sampleGenesisChain).2.transactionMap := by
  have hnew : sampleEnv.transactionHash oversizedBlock.baseTransaction ∉
      sampleGenesisChain.transactionMap := by
    decide +kernel
  exact ⟨hnew, pushBlockWithTransactions_refused_keeps_coinbase sampleCurrency sampleEnv
    headerDifficulty_oversizedBlock hnew checkCumulativeBlockSize_oversizedBlock⟩

end Blockchain

end CryptoNote

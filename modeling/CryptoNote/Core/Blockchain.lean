import Mathlib.Data.Finmap
import Mathlib.Data.List.Sort
import CryptoNote.Core.TxMemoryPool
import CryptoNote.Core.Checkpoints
import CryptoNote.Core.FormatUtils

/-!
# The chain's state and what it reads

The state of {lit}`Blockchain` in {lit}`blockchain.cpp`: the stored blocks, the
index of their hashes, the maps the chain keeps beside them (transaction hashes
to positions, spent key images, the key outputs and the multisignature outputs
of each amount), the alternative blocks, the explorer indices, the size limit,
the checkpoints and the transaction pool the chain takes transactions from and
returns them to.

This module holds what the chain computes without changing its state: the
queries on the main chain, the difficulty and timestamp tests, the checks of a
coinbase and of the reward, the check of a transaction's inputs against the
chain, and {lit}`rebuildCache`, which recomputes the maps from the blocks.

The cryptography is a parameter ({lit}`ChainEnv`): block hashes, long hashes,
transaction hashes and the signature checks are uninterpreted functions.  The
block store is read as the vector it stands for.  {lit}`m_is_in_checkpoint_zone`
is only ever set to false, so the ring signatures are always checked.  Reads of
a vector out of its range are undefined in C++; the model reads a default value
there, and the invariants of the maps keep such reads from happening.

Main results:

- Theorem {lit}`prevalidateMinerTransaction_iff`: what a coinbase must be for
  {lit}`prevalidate_miner_transaction`.
- Theorem {lit}`cacheView_rebuildCache_of_blocks_eq`: what {lit}`rebuildCache`
  recomputes depends on the blocks alone.
-/

namespace CryptoNote

/-- The cryptography the chain calls, as uninterpreted functions. -/
structure ChainEnv where
  /-- {lit}`Block::getHash`. -/
  blockHash : Block → Hash
  /-- {lit}`Block::getLongHash`, the proof-of-work hash of the block. -/
  longHash : Block → Hash
  /-- {lit}`BinaryArray::objectHash` of a transaction. -/
  transactionHash : Transaction → Hash
  /-- {lit}`BinaryArray::objectHash` of a transaction prefix. -/
  transactionPrefixHash : TransactionPrefix → Hash
  /-- {lit}`check_ring_signature`. -/
  checkRingSignature : Hash → KeyImage → List PublicKey → List Signature → Bool
  /-- {lit}`check_signature`. -/
  checkSignature : Hash → PublicKey → Signature → Bool

/-- {lit}`math::medianValue`: the middle of the sorted values, the mean of the two
middle ones for an even count, 0 for none. -/
def medianValue (values : List UInt64) : UInt64 :=
  match values with
  | [] => 0
  | [value] => value
  | _ =>
    let n := values.length / 2
    let sorted := values.mergeSort fun a b => decide (a ≤ b)
    if values.length % 2 = 1 then sorted.getD n 0
    else (sorted.getD (n - 1) 0 + sorted.getD n 0) / 2

/-- The sort of {lit}`medianValue` gives the values' one sorted arrangement. -/
theorem mergeSort_eq_of_pairwise {values sorted : List UInt64} (hperm : sorted.Perm values)
    (hsorted : sorted.Pairwise (· ≤ ·)) :
    values.mergeSort (fun a b => decide (a ≤ b)) = sorted :=
  List.Perm.eq_of_pairwise' (List.pairwise_mergeSort' (· ≤ ·) values) hsorted
    ((List.mergeSort_perm _ _).trans hperm.symm)

/-- What {lit}`medianValue` computes on a non-empty vector: the middle of the sorted
values for an odd count, and for an even count the mean of the two middle ones with
their sum taken modulo {lit}`2 ^ 64`, as the element type adds. -/
theorem medianValue_spec (values sorted : List UInt64) (hne : values ≠ [])
    (hperm : sorted.Perm values) (hsorted : sorted.Pairwise (· ≤ ·)) :
    (values.length % 2 = 1 → medianValue values = sorted.getD (values.length / 2) 0) ∧
    (values.length % 2 = 0 →
      (medianValue values).toNat =
        ((sorted.getD (values.length / 2 - 1) 0).toNat + (sorted.getD (values.length / 2) 0).toNat) %
          2 ^ 64 / 2) := by
  match values, hne, hperm with
  | [value], _, hperm =>
    rw [List.perm_singleton.mp hperm]
    exact ⟨fun _ => by simp [medianValue], fun h => by simp at h⟩
  | a :: b :: rest, _, hperm =>
    unfold medianValue
    rw [mergeSort_eq_of_pairwise hperm hsorted]
    refine ⟨fun hodd => if_pos hodd, fun heven => ?_⟩
    rw [if_neg (by omega), UInt64.toNat_div, UInt64.toNat_add]
    rfl

/-- Two values at the top of the range: their sum wraps, and the "median" falls below
both. -/
theorem medianValue_wraps_all_ones :
    (medianValue [0xFFFFFFFFFFFFFFFF, 0xFFFFFFFFFFFFFFFF]).toNat = 2 ^ 63 - 1 := by
  rw [(medianValue_spec [0xFFFFFFFFFFFFFFFF, 0xFFFFFFFFFFFFFFFF]
    [0xFFFFFFFFFFFFFFFF, 0xFFFFFFFFFFFFFFFF] (by simp) (List.Perm.refl _) (by simp)).2 rfl]
  rfl

/-- {lit}`get_block_height`: the height the coinbase names, or 0 when the coinbase
does not have exactly one base input. -/
def getBlockHeight (block : Block) : UInt32 :=
  match block.baseTransaction.inputs with
  | [.base input] => input.blockIndex
  | _ => 0

/-- {lit}`check_outs_overflow`: the output amounts add up without wrapping. -/
def checkOutsOverflow (tx : TransactionPrefix) : Bool :=
  go 0 tx.outputs
where
  go (money : UInt64) : List TransactionOutput → Bool
    | [] => true
    | output :: outputs =>
      if money > output.amount + money then false else go (money + output.amount) outputs

/-- {lit}`checkMultisignatureInputsDiff`: no two multisignature inputs spend the same
output. -/
def checkMultisignatureInputsDiff (tx : TransactionPrefix) : Bool :=
  go ∅ tx.inputs
where
  go (usage : Finset (UInt64 × UInt32)) : List TransactionInput → Bool
    | [] => true
    | .multisignature input :: inputs =>
      if (input.amount, input.outputIndex) ∈ usage then false
      else go (insert (input.amount, input.outputIndex) usage) inputs
    | _ :: inputs => go usage inputs

/-- {lit}`Block::checkProofOfWork`: the long hash meets the difficulty. -/
def checkProofOfWork (env : ChainEnv) (block : Block) (difficulty : UInt64) : Bool :=
  Difficulty.checkHash (env.longHash block) difficulty

/-! ## Maps with a vector per amount -/

/-- A map from an amount to a vector, as {lit}`sparse_hash_map` holds the outputs of
each amount. -/
abbrev AmountMap (α : Type) := Finmap fun _ : UInt64 => List α

/-- {lit}`map[amount]`: the vector of the amount, created empty when missing. -/
def AmountMap.get {α : Type} (m : AmountMap α) (amount : UInt64) : List α :=
  (m.lookup amount).getD []

/-- Set {lit}`isUsed` of the multisignature output that each multisignature input
names, through {lit}`map[amount][outputIndex]`: the vector of the amount is
created when missing, and an index past its end changes nothing. -/
def markMultisignatureInputs (used : Bool) :
    List TransactionInput → AmountMap MultisignatureOutputUsage → AmountMap MultisignatureOutputUsage
  | [], outputs => outputs
  | .multisignature input :: inputs, outputs =>
    let usages := (outputs.get input.amount).modify input.outputIndex.toNat
      fun usage => { usage with isUsed := used }
    markMultisignatureInputs used inputs (outputs.insert input.amount usages)
  | _ :: inputs, outputs => markMultisignatureInputs used inputs outputs

/-- The outputs loop of {lit}`pushTransaction` and {lit}`rebuildCache`: each key
output is appended to the vector of its amount, each multisignature output to
the multisignature vector of its amount, unused; the global index of an output
is the length of its vector before the append. -/
def addTransactionOutputs (transactionIndex : TransactionIndex) :
    Nat → List TransactionOutput → AmountMap (TransactionIndex × UInt16) →
      AmountMap MultisignatureOutputUsage →
        AmountMap (TransactionIndex × UInt16) × AmountMap MultisignatureOutputUsage × List UInt32
  | _, [], keyOutputs, multisignatureOutputs => (keyOutputs, multisignatureOutputs, [])
  | position, output :: outputs, keyOutputs, multisignatureOutputs =>
    match output.target with
    | .key _ =>
      let amountOutputs := keyOutputs.get output.amount
      let keyOutputs := keyOutputs.insert output.amount
        (amountOutputs ++ [(transactionIndex, position.toUInt16)])
      let (keyOutputs, multisignatureOutputs, indexes) :=
        addTransactionOutputs transactionIndex (position + 1) outputs keyOutputs multisignatureOutputs
      (keyOutputs, multisignatureOutputs, amountOutputs.length.toUInt32 :: indexes)
    | .multisignature _ =>
      let amountOutputs := multisignatureOutputs.get output.amount
      let multisignatureOutputs := multisignatureOutputs.insert output.amount
        (amountOutputs ++ [⟨transactionIndex, position.toUInt16, false⟩])
      let (keyOutputs, multisignatureOutputs, indexes) :=
        addTransactionOutputs transactionIndex (position + 1) outputs keyOutputs multisignatureOutputs
      (keyOutputs, multisignatureOutputs, amountOutputs.length.toUInt32 :: indexes)

/-- The key images of the key inputs of a transaction. -/
def keyImages (inputs : List TransactionInput) : List KeyImage :=
  inputs.filterMap fun
    | .key input => some input.keyImage
    | _ => none

/-! ## The state -/

/-- The state of {lit}`Blockchain`, with the pool its reference names. -/
structure Blockchain where
  /-- {lit}`m_blocks`. -/
  blocks : List BlockEntry
  /-- {lit}`m_blockIndex`: the hashes of the blocks, unique. -/
  blockIndex : List Hash
  /-- {lit}`m_transactionMap`. -/
  transactionMap : Finmap fun _ : Hash => TransactionIndex
  /-- {lit}`m_spent_keys`. -/
  spentKeys : Finset KeyImage
  /-- {lit}`m_outputs`: the key outputs of each amount, as (transaction, output). -/
  outputs : AmountMap (TransactionIndex × UInt16)
  /-- {lit}`m_multisignatureOutputs`. -/
  multisignatureOutputs : AmountMap MultisignatureOutputUsage
  /-- {lit}`m_alternative_chains`. -/
  alternativeChains : Finmap fun _ : Hash => BlockEntry
  /-- {lit}`m_paymentIdIndex`. -/
  paymentIdIndex : PaymentIdIndex
  /-- {lit}`m_timestampIndex`. -/
  timestampIndex : TimestampBlocksIndex
  /-- {lit}`m_generatedTransactionsIndex`. -/
  generatedTransactionsIndex : GeneratedTransactionsIndex
  /-- {lit}`m_orthanBlocksIndex`. -/
  orphanBlocksIndex : OrphanBlocksIndex
  /-- {lit}`m_current_block_cumul_sz_limit`. -/
  currentBlockCumulSizeLimit : UInt64
  /-- {lit}`m_checkpoints`. -/
  checkpoints : Checkpoints
  /-- {lit}`m_tx_pool`. -/
  pool : TxMemoryPool

/-- A computation of the chain: a result or the exception it throws, and the state
it leaves, which an exception does not roll back. -/
abbrev ChainM := ExceptT String (StateM Blockchain)

namespace Blockchain

/-- The state the constructor leaves, before {lit}`init`: no blocks, the given
checkpoints and pool. -/
def empty (checkpoints : Checkpoints) (pool : TxMemoryPool) : Blockchain :=
  { blocks := [], blockIndex := [], transactionMap := ∅, spentKeys := ∅, outputs := ∅,
    multisignatureOutputs := ∅, alternativeChains := ∅, paymentIdIndex := .empty,
    timestampIndex := .empty, generatedTransactionsIndex := .empty,
    orphanBlocksIndex := .empty, currentBlockCumulSizeLimit := 0, checkpoints, pool }

/-! ## Queries -/

/-- {lit}`getHeight`: the number of blocks, as a {lit}`uint32_t`. -/
def getHeight (s : Blockchain) : UInt32 := s.blocks.length.toUInt32

/-- {lit}`getTailId`: the hash of the last block, or the null hash. -/
def getTailId (s : Blockchain) : Hash :=
  if s.blocks.isEmpty then nullHash else s.blockIndex.getLastD nullHash

/-- {lit}`haveBlock`: the hash is in the main chain or among the alternatives. -/
def haveBlock (s : Blockchain) (id : Hash) : Bool :=
  id ∈ s.blockIndex || id ∈ s.alternativeChains

/-- {lit}`BlockIndex::getBlockHeight`: the position of the hash in the main chain. -/
def getBlockHeight (s : Blockchain) (id : Hash) : Option UInt32 :=
  (s.blockIndex.idxOf? id).map Nat.toUInt32

/-- {lit}`BlockIndex::push`: a hash already present is refused. -/
def pushBlockIndex (blockIndex : List Hash) (hash : Hash) : List Hash :=
  if hash ∈ blockIndex then blockIndex else blockIndex ++ [hash]

/-- {lit}`transactionByIndex`. -/
def transactionByIndex (s : Blockchain) (index : TransactionIndex) : TransactionEntry :=
  (s.blocks.getD index.block.toNat default).transactions.getD index.transaction.toNat default

variable (currency : Currency) (env : ChainEnv)

/-- {lit}`getDifficultyForNextBlock`: the difficulty from the last
{lit}`difficultyBlocksCount` blocks, the genesis block left out. -/
def getDifficultyForNextBlock (s : Blockchain) : UInt64 :=
  let size := s.blocks.length
  let offset := size - min size currency.difficultyBlocksCount.toNat
  let offset := if offset = 0 then 1 else offset
  let window := s.blocks.drop offset
  currency.nextDifficulty (window.map fun block => block.bl.timestamp)
    (window.map BlockEntry.cumulativeDifficulty)

/-- {lit}`check_block_timestamp`: with a full window, the block is not older than
the median. -/
def checkBlockTimestamp (timestamps : List UInt64) (block : Block) : Bool :=
  if timestamps.length < currency.timestampCheckWindow.toNat then true
  else !(block.timestamp < medianValue timestamps)

/-- {lit}`check_block_timestamp_main`: not too far in the future, and not older
than the median of the last {lit}`timestampCheckWindow` blocks. -/
def checkBlockTimestampMain (now : UInt64) (s : Blockchain) (block : Block) : Bool :=
  if block.timestamp > now + currency.blockFutureTimeLimit then false
  else
    let size := s.blocks.length
    let offset := if size ≤ currency.timestampCheckWindow.toNat then 0
      else size - currency.timestampCheckWindow.toNat
    checkBlockTimestamp currency ((s.blocks.drop offset).map fun block => block.bl.timestamp) block

/-- {lit}`prevalidate_miner_transaction`: one base input naming the height, the
unlock time of the mined-money window, and outputs that do not overflow. -/
def prevalidateMinerTransaction (block : Block) (height : UInt32) : Bool :=
  match block.baseTransaction.inputs with
  | [.base input] =>
    input.blockIndex = height &&
      block.baseTransaction.unlockTime = height.toUInt64 + currency.minedMoneyUnlockWindow &&
      checkOutsOverflow block.baseTransaction.toTransactionPrefix
  | _ => false

/-- The coinbase passes prevalidation exactly when its one input is the base input
of the block's height, it unlocks after the mined-money window, and its outputs
do not overflow. -/
theorem prevalidateMinerTransaction_iff (block : Block) (height : UInt32) :
    prevalidateMinerTransaction currency block height = true ↔
      block.baseTransaction.inputs = [.base ⟨height⟩] ∧
        block.baseTransaction.unlockTime = height.toUInt64 + currency.minedMoneyUnlockWindow ∧
        checkOutsOverflow block.baseTransaction.toTransactionPrefix = true := by
  unfold prevalidateMinerTransaction
  split
  · rename_i input hinputs
    rw [hinputs]
    cases input with
    | mk blockIndex => simp [and_assoc]
  · rename_i hinputs
    simp only [Bool.false_eq_true, false_iff, not_and]
    intro heq
    exact absurd heq (hinputs _)

/-- {lit}`get_last_n_blocks_sizes`: the cumulative sizes of the last {lit}`count`
blocks. -/
def getLastNBlocksSizes (s : Blockchain) (count : UInt64) : List UInt64 :=
  (s.blocks.drop (s.blocks.length - min s.blocks.length count.toNat)).map
    BlockEntry.blockCumulativeSize

/-- {lit}`validate_miner_transaction`: the coinbase pays exactly the reward of a
block of the size, with the fees; the reward and the emission change. -/
def validateMinerTransaction (s : Blockchain) (block : Block) (cumulativeBlockSize : UInt64)
    (alreadyGeneratedCoins fee : UInt64) : Option (UInt64 × UInt64) :=
  let minerReward := block.baseTransaction.outputs.foldl (fun reward output => reward + output.amount) 0
  let blocksSizeMedian := medianValue (s.getLastNBlocksSizes currency.rewardBlocksWindow)
  match currency.getBlockReward blocksSizeMedian cumulativeBlockSize alreadyGeneratedCoins fee with
  | none => none
  | some (reward, emissionChange) =>
    if minerReward ≠ reward then none else some (reward, emissionChange)

/-- {lit}`checkCumulativeBlockSize`. -/
def checkCumulativeBlockSize (cumulativeBlockSize height : UInt64) : Bool :=
  !(cumulativeBlockSize > currency.maxBlockCumulativeSize height)

/-- {lit}`update_next_comulative_size_limit`: twice the median size of the last
blocks, and at least twice the zone granted the full reward. -/
def updateNextComulativeSizeLimit (s : Blockchain) : Blockchain :=
  let median := medianValue (s.getLastNBlocksSizes currency.rewardBlocksWindow)
  let median := if median ≤ currency.blockGrantedFullRewardZone then
    currency.blockGrantedFullRewardZone else median
  { s with currentBlockCumulSizeLimit := median * 2 }

/-- {lit}`checkTransactionSize`. -/
def checkTransactionSize (s : Blockchain) (blobSize : UInt64) : Bool :=
  !(blobSize > s.currentBlockCumulSizeLimit - currency.minerTxBlobReservedSize)

/-- {lit}`is_tx_spendtime_unlocked`: an unlock time below the block limit is a
height, otherwise a time. -/
def isTxSpendtimeUnlocked (now : UInt64) (s : Blockchain) (unlockTime : UInt64) : Bool :=
  if unlockTime < currency.maxBlockHeight then
    (s.getHeight - 1).toUInt64 + currency.lockedTxAllowedDeltaBlocks ≥ unlockTime
  else now + currency.lockedTxAllowedDeltaSeconds ≥ unlockTime

/-! ## Checking a transaction's inputs -/

/-- The loop of {lit}`scanOutputKeysForIndexes` with the visitor of
{lit}`check_tx_input`: the key of each output the absolute offsets name, each
unlocked and a key output, and the block of the last one. -/
def scanOutputKeys (now : UInt64) (s : Blockchain)
    (amountOutputs : List (TransactionIndex × UInt16)) :
    List UInt32 → Option (List PublicKey × UInt32)
  | [] => some ([], 0)
  | offset :: offsets =>
    match amountOutputs[offset.toNat]? with
    | none => none
    | some (transactionIndex, outputIndex) =>
      let tx := (s.transactionByIndex transactionIndex).tx
      match tx.outputs[outputIndex.toNat]? with
      | none => none
      | some output =>
        if !isTxSpendtimeUnlocked currency now s tx.unlockTime then none
        else
          match output.target with
          | .key key =>
            (scanOutputKeys now s amountOutputs offsets).map fun (keys, lastBlock) =>
              (key.key :: keys, if offsets.isEmpty then transactionIndex.block else lastBlock)
          | .multisignature _ => none

/-- {lit}`check_tx_input`: the ring of the input exists, is unlocked and is
signed; on success the block of its last member. -/
def checkTxInput (now : UInt64) (s : Blockchain) (input : KeyInput) (prefixHash : Hash)
    (signatures : List Signature) : Option UInt32 :=
  match s.outputs.lookup input.amount with
  | none => none
  | some amountOutputs =>
    if input.outputIndexes.isEmpty then none
    else
      match scanOutputKeys currency now s amountOutputs
          (relativeOutputOffsetsToAbsolute input.outputIndexes) with
      | none => none
      | some (keys, lastBlock) =>
        if input.outputIndexes.length ≠ keys.length then none
        else if signatures.length ≠ keys.length then none
        else if env.checkRingSignature prefixHash input.keyImage keys signatures then some lastBlock
        else none

/-- The signature loop of {lit}`validateInput`: walk the output's keys, taking
the next signature whenever it verifies under the current key, until all
required signatures are taken. -/
def checkMultisignature (prefixHash : Hash) (signatures : List Signature) :
    Nat → Nat → List PublicKey → Bool
  | 0, _, _ => true
  | _ + 1, _, [] => false
  | required + 1, signatureIndex, key :: keys =>
    if env.checkSignature prefixHash key (signatures.getD signatureIndex default) then
      checkMultisignature prefixHash signatures required (signatureIndex + 1) keys
    else checkMultisignature prefixHash signatures (required + 1) signatureIndex keys

/-- {lit}`validateInput` for a multisignature input: the output exists, is
unused and unlocked, asks for as many signatures as the input gives, and they
verify in order against its keys.  A usage naming an output that is not a
multisignature one is refused, where {lit}`boost::get` would throw; the chain
files only multisignature outputs as usages. -/
def validateInput (now : UInt64) (s : Blockchain) (input : MultiSignatureInput) (prefixHash : Hash)
    (signatures : List Signature) : Bool :=
  match s.multisignatureOutputs.lookup input.amount with
  | none => false
  | some amountOutputs =>
    match amountOutputs[input.outputIndex.toNat]? with
    | none => false
    | some usage =>
      if usage.isUsed then false
      else
        let outputTransaction := (s.transactionByIndex usage.transactionIndex).tx
        if !isTxSpendtimeUnlocked currency now s outputTransaction.unlockTime then false
        else
          match (outputTransaction.outputs.getD usage.outputIndex.toNat default).target with
          | .multisignature output =>
            input.signatureCount = output.requiredSignatureCount &&
              checkMultisignature env prefixHash signatures input.signatureCount.toNat 0 output.keys
          | .key _ => false

/-- The input loop of {lit}`checkTransactionInputs(tx, prefixHash, pmax)`: the
highest block a key input's ring ends in, or failure. -/
def checkInputs (now : UInt64) (s : Blockchain) (tx : Transaction) (prefixHash : Hash) :
    Nat → UInt32 → List TransactionInput → Option UInt32
  | _, maxUsedBlock, [] => some maxUsedBlock
  | inputIndex, maxUsedBlock, .key input :: inputs =>
    if input.outputIndexes.isEmpty then none
    else if input.keyImage ∈ s.spentKeys then none
    else
      match checkTxInput currency env now s input prefixHash (tx.signatures.getD inputIndex []) with
      | none => none
      | some lastBlock =>
        checkInputs now s tx prefixHash (inputIndex + 1) (max maxUsedBlock lastBlock) inputs
  | inputIndex, maxUsedBlock, .multisignature input :: inputs =>
    if validateInput currency env now s input prefixHash (tx.signatures.getD inputIndex []) then
      checkInputs now s tx prefixHash (inputIndex + 1) maxUsedBlock inputs
    else none
  | _, _, .base _ :: _ => none

/-- {lit}`checkTransactionInputs(tx, pmax)`: every input is a key input with an
unspent image and a valid ring, or a valid multisignature input; on success the
highest block the rings use. -/
def checkTransactionInputs (now : UInt64) (s : Blockchain) (tx : Transaction) : Option UInt32 :=
  checkInputs currency env now s tx (env.transactionPrefixHash tx.toTransactionPrefix) 0 0 tx.inputs

/-- {lit}`checkTransactionInputs(tx, maxUsedBlock)`, as the pool calls it: the
highest block used, named by height and hash. -/
def checkTransactionInputsInfo (now : UInt64) (s : Blockchain) (tx : Transaction) :
    Option BlockInfo :=
  match checkTransactionInputs currency env now s tx with
  | none => none
  | some height =>
    if height.toNat < s.blocks.length then
      some ⟨height, env.blockHash (s.blocks.getD height.toNat default).bl⟩
    else none

/-- The chain as the pool's {lit}`ITransactionValidator`. -/
def validator (now : UInt64) (s : Blockchain) : TransactionValidator :=
  ⟨checkTransactionInputsInfo currency env now s, checkTransactionSize currency s⟩

/-! ## Recomputing the maps -/

/-- The body of the transaction loop of {lit}`rebuildCache`. -/
def rebuildTransaction (s : Blockchain) (transactionIndex : TransactionIndex)
    (transaction : TransactionEntry) : Blockchain :=
  let transactionHash := env.transactionHash transaction.tx
  let transactionMap := if transactionHash ∈ s.transactionMap then s.transactionMap
    else s.transactionMap.insert transactionHash transactionIndex
  let spentKeys := s.spentKeys ∪ (keyImages transaction.tx.inputs).toFinset
  let multisignatureOutputs :=
    markMultisignatureInputs true transaction.tx.inputs s.multisignatureOutputs
  let (outputs, multisignatureOutputs, _) :=
    addTransactionOutputs transactionIndex 0 transaction.tx.outputs s.outputs multisignatureOutputs
  { s with transactionMap, spentKeys, outputs, multisignatureOutputs }

/-- The body of the block loop of {lit}`rebuildCache`. -/
def rebuildBlock (s : Blockchain) (block : BlockEntry) (height : Nat) : Blockchain :=
  let s := { s with blockIndex := pushBlockIndex s.blockIndex (env.blockHash block.bl) }
  block.transactions.zipIdx.foldl
    (fun s (transaction, position) =>
      rebuildTransaction env s ⟨height.toUInt32, position.toUInt16⟩ transaction)
    s

/-- {lit}`rebuildCache`: the block index and the four maps recomputed from the
blocks. -/
def rebuildCache (s : Blockchain) : Blockchain :=
  let s := { s with
    blockIndex := [], transactionMap := ∅, spentKeys := ∅, outputs := ∅,
    multisignatureOutputs := ∅ }
  s.blocks.zipIdx.foldl (fun s (block, height) => rebuildBlock env s block height) s

/-- The part of the state {lit}`rebuildCache` recomputes. -/
def cacheView (s : Blockchain) :
    List Hash × (Finmap fun _ : Hash => TransactionIndex) × Finset KeyImage ×
      AmountMap (TransactionIndex × UInt16) × AmountMap MultisignatureOutputUsage :=
  (s.blockIndex, s.transactionMap, s.spentKeys, s.outputs, s.multisignatureOutputs)

/-- One transaction of the rebuild reads nothing but the recomputed part. -/
theorem cacheView_rebuildTransaction {s t : Blockchain} (h : s.cacheView = t.cacheView)
    (transactionIndex : TransactionIndex) (transaction : TransactionEntry) :
    (rebuildTransaction env s transactionIndex transaction).cacheView =
      (rebuildTransaction env t transactionIndex transaction).cacheView := by
  simp only [cacheView, Prod.mk.injEq] at h
  obtain ⟨hindex, hmap, hkeys, houtputs, hmultisignature⟩ := h
  simp [rebuildTransaction, cacheView, hindex, hmap, hkeys, houtputs, hmultisignature]

/-- A fold whose step depends only on the recomputed part keeps two states that
agree on it in agreement. -/
theorem cacheView_foldl {α : Type} {f : Blockchain → α → Blockchain}
    (hf : ∀ s t a, s.cacheView = t.cacheView → (f s a).cacheView = (f t a).cacheView)
    (l : List α) {s t : Blockchain} (h : s.cacheView = t.cacheView) :
    (l.foldl f s).cacheView = (l.foldl f t).cacheView := by
  induction l generalizing s t with
  | nil => exact h
  | cons a l ih => exact ih (hf s t a h)

/-- One block of the rebuild reads nothing but the recomputed part. -/
theorem cacheView_rebuildBlock {s t : Blockchain} (h : s.cacheView = t.cacheView)
    (block : BlockEntry) (height : Nat) :
    (rebuildBlock env s block height).cacheView = (rebuildBlock env t block height).cacheView := by
  unfold rebuildBlock
  refine cacheView_foldl (fun s t transaction hst => ?_) _ ?_
  · obtain ⟨transaction, position⟩ := transaction
    exact cacheView_rebuildTransaction env hst _ _
  · simp only [cacheView, Prod.mk.injEq] at h ⊢
    simp [h]

/-- {lit}`rebuildCache` reads nothing but the blocks. -/
theorem cacheView_rebuildCache_of_blocks_eq {s t : Blockchain} (h : s.blocks = t.blocks) :
    (rebuildCache env s).cacheView = (rebuildCache env t).cacheView := by
  unfold rebuildCache
  dsimp only
  rw [h]
  refine cacheView_foldl (fun s t block hst => ?_) _ rfl
  obtain ⟨block, height⟩ := block
  exact cacheView_rebuildBlock env hst _ _

/-- The state with the recomputed part emptied, as {lit}`rebuildCache` starts
from it. -/
def clearCache (s : Blockchain) : Blockchain :=
  { s with
    blockIndex := [], transactionMap := ∅, spentKeys := ∅, outputs := ∅,
    multisignatureOutputs := ∅ }

/-- A state is its recomputed part and the rest. -/
theorem eq_of_clearCache_of_cacheView {s t : Blockchain} (hclear : s.clearCache = t.clearCache)
    (hview : s.cacheView = t.cacheView) : s = t := by
  cases s
  cases t
  simp only [clearCache, mk.injEq, true_and] at hclear
  simp only [cacheView, Prod.mk.injEq] at hview
  simp [hclear, hview]

/-- A fold whose step writes only the recomputed part keeps the rest. -/
theorem clearCache_foldl {α : Type} {f : Blockchain → α → Blockchain}
    (hf : ∀ s a, (f s a).clearCache = s.clearCache) (l : List α) (s : Blockchain) :
    (l.foldl f s).clearCache = s.clearCache := by
  induction l generalizing s with
  | nil => rfl
  | cons a l ih => rw [List.foldl_cons, ih, hf]

/-- {lit}`rebuildCache` writes only the part it recomputes. -/
theorem clearCache_rebuildCache (s : Blockchain) :
    (rebuildCache env s).clearCache = s.clearCache := by
  unfold rebuildCache
  refine (clearCache_foldl (fun s block => ?_) _ _).trans rfl
  obtain ⟨block, height⟩ := block
  show (rebuildBlock env s block height).clearCache = s.clearCache
  unfold rebuildBlock
  refine (clearCache_foldl (fun s entry => ?_) _ _).trans rfl
  obtain ⟨transaction, position⟩ := entry
  rfl

/-- The caches of a state agree with its blocks when rebuilding them gives the
recomputed part back. -/
theorem rebuildCache_eq_self {s : Blockchain} (h : (rebuildCache env s).cacheView = s.cacheView) :
    rebuildCache env s = s :=
  eq_of_clearCache_of_cacheView (clearCache_rebuildCache env s) h

end Blockchain

end CryptoNote

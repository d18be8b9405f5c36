import CryptoNote.Core.BlockIndex
import CryptoNote.Core.BlockchainPush
import CryptoNote.Lib.LowerBound

/-!
# Answering a wallet's query for blocks

A wallet asks its node for the blocks it lacks with a short history of the ids
it holds, the genesis id last, and the time from which it wants whole blocks
({lit}`core::queryBlocksLite` in src/cryptonote/core/core.cpp).  The node
answers from the height of the first id of the history its main chain holds
({lit}`findStartAndFullOffsets`): first the bare ids of the blocks before the
first one stamped at most {lit}`blockFutureTimeLimit` seconds before the
wallet's time, found by {lit}`std::lower_bound` over the unsorted timestamps
({lit}`Blockchain::getLowerBound`), at most {lit}`10000` of them; then up to
{lit}`200` blocks from there, each with its transactions when it is stamped at
or after the wallet's time.

A block travels to the wallet as the bytes {lit}`BinaryArray::to` makes of it
and is parsed back with {lit}`BinaryArray::from`, which returns it
({lit}`Serialization.Format`); the model hands over the block itself.

Main results:

- Theorem {lit}`findStartAndFullOffsets_eq`: on a chain whose genesis id ends
  the history, the start is the height of the first known id and the full
  offset lies between it and the top of the chain.
- Theorem {lit}`queryBlocksLite_window`: where the index holds the hashes of
  the blocks, the ids the node answers are the main-chain ids from the start
  height on, at least {lit}`200` of them up to the chain's top and at most
  {lit}`10000`.
-/

namespace CryptoNote

namespace Blockchain

/-- {lit}`BLOCKS_SYNCHRONIZING_DEFAULT_COUNT`. -/
def blocksSynchronizingDefaultCount : Nat := 200

@[simp] theorem blocksSynchronizingDefaultCount_eq : blocksSynchronizingDefaultCount = 200 := rfl

@[simp] theorem toNat_blocksIdsSynchronizingDefaultCount :
    blocksIdsSynchronizingDefaultCount.toNat = 10000 := rfl

/-- {lit}`Blockchain::getLowerBound`: the height of the first block from
{lit}`startOffset` on that {lit}`std::lower_bound` finds not stamped before
{lit}`timestamp - blockFutureTimeLimit`, a difference of {lit}`uint64_t`;
{lit}`none` when the search reaches the end. -/
def getLowerBound (currency : Currency) (s : Blockchain) (timestamp startOffset : UInt64) :
    Option UInt32 :=
  let value := timestamp - currency.blockFutureTimeLimit
  let bound := Search.lowerBound (fun i => decide ((s.blocks.getD i default).bl.timestamp < value))
    startOffset.toNat (s.blocks.length - startOffset.toNat)
  if bound = s.blocks.length then none else some (UInt32.ofNat bound)

/-- {lit}`Blockchain::getBlocks(start_offset, count, blocks)`: false past the
end; otherwise the blocks from {lit}`start_offset` below
{lit}`start_offset + count`, summed as {lit}`uint32_t`, and below the end. -/
def getBlocks (s : Blockchain) (startOffset count : UInt32) : Option (List Block) :=
  if s.blocks.length ≤ startOffset.toNat then none
  else
    some (((s.blocks.drop startOffset.toNat).take
      ((startOffset + count).toNat - startOffset.toNat)).map (·.bl))

/-- {lit}`Blockchain::getBlockIds`. -/
def getBlockIds (s : Blockchain) (startHeight maxCount : UInt32) : List Hash :=
  BlockIndex.getBlockIds s.blockIndex startHeight maxCount

/-- {lit}`getBlockchainTransactions`: the transactions the chain holds, and the
ids it misses, each in the order asked. -/
def getBlockchainTransactions (s : Blockchain) (ids : List Hash) :
    List Transaction × List Hash :=
  ids.foldl (fun acc id =>
    match s.transactionMap.lookup id with
    | none => (acc.1, acc.2 ++ [id])
    | some index => (acc.1 ++ [(s.transactionByIndex index).tx], acc.2)) ([], [])

end Blockchain

namespace Core

open Blockchain

/-- {lit}`block_short_info_t`: the block's id, the block when it is sent whole,
and the prefix and hash of each of its transactions. -/
structure BlockShortInfo where
  blockId : Hash
  block : Option Block
  txPrefixes : List (TransactionPrefix × Hash)

/-- The out-parameters of {lit}`queryBlocksLite`. -/
structure QueryBlocksResult where
  startHeight : UInt32
  currentHeight : UInt32
  fullOffset : UInt32
  entries : List BlockShortInfo

variable (currency : Currency) (env : ChainEnv)

/-- {lit}`core::findStartAndFullOffsets`: an empty history, or one that does not
end with the genesis id, is refused; the start is where the chain's supplement
begins, the full offset is the lower bound of the wallet's time from there, or
the start when there is none.  A chain without the first known id fails the
source's assertion, {lit}`none` here. -/
def findStartAndFullOffsets (s : Blockchain) (knownBlockIds : List Hash) (timestamp : UInt64) :
    Option (UInt32 × UInt32) :=
  match knownBlockIds.getLast? with
  | none => none
  | some last =>
    if last ≠ s.blockIndex.getD 0 default then none
    else
      (s.findBlockchainSupplement knownBlockIds).map fun startOffset =>
        (startOffset, (s.getLowerBound currency timestamp startOffset.toUInt64).getD startOffset)

/-- {lit}`core::findIdsForShortBlocks`: the ids from the start below the full
offset, at most {lit}`10000` of them. -/
def findIdsForShortBlocks (s : Blockchain) (startOffset startFullOffset : UInt32) : List Hash :=
  if startOffset < startFullOffset then
    s.getBlockIds startOffset (min blocksIdsSynchronizingDefaultCount (startFullOffset - startOffset))
  else []

/-- The entry of a block sent from the full offset on: its hash, and the block
with its transactions when it is stamped at or after the wallet's time. -/
def fullBlockInfo (s : Blockchain) (timestamp : UInt64) (b : Block) : BlockShortInfo :=
  if timestamp ≤ b.timestamp then
    { blockId := env.blockHash b, block := some b,
      txPrefixes := (s.getBlockchainTransactions b.transactionHashes).1.map fun tx =>
        (tx.toTransactionPrefix, env.transactionHash tx) }
  else { blockId := env.blockHash b, block := none, txPrefixes := [] }

/-- {lit}`core::queryBlocksLite`: the bare ids before the full offset, then as
many blocks from there as the ids leave room for, at most {lit}`200`; the
failure of {lit}`getBlocks` past the end is ignored. -/
def queryBlocksLite (s : Blockchain) (knownBlockIds : List Hash) (timestamp : UInt64) :
    Option QueryBlocksResult :=
  (findStartAndFullOffsets currency s knownBlockIds timestamp).map fun offsets =>
    let entries := (findIdsForShortBlocks s offsets.1 offsets.2).map fun blockId =>
      { blockId, block := none, txPrefixes := [] }
    let blocksLeft :=
      min (blocksIdsSynchronizingDefaultCount.toNat - entries.length) blocksSynchronizingDefaultCount
    if blocksLeft = 0 then
      { startHeight := offsets.1, currentHeight := s.getHeight, fullOffset := offsets.2, entries }
    else
      let blocks := (s.getBlocks offsets.2 (UInt32.ofNat blocksLeft)).getD []
      { startHeight := offsets.1, currentHeight := s.getHeight, fullOffset := offsets.2,
        entries := entries ++ blocks.map (fullBlockInfo env s timestamp) }

/-! ## The offsets -/

section Offsets

variable {s : Blockchain}

/-- An index that holds the hashes of the blocks has one id per block. -/
theorem length_blockIndex_of_eq {f : BlockEntry → Hash} (hindex : s.blockIndex = s.blocks.map f) :
    s.blockIndex.length = s.blocks.length := by
  rw [hindex, List.length_map]

/-- A height the supplement search reports is the position of an id of the
index. -/
theorem toNat_lt_of_findSupplement {ids : List Hash} {start : UInt32}
    (h : BlockIndex.findSupplement s.blockIndex ids = some start)
    (hlength : s.blockIndex.length < 2 ^ 32) : start.toNat < s.blockIndex.length := by
  obtain ⟨x, _, hx⟩ := List.exists_of_findSome?_eq_some h
  simp only [BlockIndex.getBlockHeight, Option.map_eq_some_iff] at hx
  obtain ⟨i, hidx, rfl⟩ := hx
  have hi := (List.idxOf?_eq_some_iff.mp hidx).1
  rw [Nat.toUInt32_eq, UInt32.toNat_ofNat', Nat.mod_eq_of_lt (by omega)]
  exact hi

/-- A history holding an id of the index finds a height. -/
theorem findSupplement_isSome {ids : List Hash} {x : Hash} (hx : x ∈ ids)
    (hindex : x ∈ s.blockIndex) : (BlockIndex.findSupplement s.blockIndex ids).isSome := by
  rw [BlockIndex.findSupplement, List.findSome?_isSome_iff]
  refine ⟨x, hx, ?_⟩
  simp [BlockIndex.getBlockHeight, List.isSome_idxOf?, hindex]

/-- The lower bound lies between its start and the top of the chain. -/
theorem getLowerBound_mem {timestamp startOffset : UInt64} {bound : UInt32}
    (h : s.getLowerBound currency timestamp startOffset = some bound)
    (hstart : startOffset.toNat < s.blocks.length) (hlength : s.blocks.length < 2 ^ 32) :
    startOffset.toNat ≤ bound.toNat ∧ bound.toNat < s.blocks.length := by
  unfold getLowerBound at h
  dsimp only at h
  split at h
  · cases h
  · rename_i hend
    cases h
    have hle := Search.le_lowerBound
      (fun i => decide ((s.blocks.getD i default).bl.timestamp <
        timestamp - currency.blockFutureTimeLimit))
      startOffset.toNat (s.blocks.length - startOffset.toNat)
    have hge := Search.lowerBound_le
      (fun i => decide ((s.blocks.getD i default).bl.timestamp <
        timestamp - currency.blockFutureTimeLimit))
      startOffset.toNat (s.blocks.length - startOffset.toNat)
    rw [UInt32.toNat_ofNat', Nat.mod_eq_of_lt (by omega)]
    omega

/-- Where every block of the chain is stamped before the wallet's time less the
future limit, there is no lower bound. -/
theorem getLowerBound_eq_none {timestamp startOffset : UInt64}
    (hstart : startOffset.toNat ≤ s.blocks.length)
    (hbefore : ∀ e ∈ s.blocks, e.bl.timestamp < timestamp - currency.blockFutureTimeLimit) :
    s.getLowerBound currency timestamp startOffset = none := by
  have hless : ∀ i, startOffset.toNat ≤ i →
      i < startOffset.toNat + (s.blocks.length - startOffset.toNat) →
      decide ((s.blocks.getD i default).bl.timestamp <
        timestamp - currency.blockFutureTimeLimit) = true := by
    intro i _ hi
    rw [List.getD_eq_getElem _ _ (by omega), decide_eq_true_eq]
    exact hbefore _ (List.getElem_mem _)
  unfold getLowerBound
  dsimp only
  rw [Search.lowerBound_of_forall_less _ _ _ hless, if_pos (by omega)]

/-- On a chain whose genesis id ends the history, the start is the height of
the first id of the history the chain holds, and the full offset lies between
it and the top of the chain. -/
theorem findStartAndFullOffsets_eq {knownBlockIds : List Hash} (timestamp : UInt64)
    (hindex : s.blockIndex.length = s.blocks.length) (hlength : s.blocks.length < 2 ^ 32)
    (hne : s.blocks ≠ [])
    (hlast : knownBlockIds.getLast? = some (s.blockIndex.getD 0 default)) :
    ∃ start full, findStartAndFullOffsets currency s knownBlockIds timestamp = some (start, full) ∧
      BlockIndex.findSupplement s.blockIndex knownBlockIds = some start ∧
      full = (s.getLowerBound currency timestamp start.toUInt64).getD start ∧
      start.toNat ≤ full.toNat ∧ full.toNat < s.blocks.length := by
  have hpos : 0 < s.blockIndex.length := by
    rw [hindex]
    exact List.length_pos_iff.mpr hne
  -- the genesis id is in the history and in the index, so the search finds a height
  have hmem : s.blockIndex.getD 0 default ∈ s.blockIndex := by
    rw [List.getD_eq_getElem _ _ hpos]
    exact List.getElem_mem hpos
  obtain ⟨start, hstart⟩ := Option.isSome_iff_exists.mp
    (findSupplement_isSome (List.mem_of_getLast? hlast) hmem)
  have hlt := toNat_lt_of_findSupplement hstart (by omega)
  refine ⟨start, (s.getLowerBound currency timestamp start.toUInt64).getD start, ?_, hstart, rfl, ?_⟩
  · simp [findStartAndFullOffsets, hlast, findBlockchainSupplement, hstart]
  · cases hbound : s.getLowerBound currency timestamp start.toUInt64 with
    | none => exact ⟨le_rfl, by simp; omega⟩
    | some bound =>
      have := getLowerBound_mem currency hbound (by rw [UInt32.toNat_toUInt64]; omega) hlength
      simp only [UInt32.toNat_toUInt64] at this
      exact ⟨this.1, this.2⟩

/-- The bare ids are those of the index from the start, below the full offset
and at most {lit}`10000`. -/
theorem findIdsForShortBlocks_eq {start full : UInt32} (hle : start.toNat ≤ full.toNat)
    (hfull : full.toNat < s.blockIndex.length) :
    findIdsForShortBlocks s start full =
      (s.blockIndex.drop start.toNat).take (min 10000 (full.toNat - start.toNat)) := by
  unfold findIdsForShortBlocks
  split
  · rename_i hlt
    have hcount : (min blocksIdsSynchronizingDefaultCount (full - start)).toNat =
        min 10000 (full.toNat - start.toNat) := by
      rw [UInt32.toNat_min, UInt32.toNat_sub_of_le _ _ (UInt32.le_of_lt hlt)]
      rfl
    simp only [getBlockIds, BlockIndex.getBlockIds, hcount]
    rw [if_neg (by omega)]
  · rename_i hnlt
    have heq : full.toNat = start.toNat := by
      rw [UInt32.lt_iff_toNat_lt] at hnlt
      omega
    simp [heq]

end Offsets

/-! ## The ids of the answer -/

section Answer

variable {s : Blockchain}

/-- {lit}`getBlocks` from a height of the chain, where the sum does not wrap. -/
theorem getBlocks_eq {start count : UInt32} (hstart : start.toNat < s.blocks.length)
    (hsum : start.toNat + count.toNat < 2 ^ 32) :
    s.getBlocks start count = some (((s.blocks.drop start.toNat).take count.toNat).map (·.bl)) := by
  rw [getBlocks, if_neg (by omega), UInt32.toNat_add, Nat.mod_eq_of_lt hsum, Nat.add_sub_cancel_left]

/-- Every entry of a block sent from the full offset names the block's hash. -/
theorem blockId_fullBlockInfo (timestamp : UInt64) (b : Block) :
    (fullBlockInfo env s timestamp b).blockId = env.blockHash b := by
  unfold fullBlockInfo
  split <;> rfl

/-- The number of ids the answer holds from its start, before the top of the
chain cuts them: the bare ids below the full offset, at most {lit}`10000`, then
the blocks they leave room for, at most {lit}`200`. -/
def answerLength (startOffset fullOffset : Nat) : Nat :=
  min 10000 (fullOffset - startOffset) + min (10000 - min 10000 (fullOffset - startOffset)) 200

theorem answerLength_bounds (startOffset fullOffset : Nat) :
    200 ≤ answerLength startOffset fullOffset ∧ answerLength startOffset fullOffset ≤ 10000 := by
  unfold answerLength
  omega

/-- An answer whose full offset is its start holds {lit}`200` ids. -/
@[simp] theorem answerLength_self (n : Nat) : answerLength n n = 200 := by
  simp [answerLength]

/-- Where the index holds the hashes of the blocks, the ids of the answer are
the {lit}`answerLength` ids of the main chain from the height of the first
known id on, with the full offset the lower bound of the wallet's time from
there. -/
theorem queryBlocksLite_ids (knownBlockIds : List Hash) (timestamp : UInt64)
    (hindex : s.blockIndex = s.blocks.map fun e => env.blockHash e.bl)
    (hlength : s.blocks.length + 200 < 2 ^ 32) (hne : s.blocks ≠ [])
    (hlast : knownBlockIds.getLast? = some (s.blockIndex.getD 0 default)) :
    ∃ r, queryBlocksLite currency env s knownBlockIds timestamp = some r ∧
      BlockIndex.findSupplement s.blockIndex knownBlockIds = some r.startHeight ∧
      r.fullOffset = (s.getLowerBound currency timestamp r.startHeight.toUInt64).getD r.startHeight ∧
      r.entries.map (·.blockId) =
        (s.blockIndex.drop r.startHeight.toNat).take
          (answerLength r.startHeight.toNat r.fullOffset.toNat) := by
  have hlen := length_blockIndex_of_eq hindex
  obtain ⟨start, full, hoffsets, hstart, hfullEq, hle, hfull⟩ :=
    findStartAndFullOffsets_eq currency timestamp hlen (by omega) hne hlast
  have hfull' : full.toNat < s.blockIndex.length := hlen ▸ hfull
  have hids := findIdsForShortBlocks_eq hle hfull'
  have hshort : ((s.blockIndex.drop start.toNat).take
      (min 10000 (full.toNat - start.toNat))).length = min 10000 (full.toNat - start.toNat) := by
    rw [List.length_take, List.length_drop]
    omega
  simp only [queryBlocksLite, hoffsets, Option.map_some, hids, List.length_map, hshort,
    toNat_blocksIdsSynchronizingDefaultCount, blocksSynchronizingDefaultCount_eq]
  split
  · rename_i hfilled
    refine ⟨_, rfl, hstart, hfullEq, ?_⟩
    simp only [List.map_map, Function.comp_def, List.map_id']
    congr 1
    unfold answerLength
    omega
  · rename_i hroom
    have hcount : min 10000 (full.toNat - start.toNat) = full.toNat - start.toNat := by omega
    have hlength' : answerLength start.toNat full.toNat =
        (full.toNat - start.toNat) + min (10000 - (full.toNat - start.toNat)) 200 := by
      rw [answerLength, hcount]
    rw [hcount] at hroom ⊢
    have hsum : full.toNat + (UInt32.ofNat (min (10000 - (full.toNat - start.toNat)) 200)).toNat
        < 2 ^ 32 := by
      rw [UInt32.toNat_ofNat', Nat.mod_eq_of_lt (by omega)]
      omega
    rw [getBlocks_eq hfull hsum, Option.getD_some, UInt32.toNat_ofNat',
      Nat.mod_eq_of_lt (by omega)]
    refine ⟨_, rfl, hstart, hfullEq, ?_⟩
    dsimp only
    rw [hlength', List.map_append, List.map_map, List.map_map]
    simp only [Function.comp_def, blockId_fullBlockInfo, List.map_id']
    rw [List.take_add, List.drop_drop, Nat.add_sub_cancel' hle, hindex]
    simp only [← List.map_drop, ← List.map_take, List.map_map, Function.comp_def]

/-- Where the index holds the hashes of the blocks, the ids of the answer are
the ids of the main chain from the height of the first known id on, and there
are at least {lit}`200` of them up to the top of the chain and at most
{lit}`10000`, whatever the wallet's time and wherever the lower bound of it
falls among the unsorted timestamps. -/
theorem queryBlocksLite_window (knownBlockIds : List Hash) (timestamp : UInt64)
    (hindex : s.blockIndex = s.blocks.map fun e => env.blockHash e.bl)
    (hlength : s.blocks.length + 200 < 2 ^ 32) (hne : s.blocks ≠ [])
    (hlast : knownBlockIds.getLast? = some (s.blockIndex.getD 0 default)) :
    ∃ r k, queryBlocksLite currency env s knownBlockIds timestamp = some r ∧
      BlockIndex.findSupplement s.blockIndex knownBlockIds = some r.startHeight ∧
      r.entries.map (·.blockId) = (s.blockIndex.drop r.startHeight.toNat).take k ∧
      200 ≤ k ∧ k ≤ 10000 := by
  obtain ⟨r, hquery, hstart, -, hids⟩ :=
    queryBlocksLite_ids currency env knownBlockIds timestamp hindex hlength hne hlast
  obtain ⟨hlow, hhigh⟩ := answerLength_bounds r.startHeight.toNat r.fullOffset.toNat
  exact ⟨r, _, hquery, hstart, hids, hlow, hhigh⟩

/-- A light query from the genesis id alone, on the sample chain. -/
theorem queryBlocksLite_window_genesis :
    ∃ r k, queryBlocksLite sampleCurrency sampleEnv sampleChain
        [sampleEnv.blockHash default] 0 = some r ∧
      BlockIndex.findSupplement sampleChain.blockIndex [sampleEnv.blockHash default] =
        some r.startHeight ∧
      r.entries.map (·.blockId) = (sampleChain.blockIndex.drop r.startHeight.toNat).take k ∧
      200 ≤ k ∧ k ≤ 10000 :=
  queryBlocksLite_window sampleCurrency sampleEnv [sampleEnv.blockHash default] 0 rfl (by decide)
    (by decide) rfl

end Answer

end Core

end CryptoNote

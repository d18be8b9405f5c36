import CryptoNote.Protocol.BlockDownload

/-!
# Answering a request for blocks

A node answers {lit}`NOTIFY_REQUEST_GET_OBJECTS` from its main chain
({lit}`Blockchain::handleGetObjects` in src/cryptonote/core/blockchain.cpp):
the blocks of the ids its index holds, in the order asked, each packed as its
blob with the blobs of the transactions the chain holds for it, then the
transactions asked for aside, the ids it misses and its height.  The answer is
always sent: the check after each block's transactions tests a list that
nothing fills, and the result of the block loop is not read.

Main results:

- Theorem {lit}`getBlocksByIds_of_mem`: for ids of the main chain every block
  is found, in the order of the ids, each under its hash.
- Theorem {lit}`handleGetObjects_accepted`: what a node answers for ids of its
  main chain passes every check of the asking side's
  {lit}`handle_response_get_objects`, which is then left with nothing
  outstanding.
-/

namespace CryptoNote

open ByteCodec Protocol

namespace Blockchain

/-- {lit}`Blockchain::getBlocks(block_ids, blocks, missed_bs)`: the blocks of
the ids the index holds, in the order of the ids, and the ids it misses; an
index entry past the blocks ends the loop with {lit}`false`, and what was found
before it stays. -/
def getBlocksByIds (s : Blockchain) : List Hash → Bool × List Block × List Hash
  | [] => (true, [], [])
  | blId :: blockIds =>
    match s.getBlockHeight blId with
    | none =>
      let (ok, blocks, missedBs) := s.getBlocksByIds blockIds
      (ok, blocks, blId :: missedBs)
    | some height =>
      if h : height.toNat < s.blocks.length then
        let (ok, blocks, missedBs) := s.getBlocksByIds blockIds
        (ok, s.blocks[height.toNat].bl :: blocks, missedBs)
      else (false, [], [])

/-- The entry {lit}`handleGetObjects` packs for a block: the block's blob and
the blobs of the transactions the chain holds for it, with the ids it misses. -/
def blockCompleteEntry (s : Blockchain) (bl : Block) : BlockCompleteEntry × List Hash :=
  let (txs, missedTxs) := s.getBlockchainTransactions bl.transactionHashes
  (⟨(BinaryArray.to Block.serialize bl).getD [],
      txs.map fun tx => (BinaryArray.to Transaction.serialize tx).getD []⟩,
    missedTxs)

/-- {lit}`Blockchain::handleGetObjects`: the chain's height, the entries of the
blocks found, the transactions asked for aside, and every id missed (the
blocks', then each block's transactions', then those aside). -/
def handleGetObjects (s : Blockchain) (arg : RequestGetObjects) : Bool × ResponseGetObjects :=
  let (_, blocks, missedBlocks) := s.getBlocksByIds arg.blocks
  let entries := blocks.map s.blockCompleteEntry
  let (txs, missedTxs) := s.getBlockchainTransactions arg.txs
  (true,
    { txs := txs.map fun tx => (BinaryArray.to Transaction.serialize tx).getD []
      blocks := entries.map Prod.fst
      missedIds := missedBlocks ++ (entries.map Prod.snd).flatten ++ missedTxs
      currentBlockchainHeight := s.getHeight })

/-! ## Lookups of the main chain -/

/-- The fold of {lit}`getBlockchainTransactions` keeps the transactions found
and the ids missed, each in the order of the ids. -/
theorem getBlockchainTransactions_eq (s : Blockchain) (ids : List Hash) :
    s.getBlockchainTransactions ids =
      (ids.filterMap fun id =>
          (s.transactionMap.lookup id).map fun index => (s.transactionByIndex index).tx,
        ids.filter fun id => (s.transactionMap.lookup id).isNone) := by
  unfold getBlockchainTransactions
  -- the fold appends at the end, so the induction adds one id at the end
  induction ids using List.reverseRecOn with
  | nil => rfl
  | append_singleton ids id ih =>
    rw [List.foldl_append, ih]
    cases h : s.transactionMap.lookup id <;> simp [h]

/-- Every transaction id the chain holds is found, and none is missed. -/
theorem getBlockchainTransactions_of_mem (s : Blockchain) {ids : List Hash}
    (hmem : ∀ id ∈ ids, (s.transactionMap.lookup id).isSome) :
    (s.getBlockchainTransactions ids).1.length = ids.length ∧
      (s.getBlockchainTransactions ids).2 = [] := by
  rw [getBlockchainTransactions_eq]
  dsimp only
  induction ids with
  | nil => simp
  | cons id ids ih =>
    obtain ⟨index, hindex⟩ := Option.isSome_iff_exists.mp (hmem id List.mem_cons_self)
    obtain ⟨ihlength, ihmissed⟩ := ih fun id' hid' => hmem id' (List.mem_cons_of_mem _ hid')
    simp [hindex, ihlength, ihmissed]

section Index

variable {env : ChainEnv} {s : Blockchain}
  (hindex : s.blockIndex = s.blocks.map fun e => env.blockHash e.bl)
  (hheight : s.blocks.length < 2 ^ 32)
include hindex hheight

/-- An id of the main chain is found at a height below the chain's length, in a
block of that hash. -/
theorem getBlockHeight_of_mem {id : Hash} (hid : id ∈ s.blockIndex) :
    ∃ height : UInt32, ∃ h : height.toNat < s.blocks.length, s.getBlockHeight id = some height ∧
      env.blockHash s.blocks[height.toNat].bl = id := by
  have hlength : s.blockIndex.length = s.blocks.length := by rw [hindex, List.length_map]
  obtain ⟨i, hi⟩ := Option.isSome_iff_exists.mp (List.isSome_idxOf?.mpr hid)
  obtain ⟨hlt, hget, -⟩ := List.idxOf?_eq_some_iff.mp hi
  have hi' : i < s.blocks.length := hlength ▸ hlt
  have htoNat : i.toUInt32.toNat = i := by
    rw [Nat.toUInt32, UInt32.toNat_ofNat', Nat.mod_eq_of_lt (by omega)]
  refine ⟨i.toUInt32, by rw [htoNat]; exact hi', by simp [getBlockHeight, hi], ?_⟩
  have hat : s.blockIndex[i] = env.blockHash s.blocks[i].bl := by simp [hindex]
  simp only [htoNat]
  rw [← hat, hget]

/-- For ids of the main chain every block is found, in the order of the ids,
each under its hash, and nothing is missed. -/
theorem getBlocksByIds_of_mem {ids : List Hash} (hids : ∀ id ∈ ids, id ∈ s.blockIndex) :
    ∃ blocks : List Block, s.getBlocksByIds ids = (true, blocks, []) ∧
      blocks.map env.blockHash = ids ∧ ∀ b ∈ blocks, ∃ e ∈ s.blocks, e.bl = b := by
  induction ids with
  | nil => exact ⟨[], rfl, rfl, by simp⟩
  | cons id ids ih =>
    obtain ⟨blocks, hget, hmap, hmem⟩ := ih fun id' hid' => hids id' (List.mem_cons_of_mem _ hid')
    obtain ⟨height, hlt, hheight', hhash⟩ := getBlockHeight_of_mem hindex hheight
      (hids id List.mem_cons_self)
    refine ⟨s.blocks[height.toNat].bl :: blocks, ?_, by simp [hhash, hmap], ?_⟩
    · simp [getBlocksByIds, hheight', hlt, hget]
    · intro b hb
      rcases List.mem_cons.mp hb with rfl | hb
      · exact ⟨_, List.getElem_mem hlt, rfl⟩
      · exact hmem b hb

end Index

/-- A block whose codec applies and whose transactions the chain holds is packed
as its own blob, which parses back into it, with a blob for each of its
transactions and nothing missed. -/
theorem blockCompleteEntry_of_held {s : Blockchain} {bl : Block} (hserial : bl.Serializable)
    (htxs : ∀ id ∈ bl.transactionHashes, (s.transactionMap.lookup id).isSome) :
    parseBlock (s.blockCompleteEntry bl).1.block = some bl ∧
      bl.transactionHashes.length = (s.blockCompleteEntry bl).1.txs.length ∧
      (s.blockCompleteEntry bl).2 = [] := by
  obtain ⟨hlength, hmissed⟩ := getBlockchainTransactions_of_mem s htxs
  have hblob : BinaryArray.to Block.serialize bl = some (Block.encode bl) :=
    BinaryArray.to_eq_some Block.serialize_implements hserial
  rcases hpair : s.getBlockchainTransactions bl.transactionHashes with ⟨txs, missedTxs⟩
  rw [hpair] at hlength hmissed
  simp only [blockCompleteEntry, hpair, parseBlock, hblob, Option.getD_some, List.length_map]
  exact ⟨BinaryArray.from_encode Block.serialize_implements hserial default, hlength.symm, hmissed⟩

end Blockchain

namespace Protocol

variable {σ : Type} (core : ProtocolCore σ) (env : ChainEnv)

/-- What a node answers for ids of its main chain passes every check of the
asking side: the connection asked for exactly those ids, each once, its core
lacks them, the height it last recorded from a response is at most the serving
chain's, and the serving chain files its blocks under their hashes, writes them
with its codec and holds their transactions.  The answer misses nothing, and
the asking side processes its blocks with nothing left outstanding. -/
theorem handleGetObjects_accepted {s : Blockchain} {ids : List Hash} {node : σ}
    {ctx : ConnectionContext} (hindex : s.blockIndex = s.blocks.map fun e => env.blockHash e.bl)
    (hheight : s.blocks.length < 2 ^ 32) (hserial : ∀ e ∈ s.blocks, e.bl.Serializable)
    (htxs : ∀ e ∈ s.blocks, ∀ id ∈ e.bl.transactionHashes, (s.transactionMap.lookup id).isSome)
    (hids : ∀ id ∈ ids, id ∈ s.blockIndex) (hnodup : ids.Nodup)
    (hrequested : ctx.requestedObjects = ids.toFinset) (hlast : ctx.lastResponseHeight ≤ s.getHeight)
    (hlacks : ∀ id ∈ ids, core.haveBlock node id = false) :
    (s.handleGetObjects ⟨[], ids⟩).2.missedIds = [] ∧
      checkResponse core env node ctx (s.handleGetObjects ⟨[], ids⟩).2 =
        (some { ctx with remoteBlockchainHeight := s.getHeight, requestedObjects := ∅ },
          { ctx with remoteBlockchainHeight := s.getHeight, requestedObjects := ∅ }) := by
  obtain ⟨blocks, hget, hmap, hmem⟩ := Blockchain.getBlocksByIds_of_mem hindex hheight hids
  have hentry : ∀ b ∈ blocks, parseBlock (s.blockCompleteEntry b).1.block = some b ∧
      b.transactionHashes.length = (s.blockCompleteEntry b).1.txs.length ∧
      (s.blockCompleteEntry b).2 = [] := by
    intro b hb
    obtain ⟨e, he, rfl⟩ := hmem b hb
    exact Blockchain.blockCompleteEntry_of_held (hserial e he) (htxs e he)
  have hparse : ((blocks.map s.blockCompleteEntry).map Prod.fst).map (parseBlock ·.block) =
      blocks.map some := by
    simp only [List.map_map]
    exact List.map_congr_left fun b hb => (hentry b hb).1
  have hlength : List.Forall₂ (fun b entry => b.transactionHashes.length = entry.txs.length)
      blocks ((blocks.map s.blockCompleteEntry).map Prod.fst) := by
    rw [List.map_map, List.forall₂_map_right_iff, List.forall₂_same]
    exact fun b hb => (hentry b hb).2.1
  have hanswer : s.handleGetObjects ⟨[], ids⟩ = (true,
      { txs := [], blocks := (blocks.map s.blockCompleteEntry).map Prod.fst, missedIds := [],
        currentBlockchainHeight := s.getHeight }) := by
    simp only [Blockchain.handleGetObjects, hget, Blockchain.getBlockchainTransactions,
      List.foldl_nil, List.map_nil, List.nil_append, List.append_nil, Prod.mk.injEq, true_and]
    simp only [ResponseGetObjects.mk.injEq, true_and, and_true, List.map_map,
      List.flatten_eq_nil_iff, List.mem_map]
    rintro _ ⟨b, hb, rfl⟩
    exact (hentry b hb).2.2
  rw [hanswer]
  refine ⟨rfl, ?_⟩
  have hcurrent : ¬ctx.lastResponseHeight > s.getHeight := UInt32.not_lt.mpr hlast
  have hasked : ∀ b ∈ blocks, env.blockHash b ∈
      ({ ctx with remoteBlockchainHeight := s.getHeight } : ConnectionContext).requestedObjects :=
    fun b hb => by simpa [hrequested, ← hmap] using List.mem_map_of_mem hb
  have hnone : ctx.requestedObjects \ (blocks.map env.blockHash).toFinset = ∅ := by
    rw [hmap, hrequested, Finset.sdiff_self]
  have hpassed : checkBlocks core env node 0 ((blocks.map s.blockCompleteEntry).map Prod.fst)
      { ctx with remoteBlockchainHeight := s.getHeight } =
      (.passed, { ctx with remoteBlockchainHeight := s.getHeight, requestedObjects := ∅ }) := by
    rw [checkBlocks_of_forall core env hparse hlength (hmap ▸ hnodup) hasked
      (fun b hb => hlacks _ (hmap ▸ List.mem_map_of_mem hb))]
    simp [hnone]
  rw [checkResponse, if_neg hcurrent]
  dsimp only
  rw [hpassed]
  simp

/-- A block at height 1 on the sample genesis block, its coinbase claiming the
premine. -/
def sampleBlockOne : Block :=
  { (default : Block) with
    nonce := 3
    previousBlockHash := Blockchain.sampleEnv.blockHash Blockchain.sampleGenesis
    baseTransaction := { (default : Transaction) with
      inputs := [.base ⟨1⟩]
      signatures := [[]]
      unlockTime := 61
      outputs := [⟨2000000000000000, .key ⟨default⟩⟩] } }

/-- The chain {lit}`init` builds with {lit}`sampleBlockOne` pushed on it. -/
def twoBlockChain : Blockchain :=
  (StateExcept.run (Blockchain.pushBlock Blockchain.sampleCurrency Blockchain.sampleEnv 0
    sampleBlockOne) Blockchain.sampleGenesisChain).2

/-- The ids of the two blocks. -/
def twoBlockIds : List Hash :=
  [Blockchain.sampleEnv.blockHash Blockchain.sampleGenesis,
    Blockchain.sampleEnv.blockHash sampleBlockOne]

/-- A synchronising connection that asked for both blocks. -/
def askingContext : ConnectionContext :=
  { ConnectionContext.new p2pProtocolVersionV1 with
    state := .synchronizing
    requestedObjects := twoBlockIds.toFinset }

/-- The answer for both blocks of {lit}`twoBlockChain` misses nothing and passes
the checks of a connection whose core has no block. -/
theorem handleGetObjects_accepted_twoBlocks :
    (twoBlockChain.handleGetObjects ⟨[], twoBlockIds⟩).2.missedIds = [] ∧
      checkResponse chainIdsCore Blockchain.sampleEnv [] askingContext
          (twoBlockChain.handleGetObjects ⟨[], twoBlockIds⟩).2 =
        (some { askingContext with
            remoteBlockchainHeight := twoBlockChain.getHeight
            requestedObjects := ∅ },
          { askingContext with
            remoteBlockchainHeight := twoBlockChain.getHeight
            requestedObjects := ∅ }) := by
  have hblocks : twoBlockChain.blocks.map BlockEntry.bl =
      [Blockchain.sampleGenesis, sampleBlockOne] := by
    decide +kernel
  have hserial : ∀ e ∈ twoBlockChain.blocks, e.bl.Serializable := by
    intro e he
    have hmem : e.bl ∈ [Blockchain.sampleGenesis, sampleBlockOne] :=
      hblocks ▸ List.mem_map_of_mem he
    simp only [List.mem_cons, List.mem_nil_iff, or_false] at hmem
    rcases hmem with h | h <;> rw [h] <;> decide
  exact handleGetObjects_accepted chainIdsCore Blockchain.sampleEnv (by decide +kernel)
    (by decide +kernel) hserial (by decide +kernel) (by decide +kernel)
    (by decide +kernel) rfl (by decide +kernel) (by decide +kernel)

end Protocol

end CryptoNote

import CryptoNote.Core.BlockIndex

/-!
# The block explorer's JSON handlers

{lit}`RpcServer::f_on_blocks_list_json`, {lit}`f_on_block_json` and
{lit}`f_on_transaction_json` answer any RPC client from the chain's two stores,
{lit}`m_blockIndex` and {lit}`m_blocks`.  Both reads fail past the end:
{lit}`getBlockIdByHeight` asserts its height and {lit}`BlockAccessor::operator[]`
throws {lit}`std::runtime_error`, neither a {lit}`JsonRpcError`.  A handler's
outcome is then a response, a {lit}`JsonRpcError` with its code and text, or a
read out of range at a height.

The list handler checks {lit}`getHeight() < req.height`, so a request for the
height the chain does not have yet passes; its loop reads the block before each
height as {lit}`i - 1` in {lit}`uint32_t`, which at {lit}`i = 0` is the largest
height.  The block handler accepts a hash {lit}`haveBlock` knows from an
alternative chain, and then reads the height {lit}`getBlockHeight` never wrote.

The hexadecimal texts of the requests and responses are not modelled: a
request's hash comes as the parsed value beside its text, a response's hash as
the value, and {lit}`fillBlockDetails` as the block it is given.

Main results:

- Theorem {lit}`fOnBlocksListJson_tooBig`: a height above the chain's throws
  {lit}`CORE_RPC_ERROR_CODE_TOO_BIG_HEIGHT`.
- Theorem {lit}`fOnBlocksListJson_of_lt`: a height above 30 and below the
  chain's gives the 31 entries down from it, each with the difficulty its block
  added.
- Theorem {lit}`explorerHandlers_read_past_chain`: the chain's own height, every
  height up to 30, and the hash of an alternative block each make a handler read
  outside the main chain.
- Theorem {lit}`fOnTransactionJson_inside`: where every filed transaction names a
  block of the chain, the transaction handler returns or throws a
  {lit}`JsonRpcError`.
-/

namespace CryptoNote

/-! ## Reads of the main chain -/

/-- How an explorer handler ends when it does not return. -/
inductive RpcFailure where
  /-- {lit}`JsonRpc::JsonRpcError`, with its code and text. -/
  | jsonRpcError (code : Int) (message : String)
  /-- A read of {lit}`m_blockIndex` or {lit}`m_blocks` at a height the main chain
  does not have. -/
  | outOfRange (height : Nat)
deriving DecidableEq, Repr

/-- {lit}`CORE_RPC_ERROR_CODE_WRONG_PARAM`. -/
def coreRpcErrorCodeWrongParam : Int := -1

/-- {lit}`CORE_RPC_ERROR_CODE_TOO_BIG_HEIGHT`. -/
def coreRpcErrorCodeTooBigHeight : Int := -2

/-- {lit}`CORE_RPC_ERROR_CODE_INTERNAL_ERROR`. -/
def coreRpcErrorCodeInternalError : Int := -5

/-- A handler's {lit}`pure` is its {lit}`Except.ok`. -/
@[simp] theorem except_pure_eq_ok {ε α : Type} (a : α) : (pure a : Except ε α) = .ok a := rfl

namespace Blockchain

/-- {lit}`getBlockIdByHeight`: the hash at a height, asserted to exist. -/
def getBlockIdByHeight (s : Blockchain) (height : UInt32) : Except RpcFailure Hash :=
  match s.blockIndex[height.toNat]? with
  | some id => pure id
  | none => throw (.outOfRange height.toNat)

/-- {lit}`getBlock`: {lit}`m_blocks[height]`, which throws past the end. -/
def getBlock (s : Blockchain) (height : UInt32) : Except RpcFailure BlockEntry :=
  match s.blocks[height.toNat]? with
  | some entry => pure entry
  | none => throw (.outOfRange height.toNat)

/-- {lit}`getBlockByHash`: the block of the main chain at the hash's height, or
else the alternative block of that hash. -/
def getBlockByHash (s : Blockchain) (blockHash : Hash) : Except RpcFailure (Option Block) :=
  match s.getBlockHeight blockHash with
  | some height => do
    let entry ← s.getBlock height
    pure (some entry.bl)
  | none => pure ((s.alternativeChains.lookup blockHash).map BlockEntry.bl)

/-- The main chain's two stores agree: one hash for each block, no hash twice,
and fewer blocks than a {lit}`uint32_t` height counts past. -/
structure Indexed (s : Blockchain) : Prop where
  length_eq : s.blockIndex.length = s.blocks.length
  nodup : s.blockIndex.Nodup
  length_lt : s.blocks.length < 2 ^ 32

variable {s : Blockchain} {height : UInt32}

theorem getBlock_of_lt (h : height.toNat < s.blocks.length) :
    s.getBlock height = .ok (s.blocks.getD height.toNat default) := by
  rw [getBlock, List.getElem?_eq_getElem h, List.getD_eq_getElem _ _ h]
  rfl

theorem getBlock_of_le (h : s.blocks.length ≤ height.toNat) :
    s.getBlock height = .error (.outOfRange height.toNat) := by
  rw [getBlock, List.getElem?_eq_none h]
  rfl

theorem getBlockIdByHeight_of_lt (h : height.toNat < s.blockIndex.length) :
    s.getBlockIdByHeight height = .ok (s.blockIndex.getD height.toNat default) := by
  rw [getBlockIdByHeight, List.getElem?_eq_getElem h, List.getD_eq_getElem _ _ h]
  rfl

theorem getBlockIdByHeight_of_le (h : s.blockIndex.length ≤ height.toNat) :
    s.getBlockIdByHeight height = .error (.outOfRange height.toNat) := by
  rw [getBlockIdByHeight, List.getElem?_eq_none h]
  rfl

/-- A height of an indexed chain survives the trip through {lit}`uint32_t`. -/
theorem Indexed.toNat_toUInt32 (hs : s.Indexed) {i : Nat} (hi : i ≤ s.blocks.length) :
    i.toUInt32.toNat = i := by
  have hlt : i < 2 ^ 32 := lt_of_le_of_lt hi hs.length_lt
  rw [Nat.toUInt32_eq, UInt32.toNat_ofNat']
  simpa using hlt

/-- In an indexed chain the hash at a height names the block at that height. -/
theorem Indexed.getBlockByHash_getD (hs : s.Indexed) {i : Nat} (hi : i < s.blocks.length) :
    s.getBlockByHash (s.blockIndex.getD i default) = .ok (some (s.blocks.getD i default).bl) := by
  have hheight : s.getBlockHeight (s.blockIndex.getD i default) = some i.toUInt32 :=
    BlockIndex.getBlockHeight_getD hs.nodup (hs.length_eq ▸ hi)
  rw [getBlockByHash, hheight]
  simp only [getBlock_of_lt (hs.toNat_toUInt32 hi.le ▸ hi), hs.toNat_toUInt32 hi.le]
  rfl

/-- {lit}`getHeight` of an indexed chain is its number of blocks. -/
theorem Indexed.toNat_getHeight (hs : s.Indexed) : s.getHeight.toNat = s.blocks.length :=
  hs.toNat_toUInt32 le_rfl

end Blockchain

/-! ## The handlers -/

/-- {lit}`f_block_short_response`, with the block's hash as the value. -/
structure BlockShortResponse where
  timestamp : UInt64
  height : UInt32
  hash : Hash
  txCount : UInt64
  difficulty : UInt64
  cumulSize : UInt64
deriving DecidableEq, Repr, Inhabited

namespace RpcServer

/-- One pass of the loop of {lit}`f_on_blocks_list_json`: the reads at height
{lit}`i` and the entry it pushes. -/
def blockShortAt (s : Blockchain) (i : UInt32) : Except RpcFailure BlockShortResponse := do
  let blockHash ← s.getBlockIdByHeight i
  let some blk ← s.getBlockByHash blockHash
    | throw (.jsonRpcError coreRpcErrorCodeInternalError
        ("Internal error: can't get block by height. Height = " ++ toString i ++ "."))
  let be ← s.getBlock i
  let pre := i - 1
  let be1 ← s.getBlock pre
  pure {
    cumulSize := be.blockCumulativeSize
    timestamp := blk.timestamp
    height := i
    hash := blockHash
    difficulty := be.cumulativeDifficulty - be1.cumulativeDifficulty
    txCount := blk.transactionHashes.length.toUInt64 + 1 }

/-- The loop {lit}`for (uint32_t i = req.height; i >= last_height; i--)` with its
{lit}`break` at {lit}`i == 0`; the fuel counts passes and the handler gives one
more than the start height, which the loop never needs. -/
def blocksListLoop (s : Blockchain) (lastHeight : UInt32) :
    Nat → UInt32 → Except RpcFailure (List BlockShortResponse)
  | 0, _ => pure []
  | fuel + 1, i =>
    if lastHeight ≤ i then do
      let blockShort ← blockShortAt s i
      if i = 0 then
        pure [blockShort]
      else
        let blocks ← blocksListLoop s lastHeight fuel (i - 1)
        pure (blockShort :: blocks)
    else
      pure []

/-- {lit}`f_on_blocks_list_json`: up to 31 entries down from the requested
height. -/
def fOnBlocksListJson (s : Blockchain) (height : UInt64) :
    Except RpcFailure (List BlockShortResponse) := do
  if s.getHeight.toUInt64 < height then
    throw (.jsonRpcError coreRpcErrorCodeTooBigHeight
      ("To big height: " ++ toString height ++ ", current blockchain height = " ++
        toString s.getHeight))
  let printBlocksCount : UInt32 := 30
  let lastHeight := (height - printBlocksCount.toUInt64).toUInt32
  let lastHeight := if height ≤ printBlocksCount.toUInt64 then 0 else lastHeight
  blocksListLoop s lastHeight (height.toUInt32.toNat + 1) height.toUInt32

/-- {lit}`f_on_block_json`, given the request's text, the hash
{lit}`podFrom` made of it, and the value of the uninitialised {lit}`height`. -/
def fOnBlockJson (s : Blockchain) (reqHash : String) (hash : Hash) (height : UInt32) :
    Except RpcFailure Block := do
  if !s.haveBlock hash then
    throw (.jsonRpcError coreRpcErrorCodeInternalError
      ("Internal error: can't get block by hash. hash_t = " ++ reqHash ++ "."))
  -- {lit}`getBlockHeight` writes the height only for a hash of the main chain
  let height := (s.getBlockHeight hash).getD height
  let be ← s.getBlock height
  pure be.bl

/-- {lit}`f_on_transaction_json`, given the request's text and what
{lit}`parse_hash256` made of it: the transaction, and the block its index names. -/
def fOnTransactionJson (s : Blockchain) (reqHash : String) (hash : Option Hash) :
    Except RpcFailure (Transaction × Block) := do
  let some hash := hash
    | throw (.jsonRpcError coreRpcErrorCodeWrongParam
        ("Failed to parse hex representation of transaction hash. Hex = " ++ reqHash ++ "."))
  -- {lit}`getTransactions` without the pool: the chain's map, then the block it names
  let some index := s.transactionMap.lookup hash
    | throw (.jsonRpcError coreRpcErrorCodeWrongParam
        ("transaction wasn't found. hash_t = " ++ reqHash ++ "."))
  let entry ← s.getBlock index.block
  let tx := (entry.transactions.getD index.transaction.toNat default).tx
  -- {lit}`getTransactionBlockIndex` finds the same index
  let be ← s.getBlock index.block
  pure (tx, be.bl)

/-! ## One pass of the list loop -/

/-- The entry the list should hold for a height {lit}`i ≥ 1` of the main chain:
its block's size, time and hash, and the difficulty it added over the block
before. -/
def blockShortOf (s : Blockchain) (i : Nat) : BlockShortResponse :=
  let entry := s.blocks.getD i default
  { cumulSize := entry.blockCumulativeSize
    timestamp := entry.bl.timestamp
    height := i.toUInt32
    hash := s.blockIndex.getD i default
    difficulty := entry.cumulativeDifficulty - (s.blocks.getD (i - 1) default).cumulativeDifficulty
    txCount := entry.bl.transactionHashes.length.toUInt64 + 1 }

variable {s : Blockchain} {i : UInt32}

/-- Below a positive height {lit}`i - 1` does not wrap. -/
theorem toNat_sub_one (hpos : 0 < i.toNat) : (i - 1).toNat = i.toNat - 1 := by
  have hle : 1 ≤ i := by rw [UInt32.le_iff_toNat_le, UInt32.toNat_one]; exact hpos
  rw [UInt32.toNat_sub_of_le _ _ hle, UInt32.toNat_one]

/-- A pass at a height of an indexed chain reads the hash and the block there,
inside the chain, and ends as its read of the block at {lit}`i - 1` does. -/
theorem blockShortAt_eq (hs : s.Indexed) (hi : i.toNat < s.blocks.length) :
    blockShortAt s i = (s.getBlock (i - 1)).map fun be1 =>
      { blockShortOf s i.toNat with
        difficulty :=
          (s.blocks.getD i.toNat default).cumulativeDifficulty - be1.cumulativeDifficulty } := by
  have hidx : i.toNat < s.blockIndex.length := hs.length_eq ▸ hi
  rw [blockShortAt, Blockchain.getBlockIdByHeight_of_lt hidx]
  simp only [bind, Except.bind]
  rw [hs.getBlockByHash_getD hi]
  simp only [Blockchain.getBlock_of_lt hi]
  cases s.getBlock (i - 1) <;> simp [Except.map, blockShortOf]

/-- A pass at a height of the chain above zero reads inside it and pushes the
entry of that height. -/
theorem blockShortAt_of_pos (hs : s.Indexed) (hi : i.toNat < s.blocks.length) (hpos : 0 < i.toNat) :
    blockShortAt s i = .ok (blockShortOf s i.toNat) := by
  have hpre_lt : (i - 1).toNat < s.blocks.length := by rw [toNat_sub_one hpos]; omega
  rw [blockShortAt_eq hs hi, Blockchain.getBlock_of_lt hpre_lt, toNat_sub_one hpos]
  rfl

/-- The pass at height zero reads the block before it at {lit}`0 - 1`, the largest
{lit}`uint32_t`, past the end of every indexed chain. -/
theorem blockShortAt_zero (hs : s.Indexed) (hne : 0 < s.blocks.length) :
    blockShortAt s 0 = .error (.outOfRange (2 ^ 32 - 1)) := by
  have hwrap : ((0 : UInt32) - 1).toNat = 2 ^ 32 - 1 := rfl
  have hpast : s.blocks.length ≤ ((0 : UInt32) - 1).toNat := by
    rw [hwrap]
    have := hs.length_lt
    omega
  have hzero : (0 : UInt32).toNat < s.blocks.length := hne
  rw [blockShortAt_eq hs hzero, Blockchain.getBlock_of_le hpast, hwrap]
  rfl

/-- A pass at a height past the end of an indexed chain fails at its first
read, of {lit}`m_blockIndex`. -/
theorem blockShortAt_of_le (hs : s.Indexed) (hi : s.blocks.length ≤ i.toNat) :
    blockShortAt s i = .error (.outOfRange i.toNat) := by
  rw [blockShortAt, Blockchain.getBlockIdByHeight_of_le (hs.length_eq ▸ hi)]
  rfl

/-! ## The list loop -/

/-- Below the last height the loop pushes nothing. -/
theorem blocksListLoop_of_lt {lastHeight : UInt32} (h : i.toNat < lastHeight.toNat) (fuel : Nat) :
    blocksListLoop s lastHeight fuel i = .ok [] := by
  have hnot : ¬ lastHeight ≤ i := by rw [UInt32.le_iff_toNat_le]; omega
  cases fuel with
  | zero => rfl
  | succ fuel => rw [blocksListLoop, if_neg hnot]; rfl

/-- A pass that fails ends the loop with its failure. -/
theorem blocksListLoop_of_error {lastHeight : UInt32} {e : RpcFailure}
    (hle : lastHeight.toNat ≤ i.toNat) (he : blockShortAt s i = .error e) (fuel : Nat) :
    blocksListLoop s lastHeight (fuel + 1) i = .error e := by
  rw [blocksListLoop, if_pos (UInt32.le_iff_toNat_le.mpr hle), he]
  rfl

/-- Above a last height of one or more the loop stops before height zero, with
one entry for each height from {lit}`i` down to the last height. -/
theorem blocksListLoop_of_pos (hs : s.Indexed) {lastHeight : UInt32}
    (hlast : 0 < lastHeight.toNat) :
    ∀ (fuel : Nat) (i : UInt32), lastHeight.toNat ≤ i.toNat → i.toNat < s.blocks.length →
      i.toNat - lastHeight.toNat < fuel →
      blocksListLoop s lastHeight fuel i =
        .ok ((List.range (i.toNat - lastHeight.toNat + 1)).map fun k =>
          blockShortOf s (i.toNat - k)) := by
  intro fuel
  induction fuel with
  | zero => intro i _ _ hfuel; omega
  | succ fuel ih =>
    intro i hle hi hfuel
    have hpos : 0 < i.toNat := by omega
    have hne : i ≠ 0 := by rintro rfl; simp at hpos
    rw [blocksListLoop, if_pos (UInt32.le_iff_toNat_le.mpr hle), blockShortAt_of_pos hs hi hpos]
    simp only [bind, Except.bind, if_neg hne]
    rcases Nat.lt_or_ge lastHeight.toNat i.toNat with hgt | hle'
    · have hpre := toNat_sub_one hpos
      have hn : i.toNat - lastHeight.toNat = (i.toNat - 1 - lastHeight.toNat) + 1 := by omega
      rw [ih (i - 1) (by omega) (by omega) (by omega), hpre, hn,
        @List.range_succ_eq_map (i.toNat - 1 - lastHeight.toNat + 1), List.map_cons, List.map_map]
      have hstep : (fun k => blockShortOf s (i.toNat - k)) ∘ Nat.succ =
          fun k => blockShortOf s (i.toNat - 1 - k) := by
        funext k
        simp only [Function.comp_apply, Nat.sub_sub, Nat.add_comm 1 k]
      rw [hstep, Nat.sub_zero]
      rfl
    · have heq : i.toNat = lastHeight.toNat := by omega
      rw [blocksListLoop_of_lt (by rw [toNat_sub_one hpos]; omega)]
      simp [heq]

/-- From a last height of zero the loop reaches height zero, whose pass reads
past the end. -/
theorem blocksListLoop_zero (hs : s.Indexed) :
    ∀ (fuel : Nat) (i : UInt32), i.toNat < s.blocks.length → i.toNat < fuel →
      blocksListLoop s 0 fuel i = .error (.outOfRange (2 ^ 32 - 1)) := by
  intro fuel
  induction fuel with
  | zero => intro i _ hfuel; omega
  | succ fuel ih =>
    intro i hi hfuel
    rcases Nat.eq_zero_or_pos i.toNat with hzero | hpos
    · have hi0 : i = 0 := UInt32.toNat_inj.mp hzero
      subst hi0
      exact blocksListLoop_of_error (Nat.le_refl _) (blockShortAt_zero hs hi) fuel
    · have hne : i ≠ 0 := by rintro rfl; simp at hpos
      have hpre := toNat_sub_one hpos
      rw [blocksListLoop, if_pos (UInt32.le_iff_toNat_le.mpr (by simp)),
        blockShortAt_of_pos hs hi hpos]
      simp only [bind, Except.bind, if_neg hne]
      rw [ih (i - 1) (by omega) (by omega)]

/-! ## The three handlers -/

variable {height : UInt64}

/-- A request compared with {lit}`getHeight` of an indexed chain compares with its
number of blocks. -/
theorem toNat_le_of_le_getHeight (hs : s.Indexed) (h : height ≤ s.getHeight.toUInt64) :
    height.toNat ≤ s.blocks.length := by
  rw [UInt64.le_iff_toNat_le, UInt32.toNat_toUInt64, hs.toNat_getHeight] at h
  exact h

theorem toNat_lt_of_lt_getHeight (hs : s.Indexed) (h : height < s.getHeight.toUInt64) :
    height.toNat < s.blocks.length := by
  rw [UInt64.lt_iff_toNat_lt, UInt32.toNat_toUInt64, hs.toNat_getHeight] at h
  exact h

/-- A height above the chain's throws {lit}`CORE_RPC_ERROR_CODE_TOO_BIG_HEIGHT`
with both heights in its text. -/
theorem fOnBlocksListJson_tooBig (h : s.getHeight.toUInt64 < height) :
    fOnBlocksListJson s height = .error (.jsonRpcError coreRpcErrorCodeTooBigHeight
      ("To big height: " ++ toString height ++ ", current blockchain height = " ++
        toString s.getHeight)) := by
  rw [fOnBlocksListJson, if_pos h]
  rfl

/-- Up to the chain's height the handler runs its loop down from the request. -/
theorem fOnBlocksListJson_of_le (h : height ≤ s.getHeight.toUInt64) :
    fOnBlocksListJson s height =
      blocksListLoop s (if height ≤ 30 then 0 else (height - 30).toUInt32)
        (height.toUInt32.toNat + 1) height.toUInt32 := by
  rw [fOnBlocksListJson, if_neg (UInt64.not_lt.mpr h)]
  rfl

/-- A request up to the height of an indexed chain keeps its value as a
{lit}`uint32_t`, and its last height is 30 below it, or zero. -/
theorem toNat_request (hs : s.Indexed) (h : height ≤ s.getHeight.toUInt64) :
    height.toUInt32.toNat = height.toNat ∧ height.toNat ≤ s.blocks.length ∧
      (if height ≤ 30 then (0 : UInt32) else (height - 30).toUInt32).toNat =
        height.toNat - 30 := by
  have hle : height.toNat ≤ s.blocks.length := toNat_le_of_le_getHeight hs h
  have hlt : height.toNat < 2 ^ 32 := lt_of_le_of_lt hle hs.length_lt
  refine ⟨by rw [UInt64.toNat_toUInt32, Nat.mod_eq_of_lt hlt], hle, ?_⟩
  have h30 : height ≤ 30 ↔ height.toNat ≤ 30 := by rw [UInt64.le_iff_toNat_le]; simp
  split
  · rename_i hsmall
    have := h30.mp hsmall
    rw [UInt32.toNat_zero]
    omega
  · rename_i hbig
    have hsub : (30 : UInt64) ≤ height := UInt64.le_of_lt (UInt64.not_le.mp hbig)
    have := h30.not.mp hbig
    rw [UInt64.toNat_toUInt32, UInt64.toNat_sub_of_le _ _ hsub]
    simp
    omega

/-- A height above 30 and below the chain's gives the 31 entries from it down,
each with the difficulty its block added. -/
theorem fOnBlocksListJson_of_lt (hs : s.Indexed) (h30 : 30 < height)
    (hlt : height < s.getHeight.toUInt64) :
    fOnBlocksListJson s height =
      .ok ((List.range 31).map fun k => blockShortOf s (height.toNat - k)) := by
  obtain ⟨hnat, -, hlast⟩ := toNat_request hs (UInt64.le_of_lt hlt)
  have hlen : height.toNat < s.blocks.length := toNat_lt_of_lt_getHeight hs hlt
  have h30' : 30 < height.toNat := by rw [UInt64.lt_iff_toNat_lt] at h30; simpa using h30
  rw [fOnBlocksListJson_of_le (UInt64.le_of_lt hlt),
    blocksListLoop_of_pos hs (by omega) _ _ (by omega) (by omega) (by omega), hnat, hlast]
  have h31 : height.toNat - (height.toNat - 30) + 1 = 31 := by omega
  rw [h31]

/-- Where every filed transaction names a block of the chain, a filed hash gives
the transaction and its block. -/
theorem fOnTransactionJson_of_lookup {reqHash : String} {hash : Hash} {index : TransactionIndex}
    (hindex : s.transactionMap.lookup hash = some index)
    (hblock : index.block.toNat < s.blocks.length) :
    fOnTransactionJson s reqHash (some hash) =
      .ok ((s.transactionByIndex index).tx, (s.blocks.getD index.block.toNat default).bl) := by
  rw [fOnTransactionJson]
  simp only [hindex, Blockchain.getBlock_of_lt hblock]
  rfl

/-- Where every filed transaction names a block of the chain, the transaction
handler stays inside the chain: a failure is a {lit}`JsonRpcError`. -/
theorem fOnTransactionJson_inside
    (hmap : ∀ hash index, s.transactionMap.lookup hash = some index →
      index.block.toNat < s.blocks.length)
    (reqHash : String) (hash : Option Hash) (failure : RpcFailure)
    (hfail : fOnTransactionJson s reqHash hash = .error failure) :
    ∃ code message, failure = .jsonRpcError code message := by
  cases hash with
  | none => exact ⟨_, _, (Except.error.inj hfail).symm⟩
  | some hash =>
    cases hindex : s.transactionMap.lookup hash with
    | none =>
      rw [fOnTransactionJson] at hfail
      simp only [hindex] at hfail
      exact ⟨_, _, (Except.error.inj hfail).symm⟩
    | some index =>
      rw [fOnTransactionJson_of_lookup hindex (hmap hash index hindex)] at hfail
      cases hfail

/-- The explorer reads outside the main chain of every indexed chain: a request
for the chain's own height reads {lit}`m_blockIndex` at it, every request up to
height 30 reads {lit}`m_blocks` at {lit}`0 - 1`, and the hash of an alternative
block reads {lit}`m_blocks` at the uninitialised height. -/
theorem explorerHandlers_read_past_chain (s : Blockchain) (hs : s.Indexed) :
    fOnBlocksListJson s s.getHeight.toUInt64 = .error (.outOfRange s.blocks.length) ∧
    (∀ height : UInt64, height ≤ 30 → height < s.getHeight.toUInt64 →
      fOnBlocksListJson s height = .error (.outOfRange (2 ^ 32 - 1))) ∧
    (∀ (reqHash : String) (hash : Hash) (height : UInt32), hash ∉ s.blockIndex →
      hash ∈ s.alternativeChains →
      fOnBlockJson s reqHash hash height = BlockEntry.bl <$> s.getBlock height) := by
  refine ⟨?_, ?_, ?_⟩
  · have hle : s.getHeight.toUInt64 ≤ s.getHeight.toUInt64 := UInt64.le_refl _
    obtain ⟨hnat, -, hlast⟩ := toNat_request hs hle
    have hheight : s.getHeight.toUInt64.toNat = s.blocks.length := by
      rw [UInt32.toNat_toUInt64, hs.toNat_getHeight]
    have hi : s.getHeight.toUInt64.toUInt32.toNat = s.blocks.length := hnat.trans hheight
    rw [fOnBlocksListJson_of_le hle]
    refine blocksListLoop_of_error (by rw [hlast, hi, ← hheight]; omega) ?_ _
    rw [blockShortAt_of_le hs hi.ge, hi]
  · intro height h30 hlt
    obtain ⟨hnat, hlen, -⟩ := toNat_request hs (UInt64.le_of_lt hlt)
    have hlen' : height.toNat < s.blocks.length := toNat_lt_of_lt_getHeight hs hlt
    rw [fOnBlocksListJson_of_le (UInt64.le_of_lt hlt), if_pos h30]
    exact blocksListLoop_zero hs _ _ (by rw [hnat]; exact hlen') (by omega)
  · intro reqHash hash height hindex halt
    have hhave : s.haveBlock hash = true := by simp [Blockchain.haveBlock, halt]
    have hnone : s.getBlockHeight hash = none := BlockIndex.getBlockHeight_of_not_mem hindex
    rw [fOnBlockJson, hhave, hnone]
    simp only [Bool.not_true, Bool.false_eq_true, if_false, Option.getD_none]
    cases s.getBlock height <;> rfl

/-- The hash of {lit}`explorerChain`'s alternative block. -/
def alternativeHash : Hash := ⟨1 :: List.replicate 31 0, by simp⟩

/-- A chain of one value-initialised block under the zero hash, beside a
value-initialised alternative block. -/
def explorerChain : Blockchain :=
  { Blockchain.empty Checkpoints.empty TxMemoryPool.empty with
    blocks := [default]
    blockIndex := [default]
    alternativeChains := Finmap.singleton alternativeHash default }

/-- A chain of one block: the list at heights one and zero, and an alternative
block read at a height past the chain. -/
theorem explorerHandlers_read_past_chain_sample :
    explorerChain.Indexed ∧
    fOnBlocksListJson explorerChain 1 = .error (.outOfRange 1) ∧
    fOnBlocksListJson explorerChain 0 = .error (.outOfRange (2 ^ 32 - 1)) ∧
    fOnBlockJson explorerChain "" alternativeHash 7 = .error (.outOfRange 7) := by
  have hs : explorerChain.Indexed := ⟨rfl, List.nodup_singleton _, by simp [explorerChain]⟩
  obtain ⟨h1, h2, h3⟩ := explorerHandlers_read_past_chain explorerChain hs
  refine ⟨hs, h1, h2 0 (by decide) (by decide), ?_⟩
  rw [h3 "" alternativeHash 7 (by decide) (by simp [explorerChain])]
  rfl

end RpcServer

end CryptoNote

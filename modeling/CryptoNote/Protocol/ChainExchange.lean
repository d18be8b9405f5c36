import CryptoNote.Protocol.Link
import CryptoNote.Protocol.GetObjects

/-!
# Two nodes exchange their chains

The core that a node's protocol handler calls answers from the node's
blockchain (src/cryptonote/core/core.cpp).  It says whether it has a block,
builds the sparse chain of its tail, gives the id at a height and the supplement
of a peer's sparse chain.  Take two nodes whose main chains part above height
{lit}`f`.  The synchronising node {lit}`a` sends the sparse chain of its top, at
height {lit}`t`.  The peer {lit}`b` answers from the first of those ids it has,
at height {lit}`supplementHeight f t`, with at most 10000 of its ids.  Then
{lit}`a` asks for those it lacks, 200 at a time, or, when it lacks none and the
answer ends below the peer's top, for the chain again.

Main results:

- Theorem {lit}`handleRequestChain_protocolCore`: over the core, the handler
  answers a chain request as {lit}`Blockchain.handleRequestChain` does.
- Theorem {lit}`chainExchange_requests`: when the peer's answer reaches above
  the fork, the exchange ends with {lit}`a` needing exactly the peer's ids above
  the fork in the answer, asking for the first 200 of them.
- Theorem {lit}`deepFork_stalls`: when the answer ends at or below the fork and
  below the peer's top, every run of the link in which the cores do not change
  keeps {lit}`a` synchronising without asking for a single block, with its
  chain request or the peer's answer always in flight.
-/

namespace CryptoNote

namespace Core

open ByteCodec Protocol

/-! ## The core over the blockchain -/

/-- {lit}`core::buildSparseChain()`: the index's sparse chain of its tail
({lit}`Blockchain::buildSparseChain`, {lit}`BlockIndex::getTailId`); the source
asserts that the chain is not empty. -/
def buildSparseChain (s : Blockchain) : List Hash :=
  BlockIndex.buildSparseChain s.blockIndex (s.blockIndex.getLastD default)

/-- {lit}`core::getBlockIdByHeight`: the id at a height of the chain, the null
hash at or past its top. -/
def getBlockIdByHeight (s : Blockchain) (height : UInt32) : Hash :=
  if height < s.getHeight then s.blockIndex.getD height.toNat default else nullHash

/-- {lit}`core::findBlockchainSupplement`, through the four-argument
{lit}`Blockchain::findBlockchainSupplement`: the first height of the remote ids
that the main chain holds, the chain's height, and at most {lit}`maxCount` ids
from there.  A chain that holds none of them fails the source's assertions and
leaves the start unset; the model starts at {lit}`0`. -/
def findBlockchainSupplement (s : Blockchain) (remoteBlockIds : List Hash) (maxCount : UInt32) :
    Blockchain.ResponseChainEntry :=
  let startBlockIndex := (s.findBlockchainSupplement remoteBlockIds).getD 0
  { startHeight := startBlockIndex
    totalHeight := s.getHeight
    blockIds := BlockIndex.getBlockIds s.blockIndex startBlockIndex maxCount }

/-- {lit}`CryptoNoteProtocolHandler::get_payload_sync_data`: the height of the
top block plus one, and the top's id ({lit}`core::get_blockchain_top`). -/
def getPayloadSyncData (s : Blockchain) : CoreSyncData :=
  ⟨s.getHeight - 1 + 1, s.getTailId⟩

/-- What the core does besides answering from its chain: taking in the blob of
a transaction or of a block, and the pool's side. -/
structure Intake where
  handleIncomingTx : Blockchain → Bytes → Bool → TxVerificationContext × Blockchain
  handleIncomingBlockBlob : Blockchain → Bytes → Bool → Bool → BlockVerificationContext × Blockchain
  getPoolTransactionIds : Blockchain → List Hash
  getPoolChanges : Blockchain → List Hash → List Transaction × Multiset Hash

/-- {lit}`ICore` as {lit}`core` implements it over the node's blockchain: the
chain queries and the answer to a request for objects
({lit}`Blockchain::handleGetObjects`) are the model's, the rest the intake's. -/
def protocolCore (intake : Intake) : ProtocolCore Blockchain where
  haveBlock := Blockchain.haveBlock
  buildSparseChain := buildSparseChain
  handleIncomingTx := intake.handleIncomingTx
  handleIncomingBlockBlob := intake.handleIncomingBlockBlob
  getPoolTransactionIds := intake.getPoolTransactionIds
  handleGetObjects := Blockchain.handleGetObjects
  getBlockIdByHeight := getBlockIdByHeight
  findBlockchainSupplement := findBlockchainSupplement
  getPoolChanges := intake.getPoolChanges

/-- A height below the wrap of {lit}`uint32` survives the round trip through it. -/
theorem toNat_toUInt32_of_lt {n : Nat} (h : n < 2 ^ 32) : n.toUInt32.toNat = n := by
  rw [Nat.toUInt32_eq, UInt32.toNat_ofNat', Nat.mod_eq_of_lt h]

/-- On a chain with a block per id, the genesis id is the id at height {lit}`0`. -/
theorem getBlockIdByHeight_zero {s : Blockchain} (hblocks : s.blocks.length = s.blockIndex.length)
    (hne : s.blockIndex ≠ []) (hwrap : s.blockIndex.length < 2 ^ 32) :
    getBlockIdByHeight s 0 = s.blockIndex.getD 0 default := by
  have hpos : 0 < s.blockIndex.length := List.length_pos_iff.mpr hne
  have hheight : (0 : UInt32) < s.getHeight := by
    rw [UInt32.lt_iff_toNat_lt, Blockchain.getHeight, hblocks, toNat_toUInt32_of_lt hwrap]
    exact hpos
  rw [getBlockIdByHeight, if_pos hheight]
  rfl

/-- Over the core, the handler answers a chain request as
{lit}`Blockchain.handleRequestChain` does, on a chain with a block per id: the
sparse chain ends with the genesis id, which the chain holds, so the supplement
is found. -/
theorem handleRequestChain_protocolCore (intake : Intake) {s : Blockchain}
    (hblocks : s.blocks.length = s.blockIndex.length) (hne : s.blockIndex ≠ [])
    (hwrap : s.blockIndex.length < 2 ^ 32) (ctx : ConnectionContext) (blockIds : List Hash) :
    handleRequestChain (protocolCore intake) s ctx blockIds =
      match s.handleRequestChain blockIds with
      | none => ({ ctx with state := .shutdown }, [])
      | some entry => (ctx, [.post (.responseChainEntry entry)]) := by
  have hgenesis : (protocolCore intake).getBlockIdByHeight s 0 = s.blockIndex.getD 0 default :=
    getBlockIdByHeight_zero hblocks hne hwrap
  unfold handleRequestChain Blockchain.handleRequestChain
  rw [hgenesis]
  by_cases hnil : blockIds = []
  · simp [hnil]
  rw [if_neg hnil, if_neg hnil]
  by_cases hlast : blockIds.getLast? ≠ some (s.blockIndex.getD 0 default)
  · rw [if_pos hlast, if_pos hlast]
  -- the genesis id closes the request, so the index finds a height
  rw [if_neg hlast, if_neg hlast]
  rw [not_not] at hlast
  have hpos : 0 < s.blockIndex.length := List.length_pos_iff.mpr hne
  have hgenesisMem : s.blockIndex.getD 0 default ∈ s.blockIndex := by
    rw [List.getD_eq_getElem _ _ hpos]
    exact List.getElem_mem hpos
  have hfound : (s.findBlockchainSupplement blockIds).isSome :=
    findSupplement_isSome (List.mem_of_getLast? hlast) hgenesisMem
  obtain ⟨start, hstart⟩ := Option.isSome_iff_exists.mp hfound
  simp [hstart, protocolCore, findBlockchainSupplement]

end Core

namespace BlockIndex

/-- The ids {lit}`BlockIndex::getBlockIds` returns from a height of the index
below the wrap: those of the heights from there, at most {lit}`maxCount`. -/
theorem getBlockIds_eq_map {container : List Hash} {start : Nat} (hstart : start < container.length)
    (hwrap : start < 2 ^ 32) (maxCount : UInt32) :
    getBlockIds container start.toUInt32 maxCount =
      (List.range' start (min maxCount.toNat (container.length - start))).map
        fun h => container.getD h default := by
  rw [getBlockIds, Core.toNat_toUInt32_of_lt hwrap, if_neg (by omega)]
  apply List.ext_getElem
  · simp
  · intro i h₁ h₂
    have hi : start + i < container.length := by
      simp at h₁
      omega
    simp [List.getElem?_eq_getElem hi]

end BlockIndex

namespace Protocol

open BlockIndex

/-! ## Two chains that part -/

/-- Two nodes whose main chains part above height {lit}`f`: the ids of each
are distinct and one per block, the top of {lit}`a` is at height {lit}`t`, both
heights fit in {lit}`uint32`, the ids agree up to {lit}`f`, and none of
{lit}`a`'s above it is in {lit}`b`'s main chain. -/
structure Forked (a b : Blockchain) (f t : Nat) : Prop where
  nodupA : a.blockIndex.Nodup
  nodupB : b.blockIndex.Nodup
  blocksA : a.blocks.length = a.blockIndex.length
  blocksB : b.blocks.length = b.blockIndex.length
  heightA : a.blockIndex.length = t + 1
  forkLe : f ≤ t
  forkLt : f < b.blockIndex.length
  wrapA : t + 1 < 2 ^ 32
  wrapB : b.blockIndex.length < 2 ^ 32
  shared : ∀ h ≤ f, a.blockIndex.getD h default = b.blockIndex.getD h default
  parted : ∀ h < a.blockIndex.length, f < h → a.blockIndex.getD h default ∉ b.blockIndex

namespace Forked

variable {a b : Blockchain} {f t : Nat}

/-- The top of {lit}`a` is its id at height {lit}`t`. -/
theorem tailId (hfork : Forked a b f t) :
    a.blockIndex.getLastD default = a.blockIndex.getD t default := by
  rw [List.getLastD_eq_getLast?, List.getLast?_eq_getElem?, hfork.heightA, Nat.add_sub_cancel,
    List.getD_eq_getElem?_getD]

/-- {lit}`a` sends the sparse chain of its id at height {lit}`t`. -/
theorem sparseChain (hfork : Forked a b f t) :
    Core.buildSparseChain a = BlockIndex.buildSparseChain a.blockIndex (a.blockIndex.getD t default) := by
  rw [Core.buildSparseChain, hfork.tailId]

/-- {lit}`b` finds the sparse chain of {lit}`a` at {lit}`supplementHeight f t`. -/
theorem findSupplement (hfork : Forked a b f t) :
    b.findBlockchainSupplement (Core.buildSparseChain a) = some (supplementHeight f t).toUInt32 := by
  rw [hfork.sparseChain]
  exact buildSparseChain_findSupplement_eq hfork.nodupA hfork.nodupB hfork.forkLt hfork.forkLe
    (by rw [hfork.heightA]; omega) hfork.wrapA hfork.shared hfork.parted

/-- The supplement {lit}`b` builds for {lit}`a`: its ids from the height found,
at most {lit}`maxCount`, and its height. -/
theorem supplement (hfork : Forked a b f t) (maxCount : UInt32) :
    Core.findBlockchainSupplement b (Core.buildSparseChain a) maxCount =
      { startHeight := (supplementHeight f t).toUInt32
        totalHeight := b.getHeight
        blockIds := (List.range' (supplementHeight f t)
          (min maxCount.toNat (b.blockIndex.length - supplementHeight f t))).map
            fun h => b.blockIndex.getD h default } := by
  have hs := supplementHeight_le f t
  rw [Core.findBlockchainSupplement, hfork.findSupplement, Option.getD_some,
    getBlockIds_eq_map (by have := hfork.forkLt; omega)
      (by have := hfork.wrapB; have := hfork.forkLt; omega)]

/-- {lit}`b` answers {lit}`a`'s chain request with its supplement. -/
theorem serves (hfork : Forked a b f t) (intake : Core.Intake) (ctx : ConnectionContext) :
    handleRequestChain (Core.protocolCore intake) b ctx (Core.buildSparseChain a) =
      (ctx, [.post (.responseChainEntry (Core.findBlockchainSupplement b (Core.buildSparseChain a)
        Blockchain.blocksIdsSynchronizingDefaultCount))]) := by
  have hne : b.blockIndex ≠ [] := List.ne_nil_of_length_pos (by have := hfork.forkLt; omega)
  have hlast : (Core.buildSparseChain a).getLast? =
      some ((Core.protocolCore intake).getBlockIdByHeight b 0) := by
    rw [hfork.sparseChain, getLast?_buildSparseChain, hfork.shared 0 (Nat.zero_le _)]
    exact congrArg some (Core.getBlockIdByHeight_zero hfork.blocksB hne hfork.wrapB).symm
  have hsome : Core.buildSparseChain a ≠ [] := fun hnil => by
    rw [hnil, List.getLast?_nil] at hlast
    cases hlast
  rw [handleRequestChain, if_neg hsome, if_neg (not_not.mpr hlast)]
  rfl

/-- {lit}`a` has the ids of {lit}`b` up to the fork. -/
theorem haveBlock_shared (hfork : Forked a b f t) {h : Nat} (hh : h ≤ f) :
    a.haveBlock (b.blockIndex.getD h default) = true := by
  have hlt : h < a.blockIndex.length := by
    have := hfork.forkLe
    rw [hfork.heightA]
    omega
  rw [← hfork.shared h hh, Blockchain.haveBlock, List.getD_eq_getElem _ _ hlt]
  simp [List.getElem_mem hlt]

/-- {lit}`a` lacks none of {lit}`b`'s ids at heights up to the fork. -/
theorem filter_shared (hfork : Forked a b f t) {s n : Nat} (hend : s + n ≤ f + 1) :
    ((List.range' s n).map fun h => b.blockIndex.getD h default).filter
      (fun id => !a.haveBlock id) = [] := by
  rw [List.filter_eq_nil_iff]
  intro id hid
  obtain ⟨h, hh, rfl⟩ := List.mem_map.mp hid
  rw [List.mem_range'_1] at hh
  rw [hfork.haveBlock_shared (show h ≤ f by omega)]
  decide

/-- Of {lit}`b`'s ids from a height at or below the fork, {lit}`a` lacks exactly
those above the fork, when it knows none of them. -/
theorem filter_reaching (hfork : Forked a b f t)
    (hunknown : ∀ h < b.blockIndex.length, f < h → a.haveBlock (b.blockIndex.getD h default) = false)
    {s n : Nat} (hs : s ≤ f) (hreach : f + 1 < s + n) (hend : s + n ≤ b.blockIndex.length) :
    ((List.range' s n).map fun h => b.blockIndex.getD h default).filter
        (fun id => !a.haveBlock id) =
      (List.range' (f + 1) (s + n - (f + 1))).map fun h => b.blockIndex.getD h default := by
  have hsplit : List.range' s n =
      List.range' s (f + 1 - s) ++ List.range' (f + 1) (s + n - (f + 1)) := by
    have happend : List.range' s (f + 1 - s) ++ List.range' (s + 1 * (f + 1 - s)) (s + n - (f + 1)) =
        List.range' s (f + 1 - s + (s + n - (f + 1))) :=
      List.range'_append
    rw [show s + 1 * (f + 1 - s) = f + 1 by omega,
      show f + 1 - s + (s + n - (f + 1)) = n by omega] at happend
    exact happend.symm
  rw [hsplit, List.map_append, List.filter_append, hfork.filter_shared (by omega), List.nil_append,
    List.filter_eq_self]
  intro id hid
  obtain ⟨h, hh, rfl⟩ := List.mem_map.mp hid
  rw [List.mem_range'_1] at hh
  rw [hunknown h (by omega) (by omega)]
  rfl

end Forked

/-! ## The exchange -/

/-- The last height of an answer of {lit}`y` ids from height {lit}`x`, below the
wrap of {lit}`uint32`. -/
theorem toNat_lastHeight {x y : Nat} (hy : 0 < y) (hwrap : x + y < 2 ^ 32) :
    (x.toUInt32 + y.toUInt32 - 1).toNat = x + y - 1 := by
  have hsum : (x.toUInt32 + y.toUInt32).toNat = x + y := by
    rw [UInt32.toNat_add, Core.toNat_toUInt32_of_lt (by omega), Core.toNat_toUInt32_of_lt (by omega),
      Nat.mod_eq_of_lt hwrap]
  have hone : (1 : UInt32) ≤ x.toUInt32 + y.toUInt32 := by
    rw [UInt32.le_iff_toNat_le, hsum]
    simp
    omega
  rw [UInt32.toNat_sub_of_le _ _ hone, hsum]
  rfl

/-- An answer that ends at or below the peer's top passes the check of its heights. -/
theorem lastHeight_not_gt {x y L : Nat} (hy : 0 < y) (hend : x + y ≤ L) (hwrap : L < 2 ^ 32) :
    ¬x.toUInt32 + y.toUInt32 - 1 > L.toUInt32 := by
  rw [gt_iff_lt, UInt32.lt_iff_toNat_lt, toNat_lastHeight hy (by omega),
    Core.toNat_toUInt32_of_lt hwrap]
  omega

/-- An answer that ends below the peer's top leaves the chain to ask for. -/
theorem lastHeight_lt_pred {x y L : Nat} (hy : 0 < y) (hend : x + y < L) (hwrap : L < 2 ^ 32) :
    x.toUInt32 + y.toUInt32 - 1 < L.toUInt32 - 1 := by
  have hone : (1 : UInt32) ≤ L.toUInt32 := by
    rw [UInt32.le_iff_toNat_le, Core.toNat_toUInt32_of_lt hwrap]
    simp
    omega
  rw [UInt32.lt_iff_toNat_lt, toNat_lastHeight hy (by omega), UInt32.toNat_sub_of_le _ _ hone,
    Core.toNat_toUInt32_of_lt hwrap]
  simp
  omega

/-- The ids of {lit}`b`'s answer that {lit}`a` lacks: those above the fork, up
to the end of the answer, at most 10000 ids from the height found. -/
def lackingIds (b : Blockchain) (f t : Nat) : List Hash :=
  (List.range' (f + 1) (min (supplementHeight f t + 10000) b.blockIndex.length - (f + 1))).map
    fun h => b.blockIndex.getD h default

namespace Forked

variable {a b : Blockchain} {f t : Nat}

/-- The answer of {lit}`b` holds 10000 ids from the height found, or those up
to its top. -/
theorem supplement_default (hfork : Forked a b f t) :
    Core.findBlockchainSupplement b (Core.buildSparseChain a)
        Blockchain.blocksIdsSynchronizingDefaultCount =
      { startHeight := (supplementHeight f t).toUInt32
        totalHeight := b.blocks.length.toUInt32
        blockIds := (List.range' (supplementHeight f t)
          (min 10000 (b.blockIndex.length - supplementHeight f t))).map
            fun h => b.blockIndex.getD h default } :=
  hfork.supplement _

/-- {lit}`a` takes in {lit}`b`'s answer: it starts at a block {lit}`a` has, at
the height found, and ends at or below {lit}`b`'s top. -/
theorem handleResponseChainEntry_eq (hfork : Forked a b f t) (intake : Core.Intake)
    (ctx : ConnectionContext) :
    handleResponseChainEntry (Core.protocolCore intake) a ctx
        (Core.findBlockchainSupplement b (Core.buildSparseChain a)
          Blockchain.blocksIdsSynchronizingDefaultCount) =
      let n := min 10000 (b.blockIndex.length - supplementHeight f t)
      let window := (List.range' (supplementHeight f t) n).map fun h => b.blockIndex.getD h default
      ((requestMissingObjects (Core.protocolCore intake) a { ctx with
          remoteBlockchainHeight := b.blocks.length.toUInt32
          lastResponseHeight := (supplementHeight f t).toUInt32 + n.toUInt32 - 1
          neededObjects := ctx.neededObjects ++ window.filter fun id => !a.haveBlock id }
          false).2.1,
        (requestMissingObjects (Core.protocolCore intake) a { ctx with
          remoteBlockchainHeight := b.blocks.length.toUInt32
          lastResponseHeight := (supplementHeight f t).toUInt32 + n.toUInt32 - 1
          neededObjects := ctx.neededObjects ++ window.filter fun id => !a.haveBlock id }
          false).2.2) := by
  have hs : supplementHeight f t ≤ f := supplementHeight_le f t
  have hL := hfork.forkLt
  have hpos : 0 < min 10000 (b.blockIndex.length - supplementHeight f t) := by omega
  have hfirst : ((List.range' (supplementHeight f t)
      (min 10000 (b.blockIndex.length - supplementHeight f t))).map
        fun h => b.blockIndex.getD h default).head? =
      some (b.blockIndex.getD (supplementHeight f t) default) := by
    simp [List.head?_range', Nat.pos_iff_ne_zero.mp hpos]
  have hheights : ¬(supplementHeight f t).toUInt32 +
      (min 10000 (b.blockIndex.length - supplementHeight f t)).toUInt32 - 1 >
        b.blocks.length.toUInt32 := by
    rw [hfork.blocksB]
    exact lastHeight_not_gt hpos (by omega) hfork.wrapB
  rw [hfork.supplement_default, handleResponseChainEntry_of_have _ hfirst
    (hfork.haveBlock_shared hs) (by simpa using hheights)]
  simp [Core.protocolCore]

/-- An answer that ends at or below the fork and below {lit}`b`'s top makes
{lit}`a` ask for the chain again: it has every id of the answer. -/
theorem asksAgain (hfork : Forked a b f t) (intake : Core.Intake)
    (hdeep : supplementHeight f t + 10000 ≤ f + 1) (hbehind : f + 1 < b.blockIndex.length) :
    AsksAgain (Core.protocolCore intake) a
      (Core.findBlockchainSupplement b (Core.buildSparseChain a)
        Blockchain.blocksIdsSynchronizingDefaultCount)
      (Core.buildSparseChain a) := by
  intro ctx hsync hclear
  have hn : min 10000 (b.blockIndex.length - supplementHeight f t) = 10000 := by omega
  have hbehind' : (supplementHeight f t).toUInt32 + (10000 : Nat).toUInt32 - 1 <
      b.blocks.length.toUInt32 - 1 := by
    rw [hfork.blocksB]
    exact lastHeight_lt_pred (by omega) (by omega) hfork.wrapB
  rw [hfork.handleResponseChainEntry_eq intake ctx]
  dsimp only
  rw [hn, hfork.filter_shared hdeep, hclear.1, List.append_nil,
    requestMissingObjects_of_behind (Core.protocolCore intake)]
  · exact ⟨hsync, ⟨rfl, hclear.2⟩, rfl⟩
  · rfl
  · exact hbehind'

/-- An answer that reaches above the fork makes {lit}`a`, which knows none of
{lit}`b`'s ids above it, need exactly those of the answer and ask for the first
200 of them. -/
theorem handleResponseChainEntry_reaching (hfork : Forked a b f t) (intake : Core.Intake)
    (hunknown : ∀ h < b.blockIndex.length, f < h → a.haveBlock (b.blockIndex.getD h default) = false)
    (hreach : f + 1 < min (supplementHeight f t + 10000) b.blockIndex.length)
    {ctx : ConnectionContext} (hclear : StartSyncAssertion ctx) :
    ∃ ctx' : ConnectionContext,
      handleResponseChainEntry (Core.protocolCore intake) a ctx
          (Core.findBlockchainSupplement b (Core.buildSparseChain a)
            Blockchain.blocksIdsSynchronizingDefaultCount) =
        (ctx', [.post (.requestGetObjects ⟨[], (lackingIds b f t).take 200⟩)]) ∧
      ctx'.state = ctx.state ∧ ctx'.neededObjects = (lackingIds b f t).drop 200 ∧
      ctx'.requestedObjects = ((lackingIds b f t).take 200).toFinset := by
  have hs : supplementHeight f t ≤ f := supplementHeight_le f t
  have hlacking : ((List.range' (supplementHeight f t)
      (min 10000 (b.blockIndex.length - supplementHeight f t))).map
        fun h => b.blockIndex.getD h default).filter (fun id => !a.haveBlock id) =
      lackingIds b f t := by
    rw [hfork.filter_reaching hunknown hs (by omega) (by omega), lackingIds]
    congr 2
    omega
  have hne : lackingIds b f t ≠ [] := by
    simp [lackingIds]
    omega
  rw [hfork.handleResponseChainEntry_eq intake ctx]
  dsimp only
  rw [hlacking, hclear.1, List.nil_append, requestMissingObjects_of_needed (Core.protocolCore intake)]
  · rw [takeNeeded_unchecked]
    exact ⟨_, rfl, rfl, rfl, by simp [hclear.2]⟩
  · exact hne

end Forked

/-! ## The exchange over the link -/

section Exchange

variable (intake : Core.Intake) (env : ChainEnv)

/-- On the link of a node {lit}`a` that has just started to synchronise from a
synchronised peer {lit}`b` whose chain parts from its own above height
{lit}`f`, an answer of {lit}`b` that reaches above the fork, with none of
{lit}`b`'s ids above it known to {lit}`a`: once {lit}`b` has read the chain
request and {lit}`a` the answer, {lit}`a` still synchronises, needs exactly
{lit}`b`'s ids of the answer above the fork, and has asked for the first 200
of them, the only message in flight. -/
theorem chainExchange_requests {a b : Blockchain} {f t : Nat} (hfork : Forked a b f t)
    (hunknown : ∀ h < b.blockIndex.length, f < h → a.haveBlock (b.blockIndex.getD h default) = false)
    (hreach : f + 1 < min (supplementHeight f t + 10000) b.blockIndex.length)
    {l : Link Blockchain} (hnodeA : l.a.node = a) (hnodeB : l.b.node = b)
    (hsync : l.a.ctx.state = .synchronizing) (hclear : StartSyncAssertion l.a.ctx)
    (hnormal : l.b.ctx.state = .normal)
    (htoB : l.toB = [.notify (.requestChain (Core.buildSparseChain a))]) (htoA : l.toA = [])
    (stop₁ stop₂ : Bool) :
    let l' := [LinkEvent.receiveB stop₁, .receiveA stop₂].foldl
      (Link.step (Core.protocolCore intake) env Core.getPayloadSyncData) l
    l'.a.ctx.state = .synchronizing ∧ l'.a.ctx.neededObjects = (lackingIds b f t).drop 200 ∧
      l'.a.ctx.requestedObjects = ((lackingIds b f t).take 200).toFinset ∧
      l'.toB = [.notify (.requestGetObjects ⟨[], (lackingIds b f t).take 200⟩)] ∧ l'.toA = [] := by
  intro l'
  have hserve : handleRequestChain (Core.protocolCore intake) l.b.node l.b.ctx
      (Core.buildSparseChain a) = (l.b.ctx, [.post (.responseChainEntry
        (Core.findBlockchainSupplement b (Core.buildSparseChain a)
          Blockchain.blocksIdsSynchronizingDefaultCount))]) := by
    rw [hnodeB]
    exact hfork.serves intake l.b.ctx
  obtain ⟨ctx', hentry, hstate, hneeded, hrequested⟩ :=
    hfork.handleResponseChainEntry_reaching intake hunknown hreach hclear
  simp only [l', List.foldl_cons, List.foldl_nil, Link.step, htoB,
    Connection.receive_requestChain (Core.protocolCore intake) env Core.getPayloadSyncData hnormal
      hserve, htoA, List.nil_append,
    Connection.receive_responseChainEntry (Core.protocolCore intake) env Core.getPayloadSyncData hsync,
    hnodeA, hentry]
  refine ⟨hstate.trans hsync, hneeded, hrequested, ?_, ?_⟩ <;> simp [Notify.toMessage]

/-- A core that takes nothing in and whose pool is empty. -/
def idleIntake : Core.Intake :=
  ⟨fun s _ _ => ({}, s), fun s _ _ _ => ({}, s), fun _ => [], fun _ _ => ([], 0)⟩

/-- A chain of the numbered ids {lit}`0, ..., n - 1` over blocks of its own,
with the given alternative blocks. -/
def numberedBlockchain (ids : List Hash) (alternativeChains : Finmap fun _ : Hash => BlockEntry) :
    Blockchain :=
  { Blockchain.empty Checkpoints.empty TxMemoryPool.empty with
    blocks := List.replicate ids.length default
    blockIndex := ids
    alternativeChains }

/-- The link of a node that has just started to synchronise from a synchronised
peer, the node's chain request in flight. -/
def startedLink (a b : Blockchain) : Link Blockchain :=
  ⟨⟨a, { ConnectionContext.new p2pProtocolVersionV1 with state := .synchronizing }, [], 0⟩,
    ⟨b, { ConnectionContext.new p2pProtocolVersionV1 with state := .normal }, [], 0⟩,
    [], [.notify (.requestChain (Core.buildSparseChain a))]⟩

/-- The chain of {lit}`0, ..., 4` and one that parts from it above height
{lit}`2` with the id of {lit}`7`: the answer from height {lit}`1` reaches above
the fork, and the node asks for the block of {lit}`7`. -/
theorem chainExchange_requests_five :
    let a := numberedBlockchain (numberedChain 5) ∅
    let b := numberedBlockchain (numberedChain 3 ++ [numberHash 7]) ∅
    let l' := [LinkEvent.receiveB false, .receiveA false].foldl
      (Link.step (Core.protocolCore idleIntake) Blockchain.sampleEnv Core.getPayloadSyncData)
        (startedLink a b)
    l'.a.ctx.state = .synchronizing ∧ l'.a.ctx.neededObjects = (lackingIds b 2 4).drop 200 ∧
      l'.a.ctx.requestedObjects = ((lackingIds b 2 4).take 200).toFinset ∧
      l'.toB = [.notify (.requestGetObjects ⟨[], (lackingIds b 2 4).take 200⟩)] ∧ l'.toA = [] := by
  intro a b l'
  have hfork : Forked a b 2 4 :=
    ⟨numberedChain_nodup (by omega), by decide, by simp [a, numberedBlockchain],
      by simp [b, numberedBlockchain], by simp [a, numberedBlockchain], by omega,
      by simp [b, numberedBlockchain], by omega, by simp [b, numberedBlockchain], by decide,
      by decide⟩
  exact chainExchange_requests idleIntake Blockchain.sampleEnv hfork (by decide)
    (by simp [b, numberedBlockchain]) rfl rfl rfl ⟨rfl, rfl⟩ rfl rfl rfl false false

/-- On the link of a node {lit}`a` that has just started to synchronise from a
synchronised peer {lit}`b` whose chain parts from its own above height
{lit}`f`, and which has {lit}`a`'s top block: when {lit}`b`'s answer ends at or
below the fork and below {lit}`b`'s top, then over every run of the link in
which the cores do not change, {lit}`a` stays synchronising over the same core,
asks for no block, and its chain request or {lit}`b`'s answer is in flight. -/
theorem deepFork_stalls {a b : Blockchain} {f t : Nat} (hfork : Forked a b f t)
    (hdeep : supplementHeight f t + 10000 ≤ f + 1) (hbehind : f + 1 < b.blockIndex.length)
    (hknown : b.haveBlock (a.blockIndex.getD t default) = true)
    {l : Link Blockchain} (hnodeA : l.a.node = a) (hnodeB : l.b.node = b)
    (hsync : l.a.ctx.state = .synchronizing) (hclear : StartSyncAssertion l.a.ctx)
    (hnormal : l.b.ctx.state = .normal)
    (htoB : l.toB = [.notify (.requestChain (Core.buildSparseChain a))]) (htoA : l.toA = [])
    (events : List (LinkEvent Blockchain)) (hquiet : ∀ e ∈ events, e.changesCore = false) :
    let l' := events.foldl (Link.step (Core.protocolCore intake) env Core.getPayloadSyncData) l
    l'.a.node = a ∧ l'.a.ctx.state = .synchronizing ∧ askedIds l'.a.effects = askedIds l.a.effects ∧
      (Wire.notify (.requestChain (Core.buildSparseChain a)) ∈ l'.toB ∨
        Wire.notify (.responseChainEntry (Core.findBlockchainSupplement b (Core.buildSparseChain a)
          Blockchain.blocksIdsSynchronizingDefaultCount)) ∈ l'.toA) := by
  intro l'
  have htop : (Core.protocolCore intake).haveBlock b (Core.getPayloadSyncData a).topId = true := by
    have hblocks : a.blocks.isEmpty = false := by
      rw [List.isEmpty_eq_false_iff, ← List.length_pos_iff, hfork.blocksA, hfork.heightA]
      omega
    show b.haveBlock a.getTailId = true
    rw [Blockchain.getTailId, if_neg (by rw [hblocks]; decide), nullHash, hfork.tailId]
    exact hknown
  have hstart : ChainLoop Core.getPayloadSyncData a b (Core.buildSparseChain a)
      (Core.findBlockchainSupplement b (Core.buildSparseChain a)
        Blockchain.blocksIdsSynchronizingDefaultCount) (askedIds l.a.effects) l :=
    { nodeA := hnodeA
      nodeB := hnodeB
      stateA := hsync
      clearA := hclear
      askedA := rfl
      stateB := hnormal
      towardsB := by simp [htoB]
      towardsA := by simp [htoA]
      inFlight := by simp [htoB, htoA] }
  have hend : ChainLoop Core.getPayloadSyncData a b (Core.buildSparseChain a)
      (Core.findBlockchainSupplement b (Core.buildSparseChain a)
        Blockchain.blocksIdsSynchronizingDefaultCount) (askedIds l.a.effects) l' :=
    Link.chainLoop_run hstart (fun ctx _ => hfork.serves intake ctx)
      (hfork.asksAgain intake hdeep hbehind) htop events hquiet
  refine ⟨hend.nodeA, hend.stateA, hend.askedA, ?_⟩
  by_cases hrequest : Wire.notify (.requestChain (Core.buildSparseChain a)) ∈ l'.toB
  · exact Or.inl hrequest
  · have hcount := hend.inFlight
    rw [List.count_eq_zero_of_not_mem hrequest] at hcount
    exact Or.inr (List.count_pos_iff.mp (by omega))

/-- A chain of the ids of {lit}`0, ..., 32767` and one that holds those up to
{lit}`16383`, then the id of {lit}`40000`, and has the first's top as an
alternative block.  The answer from height {lit}`0` holds 10000 ids below the
fork, and in a run of answers and timed syncs the node asks for no block. -/
theorem deepFork_stalls_numbered :
    let a := numberedBlockchain (numberedChain 32768) ∅
    let b := numberedBlockchain (numberedChain 16384 ++ [numberHash 40000])
      (Finmap.singleton (numberHash 32767) default)
    let events := [LinkEvent.receiveB false, .timedSyncB, .receiveA false, .receiveA false,
      .receiveB false]
    let l' := events.foldl
      (Link.step (Core.protocolCore idleIntake) Blockchain.sampleEnv Core.getPayloadSyncData)
        (startedLink a b)
    l'.a.node = a ∧ l'.a.ctx.state = .synchronizing ∧
      askedIds l'.a.effects = askedIds (startedLink a b).a.effects ∧
      (Wire.notify (.requestChain (Core.buildSparseChain a)) ∈ l'.toB ∨
        Wire.notify (.responseChainEntry (Core.findBlockchainSupplement b (Core.buildSparseChain a)
          Blockchain.blocksIdsSynchronizingDefaultCount)) ∈ l'.toA) := by
  intro a b events
  -- the sparse chain of height 32767 reaches the fork of depth 16385 at 32768 - 2 ^ 15 = 0
  have hclog : 15 ≤ Nat.clog 2 16385 := by
    by_contra hlt
    have hle := (Nat.clog_le_iff_le_pow (by omega)).mp (show Nat.clog 2 16385 ≤ 14 by omega)
    norm_num at hle
  have hdeep : supplementHeight 16383 32767 + 10000 ≤ 16383 + 1 := by
    have hpow : 2 ^ 15 ≤ 2 ^ Nat.clog 2 16385 := Nat.pow_le_pow_right (by omega) hclog
    unfold supplementHeight
    rw [show 32767 + 1 - 16383 = 16385 from rfl]
    generalize 2 ^ Nat.clog 2 16385 = p at hpow ⊢
    omega
  have hparted : numberHash 40000 ∉ numberedChain 16384 := by
    rw [numberHash_mem_numberedChain (by norm_num) (by norm_num)]
    omega
  have hnodupA : (numberedChain 32768).Nodup := numberedChain_nodup (by omega)
  have hnodupB : (numberedChain 16384 ++ [numberHash 40000]).Nodup :=
    (numberedChain_nodup (by omega)).append (List.nodup_singleton _)
      (List.disjoint_singleton.mpr hparted)
  have hfork : Forked a b 16383 32767 :=
    { nodupA := by
        simp only [a, numberedBlockchain]
        exact hnodupA
      nodupB := by
        simp only [b, numberedBlockchain]
        exact hnodupB
      blocksA := by simp only [a, numberedBlockchain, List.length_replicate]
      blocksB := by simp only [b, numberedBlockchain, List.length_replicate]
      heightA := by simp only [a, numberedBlockchain, length_numberedChain]
      forkLe := by omega
      forkLt := by
        simp only [b, numberedBlockchain, List.length_append, length_numberedChain,
          List.length_singleton]
        omega
      wrapA := by norm_num
      wrapB := by
        simp only [b, numberedBlockchain, List.length_append, length_numberedChain,
          List.length_singleton]
        norm_num
      shared := by
        intro h hh
        simp only [a, b, numberedBlockchain]
        rw [getD_numberedChain (by omega), List.getD_append _ _ _ _ (by simp; omega),
          getD_numberedChain (by omega)]
      parted := by
        intro h hh hfh hmem
        simp only [a, b, numberedBlockchain, length_numberedChain] at hh hmem
        rw [getD_numberedChain hh] at hmem
        rcases List.mem_append.mp hmem with hmem | hmem
        · rw [numberHash_mem_numberedChain (by omega) (by norm_num)] at hmem
          omega
        · have := numberHash_inj (by omega) (by norm_num) (List.mem_singleton.mp hmem)
          omega }
  have hknown : b.haveBlock (a.blockIndex.getD 32767 default) = true := by
    simp only [a, numberedBlockchain]
    rw [getD_numberedChain (by norm_num)]
    simp only [b, numberedBlockchain, Blockchain.haveBlock, Finmap.mem_singleton, decide_true,
      Bool.or_true]
  have hbehind : 16383 + 1 < b.blockIndex.length := by
    simp only [b, numberedBlockchain, List.length_append, length_numberedChain, List.length_singleton]
    omega
  have hquiet : ∀ e ∈ events, e.changesCore = false := by
    simp [events, LinkEvent.changesCore]
  exact @deepFork_stalls idleIntake Blockchain.sampleEnv a b 16383 32767 hfork hdeep hbehind hknown
    (startedLink a b) rfl rfl rfl ⟨rfl, rfl⟩ rfl rfl rfl events hquiet

end Exchange

end Protocol

end CryptoNote

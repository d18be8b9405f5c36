import CryptoNote.Core.QueryBlocks
import CryptoNote.Core.BlockIndex
import CryptoNote.Serialization.Format

/-!
# The block download protocol of a connection

{lit}`CryptoNoteProtocolHandler` keeps, for each connection, the ids it still
needs, the ids it has asked for and not yet received, and what the peer says
of its chain.  A chain entry from the peer ({lit}`NOTIFY_RESPONSE_CHAIN_ENTRY`)
adds the ids the core lacks to the needed ones; {lit}`request_missing_objects`
asks for up to {lit}`200` of them at a time ({lit}`NOTIFY_REQUEST_GET_OBJECTS`);
the answer ({lit}`NOTIFY_RESPONSE_GET_OBJECTS`) must hold exactly the asked
blocks before any of them reaches the core.  The serving side answers from its
chain ({lit}`Blockchain::handleGetObjects`)
(src/cryptonote/protocol/handler.cpp, src/cryptonote/core/blockchain.cpp,
src/p2p/NetNode.cpp).

The core of the node is given by the calls the handler makes of it, over any
state; between two messages of the connection the core may change in any way,
as other connections and the miner work on it.

Main results:

- Theorem {lit}`checkResponse_eq_some`: a response that passes the checks of
  {lit}`handle_response_get_objects` holds one block for each id asked for and
  not yet received, and nothing else.
- Theorem {lit}`checkBlocks_of_forall`: conversely, entries that parse into
  blocks asked for, each once and each with its transactions, pass the loop of
  those checks.
- The spec lemmas of the handlers' branches ({lit}`requestMissingObjects_of_needed`,
  {lit}`handleResponseChainEntry_of_have`, {lit}`processPayloadSyncData_of_unknownTop`)
  and what each handler does to the ids asked for, which the connection's loop
  (Protocol/Connection.lean) and the serving side (Protocol/GetObjects.lean)
  build on.
-/

namespace CryptoNote
namespace Protocol

open ByteCodec

/-! ## Connections and messages -/

/-- {lit}`CryptoNoteConnectionContext::state`. -/
inductive ConnectionState where
  | beforeHandshake
  | synchronizing
  | idle
  | normal
  | syncRequired
  | poolSyncRequired
  | shutdown
deriving DecidableEq, Repr

/-- {lit}`CryptoNoteConnectionContext`, the fields the handler reads and writes:
the peer's protocol version, the state, the ids still needed, the ids asked for
and not yet received, and the peer's heights. -/
structure ConnectionContext where
  version : UInt8
  state : ConnectionState
  neededObjects : List Hash
  requestedObjects : Finset Hash
  remoteBlockchainHeight : UInt32
  lastResponseHeight : UInt32

/-- A new connection of a peer speaking the given version. -/
def ConnectionContext.new (version : UInt8) : ConnectionContext :=
  ⟨version, .beforeHandshake, [], ∅, 0, 0⟩

/-- {lit}`P2PProtocolVersion::V1`. -/
def p2pProtocolVersionV1 : UInt8 := 1

/-- {lit}`block_verification_context_t`, value-initialised. -/
structure BlockVerificationContext where
  addedToMainChain : Bool := false
  verificationFailed : Bool := false
  markedAsOrphaned : Bool := false
  alreadyExists : Bool := false
  switchedToAltChain : Bool := false
deriving DecidableEq, Repr

/-- {lit}`block_complete_entry_t`: a block's blob and its transactions' blobs. -/
structure BlockCompleteEntry where
  block : Bytes
  txs : List Bytes
deriving DecidableEq, Repr

/-- {lit}`NOTIFY_REQUEST_GET_OBJECTS::request`. -/
structure RequestGetObjects where
  txs : List Hash
  blocks : List Hash
deriving DecidableEq, Repr

/-- {lit}`NOTIFY_RESPONSE_GET_OBJECTS::request`. -/
structure ResponseGetObjects where
  txs : List Bytes
  blocks : List BlockCompleteEntry
  missedIds : List Hash
  currentBlockchainHeight : UInt32
deriving DecidableEq, Repr

/-- {lit}`CORE_SYNC_DATA`, the payload of the handshake and the timed sync. -/
structure CoreSyncData where
  currentHeight : UInt32
  topId : Hash
deriving DecidableEq, Repr

/-- {lit}`NOTIFY_NEW_BLOCK::request`. -/
structure NewBlock where
  b : BlockCompleteEntry
  currentBlockchainHeight : UInt32
  hop : UInt32
deriving DecidableEq, Repr

deriving instance DecidableEq, Repr for Blockchain.ResponseChainEntry

/-- What the handler posts on the connection. -/
inductive Notify where
  | requestChain (blockIds : List Hash)
  | requestGetObjects (request : RequestGetObjects)
  | requestTxPool (txs : List Hash)
  | responseGetObjects (response : ResponseGetObjects)
  | responseChainEntry (response : Blockchain.ResponseChainEntry)
  | newTransactions (txs : List Bytes)
deriving DecidableEq, Repr

/-- What a call of the handler does beyond the connection's state: a message
posted on it, a block or transactions relayed to the other peers, and
{lit}`on_connection_synchronized`. -/
inductive Effect where
  | post (notify : Notify)
  | relayNewBlock (arg : NewBlock)
  | relayTransactions (txs : List Bytes)
  | synchronized
deriving DecidableEq, Repr

/-- The core as the handler calls it, over its state {lit}`σ`: whether it has a
block, its sparse chain, the handling of a transaction's blob (kept by a block
or not) and of a block's blob (with the flags {lit}`control_miner` and
{lit}`relay_block`), the ids of the pool's transactions, the answer to a
request for objects, the id at a height, the supplement of a sparse chain (its
ids from the first one the chain has, at most the given count, with the
chain's height and that first height), and the pool's transactions a peer does
not know. -/
structure ProtocolCore (σ : Type) where
  haveBlock : σ → Hash → Bool
  buildSparseChain : σ → List Hash
  handleIncomingTx : σ → Bytes → Bool → TxVerificationContext × σ
  handleIncomingBlockBlob : σ → Bytes → Bool → Bool → BlockVerificationContext × σ
  getPoolTransactionIds : σ → List Hash
  handleGetObjects : σ → RequestGetObjects → Bool × ResponseGetObjects
  getBlockIdByHeight : σ → UInt32 → Hash
  findBlockchainSupplement : σ → List Hash → UInt32 → Blockchain.ResponseChainEntry
  getPoolChanges : σ → List Hash → List Transaction × Multiset Hash

/-! ## Asking for blocks -/

section Requests

variable {σ : Type} (core : ProtocolCore σ)

/-- The loop of {lit}`request_missing_objects` over the needed ids: an id goes
to the request unless the core has it and the caller asked to check; every id
looked at leaves the needed ones; the loop stops once the request is full. -/
def takeNeeded (haveBlock : Hash → Bool) (checkHavingBlocks : Bool) :
    Nat → List Hash → List Hash × List Hash
  | 0, neededObjects => ([], neededObjects)
  | _ + 1, [] => ([], [])
  | count + 1, id :: neededObjects =>
    if checkHavingBlocks && haveBlock id then
      takeNeeded haveBlock checkHavingBlocks (count + 1) neededObjects
    else
      let (blocks, rest) := takeNeeded haveBlock checkHavingBlocks count neededObjects
      (id :: blocks, rest)

/-- {lit}`requestMissingPoolTransactions`: a peer of the first version on is
sent the ids of the pool's transactions. -/
def requestMissingPoolTransactions (s : σ) (ctx : ConnectionContext) : List Effect :=
  if ctx.version < p2pProtocolVersionV1 then []
  else [.post (.requestTxPool (core.getPoolTransactionIds s))]

/-- {lit}`request_missing_objects`: ask for needed blocks when some are needed;
otherwise ask for more of the chain while the peer's answer ends below its top;
otherwise the connection is synchronised, when nothing is left outstanding
({lit}`false` and no change if something is). -/
def requestMissingObjects (s : σ) (ctx : ConnectionContext) (checkHavingBlocks : Bool) :
    Bool × ConnectionContext × List Effect :=
  if ctx.neededObjects ≠ [] then
    let (blocks, neededObjects) := takeNeeded (core.haveBlock s) checkHavingBlocks
      Blockchain.blocksSynchronizingDefaultCount ctx.neededObjects
    (true, { ctx with neededObjects, requestedObjects := ctx.requestedObjects ∪ blocks.toFinset },
      [.post (.requestGetObjects ⟨[], blocks⟩)])
  else if ctx.lastResponseHeight < ctx.remoteBlockchainHeight - 1 then
    (true, ctx, [.post (.requestChain (core.buildSparseChain s))])
  else if !(ctx.lastResponseHeight = ctx.remoteBlockchainHeight - 1 &&
      ctx.neededObjects = [] && ctx.requestedObjects = ∅) then
    (false, ctx, [])
  else
    (true, { ctx with state := .normal },
      requestMissingPoolTransactions core s ctx ++ [.synchronized])

/-- What {lit}`start_sync` asserts of a connection it starts on: nothing needed
and nothing asked for. -/
def StartSyncAssertion (ctx : ConnectionContext) : Prop :=
  ctx.neededObjects = [] ∧ ctx.requestedObjects = ∅

/-- {lit}`start_sync`: a synchronising connection asks for the peer's chain from
the core's sparse chain. -/
def startSync (s : σ) (ctx : ConnectionContext) : List Effect :=
  if ctx.state = .synchronizing then [.post (.requestChain (core.buildSparseChain s))] else []

/-- The head of the connection's loop in {lit}`NodeServer`: a connection that
needs a synchronisation starts one, and one that needs the pool asks for it. -/
def beforeCommand (s : σ) (ctx : ConnectionContext) : ConnectionContext × List Effect :=
  match ctx.state with
  | .syncRequired =>
    let ctx := { ctx with state := .synchronizing }
    (ctx, startSync core s ctx)
  | .poolSyncRequired =>
    let ctx := { ctx with state := .normal }
    (ctx, requestMissingPoolTransactions core s ctx)
  | _ => (ctx, [])

/-- {lit}`process_payload_sync_data`: a connection whose peer's top the core
has is synchronised (and after the handshake asks for the pool), one whose
peer's top is unknown needs a synchronisation; a synchronising connection keeps
its state.  The peer's height is recorded. -/
def processPayloadSyncData (s : σ) (hshd : CoreSyncData) (ctx : ConnectionContext)
    (isInitial : Bool) : ConnectionContext × List Effect :=
  if ctx.state = .beforeHandshake && !isInitial then (ctx, [])
  else
    let (state, effects) :=
      if ctx.state = .synchronizing then (ctx.state, [])
      else if core.haveBlock s hshd.topId then
        if isInitial then (.poolSyncRequired, [.synchronized]) else (.normal, [])
      else (.syncRequired, [])
    ({ ctx with state, remoteBlockchainHeight := hshd.currentHeight }, effects)

/-- {lit}`handle_response_chain_entry`: an empty entry, or one that starts at a
block the core does not have, shuts the connection; otherwise the peer's
heights are recorded (a last height above the peer's top shuts the connection,
and the handler goes on), the ids the core lacks are needed, and the missing
objects are asked for. -/
def handleResponseChainEntry (s : σ) (ctx : ConnectionContext)
    (arg : Blockchain.ResponseChainEntry) : ConnectionContext × List Effect :=
  match arg.blockIds with
  | [] => ({ ctx with state := .shutdown }, [])
  | first :: _ =>
    if !core.haveBlock s first then ({ ctx with state := .shutdown }, [])
    else
      let ctx := { ctx with
        remoteBlockchainHeight := arg.totalHeight
        lastResponseHeight := arg.startHeight + arg.blockIds.length.toUInt32 - 1 }
      let ctx := if ctx.lastResponseHeight > ctx.remoteBlockchainHeight then
        { ctx with state := .shutdown } else ctx
      let ctx := { ctx with
        neededObjects := ctx.neededObjects ++ arg.blockIds.filter fun id => !core.haveBlock s id }
      let (_, ctx, effects) := requestMissingObjects core s ctx false
      (ctx, effects)

end Requests

/-! ## Taking blocks in -/

section Responses

variable {σ : Type} (core : ProtocolCore σ) (env : ChainEnv)

/-- {lit}`BinaryArray::from` of a block's blob. -/
def parseBlock (blob : Bytes) : Option Block :=
  BinaryArray.from Block.serialize default blob

/-- How the checks of a response end: the connection dropped or set idle, or
every block passed. -/
inductive CheckEnd where
  | stop
  | passed
deriving DecidableEq, Repr

/-- The loop of {lit}`handle_response_get_objects` over the response's blocks:
a blob that does not parse, a block that was not asked for, or a block whose
transactions do not match its entry, shuts the connection; a second block the
core already has sets it idle; each block that passes is no longer
outstanding. -/
def checkBlocks (s : σ) : Nat → List BlockCompleteEntry → ConnectionContext →
    CheckEnd × ConnectionContext
  | _, [], ctx => (.passed, ctx)
  | count, entry :: entries, ctx =>
    match parseBlock entry.block with
    | none => (.stop, { ctx with state := .shutdown })
    | some b =>
      if count + 1 = 2 && core.haveBlock s (env.blockHash b) then
        (.stop, { ctx with state := .idle, neededObjects := [], requestedObjects := ∅ })
      else
        let blockHash := env.blockHash b
        if blockHash ∉ ctx.requestedObjects then (.stop, { ctx with state := .shutdown })
        else if b.transactionHashes.length ≠ entry.txs.length then
          (.stop, { ctx with state := .shutdown })
        else
          checkBlocks s (count + 1) entries
            { ctx with requestedObjects := ctx.requestedObjects.erase blockHash }

/-- The checks of {lit}`handle_response_get_objects` before the blocks reach the
core: a height below the peer's last answer shuts the connection, then the
loop, then every asked block must have come.  {lit}`some` is the context the
blocks are processed with. -/
def checkResponse (s : σ) (ctx : ConnectionContext) (arg : ResponseGetObjects) :
    Option ConnectionContext × ConnectionContext :=
  if ctx.lastResponseHeight > arg.currentBlockchainHeight then
    (none, { ctx with state := .shutdown })
  else
    let ctx := { ctx with remoteBlockchainHeight := arg.currentBlockchainHeight }
    match checkBlocks core env s 0 arg.blocks ctx with
    | (.stop, ctx) => (none, ctx)
    | (.passed, ctx) =>
      if ctx.requestedObjects ≠ ∅ then (none, { ctx with state := .shutdown })
      else (some ctx, ctx)

/-- The transactions of a block in {lit}`processObjects`: each handled as kept
by a block; the first that fails verification ends the loop. -/
def processTxs (s : σ) : List Bytes → Bool × σ
  | [] => (true, s)
  | txBlob :: txBlobs =>
    let (tvc, s) := core.handleIncomingTx s txBlob true
    if tvc.verificationFailed then (false, s) else processTxs s txBlobs

/-- {lit}`processObjects`: each block's transactions, then the block; a failed
transaction or block, or an orphan, shuts the connection, a block the core
already has sets it idle (result {lit}`false` for all three); a stop of the
handler ends the loop. -/
def processObjects (stop : Bool) (s : σ) (ctx : ConnectionContext) :
    List BlockCompleteEntry → Bool × σ × ConnectionContext
  | [] => (true, s, ctx)
  | entry :: entries =>
    if stop then (true, s, ctx)
    else
      match processTxs core s entry.txs with
      | (false, s) => (false, s, { ctx with state := .shutdown })
      | (true, s) =>
        let (bvc, s) := core.handleIncomingBlockBlob s entry.block false false
        if bvc.verificationFailed then (false, s, { ctx with state := .shutdown })
        else if bvc.markedAsOrphaned then (false, s, { ctx with state := .shutdown })
        else if bvc.alreadyExists then
          (false, s, { ctx with state := .idle, neededObjects := [], requestedObjects := ∅ })
        else processObjects stop s ctx entries

/-- {lit}`handle_response_get_objects`: the checks, the blocks processed, and a
synchronising connection goes on asking for the blocks it still needs. -/
def handleResponseGetObjects (stop : Bool) (s : σ) (ctx : ConnectionContext)
    (arg : ResponseGetObjects) : σ × ConnectionContext × List Effect :=
  match checkResponse core env s ctx arg with
  | (none, ctx) => (s, ctx, [])
  | (some ctx, _) =>
    match processObjects core stop s ctx arg.blocks with
    | (false, s, ctx) => (s, ctx, [])
    | (true, s, ctx) =>
      if !stop && ctx.state = .synchronizing then
        let (_, ctx, effects) := requestMissingObjects core s ctx true
        (s, ctx, effects)
      else (s, ctx, [])

/-- {lit}`handle_notify_new_block`: outside the normal state only the peer's
height is recorded; otherwise the transactions and the block go to the core, a
failure shuts the connection, a block added to the main chain is relayed (and a
switch of chains asks for the pool), and an orphan starts a synchronisation. -/
def handleNotifyNewBlock (s : σ) (ctx : ConnectionContext) (arg : NewBlock) :
    σ × ConnectionContext × List Effect :=
  let ctx := { ctx with remoteBlockchainHeight := arg.currentBlockchainHeight }
  if ctx.state ≠ .normal then (s, ctx, [])
  else
    match processTxs core s arg.b.txs with
    | (false, s) => (s, { ctx with state := .shutdown }, [])
    | (true, s) =>
      let (bvc, s) := core.handleIncomingBlockBlob s arg.b.block true false
      if bvc.verificationFailed then (s, { ctx with state := .shutdown }, [])
      else if bvc.addedToMainChain then
        (s, ctx, .relayNewBlock { arg with hop := arg.hop + 1 } ::
          if bvc.switchedToAltChain then requestMissingPoolTransactions core s ctx else [])
      else if bvc.markedAsOrphaned then
        (s, { ctx with state := .synchronizing }, [.post (.requestChain (core.buildSparseChain s))])
      else (s, ctx, [])

/-! ## Serving the peer -/

/-- The loop of {lit}`handle_notify_new_transactions`: each transaction goes to
the core as not kept by a block, and those that pass and should be relayed are
kept for the relay. -/
def relayedTxs (s : σ) : List Bytes → σ × List Bytes
  | [] => (s, [])
  | txBlob :: txBlobs =>
    let (tvc, s) := core.handleIncomingTx s txBlob false
    let (s, txs) := relayedTxs s txBlobs
    (s, if !tvc.verificationFailed && tvc.shouldBeRelayed then txBlob :: txs else txs)

/-- {lit}`handle_notify_new_transactions`: outside the normal state nothing
happens; otherwise the transactions go to the core and those kept are relayed
to the other peers. -/
def handleNotifyNewTransactions (s : σ) (ctx : ConnectionContext) (txs : List Bytes) :
    σ × List Effect :=
  if ctx.state ≠ .normal then (s, [])
  else
    let (s, txs) := relayedTxs core s txs
    (s, if txs = [] then [] else [.relayTransactions txs])

/-- {lit}`handle_request_get_objects`: the core's answer is posted, and a failed
answer shuts the connection. -/
def handleRequestGetObjects (s : σ) (ctx : ConnectionContext) (arg : RequestGetObjects) :
    ConnectionContext × List Effect :=
  let (ok, rsp) := core.handleGetObjects s arg
  (if ok then ctx else { ctx with state := .shutdown }, [.post (.responseGetObjects rsp)])

/-- {lit}`handle_request_chain`: a sparse chain that is empty or does not end
with the genesis id shuts the connection; otherwise the supplement is posted. -/
def handleRequestChain (s : σ) (ctx : ConnectionContext) (blockIds : List Hash) :
    ConnectionContext × List Effect :=
  if blockIds = [] then ({ ctx with state := .shutdown }, [])
  else if blockIds.getLast? ≠ some (core.getBlockIdByHeight s 0) then
    ({ ctx with state := .shutdown }, [])
  else
    (ctx, [.post (.responseChainEntry
      (core.findBlockchainSupplement s blockIds Blockchain.blocksIdsSynchronizingDefaultCount))])

/-- {lit}`handleRequestTxPool`: the pool's transactions the peer does not know
are posted to it as blobs, when there are any. -/
def handleRequestTxPool (s : σ) (txs : List Hash) : List Effect :=
  let (addedTransactions, _) := core.getPoolChanges s txs
  if addedTransactions.isEmpty then []
  else
    [.post (.newTransactions
      (addedTransactions.map fun tx => (BinaryArray.to Transaction.serialize tx).getD []))]

/-! ## What a response that passes the checks holds -/

/-- The checks only ever take ids out of those asked for. -/
theorem checkBlocks_requested_subset (s : σ) (count : Nat) (entries : List BlockCompleteEntry)
    (ctx : ConnectionContext) :
    (checkBlocks core env s count entries ctx).2.requestedObjects ⊆ ctx.requestedObjects := by
  induction entries generalizing count ctx with
  | nil => exact subset_rfl
  | cons entry entries ih =>
    simp only [checkBlocks]
    split
    · exact Finset.Subset.refl _
    · -- the idle end, a count that does not match, a block that passes, one not asked for
      split_ifs
      · exact Finset.empty_subset _
      · exact Finset.Subset.refl _
      · exact (ih _ _).trans (Finset.erase_subset _ _)
      · exact Finset.Subset.refl _

/-- A loop that passes every block parsed each entry into a block asked for,
no two with one hash, with as many transactions as its entry, and took their
hashes out of those asked for. -/
theorem checkBlocks_passed {s : σ} {count : Nat} {entries : List BlockCompleteEntry}
    {ctx ctx' : ConnectionContext} (h : checkBlocks core env s count entries ctx = (.passed, ctx')) :
    ∃ blocks : List Block, entries.map (parseBlock ·.block) = blocks.map some ∧
      (blocks.map env.blockHash).Nodup ∧ (∀ b ∈ blocks, env.blockHash b ∈ ctx.requestedObjects) ∧
      List.Forall₂ (fun b entry => b.transactionHashes.length = entry.txs.length) blocks entries ∧
      ctx' = { ctx with
        requestedObjects := ctx.requestedObjects \ (blocks.map env.blockHash).toFinset } := by
  induction entries generalizing count ctx with
  | nil =>
    simp only [checkBlocks, Prod.mk.injEq, true_and] at h
    exact ⟨[], rfl, List.nodup_nil, by simp, .nil, by simp [← h]⟩
  | cons entry entries ih =>
    simp only [checkBlocks] at h
    split at h
    · cases h
    · rename_i b hparse
      split_ifs at h with hidle hasked hlength
      · cases h
      · cases h
      swap
      · cases h
      obtain ⟨blocks, hmap, hnodup, hmem, hforall, rfl⟩ := ih h
      have hfresh : env.blockHash b ∉ blocks.map env.blockHash := by
        intro hin
        obtain ⟨b', hb', hhash⟩ := List.mem_map.mp hin
        have := hmem b' hb'
        rw [hhash] at this
        exact Finset.notMem_erase _ _ this
      refine ⟨b :: blocks, by simp [hparse, hmap], List.nodup_cons.mpr ⟨hfresh, hnodup⟩, ?_,
        .cons (by simpa using hlength) hforall, ?_⟩
      · intro b' hb'
        rcases List.mem_cons.mp hb' with rfl | hb'
        · simpa using hasked
        · exact Finset.mem_of_mem_erase (hmem b' hb')
      · simp [List.toFinset_cons, Finset.sdiff_insert, Finset.erase_sdiff_comm]

/-- Conversely, entries that parse into blocks asked for, no two with one hash
and none that the core has, each with as many transactions as its entry, pass
the loop, which takes their hashes out of those asked for. -/
theorem checkBlocks_of_forall {s : σ} {blocks : List Block} {entries : List BlockCompleteEntry}
    (hparse : entries.map (parseBlock ·.block) = blocks.map some)
    (hlength : List.Forall₂ (fun b entry => b.transactionHashes.length = entry.txs.length) blocks
      entries) {count : Nat} {ctx : ConnectionContext} (hnodup : (blocks.map env.blockHash).Nodup)
    (hasked : ∀ b ∈ blocks, env.blockHash b ∈ ctx.requestedObjects)
    (hlacks : ∀ b ∈ blocks, core.haveBlock s (env.blockHash b) = false) :
    checkBlocks core env s count entries ctx = (.passed, { ctx with
      requestedObjects := ctx.requestedObjects \ (blocks.map env.blockHash).toFinset }) := by
  induction hlength generalizing count ctx with
  | nil => simp [checkBlocks]
  | @cons b entry blocks entries hlen hrest ih =>
    simp only [List.map_cons, List.cons.injEq] at hparse
    obtain ⟨hb, hnodup⟩ := List.nodup_cons.mp hnodup
    have hasked' : ∀ b' ∈ blocks, env.blockHash b' ∈ ctx.requestedObjects.erase (env.blockHash b) := by
      intro b' hb'
      have hne : env.blockHash b' ≠ env.blockHash b := fun h => hb (h ▸ List.mem_map_of_mem hb')
      exact Finset.mem_erase.mpr ⟨hne, hasked b' (List.mem_cons_of_mem _ hb')⟩
    have hrec := @ih hparse.2 (count + 1)
      { ctx with requestedObjects := ctx.requestedObjects.erase (env.blockHash b) } hnodup hasked'
      (fun b' hb' => hlacks b' (List.mem_cons_of_mem _ hb'))
    simp only [checkBlocks, hparse.1, hlacks b List.mem_cons_self, Bool.and_false,
      Bool.false_eq_true, if_false, hasked b List.mem_cons_self, not_true_eq_false, hlen,
      ne_eq, hrec]
    simp [List.toFinset_cons, Finset.sdiff_insert, Finset.erase_sdiff_comm]

/-- A response that passes the checks of {lit}`handle_response_get_objects`
holds one block for each id asked for and not yet received, and nothing else:
every blob parses, no two blocks share a hash, their hashes are exactly the ids
asked for, and each block has as many transactions as its entry.  The blocks
are then processed with nothing left outstanding. -/
theorem checkResponse_eq_some {s : σ} {ctx ctx' : ConnectionContext} {arg : ResponseGetObjects}
    (h : (checkResponse core env s ctx arg).1 = some ctx') :
    ∃ blocks : List Block, arg.blocks.map (parseBlock ·.block) = blocks.map some ∧
      (blocks.map env.blockHash).Nodup ∧
      (blocks.map env.blockHash).toFinset = ctx.requestedObjects ∧
      List.Forall₂ (fun b entry => b.transactionHashes.length = entry.txs.length) blocks
        arg.blocks ∧
      ctx' = { ctx with
        remoteBlockchainHeight := arg.currentBlockchainHeight
        requestedObjects := ∅ } := by
  simp only [checkResponse] at h
  split_ifs at h
  split at h
  · cases h
  · rename_i ctx₁ hcheck
    split_ifs at h with houtstanding
    cases h
    obtain ⟨blocks, hmap, hnodup, hmem, hforall, rfl⟩ := checkBlocks_passed core env hcheck
    have hcover : ctx.requestedObjects ⊆ (blocks.map env.blockHash).toFinset := by
      simpa [Finset.sdiff_eq_empty_iff_subset] using houtstanding
    have hwithin : (blocks.map env.blockHash).toFinset ⊆ ctx.requestedObjects := by
      intro x hx
      obtain ⟨b, hb, rfl⟩ := List.mem_map.mp (List.mem_toFinset.mp hx)
      exact hmem b hb
    refine ⟨blocks, hmap, hnodup, Finset.Subset.antisymm hwithin hcover, hforall, ?_⟩
    simpa using houtstanding

/-! ## What the handlers do to the ids asked for -/

@[simp]
theorem beforeCommand_requestedObjects (s : σ) (ctx : ConnectionContext) :
    (beforeCommand core s ctx).1.requestedObjects = ctx.requestedObjects := by
  unfold beforeCommand
  split <;> rfl

@[simp]
theorem processPayloadSyncData_requestedObjects (s : σ) (hshd : CoreSyncData)
    (ctx : ConnectionContext) (isInitial : Bool) :
    (processPayloadSyncData core s hshd ctx isInitial).1.requestedObjects =
      ctx.requestedObjects := by
  unfold processPayloadSyncData
  split_ifs <;> rfl

/-- A new block notification leaves the ids asked for as they were. -/
@[simp]
theorem handleNotifyNewBlock_requestedObjects (s : σ) (ctx : ConnectionContext) (arg : NewBlock) :
    (handleNotifyNewBlock core s ctx arg).2.1.requestedObjects = ctx.requestedObjects := by
  unfold handleNotifyNewBlock
  dsimp only
  split_ifs
  · rfl
  · split
    · rfl
    · split
      · rfl
      · split_ifs <;> rfl

@[simp]
theorem handleRequestGetObjects_requestedObjects (s : σ) (ctx : ConnectionContext)
    (arg : RequestGetObjects) :
    (handleRequestGetObjects core s ctx arg).1.requestedObjects = ctx.requestedObjects := by
  unfold handleRequestGetObjects
  split
  split_ifs <;> rfl

@[simp]
theorem handleRequestChain_requestedObjects (s : σ) (ctx : ConnectionContext)
    (blockIds : List Hash) :
    (handleRequestChain core s ctx blockIds).1.requestedObjects = ctx.requestedObjects := by
  unfold handleRequestChain
  split_ifs <;> rfl

/-- Processing the blocks received only takes ids out of those asked for. -/
theorem processObjects_requested_subset (stop : Bool) (s : σ) (ctx : ConnectionContext)
    (entries : List BlockCompleteEntry) :
    (processObjects core stop s ctx entries).2.2.requestedObjects ⊆ ctx.requestedObjects := by
  induction entries generalizing s with
  | nil => exact Finset.Subset.refl _
  | cons entry entries ih =>
    unfold processObjects
    split_ifs
    · exact Finset.Subset.refl _
    · split
      · exact Finset.Subset.refl _
      · split
        split_ifs
        · exact Finset.Subset.refl _
        · exact Finset.Subset.refl _
        · exact Finset.empty_subset _
        · exact ih _

/-- Checking a response only takes ids out of those asked for. -/
theorem checkResponse_requested_subset (s : σ) (ctx : ConnectionContext) (arg : ResponseGetObjects) :
    (checkResponse core env s ctx arg).2.requestedObjects ⊆ ctx.requestedObjects := by
  unfold checkResponse
  split_ifs
  · exact Finset.Subset.refl _
  · have hloop := checkBlocks_requested_subset core env s 0 arg.blocks
      { ctx with remoteBlockchainHeight := arg.currentBlockchainHeight }
    dsimp only
    split
    · rename_i ctx₁ hcheck
      rw [hcheck] at hloop
      exact hloop
    · rename_i ctx₁ hcheck
      rw [hcheck] at hloop
      split_ifs
      · exact hloop
      · exact hloop

/-- The blocks of a response that passes the checks are the blocks its entries
parse into. -/
theorem filterMap_parseBlock {entries : List BlockCompleteEntry} {blocks : List Block}
    (hmap : entries.map (parseBlock ·.block) = blocks.map some) :
    entries.filterMap (fun entry => parseBlock entry.block) = blocks := by
  have := congrArg (List.filterMap id) hmap
  simpa [List.filterMap_map] using this

/-! ## The branches of a synchronisation -/

/-- Without the check, the loop takes the first needed id whenever the request
has room. -/
theorem takeNeeded_unchecked_cons (haveBlock : Hash → Bool) (count : Nat) (id : Hash)
    (neededObjects : List Hash) :
    takeNeeded haveBlock false (count + 1) (id :: neededObjects) =
      (id :: (takeNeeded haveBlock false count neededObjects).1,
        (takeNeeded haveBlock false count neededObjects).2) := by
  simp [takeNeeded]

/-- Without the check, the loop takes the first {lit}`count` needed ids and
leaves the rest. -/
theorem takeNeeded_unchecked (haveBlock : Hash → Bool) :
    ∀ (count : Nat) (neededObjects : List Hash),
      takeNeeded haveBlock false count neededObjects =
        (neededObjects.take count, neededObjects.drop count)
  | 0, neededObjects => by simp [takeNeeded]
  | _ + 1, [] => rfl
  | count + 1, id :: neededObjects => by
    rw [takeNeeded_unchecked_cons, takeNeeded_unchecked haveBlock count neededObjects]
    rfl

/-- With nothing needed and the peer's last answer below its top,
{lit}`request_missing_objects` asks for more of the chain. -/
theorem requestMissingObjects_of_behind {s : σ} {ctx : ConnectionContext} {check : Bool}
    (hneeded : ctx.neededObjects = [])
    (hbehind : ctx.lastResponseHeight < ctx.remoteBlockchainHeight - 1) :
    requestMissingObjects core s ctx check =
      (true, ctx, [.post (.requestChain (core.buildSparseChain s))]) := by
  simp [requestMissingObjects, hneeded, hbehind]

/-- With ids needed, {lit}`request_missing_objects` asks for those the loop takes. -/
theorem requestMissingObjects_of_needed {s : σ} {ctx : ConnectionContext} {check : Bool}
    (hneeded : ctx.neededObjects ≠ []) :
    requestMissingObjects core s ctx check =
      (true, { ctx with
        neededObjects := (takeNeeded (core.haveBlock s) check
          Blockchain.blocksSynchronizingDefaultCount ctx.neededObjects).2
        requestedObjects := ctx.requestedObjects ∪ (takeNeeded (core.haveBlock s) check
          Blockchain.blocksSynchronizingDefaultCount ctx.neededObjects).1.toFinset },
        [.post (.requestGetObjects ⟨[], (takeNeeded (core.haveBlock s) check
          Blockchain.blocksSynchronizingDefaultCount ctx.neededObjects).1⟩)]) := by
  simp [requestMissingObjects, hneeded]

/-- A chain entry that starts at a block the core has, with heights that agree,
records the heights, adds the ids the core lacks to the needed ones, and asks
for the missing objects without checking. -/
theorem handleResponseChainEntry_of_have {s : σ} {ctx : ConnectionContext}
    {arg : Blockchain.ResponseChainEntry} {first : Hash} (hfirst : arg.blockIds.head? = some first)
    (hhave : core.haveBlock s first = true)
    (hheights : ¬arg.startHeight + arg.blockIds.length.toUInt32 - 1 > arg.totalHeight) :
    handleResponseChainEntry core s ctx arg =
      ((requestMissingObjects core s { ctx with
          remoteBlockchainHeight := arg.totalHeight
          lastResponseHeight := arg.startHeight + arg.blockIds.length.toUInt32 - 1
          neededObjects := ctx.neededObjects ++ arg.blockIds.filter fun id => !core.haveBlock s id }
          false).2.1,
        (requestMissingObjects core s { ctx with
          remoteBlockchainHeight := arg.totalHeight
          lastResponseHeight := arg.startHeight + arg.blockIds.length.toUInt32 - 1
          neededObjects := ctx.neededObjects ++ arg.blockIds.filter fun id => !core.haveBlock s id }
          false).2.2) := by
  unfold handleResponseChainEntry
  split
  · rename_i hnil
    simp [hnil] at hfirst
  · rename_i x rest hcons
    have hx : x = first := by simpa [hcons] using hfirst
    subst hx
    simp only [hhave, Bool.not_true, Bool.false_eq_true, if_false]
    rw [if_neg hheights]

/-- Sync data whose top the core lacks asks a connection that is past the
handshake and not synchronising for a synchronisation. -/
theorem processPayloadSyncData_of_unknownTop {s : σ} {hshd : CoreSyncData}
    {ctx : ConnectionContext} {isInitial : Bool} (hhandshake : ctx.state ≠ .beforeHandshake)
    (hsync : ctx.state ≠ .synchronizing) (htop : core.haveBlock s hshd.topId = false) :
    processPayloadSyncData core s hshd ctx isInitial =
      ({ ctx with state := .syncRequired, remoteBlockchainHeight := hshd.currentHeight }, []) := by
  simp [processPayloadSyncData, hhandshake, hsync, htop]

/-- The head of the loop does nothing on a connection in the normal state. -/
theorem beforeCommand_of_normal {s : σ} {ctx : ConnectionContext} (h : ctx.state = .normal) :
    beforeCommand core s ctx = (ctx, []) := by
  simp [beforeCommand, h]

end Responses

/-! ## A sample core -/

/-- The id {lit}`k` of the samples: its first byte, then zeros. -/
def sampleId (k : UInt8) : Hash := ⟨k :: List.replicate 31 0, by simp⟩

/-- A core whose state is the ids of its chain, the genesis id first: it has
exactly those blocks, answers requests with nothing, and takes nothing in. -/
def chainIdsCore : ProtocolCore (List Hash) where
  haveBlock chain id := chain.contains id
  buildSparseChain chain := chain.reverse
  handleIncomingTx chain _ _ := ({}, chain)
  handleIncomingBlockBlob chain _ _ _ := ({}, chain)
  getPoolTransactionIds _ := []
  handleGetObjects _ _ := (true, ⟨[], [], [], 0⟩)
  getBlockIdByHeight chain height := chain.getD height.toNat default
  findBlockchainSupplement chain _ _ := ⟨0, chain.length.toUInt32, chain⟩
  getPoolChanges _ _ := ([], 0)

end Protocol
end CryptoNote

import CryptoNote.Protocol.BlockDownload
import CryptoNote.Lib.RequestLedger
import CryptoNote.Lib.Simulation

/-!
# A connection's loop

{lit}`NodeServer::connectionHandler` runs one loop for each connection: a
connection that needs a synchronisation starts one, one that needs the pool
asks for it, then the next command of the peer is read and dispatched, and a
connection that is shut ends the loop (src/p2p/NetNode.cpp).  The payload
handler sees the sync data of the handshake and the timed sync, and the seven
notifications that {lit}`CryptoNoteProtocolHandler::handleCommand` dispatches
(src/cryptonote/protocol/handler.cpp).  Between two commands the core may
change in any way, as other connections, the miner and the RPC work on it.

Beside the handler's results, a run keeps a ledger that the code does not: the
hashes of the blocks the connection takes from responses, which then reach the
core.  What it asked for is read off what it posted.

Main results:

- Theorem {lit}`taken_le_asked`: over any sequence of commands on a connection,
  interleaved with any changes of the core, the blocks it takes from responses,
  together with those still outstanding, were asked for, each at least as many
  times.
- Theorem {lit}`startSync_requested`: a chain entry the peer sends while the
  connection is synchronised, then sync data with a top the core lacks, make
  the next turn of the loop start a synchronisation with blocks still
  outstanding, against the assertion of {lit}`start_sync`.
-/

namespace CryptoNote
namespace Protocol

open ByteCodec RequestLedger

/-! ## Commands and the loop -/

/-- What the peer sends on a connection, as the payload handler sees it: the
sync data of a handshake ({lit}`isInitial`) or of a timed sync, and the
notifications {lit}`handleCommand` dispatches. -/
inductive Message where
  | syncData (hshd : CoreSyncData) (isInitial : Bool)
  | newBlock (arg : NewBlock)
  | newTransactions (txs : List Bytes)
  | requestGetObjects (arg : RequestGetObjects)
  | responseGetObjects (arg : ResponseGetObjects)
  | requestChain (blockIds : List Hash)
  | responseChainEntry (arg : Blockchain.ResponseChainEntry)
  | requestTxPool (txs : List Hash)
deriving DecidableEq, Repr

/-- What happens on a connection between two turns of its loop: the peer's next
command, read while the handler's stop flag has the given value, or a change
of the core by the rest of the node. -/
inductive Event (σ : Type) where
  | command (stop : Bool) (msg : Message)
  | coreChanged (node : σ)

/-- A connection as its loop runs: the core as it stands, the connection's
context, everything the handler did beyond it, and the hashes of the blocks it
took from responses. -/
structure Connection (σ : Type) where
  node : σ
  ctx : ConnectionContext
  effects : List Effect
  taken : Multiset Hash

/-- A new connection of a peer speaking the given version. -/
def Connection.init {σ : Type} (node : σ) (version : UInt8) : Connection σ :=
  ⟨node, .new version, [], 0⟩

section Loop

variable {σ : Type} (core : ProtocolCore σ) (env : ChainEnv)

/-- {lit}`handleCommand`, with {lit}`process_payload_sync_data` for the sync
data: each command to its handler. -/
def handleCommand (stop : Bool) (s : σ) (ctx : ConnectionContext) :
    Message → σ × ConnectionContext × List Effect
  | .syncData hshd isInitial => (s, processPayloadSyncData core s hshd ctx isInitial)
  | .newBlock arg => handleNotifyNewBlock core s ctx arg
  | .newTransactions txs =>
    let (s, effects) := handleNotifyNewTransactions core s ctx txs
    (s, ctx, effects)
  | .requestGetObjects arg => (s, handleRequestGetObjects core s ctx arg)
  | .responseGetObjects arg => handleResponseGetObjects core env stop s ctx arg
  | .requestChain blockIds => (s, handleRequestChain core s ctx blockIds)
  | .responseChainEntry arg => (s, handleResponseChainEntry core s ctx arg)
  | .requestTxPool txs => (s, ctx, handleRequestTxPool core s txs)

/-- The hashes of the blocks a command hands to the core as the answer to the
connection's requests: those of a response that passes the checks. -/
def takenBy (s : σ) (ctx : ConnectionContext) : Message → Multiset Hash
  | .responseGetObjects arg =>
    if (checkResponse core env s ctx arg).1.isSome then
      ↑((arg.blocks.filterMap fun entry => parseBlock entry.block).map env.blockHash)
    else 0
  | _ => 0

/-- One turn of the loop of {lit}`NodeServer::connectionHandler`: its head, then
the command; once the connection is shut the loop has ended and nothing more is
read.  A change of the core only changes the core. -/
def Connection.step (c : Connection σ) : Event σ → Connection σ
  | .coreChanged node => { c with node }
  | .command stop msg =>
    if c.ctx.state = .shutdown then c
    else
      let head := beforeCommand core c.node c.ctx
      let result := handleCommand core env stop c.node head.1 msg
      { node := result.1
        ctx := result.2.1
        effects := c.effects ++ head.2 ++ result.2.2
        taken := c.taken + takenBy core env c.node head.1 msg }

end Loop

/-! ## The ledger of asked blocks -/

/-- The blocks an effect asks the peer for. -/
def Effect.askedBlocks : Effect → List Hash
  | .post (.requestGetObjects request) => request.blocks
  | _ => []

/-- The blocks a list of effects asks the peer for, with repeats. -/
def askedIds (effects : List Effect) : Multiset Hash :=
  ↑(effects.flatMap Effect.askedBlocks)

@[simp]
theorem askedIds_nil : askedIds [] = 0 := rfl

@[simp]
theorem askedIds_append (effects effects' : List Effect) :
    askedIds (effects ++ effects') = askedIds effects + askedIds effects' := by
  simp [askedIds]

section Ledger

variable {σ : Type} (core : ProtocolCore σ) (env : ChainEnv)

@[simp]
theorem askedIds_requestMissingPoolTransactions (s : σ) (ctx : ConnectionContext) :
    askedIds (requestMissingPoolTransactions core s ctx) = 0 := by
  unfold requestMissingPoolTransactions
  split_ifs <;> rfl

/-- {lit}`request_missing_objects` keeps the ledger: the ids it asks for join the
outstanding ones, and nothing else does. -/
theorem requestMissingObjects_keeps (s : σ) (ctx : ConnectionContext) (check : Bool) :
    Keeps ctx.requestedObjects (requestMissingObjects core s ctx check).2.1.requestedObjects 0
      (askedIds (requestMissingObjects core s ctx check).2.2) := by
  unfold requestMissingObjects
  split_ifs
  · simpa [askedIds, Effect.askedBlocks] using keeps_ask ctx.requestedObjects
      (takeNeeded (core.haveBlock s) check Blockchain.blocksSynchronizingDefaultCount
        ctx.neededObjects).1
  · exact keeps_of_subset (Finset.Subset.refl _) _
  · exact keeps_of_subset (Finset.Subset.refl _) _
  · exact keeps_of_subset (Finset.Subset.refl _) _

/-- A chain entry keeps the ledger: it asks only through
{lit}`request_missing_objects`. -/
theorem handleResponseChainEntry_keeps (s : σ) (ctx : ConnectionContext)
    (arg : Blockchain.ResponseChainEntry) :
    Keeps ctx.requestedObjects (handleResponseChainEntry core s ctx arg).1.requestedObjects 0
      (askedIds (handleResponseChainEntry core s ctx arg).2) := by
  unfold handleResponseChainEntry
  split
  · exact keeps_of_subset (Finset.Subset.refl _) _
  · split_ifs
    · exact keeps_of_subset (Finset.Subset.refl _) _
    · dsimp only
      split_ifs <;> exact requestMissingObjects_keeps core s _ false

/-- A response keeps the ledger: one that passes the checks takes exactly the
blocks outstanding, and a synchronising connection then asks for more. -/
theorem handleResponseGetObjects_keeps (stop : Bool) (s : σ) (ctx : ConnectionContext)
    (arg : ResponseGetObjects) :
    Keeps ctx.requestedObjects (handleResponseGetObjects core env stop s ctx arg).2.1.requestedObjects
      (takenBy core env s ctx (.responseGetObjects arg))
      (askedIds (handleResponseGetObjects core env stop s ctx arg).2.2) := by
  have hsub := checkResponse_requested_subset core env s ctx arg
  unfold handleResponseGetObjects
  simp only [takenBy]
  rcases hcheck : checkResponse core env s ctx arg with ⟨_ | ctx₁, ctx₁'⟩
  · rw [hcheck] at hsub
    simpa using keeps_of_subset hsub 0
  · obtain ⟨blocks, hmap, hnodup, hblocks, -, rfl⟩ :=
      checkResponse_eq_some core env (congrArg Prod.fst hcheck)
    have htake := keeps_take hnodup hblocks
    simp only [Option.isSome_some, if_true, filterMap_parseBlock hmap]
    have hempty := processObjects_requested_subset core stop s { ctx with
      remoteBlockchainHeight := arg.currentBlockchainHeight
      requestedObjects := ∅ } arg.blocks
    rcases hproc : processObjects core stop s { ctx with
        remoteBlockchainHeight := arg.currentBlockchainHeight
        requestedObjects := ∅ } arg.blocks with ⟨_ | _, s₂, ctx₂⟩
    · rw [hproc] at hempty
      simpa using htake.trans (keeps_of_subset hempty 0)
    · rw [hproc] at hempty
      dsimp only
      split_ifs
      · simpa using htake.trans ((keeps_of_subset hempty 0).trans
          (requestMissingObjects_keeps core s₂ ctx₂ true))
      · simpa using htake.trans (keeps_of_subset hempty 0)

/-- Every command keeps the ledger: a response takes exactly the blocks
outstanding, a chain entry and a response ask through
{lit}`request_missing_objects`, and no other command touches the ids asked
for. -/
theorem handleCommand_keeps (stop : Bool) (s : σ) (ctx : ConnectionContext) (msg : Message) :
    Keeps ctx.requestedObjects (handleCommand core env stop s ctx msg).2.1.requestedObjects
      (takenBy core env s ctx msg) (askedIds (handleCommand core env stop s ctx msg).2.2) := by
  cases msg with
  | responseGetObjects arg => exact handleResponseGetObjects_keeps core env stop s ctx arg
  | responseChainEntry arg => exact handleResponseChainEntry_keeps core s ctx arg
  | syncData hshd isInitial =>
    exact keeps_of_subset (by simp [handleCommand]) _
  | newBlock arg => exact keeps_of_subset (by simp [handleCommand]) _
  | newTransactions txs =>
    simp only [handleCommand]
    exact keeps_of_subset (Finset.Subset.refl _) _
  | requestGetObjects arg => exact keeps_of_subset (by simp [handleCommand]) _
  | requestChain blockIds => exact keeps_of_subset (by simp [handleCommand]) _
  | requestTxPool txs => exact keeps_of_subset (Finset.Subset.refl _) _

/-- One turn of the loop keeps the invariant of the ledger. -/
theorem Connection.step_outstanding {c : Connection σ}
    (hinv : c.taken + c.ctx.requestedObjects.val ≤ askedIds c.effects) (e : Event σ) :
    (c.step core env e).taken + (c.step core env e).ctx.requestedObjects.val ≤
      askedIds (c.step core env e).effects := by
  cases e with
  | coreChanged node => exact hinv
  | command stop msg =>
    unfold Connection.step
    split_ifs with hshut
    · exact hinv
    · have hhead : Keeps c.ctx.requestedObjects (beforeCommand core c.node c.ctx).1.requestedObjects
          0 (askedIds (beforeCommand core c.node c.ctx).2) :=
        keeps_of_subset (by simp) _
      have hturn := (hhead.trans (handleCommand_keeps core env stop c.node
        (beforeCommand core c.node c.ctx).1 msg)).invariant hinv
      simpa [add_assoc] using hturn

/-- Over any sequence of commands on a connection, interleaved with any changes
of the core, the blocks the connection takes from responses, together with
those still outstanding, were asked for, each at least as many times as it is
taken or outstanding. -/
theorem taken_le_asked (node : σ) (version : UInt8) (events : List (Event σ)) :
    (events.foldl (Connection.step core env) (Connection.init node version)).taken +
        (events.foldl (Connection.step core env)
          (Connection.init node version)).ctx.requestedObjects.val ≤
      askedIds (events.foldl (Connection.step core env) (Connection.init node version)).effects := by
  -- a new connection has taken and asked for nothing, and every turn keeps the invariant
  have hinit : (Connection.init node version).taken +
      (Connection.init node version).ctx.requestedObjects.val ≤
        askedIds (Connection.init node version).effects := by
    simp [Connection.init, ConnectionContext.new]
  exact Machine.Reachable.invariant
    (fun c : Connection σ => c.taken + c.ctx.requestedObjects.val ≤ askedIds c.effects) hinit
    (fun c e hinv => Connection.step_outstanding core env hinv e)
    (Machine.Reachable.foldl .init events)

end Ledger

/-! ## A synchronisation against the assertion of start_sync -/

section StartSync

variable {σ : Type} (core : ProtocolCore σ) (env : ChainEnv)

/-- A chain entry that starts at a block the core has, with heights that agree
and an id the core lacks, asks for ids on a connection with nothing needed and
leaves its state as it was. -/
theorem handleResponseChainEntry_requested {s : σ} {ctx : ConnectionContext}
    {arg : Blockchain.ResponseChainEntry} {first missing : Hash}
    (hneeded : ctx.neededObjects = []) (hfirst : arg.blockIds.head? = some first)
    (hhave : core.haveBlock s first = true) (hmissing : missing ∈ arg.blockIds)
    (hlacks : core.haveBlock s missing = false)
    (hheights : ¬arg.startHeight + arg.blockIds.length.toUInt32 - 1 > arg.totalHeight) :
    (handleResponseChainEntry core s ctx arg).1.state = ctx.state ∧
      (handleResponseChainEntry core s ctx arg).1.requestedObjects ≠ ∅ := by
  obtain ⟨id, ids, hlacking⟩ : ∃ id ids,
      arg.blockIds.filter (fun id => !core.haveBlock s id) = id :: ids := by
    have hmem : missing ∈ arg.blockIds.filter fun id => !core.haveBlock s id :=
      List.mem_filter.mpr ⟨hmissing, by simp [hlacks]⟩
    cases h : arg.blockIds.filter fun id => !core.haveBlock s id with
    | nil => simp [h] at hmem
    | cons id ids => exact ⟨id, ids, rfl⟩
  rw [handleResponseChainEntry_of_have core hfirst hhave hheights,
    requestMissingObjects_of_needed core (by simp [hneeded, hlacking])]
  have htake : id ∈ (takeNeeded (core.haveBlock s) false Blockchain.blocksSynchronizingDefaultCount
      (ctx.neededObjects ++ arg.blockIds.filter fun id => !core.haveBlock s id)).1 := by
    rw [hneeded, hlacking, List.nil_append, Blockchain.blocksSynchronizingDefaultCount,
      takeNeeded_unchecked_cons]
    exact List.mem_cons_self
  refine ⟨rfl, Finset.ne_empty_of_mem (Finset.mem_union_right _ (List.mem_toFinset.mpr htake))⟩

/-- A chain entry the peer sends while the connection is synchronised, then
sync data whose top the core lacks, make the next turn of the loop start a
synchronisation while blocks are still asked for: the assertion of
{lit}`start_sync` does not hold there. -/
theorem startSync_requested {c : Connection σ} {arg : Blockchain.ResponseChainEntry}
    {first missing : Hash} {hshd : CoreSyncData} {node₂ node₃ : σ} {stop₁ stop₂ : Bool}
    (hnormal : c.ctx.state = .normal) (hneeded : c.ctx.neededObjects = [])
    (hfirst : arg.blockIds.head? = some first) (hhave : core.haveBlock c.node first = true)
    (hmissing : missing ∈ arg.blockIds) (hlacks : core.haveBlock c.node missing = false)
    (hheights : ¬arg.startHeight + arg.blockIds.length.toUInt32 - 1 > arg.totalHeight)
    (htop : core.haveBlock node₂ hshd.topId = false) :
    let c' := [Event.command stop₁ (.responseChainEntry arg), .coreChanged node₂,
      .command stop₂ (.syncData hshd false), .coreChanged node₃].foldl (Connection.step core env) c
    c'.ctx.state = .syncRequired ∧
      (beforeCommand core node₃ c'.ctx).2 = [.post (.requestChain (core.buildSparseChain node₃))] ∧
      ¬StartSyncAssertion (beforeCommand core node₃ c'.ctx).1 := by
  intro c'
  set c₁ := c.step core env (.command stop₁ (.responseChainEntry arg)) with hc₁
  obtain ⟨hstate₁, hrequested₁⟩ :=
    handleResponseChainEntry_requested core hneeded hfirst hhave hmissing hlacks hheights
  have hctx₁ : c₁.ctx = (handleResponseChainEntry core c.node c.ctx arg).1 := by
    simp [hc₁, Connection.step, hnormal, beforeCommand_of_normal core hnormal, handleCommand]
  rw [← hctx₁, hnormal] at hstate₁
  rw [← hctx₁] at hrequested₁
  have hctx₃ : c'.ctx = { c₁.ctx with
      state := .syncRequired
      remoteBlockchainHeight := hshd.currentHeight } := by
    have hsync : processPayloadSyncData core node₂ hshd c₁.ctx false =
        ({ c₁.ctx with state := .syncRequired, remoteBlockchainHeight := hshd.currentHeight }, []) :=
      processPayloadSyncData_of_unknownTop core (by simp [hstate₁]) (by simp [hstate₁]) htop
    show (Connection.step core env { c₁ with node := node₂ }
      (.command stop₂ (.syncData hshd false))).ctx = _
    simp [Connection.step, hstate₁, beforeCommand_of_normal core hstate₁, handleCommand, hsync]
  refine ⟨by simp [hctx₃], by simp [hctx₃, beforeCommand, startSync], ?_⟩
  intro hassert
  exact hrequested₁ (by simpa [hctx₃, beforeCommand, StartSyncAssertion] using hassert.2)

/-- A connection in the normal state over a core that holds the genesis id. -/
def normalConnection : Connection (List Hash) :=
  ⟨[sampleId 0], { ConnectionContext.new p2pProtocolVersionV1 with state := .normal }, [], 0⟩

/-- On a synchronised connection, an unasked chain entry naming one block the
core lacks, then a timed sync with an unknown top, start a synchronisation
while that block is still asked for. -/
theorem startSync_requested_unasked :
    let c' := [Event.command false (.responseChainEntry ⟨0, 2, [sampleId 0, sampleId 1]⟩),
      .coreChanged [sampleId 0], .command false (.syncData ⟨3, sampleId 2⟩ false),
      .coreChanged [sampleId 0]].foldl (Connection.step chainIdsCore Blockchain.sampleEnv)
        normalConnection
    c'.ctx.state = .syncRequired ∧
      (beforeCommand chainIdsCore [sampleId 0] c'.ctx).2 =
        [.post (.requestChain (chainIdsCore.buildSparseChain [sampleId 0]))] ∧
      ¬StartSyncAssertion (beforeCommand chainIdsCore [sampleId 0] c'.ctx).1 :=
  startSync_requested chainIdsCore Blockchain.sampleEnv rfl rfl rfl (by decide)
    (show sampleId 1 ∈ [sampleId 0, sampleId 1] by decide) (by decide) (by decide) (by decide)

end StartSync

end Protocol
end CryptoNote

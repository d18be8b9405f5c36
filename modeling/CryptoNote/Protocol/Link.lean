import CryptoNote.Protocol.Connection

/-!
# Two nodes on one connection

Two nodes talk over one connection, and each runs the loop of
{lit}`NodeServer::connectionHandler` at its end (src/p2p/NetNode.cpp).  What an
end posts ({lit}`post_notify`) is written in order and read in that order at
the other end.  Besides the protocol's notifications, a node's timer sends a
timed sync on each of its connections in the normal or idle state
({lit}`NodeServer::timedSync`).  The other end processes the sync data it
carries and answers with its own ({lit}`handle_timed_sync`); the first end then
processes that answer ({lit}`handleTimedSyncResponse`).  Relays of blocks and
transactions go to a node's other connections, and a link of two nodes has
none.

A synchronisation asks the peer for its chain, and the peer answers with an
entry.  An entry that leaves nothing to fetch and stops below the peer's top
makes the asking end ask again, with the same sparse chain while its core
stays as it is.

Main results:

- Theorem {lit}`Link.chainLoop_run`: once a node synchronises from a peer that
  answers its chain request with such an entry, every run of the link in which
  the cores do not change keeps the exchange going round.  The node stays
  synchronising and never asks for a block, and a chain request or its answer
  is always in flight.
-/

namespace CryptoNote
namespace Protocol

open ByteCodec

/-! ## What travels on a connection -/

/-- What travels towards an end of a connection, in the order it was written:
a notification of the protocol, or the request or the response of a timed
sync, each with the sync data of the node that sent it. -/
inductive Wire where
  | notify (msg : Message)
  | timedSync (hshd : CoreSyncData)
  | timedSyncResponse (hshd : CoreSyncData)
deriving DecidableEq, Repr

/-- The command an end's loop reads off a wire: a notification as it is, and
the sync data of a timed sync or of its response as sync data after the
handshake. -/
def Wire.command : Wire → Message
  | .notify msg => msg
  | .timedSync hshd => .syncData hshd false
  | .timedSyncResponse hshd => .syncData hshd false

/-- What an end answers to a wire besides its posts: a timed sync request gets
the response with the end's own sync data. -/
def Wire.reply (payload : CoreSyncData) : Wire → List Wire
  | .timedSync _ => [.timedSyncResponse payload]
  | _ => []

/-- The message a posted notification is read as at the other end. -/
def Notify.toMessage : Notify → Message
  | .requestChain blockIds => .requestChain blockIds
  | .requestGetObjects request => .requestGetObjects request
  | .requestTxPool txs => .requestTxPool txs
  | .responseGetObjects response => .responseGetObjects response
  | .responseChainEntry response => .responseChainEntry response
  | .newTransactions txs => .newTransactions txs

/-- What a list of effects writes on the connection: its posts, in order. -/
def written (effects : List Effect) : List Wire :=
  effects.filterMap fun
    | .post notify => some (.notify notify.toMessage)
    | _ => none

@[simp]
theorem written_nil : written [] = [] := rfl

@[simp]
theorem written_post (notify : Notify) : written [.post notify] = [.notify notify.toMessage] := rfl

@[simp]
theorem written_append (effects effects' : List Effect) :
    written (effects ++ effects') = written effects ++ written effects' := by
  simp [written]

/-! ## The link -/

/-- Two nodes on one connection: the end of each, and what travels towards
each end. -/
structure Link (σ : Type) where
  a : Connection σ
  b : Connection σ
  toA : List Wire
  toB : List Wire

/-- What can happen on a link: an end reads the first wire that travels towards
it, while its handler's stop flag has the given value; a node's timer sends a
timed sync; or the rest of a node changes its core. -/
inductive LinkEvent (σ : Type) where
  | receiveA (stop : Bool)
  | receiveB (stop : Bool)
  | timedSyncA
  | timedSyncB
  | coreChangedA (node : σ)
  | coreChangedB (node : σ)

/-- Whether an event changes a node's core from outside the link. -/
def LinkEvent.changesCore {σ : Type} : LinkEvent σ → Bool
  | .coreChangedA _ | .coreChangedB _ => true
  | _ => false

section Link

variable {σ : Type} (core : ProtocolCore σ) (env : ChainEnv) (payload : σ → CoreSyncData)

/-- An end reads a wire: one turn of its loop on the command it carries; the
end then writes its posts and, while its loop still runs, its answer to the
wire with its node's sync data ({lit}`get_payload_sync_data`). -/
def Connection.receive (c : Connection σ) (stop : Bool) (w : Wire) : Connection σ × List Wire :=
  let c' := c.step core env (.command stop w.command)
  (c', written (c'.effects.drop c.effects.length) ++
    if c.ctx.state = .shutdown then [] else w.reply (payload c'.node))

/-- Whether the timer of a node sends a timed sync on a connection: only on
one in the normal or the idle state. -/
def sendsTimedSync (ctx : ConnectionContext) : Prop :=
  ctx.state = .normal ∨ ctx.state = .idle

instance (ctx : ConnectionContext) : Decidable (sendsTimedSync ctx) :=
  inferInstanceAs (Decidable (_ ∨ _))

/-- One event on the link. -/
def Link.step (l : Link σ) : LinkEvent σ → Link σ
  | .receiveA stop =>
    match l.toA with
    | [] => l
    | w :: toA =>
      let r := l.a.receive core env payload stop w
      { l with a := r.1, toA, toB := l.toB ++ r.2 }
  | .receiveB stop =>
    match l.toB with
    | [] => l
    | w :: toB =>
      let r := l.b.receive core env payload stop w
      { l with b := r.1, toB, toA := l.toA ++ r.2 }
  | .timedSyncA =>
    if sendsTimedSync l.a.ctx then { l with toB := l.toB ++ [.timedSync (payload l.a.node)] }
    else l
  | .timedSyncB =>
    if sendsTimedSync l.b.ctx then { l with toA := l.toA ++ [.timedSync (payload l.b.node)] }
    else l
  | .coreChangedA node => { l with a := { l.a with node } }
  | .coreChangedB node => { l with b := { l.b with node } }

/-! ## One turn of an end -/

/-- A turn of a running loop: the head of the loop, then the command. -/
theorem Connection.step_command {c : Connection σ} (hrun : c.ctx.state ≠ .shutdown)
    (stop : Bool) (msg : Message) :
    c.step core env (.command stop msg) =
      { node := (handleCommand core env stop c.node (beforeCommand core c.node c.ctx).1 msg).1
        ctx := (handleCommand core env stop c.node (beforeCommand core c.node c.ctx).1 msg).2.1
        effects := c.effects ++ (beforeCommand core c.node c.ctx).2 ++
          (handleCommand core env stop c.node (beforeCommand core c.node c.ctx).1 msg).2.2
        taken := c.taken + takenBy core env c.node (beforeCommand core c.node c.ctx).1 msg } := by
  simp [Connection.step, hrun]

/-- What a running end writes back: the posts of its turn, then its answer. -/
theorem Connection.receive_of_running {c : Connection σ} (hrun : c.ctx.state ≠ .shutdown)
    (stop : Bool) (w : Wire) :
    c.receive core env payload stop w =
      (c.step core env (.command stop w.command),
        written ((beforeCommand core c.node c.ctx).2 ++
          (handleCommand core env stop c.node (beforeCommand core c.node c.ctx).1 w.command).2.2) ++
        w.reply (payload (c.step core env (.command stop w.command)).node)) := by
  rw [Connection.receive, if_neg hrun, Connection.step_command core env hrun, List.append_assoc,
    List.drop_left]

/-- A synchronised end serves a chain request as its handler does, and its
loop does nothing else. -/
theorem Connection.receive_requestChain {c : Connection σ} {request : List Hash}
    {entry : Blockchain.ResponseChainEntry} (hnormal : c.ctx.state = .normal)
    (hserve : handleRequestChain core c.node c.ctx request =
      (c.ctx, [.post (.responseChainEntry entry)])) (stop : Bool) :
    c.receive core env payload stop (.notify (.requestChain request)) =
      ({ c with effects := c.effects ++ [.post (.responseChainEntry entry)] },
        [.notify (.responseChainEntry entry)]) := by
  rw [Connection.receive_of_running core env payload (by simp [hnormal])]
  simp [Connection.step_command core env (show c.ctx.state ≠ .shutdown by simp [hnormal]),
    beforeCommand_of_normal core hnormal, handleCommand, hserve, Wire.command, Wire.reply, takenBy,
    Notify.toMessage]

/-- A synchronising end handles a chain entry as its handler does, and its
loop does nothing else. -/
theorem Connection.receive_responseChainEntry {c : Connection σ}
    {entry : Blockchain.ResponseChainEntry} (hsync : c.ctx.state = .synchronizing) (stop : Bool) :
    c.receive core env payload stop (.notify (.responseChainEntry entry)) =
      ({ c with
          ctx := (handleResponseChainEntry core c.node c.ctx entry).1
          effects := c.effects ++ (handleResponseChainEntry core c.node c.ctx entry).2 },
        written (handleResponseChainEntry core c.node c.ctx entry).2) := by
  have hrun : c.ctx.state ≠ .shutdown := by simp [hsync]
  rw [Connection.receive_of_running core env payload hrun]
  simp [Connection.step_command core env hrun, beforeCommand, hsync, handleCommand, Wire.command,
    Wire.reply, takenBy]

/-- A synchronising end keeps synchronising on a timed sync, records the
peer's height and answers with its own sync data. -/
theorem Connection.receive_timedSync {c : Connection σ} {hshd : CoreSyncData}
    (hsync : c.ctx.state = .synchronizing) (stop : Bool) :
    c.receive core env payload stop (.timedSync hshd) =
      ({ c with ctx := { c.ctx with remoteBlockchainHeight := hshd.currentHeight } },
        [.timedSyncResponse (payload c.node)]) := by
  have hrun : c.ctx.state ≠ .shutdown := by simp [hsync]
  rw [Connection.receive_of_running core env payload hrun]
  simp [Connection.step_command core env hrun, beforeCommand, hsync, handleCommand, Wire.command,
    Wire.reply, takenBy, processPayloadSyncData]

/-- A synchronised end that has the peer's top stays synchronised on the
response to its timed sync and writes nothing. -/
theorem Connection.receive_timedSyncResponse {c : Connection σ} {hshd : CoreSyncData}
    (hnormal : c.ctx.state = .normal) (htop : core.haveBlock c.node hshd.topId = true)
    (stop : Bool) :
    c.receive core env payload stop (.timedSyncResponse hshd) =
      ({ c with ctx := { c.ctx with remoteBlockchainHeight := hshd.currentHeight } }, []) := by
  have hrun : c.ctx.state ≠ .shutdown := by simp [hnormal]
  rw [Connection.receive_of_running core env payload hrun]
  simp [Connection.step_command core env hrun, beforeCommand_of_normal core hnormal,
    handleCommand, Wire.command, Wire.reply, takenBy, processPayloadSyncData, hnormal, htop]

end Link

/-! ## A chain request that goes round -/

section ChainLoop

variable {σ : Type} (core : ProtocolCore σ) (env : ChainEnv) (payload : σ → CoreSyncData)

/-- A chain entry that a node answers with another request for the chain: on a
synchronising connection with nothing needed or asked for, it leaves the
connection so and posts the request. -/
def AsksAgain (node : σ) (entry : Blockchain.ResponseChainEntry) (request : List Hash) : Prop :=
  ∀ ctx : ConnectionContext, ctx.state = .synchronizing → StartSyncAssertion ctx →
    (handleResponseChainEntry core node ctx entry).1.state = .synchronizing ∧
      StartSyncAssertion (handleResponseChainEntry core node ctx entry).1 ∧
      (handleResponseChainEntry core node ctx entry).2 = [.post (.requestChain request)]

/-- The link on which the end {lit}`a`, over the core {lit}`na`, synchronises
from the end {lit}`b`, over {lit}`nb`, with the exchange of chains going round:
{lit}`a` synchronises with nothing needed or asked for and has asked for the
blocks {lit}`asked`; {lit}`b` is synchronised; towards {lit}`b` travel only
{lit}`a`'s chain request and its answers to timed syncs, towards {lit}`a` only
{lit}`b`'s entry and its timed syncs; and one request or entry is in flight. -/
structure ChainLoop (na nb : σ) (request : List Hash) (entry : Blockchain.ResponseChainEntry)
    (asked : Multiset Hash) (l : Link σ) : Prop where
  nodeA : l.a.node = na
  nodeB : l.b.node = nb
  stateA : l.a.ctx.state = .synchronizing
  clearA : StartSyncAssertion l.a.ctx
  askedA : askedIds l.a.effects = asked
  stateB : l.b.ctx.state = .normal
  towardsB : ∀ w ∈ l.toB, w = .notify (.requestChain request) ∨ w = .timedSyncResponse (payload na)
  towardsA : ∀ w ∈ l.toA, w = .notify (.responseChainEntry entry) ∨ w = .timedSync (payload nb)
  inFlight : l.toB.count (.notify (.requestChain request)) +
    l.toA.count (.notify (.responseChainEntry entry)) = 1

variable {core env payload} {na nb : σ} {request : List Hash} {entry : Blockchain.ResponseChainEntry}
  {asked : Multiset Hash}

/-- Every event but a change of a core keeps the exchange going round, when
{lit}`b` serves the request with the entry, the entry makes {lit}`a` ask again,
and {lit}`b` has {lit}`a`'s top. -/
theorem ChainLoop.step {l : Link σ} (h : ChainLoop payload na nb request entry asked l)
    (hserve : ∀ ctx : ConnectionContext, ctx.state = .normal →
      handleRequestChain core nb ctx request = (ctx, [.post (.responseChainEntry entry)]))
    (hagain : AsksAgain core na entry request) (hknown : core.haveBlock nb (payload na).topId = true)
    {e : LinkEvent σ} (he : e.changesCore = false) :
    ChainLoop payload na nb request entry asked (l.step core env payload e) := by
  cases e with
  | receiveA stop =>
    cases htoA : l.toA with
    | nil => simpa [Link.step, htoA] using h
    | cons w rest =>
      have hrest : ∀ w' ∈ rest, _ := fun w' hw' => h.towardsA w' (by simp [htoA, hw'])
      have hcount := h.inFlight
      rcases h.towardsA w (by simp [htoA]) with rfl | rfl
      · obtain ⟨hstate, hclear, heffects⟩ := hagain l.a.ctx h.stateA h.clearA
        rw [← h.nodeA] at hstate hclear heffects
        simp only [Link.step, htoA, Connection.receive_responseChainEntry core env payload h.stateA,
          heffects]
        refine { h with
          stateA := hstate
          clearA := hclear
          towardsA := hrest
          askedA := ?_
          towardsB := ?_
          inFlight := ?_ }
        · simp [h.askedA.symm, askedIds, Effect.askedBlocks]
        · exact List.forall_mem_append.mpr ⟨h.towardsB, List.forall_mem_singleton.mpr (Or.inl rfl)⟩
        · simp [htoA] at hcount
          simp [Notify.toMessage]
          omega
      · simp only [Link.step, htoA, Connection.receive_timedSync core env payload h.stateA]
        refine { h with towardsA := hrest, towardsB := ?_, inFlight := ?_ }
        · exact List.forall_mem_append.mpr
            ⟨h.towardsB, List.forall_mem_singleton.mpr (Or.inr (by rw [h.nodeA]))⟩
        · simpa [htoA] using hcount
  | receiveB stop =>
    cases htoB : l.toB with
    | nil => simpa [Link.step, htoB] using h
    | cons w rest =>
      have hrest : ∀ w' ∈ rest, _ := fun w' hw' => h.towardsB w' (by simp [htoB, hw'])
      have hcount := h.inFlight
      rcases h.towardsB w (by simp [htoB]) with rfl | rfl
      · have hs := hserve l.b.ctx h.stateB
        rw [← h.nodeB] at hs
        simp only [Link.step, htoB, Connection.receive_requestChain core env payload h.stateB hs]
        refine { h with towardsB := hrest, towardsA := ?_, inFlight := ?_ }
        · exact List.forall_mem_append.mpr ⟨h.towardsA, List.forall_mem_singleton.mpr (Or.inl rfl)⟩
        · simp [htoB] at hcount
          simp
          omega
      · have htop : core.haveBlock l.b.node (payload na).topId = true := by rw [h.nodeB]; exact hknown
        simp only [Link.step, htoB,
          Connection.receive_timedSyncResponse core env payload h.stateB htop]
        refine { h with towardsB := hrest, towardsA := ?_, inFlight := ?_ }
        · simpa using h.towardsA
        · simpa [htoB] using hcount
  | timedSyncA =>
    -- a synchronising connection is not sent timed syncs
    have hno : ¬sendsTimedSync l.a.ctx := by simp [sendsTimedSync, h.stateA]
    simpa [Link.step, hno] using h
  | timedSyncB =>
    have hyes : sendsTimedSync l.b.ctx := Or.inl h.stateB
    simp only [Link.step, if_pos hyes]
    refine { h with towardsA := ?_, inFlight := ?_ }
    · exact List.forall_mem_append.mpr
        ⟨h.towardsA, List.forall_mem_singleton.mpr (Or.inr (by rw [h.nodeB]))⟩
    · simpa using h.inFlight
  | coreChangedA node => simp [LinkEvent.changesCore] at he
  | coreChangedB node => simp [LinkEvent.changesCore] at he

/-- Over every run of the link in which the cores do not change, the exchange
keeps going round: {lit}`a` stays synchronising with nothing needed or asked
for and asks for no block, and a request or an entry is in flight. -/
theorem Link.chainLoop_run {l : Link σ} (h : ChainLoop payload na nb request entry asked l)
    (hserve : ∀ ctx : ConnectionContext, ctx.state = .normal →
      handleRequestChain core nb ctx request = (ctx, [.post (.responseChainEntry entry)]))
    (hagain : AsksAgain core na entry request) (hknown : core.haveBlock nb (payload na).topId = true)
    (events : List (LinkEvent σ)) (hquiet : ∀ e ∈ events, e.changesCore = false) :
    ChainLoop payload na nb request entry asked (events.foldl (Link.step core env payload) l) :=
  Machine.foldl_invariant (fun e : LinkEvent σ => e.changesCore = false)
    (ChainLoop payload na nb request entry asked)
    (fun _ _ he hl => hl.step hserve hagain hknown he) events hquiet h

end ChainLoop

end Protocol
end CryptoNote

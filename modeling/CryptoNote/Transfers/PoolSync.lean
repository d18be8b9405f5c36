import CryptoNote.Core.PoolChanges
import CryptoNote.Lib.Reconcile
import CryptoNote.Transfers.SynchronizerFsm

/-!
# The pool round of the synchroniser

Each consumer of {lit}`BlockchainSynchronizer` keeps the ids of the pool's
transactions it has taken in ({lit}`m_poolTxs` of {lit}`TransfersConsumer`).
{lit}`startPoolSync` folds the union and the intersection of these sets over the
consumers and asks the node for the difference against the union.  When every
consumer knows the same ids the answer goes to each of them.  Otherwise the
synchroniser asks again against the intersection, and hands every consumer the
transactions new to the intersection with the ids the union has and the pool
does not (src/transfers/BlockchainSynchronizer.cpp,
src/transfers/TransfersConsumer.cpp, src/InProcessNode/InProcessNode.cpp).

The node answers each request on its own, so its pool may change between the
two: the round takes the node as it is at each request.  A consumer's processing
of a transaction is given as whether it reports an error; the round ends in one
of the three ways of {lit}`SynchronizerFsm`.

Main results:

- Theorem {lit}`startPoolSync_endRound`: a pool round changes the synchroniser's
  state as one of the round endings of the state machine.
- Theorem {lit}`startPoolSync_bounds`: a round whose node is on the
  synchroniser's last block, with consumers that process what they are sent,
  leaves every consumer knowing every transaction the pool held ready at both
  requests and none it held at neither.
- Theorem {lit}`startPoolSync_eq_ready`: with the pool unchanged between the
  requests, every consumer ends knowing exactly the pool's ready transactions.
-/

namespace CryptoNote
namespace Transfers

open BlockchainSynchronizer

/-! ## Requests, answers and consumers -/

/-- {lit}`GetPoolRequest`: the pool ids the consumers know, and the last block
handed to them. -/
structure GetPoolRequest where
  knownTxIds : Multiset Hash
  lastKnownBlock : Hash

/-- {lit}`GetPoolResponse`: whether the request's block is the node's tail, the
transactions new to the request (each read as its prefix and its hash), and the
ids the pool no longer holds ready. -/
structure GetPoolResponse where
  isLastKnownBlockActual : Bool
  newTxs : List TransactionPrefixInfo
  deletedTxIds : Multiset Hash

/-- The in-process node as the pool round reads it: the core's chain, whose pool
is the core's, the ready check of the pool against the chain, and whether
{lit}`init` has run. -/
structure PoolNode where
  core : Blockchain
  validator : ReadyValidator
  initialized : Bool

/-- The ids of the node's pool ready to go, as a set. -/
def PoolNode.ready (node : PoolNode) : Finset Hash :=
  (node.core.pool.readyTxIds node.validator).toFinset

/-- {lit}`InProcessNode::getPoolSymmetricDifference` with its asynchronous part:
{lit}`NOT_INITIALIZED` before {lit}`init`, the core's changes otherwise. -/
def getPoolSymmetricDifference (env : ChainEnv) (node : PoolNode)
    (knownPoolTxIds : Multiset Hash) (knownBlockId : Hash) : Option GetPoolResponse :=
  if !node.initialized then none
  else
    let (isBcActual, added, deletedTxIds) :=
      Core.getPoolChangesLite env node.validator node.core knownBlockId knownPoolTxIds
    some { isLastKnownBlockActual := isBcActual, newTxs := added, deletedTxIds }

/-- {lit}`getPoolSymmetricDifferenceSync`: the request handed to the node, whose
answer the synchroniser waits for. -/
def getPoolSymmetricDifferenceSync (env : ChainEnv) (node : PoolNode)
    (request : GetPoolRequest) : Option GetPoolResponse :=
  getPoolSymmetricDifference env node request.knownTxIds request.lastKnownBlock

/-- The pool side of a consumer: the ids it knows ({lit}`getKnownPoolTxIds`), and
whether {lit}`processTransaction` of a transaction reports no error. -/
structure PoolConsumer where
  poolTxs : Finset Hash
  processTransaction : TransactionPrefixInfo → Bool

/-- The loop of {lit}`TransfersConsumer::onPoolUpdated` over the added
transactions: each hash is recorded before the transaction is processed, and the
first error ends the call. -/
def addPoolTxs (processTransaction : TransactionPrefixInfo → Bool) :
    List TransactionPrefixInfo → Finset Hash → Bool × Finset Hash
  | [], poolTxs => (true, poolTxs)
  | tx :: txs, poolTxs =>
    let poolTxs := insert tx.txHash poolTxs
    if processTransaction tx then addPoolTxs processTransaction txs poolTxs else (false, poolTxs)

/-- {lit}`TransfersConsumer::onPoolUpdated`: take in the added transactions, then
forget the deleted ids; whether no error occurred. -/
def PoolConsumer.onPoolUpdated (c : PoolConsumer) (addedTransactions : List TransactionPrefixInfo)
    (deletedTransactions : Multiset Hash) : Bool × PoolConsumer :=
  match addPoolTxs c.processTransaction addedTransactions c.poolTxs with
  | (false, poolTxs) => (false, { c with poolTxs })
  | (true, poolTxs) => (true, { c with poolTxs := poolTxs \ deletedTransactions.toFinset })

/-! ## The round -/

/-- {lit}`getPoolUnionAndIntersection`: both start from the first consumer's ids
and go through the others.  The source reads the first consumer of a map that
{lit}`start` keeps from being empty; here no consumer gives two empty sets. -/
def getPoolUnionAndIntersection : List PoolConsumer → Finset Hash × Finset Hash
  | [] => (∅, ∅)
  | c :: cs => (cs.map PoolConsumer.poolTxs).foldl Reconcile.unionInterStep (c.poolTxs, c.poolTxs)

/-- The loop of {lit}`processPoolTxs` over the consumers: the first error ends
it. -/
def processPoolTxsLoop (response : GetPoolResponse) :
    List PoolConsumer → Bool × List PoolConsumer
  | [] => (true, [])
  | c :: cs =>
    match c.onPoolUpdated response.newTxs response.deletedTxIds with
    | (false, c') => (false, c' :: cs)
    | (true, c') =>
      let (ok, cs') := processPoolTxsLoop response cs
      (ok, c' :: cs')

/-- {lit}`processPoolTxs`: nothing is handed on once a stop is requested.  The
round is one step of the state machine, so the check before each consumer reads
the same state. -/
def processPoolTxs (m : Synchronizer) (response : GetPoolResponse)
    (consumers : List PoolConsumer) : Bool × List PoolConsumer :=
  if checkIfShouldStop m then (false, consumers) else processPoolTxsLoop response consumers

/-- A failed request: the future state falls back to {lit}`idle` unless a stop
is requested. -/
def poolRoundFailed (m : Synchronizer) : Synchronizer :=
  (setFutureStateIf m .idle fun m => m.futureState ≠ .stopped).2

/-- {lit}`startPoolSync`, with the node as it is at the union request and at the
intersection request: the synchroniser's state and the consumers after the
round. -/
def startPoolSync (env : ChainEnv) (unionNode intersectionNode : PoolNode) (lastBlockId : Hash)
    (m : Synchronizer) (consumers : List PoolConsumer) : Synchronizer × List PoolConsumer :=
  let (unionPoolHistory, intersectedPoolHistory) := getPoolUnionAndIntersection consumers
  match getPoolSymmetricDifferenceSync env unionNode ⟨unionPoolHistory.val, lastBlockId⟩ with
  | none => (poolRoundFailed m, consumers)
  | some unionResponse =>
    if !unionResponse.isLastKnownBlockActual then ((setFutureState m .blockchainSync).2, consumers)
    else if unionPoolHistory = intersectedPoolHistory then
      (m, (processPoolTxs m unionResponse consumers).2)
    else
      match getPoolSymmetricDifferenceSync env intersectionNode
          ⟨intersectedPoolHistory.val, lastBlockId⟩ with
      | none => (poolRoundFailed m, consumers)
      | some intersectionResponse =>
        if !intersectionResponse.isLastKnownBlockActual then
          ((setFutureState m .blockchainSync).2, consumers)
        else
          -- the ids to drop are the union's
          (m, (processPoolTxs m
            { intersectionResponse with deletedTxIds := unionResponse.deletedTxIds } consumers).2)

/-! ## The round as a step of the state machine -/

/-- Whatever the node answers, the round leaves the synchroniser as one of the
state machine's round endings. -/
theorem startPoolSync_endRound (env : ChainEnv) (unionNode intersectionNode : PoolNode)
    (lastBlockId : Hash) (m : Synchronizer) (consumers : List PoolConsumer) :
    ∃ how, (startPoolSync env unionNode intersectionNode lastBlockId m consumers).1 =
      endRound m how := by
  unfold startPoolSync
  split
  split
  · exact ⟨.failed, rfl⟩
  · split
    · exact ⟨.again, rfl⟩
    · split
      · exact ⟨.settled, rfl⟩
      · split
        · exact ⟨.failed, rfl⟩
        · split
          · exact ⟨.again, rfl⟩
          · exact ⟨.settled, rfl⟩

/-! ## What the consumers take in -/

section Consumers

variable {processTransaction : TransactionPrefixInfo → Bool}

/-- A consumer that processes every added transaction records all their
hashes. -/
theorem addPoolTxs_of_forall (txs : List TransactionPrefixInfo) (poolTxs : Finset Hash)
    (hprocess : ∀ tx ∈ txs, processTransaction tx = true) :
    addPoolTxs processTransaction txs poolTxs = (true, poolTxs ∪ (txs.map (·.txHash)).toFinset) := by
  induction txs generalizing poolTxs with
  | nil => simp [addPoolTxs]
  | cons tx txs ih =>
    rw [addPoolTxs, if_pos (hprocess tx List.mem_cons_self),
      ih _ fun tx' htx' => hprocess tx' (List.mem_cons_of_mem _ htx')]
    simp [Finset.insert_union]

/-- Such a consumer ends with its ids corrected by the added hashes and the
deleted ids. -/
theorem onPoolUpdated_of_forall (c : PoolConsumer) (added : List TransactionPrefixInfo)
    (deleted : Multiset Hash) (hprocess : ∀ tx ∈ added, c.processTransaction tx = true) :
    c.onPoolUpdated added deleted =
      (true, { c with poolTxs :=
        Reconcile.correct c.poolTxs (added.map (·.txHash)).toFinset deleted.toFinset }) := by
  rw [PoolConsumer.onPoolUpdated, addPoolTxs_of_forall added c.poolTxs hprocess]
  rfl

/-- Consumers that process every transaction all get the same correction. -/
theorem processPoolTxsLoop_of_forall (response : GetPoolResponse) (consumers : List PoolConsumer)
    (hprocess : ∀ c ∈ consumers, ∀ tx, c.processTransaction tx = true) :
    processPoolTxsLoop response consumers =
      (true, consumers.map fun c => { c with poolTxs := (Reconcile.correct c.poolTxs
        (response.newTxs.map (·.txHash)).toFinset response.deletedTxIds.toFinset) }) := by
  induction consumers with
  | nil => rfl
  | cons c cs ih =>
    rw [processPoolTxsLoop, onPoolUpdated_of_forall c _ _
      fun tx _ => hprocess c List.mem_cons_self tx,
      ih fun c' hc' => hprocess c' (List.mem_cons_of_mem _ hc')]
    rfl

/-- Every consumer lies between the intersection and the union. -/
theorem getPoolUnionAndIntersection_bounds {consumers : List PoolConsumer} {c : PoolConsumer}
    (hc : c ∈ consumers) :
    (getPoolUnionAndIntersection consumers).2 ⊆ c.poolTxs ∧
      c.poolTxs ⊆ (getPoolUnionAndIntersection consumers).1 := by
  cases consumers with
  | nil => exact absurd hc List.not_mem_nil
  | cons c₀ cs =>
    have hmem : c.poolTxs ∈ c₀.poolTxs :: cs.map PoolConsumer.poolTxs :=
      List.mem_map_of_mem (f := PoolConsumer.poolTxs) hc
    exact Reconcile.mem_foldl_unionInterStep hmem

end Consumers

/-! ## The node's answer -/

/-- An initialised node on the request's block, whose pool files by hash, sends
the ready transactions new to the request and drops the known ids that are not
ready. -/
theorem getPoolSymmetricDifferenceSync_eq {env : ChainEnv} {node : PoolNode}
    (hinit : node.initialized = true) (hfiles : node.core.pool.FilesByHash env.transactionHash)
    (request : GetPoolRequest) (htail : request.lastKnownBlock = node.core.getTailId) :
    ∃ response, getPoolSymmetricDifferenceSync env node request = some response ∧
      response.isLastKnownBlockActual = true ∧
      (response.newTxs.map (·.txHash)).toFinset = node.ready \ request.knownTxIds.toFinset ∧
      response.deletedTxIds.toFinset = request.knownTxIds.toFinset \ node.ready := by
  obtain ⟨hactual, hnew, hdeleted⟩ := Core.getPoolChangesLite_eq node.validator hfiles
    request.lastKnownBlock request.knownTxIds
  refine ⟨_, by simp [getPoolSymmetricDifferenceSync, getPoolSymmetricDifference, hinit]; rfl,
    ?_, hnew, hdeleted⟩
  simpa [htail] using hactual

/-! ## The round on the synchroniser's last block -/

section Round

variable {env : ChainEnv} {unionNode intersectionNode : PoolNode} {lastBlockId : Hash}
  {m : Synchronizer} {consumers : List PoolConsumer}

/-- Both nodes answer on the synchroniser's last block, from pools that file by
hash. -/
structure Answers (env : ChainEnv) (node : PoolNode) (lastBlockId : Hash) : Prop where
  initialized : node.initialized = true
  filesByHash : node.core.pool.FilesByHash env.transactionHash
  onTail : lastBlockId = node.core.getTailId

/-- On the last block, with consumers that process every transaction, the round
changes no state and corrects every consumer: by the union's answer when all
consumers agree, by the intersection's otherwise. -/
theorem startPoolSync_of_answers (hunion : Answers env unionNode lastBlockId)
    (hintersection : Answers env intersectionNode lastBlockId)
    (hrun : m.futureState ≠ .stopped)
    (hprocess : ∀ c ∈ consumers, ∀ tx, c.processTransaction tx = true) :
    let U := (getPoolUnionAndIntersection consumers).1
    let I := (getPoolUnionAndIntersection consumers).2
    startPoolSync env unionNode intersectionNode lastBlockId m consumers =
      (m, consumers.map fun c => { c with poolTxs :=
        (if U = I then Reconcile.correct c.poolTxs (unionNode.ready \ U) (U \ unionNode.ready)
        else Reconcile.correct c.poolTxs (intersectionNode.ready \ I) (U \ unionNode.ready)) })
      := by
  intro U I
  have hstop : checkIfShouldStop m = false := by simpa [checkIfShouldStop] using hrun
  obtain ⟨rU, hrU, hactualU, hnewU, hdelU⟩ := getPoolSymmetricDifferenceSync_eq
    hunion.initialized hunion.filesByHash ⟨U.val, lastBlockId⟩ hunion.onTail
  obtain ⟨rI, hrI, hactualI, hnewI, -⟩ := getPoolSymmetricDifferenceSync_eq
    hintersection.initialized hintersection.filesByHash ⟨I.val, lastBlockId⟩
    hintersection.onTail
  simp only [Finset.val_toFinset] at hnewU hdelU hnewI
  have hpair : getPoolUnionAndIntersection consumers = (U, I) := rfl
  by_cases hagree : U = I
  · simp only [startPoolSync, hpair, hrU, hactualU, Bool.not_true, Bool.false_eq_true, if_false,
      if_pos hagree, processPoolTxs, hstop, processPoolTxsLoop_of_forall _ _ hprocess, hnewU,
      hdelU]
  · simp only [startPoolSync, hpair, hrU, hactualU, hrI, hactualI, Bool.not_true,
      Bool.false_eq_true, if_false, if_neg hagree, processPoolTxs, hstop,
      processPoolTxsLoop_of_forall _ _ hprocess, hnewI, hdelU]

/-- The pool round on the synchroniser's last block, with consumers that process
every transaction they are sent: the synchroniser's state is unchanged, and every
consumer ends knowing every transaction that the pool held ready at both
requests and none that it held at neither. -/
theorem startPoolSync_bounds (hunion : Answers env unionNode lastBlockId)
    (hintersection : Answers env intersectionNode lastBlockId)
    (hrun : m.futureState ≠ .stopped)
    (hprocess : ∀ c ∈ consumers, ∀ tx, c.processTransaction tx = true) :
    (startPoolSync env unionNode intersectionNode lastBlockId m consumers).1 = m ∧
      (startPoolSync env unionNode intersectionNode lastBlockId m consumers).2.map
          PoolConsumer.processTransaction = consumers.map PoolConsumer.processTransaction ∧
      ∀ c ∈ (startPoolSync env unionNode intersectionNode lastBlockId m consumers).2,
        unionNode.ready ∩ intersectionNode.ready ⊆ c.poolTxs ∧
          c.poolTxs ⊆ unionNode.ready ∪ intersectionNode.ready := by
  rw [startPoolSync_of_answers hunion hintersection hrun hprocess]
  refine ⟨rfl, by simp [Function.comp_def], ?_⟩
  intro c' hc'
  obtain ⟨c, hc, rfl⟩ := List.mem_map.mp hc'
  obtain ⟨hI, hU⟩ := getPoolUnionAndIntersection_bounds hc
  split_ifs with hagree
  · rw [Reconcile.correct_eq (hagree ▸ hI) hU]
    exact ⟨Finset.inter_subset_left, Finset.subset_union_left⟩
  · exact Reconcile.correct_bounds hI hU

/-- With the pool unchanged between the requests, the round leaves every
consumer knowing exactly the ids of the pool's ready transactions. -/
theorem startPoolSync_eq_ready {node : PoolNode} (hanswers : Answers env node lastBlockId)
    (hrun : m.futureState ≠ .stopped)
    (hprocess : ∀ c ∈ consumers, ∀ tx, c.processTransaction tx = true) :
    startPoolSync env node node lastBlockId m consumers =
      (m, consumers.map fun c => { c with poolTxs := node.ready }) := by
  rw [startPoolSync_of_answers hanswers hanswers hrun hprocess]
  congr 1
  refine List.map_congr_left fun c hc => ?_
  obtain ⟨hI, hU⟩ := getPoolUnionAndIntersection_bounds hc
  split_ifs with hagree
  · rw [Reconcile.correct_eq (hagree ▸ hI) hU]
  · rw [Reconcile.correct_eq hI hU]

end Round

/-! ## Two consumers that disagree

Pools whose transactions are told apart by their unlock times, all ready, and
two consumers: one knows a transaction the pool has dropped, the other one the
pool still holds. -/

/-- A transaction told apart by its unlock time. -/
def sampleTx (k : Nat) : Transaction := { (default : Transaction) with unlockTime := k.toUInt64 }

/-- A pool record filed under its transaction's hash. -/
def sampleRecord (k : Nat) : TransactionDetails :=
  { (default : TransactionDetails) with
    id := Blockchain.sampleEnv.transactionHash (sampleTx k)
    tx := sampleTx k }

/-- A check that passes every transaction. -/
def readyValidator : ReadyValidator := ⟨fun _ checkInfo => (true, checkInfo), fun _ => false⟩

/-- The sample chain with transactions {lit}`1` and {lit}`2` in its pool. -/
def poolNodeBefore : PoolNode :=
  ⟨{ Blockchain.sampleChain with
      pool := { TxMemoryPool.empty with
        transactions := ⟨[sampleRecord 1, sampleRecord 2], by decide⟩ } },
    readyValidator, true⟩

/-- The same chain once transaction {lit}`1` has left the pool and {lit}`3` has
come in. -/
def poolNodeAfter : PoolNode :=
  ⟨{ Blockchain.sampleChain with
      pool := { TxMemoryPool.empty with
        transactions := ⟨[sampleRecord 2, sampleRecord 3], by decide⟩ } },
    readyValidator, true⟩

/-- Consumers that know {lit}`0` and {lit}`1`, and {lit}`2`. -/
def sampleConsumers : List PoolConsumer :=
  [⟨{(sampleRecord 0).id, (sampleRecord 1).id}, fun _ => true⟩,
    ⟨{(sampleRecord 2).id}, fun _ => true⟩]

/-- The synchroniser in its first pool round. -/
def poolingSample : Synchronizer :=
  [Action.addConsumer 0, .start, .test, .enter, .endRound .settled, .test, .enter].foldl step
    Synchronizer.init

/-- A pool round against an unchanged node, for consumers that disagree with it. -/
theorem startPoolSync_eq_ready_disagreeing :
    startPoolSync Blockchain.sampleEnv poolNodeBefore poolNodeBefore
        Blockchain.sampleChain.getTailId poolingSample sampleConsumers =
      (poolingSample, sampleConsumers.map fun c => { c with poolTxs := poolNodeBefore.ready }) :=
  startPoolSync_eq_ready ⟨rfl, by decide, rfl⟩ (by decide) (by simp [sampleConsumers])

/-- A pool round in which the node's pool changes between the two requests. -/
theorem startPoolSync_bounds_changed :
    let r := startPoolSync Blockchain.sampleEnv poolNodeBefore poolNodeAfter
      Blockchain.sampleChain.getTailId poolingSample sampleConsumers
    r.1 = poolingSample ∧
      r.2.map PoolConsumer.processTransaction =
        sampleConsumers.map PoolConsumer.processTransaction ∧
      ∀ c ∈ r.2, poolNodeBefore.ready ∩ poolNodeAfter.ready ⊆ c.poolTxs ∧
        c.poolTxs ⊆ poolNodeBefore.ready ∪ poolNodeAfter.ready :=
  startPoolSync_bounds ⟨rfl, by decide, rfl⟩ ⟨rfl, by decide, rfl⟩ (by decide)
    (by simp [sampleConsumers])

end Transfers
end CryptoNote

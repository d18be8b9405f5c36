import CryptoNote.Transfers.SynchronizationState

/-!
# The blockchain synchroniser

{lit}`BlockchainSynchronizer` keeps, for each consumer (a wallet's transfer
tracker), a {lit}`SynchronizationState` of the block hashes it has taken
(src/transfers/BlockchainSynchronizer.cpp).  It asks the node for blocks with
the short history of the consumer with the fewest blocks
({lit}`getCommonHistory`), turns the answer into an interval of hashes and a
list of complete blocks ({lit}`processBlocks`), and hands them to every
consumer ({lit}`updateConsumers`): each checks the interval against its chain,
detaches at the first height where they differ, and takes the new blocks from
there; the state appends their hashes only if the consumer accepted them, and
the first consumer that refuses ends the round with an error, the consumers
after it untouched.

The consumers are outside the model: a consumer is its start of
synchronisation and its answer to {lit}`onNewBlocks`.  Its
{lit}`onBlockchainDetach` only changes its own state.

Main results:

- Theorem {lit}`updateConsumer_of_isPrefix` and {lit}`updateConsumer_of_not_isPrefix`:
  below the wrap of {lit}`uint32_t`, a consumer whose chain already holds the
  interval at its start height is left alone; any other is asked for the blocks
  from the first height where its chain and the interval part, and when it
  takes them its chain becomes its own blocks below the start height followed
  by the interval.
- Theorem {lit}`updateConsumers_spec`: over all consumers, a round without an
  error brings every chain to {lit}`expected`, and reports new blocks exactly
  when some chain changed; a round with an error leaves the consumers before
  the failing one at {lit}`expected`, the failing one cut at the height it was
  asked from, and the ones after it as they were.
-/

namespace CryptoNote
namespace Transfers

/-- {lit}`SynchronizationStart`: the time and height a consumer wants whole
blocks from. -/
structure SynchronizationStart where
  timestamp : UInt64
  height : UInt32

/-- {lit}`CompleteBlock`: a block's hash, the block when the node sent it
whole, and a reader of each of its transactions, the coinbase first, as the
prefix and the hash it carries. -/
structure CompleteBlock where
  blockHash : Hash
  block : Option Block
  transactions : List (TransactionPrefix × Hash)

/-- A consumer as the synchroniser sees it ({lit}`IBlockchainConsumer`): where
it starts, and whether it takes the blocks handed to it at a height. -/
structure Consumer where
  getSyncStart : SynchronizationStart
  onNewBlocks : List CompleteBlock → UInt32 → UInt32 → Bool

/-- {lit}`UpdateConsumersResult`. -/
inductive UpdateConsumersResult where
  | nothingChanged
  | addedNewBlocks
  | errorOccurred
  deriving DecidableEq

/-- One turn of the loop of {lit}`updateConsumers`: check the interval, detach
where required, and hand the new blocks over.  A consumer that refuses them
ends the loop with its state as the detach left it ({lit}`.error`); otherwise
the turn reports whether the state took new hashes. -/
def updateConsumer (interval : BlockchainInterval) (blocks : List CompleteBlock)
    (consumer : Consumer) (state : SynchronizationState) :
    Except SynchronizationState (Bool × SynchronizationState) :=
  let result := state.checkInterval interval
  let state := if result.detachRequired then state.detach result.detachHeight else state
  if result.hasNewBlocks then
    let startOffset := result.newBlockHeight - interval.startHeight
    if consumer.onNewBlocks (blocks.drop startOffset.toNat) result.newBlockHeight
        (UInt32.ofNat blocks.length - startOffset) then
      .ok (true, state.addBlocks (interval.blocks.drop startOffset.toNat) result.newBlockHeight
        (UInt32.ofNat interval.blocks.length - startOffset))
    else .error state
  else .ok (false, state)

/-- The loop of {lit}`updateConsumers` over the consumers, with the flag
{lit}`smthChanged`. -/
def updateConsumersLoop (interval : BlockchainInterval) (blocks : List CompleteBlock) :
    List (Consumer × SynchronizationState) → Bool →
      UpdateConsumersResult × List (Consumer × SynchronizationState)
  | [], smthChanged => (if smthChanged then .addedNewBlocks else .nothingChanged, [])
  | (consumer, state) :: rest, smthChanged =>
    match updateConsumer interval blocks consumer state with
    | .error state' => (.errorOccurred, (consumer, state') :: rest)
    | .ok (changed, state') =>
      let (result, rest') := updateConsumersLoop interval blocks rest (smthChanged || changed)
      (result, (consumer, state') :: rest')

/-- {lit}`updateConsumers`. -/
def updateConsumers (interval : BlockchainInterval) (blocks : List CompleteBlock)
    (consumers : List (Consumer × SynchronizationState)) :
    UpdateConsumersResult × List (Consumer × SynchronizationState) :=
  updateConsumersLoop interval blocks consumers false

/-- {lit}`TransactionShortInfo`. -/
structure TransactionShortInfo where
  txId : Hash
  txPrefix : TransactionPrefix

/-- {lit}`BlockShortEntry`: what the node sends of a block. -/
structure BlockShortEntry where
  blockHash : Hash
  hasBlock : Bool
  block : Block
  txsShortInfo : List TransactionShortInfo

/-- {lit}`GetBlocksResponse`. -/
structure GetBlocksResponse where
  startHeight : UInt32
  newBlocks : List BlockShortEntry

/-- The complete block {lit}`processBlocks` makes of an entry: a block sent
whole comes with a reader of its coinbase, hashed here, and of each transaction
the node sent. -/
def BlockShortEntry.toCompleteBlock (transactionHash : Transaction → Hash)
    (entry : BlockShortEntry) : CompleteBlock :=
  if entry.hasBlock then
    { blockHash := entry.blockHash, block := some entry.block,
      transactions :=
        (entry.block.baseTransaction.toTransactionPrefix,
            transactionHash entry.block.baseTransaction) ::
          entry.txsShortInfo.map fun info => (info.txPrefix, info.txId) }
  else { blockHash := entry.blockHash, block := none, transactions := [] }

/-- {lit}`processBlocks`: the interval of the answer's hashes from its start
height, and the consumers updated with it. -/
def processBlocks (transactionHash : Transaction → Hash) (response : GetBlocksResponse)
    (consumers : List (Consumer × SynchronizationState)) :
    UpdateConsumersResult × List (Consumer × SynchronizationState) :=
  let interval : BlockchainInterval :=
    { startHeight := response.startHeight, blocks := response.newBlocks.map (·.blockHash) }
  updateConsumers interval (response.newBlocks.map (·.toCompleteBlock transactionHash)) consumers

/-- {lit}`GetBlocksRequest`. -/
structure GetBlocksRequest where
  knownBlocks : List Hash
  syncStart : SynchronizationStart

/-- {lit}`getCommonHistory`: the short history of the first consumer with the
fewest blocks, and the earliest start of all; no consumers, an empty request.
The history's loop runs with {lit}`fuel`. -/
def getCommonHistory (localHeight : UInt32) (fuel : Nat) :
    List (Consumer × SynchronizationState) → Option GetBlocksRequest
  | [] => some { knownBlocks := [], syncStart := ⟨0, 0⟩ }
  | first :: rest =>
    let shortestAndStart := rest.foldl (fun acc it =>
      (if it.2.getHeight < acc.1.2.getHeight then it else acc.1,
        { timestamp := min acc.2.timestamp it.1.getSyncStart.timestamp,
          height := min acc.2.height it.1.getSyncStart.height }))
      (first, first.1.getSyncStart)
    (shortestAndStart.1.2.getShortHistory localHeight fuel).map fun knownBlocks =>
      { knownBlocks, syncStart := shortestAndStart.2 }

/-! ## One consumer -/

/-- What the interval says a chain should be: the chain's own blocks below the
start height, then the interval. -/
def SynchronizationState.target (state : SynchronizationState) (interval : BlockchainInterval) :
    List Hash :=
  state.blockchain.take interval.startHeight.toNat ++ interval.blocks

/-- The state a round without an error leaves: as it was when its chain
already holds the interval, the target otherwise. -/
def SynchronizationState.expected (state : SynchronizationState)
    (interval : BlockchainInterval) : SynchronizationState :=
  if state.target interval <+: state.blockchain then state else ⟨state.target interval⟩

/-- How a consumer's turn fails at a height: its chain does not hold the
interval, agrees with the target below the height, which lies from the start
of the interval below the target's end, and the consumer refuses the blocks
from there. -/
structure RefusedAt (interval : BlockchainInterval) (blocks : List CompleteBlock)
    (consumer : Consumer) (state : SynchronizationState) (height : Nat) : Prop where
  not_isPrefix : ¬state.target interval <+: state.blockchain
  start_le : interval.startHeight.toNat ≤ height
  lt_length : height < (state.target interval).length
  take_eq : state.blockchain.take height = (state.target interval).take height
  refused : consumer.onNewBlocks (blocks.drop (height - interval.startHeight.toNat))
    (UInt32.ofNat height)
    (UInt32.ofNat blocks.length - (UInt32.ofNat height - interval.startHeight)) = false

section Consumer

open ListWindow

variable (interval : BlockchainInterval) (blocks : List CompleteBlock) (consumer : Consumer)
  {state : SynchronizationState}

/-- The offsets of {lit}`updateConsumer`, in {lit}`uint32_t`, at a height {lit}`h`
between the start height and the end of the interval. -/
theorem toNat_offset {h : Nat} (hstart : interval.startHeight.toNat ≤ h)
    (hh : h < 2 ^ 32) :
    (UInt32.ofNat h - interval.startHeight).toNat = h - interval.startHeight.toNat := by
  have hofNat : (UInt32.ofNat h).toNat = h := by
    rw [UInt32.toNat_ofNat', Nat.mod_eq_of_lt hh]
  have hle : interval.startHeight ≤ UInt32.ofNat h := by
    rw [UInt32.le_iff_toNat_le, hofNat]
    exact hstart
  rw [UInt32.toNat_sub_of_le _ _ hle, hofNat]

/-- The count of blocks from a height within the interval, computed in 32 bits as
the source does, is the count on natural numbers. -/
theorem toNat_count {h : Nat} (hstart : interval.startHeight.toNat ≤ h)
    (hh : h ≤ interval.startHeight.toNat + interval.blocks.length)
    (hend : interval.startHeight.toNat + interval.blocks.length < 2 ^ 32) :
    (UInt32.ofNat interval.blocks.length - (UInt32.ofNat h - interval.startHeight)).toNat =
      interval.blocks.length - (h - interval.startHeight.toNat) := by
  have hoffset := toNat_offset interval hstart (by omega)
  have hofNat : (UInt32.ofNat interval.blocks.length).toNat = interval.blocks.length := by
    rw [UInt32.toNat_ofNat', Nat.mod_eq_of_lt (by omega)]
  have hle : UInt32.ofNat h - interval.startHeight ≤ UInt32.ofNat interval.blocks.length := by
    rw [UInt32.le_iff_toNat_le, hoffset, hofNat]
    omega
  rw [UInt32.toNat_sub_of_le _ _ hle, hoffset, hofNat]

/-- The blocks a consumer takes from a height where its chain agrees with the
interval complete the target. -/
theorem addBlocks_target {h : Nat} {cut : SynchronizationState}
    (hcut : cut.blockchain = state.blockchain.take h) (hstart : interval.startHeight.toNat ≤ h)
    (hh : h ≤ state.blockchain.length)
    (hend : interval.startHeight.toNat + interval.blocks.length < 2 ^ 32)
    (hbelow : h ≤ interval.startHeight.toNat + interval.blocks.length)
    (hagree : Agrees state.blockchain interval.blocks interval.startHeight.toNat h) :
    cut.addBlocks (interval.blocks.drop (UInt32.ofNat h - interval.startHeight).toNat)
        (UInt32.ofNat h) (UInt32.ofNat interval.blocks.length - (UInt32.ofNat h - interval.startHeight)) =
      ⟨state.target interval⟩ := by
  have hrest : (interval.blocks.drop (h - interval.startHeight.toNat)).take
      (interval.blocks.length - (h - interval.startHeight.toNat)) =
      interval.blocks.drop (h - interval.startHeight.toNat) :=
    List.take_of_length_le (by simp)
  rw [SynchronizationState.addBlocks, toNat_count interval hstart hbelow hend,
    toNat_offset interval hstart (by omega), hrest, hcut,
    take_append_drop_of_agrees hagree hstart hh (by omega)]
  rfl

/-- A consumer whose chain already holds the interval at its start height is
left alone. -/
theorem updateConsumer_of_isPrefix (hstart : interval.startHeight.toNat ≤ state.blockchain.length)
    (hlength : state.blockchain.length < 2 ^ 32)
    (hend : interval.startHeight.toNat + interval.blocks.length < 2 ^ 32)
    (hpre : state.target interval <+: state.blockchain) :
    updateConsumer interval blocks consumer state = .ok (false, state) := by
  rcases checkInterval_cases state interval hlength hend with
    ⟨d, hd, hdl, hdend, _, hne, _⟩ | ⟨_, habove, _⟩ | ⟨_, _, hcheck⟩
  · exact absurd hpre (not_prefix_of_getD_ne hd hdl (by omega) hne)
  · exact absurd hpre (not_prefix_of_length_lt habove hstart)
  · simp [updateConsumer, hcheck]

/-- Any other consumer is asked for the blocks from the first height where its
chain and the interval part, below the end of the interval, with its chain cut
there; when it takes them its chain becomes the target, and when it refuses,
the cut chain stays. -/
theorem updateConsumer_of_not_isPrefix
    (hstart : interval.startHeight.toNat ≤ state.blockchain.length)
    (hlength : state.blockchain.length < 2 ^ 32)
    (hend : interval.startHeight.toNat + interval.blocks.length < 2 ^ 32)
    (hpre : ¬state.target interval <+: state.blockchain) :
    ∃ h, interval.startHeight.toNat ≤ h ∧ h ≤ state.blockchain.length ∧
      h < (state.target interval).length ∧
      state.blockchain.take h = (state.target interval).take h ∧
      updateConsumer interval blocks consumer state =
        if consumer.onNewBlocks (blocks.drop (h - interval.startHeight.toNat)) (UInt32.ofNat h)
            (UInt32.ofNat blocks.length - (UInt32.ofNat h - interval.startHeight))
        then .ok (true, ⟨state.target interval⟩)
        else .error ⟨state.blockchain.take h⟩ := by
  have htargetLength : (state.target interval).length =
      interval.startHeight.toNat + interval.blocks.length := by
    simp [SynchronizationState.target]
    omega
  rcases checkInterval_cases state interval hlength hend with
    ⟨d, hd, hdl, hdend, hagree, _, hcheck⟩ | ⟨hagree, habove, hcheck⟩ | ⟨hagree, hwithin, _⟩
  · refine ⟨d, hd, hdl.le, by omega, take_eq_take_of_agrees hagree hd hdl.le (by omega), ?_⟩
    simp only [updateConsumer, hcheck, ↓reduceIte, SynchronizationState.detach]
    rw [UInt32.toNat_ofNat', Nat.mod_eq_of_lt (by omega), resize_of_le hdl.le,
      addBlocks_target interval rfl hd hdl.le hend (by omega) hagree,
      toNat_offset interval hd (by omega)]
  · refine ⟨state.blockchain.length, hstart, le_rfl, by omega,
      take_eq_take_of_agrees hagree hstart le_rfl (by omega), ?_⟩
    simp only [updateConsumer, hcheck, ↓reduceIte, Bool.false_eq_true, List.take_length]
    rw [addBlocks_target interval List.take_length.symm hstart le_rfl hend habove.le hagree,
      toNat_offset interval hstart hlength]
  · exact absurd (prefix_of_agrees hagree hwithin) hpre

/-- The expected state differs from the old one exactly when the chain does not
hold the interval yet. -/
theorem expected_ne_iff : state.expected interval ≠ state ↔ ¬state.target interval <+: state.blockchain := by
  unfold SynchronizationState.expected
  split
  · rename_i hpre
    simp [hpre]
  · rename_i hpre
    refine ⟨fun _ => hpre, fun _ heq => hpre ?_⟩
    have hchain : state.target interval = state.blockchain :=
      congrArg SynchronizationState.blockchain heq
    rw [hchain]

variable {interval blocks consumer}

/-- A turn without an error leaves the expected state and reports a change
exactly when there was one. -/
theorem updateConsumer_ok {changed : Bool} {state' : SynchronizationState}
    (hstart : interval.startHeight.toNat ≤ state.blockchain.length)
    (hlength : state.blockchain.length < 2 ^ 32)
    (hend : interval.startHeight.toNat + interval.blocks.length < 2 ^ 32)
    (h : updateConsumer interval blocks consumer state = .ok (changed, state')) :
    state' = state.expected interval ∧ (changed = true ↔ state.expected interval ≠ state) := by
  rw [expected_ne_iff]
  by_cases hpre : state.target interval <+: state.blockchain
  · rw [updateConsumer_of_isPrefix interval blocks consumer hstart hlength hend hpre,
      Except.ok.injEq, Prod.mk.injEq] at h
    obtain ⟨rfl, rfl⟩ := h
    simp [SynchronizationState.expected, hpre]
  · obtain ⟨_, _, _, _, _, hturn⟩ :=
      updateConsumer_of_not_isPrefix interval blocks consumer hstart hlength hend hpre
    rw [hturn] at h
    split at h
    · rw [Except.ok.injEq, Prod.mk.injEq] at h
      obtain ⟨rfl, rfl⟩ := h
      simp [SynchronizationState.expected, hpre]
    · cases h

/-- A turn with an error leaves the chain cut at the height the consumer
refused the blocks from. -/
theorem updateConsumer_error {cut : SynchronizationState}
    (hstart : interval.startHeight.toNat ≤ state.blockchain.length)
    (hlength : state.blockchain.length < 2 ^ 32)
    (hend : interval.startHeight.toNat + interval.blocks.length < 2 ^ 32)
    (h : updateConsumer interval blocks consumer state = .error cut) :
    ∃ height, cut.blockchain = state.blockchain.take height ∧
      RefusedAt interval blocks consumer state height := by
  by_cases hpre : state.target interval <+: state.blockchain
  · rw [updateConsumer_of_isPrefix interval blocks consumer hstart hlength hend hpre] at h
    cases h
  · obtain ⟨height, hh, _, hlt, htake, hturn⟩ :=
      updateConsumer_of_not_isPrefix interval blocks consumer hstart hlength hend hpre
    rw [hturn] at h
    split at h
    · cases h
    · rename_i hrefused
      cases h
      exact ⟨height, rfl, hpre, hh, hlt, htake, by simpa using hrefused⟩

end Consumer

/-! ## All consumers -/

section Consumers

variable {interval : BlockchainInterval} {blocks : List CompleteBlock}

/-- The bounds under which a consumer's turn is below the wrap of
{lit}`uint32_t`: the interval starts within its chain, and its chain has fewer
than {lit}`2 ^ 32` hashes. -/
def Fits (interval : BlockchainInterval) (state : SynchronizationState) : Prop :=
  interval.startHeight.toNat ≤ state.blockchain.length ∧ state.blockchain.length < 2 ^ 32

/-- The loop over the consumers, by induction on them with the flag carried
along. -/
theorem updateConsumersLoop_spec (hend : interval.startHeight.toNat + interval.blocks.length < 2 ^ 32) :
    ∀ (consumers : List (Consumer × SynchronizationState)) (smthChanged : Bool)
      {result : UpdateConsumersResult} {consumers' : List (Consumer × SynchronizationState)},
      (∀ p ∈ consumers, Fits interval p.2) →
      updateConsumersLoop interval blocks consumers smthChanged = (result, consumers') →
      (result ≠ .errorOccurred →
        consumers' = consumers.map (fun p => (p.1, p.2.expected interval)) ∧
        (result = .addedNewBlocks ↔
          smthChanged = true ∨ ∃ p ∈ consumers, p.2.expected interval ≠ p.2)) ∧
      (result = .errorOccurred →
        ∃ pre consumer state post height,
          consumers = pre ++ (consumer, state) :: post ∧
          consumers' = pre.map (fun p => (p.1, p.2.expected interval)) ++
            (consumer, ⟨state.blockchain.take height⟩) :: post ∧
          RefusedAt interval blocks consumer state height)
  | [], smthChanged, result, consumers', _, hrun => by
    simp only [updateConsumersLoop, Prod.mk.injEq] at hrun
    obtain ⟨rfl, rfl⟩ := hrun
    cases smthChanged <;> simp
  | (consumer, state) :: rest, smthChanged, result, consumers', hfits, hrun => by
    have ⟨hstart, hlength⟩ := hfits (consumer, state) List.mem_cons_self
    have hrest : ∀ p ∈ rest, Fits interval p.2 := fun p hp => hfits p (List.mem_cons_of_mem _ hp)
    rw [updateConsumersLoop] at hrun
    split at hrun
    · rename_i cut hturn
      simp only [Prod.mk.injEq] at hrun
      obtain ⟨rfl, rfl⟩ := hrun
      obtain ⟨height, hcut, hrefused⟩ := updateConsumer_error hstart hlength hend hturn
      refine ⟨fun hne => absurd rfl hne, fun _ => ⟨[], consumer, state, rest, height, rfl, ?_,
        hrefused⟩⟩
      rw [← hcut]
      rfl
    · rename_i changed state' hturn
      obtain ⟨hstate', hchanged⟩ := updateConsumer_ok hstart hlength hend hturn
      generalize hloop : updateConsumersLoop interval blocks rest (smthChanged || changed) = loop at hrun
      obtain ⟨result', rest'⟩ := loop
      simp only [Prod.mk.injEq] at hrun
      obtain ⟨rfl, rfl⟩ := hrun
      obtain ⟨hok, herror⟩ := updateConsumersLoop_spec hend rest (smthChanged || changed) hrest hloop
      refine ⟨fun hne => ?_, fun herr => ?_⟩
      · obtain ⟨hrest', hadded⟩ := hok hne
        refine ⟨by rw [hrest', hstate', List.map_cons], ?_⟩
        rw [hadded, Bool.or_eq_true, hchanged]
        simp only [List.mem_cons, exists_eq_or_imp, or_assoc]
      · obtain ⟨pre, c, st, post, height, hsplit, hrest', hrefused⟩ := herror herr
        refine ⟨(consumer, state) :: pre, c, st, post, height, by rw [hsplit, List.cons_append],
          ?_, hrefused⟩
        rw [hrest', hstate', List.map_cons, List.cons_append]

/-- Over all consumers: a round without an error brings every consumer to its
expected state and reports new blocks exactly when some consumer's chain
changed; a round with an error leaves the consumers before the failing one at
their expected states, the failing one cut at a height where it agrees with its
target, and the consumers after it as they were. -/
theorem updateConsumers_spec (consumers : List (Consumer × SynchronizationState))
    {result : UpdateConsumersResult} {consumers' : List (Consumer × SynchronizationState)}
    (hend : interval.startHeight.toNat + interval.blocks.length < 2 ^ 32)
    (hfits : ∀ p ∈ consumers, Fits interval p.2)
    (hrun : updateConsumers interval blocks consumers = (result, consumers')) :
    (result ≠ .errorOccurred →
      consumers' = consumers.map (fun p => (p.1, p.2.expected interval)) ∧
      (result = .addedNewBlocks ↔ ∃ p ∈ consumers, p.2.expected interval ≠ p.2)) ∧
    (result = .errorOccurred →
      ∃ pre consumer state post height,
        consumers = pre ++ (consumer, state) :: post ∧
        consumers' = pre.map (fun p => (p.1, p.2.expected interval)) ++
          (consumer, ⟨state.blockchain.take height⟩) :: post ∧
        RefusedAt interval blocks consumer state height) := by
  obtain ⟨hok, herror⟩ := updateConsumersLoop_spec hend consumers false hfits hrun
  refine ⟨fun hne => ?_, herror⟩
  obtain ⟨hmap, hadded⟩ := hok hne
  exact ⟨hmap, by simpa using hadded⟩

/-- A consumer that takes every block, synchronising from the start of the
chain. -/
def acceptingConsumer : Consumer :=
  { getSyncStart := { timestamp := 0, height := 0 }, onNewBlocks := fun _ _ _ => true }

/-- One accepting consumer, with no block yet, and an interval of one block. -/
theorem updateConsumers_spec_empty :
    (UpdateConsumersResult.addedNewBlocks ≠ .errorOccurred →
      [(acceptingConsumer, (⟨[nullHash]⟩ : SynchronizationState))] =
          [(acceptingConsumer, (⟨[]⟩ : SynchronizationState))].map
            (fun p => (p.1, p.2.expected ⟨0, [nullHash]⟩)) ∧
        (UpdateConsumersResult.addedNewBlocks = .addedNewBlocks ↔
          ∃ p ∈ [(acceptingConsumer, (⟨[]⟩ : SynchronizationState))],
            p.2.expected ⟨0, [nullHash]⟩ ≠ p.2)) ∧
    (UpdateConsumersResult.addedNewBlocks = .errorOccurred →
      ∃ pre consumer state post height,
        [(acceptingConsumer, (⟨[]⟩ : SynchronizationState))] = pre ++ (consumer, state) :: post ∧
        [(acceptingConsumer, (⟨[nullHash]⟩ : SynchronizationState))] =
          pre.map (fun p => (p.1, p.2.expected ⟨0, [nullHash]⟩)) ++
            (consumer, ⟨state.blockchain.take height⟩) :: post ∧
        RefusedAt ⟨0, [nullHash]⟩ [] consumer state height) :=
  updateConsumers_spec [(acceptingConsumer, ⟨[]⟩)] (by decide) (by simp [Fits]) rfl

/-- A round with a single consumer, in three outcomes: its chain already holds
the interval and nothing changes; it takes the new blocks and its chain becomes
the target; or it refuses them and keeps the target's first blocks, at least
up to the start height. -/
theorem updateConsumers_single (blocks : List CompleteBlock) (consumer : Consumer)
    {state : SynchronizationState}
    (hend : interval.startHeight.toNat + interval.blocks.length < 2 ^ 32)
    (hfits : Fits interval state) :
    ∃ result state', updateConsumers interval blocks [(consumer, state)] = (result, [(consumer, state')]) ∧
      ((result = .nothingChanged ∧ state' = state ∧ state.target interval <+: state.blockchain) ∨
       (result = .addedNewBlocks ∧ state' = ⟨state.target interval⟩ ∧
          ¬state.target interval <+: state.blockchain) ∨
       (result = .errorOccurred ∧ ∃ height,
          state'.blockchain = (state.target interval).take height ∧
          RefusedAt interval blocks consumer state height)) := by
  generalize hrun : updateConsumers interval blocks [(consumer, state)] = run
  obtain ⟨result, consumers'⟩ := run
  have hall : ∀ p ∈ [(consumer, state)], Fits interval p.2 := by simpa using hfits
  obtain ⟨hok, herror⟩ := updateConsumersLoop_spec hend [(consumer, state)] false hall hrun
  by_cases hres : result = .errorOccurred
  · obtain ⟨pre, c, st, post, height, hsplit, hafter, hrefused⟩ := herror hres
    have hpre : pre = [] := by
      have := congrArg List.length hsplit
      simp at this
      exact List.eq_nil_of_length_eq_zero (by omega)
    subst hpre
    simp only [List.nil_append, List.cons.injEq, Prod.mk.injEq] at hsplit
    obtain ⟨⟨rfl, rfl⟩, rfl⟩ := hsplit
    exact ⟨result, ⟨state.blockchain.take height⟩, by rw [hafter]; rfl,
      .inr (.inr ⟨hres, height, hrefused.take_eq, hrefused⟩)⟩
  · obtain ⟨hafter, hadded⟩ := hok hres
    simp only [List.map_cons, List.map_nil] at hafter
    subst hafter
    refine ⟨result, state.expected interval, rfl, ?_⟩
    simp only [List.mem_singleton, exists_eq_left, Bool.false_eq_true, false_or] at hadded
    by_cases hpre : state.target interval <+: state.blockchain
    · have hsame : state.expected interval = state := by simp [SynchronizationState.expected, hpre]
      rw [hsame] at hadded ⊢
      refine .inl ⟨?_, rfl, hpre⟩
      cases result <;> simp_all
    · have hnew : state.expected interval = ⟨state.target interval⟩ := by
        simp [SynchronizationState.expected, hpre]
      refine .inr (.inl ⟨hadded.mpr ((expected_ne_iff interval).mpr hpre), hnew, hpre⟩)

end Consumers

end Transfers
end CryptoNote

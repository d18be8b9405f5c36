import CryptoNote.Transfers.TransfersContainer
import CryptoNote.Core.Currency

/-!
# Deleting transactions, detaching blocks, and the balance

The rest of {lit}`transfers/TransfersContainer.cpp`: the operations that take
transfers out of the container and its queries.

{lit}`deleteTransactionTransfers` gives the transfers a transaction spent back to
the available ones, and drops the transfers it created, updating the visibility
of each key image it touches.  {lit}`deleteUnconfirmedTransaction` does that for
one unconfirmed transaction, and {lit}`detach` for every transaction of the
detached blocks and every unconfirmed one that spends a transfer of them,
walking the height index from its end.

Each loop of the source walks the range of one hashed index while erasing from
it; the model takes, round after round, the first entry of the transaction still
in the container, for as many rounds as there were entries.

The balance and {lit}`getOutputs` read the visible transfers that the flags
include; whether a transfer is unlocked depends on the currency, the spendable
age the container was built with and the clock, which the model takes as an
{lit}`InclusionContext`.

Main results:

- Definition {lit}`Operation.apply`: one call of the container's mutating API,
  the steps whose reachable states the visibility invariant is about.
- Theorem {lit}`detach_restores_double_spent_output`: a multisignature output
  that a detached transaction spent is given back as available, while an
  unconfirmed transaction that tried to spend it after the detached one and spent
  nothing stays: the container and its balance differ from those of never
  having added the detached block, where the unconfirmed transaction spends it.
-/

namespace CryptoNote
namespace Transfers

open StateExcept

/-! ## Deleting a transaction's transfers -/

/-- Change the containers at one transfer, then update the visibility of its
image if it is a key output: the body of every loop of
{lit}`deleteTransactionTransfers`. -/
def touchTransfer (transfer : TransactionOutputInformationEx)
    (change : TransfersContainer → TransfersContainer) (c : TransfersContainer) :
    TransfersContainer :=
  if transfer.type = .key then updateTransfersVisibility transfer.keyImage (change c) else change c

/-- A loop over the entries of one transaction in one container, each erased by
its pass: while there is one, the first is passed on; {lit}`fuel` is the number
there were when the loop started. -/
def eraseEach {α : Type} (entries : TransfersContainer → List α) (ofTransaction : α → Bool)
    (pass : α → TransfersContainer → TransfersContainer) :
    Nat → TransfersContainer → TransfersContainer
  | 0, c => c
  | fuel + 1, c =>
    match (entries c).find? ofTransaction with
    | none => c
    | some entry => eraseEach entries ofTransaction pass fuel (pass entry c)

/-- The loop keeps what every pass keeps when its entry is one of the
container's. -/
theorem eraseEach_invariant {α : Type} {entries : TransfersContainer → List α}
    {ofTransaction : α → Bool} {pass : α → TransfersContainer → TransfersContainer}
    (P : TransfersContainer → Prop) (hpass : ∀ e c, P c → e ∈ entries c → P (pass e c)) :
    ∀ fuel c, P c → P (eraseEach entries ofTransaction pass fuel c)
  | 0, _, hc => hc
  | fuel + 1, c, hc => by
    unfold eraseEach
    split
    · exact hc
    · rename_i entry hfind
      exact eraseEach_invariant P hpass fuel _ (hpass _ _ hc (List.mem_of_find?_eq_some hfind))

/-- {lit}`deleteTransactionTransfers`: the transfers the transaction spent go back
to the available ones, and its unconfirmed and available transfers are dropped. -/
def deleteTransactionTransfers (transactionHash : Hash) (c : TransfersContainer) :
    TransfersContainer :=
  let spending (s : SpentTransactionOutput) : Bool := s.spendingTransactionHash = transactionHash
  let containing (t : TransactionOutputInformationEx) : Bool := t.transactionHash = transactionHash
  let c := eraseEach (·.spentTransfers) spending
    (fun s => touchTransfer s.output fun c =>
      { c with
        availableTransfers := c.availableTransfers ++ [s.output]
        spentTransfers := c.spentTransfers.erase s })
    (c.spentTransfers.filter spending).length c
  let c := eraseEach (·.unconfirmedTransfers) containing
    (fun t => touchTransfer t fun c =>
      { c with unconfirmedTransfers := c.unconfirmedTransfers.erase t })
    (c.unconfirmedTransfers.filter containing).length c
  eraseEach (·.availableTransfers) containing
    (fun t => touchTransfer t fun c =>
      { c with availableTransfers := c.availableTransfers.erase t })
    (c.availableTransfers.filter containing).length c

/-- The two statements both deleting callers run on a found record: delete its
transfers, then the record. -/
def deleteTransaction (txInfo : TransactionInformation) (c : TransfersContainer) :
    TransfersContainer :=
  let c := deleteTransactionTransfers txInfo.transactionHash c
  { c with transactions := c.transactions.erase txInfo }

/-- {lit}`deleteUnconfirmedTransaction`: delete a known unconfirmed transaction;
whether there was one. -/
def deleteUnconfirmedTransaction (transactionHash : Hash) : ContainerM Bool := do
  let c ← get
  match c.transactions.find? (·.transactionHash = transactionHash) with
  | none => pure false
  | some txInfo =>
    if txInfo.blockHeight ≠ unconfirmedTransactionHeight then pure false
    else do
      set (deleteTransaction txInfo c)
      pure true

/-! ## Detaching blocks -/

/-- The records in the order of the height index: by height, and in insertion
order among equal heights. -/
def heightOrder (transactions : List TransactionInformation) : List TransactionInformation :=
  transactions.insertionSort fun a b => a.blockHeight ≤ b.blockHeight

/-- The loop of {lit}`detach` over the height index from its end: an unconfirmed
transaction is deleted when it spends a transfer of a detached block, a confirmed
one when its block is detached, and the walk stops at the first confirmed
transaction below the height.  The hashes deleted so far, and the container. -/
def detachLoop (height : UInt32) :
    List TransactionInformation → List Hash × TransfersContainer →
      List Hash × TransfersContainer
  | [], acc => acc
  | txInfo :: rest, (deleted, c) =>
    let delete :=
      detachLoop height rest (deleted ++ [txInfo.transactionHash], deleteTransaction txInfo c)
    if txInfo.blockHeight = unconfirmedTransactionHeight then
      if c.spentTransfers.any fun s =>
          s.spendingTransactionHash = txInfo.transactionHash && height ≤ s.output.blockHeight then
        delete
      else detachLoop height rest (deleted, c)
    else if height ≤ txInfo.blockHeight then delete
    else (deleted, c)

/-- {lit}`detach`: delete what the detached blocks brought, and move the current
height below them; the hashes of the deleted transactions. -/
def detach (height : UInt32) : ContainerM (List Hash) := do
  let c ← get
  let (deleted, c) := detachLoop height (heightOrder c.transactions).reverse ([], c)
  set { c with currentHeight := if height = 0 then 0 else height - 1 }
  pure deleted

/-- {lit}`advanceHeight`: move the current height up, never down. -/
def advanceHeight (height : UInt32) : ContainerM Bool := do
  let c ← get
  if c.currentHeight ≤ height then
    set { c with currentHeight := height }
    pure true
  else pure false

/-! ## Invariants of the deleting calls

An invariant that deleting a transaction and moving the current height keep is
kept by the three calls that take transactions out of the container. -/

section Rules

variable {P : TransfersContainer → Prop}

/-- The walk of {lit}`detach` deletes whole transactions only. -/
theorem detachLoop_invariant (hdelete : ∀ txInfo c, P c → P (deleteTransaction txInfo c))
    (height : UInt32) :
    ∀ (records : List TransactionInformation) (acc : List Hash × TransfersContainer),
      P acc.2 → P (detachLoop height records acc).2
  | [], _, hc => hc
  | txInfo :: rest, (deleted, c), hc => by
    have hrest := detachLoop_invariant hdelete height rest
      (deleted ++ [txInfo.transactionHash], deleteTransaction txInfo c) (hdelete txInfo c hc)
    unfold detachLoop
    dsimp only
    split_ifs
    · exact hrest
    · exact detachLoop_invariant hdelete height rest (deleted, c) hc
    · exact hrest
    · exact hc

/-- A property that deleting a transaction keeps is kept by the deletion of an
unconfirmed one. -/
theorem deleteUnconfirmedTransaction_preserves
    (hdelete : ∀ txInfo c, P c → P (deleteTransaction txInfo c)) (transactionHash : Hash) :
    Preserves P (deleteUnconfirmedTransaction transactionHash) := by
  unfold deleteUnconfirmedTransaction
  refine Preserves.get_bind_preserves fun c hc => ?_
  split
  · exact Preserves.pure _
  · split
    · exact Preserves.pure _
    · exact Preserves.bind (Preserves.set (hdelete _ c hc)) fun _ => Preserves.pure _

/-- A property that deleting a transaction and moving the height keep is kept by
{lit}`detach`. -/
theorem detach_preserves (hdelete : ∀ txInfo c, P c → P (deleteTransaction txInfo c))
    (hheight : ∀ c currentHeight, P c → P { c with currentHeight }) (height : UInt32) :
    Preserves P (detach height) := by
  unfold detach
  refine Preserves.get_bind_preserves fun c hc => ?_
  split
  · rename_i deleted c' hloop
    have hc' : P c' := by
      have := detachLoop_invariant hdelete height (heightOrder c.transactions).reverse ([], c) hc
      rwa [hloop] at this
    exact Preserves.bind (Preserves.set (hheight c' _ hc')) fun _ => Preserves.pure _

/-- A property that moving the height keeps is kept by {lit}`advanceHeight`. -/
theorem advanceHeight_preserves (hheight : ∀ c currentHeight, P c → P { c with currentHeight })
    (height : UInt32) : Preserves P (advanceHeight height) := by
  unfold advanceHeight
  refine Preserves.get_bind_preserves fun c hc => ?_
  split
  · exact Preserves.bind (Preserves.set (hheight c height hc)) fun _ => Preserves.pure _
  · exact Preserves.pure _

end Rules

/-! ## The container's API -/

/-- A call of the container's mutating API. -/
inductive Operation where
  | addTransaction (block : TransactionBlockInfo) (tx : TransactionReader)
      (transfers : List TransactionOutputInformationIn)
  | markTransactionConfirmed (block : TransactionBlockInfo) (transactionHash : Hash)
      (globalIndices : List UInt32)
  | deleteUnconfirmedTransaction (transactionHash : Hash)
  | detach (height : UInt32)
  | advanceHeight (height : UInt32)

/-- The container a call leaves, whether it returned or threw. -/
def Operation.apply (c : TransfersContainer) : Operation → TransfersContainer
  | .addTransaction block tx transfers => (run (Transfers.addTransaction block tx transfers) c).2
  | .markTransactionConfirmed block transactionHash globalIndices =>
    (run (Transfers.markTransactionConfirmed block transactionHash globalIndices) c).2
  | .deleteUnconfirmedTransaction transactionHash =>
    (run (Transfers.deleteUnconfirmedTransaction transactionHash) c).2
  | .detach height => (run (Transfers.detach height) c).2
  | .advanceHeight height => (run (Transfers.advanceHeight height) c).2

/-! ## The balance -/

/-- {lit}`IncludeStateUnlocked`. -/
def includeStateUnlocked : UInt32 := 0x01
/-- {lit}`IncludeStateLocked`. -/
def includeStateLocked : UInt32 := 0x02
/-- {lit}`IncludeStateSoftLocked`. -/
def includeStateSoftLocked : UInt32 := 0x04
/-- {lit}`IncludeTypeKey`. -/
def includeTypeKey : UInt32 := 0x100
/-- {lit}`IncludeTypeMultisignature`. -/
def includeTypeMultisignature : UInt32 := 0x200
/-- {lit}`IncludeAll`: every type, every state. -/
def includeAll : UInt32 := 0xffff

/-- What the inclusion test reads besides the transfer and the current height:
the currency and the spendable age the container was built with, and the clock
that {lit}`time(NULL)` reads. -/
structure InclusionContext where
  currency : Currency
  transactionSpendableAge : UInt64
  currentTime : UInt64

/-- {lit}`isSpendTimeUnlocked`: an unlock time below the largest block height is
a height, else a time. -/
def isSpendTimeUnlocked (ctx : InclusionContext) (currentHeight : UInt32) (unlockTime : UInt64) :
    Bool :=
  if unlockTime < ctx.currency.maxBlockHeight then
    unlockTime ≤ currentHeight.toUInt64 + ctx.currency.lockedTxAllowedDeltaBlocks
  else
    unlockTime ≤ ctx.currentTime + ctx.currency.lockedTxAllowedDeltaSeconds

/-- The static {lit}`isIncluded`: the flags take the output's type and the state. -/
def isIncludedIn (type : OutputType) (state flags : UInt32) : Bool :=
  ((flags &&& includeTypeKey != 0 && type = .key) ||
      (flags &&& includeTypeMultisignature != 0 && type = .multisignature)) &&
    flags &&& state != 0

/-- The member {lit}`isIncluded`: the state of a transfer is locked, soft-locked
below the spendable age, or unlocked. -/
def isIncluded (ctx : InclusionContext) (currentHeight : UInt32)
    (info : TransactionOutputInformationEx) (flags : UInt32) : Bool :=
  let state :=
    if info.blockHeight = unconfirmedTransactionHeight ||
        !isSpendTimeUnlocked ctx currentHeight info.unlockTime then includeStateLocked
    else if currentHeight.toUInt64 < info.blockHeight.toUInt64 + ctx.transactionSpendableAge then
      includeStateSoftLocked
    else includeStateUnlocked
  isIncludedIn info.type state flags

/-- {lit}`getOutputs`: the visible available transfers the flags include, then,
with the locked state, the visible unconfirmed ones of an included type. -/
def getOutputs (ctx : InclusionContext) (flags : UInt32) (c : TransfersContainer) :
    List TransactionOutputInformationEx :=
  c.availableTransfers.filter (fun t => t.visible && isIncluded ctx c.currentHeight t flags) ++
    if flags &&& includeStateLocked != 0 then
      c.unconfirmedTransfers.filter fun t =>
        t.visible && isIncludedIn t.type includeStateLocked flags
    else []

/-- {lit}`balance`: the amounts of the transfers {lit}`getOutputs` selects, added
in {lit}`uint64_t`. -/
def balance (ctx : InclusionContext) (flags : UInt32) (c : TransfersContainer) : UInt64 :=
  (getOutputs ctx flags c).foldl (fun amount t => amount + t.amount) 0

/-- With every flag set, the inclusion test passes every key or multisignature
output, whatever its state. -/
theorem isIncluded_includeAll (ctx : InclusionContext) (currentHeight : UInt32)
    (info : TransactionOutputInformationEx) (hvalid : info.type ≠ .invalid) :
    isIncluded ctx currentHeight info includeAll = true := by
  unfold isIncluded isIncludedIn
  cases htype : info.type
  · exact absurd htype hvalid
  all_goals split_ifs <;> decide

/-- With every flag set, the balance of a container of key and multisignature
outputs adds the amounts of all its visible available and unconfirmed transfers,
whatever the clock and the currency. -/
theorem balance_includeAll (ctx : InclusionContext) {c : TransfersContainer}
    (hvalid : ∀ t ∈ c.availableTransfers ++ c.unconfirmedTransfers, t.type ≠ .invalid) :
    balance ctx includeAll c =
      ((c.availableTransfers ++ c.unconfirmedTransfers).filter (·.visible)).foldl
        (fun amount t => amount + t.amount) 0 := by
  have havailable : c.availableTransfers.filter
      (fun t => t.visible && isIncluded ctx c.currentHeight t includeAll) =
        c.availableTransfers.filter (·.visible) :=
    List.filter_congr fun t ht => by
      rw [isIncluded_includeAll ctx _ t (hvalid t (List.mem_append_left _ ht)), Bool.and_true]
  have hunconfirmed : c.unconfirmedTransfers.filter
      (fun t => t.visible && isIncludedIn t.type includeStateLocked includeAll) =
        c.unconfirmedTransfers.filter (·.visible) :=
    List.filter_congr fun t ht => by
      have htype := hvalid t (List.mem_append_right _ ht)
      simp only [Bool.and_eq_left_iff_imp]
      intro _
      cases h : t.type
      · exact absurd h htype
      all_goals decide
  have hlocked : (includeAll &&& includeStateLocked != 0) = true := by decide
  rw [balance, getOutputs, havailable, if_pos hlocked, hunconfirmed, List.filter_append]

/-! ## What detach gives back -/

/-- Detaching a block is not undoing it.  Transaction A of block 1 brings a
multisignature output of amount 1 and global index 0.  Transaction D of block 2
spends it.  The unconfirmed transaction U, which brings a key output of amount 5,
spends the same output; it finds it spent and spends nothing, which a
multisignature input, unlike a key input, does without throwing.  {lit}`detach 2`
deletes D and gives the output back, and U stays as it is.  Adding A and U alone,
U spends the output: the available and spent transfers differ, and so does the
balance. -/
theorem detach_restores_double_spent_output (ctx : InclusionContext) :
    let txA : TransactionReader := ⟨nullHash, 0, default, 0, 1, [], none, []⟩
    let txD : TransactionReader :=
      ⟨⟨List.replicate 32 1, List.length_replicate⟩, 0, default, 1, 0, [], none,
        [.multisignature ⟨1, 1, 0⟩]⟩
    let txU : TransactionReader :=
      ⟨⟨List.replicate 32 2, List.length_replicate⟩, 0, default, 1, 5, [], none,
        [.multisignature ⟨1, 1, 0⟩]⟩
    let addA := addTransaction ⟨1, 0, 0⟩ txA [⟨.multisignature, 1, 0, 0, default⟩]
    let addD := addTransaction ⟨2, 0, 0⟩ txD []
    let addU := addTransaction ⟨unconfirmedTransactionHeight, 0, 0⟩ txU
      [⟨.key, 5, unconfirmedTransactionGlobalOutputIndex, 0, default⟩]
    let afterA := run addA TransfersContainer.empty
    let afterD := run addD afterA.2
    let afterU := run addU afterD.2
    let reference := run addU afterA.2
    let detached := run (detach 2) afterU.2
    afterA.1 = .ok true ∧ afterD.1 = .ok true ∧ afterU.1 = .ok true ∧ reference.1 = .ok true ∧
      detached.1 = .ok [txD.transactionHash] ∧
      detached.2.transactions = reference.2.transactions ∧
      detached.2.currentHeight = reference.2.currentHeight ∧
      detached.2.spentTransfers = [] ∧ reference.2.spentTransfers.length = 1 ∧
      (∃ t ∈ detached.2.availableTransfers, t ∉ reference.2.availableTransfers) ∧
      balance ctx includeAll detached.2 = 6 ∧ balance ctx includeAll reference.2 = 5 := by
  intro txA txD txU addA addD addU afterA afterD afterU reference detached
  refine ⟨by decide, by decide, by decide, by decide, by decide, by decide, by decide, by decide,
    by decide, by decide, ?_, ?_⟩
  · rw [balance_includeAll ctx (by decide)]
    decide
  · rw [balance_includeAll ctx (by decide)]
    decide

end Transfers
end CryptoNote

import Mathlib.Data.List.Sort
import CryptoNote.Lib.StateExcept
import CryptoNote.Types

/-!
# The wallet's transfers container

{lit}`TransfersContainer` in {lit}`transfers/TransfersContainer.cpp`: the
transactions a wallet knows, and its outputs in three containers, the
unconfirmed ones, the available ones and the spent ones.  A transaction comes in
with {lit}`addTransaction`, which files its outputs and then moves the outputs
its inputs spend to the spent container; an unconfirmed one is confirmed later
by {lit}`markTransactionConfirmed`.  Among the key outputs with one key image
one at most is visible, which {lit}`updateTransfersVisibility` recomputes after
every change.

Both operations throw on bad input, and they throw in the middle of their work:
what was filed before the throw stays filed.  The model runs them in
{lit}`ExceptT String (StateM TransfersContainer)`, whose exceptions keep the
state, as a C++ exception keeps the object's.

The hashed indices of the source are lists in insertion order; a lookup takes
the first match, and {lit}`std::sort` of the candidates is a stable sort.

Main results:

- Theorem {lit}`updateTransfersVisibility_lengths`: the visibility update
  changes no container's size.
- Theorem {lit}`addTransaction_throws_after_filing`: a confirmed transaction
  whose second transfer has the unconfirmed global index throws after its first
  transfer was filed as available.
- Theorem {lit}`markTransactionConfirmed_throws_after_marking`: a confirmation
  with too few global indices throws after the transaction was marked confirmed.
-/

namespace CryptoNote
namespace Transfers

open StateExcept

/-! ## Records -/

/-- {lit}`output_type_t`. -/
inductive OutputType where
  | invalid
  | key
  | multisignature
deriving DecidableEq, Repr, Inhabited

/-- {lit}`WALLET_LEGACY_UNCONFIRMED_TRANSACTION_HEIGHT`. -/
def unconfirmedTransactionHeight : UInt32 := 0xFFFFFFFF

/-- {lit}`UNCONFIRMED_TRANSACTION_GLOBAL_OUTPUT_INDEX`. -/
def unconfirmedTransactionGlobalOutputIndex : UInt32 := 0xFFFFFFFF

/-- {lit}`TransactionBlockInfo`. -/
structure TransactionBlockInfo where
  height : UInt32
  timestamp : UInt64
  transactionIndex : UInt32
deriving DecidableEq, Repr, Inhabited

/-- {lit}`TransactionOutputInformationIn`: what the caller says of one of the
transaction's outputs. -/
structure TransactionOutputInformationIn where
  type : OutputType
  amount : UInt64
  globalOutputIndex : UInt32
  outputInTransaction : UInt32
  keyImage : KeyImage
deriving DecidableEq, Repr, Inhabited

/-- {lit}`TransactionOutputInformationEx`: an output as the container files it.
The last three fields come with the caller's transfer and are only copied and
stored; the model's {lit}`TransactionOutputInformationIn` does not carry them, so
a transfer is filed with their defaults. -/
structure TransactionOutputInformationEx where
  type : OutputType
  amount : UInt64
  globalOutputIndex : UInt32
  outputInTransaction : UInt32
  transactionHash : Hash
  keyImage : KeyImage
  unlockTime : UInt64
  blockHeight : UInt32
  transactionIndex : UInt32
  visible : Bool
  transactionPublicKey : PublicKey := default
  /-- The member of the source's union that a key output uses. -/
  outputKey : PublicKey := default
  /-- The member of the union that a multisignature output uses. -/
  requiredSignatures : UInt32 := 0
deriving DecidableEq, Repr, Inhabited

/-- {lit}`SpentTransactionOutput`: a spent output and what spent it. -/
structure SpentTransactionOutput where
  output : TransactionOutputInformationEx
  spendingBlock : TransactionBlockInfo
  spendingTransactionHash : Hash
  inputInTransaction : UInt32
deriving DecidableEq, Repr, Inhabited

/-- {lit}`transaction_infomation_t`. -/
structure TransactionInformation where
  transactionHash : Hash
  publicKey : PublicKey
  blockHeight : UInt32
  timestamp : UInt64
  unlockTime : UInt64
  totalAmountIn : UInt64
  totalAmountOut : UInt64
  extra : List UInt8
  paymentId : Hash
deriving DecidableEq, Repr, Inhabited

/-- {lit}`ITransactionReader` as the container reads it. -/
structure TransactionReader where
  transactionHash : Hash
  unlockTime : UInt64
  transactionPublicKey : PublicKey
  inputTotalAmount : UInt64
  outputTotalAmount : UInt64
  extra : List UInt8
  paymentId : Option Hash
  inputs : List TransactionInput

/-- {lit}`SpentOutputDescriptor`: a key image for a key output, the amount and
the global index for a multisignature one. -/
inductive SpentOutputDescriptor where
  | invalid
  | key (keyImage : KeyImage)
  | multisignature (amount : UInt64) (globalOutputIndex : UInt32)
deriving DecidableEq, Repr

/-- {lit}`getSpentOutputDescriptor`. -/
def TransactionOutputInformationEx.descriptor (info : TransactionOutputInformationEx) :
    SpentOutputDescriptor :=
  match info.type with
  | .key => .key info.keyImage
  | .multisignature => .multisignature info.amount info.globalOutputIndex
  | .invalid => .invalid

/-- The container.  The currency and the spendable age only serve the balance,
which is not modelled. -/
structure TransfersContainer where
  transactions : List TransactionInformation
  unconfirmedTransfers : List TransactionOutputInformationEx
  availableTransfers : List TransactionOutputInformationEx
  spentTransfers : List SpentTransactionOutput
  currentHeight : UInt32
deriving DecidableEq, Repr

/-- A new container. -/
def TransfersContainer.empty : TransfersContainer := ⟨[], [], [], [], 0⟩

/-- The container's operations: they can throw, and a throw keeps the state. -/
abbrev ContainerM := ExceptT String (StateM TransfersContainer)

/-! ## Visibility -/

/-- {lit}`lessTIterator`: the earlier block, then the earlier transaction. -/
def earlier (a b : TransactionOutputInformationEx) : Bool :=
  a.blockHeight < b.blockHeight ||
    (a.blockHeight == b.blockHeight && a.transactionIndex < b.transactionIndex)

/-- {lit}`minElement`: the first transfer that no later one is earlier than. -/
def earliest : List TransactionOutputInformationEx → Option TransactionOutputInformationEx
  | [] => none
  | a :: rest =>
    match earliest rest with
    | none => some a
    | some b => if earlier b a then some b else some a

/-- {lit}`updateVisibility` over the transfers a predicate selects. -/
def setVisible (selected : TransactionOutputInformationEx → Bool) (visible : Bool) :
    List TransactionOutputInformationEx → List TransactionOutputInformationEx :=
  List.map fun t => if selected t then { t with visible } else t

/-- The first occurrence of a transfer made visible. -/
def showFirst (target : TransactionOutputInformationEx) :
    List TransactionOutputInformationEx → List TransactionOutputInformationEx
  | [] => []
  | t :: rest =>
    if t = target then { t with visible := true } :: rest else t :: showFirst target rest

/-- {lit}`updateTransfersVisibility`: with a spent transfer of the image, only
it is visible; else with available ones, only the earliest of them; else the
unconfirmed ones are visible when there is exactly one. -/
def updateTransfersVisibility (keyImage : KeyImage) (c : TransfersContainer) :
    TransfersContainer :=
  let selected (t : TransactionOutputInformationEx) : Bool := t.descriptor = .key keyImage
  let unconfirmedCount := (c.unconfirmedTransfers.filter selected).length
  let availableCount := (c.availableTransfers.filter selected).length
  let spentCount := (c.spentTransfers.filter fun s => selected s.output).length
  if 0 < spentCount then
    { c with
      unconfirmedTransfers := setVisible selected false c.unconfirmedTransfers
      availableTransfers := setVisible selected false c.availableTransfers
      spentTransfers := c.spentTransfers.map fun s =>
        if selected s.output then { s with output.visible := true } else s }
  else if 0 < availableCount then
    let hidden := setVisible selected false c.availableTransfers
    { c with
      unconfirmedTransfers := setVisible selected false c.unconfirmedTransfers
      availableTransfers :=
        match earliest (hidden.filter selected) with
        | some first => showFirst first hidden
        | none => hidden }
  else
    { c with
      unconfirmedTransfers := setVisible selected (unconfirmedCount == 1) c.unconfirmedTransfers }

@[simp] theorem length_setVisible (selected : TransactionOutputInformationEx → Bool)
    (visible : Bool) (l : List TransactionOutputInformationEx) :
    (setVisible selected visible l).length = l.length :=
  List.length_map _

@[simp] theorem length_showFirst (target : TransactionOutputInformationEx) :
    ∀ l : List TransactionOutputInformationEx, (showFirst target l).length = l.length
  | [] => rfl
  | t :: rest => by
    unfold showFirst
    split <;> simp [length_showFirst target rest]

/-- The visibility update rewrites flags only: it changes no container's size,
no transaction and not the height. -/
theorem updateTransfersVisibility_lengths (keyImage : KeyImage) (c : TransfersContainer) :
    (updateTransfersVisibility keyImage c).transactions = c.transactions ∧
      (updateTransfersVisibility keyImage c).unconfirmedTransfers.length =
        c.unconfirmedTransfers.length ∧
      (updateTransfersVisibility keyImage c).availableTransfers.length =
        c.availableTransfers.length ∧
      (updateTransfersVisibility keyImage c).spentTransfers.length = c.spentTransfers.length ∧
      (updateTransfersVisibility keyImage c).currentHeight = c.currentHeight := by
  unfold updateTransfersVisibility
  dsimp only
  -- the three branches of the source: a spent transfer, available ones, neither
  split
  · simp
  · split
    · split <;> simp
    · simp

/-! ## Adding a transaction -/

/-- The record {lit}`addTransactionOutputs` files for a transfer. -/
def transferInformation (block : TransactionBlockInfo) (tx : TransactionReader)
    (transfer : TransactionOutputInformationIn) : TransactionOutputInformationEx :=
  { type := transfer.type, amount := transfer.amount,
    globalOutputIndex := transfer.globalOutputIndex,
    outputInTransaction := transfer.outputInTransaction, transactionHash := tx.transactionHash,
    keyImage := transfer.keyImage, unlockTime := tx.unlockTime, blockHeight := block.height,
    transactionIndex := block.transactionIndex, visible := true }

/-- One pass of the loop of {lit}`addTransactionOutputs`: check the transfer's
global index against the block, file it as unconfirmed or available, refuse a
multisignature output filed before, and update the visibility of its image. -/
def addTransactionOutput (block : TransactionBlockInfo) (tx : TransactionReader)
    (transfer : TransactionOutputInformationIn) : ContainerM Unit := do
  let transactionIsUnconfimed := block.height == unconfirmedTransactionHeight
  let transferIsUnconfirmed := transfer.globalOutputIndex == unconfirmedTransactionGlobalOutputIndex
  if transactionIsUnconfimed != transferIsUnconfirmed then
    throw "Bad transfer's globalOutputIndex"
  let info := transferInformation block tx transfer
  if transferIsUnconfirmed then
    modify fun c => { c with unconfirmedTransfers := c.unconfirmedTransfers ++ [info] }
  else
    let c ← get
    if info.type = .multisignature &&
        (c.availableTransfers.any (·.descriptor = info.descriptor) ||
          c.spentTransfers.any (·.output.descriptor = info.descriptor)) then
      throw "Transfer already exists"
    set { c with availableTransfers := c.availableTransfers ++ [info] }
  if info.type = .key then
    modify (updateTransfersVisibility info.keyImage)

/-- {lit}`addTransactionOutputs`: file every transfer; whether there was one. -/
def addTransactionOutputs (block : TransactionBlockInfo) (tx : TransactionReader) :
    List TransactionOutputInformationIn → ContainerM Bool
  | [] => pure false
  | transfer :: rest => do
    addTransactionOutput block tx transfer
    let _ ← addTransactionOutputs block tx rest
    pure true

/-- {lit}`copyToSpent`. -/
def copyToSpent (block : TransactionBlockInfo) (tx : TransactionReader) (inputIndex : Nat)
    (output : TransactionOutputInformationEx) (c : TransfersContainer) : TransfersContainer :=
  { c with
    spentTransfers := c.spentTransfers ++
      [{ output, spendingBlock := block, spendingTransactionHash := tx.transactionHash,
         inputInTransaction := inputIndex.toUInt32 }] }

/-- One pass of the loop of {lit}`addTransactionInputs`: a key input spends the
earliest available transfer of its image and amount, and throws when the image
is spent already, when only unconfirmed transfers have it, or when none has its
amount; a multisignature input spends the available transfer of its amount and
index, if any.  Whether it spent one. -/
def addTransactionInput (block : TransactionBlockInfo) (tx : TransactionReader) (i : Nat) :
    TransactionInput → ContainerM Bool
  | .key input => do
    let c ← get
    let descriptor := SpentOutputDescriptor.key input.keyImage
    if c.spentTransfers.any (·.output.descriptor = descriptor) then
      throw "Spending already spent transfer"
    let available := c.availableTransfers.filter (·.descriptor = descriptor)
    let unconfirmedCount := (c.unconfirmedTransfers.filter (·.descriptor = descriptor)).length
    if available.length = 0 then
      if 0 < unconfirmedCount then throw "Spending unconfirmed transfer"
      else pure false
    else
      let sorted := available.insertionSort fun a b => earlier b a = false
      match sorted.find? (·.amount = input.amount) with
      | none => throw "Input has invalid amount, corresponding output isn't found"
      | some spending => do
        modify (copyToSpent block tx i spending)
        modify fun c => { c with availableTransfers := c.availableTransfers.erase spending }
        modify (updateTransfersVisibility input.keyImage)
        pure true
  | .multisignature input => do
    let c ← get
    let descriptor := SpentOutputDescriptor.multisignature input.amount input.outputIndex
    match c.availableTransfers.find? (·.descriptor = descriptor) with
    | some available => do
      modify (copyToSpent block tx i available)
      modify fun c => { c with availableTransfers := c.availableTransfers.erase available }
      pure true
    | none => pure false
  | .base _ => pure false

/-- {lit}`addTransactionInputs`: the loop over the inputs with their indices;
whether one spent a transfer. -/
def addTransactionInputs (block : TransactionBlockInfo) (tx : TransactionReader) :
    Nat → List TransactionInput → ContainerM Bool
  | _, [] => pure false
  | i, input :: rest => do
    let spent ← addTransactionInput block tx i input
    let spentRest ← addTransactionInputs block tx (i + 1) rest
    pure (spent || spentRest)

/-- The record {lit}`addTransaction` files for a transaction. -/
def transactionInformation (block : TransactionBlockInfo) (tx : TransactionReader) :
    TransactionInformation :=
  { transactionHash := tx.transactionHash, publicKey := tx.transactionPublicKey,
    blockHeight := block.height, timestamp := block.timestamp, unlockTime := tx.unlockTime,
    totalAmountIn := tx.inputTotalAmount, totalAmountOut := tx.outputTotalAmount,
    extra := tx.extra, paymentId := tx.paymentId.getD nullHash }

/-- {lit}`addTransaction`: refuse a block below the current height and a known
transaction, file the outputs, spend what the inputs spend, and record the
transaction if either did anything; a confirmed block moves the current height. -/
def addTransaction (block : TransactionBlockInfo) (tx : TransactionReader)
    (transfers : List TransactionOutputInformationIn) : ContainerM Bool := do
  let c ← get
  if block.height < c.currentHeight then
    throw "Cannot add transaction from block < m_currentHeight"
  if c.transactions.any (·.transactionHash = tx.transactionHash) then
    throw "transaction_t is already added"
  let outputsAdded ← addTransactionOutputs block tx transfers
  let inputsAdded ← addTransactionInputs block tx 0 tx.inputs
  let added := outputsAdded || inputsAdded
  if added then
    modify fun c => { c with transactions := c.transactions ++ [transactionInformation block tx] }
  if block.height ≠ unconfirmedTransactionHeight then
    modify fun c => { c with currentHeight := block.height }
  pure added

/-! ## What a throw leaves behind -/

section Outputs

variable {block : TransactionBlockInfo} {tx : TransactionReader}
  {transfer : TransactionOutputInformationIn}

/-- A confirmed key transfer of a confirmed block is filed as available, and
its image's visibility updated. -/
theorem run_addTransactionOutput_key (hblock : block.height ≠ unconfirmedTransactionHeight)
    (hindex : transfer.globalOutputIndex ≠ unconfirmedTransactionGlobalOutputIndex)
    (hkey : transfer.type = .key) (c : TransfersContainer) :
    run (addTransactionOutput block tx transfer) c =
      (.ok (), updateTransfersVisibility transfer.keyImage
        { c with availableTransfers :=
            c.availableTransfers ++ [transferInformation block tx transfer] }) := by
  simp [addTransactionOutput, hblock, hindex, hkey, transferInformation, run_bind]

/-- A transfer whose global index disagrees with its block throws before it
changes anything. -/
theorem run_addTransactionOutput_bad_index
    (hbad : (block.height == unconfirmedTransactionHeight) !=
      (transfer.globalOutputIndex == unconfirmedTransactionGlobalOutputIndex))
    (c : TransfersContainer) :
    run (addTransactionOutput block tx transfer) c =
      (.error "Bad transfer's globalOutputIndex", c) := by
  simp [addTransactionOutput, hbad]

end Outputs

/-- {lit}`addTransaction` of a new transaction of a confirmed block, whose first
transfer is a confirmed key output and whose second has the unconfirmed global
index: the second throws, after the first was filed as available, and the
transaction is not recorded. -/
theorem addTransaction_throws_after_filing (c : TransfersContainer)
    (block : TransactionBlockInfo) (tx : TransactionReader)
    (first second : TransactionOutputInformationIn) (rest : List TransactionOutputInformationIn)
    (hheight : c.currentHeight ≤ block.height)
    (hblock : block.height ≠ unconfirmedTransactionHeight)
    (hnew : ∀ t ∈ c.transactions, t.transactionHash ≠ tx.transactionHash)
    (hfirst : first.globalOutputIndex ≠ unconfirmedTransactionGlobalOutputIndex)
    (hkey : first.type = .key)
    (hsecond : second.globalOutputIndex = unconfirmedTransactionGlobalOutputIndex) :
    (run (addTransaction block tx (first :: second :: rest)) c).1 =
        .error "Bad transfer's globalOutputIndex" ∧
      (run (addTransaction block tx (first :: second :: rest)) c).2.availableTransfers.length =
        c.availableTransfers.length + 1 ∧
      (run (addTransaction block tx (first :: second :: rest)) c).2.transactions =
        c.transactions := by
  let filed := updateTransfersVisibility first.keyImage
    { c with availableTransfers := c.availableTransfers ++ [transferInformation block tx first] }
  have hbad : (block.height == unconfirmedTransactionHeight) !=
      (second.globalOutputIndex == unconfirmedTransactionGlobalOutputIndex) := by
    simp [hblock, hsecond]
  -- the loop files the first transfer and throws at the second
  have houtputs : run (addTransactionOutputs block tx (first :: second :: rest)) c =
      (.error "Bad transfer's globalOutputIndex", filed) := by
    simp only [addTransactionOutputs, run_bind, run_addTransactionOutput_key hblock hfirst hkey,
      run_addTransactionOutput_bad_index hbad]
    rfl
  have hknown : c.transactions.any (·.transactionHash = tx.transactionHash) = false := by
    simpa using hnew
  have hrun : run (addTransaction block tx (first :: second :: rest)) c =
      (.error "Bad transfer's globalOutputIndex", filed) := by
    simp only [addTransaction, run_bind, run_get, hknown, Bool.false_eq_true, if_false,
      UInt32.not_lt.mpr hheight, houtputs]
  obtain ⟨htransactions, -, havailable, -, -⟩ :=
    updateTransfersVisibility_lengths first.keyImage
    { c with availableTransfers := c.availableTransfers ++ [transferInformation block tx first] }
  rw [hrun]
  exact ⟨rfl, by rw [havailable, List.length_append, List.length_singleton], htransactions⟩

/-- The failing input: a new container and a transaction of block 1 whose first
output is a confirmed key output and whose second claims the unconfirmed global
index. -/
theorem addTransaction_throws_after_filing_sample :
    let tx : TransactionReader := ⟨nullHash, 0, default, 0, 0, [], none, []⟩
    let first : TransactionOutputInformationIn := ⟨.key, 1, 0, 0, default⟩
    let second : TransactionOutputInformationIn :=
      ⟨.key, 1, unconfirmedTransactionGlobalOutputIndex, 1, default⟩
    (run (addTransaction ⟨1, 0, 0⟩ tx [first, second]) TransfersContainer.empty).1 =
        .error "Bad transfer's globalOutputIndex" ∧
      (run (addTransaction ⟨1, 0, 0⟩ tx [first, second])
        TransfersContainer.empty).2.availableTransfers.length = 0 + 1 ∧
      (run (addTransaction ⟨1, 0, 0⟩ tx [first, second])
        TransfersContainer.empty).2.transactions = [] := by
  intro tx first second
  exact addTransaction_throws_after_filing TransfersContainer.empty ⟨1, 0, 0⟩ tx first second []
    (by decide) (by decide) (by simp [TransfersContainer.empty]) (by decide) rfl rfl

/-! ## Confirming a transaction -/

/-- The loop of {lit}`markTransactionConfirmed` over the transaction's
unconfirmed transfers: give the next one its block and global index, refuse a
multisignature output filed before, move it to the available transfers and
update the visibility of its image.  The loop reads the container afresh each
round, since the visibility update rewrites the transfers it has yet to move;
each round moves one, and the fuel is their number. -/
def confirmTransfers (block : TransactionBlockInfo) (transactionHash : Hash)
    (globalIndices : List UInt32) : Nat → ContainerM Unit
  | 0 => pure ()
  | fuel + 1 => do
    let c ← get
    match c.unconfirmedTransfers.find? (·.transactionHash = transactionHash) with
    | none => pure ()
    | some transfer => do
      if globalIndices.length ≤ transfer.outputInTransaction.toNat then
        throw "Not enough elements in globalIndices"
      let confirmed := { transfer with
        blockHeight := block.height, transactionIndex := block.transactionIndex,
        globalOutputIndex := globalIndices.getD transfer.outputInTransaction.toNat 0 }
      if confirmed.type = .multisignature &&
          (c.availableTransfers.any (·.descriptor = confirmed.descriptor) ||
            c.spentTransfers.any (·.output.descriptor = confirmed.descriptor)) then
        throw "Transfer already exists"
      set { c with
        availableTransfers := c.availableTransfers ++ [confirmed]
        unconfirmedTransfers := c.unconfirmedTransfers.erase transfer }
      if confirmed.type = .key then
        modify (updateTransfersVisibility confirmed.keyImage)
      confirmTransfers block transactionHash globalIndices fuel

/-- {lit}`markTransactionConfirmed`: refuse the unconfirmed height; for a known
unconfirmed transaction record its block, confirm its transfers, and give the
transfers it spends their spending block. -/
def markTransactionConfirmed (block : TransactionBlockInfo) (transactionHash : Hash)
    (globalIndices : List UInt32) : ContainerM Bool := do
  if block.height = unconfirmedTransactionHeight then
    throw "Block height equals WALLET_LEGACY_UNCONFIRMED_TRANSACTION_HEIGHT"
  let c ← get
  match c.transactions.find? (·.transactionHash = transactionHash) with
  | none => pure false
  | some txInfo =>
    if txInfo.blockHeight ≠ unconfirmedTransactionHeight then pure false
    else do
      let confirmedInfo := { txInfo with blockHeight := block.height, timestamp := block.timestamp }
      set { c with
        transactions := c.transactions.map fun t => if t = txInfo then confirmedInfo else t }
      confirmTransfers block transactionHash globalIndices
        (c.unconfirmedTransfers.filter (·.transactionHash = transactionHash)).length
      modify fun c => { c with
        spentTransfers := c.spentTransfers.map fun s =>
          if s.spendingTransactionHash = transactionHash then { s with spendingBlock := block }
          else s }
      pure true

/-- A confirmation round whose first unconfirmed transfer of the transaction has
no global index throws before it changes anything. -/
theorem run_confirmTransfers_short {block : TransactionBlockInfo} {hash : Hash}
    {globalIndices : List UInt32} {transfer : TransactionOutputInformationEx}
    {c : TransfersContainer} (fuel : Nat)
    (htransfer : c.unconfirmedTransfers.find? (·.transactionHash = hash) = some transfer)
    (hshort : globalIndices.length ≤ transfer.outputInTransaction.toNat) :
    run (confirmTransfers block hash globalIndices (fuel + 1)) c =
      (.error "Not enough elements in globalIndices", c) := by
  simp [confirmTransfers, run_bind, htransfer, hshort]

/-- {lit}`markTransactionConfirmed` of a known unconfirmed transaction whose first
unconfirmed transfer has no global index: it throws after the transaction's
record was rewritten with the new block, so the records are no longer those
before the call. -/
theorem markTransactionConfirmed_throws_after_marking (c : TransfersContainer)
    (block : TransactionBlockInfo) (globalIndices : List UInt32)
    (txInfo : TransactionInformation) (transfer : TransactionOutputInformationEx)
    (hblock : block.height ≠ unconfirmedTransactionHeight)
    (htx : c.transactions.find? (·.transactionHash = txInfo.transactionHash) = some txInfo)
    (hunconfirmed : txInfo.blockHeight = unconfirmedTransactionHeight)
    (htransfer : c.unconfirmedTransfers.find? (·.transactionHash = txInfo.transactionHash) =
      some transfer)
    (hshort : globalIndices.length ≤ transfer.outputInTransaction.toNat) :
    (run (markTransactionConfirmed block txInfo.transactionHash globalIndices) c).1 =
        .error "Not enough elements in globalIndices" ∧
      (run (markTransactionConfirmed block txInfo.transactionHash globalIndices)
        c).2.transactions ≠ c.transactions := by
  let confirmedInfo := { txInfo with blockHeight := block.height, timestamp := block.timestamp }
  let mark (t : TransactionInformation) := if t = txInfo then confirmedInfo else t
  obtain ⟨fuel, hfuel⟩ : ∃ fuel,
      (c.unconfirmedTransfers.filter (·.transactionHash = txInfo.transactionHash)).length =
        fuel + 1 := by
    have hp := List.find?_some htransfer
    have hmem : transfer ∈
        c.unconfirmedTransfers.filter (·.transactionHash = txInfo.transactionHash) :=
      List.mem_filter.mpr ⟨List.mem_of_find?_eq_some htransfer, hp⟩
    exact Nat.exists_eq_add_one_of_ne_zero (List.length_pos_of_mem hmem).ne'
  have hrun : run (markTransactionConfirmed block txInfo.transactionHash globalIndices) c =
      (.error "Not enough elements in globalIndices",
        { c with transactions := c.transactions.map mark }) := by
    simp only [markTransactionConfirmed, run_bind, hblock, if_false, run_get, htx,
      hunconfirmed, ne_eq, not_true_eq_false, run_set, hfuel]
    rw [@run_confirmTransfers_short block txInfo.transactionHash globalIndices transfer
      { c with transactions := c.transactions.map mark } fuel htransfer hshort]
  have hfind : (c.transactions.map mark).find? (·.transactionHash = txInfo.transactionHash) =
      some confirmedInfo := by
    have hhash : ∀ t, (mark t).transactionHash = t.transactionHash := by
      intro t
      by_cases ht : t = txInfo <;> simp [mark, ht, confirmedInfo]
    have hpred : (fun t : TransactionInformation =>
        decide (t.transactionHash = txInfo.transactionHash)) ∘ mark =
          fun t => decide (t.transactionHash = txInfo.transactionHash) := by
      funext t
      simp [hhash]
    rw [List.find?_map, hpred, htx]
    simp [mark]
  rw [hrun]
  refine ⟨rfl, fun hsame => ?_⟩
  have hunchanged : c.transactions.map mark = c.transactions := hsame
  rw [hunchanged, htx] at hfind
  have hheight := congrArg TransactionInformation.blockHeight (Option.some.inj hfind)
  exact hblock (hheight.symm.trans hunconfirmed)

end Transfers
end CryptoNote

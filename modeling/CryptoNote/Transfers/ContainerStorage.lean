import CryptoNote.Transfers.Visibility
import CryptoNote.Stream.Codec

/-!
# Saving and loading the transfers container

{lit}`TransfersContainer::save` writes the storage version, the current height and
the four multi-indices with the stream codecs of {lit}`transfers/TransfersContainer.cpp`;
{lit}`load` reads them back into fresh multi-indices, each element into a fresh
record, through {lit}`std::inserter`.

The codecs do not write heights the way they read them.  A height or a global
index is written as the varint of its {lit}`uint32_t` value widened to 64 bits,
and read back by {lit}`Reader::readHeight`, which maps the 64-bit all-ones value
to the 32-bit one and refuses every other value above {lit}`uint32_t`; the
unconfirmed height {lit}`0xFFFFFFFF` is written as itself and so comes back.
An output's type selects the member of its union that follows it, and an invalid
type throws on both sides.  The multi-index of the transactions is unique on the
hash and that of the spent transfers on the spent-output descriptor, so
{lit}`load` drops an element whose key it has read already.

Main results:

- Theorem {lit}`readHeight_reads`: every {lit}`uint32_t` height written as a
  64-bit varint is read back.
- Theorems {lit}`save_writes` and {lit}`load_reads`: a container of storable
  transfers whose two unique indices hold no key twice is written as
  {lit}`containerBytes` and read back from them.
- Theorem {lit}`storable_of_reachable`: every container reachable through calls
  of its API that honour the assertion of {lit}`addTransactionOutputs` is
  storable.
- Theorem {lit}`load_save_of_reachable`: such a container, with counts that fit
  in a {lit}`size_t`, is saved and loaded back equal in every field.
-/

namespace CryptoNote

open ByteCodec Transfers

/-! ## Record codecs -/

/-- {lit}`static_cast<uint8_t>(type)`. -/
def Transfers.OutputType.toUInt8 : OutputType → UInt8
  | .invalid => 0
  | .key => 1
  | .multisignature => 2

/-- The {lit}`output_type_t` a byte read into the enum is, as far as the switch of
the reader can tell: any value but those of {lit}`Key` and {lit}`Multisignature`
takes its {lit}`default` branch. -/
def Transfers.OutputType.ofUInt8 (b : UInt8) : OutputType :=
  if b = 1 then .key else if b = 2 then .multisignature else .invalid

/-- {lit}`TRANSFERS_CONTAINER_STORAGE_VERSION`. -/
def transfersContainerStorageVersion : UInt32 := 0

namespace Writer

/-- {lit}`Writer::writeHeight`: a {lit}`size_t`, as a varint. -/
def writeHeight (height : UInt64) : ByteStream Unit :=
  writeVarint height

/-- {lit}`operator<<` on {lit}`transaction_infomation_t`: the height widened to
{lit}`uint64_t`. -/
def transactionInformation (v : TransactionInformation) : ByteStream Unit := do
  writePod v.transactionHash
  writePod v.publicKey
  writeVarint v.blockHeight.toUInt64
  writeVarint v.timestamp
  writeVarint v.unlockTime
  writeVarint v.totalAmountIn
  writeVarint v.totalAmountOut
  vector (fun b => writeVarint b.toUInt64) v.extra
  writePod v.paymentId

/-- The switch that ends {lit}`operator<<` on {lit}`TransactionOutputInformationEx`:
the member of the union the type selects. -/
def outputUnion (v : TransactionOutputInformationEx) : ByteStream Unit :=
  match v.type with
  | .key => writePod v.outputKey
  | .multisignature => writeVarint v.requiredSignatures.toUInt64
  | .invalid => throw "Unknown type!"

/-- {lit}`operator<<` on {lit}`TransactionOutputInformationEx`: the fields, then
the member of the union its type selects. -/
def transactionOutputInformationEx (v : TransactionOutputInformationEx) : ByteStream Unit := do
  writeVarint v.type.toUInt8.toUInt64
  writeVarint v.amount
  writeHeight v.globalOutputIndex.toUInt64
  writeVarint v.outputInTransaction.toUInt64
  writePod v.transactionPublicKey
  writePod v.keyImage
  writeVarint v.unlockTime
  writeVarint v.blockHeight.toUInt64
  writeVarint v.transactionIndex.toUInt64
  writePod v.transactionHash
  writeBool v.visible
  outputUnion v

/-- {lit}`operator<<` on {lit}`TransactionBlockInfo`. -/
def transactionBlockInfo (v : TransactionBlockInfo) : ByteStream Unit := do
  writeVarint v.height.toUInt64
  writeVarint v.timestamp
  writeVarint v.transactionIndex.toUInt64

/-- {lit}`operator<<` on {lit}`SpentTransactionOutput`. -/
def spentTransactionOutput (v : SpentTransactionOutput) : ByteStream Unit := do
  transactionOutputInformationEx v.output
  transactionBlockInfo v.spendingBlock
  writePod v.spendingTransactionHash
  writeVarint v.inputInTransaction.toUInt64

end Writer

namespace Reader

/-- {lit}`Reader::readHeight`: a 64-bit varint; the 64-bit all-ones value becomes
the 32-bit one, and any other value above {lit}`uint32_t` throws. -/
def readHeight : ByteStream Nat := do
  let height ← readVarint 64
  if height = 2 ^ 64 - 1 then
    pure (2 ^ 32 - 1)
  else if 2 ^ 32 - 1 < height ∧ height < 2 ^ 64 - 1 then
    throw "Deserialization error: wrong value"
  else
    pure height

/-- {lit}`operator>>` on {lit}`transaction_infomation_t`: the height through
{lit}`readHeight`. -/
def transactionInformation (v : TransactionInformation) : ByteStream TransactionInformation := do
  let transactionHash ← readPod 32
  let publicKey ← readPod 32
  let height ← readHeight
  let timestamp ← readInteger 64 UInt64.ofNat v.timestamp
  let unlockTime ← readInteger 64 UInt64.ofNat v.unlockTime
  let totalAmountIn ← readInteger 64 UInt64.ofNat v.totalAmountIn
  let totalAmountOut ← readInteger 64 UInt64.ofNat v.totalAmountOut
  let extra ← vector (readInteger 8 UInt8.ofNat) v.extra
  let paymentId ← readPod 32
  pure {
    transactionHash, publicKey
    blockHeight := height.toUInt32
    timestamp, unlockTime, totalAmountIn, totalAmountOut, extra, paymentId }

/-- The switch that ends {lit}`operator>>` on {lit}`TransactionOutputInformationEx`:
the member of the union the type selects is read, the other keeps its value. -/
def outputUnion (v : TransactionOutputInformationEx) : ByteStream TransactionOutputInformationEx :=
  match v.type with
  | .key => do
    let outputKey ← readPod 32
    pure { v with outputKey }
  | .multisignature => do
    let requiredSignatures ← readInteger 32 UInt32.ofNat v.requiredSignatures
    pure { v with requiredSignatures }
  | .invalid => throw "Unknown type!"

/-- {lit}`operator>>` on {lit}`TransactionOutputInformationEx`: the global index
and the height through {lit}`readHeight`, then the member of the union the type
selects; the other member keeps its value. -/
def transactionOutputInformationEx (v : TransactionOutputInformationEx) :
    ByteStream TransactionOutputInformationEx := do
  let type ← readInteger 8 UInt8.ofNat v.type.toUInt8
  let amount ← readInteger 64 UInt64.ofNat v.amount
  let index ← readHeight
  let outputInTransaction ← readInteger 32 UInt32.ofNat v.outputInTransaction
  let transactionPublicKey ← readPod 32
  let keyImage ← readPod 32
  let unlockTime ← readInteger 64 UInt64.ofNat v.unlockTime
  let height ← readHeight
  let transactionIndex ← readInteger 32 UInt32.ofNat v.transactionIndex
  let transactionHash ← readPod 32
  let visible ← readBool
  outputUnion { v with
    type := OutputType.ofUInt8 type
    amount
    globalOutputIndex := index.toUInt32
    outputInTransaction, transactionPublicKey, keyImage, unlockTime
    blockHeight := height.toUInt32
    transactionIndex, transactionHash, visible }

/-- {lit}`operator>>` on {lit}`TransactionBlockInfo`: the height through
{lit}`readHeight`. -/
def transactionBlockInfo (v : TransactionBlockInfo) : ByteStream TransactionBlockInfo := do
  let height ← readHeight
  let timestamp ← readInteger 64 UInt64.ofNat v.timestamp
  let transactionIndex ← readInteger 32 UInt32.ofNat v.transactionIndex
  pure { height := height.toUInt32, timestamp, transactionIndex }

/-- {lit}`operator>>` on {lit}`SpentTransactionOutput`. -/
def spentTransactionOutput (v : SpentTransactionOutput) : ByteStream SpentTransactionOutput := do
  let output ← transactionOutputInformationEx v.output
  let spendingBlock ← transactionBlockInfo v.spendingBlock
  let spendingTransactionHash ← readPod 32
  let inputInTransaction ← readInteger 32 UInt32.ofNat v.inputInTransaction
  pure { output, spendingBlock, spendingTransactionHash, inputInTransaction }

end Reader

/-! ## Vectors and heights -/

/-- The bytes {lit}`operator<<` writes for a vector, and {lit}`iterate` for a
container: the count, then each element. -/
def vectorBytes {α : Type} (enc : α → Bytes) (v : List α) : Bytes :=
  Leb128.encode v.length ++ v.flatMap enc

/-- Writing a list element by element writes the elements' bytes one after
another. -/
theorem writes_forM {α : Type} {item : α → ByteStream Unit} {enc : α → Bytes} :
    ∀ {v : List α}, (∀ x ∈ v, Writes (item x) () (enc x)) →
      Writes (v.forM item) () (v.flatMap enc)
  | [], _ => Writes.pure ()
  | x :: v, h => by
    show Writes (item x >>= fun _ => v.forM item) () _
    rw [List.flatMap_cons]
    exact (h x List.mem_cons_self).bind (writes_forM fun y hy => h y (List.mem_cons_of_mem x hy))

theorem writeVarint_writes_uint32 (x : UInt32) :
    Writes (Writer.writeVarint x.toUInt64) () (Leb128.encode x.toNat) := by
  simpa using Writer.writeVarint_writes x.toUInt64

/-- {lit}`operator<<` on a vector of fewer than {lit}`2 ^ 64` elements writes its
count and then each element. -/
theorem Writer.vector_writes {α : Type} {item : α → ByteStream Unit} {enc : α → Bytes}
    {v : List α} (hlen : v.length < 2 ^ 64) (hitem : ∀ x ∈ v, Writes (item x) () (enc x)) :
    Writes (Writer.vector item v) () (vectorBytes enc v) := by
  have hcount := Writer.writeVarint_writes (UInt64.ofNat v.length)
  rw [UInt64.toNat_ofNat_of_lt' hlen] at hcount
  exact hcount.bind (writes_forM hitem)

/-- {lit}`operator>>` on a vector reads back a list of fewer than {lit}`2 ^ 64`
elements whatever the vector held, when its element reader reads each element
back whatever it starts from. -/
theorem Reader.vector_reads {α : Type} [Inhabited α] {item : α → ByteStream α}
    {enc : α → Bytes} {xs : List α} (hlen : xs.length < 2 ^ 64)
    (hitem : ∀ y, ∀ x ∈ xs, Reads (item y) x (enc x)) (y : List α) :
    Reads (Reader.vector item y) xs (vectorBytes enc xs) :=
  (Reader.readVarint_reads hlen).bind (Reads.mapM (length_resize y xs.length) hitem)

/-- A {lit}`uint32_t` height written as a 64-bit varint is read back by
{lit}`readHeight`, the unconfirmed height {lit}`0xFFFFFFFF` included. -/
theorem readHeight_reads (height : UInt32) :
    Reads Reader.readHeight height.toNat (Leb128.encode height.toNat) := by
  have hlt : height.toNat < 2 ^ 32 := height.toNat_lt
  intro rest
  rw [Reader.readHeight, run_bind_of_ok (Reader.readVarint_reads (by omega) rest),
    if_neg (by omega), if_neg (by omega)]
  rfl

/-! ## The records -/

namespace Transfers

theorem OutputType.ofUInt8_toUInt8 (type : OutputType) :
    OutputType.ofUInt8 type.toUInt8 = type := by
  cases type <;> rfl

/-- The bytes {lit}`operator<<` writes for a {lit}`transaction_infomation_t`. -/
def TransactionInformation.storedBytes (v : TransactionInformation) : Bytes :=
  v.transactionHash.bytes ++ v.publicKey.bytes ++ Leb128.encode v.blockHeight.toNat ++
    Leb128.encode v.timestamp.toNat ++ Leb128.encode v.unlockTime.toNat ++
    Leb128.encode v.totalAmountIn.toNat ++ Leb128.encode v.totalAmountOut.toNat ++
    vectorBytes (fun b => Leb128.encode b.toNat) v.extra ++ v.paymentId.bytes

/-- The bytes of the member of the union an output's type selects. -/
def TransactionOutputInformationEx.unionBytes (v : TransactionOutputInformationEx) : Bytes :=
  match v.type with
  | .key => v.outputKey.bytes
  | .multisignature => Leb128.encode v.requiredSignatures.toNat
  | .invalid => []

/-- The bytes {lit}`operator<<` writes for a {lit}`TransactionOutputInformationEx`. -/
def TransactionOutputInformationEx.storedBytes (v : TransactionOutputInformationEx) : Bytes :=
  Leb128.encode v.type.toUInt8.toNat ++ Leb128.encode v.amount.toNat ++
    Leb128.encode v.globalOutputIndex.toNat ++ Leb128.encode v.outputInTransaction.toNat ++
    v.transactionPublicKey.bytes ++ v.keyImage.bytes ++ Leb128.encode v.unlockTime.toNat ++
    Leb128.encode v.blockHeight.toNat ++ Leb128.encode v.transactionIndex.toNat ++
    v.transactionHash.bytes ++ [if v.visible then 1 else 0] ++ v.unionBytes

/-- The bytes {lit}`operator<<` writes for a {lit}`TransactionBlockInfo`. -/
def TransactionBlockInfo.storedBytes (v : TransactionBlockInfo) : Bytes :=
  Leb128.encode v.height.toNat ++ Leb128.encode v.timestamp.toNat ++
    Leb128.encode v.transactionIndex.toNat

/-- The bytes {lit}`operator<<` writes for a {lit}`SpentTransactionOutput`. -/
def SpentTransactionOutput.storedBytes (v : SpentTransactionOutput) : Bytes :=
  v.output.storedBytes ++ v.spendingBlock.storedBytes ++ v.spendingTransactionHash.bytes ++
    Leb128.encode v.inputInTransaction.toNat

/-- A transfer the stream stores: a key or a multisignature output, whose union
member the type does not select has the value of a fresh record. -/
def TransactionOutputInformationEx.Storable (v : TransactionOutputInformationEx) : Prop :=
  match v.type with
  | .key => v.requiredSignatures = 0
  | .multisignature => v.outputKey = default
  | .invalid => False

theorem TransactionOutputInformationEx.Storable.type_ne {v : TransactionOutputInformationEx}
    (hv : v.Storable) : v.type ≠ .invalid := by
  intro h
  rw [Storable, h] at hv
  exact hv

/-! ### Writing -/

/-- The writer of a transaction record writes its stored bytes. -/
theorem transactionInformation_writes (v : TransactionInformation)
    (hextra : v.extra.length < 2 ^ 64) :
    Writes (Writer.transactionInformation v) () v.storedBytes := by
  unfold Writer.transactionInformation TransactionInformation.storedBytes
  simp only [List.append_assoc]
  refine (Writes.writeBytes _).bind ?_
  refine (Writes.writeBytes _).bind ?_
  refine (writeVarint_writes_uint32 _).bind ?_
  refine (Writer.writeVarint_writes _).bind ?_
  refine (Writer.writeVarint_writes _).bind ?_
  refine (Writer.writeVarint_writes _).bind ?_
  refine (Writer.writeVarint_writes _).bind ?_
  refine (Writer.vector_writes hextra fun b _ => ?_).bind ?_
  · simpa using Writer.writeVarint_writes b.toUInt64
  · exact Writes.writeBytes _

/-- The writer of an output's union writes its stored bytes. -/
theorem outputUnion_writes {v : TransactionOutputInformationEx} (hv : v.type ≠ .invalid) :
    Writes (Writer.outputUnion v) () v.unionBytes := by
  unfold Writer.outputUnion TransactionOutputInformationEx.unionBytes
  split
  · exact Writes.writeBytes _
  · exact writeVarint_writes_uint32 _
  · contradiction

/-- The writer of a transfer writes its stored bytes. -/
theorem transactionOutputInformationEx_writes {v : TransactionOutputInformationEx}
    (hv : v.type ≠ .invalid) :
    Writes (Writer.transactionOutputInformationEx v) () v.storedBytes := by
  unfold Writer.transactionOutputInformationEx TransactionOutputInformationEx.storedBytes
  simp only [List.append_assoc]
  refine (?_ : Writes _ () (Leb128.encode v.type.toUInt8.toNat)).bind ?_
  · simpa using Writer.writeVarint_writes v.type.toUInt8.toUInt64
  refine (Writer.writeVarint_writes _).bind ?_
  refine (writeVarint_writes_uint32 _).bind ?_
  refine (writeVarint_writes_uint32 _).bind ?_
  refine (Writes.writeBytes _).bind ?_
  refine (Writes.writeBytes _).bind ?_
  refine (Writer.writeVarint_writes _).bind ?_
  refine (writeVarint_writes_uint32 _).bind ?_
  refine (writeVarint_writes_uint32 _).bind ?_
  refine (Writes.writeBytes _).bind ?_
  refine (Writes.writeBytes _).bind ?_
  exact outputUnion_writes hv

/-- The writer of a block position writes its stored bytes. -/
theorem transactionBlockInfo_writes (v : TransactionBlockInfo) :
    Writes (Writer.transactionBlockInfo v) () v.storedBytes := by
  unfold Writer.transactionBlockInfo TransactionBlockInfo.storedBytes
  simp only [List.append_assoc]
  refine (writeVarint_writes_uint32 _).bind ?_
  refine (Writer.writeVarint_writes _).bind ?_
  exact writeVarint_writes_uint32 _

/-- The writer of a spent transfer writes its stored bytes. -/
theorem spentTransactionOutput_writes {v : SpentTransactionOutput}
    (hv : v.output.type ≠ .invalid) :
    Writes (Writer.spentTransactionOutput v) () v.storedBytes := by
  unfold Writer.spentTransactionOutput SpentTransactionOutput.storedBytes
  simp only [List.append_assoc]
  refine (transactionOutputInformationEx_writes hv).bind ?_
  refine (transactionBlockInfo_writes _).bind ?_
  refine (Writes.writeBytes _).bind ?_
  exact writeVarint_writes_uint32 _

/-! ### Reading -/

/-- A reader ending in {lit}`pure` of a value equal to the target reads it from
nothing more. -/
theorem reads_pure_of_eq {α : Type} {x a : α} (h : x = a) : Reads (pure x : ByteStream α) a [] :=
  h ▸ Reads.pure x

/-- The reader of a transaction record reads it back from its stored bytes. -/
theorem transactionInformation_reads (v : TransactionInformation)
    (hextra : v.extra.length < 2 ^ 64) (y : TransactionInformation) :
    Reads (Reader.transactionInformation y) v v.storedBytes := by
  unfold Reader.transactionInformation TransactionInformation.storedBytes
  simp only [List.append_assoc]
  rw [← List.append_nil v.paymentId.bytes]
  refine (Reader.readPod_reads _).bind ?_
  refine (Reader.readPod_reads _).bind ?_
  refine (readHeight_reads v.blockHeight).bind ?_
  refine (uint64_implements.reads _ trivial _).bind ?_
  refine (uint64_implements.reads _ trivial _).bind ?_
  refine (uint64_implements.reads _ trivial _).bind ?_
  refine (uint64_implements.reads _ trivial _).bind ?_
  refine (Reader.vector_reads hextra (fun z b _ => uint8_implements.reads b trivial z) _).bind ?_
  refine (Reader.readPod_reads _).bind (reads_pure_of_eq ?_)
  simp

/-- The reader of an output's union reads it back from its stored bytes. -/
theorem outputUnion_reads {v : TransactionOutputInformationEx} (hv : v.Storable) :
    Reads (Reader.outputUnion { v with outputKey := default, requiredSignatures := 0 }) v
      v.unionBytes := by
  unfold TransactionOutputInformationEx.Storable at hv
  unfold Reader.outputUnion TransactionOutputInformationEx.unionBytes
  cases ht : v.type with
  | invalid => rw [ht] at hv; exact hv.elim
  | key =>
    rw [ht] at hv
    rw [← List.append_nil v.outputKey.bytes]
    refine (Reader.readPod_reads _).bind (reads_pure_of_eq ?_)
    cases v
    simp_all
  | multisignature =>
    rw [ht] at hv
    rw [← List.append_nil (Leb128.encode v.requiredSignatures.toNat)]
    refine (uint32_implements.reads _ trivial _).bind (reads_pure_of_eq ?_)
    cases v
    simp_all

/-- The reader of a transfer reads it back from its stored bytes. -/
theorem transactionOutputInformationEx_reads {v : TransactionOutputInformationEx}
    (hv : v.Storable) :
    Reads (Reader.transactionOutputInformationEx default) v v.storedBytes := by
  have hindex : v.globalOutputIndex.toNat.toUInt32 = v.globalOutputIndex := by simp
  have hheight : v.blockHeight.toNat.toUInt32 = v.blockHeight := by simp
  unfold Reader.transactionOutputInformationEx TransactionOutputInformationEx.storedBytes
  simp only [List.append_assoc]
  refine (uint8_implements.reads v.type.toUInt8 trivial _).bind ?_
  refine (uint64_implements.reads _ trivial _).bind ?_
  refine (readHeight_reads v.globalOutputIndex).bind ?_
  refine (uint32_implements.reads _ trivial _).bind ?_
  refine (Reader.readPod_reads _).bind ?_
  refine (Reader.readPod_reads _).bind ?_
  refine (uint64_implements.reads _ trivial _).bind ?_
  refine (readHeight_reads v.blockHeight).bind ?_
  refine (uint32_implements.reads _ trivial _).bind ?_
  refine (Reader.readPod_reads _).bind ?_
  refine (Reader.readBool_reads v.visible).bind ?_
  simp only [OutputType.ofUInt8_toUInt8, hindex, hheight]
  exact outputUnion_reads hv

/-- The reader of a block position reads it back from its stored bytes. -/
theorem transactionBlockInfo_reads (v y : TransactionBlockInfo) :
    Reads (Reader.transactionBlockInfo y) v v.storedBytes := by
  unfold Reader.transactionBlockInfo TransactionBlockInfo.storedBytes
  simp only [List.append_assoc]
  rw [← List.append_nil (Leb128.encode v.transactionIndex.toNat)]
  refine (readHeight_reads v.height).bind ?_
  refine (uint64_implements.reads _ trivial _).bind ?_
  refine (uint32_implements.reads _ trivial _).bind (reads_pure_of_eq ?_)
  simp

/-- The reader of a spent transfer reads it back from its stored bytes. -/
theorem spentTransactionOutput_reads {v : SpentTransactionOutput} (hv : v.output.Storable) :
    Reads (Reader.spentTransactionOutput default) v v.storedBytes := by
  unfold Reader.spentTransactionOutput SpentTransactionOutput.storedBytes
  simp only [List.append_assoc]
  rw [← List.append_nil (Leb128.encode v.inputInTransaction.toNat)]
  refine (transactionOutputInformationEx_reads hv).bind ?_
  refine (transactionBlockInfo_reads _ _).bind ?_
  refine (Reader.readPod_reads _).bind ?_
  exact (uint32_implements.reads _ trivial _).bind (reads_pure_of_eq rfl)

end Transfers

/-! ## The container -/

namespace Reader

/-- The loop of {lit}`iterate` over a reader: each element is read into a fresh
record and handed to the inserter. -/
def iterateLoop {α : Type} [Inhabited α] (element : α → ByteStream α)
    (insert : List α → α → List α) : Nat → List α → ByteStream (List α)
  | 0, entries => pure entries
  | size + 1, entries => do
    let e ← element default
    iterateLoop element insert size (insert entries e)

/-- {lit}`iterate` over a reader into {lit}`std::inserter` of a fresh container:
the count as a 64-bit varint, then as many elements. -/
def iterate {α : Type} [Inhabited α] (element : α → ByteStream α)
    (insert : List α → α → List α) : ByteStream (List α) := do
  let size ← readVarint 64
  iterateLoop element insert size []

end Reader

namespace Transfers

/-- {lit}`insert` into a multi-index whose first index is unique on {lit}`key`: an
element whose key is there already is not inserted. -/
def insertUnique {α β : Type} [DecidableEq β] (key : α → β) (entries : List α) (e : α) :
    List α :=
  if entries.any (fun x => key x = key e) then entries else entries ++ [e]

/-- {lit}`insert` into a multi-index with no unique index. -/
def insertAny {α : Type} (entries : List α) (e : α) : List α :=
  entries ++ [e]

/-- {lit}`TransfersContainer::save`. -/
def save (c : TransfersContainer) : ByteStream Unit := do
  Writer.writeVarint transfersContainerStorageVersion.toUInt64
  Writer.writeVarint c.currentHeight.toUInt64
  -- {lit}`iterate` writes a container as {lit}`operator<<` writes a vector
  Writer.vector Writer.transactionInformation c.transactions
  Writer.vector Writer.transactionOutputInformationEx c.unconfirmedTransfers
  Writer.vector Writer.transactionOutputInformationEx c.availableTransfers
  Writer.vector Writer.spentTransactionOutput c.spentTransfers

/-- {lit}`TransfersContainer::load`: the containers it reads replace the
container's own only once all four are read. -/
def load : ByteStream TransfersContainer := do
  let version ← readInteger 32 UInt32.ofNat 0
  if transfersContainerStorageVersion < version then
    throw "Unsupported transfers storage version"
  let currentHeight ← readInteger 32 UInt32.ofNat 0
  let transactions ← Reader.iterate Reader.transactionInformation
    (insertUnique (·.transactionHash))
  let unconfirmedTransfers ← Reader.iterate Reader.transactionOutputInformationEx insertAny
  let availableTransfers ← Reader.iterate Reader.transactionOutputInformationEx insertAny
  let spentTransfers ← Reader.iterate Reader.spentTransactionOutput
    (insertUnique (·.output.descriptor))
  pure { transactions, unconfirmedTransfers, availableTransfers, spentTransfers, currentHeight }

/-- The bytes {lit}`save` writes. -/
def containerBytes (c : TransfersContainer) : Bytes :=
  Leb128.encode transfersContainerStorageVersion.toNat ++ Leb128.encode c.currentHeight.toNat ++
    vectorBytes TransactionInformation.storedBytes c.transactions ++
    vectorBytes TransactionOutputInformationEx.storedBytes c.unconfirmedTransfers ++
    vectorBytes TransactionOutputInformationEx.storedBytes c.availableTransfers ++
    vectorBytes SpentTransactionOutput.storedBytes c.spentTransfers

/-- Every count {lit}`save` writes as a {lit}`size_t` fits in one. -/
structure TransfersContainer.Fits (c : TransfersContainer) : Prop where
  transactions : c.transactions.length < 2 ^ 64
  unconfirmed : c.unconfirmedTransfers.length < 2 ^ 64
  available : c.availableTransfers.length < 2 ^ 64
  spent : c.spentTransfers.length < 2 ^ 64
  extra : ∀ t ∈ c.transactions, t.extra.length < 2 ^ 64

/-- What the round trip needs of a container: transfers the stream stores, and no
key twice in the two unique indices. -/
structure TransfersContainer.Storable (c : TransfersContainer) : Prop where
  unconfirmed : ∀ t ∈ c.unconfirmedTransfers, t.Storable
  available : ∀ t ∈ c.availableTransfers, t.Storable
  spent : ∀ s ∈ c.spentTransfers, s.output.Storable
  transactions_nodup : (c.transactions.map (·.transactionHash)).Nodup
  spent_nodup : (c.spentTransfers.map (·.output.descriptor)).Nodup

/-! ### Inserting what was saved -/

/-- Inserting elements of distinct keys, none of them a key already there,
appends them. -/
theorem foldl_insertUnique {α β : Type} [DecidableEq β] (key : α → β) :
    ∀ (xs entries : List α), ((entries ++ xs).map key).Nodup →
      xs.foldl (insertUnique key) entries = entries ++ xs
  | [], entries, _ => by simp
  | x :: xs, entries, h => by
    have hfresh : entries.any (fun y => key y = key x) = false := by
      rw [List.map_append, List.map_cons] at h
      simpa using fun y hy heq => (List.nodup_append.mp h).2.2 _ (List.mem_map_of_mem hy) _
        List.mem_cons_self heq
    rw [List.foldl_cons, insertUnique, hfresh, if_neg Bool.false_ne_true,
      foldl_insertUnique key xs (entries ++ [x]) (by simpa using h)]
    simp

theorem foldl_insertAny {α : Type} :
    ∀ (xs entries : List α), xs.foldl insertAny entries = entries ++ xs
  | [], entries => by simp
  | x :: xs, entries => by
    rw [List.foldl_cons, foldl_insertAny xs, insertAny, List.append_assoc, List.singleton_append]

/-! ### The round trip -/

section Iterate

variable {α : Type} [Inhabited α] {element : α → ByteStream α}
  {insert : List α → α → List α}
  {enc : α → Bytes}

/-- The loop reads as many elements as it counts, each handed to the inserter. -/
theorem iterateLoop_reads {xs : List α}
    (helement : ∀ x ∈ xs, Reads (element default) x (enc x)) :
    ∀ entries, Reads (Reader.iterateLoop element insert xs.length entries)
      (xs.foldl insert entries) (xs.flatMap enc) := by
  induction xs with
  | nil => exact fun entries => Reads.pure entries
  | cons x xs ih =>
    intro entries
    rw [List.length_cons, List.foldl_cons, List.flatMap_cons, Reader.iterateLoop]
    exact (helement x List.mem_cons_self).bind
      (ih (fun y hy => helement y (List.mem_cons_of_mem x hy)) (insert entries x))

/-- {lit}`iterate` reads back a saved container of fewer than {lit}`2 ^ 64`
elements, when inserting them one by one into a fresh container gives them
back. -/
theorem iterate_reads {xs : List α} (hlen : xs.length < 2 ^ 64)
    (helement : ∀ x ∈ xs, Reads (element default) x (enc x))
    (hinsert : xs.foldl insert [] = xs) :
    Reads (Reader.iterate element insert) xs (vectorBytes enc xs) := by
  have hloop : Reads (Reader.iterateLoop element insert xs.length []) (xs.foldl insert [])
      (xs.flatMap enc) := iterateLoop_reads helement []
  rw [hinsert] at hloop
  exact (Reader.readVarint_reads hlen).bind hloop

end Iterate

variable {c : TransfersContainer}

/-- Saving a container that can be stored writes its bytes. -/
theorem save_writes (hc : c.Storable) (hfits : c.Fits) : Writes (save c) () (containerBytes c) := by
  unfold save containerBytes
  simp only [List.append_assoc]
  refine (writeVarint_writes_uint32 _).bind ?_
  refine (writeVarint_writes_uint32 _).bind ?_
  refine (Writer.vector_writes hfits.transactions
    fun t ht => transactionInformation_writes t (hfits.extra t ht)).bind ?_
  refine (Writer.vector_writes hfits.unconfirmed
    fun t ht => transactionOutputInformationEx_writes (hc.unconfirmed t ht).type_ne).bind ?_
  refine (Writer.vector_writes hfits.available
    fun t ht => transactionOutputInformationEx_writes (hc.available t ht).type_ne).bind ?_
  exact Writer.vector_writes hfits.spent fun s hs =>
    spentTransactionOutput_writes (hc.spent s hs).type_ne

/-- Loading reads a container that can be stored back from its bytes. -/
theorem load_reads (hc : c.Storable) (hfits : c.Fits) : Reads load c (containerBytes c) := by
  -- the two unique indices take back every element: no key was read before
  have htransactions :
      c.transactions.foldl (insertUnique (·.transactionHash)) [] = c.transactions := by
    simpa using foldl_insertUnique _ c.transactions [] (by simpa using hc.transactions_nodup)
  have hspent :
      c.spentTransfers.foldl (insertUnique (·.output.descriptor)) [] = c.spentTransfers := by
    simpa using foldl_insertUnique _ c.spentTransfers [] (by simpa using hc.spent_nodup)
  unfold load containerBytes
  simp only [List.append_assoc]
  rw [← List.append_nil (vectorBytes SpentTransactionOutput.storedBytes c.spentTransfers)]
  refine (uint32_implements.reads transfersContainerStorageVersion trivial _).bind ?_
  rw [if_neg (UInt32.lt_irrefl _)]
  refine (uint32_implements.reads _ trivial _).bind ?_
  refine (iterate_reads hfits.transactions
    (fun t ht => transactionInformation_reads t (hfits.extra t ht) default) htransactions).bind ?_
  refine (iterate_reads hfits.unconfirmed (fun t ht => transactionOutputInformationEx_reads
    (hc.unconfirmed t ht)) (by simpa using foldl_insertAny c.unconfirmedTransfers [])).bind ?_
  refine (iterate_reads hfits.available (fun t ht => transactionOutputInformationEx_reads
    (hc.available t ht)) (by simpa using foldl_insertAny c.availableTransfers [])).bind ?_
  exact (iterate_reads hfits.spent (fun s hs => spentTransactionOutput_reads (hc.spent s hs))
    hspent).bind (Reads.pure c)

theorem load_save (hc : c.Storable) (hfits : c.Fits) :
    (save c).run [] = .ok ((), containerBytes c) ∧ load.run (containerBytes c) = .ok (c, []) := by
  refine ⟨save_writes hc hfits [], ?_⟩
  simpa using load_reads hc hfits []

/-! ## Every reachable container is storable -/

/-- A transfer with its visibility flag cleared. -/
def TransactionOutputInformationEx.hidden (t : TransactionOutputInformationEx) :
    TransactionOutputInformationEx :=
  { t with visible := false }

/-- A spent transfer with the visibility flag of its output cleared. -/
def SpentTransactionOutput.hidden (s : SpentTransactionOutput) : SpentTransactionOutput :=
  { s with output.visible := false }

/-- The descriptors of the available multisignature transfers and of the spent
ones: the keys an input looks up and the unique index of the spent transfers
holds. -/
def TransfersContainer.descriptors (c : TransfersContainer) : List SpentOutputDescriptor :=
  (c.availableTransfers.filter (·.type = .multisignature)).map (·.descriptor) ++
    c.spentTransfers.map (·.output.descriptor)

/-- What every reachable container keeps: its transfers are storable, its
transactions have distinct hashes, and no descriptor of an available
multisignature transfer or of a spent one occurs twice, so that an input that
moves an available transfer to the spent ones keeps the spent descriptors
distinct. -/
structure TransfersContainer.StorageInvariant (c : TransfersContainer) : Prop where
  unconfirmed : ∀ t ∈ c.unconfirmedTransfers, t.Storable
  available : ∀ t ∈ c.availableTransfers, t.Storable
  spent : ∀ s ∈ c.spentTransfers, s.output.Storable
  transactions_nodup : (c.transactions.map (·.transactionHash)).Nodup
  descriptors_nodup : c.descriptors.Nodup

theorem TransfersContainer.StorageInvariant.storable (h : c.StorageInvariant) : c.Storable :=
  ⟨h.unconfirmed, h.available, h.spent, h.transactions_nodup,
    (List.nodup_append.mp h.descriptors_nodup).2.1⟩

/-- What the invariant reads of a container: everything but the visibility
flags. -/
def TransfersContainer.storageView (c : TransfersContainer) :
    List TransactionInformation × List TransactionOutputInformationEx ×
      List TransactionOutputInformationEx × List SpentTransactionOutput :=
  (c.transactions, c.unconfirmedTransfers.map (·.hidden), c.availableTransfers.map (·.hidden),
    c.spentTransfers.map (·.hidden))

theorem TransfersContainer.descriptors_eq (c : TransfersContainer) :
    c.descriptors = ((c.availableTransfers.map (·.hidden)).filter (·.type = .multisignature)).map
        (·.descriptor) ++ (c.spentTransfers.map (·.hidden)).map (·.output.descriptor) := by
  simp only [descriptors, List.filter_map, List.map_map]
  rfl

/-- A property that a map cannot tell apart holds of a list with the image of one
where it holds. -/
theorem forall_mem_of_map_eq {α β : Type} {f : α → β} {P : α → Prop}
    (hP : ∀ a b, f a = f b → P b → P a) {l l' : List α} (hl : ∀ t ∈ l, P t)
    (hmap : l'.map f = l.map f) : ∀ t ∈ l', P t := by
  intro t ht
  have hmem : f t ∈ l.map f := hmap ▸ List.mem_map_of_mem ht
  obtain ⟨u, hu, heq⟩ := List.mem_map.mp hmem
  exact hP t u heq.symm (hl u hu)

/-- Whether a transfer is storable does not read its visibility flag. -/
theorem storable_of_hidden_eq {t u : TransactionOutputInformationEx} (heq : t.hidden = u.hidden)
    (hu : u.Storable) : t.Storable := by
  show t.hidden.Storable
  rw [heq]
  exact hu

/-- The storage invariant reads only the storage view. -/
theorem TransfersContainer.StorageInvariant.of_view {c c' : TransfersContainer}
    (h : c.StorageInvariant) (hview : c'.storageView = c.storageView) : c'.StorageInvariant := by
  simp only [TransfersContainer.storageView, Prod.mk.injEq] at hview
  obtain ⟨htransactions, hunconfirmed, havailable, hspent⟩ := hview
  refine ⟨forall_mem_of_map_eq (fun _ _ => storable_of_hidden_eq) h.unconfirmed hunconfirmed,
    forall_mem_of_map_eq (fun _ _ => storable_of_hidden_eq) h.available havailable,
    forall_mem_of_map_eq (fun _ _ heq => storable_of_hidden_eq (congrArg (·.output) heq))
      h.spent hspent,
    htransactions ▸ h.transactions_nodup, ?_⟩
  rw [TransfersContainer.descriptors_eq, havailable, hspent, ← TransfersContainer.descriptors_eq]
  exact h.descriptors_nodup

/-! ### The visibility update -/

/-- Setting visibility leaves the hidden flags as they were. -/
theorem map_hidden_setVisible (selected : TransactionOutputInformationEx → Bool) (visible : Bool)
    (l : List TransactionOutputInformationEx) :
    (setVisible selected visible l).map (·.hidden) = l.map (·.hidden) := by
  unfold setVisible
  rw [List.map_map]
  apply List.map_congr_left
  intro t _
  by_cases ht : selected t = true <;> simp [ht, TransactionOutputInformationEx.hidden]

/-- Showing the first transfer leaves the hidden flags as they were. -/
theorem map_hidden_showFirst (m : TransactionOutputInformationEx) :
    ∀ l : List TransactionOutputInformationEx, (showFirst m l).map (·.hidden) = l.map (·.hidden)
  | [] => rfl
  | t :: rest => by
    unfold showFirst
    split
    · rfl
    · rw [List.map_cons, List.map_cons, map_hidden_showFirst m rest]

/-- The visibility update rewrites flags only. -/
theorem storageView_updateTransfersVisibility (k : KeyImage) (c : TransfersContainer) :
    (updateTransfersVisibility k c).storageView = c.storageView := by
  have hspent : (c.spentTransfers.map fun s =>
      if ofImage k s.output then { s with output.visible := true } else s).map (·.hidden) =
        c.spentTransfers.map (·.hidden) := by
    rw [List.map_map]
    apply List.map_congr_left
    intro s _
    by_cases hs : ofImage k s.output = true <;> simp [hs, SpentTransactionOutput.hidden]
  rw [updateTransfersVisibility_eq]
  split_ifs
  · simp only [TransfersContainer.storageView, map_hidden_setVisible, hspent]
  · split <;> simp only [TransfersContainer.storageView, map_hidden_setVisible,
      map_hidden_showFirst]
  · simp only [TransfersContainer.storageView, map_hidden_setVisible]

/-- Touching a transfer keeps the storage invariant of the change it makes. -/
theorem TransfersContainer.StorageInvariant.touch {t : TransactionOutputInformationEx}
    {change : TransfersContainer → TransfersContainer} (h : (change c).StorageInvariant) :
    (touchTransfer t change c).StorageInvariant := by
  unfold touchTransfer
  split
  · exact h.of_view (storageView_updateTransfersVisibility _ _)
  · exact h

/-! ### Moving transfers -/

section Moves

variable {c : TransfersContainer}

/-- The descriptor of a multisignature transfer is no other kind's. -/
theorem descriptor_ne_of_type {x y : TransactionOutputInformationEx}
    (hx : x.type = .multisignature) (hy : y.type ≠ .multisignature) :
    x.descriptor ≠ y.descriptor := by
  unfold TransactionOutputInformationEx.descriptor
  rw [hx]
  cases h : y.type <;> simp_all

/-- The refusal of a multisignature transfer filed before, in filing and in
confirming: a multisignature transfer it lets through has a fresh descriptor. -/
theorem not_mem_descriptors_of_refusal {t : TransactionOutputInformationEx}
    (hrefusal : ¬(decide (t.type = .multisignature) &&
      (c.availableTransfers.any (·.descriptor = t.descriptor) ||
        c.spentTransfers.any (·.output.descriptor = t.descriptor))) = true)
    (hmulti : t.type = .multisignature) : t.descriptor ∉ c.descriptors := by
  simp only [hmulti, decide_true, Bool.true_and, Bool.or_eq_true, not_or, Bool.not_eq_true,
    List.any_eq_false, decide_eq_true_eq] at hrefusal
  simp only [TransfersContainer.descriptors, List.mem_append, List.mem_map, List.mem_filter]
  rintro (⟨u, ⟨hu, -⟩, hd⟩ | ⟨s, hs, hd⟩)
  · exact hrefusal.1 u hu hd
  · exact hrefusal.2 s hs hd

theorem TransfersContainer.StorageInvariant.withCurrentHeight (h : c.StorageInvariant)
    (currentHeight : UInt32) :
    ({ c with currentHeight }).StorageInvariant :=
  h.of_view rfl

theorem TransfersContainer.StorageInvariant.withTransactions (h : c.StorageInvariant)
    {transactions : List TransactionInformation}
    (hnodup : (transactions.map (·.transactionHash)).Nodup) :
    ({ c with transactions }).StorageInvariant :=
  ⟨h.unconfirmed, h.available, h.spent, hnodup, h.descriptors_nodup⟩

/-- Filing a storable transfer among the unconfirmed ones. -/
theorem TransfersContainer.StorageInvariant.fileUnconfirmed (h : c.StorageInvariant)
    {t : TransactionOutputInformationEx} (ht : t.Storable) :
    ({ c with unconfirmedTransfers := c.unconfirmedTransfers ++ [t] }).StorageInvariant where
  unconfirmed := List.forall_mem_append.mpr ⟨h.unconfirmed, List.forall_mem_singleton.mpr ht⟩
  available := h.available
  spent := h.spent
  transactions_nodup := h.transactions_nodup
  descriptors_nodup := h.descriptors_nodup

/-- Filing a storable transfer among the available ones, a multisignature one
with a descriptor neither an available nor a spent transfer has. -/
theorem TransfersContainer.StorageInvariant.fileAvailable (h : c.StorageInvariant)
    {t : TransactionOutputInformationEx} (ht : t.Storable)
    (hfresh : t.type = .multisignature → t.descriptor ∉ c.descriptors) :
    ({ c with availableTransfers := c.availableTransfers ++ [t] }).StorageInvariant where
  unconfirmed := h.unconfirmed
  available := List.forall_mem_append.mpr ⟨h.available, List.forall_mem_singleton.mpr ht⟩
  spent := h.spent
  transactions_nodup := h.transactions_nodup
  descriptors_nodup := by
    simp only [TransfersContainer.descriptors, List.filter_append, List.filter_singleton,
      List.map_append]
    by_cases hmulti : t.type = .multisignature
    · simp only [hmulti, decide_true, cond_true, List.map_cons, List.map_nil, List.append_assoc,
        List.singleton_append]
      exact List.nodup_middle.mpr (List.nodup_cons.mpr ⟨hfresh hmulti, h.descriptors_nodup⟩)
    · simp only [hmulti, decide_false, cond_false, List.map_nil, List.append_nil]
      exact h.descriptors_nodup

/-- Erasing an unconfirmed transfer keeps the storage invariant. -/
theorem TransfersContainer.StorageInvariant.dropUnconfirmed (h : c.StorageInvariant)
    (t : TransactionOutputInformationEx) :
    ({ c with unconfirmedTransfers := c.unconfirmedTransfers.erase t }).StorageInvariant where
  unconfirmed := fun x hx => h.unconfirmed x (List.mem_of_mem_erase hx)
  available := h.available
  spent := h.spent
  transactions_nodup := h.transactions_nodup
  descriptors_nodup := h.descriptors_nodup

/-- Erasing an available transfer keeps the storage invariant. -/
theorem TransfersContainer.StorageInvariant.dropAvailable (h : c.StorageInvariant)
    (t : TransactionOutputInformationEx) :
    ({ c with availableTransfers := c.availableTransfers.erase t }).StorageInvariant where
  unconfirmed := h.unconfirmed
  available := fun x hx => h.available x (List.mem_of_mem_erase hx)
  spent := h.spent
  transactions_nodup := h.transactions_nodup
  descriptors_nodup :=
    h.descriptors_nodup.sublist ((((List.erase_sublist).filter _).map _).append_right _)

/-- What an input does: an available transfer moves to the spent ones, a key
output only when no spent transfer has its descriptor. -/
theorem TransfersContainer.StorageInvariant.spend (h : c.StorageInvariant)
    {x : TransactionOutputInformationEx}
    (hx : x ∈ c.availableTransfers)
    (hfresh : x.type ≠ .multisignature →
      x.descriptor ∉ c.spentTransfers.map (·.output.descriptor))
    (block : TransactionBlockInfo) (tx : TransactionReader) (i : Nat) :
    ({ copyToSpent block tx i x c with
      availableTransfers :=
        (copyToSpent block tx i x c).availableTransfers.erase x }).StorageInvariant
    where
  unconfirmed := h.unconfirmed
  available := fun t ht => h.available t (List.mem_of_mem_erase ht)
  spent :=
    List.forall_mem_append.mpr ⟨h.spent, List.forall_mem_singleton.mpr (h.available x hx)⟩
  transactions_nodup := h.transactions_nodup
  descriptors_nodup := by
    let multi (t : TransactionOutputInformationEx) : Bool := t.type = .multisignature
    let rest := ((c.availableTransfers.erase x).filter multi).map (·.descriptor)
    let spent := c.spentTransfers.map (·.output.descriptor)
    have hnew : (rest ++ (spent ++ [x.descriptor])).Perm (x.descriptor :: (rest ++ spent)) := by
      rw [← List.append_assoc]
      exact List.perm_append_singleton _ _
    simp only [TransfersContainer.descriptors, copyToSpent, List.map_append, List.map_cons,
      List.map_nil]
    refine hnew.nodup_iff.mpr ?_
    have hdesc : ((c.availableTransfers.filter multi).map (·.descriptor) ++ spent).Nodup :=
      h.descriptors_nodup
    by_cases hmulti : x.type = .multisignature
    · have hmem : x ∈ c.availableTransfers.filter multi :=
        List.mem_filter.mpr ⟨hx, by simp [multi, hmulti]⟩
      have hold : ((c.availableTransfers.filter multi).map (·.descriptor)).Perm
          (x.descriptor :: rest) := by
        simp only [rest, ← List.erase_filter]
        exact (List.perm_cons_erase hmem).map _
      exact ((hold.append_right spent).nodup_iff).mp hdesc
    · have hfalse : multi x = false := by simp [multi, hmulti]
      have hrest : rest = (c.availableTransfers.filter multi).map (·.descriptor) := by
        simp only [rest, filter_erase_of_false hfalse]
      refine List.nodup_cons.mpr ⟨?_, hrest ▸ hdesc⟩
      rw [hrest, List.mem_append, not_or]
      refine ⟨?_, hfresh hmulti⟩
      simp only [List.mem_map, List.mem_filter, not_exists, not_and]
      intro t hmem hd
      exact descriptor_ne_of_type (by simpa [multi] using hmem.2) hmulti hd

/-- The first pass of {lit}`deleteTransactionTransfers`: a spent transfer goes back
to the available ones. -/
theorem TransfersContainer.StorageInvariant.restore (h : c.StorageInvariant)
    {s : SpentTransactionOutput}
    (hs : s ∈ c.spentTransfers) :
    ({ c with
      availableTransfers := c.availableTransfers ++ [s.output]
      spentTransfers := c.spentTransfers.erase s }).StorageInvariant where
  unconfirmed := h.unconfirmed
  available :=
    List.forall_mem_append.mpr ⟨h.available, List.forall_mem_singleton.mpr (h.spent s hs)⟩
  spent := fun s' hs' => h.spent s' (List.mem_of_mem_erase hs')
  transactions_nodup := h.transactions_nodup
  descriptors_nodup := by
    let available := (c.availableTransfers.filter (·.type = .multisignature)).map (·.descriptor)
    let rest := (c.spentTransfers.erase s).map (·.output.descriptor)
    have hdesc : (available ++ c.spentTransfers.map (·.output.descriptor)).Nodup :=
      h.descriptors_nodup
    have hperm :
        (c.spentTransfers.map (·.output.descriptor)).Perm (s.output.descriptor :: rest) := by
      simpa only [List.map_cons] using (List.perm_cons_erase hs).map (·.output.descriptor)
    have hold : (available ++ s.output.descriptor :: rest).Nodup :=
      ((hperm.append_left available).nodup_iff).mp hdesc
    simp only [TransfersContainer.descriptors, List.filter_append, List.filter_singleton,
      List.map_append]
    by_cases hmulti : s.output.type = .multisignature
    · simp only [hmulti, decide_true, cond_true, List.map_cons, List.map_nil, List.append_assoc,
        List.singleton_append]
      exact hold
    · simp only [hmulti, decide_false, cond_false, List.map_nil, List.append_nil]
      exact hold.sublist ((List.sublist_cons_self _ _).append_left _)

/-- Giving spent transfers their spending block leaves their outputs as they
were. -/
theorem TransfersContainer.StorageInvariant.mapSpent (h : c.StorageInvariant)
    (g : SpentTransactionOutput → SpentTransactionOutput) (hg : ∀ s, (g s).output = s.output) :
    ({ c with spentTransfers := c.spentTransfers.map g }).StorageInvariant where
  unconfirmed := h.unconfirmed
  available := h.available
  spent := by
    intro s hs
    obtain ⟨s', hs', rfl⟩ := List.mem_map.mp hs
    rw [hg]
    exact h.spent s' hs'
  transactions_nodup := h.transactions_nodup
  descriptors_nodup := by
    simp only [TransfersContainer.descriptors, List.map_map, Function.comp_def, hg]
    exact h.descriptors_nodup

end Moves

/-! ### Every call of the API -/

section Operations

open TransfersContainer StateExcept

theorem transactions_updateTransfersVisibility (k : KeyImage) (c : TransfersContainer) :
    (updateTransfersVisibility k c).transactions = c.transactions :=
  congrArg Prod.fst (storageView_updateTransfersVisibility k c)

@[simp] theorem transactions_touchTransfer (t : TransactionOutputInformationEx)
    (change : TransfersContainer → TransfersContainer) (c : TransfersContainer) :
    (touchTransfer t change c).transactions = (change c).transactions := by
  unfold touchTransfer
  split
  · exact transactions_updateTransfersVisibility _ _
  · rfl

/-- The record a transfer is filed as is storable when its type is a valid one. -/
theorem transferInformation_storable (block : TransactionBlockInfo) (tx : TransactionReader)
    {transfer : TransactionOutputInformationIn} (htype : transfer.type ≠ .invalid) :
    (transferInformation block tx transfer).Storable := by
  unfold TransactionOutputInformationEx.Storable transferInformation
  cases h : transfer.type <;> simp_all

/-- Filing an output of a valid type keeps the storage invariant. -/
theorem storageInvariant_addTransactionOutput (block : TransactionBlockInfo)
    (tx : TransactionReader) {transfer : TransactionOutputInformationIn}
    (htype : transfer.type ≠ .invalid) :
    Preserves StorageInvariant (addTransactionOutput block tx transfer) := by
  intro c hc
  have hinfo := transferInformation_storable block tx htype
  rw [run_addTransactionOutput]
  split_ifs with hbad hunconfirmed hexists
  · exact hc
  · dsimp only
    refine StorageInvariant.touch ?_
    exact hc.fileUnconfirmed hinfo
  · exact hc
  · dsimp only
    refine StorageInvariant.touch ?_
    exact hc.fileAvailable hinfo (not_mem_descriptors_of_refusal hexists)

theorem keeps_transactions_addTransactionOutput (block : TransactionBlockInfo)
    (tx : TransactionReader) (transfer : TransactionOutputInformationIn) :
    Keeps (·.transactions) (addTransactionOutput block tx transfer) := by
  intro ts c hc
  rw [run_addTransactionOutput]
  split_ifs <;> simpa using hc

/-- Filing the transfers keeps the invariant and the records of the
transactions. -/
theorem storageInvariant_addTransactionOutputs (block : TransactionBlockInfo)
    (tx : TransactionReader) (ts : List TransactionInformation) :
    ∀ transfers : List TransactionOutputInformationIn,
      (∀ t ∈ transfers, t.type ≠ .invalid) →
      Preserves (fun c => c.StorageInvariant ∧ c.transactions = ts)
        (addTransactionOutputs block tx transfers)
  | [], _ => Preserves.pure _
  | transfer :: rest, htype =>
    Preserves.bind ((storageInvariant_addTransactionOutput block tx
        (htype transfer List.mem_cons_self)).and
      (keeps_transactions_addTransactionOutput block tx transfer ts)) fun _ =>
      Preserves.bind (storageInvariant_addTransactionOutputs block tx ts rest
        fun t ht => htype t (List.mem_cons_of_mem _ ht)) fun _ => Preserves.pure _

/-- An input moves an available transfer to the spent ones and keeps the records
of the transactions. -/
theorem storageInvariant_addTransactionInput (block : TransactionBlockInfo)
    (tx : TransactionReader) (i : Nat) (ts : List TransactionInformation) :
    ∀ input, Preserves (fun c => c.StorageInvariant ∧ c.transactions = ts)
      (addTransactionInput block tx i input)
  | .key input => by
    rintro c ⟨hc, hts⟩
    simp only [addTransactionInput, run_bind, run_get, run_ite, StateExcept.run_throw,
      StateExcept.run_pure]
    split_ifs with hspent
    · exact ⟨hc, hts⟩
    · exact ⟨hc, hts⟩
    · exact ⟨hc, hts⟩
    · split
      · exact ⟨hc, hts⟩
      · rename_i spending hfind
        simp only [run_bind, run_modify, StateExcept.run_pure]
        have hmem := List.mem_of_find?_eq_some hfind
        rw [List.mem_insertionSort, List.mem_filter, decide_eq_true_eq] at hmem
        refine ⟨(hc.spend hmem.1 (fun _ => ?_) block tx i).of_view
          (storageView_updateTransfersVisibility _ _), ?_⟩
        · rw [hmem.2]
          simpa using hspent
        · rw [transactions_updateTransfersVisibility]
          exact hts
  | .multisignature input => by
    rintro c ⟨hc, hts⟩
    simp only [addTransactionInput, run_bind, run_get]
    split
    · rename_i available hfind
      simp only [run_bind, run_modify, StateExcept.run_pure]
      have hdesc : available.descriptor = .multisignature input.amount input.outputIndex := by
        simpa using List.find?_some hfind
      have hmulti : available.type = .multisignature := by
        unfold TransactionOutputInformationEx.descriptor at hdesc
        cases h : available.type <;> simp_all
      exact ⟨hc.spend (List.mem_of_find?_eq_some hfind) (absurd hmulti) block tx i, hts⟩
    · exact ⟨hc, hts⟩
  | .base _ => Preserves.pure _

/-- Spending the inputs of a transaction keeps the storage invariant and the
transaction records. -/
theorem storageInvariant_addTransactionInputs (block : TransactionBlockInfo)
    (tx : TransactionReader) (ts : List TransactionInformation) :
    ∀ i inputs, Preserves (fun c => c.StorageInvariant ∧ c.transactions = ts)
      (addTransactionInputs block tx i inputs)
  | _, [] => Preserves.pure _
  | i, input :: rest =>
    Preserves.bind (storageInvariant_addTransactionInput block tx i ts input) fun _ =>
      Preserves.bind (storageInvariant_addTransactionInputs block tx ts (i + 1) rest) fun _ =>
        Preserves.pure _

/-- The transaction is recorded only when no record has its hash, and filing and
spending its transfers in between keep the records. -/
theorem storageInvariant_addTransaction (block : TransactionBlockInfo) (tx : TransactionReader)
    {transfers : List TransactionOutputInformationIn}
    (htype : ∀ t ∈ transfers, t.type ≠ .invalid) :
    Preserves StorageInvariant (addTransaction block tx transfers) := by
  unfold addTransaction
  dsimp only
  refine Preserves.get_bind fun c hc => ?_
  split
  · exact Preserves.throw_bind _ _ c hc
  · split
    · exact Preserves.throw_bind _ _ c hc
    · rename_i hknown
      refine Preserves.bind_through (fun _ h => h.1)
        (storageInvariant_addTransactionOutputs block tx c.transactions transfers htype)
        (fun _ c₁ h₁ => ?_) c ⟨hc, rfl⟩
      refine Preserves.bind_through (fun _ h => h.1)
        (storageInvariant_addTransactionInputs block tx c.transactions 0 tx.inputs)
        (fun _ c₂ h₂ => ?_) c₁ h₁
      have hheight : ∀ added : Bool, Preserves StorageInvariant
          (if block.height ≠ unconfirmedTransactionHeight then
            (modify fun c => { c with currentHeight := block.height } : ContainerM PUnit) >>=
              fun _ => pure added
          else pure added) := fun _ =>
        Preserves.ite (fun _ => Preserves.bind (Preserves.modify fun c hc => hc.withCurrentHeight _)
          fun _ => Preserves.pure _) fun _ => Preserves.pure _
      split
      · rw [run_bind_of_ok (run_modify _ c₂)]
        refine hheight _ _ (h₂.1.withTransactions ?_)
        have hfresh : tx.transactionHash ∉ c.transactions.map (·.transactionHash) := by
          simpa using hknown
        rw [h₂.2, List.map_append, List.map_singleton]
        exact (List.perm_append_singleton _ _).nodup_iff.mpr
          (List.nodup_cons.mpr ⟨hfresh, hc.transactions_nodup⟩)
      · exact hheight _ c₂ h₂.1

/-- Confirming the transfers of a transaction keeps the storage invariant. -/
theorem storageInvariant_confirmTransfers (block : TransactionBlockInfo) (transactionHash : Hash)
    (globalIndices : List UInt32) :
    ∀ fuel,
      Preserves StorageInvariant (confirmTransfers block transactionHash globalIndices fuel)
  | 0 => Preserves.pure _
  | fuel + 1 => by
    unfold confirmTransfers
    dsimp only
    refine Preserves.get_bind_preserves fun c hc => ?_
    split
    · exact Preserves.pure _
    · rename_i transfer hfind
      -- the two refusals throw before any change
      split
      · exact Preserves.throw_bind _ _
      · split
        · exact Preserves.throw_bind _ _
        · rename_i hexists
          refine preserves_set_touch c ?_
            (storageInvariant_confirmTransfers block transactionHash globalIndices fuel)
          refine StorageInvariant.touch ?_
          exact (hc.dropUnconfirmed transfer).fileAvailable
            (hc.unconfirmed transfer (List.mem_of_find?_eq_some hfind))
            (not_mem_descriptors_of_refusal hexists)

/-- Marking a transaction confirmed keeps the storage invariant. -/
theorem storageInvariant_markTransactionConfirmed (block : TransactionBlockInfo)
    (transactionHash : Hash) (globalIndices : List UInt32) :
    Preserves StorageInvariant (markTransactionConfirmed block transactionHash globalIndices) := by
  let g (s : SpentTransactionOutput) : SpentTransactionOutput :=
    if s.spendingTransactionHash = transactionHash then { s with spendingBlock := block } else s
  have hg : ∀ s, (g s).output = s.output := output_withSpendingBlock block transactionHash
  unfold markTransactionConfirmed
  dsimp only
  split
  · exact Preserves.throw_bind _ _
  · refine Preserves.get_bind_preserves fun c hc => ?_
    split
    · exact Preserves.pure _
    · split
      · exact Preserves.pure _
      · rename_i txInfo _ _
        have hhashes : (c.transactions.map fun t => if t = txInfo then
            { txInfo with blockHeight := block.height, timestamp := block.timestamp }
            else t).map (·.transactionHash) = c.transactions.map (·.transactionHash) := by
          rw [List.map_map]
          apply List.map_congr_left
          intro t _
          by_cases ht : t = txInfo <;> simp [ht]
        refine Preserves.bind
          (Preserves.set (hc.withTransactions (hhashes ▸ hc.transactions_nodup))) fun _ => ?_
        refine Preserves.bind
          (storageInvariant_confirmTransfers block transactionHash globalIndices _) fun _ => ?_
        exact Preserves.bind (Preserves.modify fun c hc => hc.mapSpent g hg) fun _ =>
          Preserves.pure _

/-- Deleting the transfers of a transaction keeps the storage invariant. -/
theorem TransfersContainer.StorageInvariant.deleteTransactionTransfers {c : TransfersContainer}
    (h : c.StorageInvariant) (transactionHash : Hash) :
    (deleteTransactionTransfers transactionHash c).StorageInvariant := by
  unfold Transfers.deleteTransactionTransfers
  dsimp only
  -- each loop runs one of the three passes, the first on a spent transfer it found
  apply eraseEach_invariant _ fun t _ hc _ => by
    refine StorageInvariant.touch ?_
    exact hc.dropAvailable t
  apply eraseEach_invariant _ fun t _ hc _ => by
    refine StorageInvariant.touch ?_
    exact hc.dropUnconfirmed t
  refine eraseEach_invariant _ (fun s _ hc hs => ?_) _ _ h
  refine StorageInvariant.touch ?_
  exact hc.restore hs

theorem TransfersContainer.StorageInvariant.deleteTransaction {c : TransfersContainer}
    (h : c.StorageInvariant)
    (txInfo : TransactionInformation) : (deleteTransaction txInfo c).StorageInvariant := by
  have hc := h.deleteTransactionTransfers txInfo.transactionHash
  exact hc.withTransactions (hc.transactions_nodup.sublist (List.erase_sublist.map _))

theorem storageInvariant_empty : TransfersContainer.empty.StorageInvariant where
  unconfirmed := by simp [TransfersContainer.empty]
  available := by simp [TransfersContainer.empty]
  spent := by simp [TransfersContainer.empty]
  transactions_nodup := List.nodup_nil
  descriptors_nodup := List.nodup_nil

end Operations

/-! ## Every reachable container is saved and loaded back -/

/-- A call that honours the assertion of {lit}`addTransactionOutputs`: the type of
each transfer is that of the transaction's output it names, and an output of a
transaction is a key or a multisignature output. -/
def Operation.Valid : Operation → Prop
  | .addTransaction _ _ transfers => ∀ t ∈ transfers, t.type ≠ .invalid
  | _ => True

instance (op : Operation) : Decidable op.Valid := by
  cases op <;> unfold Operation.Valid <;> infer_instance

/-- One call of the API that honours the assertion. -/
def Operation.applyValid (c : TransfersContainer) (op : {op : Operation // op.Valid}) :
    TransfersContainer :=
  Operation.apply c op.1

/-- Every valid operation keeps the storage invariant. -/
theorem storageInvariant_apply {c : TransfersContainer} (hc : c.StorageInvariant) :
    ∀ op : Operation, op.Valid → (Operation.apply c op).StorageInvariant
  | .addTransaction block tx _, hvalid => storageInvariant_addTransaction block tx hvalid c hc
  | .markTransactionConfirmed block transactionHash globalIndices, _ =>
    storageInvariant_markTransactionConfirmed block transactionHash globalIndices c hc
  | .deleteUnconfirmedTransaction transactionHash, _ =>
    deleteUnconfirmedTransaction_preserves (fun txInfo _ hc => hc.deleteTransaction txInfo)
      transactionHash c hc
  | .detach height, _ =>
    detach_preserves (fun txInfo _ hc => hc.deleteTransaction txInfo)
      (fun _ _ hc => hc.withCurrentHeight _) height c hc
  | .advanceHeight height, _ =>
    advanceHeight_preserves (fun _ _ hc => hc.withCurrentHeight _) height c hc

/-- Every container reachable from an empty one through calls that honour the
assertion is storable. -/
theorem storable_of_reachable {c : TransfersContainer}
    (hreach : Machine.Reachable Operation.applyValid TransfersContainer.empty c) : c.Storable :=
  (Machine.Reachable.invariant _ storageInvariant_empty
    (fun _ op hs => storageInvariant_apply hs op.1 op.2) hreach).storable

/-- Such a container, with counts that fit in a {lit}`size_t`, is saved and loaded
back equal in every field: its height, its records, and its unconfirmed,
available and spent transfers in their order, so every query reads the same. -/
theorem load_save_of_reachable {c : TransfersContainer}
    (hreach : Machine.Reachable Operation.applyValid TransfersContainer.empty c) (hfits : c.Fits) :
    ∃ bytes, (save c).run [] = .ok ((), bytes) ∧ load.run bytes = .ok (c, []) :=
  ⟨containerBytes c, load_save (storable_of_reachable hreach) hfits⟩

/-- A container reached by one call: a confirmed transaction with a key and a
multisignature output. -/
theorem load_save_of_reachable_two_outputs :
    let tx : TransactionReader := ⟨nullHash, 0, default, 0, 0, [1], none, []⟩
    let op : Operation := .addTransaction ⟨1, 0, 0⟩ tx
      [⟨.key, 1, 0, 0, default⟩, ⟨.multisignature, 2, 1, 1, default⟩]
    let c := [(⟨op, by decide⟩ : {op : Operation // op.Valid})].foldl Operation.applyValid
      TransfersContainer.empty
    c.Fits ∧ ∃ bytes, (save c).run [] = .ok ((), bytes) ∧ load.run bytes = .ok (c, []) :=
  ⟨⟨by decide, by decide, by decide, by decide, by decide⟩,
    load_save_of_reachable (Machine.Reachable.init.foldl _)
      ⟨by decide, by decide, by decide, by decide, by decide⟩⟩

end Transfers

end CryptoNote

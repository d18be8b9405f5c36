import CryptoNote.Stream.Primitives

/-!
# The stream codec of the block store and the pool file

{lit}`stream/transaction.cpp`, {lit}`stream/block.cpp`,
{lit}`stream/cryptonote.h` and {lit}`stream/crypto.h`: a hand-written
{lit}`operator<<` on {lit}`Writer` and {lit}`operator>>` on {lit}`Reader` for
every chain type.  {lit}`BlockAccessor` stores block entries with it and the
transaction pool saves its records with it.  Integers are varints, keys, hashes
and signatures are raw, vectors are a varint count followed by their elements.

A reader updates its target in place: the model's readers take the current
value and return the new one, so a field that {lit}`operator>>` does not read
keeps the value it had.

Two places where the two directions disagree are modelled as the source has
them: {lit}`operator<<` of a variant writes its {lit}`uint8_t` tag with
{lit}`o << tag`, a varint, while {lit}`operator>>` reads it with
{lit}`i.read(&tag, 1)`, one raw byte, which differs for the tag
{lit}`BASE = 0xFF`; and the block header codec neither writes nor reads the
timestamp.

Main results:

- Theorem {lit}`blockEntry_stream_round_trip_fails`: an entry whose coinbase
  input names block 0 is read back naming block 1, with a byte left over, and
  an entry with a timestamp is read back with the timestamp of the target.
-/

namespace CryptoNote

open ByteCodec

/-- {lit}`tag_getter_t` on inputs: {lit}`BASE`, {lit}`KEY` and {lit}`SIGN` of
{lit}`ioput_t`. -/
def TransactionInput.tagGetter : TransactionInput → UInt8
  | .base _ => 0xFF
  | .key _ => 0x2
  | .multisignature _ => 0x3

/-- {lit}`tag_getter_t` on output targets. -/
def TransactionOutputTarget.tagGetter : TransactionOutputTarget → UInt8
  | .key _ => 0x2
  | .multisignature _ => 0x3

/-! ## Writer -/

namespace Writer

/-- {lit}`operator<<` on a {lit}`std::vector`: the size, then each element. -/
def vector {α : Type} (item : α → ByteStream Unit) (v : List α) : ByteStream Unit := do
  writeVarint (UInt64.ofNat v.length)
  v.forM item

/-- {lit}`operator<<` on a {lit}`base_input_t`. -/
def baseInput (v : BaseInput) : ByteStream Unit :=
  writeVarint v.blockIndex.toUInt64

/-- {lit}`operator<<` on a {lit}`key_input_t`. -/
def keyInput (v : KeyInput) : ByteStream Unit := do
  writeVarint v.amount
  vector (fun i => writeVarint i.toUInt64) v.outputIndexes
  writePod v.keyImage

/-- {lit}`operator<<` on a {lit}`multi_signature_input_t`. -/
def multiSignatureInput (v : MultiSignatureInput) : ByteStream Unit := do
  writeVarint v.amount
  writeVarint v.signatureCount.toUInt64
  writeVarint v.outputIndex.toUInt64

/-- {lit}`operator<<` on a {lit}`transaction_input_t`: the tag as a varint, then
the alternative held. -/
def transactionInput (v : TransactionInput) : ByteStream Unit := do
  -- {lit}`o << tag` on a {lit}`uint8_t` is a varint
  writeVarint v.tagGetter.toUInt64
  match v with
  | .base input => baseInput input
  | .key input => keyInput input
  | .multisignature input => multiSignatureInput input

/-- {lit}`operator<<` on a {lit}`key_output_t`. -/
def keyOutput (v : KeyOutput) : ByteStream Unit :=
  writePod v.key

/-- {lit}`operator<<` on a {lit}`multi_signature_output_t`. -/
def multiSignatureOutput (v : MultiSignatureOutput) : ByteStream Unit := do
  vector writePod v.keys
  writeVarint v.requiredSignatureCount.toUInt64

/-- {lit}`operator<<` on a {lit}`transaction_output_target_t`: the tag as a varint,
then the alternative held. -/
def transactionOutputTarget (v : TransactionOutputTarget) : ByteStream Unit := do
  writeVarint v.tagGetter.toUInt64
  match v with
  | .key output => keyOutput output
  | .multisignature output => multiSignatureOutput output

/-- {lit}`operator<<` on a {lit}`transaction_output_t`. -/
def transactionOutput (v : TransactionOutput) : ByteStream Unit := do
  writeVarint v.amount
  transactionOutputTarget v.target

/-- {lit}`operator<<` on a {lit}`transaction_prefix_t`. -/
def transactionPrefix (v : TransactionPrefix) : ByteStream Unit := do
  writeVarint v.version.toUInt64
  writeVarint v.unlockTime
  vector transactionInput v.inputs
  vector transactionOutput v.outputs
  vector (fun b => writeVarint b.toUInt64) v.extra

/-- The loop over the inputs in {lit}`operator<<(Writer&, const transaction_t&)`;
unlike the consensus serializer it does not compare a signature list with the
count its input implies. -/
def signatures (empty : Bool) :
    List TransactionInput → List (List Signature) → ByteStream Unit
  | [], _ => pure ()
  | input :: inputs, signatures' =>
    if empty then
      if input.signatureCount = 0 then signatures empty inputs signatures'
      else throw "Serialization error: signatures are not expected"
    else
      match signatures' with
      -- the size check before the loop keeps the two vectors of one length
      | [] => throw "Serialization error: unexpected signatures size"
      | sigs :: rest => do
        sigs.forM writePod
        signatures empty inputs rest

/-- {lit}`operator<<` on a {lit}`transaction_t`: the prefix, then the signatures. -/
def transaction (v : Transaction) : ByteStream Unit := do
  transactionPrefix v.toTransactionPrefix
  let empty := v.signatures.isEmpty
  let equalSize := v.inputs.length == v.signatures.length
  if !empty && !equalSize then
    throw "Serialization error: unexpected signatures size"
  signatures empty v.inputs v.signatures

/-- {lit}`operator<<(Writer&, const block_header_t&)`: the timestamp is not
written. -/
def blockHeader (v : BlockHeader) : ByteStream Unit := do
  writeVarint v.majorVersion.toUInt64
  writeVarint v.minorVersion.toUInt64
  writePod v.previousBlockHash
  writeUInt32Raw v.nonce

/-- {lit}`operator<<` on a {lit}`block_t`. -/
def block (v : Block) : ByteStream Unit := do
  blockHeader v.toBlockHeader
  transaction v.baseTransaction
  vector writePod v.transactionHashes

/-- {lit}`operator<<` on a {lit}`transaction_entry_t`. -/
def transactionEntry (v : TransactionEntry) : ByteStream Unit := do
  transaction v.tx
  vector (fun i => writeVarint i.toUInt64) v.globalOutputIndexes

/-- {lit}`operator<<` on a {lit}`block_entry_t`. -/
def blockEntry (v : BlockEntry) : ByteStream Unit := do
  block v.bl
  writeVarint v.height.toUInt64
  writeVarint v.blockCumulativeSize
  writeVarint v.cumulativeDifficulty
  writeVarint v.alreadyGeneratedCoins
  vector transactionEntry v.transactions

/-- {lit}`operator<<` on a {lit}`transaction_details_t`. -/
def transactionDetails (v : TransactionDetails) : ByteStream Unit := do
  writePod v.id
  writeVarint v.blobSize
  writeVarint v.fee
  transaction v.tx
  writeVarint v.maxUsedBlock.height.toUInt64
  writePod v.maxUsedBlock.id
  writeVarint v.lastFailedBlock.height.toUInt64
  writePod v.lastFailedBlock.id
  writeBool v.keptByBlock
  writeVarint v.receiveTime

end Writer

/-! ## Reader -/

namespace Reader

/-- {lit}`operator>>` on a {lit}`std::vector`: the size, a {lit}`resize`, then
each element in place. -/
def vector {α : Type} [Inhabited α] (item : α → ByteStream α) (v : List α) :
    ByteStream (List α) := do
  let size ← readVarint 64
  (resize v size).mapM item

/-- {lit}`operator>>` on a {lit}`base_input_t`. -/
def baseInput (v : BaseInput) : ByteStream BaseInput := do
  let blockIndex ← readInteger 32 UInt32.ofNat v.blockIndex
  pure { v with blockIndex }

/-- {lit}`operator>>` on a {lit}`key_input_t`. -/
def keyInput (v : KeyInput) : ByteStream KeyInput := do
  let amount ← readInteger 64 UInt64.ofNat v.amount
  let outputIndexes ← vector (readInteger 32 UInt32.ofNat) v.outputIndexes
  let keyImage ← readPod 32
  pure { v with amount, outputIndexes, keyImage }

/-- {lit}`operator>>` on a {lit}`multi_signature_input_t`. -/
def multiSignatureInput (v : MultiSignatureInput) : ByteStream MultiSignatureInput := do
  let amount ← readInteger 64 UInt64.ofNat v.amount
  let signatureCount ← readInteger 8 UInt8.ofNat v.signatureCount
  let outputIndex ← readInteger 32 UInt32.ofNat v.outputIndex
  pure { v with amount, signatureCount, outputIndex }

/-- {lit}`operator>>(Reader&, transaction_input_t&)`: the tag is one raw byte;
the alternative it names is read into a fresh value. -/
def transactionInput (_v : TransactionInput) : ByteStream TransactionInput := do
  let tag ← readByte
  if tag = 0xFF then do
    let key ← baseInput default
    pure (.base key)
  else if tag = 0x2 then do
    let key ← keyInput default
    pure (.key key)
  else if tag = 0x3 then do
    let key ← multiSignatureInput default
    pure (.multisignature key)
  else throw "Unknown variant tag"

/-- {lit}`operator>>` on a {lit}`key_output_t`. -/
def keyOutput (v : KeyOutput) : ByteStream KeyOutput := do
  let key ← readPod 32
  pure { v with key }

/-- {lit}`operator>>` on a {lit}`multi_signature_output_t`. -/
def multiSignatureOutput (v : MultiSignatureOutput) : ByteStream MultiSignatureOutput := do
  let keys ← vector (fun _ => readPod 32) v.keys
  let requiredSignatureCount ← readInteger 8 UInt8.ofNat v.requiredSignatureCount
  pure { v with keys, requiredSignatureCount }

/-- {lit}`operator>>` on a {lit}`transaction_output_target_t`: the tag is one raw
byte; the alternative it names is read into a fresh value. -/
def transactionOutputTarget (_v : TransactionOutputTarget) :
    ByteStream TransactionOutputTarget := do
  let tag ← readByte
  if tag = 0x2 then do
    let key ← keyOutput default
    pure (.key key)
  else if tag = 0x3 then do
    let key ← multiSignatureOutput default
    pure (.multisignature key)
  else throw "Unknown variant tag"

/-- {lit}`operator>>` on a {lit}`transaction_output_t`. -/
def transactionOutput (v : TransactionOutput) : ByteStream TransactionOutput := do
  let amount ← readInteger 64 UInt64.ofNat v.amount
  let target ← transactionOutputTarget v.target
  pure { v with amount, target }

/-- {lit}`operator>>` on a {lit}`transaction_prefix_t`. -/
def transactionPrefix (v : TransactionPrefix) : ByteStream TransactionPrefix := do
  let version ← readInteger 8 UInt8.ofNat v.version
  let unlockTime ← readInteger 64 UInt64.ofNat v.unlockTime
  let inputs ← vector transactionInput v.inputs
  let outputs ← vector transactionOutput v.outputs
  let extra ← vector (readInteger 8 UInt8.ofNat) v.extra
  pure { v with version, unlockTime, inputs, outputs, extra }

/-- The loop over the inputs in {lit}`operator>>(Reader&, transaction_t&)`: each
input's signatures are read into a fresh vector of the count it implies. -/
def signatures (empty : Bool) :
    List TransactionInput → List (List Signature) → ByteStream (List (List Signature))
  | [], signatures' => pure signatures'
  | input :: inputs, signatures' =>
    if empty then
      if input.signatureCount = 0 then signatures empty inputs signatures'
      else throw "Serialization error: signatures are not expected"
    else
      match signatures' with
      | [] => throw "Serialization error: unexpected signatures size"
      | _ :: rest => do
        let sigs ← (List.replicate input.signatureCount (default : Signature)).mapM fun _ =>
          readPod 64
        let rest ← signatures empty inputs rest
        pure (sigs :: rest)

/-- {lit}`operator>>` on a {lit}`transaction_t`: the prefix, then the signatures,
resized to the inputs read. -/
def transaction (v : Transaction) : ByteStream Transaction := do
  let txP ← transactionPrefix v.toTransactionPrefix
  let size := txP.inputs.length
  let signatures' := resize v.signatures size
  let empty := signatures'.isEmpty
  let equalSize := txP.inputs.length == signatures'.length
  if !empty && !equalSize then
    throw "Serialization error: unexpected signatures size"
  let signatures' ← signatures empty txP.inputs signatures'
  pure { txP with signatures := signatures' }

/-- {lit}`operator>>(Reader&, block_header_t&)`: the timestamp is not read and
keeps the value it had. -/
def blockHeader (v : BlockHeader) : ByteStream BlockHeader := do
  let majorVersion ← readInteger 8 UInt8.ofNat v.majorVersion
  let minorVersion ← readInteger 8 UInt8.ofNat v.minorVersion
  let previousBlockHash ← readPod 32
  let nonce ← readUInt32Raw
  pure { v with majorVersion, minorVersion, previousBlockHash, nonce }

/-- {lit}`operator>>` on a {lit}`block_t`. -/
def block (v : Block) : ByteStream Block := do
  let header ← blockHeader v.toBlockHeader
  let baseTransaction ← transaction v.baseTransaction
  let transactionHashes ← vector (fun _ => readPod 32) v.transactionHashes
  pure { v with toBlockHeader := header, baseTransaction, transactionHashes }

/-- {lit}`operator>>` on a {lit}`transaction_entry_t`. -/
def transactionEntry (v : TransactionEntry) : ByteStream TransactionEntry := do
  let tx ← transaction v.tx
  let globalOutputIndexes ← vector (readInteger 32 UInt32.ofNat) v.globalOutputIndexes
  pure { v with tx, globalOutputIndexes }

/-- {lit}`operator>>` on a {lit}`block_entry_t`. -/
def blockEntry (v : BlockEntry) : ByteStream BlockEntry := do
  let bl ← block v.bl
  let height ← readInteger 32 UInt32.ofNat v.height
  let blockCumulativeSize ← readInteger 64 UInt64.ofNat v.blockCumulativeSize
  let cumulativeDifficulty ← readInteger 64 UInt64.ofNat v.cumulativeDifficulty
  let alreadyGeneratedCoins ← readInteger 64 UInt64.ofNat v.alreadyGeneratedCoins
  let transactions ← vector transactionEntry v.transactions
  pure
    { v with
      bl, height, blockCumulativeSize, cumulativeDifficulty, alreadyGeneratedCoins, transactions }

/-- {lit}`operator>>` on a {lit}`transaction_details_t`. -/
def transactionDetails (v : TransactionDetails) : ByteStream TransactionDetails := do
  let id ← readPod 32
  let blobSize ← readInteger 64 UInt64.ofNat v.blobSize
  let fee ← readInteger 64 UInt64.ofNat v.fee
  let tx ← transaction v.tx
  let maxUsedBlockHeight ← readInteger 32 UInt32.ofNat v.maxUsedBlock.height
  let maxUsedBlockId ← readPod 32
  let lastFailedBlockHeight ← readInteger 32 UInt32.ofNat v.lastFailedBlock.height
  let lastFailedBlockId ← readPod 32
  let keptByBlock ← readBool
  -- {lit}`reinterpret_cast<uint64_t&>(v.receiveTime)`
  let receiveTime ← readInteger 64 UInt64.ofNat v.receiveTime
  pure
    { v with
      id, blobSize, fee, tx, keptByBlock, receiveTime
      maxUsedBlock := { height := maxUsedBlockHeight, id := maxUsedBlockId }
      lastFailedBlock := { height := lastFailedBlockHeight, id := lastFailedBlockId } }

end Reader

/-! ## What a reader keeps of its target

{lit}`BlockAccessor::operator[]` reads into a default-initialised
{lit}`T tempItem`, whose plain fields hold indeterminate values.  Every reader
overwrites every field except the header timestamp: a variant is read into a
fresh alternative, a vector is resized and each element read over, and the
signatures of a transaction are read into fresh vectors.
-/

namespace Reader

theorem vector_target {α : Type} [Inhabited α] (item : α → ByteStream α)
    (hitem : ∀ a b, item a = item b) (v w : List α) : vector item v = vector item w := by
  unfold vector
  congr 1
  funext size
  exact mapM_eq_of_length hitem (by simp)

theorem keyInput_target (v w : KeyInput) : keyInput v = keyInput w := by
  unfold keyInput
  rw [vector_target _ (fun _ _ => rfl) v.outputIndexes w.outputIndexes]
  rfl

theorem multiSignatureOutput_target (v w : MultiSignatureOutput) :
    multiSignatureOutput v = multiSignatureOutput w := by
  unfold multiSignatureOutput
  rw [vector_target _ (fun _ _ => rfl) v.keys w.keys]
  rfl

/-- The stream reader of a transaction prefix does not read the value it is given
to fill. -/
theorem transactionPrefix_target (v w : TransactionPrefix) :
    transactionPrefix v = transactionPrefix w := by
  unfold transactionPrefix
  rw [vector_target _ (fun _ _ => rfl) v.inputs w.inputs,
    vector_target _ (fun _ _ => rfl) v.outputs w.outputs,
    vector_target _ (fun _ _ => rfl) v.extra w.extra]
  rfl

/-- Past a nonempty list of inputs, the signature loop reads fresh vectors and
only the number of old ones counts. -/
theorem signatures_target (inputs : List TransactionInput) :
    ∀ sigs sigs' : List (List Signature), sigs.length = inputs.length →
      sigs'.length = inputs.length → signatures false inputs sigs = signatures false inputs sigs' := by
  induction inputs with
  | nil =>
    intro sigs sigs' h h'
    rw [List.length_eq_zero_iff.mp h, List.length_eq_zero_iff.mp h']
  | cons input inputs ih =>
    rintro (_ | ⟨_, sigs⟩) (_ | ⟨_, sigs'⟩) h h'
    · simp at h
    · simp at h
    · simp at h'
    · simp only [signatures, Bool.false_eq_true, if_false,
        ih sigs sigs' (Nat.succ.inj h) (Nat.succ.inj h')]

/-- The stream reader of a transaction does not read the value it is given to fill. -/
theorem transaction_target (v w : Transaction) : transaction v = transaction w := by
  unfold transaction
  rw [transactionPrefix_target v.toTransactionPrefix w.toTransactionPrefix]
  congr 1
  funext txP
  rcases Nat.eq_zero_or_pos txP.inputs.length with h | h
  · simp [h, resize]
  · have nonempty : ∀ sigs : List (List Signature),
        (resize sigs txP.inputs.length).isEmpty = false := fun sigs => by
      simp [List.isEmpty_eq_false_iff, ← List.length_pos_iff, h]
    simp only [nonempty, length_resize, signatures_target txP.inputs (resize v.signatures _)
      (resize w.signatures _) (length_resize _ _) (length_resize _ _)]

/-- The header reader leaves the timestamp of its target where it was. -/
theorem blockHeader_target (v w : BlockHeader) :
    blockHeader v = (fun h => { h with timestamp := v.timestamp }) <$> blockHeader w := by
  simp only [blockHeader, map_bind, map_pure]
  rfl

theorem block_target (v w : Block) :
    block v = (fun b => { b with timestamp := v.timestamp }) <$> block w := by
  simp only [block, blockHeader_target v.toBlockHeader w.toBlockHeader,
    transaction_target v.baseTransaction w.baseTransaction,
    vector_target (fun _ => readPod 32) (fun _ _ => rfl) v.transactionHashes w.transactionHashes,
    map_bind, bind_map_left, map_pure]

theorem transactionEntry_target (v w : TransactionEntry) :
    transactionEntry v = transactionEntry w := by
  unfold transactionEntry
  rw [transaction_target v.tx w.tx,
    vector_target _ (fun _ _ => rfl) v.globalOutputIndexes w.globalOutputIndexes]

/-- A stored entry read over any target is the entry read over the default one,
with the timestamp of the target. -/
theorem blockEntry_target (v w : BlockEntry) :
    blockEntry v =
      (fun e => { e with bl.timestamp := v.bl.timestamp }) <$> blockEntry w := by
  simp only [blockEntry, block_target v.bl w.bl,
    vector_target _ transactionEntry_target v.transactions w.transactions,
    map_bind, bind_map_left, map_pure]
  rfl

theorem transactionDetails_target (v w : TransactionDetails) :
    transactionDetails v = transactionDetails w := by
  unfold transactionDetails
  rw [transaction_target v.tx w.tx]
  rfl

end Reader

/-! ## A coinbase entry does not survive the round trip -/

/-- The smallest stored block with a coinbase: its one input names block 0 and
every other field is zero or empty. -/
def coinbaseEntry : BlockEntry :=
  { (default : BlockEntry) with
    bl :=
      { (default : Block) with
        baseTransaction :=
          { (default : Transaction) with inputs := [.base ⟨0⟩], signatures := [[]] } } }

/-- The bytes the writer makes of {lit}`coinbaseEntry`: the tag {lit}`0xFF`
goes out as the varint {lit}`[0xFF, 0x01]`. -/
def coinbaseEntryBytes : Bytes :=
  List.replicate 40 0 ++ [1, 0xFF, 1] ++ List.replicate 9 0

theorem blockEntry_write_coinbaseEntry :
    (Writer.blockEntry coinbaseEntry).run [] = .ok ((), coinbaseEntryBytes) := by
  decide +kernel

/-- The stream reader of a block entry, fed what the writer wrote for the coinbase
entry, reads a coinbase input of another height and leaves a byte unread. -/
theorem blockEntry_stream_round_trip_fails (tempItem : BlockEntry) :
    ∃ bytes, (Writer.blockEntry coinbaseEntry).run [] = .ok ((), bytes) ∧
      ∃ e, (Reader.blockEntry tempItem).run bytes = .ok (e, [0]) ∧
        e.bl.baseTransaction.inputs = [.base ⟨1⟩] := by
  refine ⟨coinbaseEntryBytes, blockEntry_write_coinbaseEntry, ?_⟩
  -- the reader takes the tag as one byte and {lit}`0x01` as the block index
  obtain ⟨e, hread, hinputs⟩ : ∃ e, (Reader.blockEntry default).run coinbaseEntryBytes =
      .ok (e, [0]) ∧ e.bl.baseTransaction.inputs = [.base ⟨1⟩] := ⟨_, rfl, rfl⟩
  rw [Reader.blockEntry_target tempItem default, StateT.run_map, hread]
  exact ⟨_, rfl, hinputs⟩

end CryptoNote

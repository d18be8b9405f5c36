import CryptoNote.Serialization.ISerializer

/-!
# The serialize functions of the consensus types

{lit}`cryptonote/core/transaction/serializer/basics.cpp`: one
{lit}`serialize` per transaction and block type, written once for both
directions.  Variants carry a one-byte tag copied raw with {lit}`binary`
({lit}`BinaryVariantTagGetter` on output, {lit}`getVariantValue` on input);
integers are varints; keys, hashes and signatures are raw; the extra field is a
length-prefixed string; the signatures of a transaction are not counted but
implied by its inputs.  {lit}`parseAndValidateTransactionFromBinaryArray`
({lit}`CryptoNoteFormatUtils.cpp`) parses a transaction and hashes the blob it
came from.

Each function takes the current value and returns the new one, as the C++
functions update their argument in place; an exception is an error of the
stream.
-/

namespace CryptoNote

open ByteCodec

/-! ## Inputs -/

/-- {lit}`serialize(base_input_t&)`: the block index. -/
def BaseInput.serialize (serializer : ISerializer) (gen : BaseInput) : ByteStream BaseInput := do
  let blockIndex ← serializer.uint32 gen.blockIndex
  pure { blockIndex }

/-- {lit}`serializeVarintVector`: a vector of varints, laid out as
{lit}`serializeContainer` lays out any vector. -/
def serializeVarintVector (serializer : ISerializer) (vector : List UInt32) :
    ByteStream (List UInt32) :=
  serializeContainer serializer serializer.uint32 vector

/-- {lit}`serialize(key_input_t&)`: the amount, the output indexes and the key
image. -/
def KeyInput.serialize (serializer : ISerializer) (key : KeyInput) : ByteStream KeyInput := do
  let amount ← serializer.uint64 key.amount
  let outputIndexes ← serializeVarintVector serializer key.outputIndexes
  let keyImage ← serializePod serializer key.keyImage
  pure { amount, outputIndexes, keyImage }

/-- {lit}`serialize(multi_signature_input_t&)`: the amount, the signature count and
the output index. -/
def MultiSignatureInput.serialize (serializer : ISerializer) (multisignature : MultiSignatureInput) :
    ByteStream MultiSignatureInput := do
  let amount ← serializer.uint64 multisignature.amount
  let signatureCount ← serializer.uint8 multisignature.signatureCount
  let outputIndex ← serializer.uint32 multisignature.outputIndex
  pure { amount, signatureCount, outputIndex }

/-- {lit}`BinaryVariantTagGetter` on inputs. -/
def TransactionInput.binaryVariantTag : TransactionInput → UInt8
  | .base _ => 0xff
  | .key _ => 0x2
  | .multisignature _ => 0x3

/-- {lit}`getVariantValue` for {lit}`transaction_input_t`: read a fresh value
of the alternative the tag names. -/
def TransactionInput.getVariantValue (serializer : ISerializer) (tag : UInt8) :
    ByteStream TransactionInput :=
  if tag = 0xff then do
    let v ← BaseInput.serialize serializer default
    pure (.base v)
  else if tag = 0x2 then do
    let v ← KeyInput.serialize serializer default
    pure (.key v)
  else if tag = 0x3 then do
    let v ← MultiSignatureInput.serialize serializer default
    pure (.multisignature v)
  else throw "Unknown variant tag"

/-- {lit}`serialize(transaction_input_t&)`: the tag, then the alternative it names. -/
def TransactionInput.serialize (serializer : ISerializer) (input : TransactionInput) :
    ByteStream TransactionInput :=
  match serializer.type with
  | .OUTPUT => do
    let _ ← serializer.binary 1 (Pod.ofUInt8 input.binaryVariantTag)
    -- {lit}`VariantSerializer`: the alternative held, in place
    match input with
    | .base v => do
      let v ← BaseInput.serialize serializer v
      pure (.base v)
    | .key v => do
      let v ← KeyInput.serialize serializer v
      pure (.key v)
    | .multisignature v => do
      let v ← MultiSignatureInput.serialize serializer v
      pure (.multisignature v)
  | .INPUT => do
    let tag ← serializer.binary 1 default
    getVariantValue serializer tag.toUInt8

/-! ## Outputs -/

/-- {lit}`serialize(key_output_t&)`: the key. -/
def KeyOutput.serialize (serializer : ISerializer) (key : KeyOutput) : ByteStream KeyOutput := do
  let key ← serializePod serializer key.key
  pure { key }

/-- {lit}`serialize(multi_signature_output_t&)`: the keys and the required
signature count. -/
def MultiSignatureOutput.serialize (serializer : ISerializer)
    (multisignature : MultiSignatureOutput) : ByteStream MultiSignatureOutput := do
  let keys ← serializeContainer serializer (serializePod serializer) multisignature.keys
  let requiredSignatureCount ← serializer.uint8 multisignature.requiredSignatureCount
  pure { keys, requiredSignatureCount }

/-- {lit}`BinaryVariantTagGetter` on output targets. -/
def TransactionOutputTarget.binaryVariantTag : TransactionOutputTarget → UInt8
  | .key _ => 0x2
  | .multisignature _ => 0x3

/-- {lit}`getVariantValue` for {lit}`transaction_output_target_t`. -/
def TransactionOutputTarget.getVariantValue (serializer : ISerializer) (tag : UInt8) :
    ByteStream TransactionOutputTarget :=
  if tag = 0x2 then do
    let v ← KeyOutput.serialize serializer default
    pure (.key v)
  else if tag = 0x3 then do
    let v ← MultiSignatureOutput.serialize serializer default
    pure (.multisignature v)
  else throw "Unknown variant tag"

/-- {lit}`serialize(transaction_output_target_t&)`: the tag, then the alternative it
names. -/
def TransactionOutputTarget.serialize (serializer : ISerializer)
    (output : TransactionOutputTarget) : ByteStream TransactionOutputTarget :=
  match serializer.type with
  | .OUTPUT => do
    let _ ← serializer.binary 1 (Pod.ofUInt8 output.binaryVariantTag)
    match output with
    | .key v => do
      let v ← KeyOutput.serialize serializer v
      pure (.key v)
    | .multisignature v => do
      let v ← MultiSignatureOutput.serialize serializer v
      pure (.multisignature v)
  | .INPUT => do
    let tag ← serializer.binary 1 default
    getVariantValue serializer tag.toUInt8

/-- {lit}`serialize(transaction_output_t&)`: the amount and the target. -/
def TransactionOutput.serialize (serializer : ISerializer) (output : TransactionOutput) :
    ByteStream TransactionOutput := do
  let amount ← serializer.uint64 output.amount
  let target ← TransactionOutputTarget.serialize serializer output.target
  pure { amount, target }

/-! ## Transactions -/

/-- {lit}`serialize(transaction_prefix_t&)`: the version, the unlock time, the
inputs, the outputs and the extra. -/
def TransactionPrefix.serialize (serializer : ISerializer) (txP : TransactionPrefix) :
    ByteStream TransactionPrefix := do
  let version ← serializer.uint8 txP.version
  let unlockTime ← serializer.uint64 txP.unlockTime
  let inputs ← serializeContainer serializer (TransactionInput.serialize serializer) txP.inputs
  let outputs ← serializeContainer serializer (TransactionOutput.serialize serializer) txP.outputs
  let extra ← serializeAsBinary serializer txP.extra
  pure { version, unlockTime, inputs, outputs, extra }

/-- The loop over the inputs in {lit}`serialize(transaction_t&)`: with no
signatures expected every input must need none; otherwise the signatures of
each input are written after checking their count, or read as a fresh vector of
the count the input implies. -/
def Transaction.serializeSignatures (serializer : ISerializer) (signaturesNotExpected : Bool) :
    List TransactionInput → List (List Signature) → ByteStream (List (List Signature))
  | [], signatures => pure signatures
  | input :: inputs, signatures =>
    let signatureSize := input.signatureCount
    if signaturesNotExpected then
      if signatureSize = 0 then serializeSignatures serializer signaturesNotExpected inputs signatures
      else throw "Serialization error: signatures are not expected"
    else
      match signatures with
      -- the size check before the loop keeps the two vectors of one length
      | [] => throw "Serialization error: unexpected signatures size"
      | sigs :: rest => do
        let sigs ← match serializer.type with
          | .OUTPUT =>
            if signatureSize ≠ sigs.length then
              throw "Serialization error: unexpected signatures size"
            else sigs.mapM (serializePod serializer)
          | .INPUT => (List.replicate signatureSize default).mapM (serializePod serializer)
        let rest ← serializeSignatures serializer signaturesNotExpected inputs rest
        pure (sigs :: rest)

/-- {lit}`serialize(transaction_t&)`: the prefix, then the signatures, whose count
the inputs imply; reading resizes them to the inputs read. -/
def Transaction.serialize (serializer : ISerializer) (tx : Transaction) :
    ByteStream Transaction := do
  let txP ← TransactionPrefix.serialize serializer tx.toTransactionPrefix
  let sigSize := txP.inputs.length
  let signatures := if serializer.type = .INPUT then resize tx.signatures sigSize else tx.signatures
  let signaturesNotExpected := signatures.isEmpty
  if !signaturesNotExpected && txP.inputs.length != signatures.length then
    throw "Serialization error: unexpected signatures size"
  let signatures ← serializeSignatures serializer signaturesNotExpected txP.inputs signatures
  pure { txP with signatures }

/-! ## Blocks -/

/-- {lit}`serializeBlockHeader`: the nonce is copied raw. -/
def serializeBlockHeader (serializer : ISerializer) (header : BlockHeader) :
    ByteStream BlockHeader := do
  let majorVersion ← serializer.uint8 header.majorVersion
  let minorVersion ← serializer.uint8 header.minorVersion
  let timestamp ← serializer.uint64 header.timestamp
  let previousBlockHash ← serializePod serializer header.previousBlockHash
  let nonce ← serializer.binary 4 (Pod.ofUInt32 header.nonce)
  pure { majorVersion, minorVersion, nonce := nonce.toUInt32, timestamp, previousBlockHash }

/-- {lit}`serialize(block_t&)`: the header, the coinbase and the transaction hashes. -/
def Block.serialize (serializer : ISerializer) (block : Block) : ByteStream Block := do
  let header ← serializeBlockHeader serializer block.toBlockHeader
  let baseTransaction ← Transaction.serialize serializer block.baseTransaction
  let transactionHashes ← serializeContainer serializer (serializePod serializer)
    block.transactionHashes
  pure { header with baseTransaction, transactionHashes }

/-! ## Parsing a transaction blob -/

/-- {lit}`parseAndValidateTransactionFromBinaryArray`: the transaction read
from the blob, the {lit}`cn_fast_hash` of the blob, and the object hash of the
transaction's prefix. -/
def parseAndValidateTransactionFromBinaryArray (cnFastHash : Bytes → Hash) (txBlob : Bytes)
    (tx : Transaction) : Option (Transaction × Hash × Hash) :=
  match BinaryArray.from Transaction.serialize tx txBlob with
  | none => none
  | some tx =>
    some (tx, cnFastHash txBlob,
      BinaryArray.objectHash cnFastHash TransactionPrefix.serialize tx.toTransactionPrefix)

end CryptoNote

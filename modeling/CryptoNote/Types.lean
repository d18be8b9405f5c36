import Mathlib.Data.List.Forall2
import Mathlib.Algebra.Group.Nat.Defs

/-!
# CryptoNote data model

The value types of {lit}`cryptonote/types.h`: transaction inputs and outputs,
transactions, blocks, the stored block entries of the chain and the pool's
transaction records.  Fixed-size cryptographic values (hashes, key images,
public keys, signatures) are byte strings of their exact size; nothing in the
codecs or the chain logic looks inside them.

Integer fields keep their C++ widths as {lit}`UInt8` to {lit}`UInt64`;
{lit}`std::vector` is a list.  A C++ vector never holds {lit}`2 ^ 64` elements,
so statements about the codecs carry that bound on the lists they serialize
({lit}`FitsSizeT`).

Main results:

- Definition {lit}`TransactionInput.signatureCount`: how many signatures an
  input carries, which the codecs use instead of storing a count.
- Definition {lit}`Transaction.SignaturesShaped`: one signature list per input,
  each of the length its input asks for.
-/

namespace CryptoNote

/-- A plain-old-data value of exactly {lit}`n` bytes, as the codecs copy it. -/
@[ext] structure Pod (n : Nat) where
  bytes : List UInt8
  length_eq : bytes.length = n
deriving DecidableEq, Repr

/-- The all-zero value, which is what a value-initialised POD holds. -/
instance (n : Nat) : Inhabited (Pod n) :=
  ⟨⟨List.replicate n 0, List.length_replicate⟩⟩

/-- {lit}`hash_t`. -/
abbrev Hash := Pod 32
/-- {lit}`key_image_t`. -/
abbrev KeyImage := Pod 32
/-- {lit}`public_key_t`. -/
abbrev PublicKey := Pod 32
/-- {lit}`signature_t`. -/
abbrev Signature := Pod 64

/-- The equality test of 32-byte values, by which every lookup of a hash or a key
image in a list decides, is lawful. -/
instance instLawfulBEqHash : LawfulBEq Hash := instLawfulBEq

/-- {lit}`NULL_HASH`, the zero hash. -/
def nullHash : Hash := default

/-! ## Transactions -/

/-- {lit}`base_input_t`: the coinbase input, naming the height it pays for. -/
structure BaseInput where
  blockIndex : UInt32
deriving DecidableEq, Repr, Inhabited

/-- {lit}`key_input_t`: a ring input over outputs of one amount, given by
relative offsets, and the key image that makes it spendable once. -/
structure KeyInput where
  amount : UInt64
  outputIndexes : List UInt32
  keyImage : KeyImage
deriving DecidableEq, Repr, Inhabited

/-- {lit}`multi_signature_input_t`. -/
structure MultiSignatureInput where
  amount : UInt64
  signatureCount : UInt8
  outputIndex : UInt32
deriving DecidableEq, Repr, Inhabited

/-- {lit}`transaction_input_t`, a {lit}`boost::variant` of the three inputs. -/
inductive TransactionInput where
  | base (input : BaseInput)
  | key (input : KeyInput)
  | multisignature (input : MultiSignatureInput)
deriving DecidableEq, Repr, Inhabited

/-- {lit}`key_output_t`. -/
structure KeyOutput where
  key : PublicKey
deriving DecidableEq, Repr, Inhabited

/-- {lit}`multi_signature_output_t`. -/
structure MultiSignatureOutput where
  keys : List PublicKey
  requiredSignatureCount : UInt8
deriving DecidableEq, Repr, Inhabited

/-- {lit}`transaction_output_target_t`. -/
inductive TransactionOutputTarget where
  | key (output : KeyOutput)
  | multisignature (output : MultiSignatureOutput)
deriving DecidableEq, Repr, Inhabited

/-- {lit}`transaction_output_t`. -/
structure TransactionOutput where
  amount : UInt64
  target : TransactionOutputTarget
deriving DecidableEq, Repr, Inhabited

/-- {lit}`transaction_prefix_t`: everything a transaction signs. -/
structure TransactionPrefix where
  version : UInt8
  unlockTime : UInt64
  inputs : List TransactionInput
  outputs : List TransactionOutput
  extra : List UInt8
deriving DecidableEq, Repr, Inhabited

/-- {lit}`transaction_t`: a prefix and one list of signatures per input. -/
structure Transaction extends TransactionPrefix where
  signatures : List (List Signature)
deriving DecidableEq, Repr, Inhabited

/-- The number of signatures an input carries ({lit}`getSignaturesCount` in the
serializer, {lit}`signature_size_visitor` in the stream codec): none for the
coinbase input, one per ring member for a key input, the declared count for a
multisignature input. -/
def TransactionInput.signatureCount : TransactionInput → Nat
  | .base _ => 0
  | .key input => input.outputIndexes.length
  | .multisignature input => input.signatureCount.toNat

/-- The signature layout both codecs require: one signature list per input, of
the length that input asks for. -/
def Transaction.SignaturesShaped (tx : Transaction) : Prop :=
  List.Forall₂ (fun input sigs => sigs.length = input.signatureCount) tx.inputs tx.signatures

instance (tx : Transaction) : Decidable tx.SignaturesShaped :=
  inferInstanceAs (Decidable (List.Forall₂ _ tx.inputs tx.signatures))

/-! ## Blocks and stored entries -/

/-- {lit}`transaction_index_t`: a block height and a position in the block. -/
structure TransactionIndex where
  block : UInt32
  transaction : UInt16
deriving DecidableEq, Repr, Inhabited

/-- {lit}`multisignature_output_usage_t`. -/
structure MultisignatureOutputUsage where
  transactionIndex : TransactionIndex
  outputIndex : UInt16
  isUsed : Bool
deriving DecidableEq, Repr, Inhabited

/-- {lit}`transaction_entry_t`: a transaction as the chain stores it, with the
global indexes its outputs received. -/
structure TransactionEntry where
  tx : Transaction
  globalOutputIndexes : List UInt32
deriving DecidableEq, Repr, Inhabited

/-- {lit}`block_header_t`. -/
structure BlockHeader where
  majorVersion : UInt8
  minorVersion : UInt8
  nonce : UInt32
  timestamp : UInt64
  previousBlockHash : Hash
deriving DecidableEq, Repr, Inhabited

/-- {lit}`block_t`: a header, the coinbase and the hashes of the other
transactions. -/
structure Block extends BlockHeader where
  baseTransaction : Transaction
  transactionHashes : List Hash
deriving DecidableEq, Repr, Inhabited

/-- {lit}`block_entry_t`: a block as {lit}`m_blocks` stores it. -/
structure BlockEntry where
  bl : Block
  height : UInt32
  blockCumulativeSize : UInt64
  cumulativeDifficulty : UInt64
  alreadyGeneratedCoins : UInt64
  transactions : List TransactionEntry
deriving DecidableEq, Repr, Inhabited

/-- {lit}`block_info_t`. -/
structure BlockInfo where
  height : UInt32
  id : Hash
deriving DecidableEq, Repr, Inhabited

/-- {lit}`transaction_details_t`: a pool record.  {lit}`receiveTime` is a
{lit}`time_t`, which the codecs store through its 64-bit pattern. -/
structure TransactionDetails where
  maxUsedBlock : BlockInfo
  lastFailedBlock : BlockInfo
  id : Hash
  tx : Transaction
  blobSize : UInt64
  fee : UInt64
  keptByBlock : Bool
  receiveTime : UInt64
deriving DecidableEq, Repr, Inhabited

/-! ## Sizes that a C++ vector can have -/

/-- A list whose length a {lit}`size_t` can hold. -/
def FitsSizeT {α : Type} (xs : List α) : Prop := xs.length < 2 ^ 64

instance {α : Type} (xs : List α) : Decidable (FitsSizeT xs) :=
  inferInstanceAs (Decidable (xs.length < 2 ^ 64))

/-- The vector of a key input fits a {lit}`size_t`. -/
def KeyInput.Fits (input : KeyInput) : Prop := FitsSizeT input.outputIndexes

/-- Every vector inside an input fits a {lit}`size_t`. -/
def TransactionInput.Fits : TransactionInput → Prop
  | .key input => input.Fits
  | _ => True

instance : (input : TransactionInput) → Decidable input.Fits
  | .base _ => isTrue trivial
  | .key input => inferInstanceAs (Decidable (FitsSizeT input.outputIndexes))
  | .multisignature _ => isTrue trivial

/-- The key list of a multisignature output fits a {lit}`size_t`. -/
def MultiSignatureOutput.Fits (output : MultiSignatureOutput) : Prop := FitsSizeT output.keys

/-- Every vector inside an output target fits a {lit}`size_t`. -/
def TransactionOutputTarget.Fits : TransactionOutputTarget → Prop
  | .key _ => True
  | .multisignature output => output.Fits

instance : (target : TransactionOutputTarget) → Decidable target.Fits
  | .key _ => isTrue trivial
  | .multisignature output => inferInstanceAs (Decidable (FitsSizeT output.keys))

/-- Every vector inside an output fits a {lit}`size_t`. -/
def TransactionOutput.Fits (output : TransactionOutput) : Prop := output.target.Fits

instance (output : TransactionOutput) : Decidable output.Fits :=
  inferInstanceAs (Decidable output.target.Fits)

/-- Every vector of a transaction prefix, at every depth, fits a {lit}`size_t`. -/
structure TransactionPrefix.Fits (txP : TransactionPrefix) : Prop where
  inputs : FitsSizeT txP.inputs
  outputs : FitsSizeT txP.outputs
  extra : FitsSizeT txP.extra
  input_fits : ∀ input ∈ txP.inputs, input.Fits
  output_fits : ∀ output ∈ txP.outputs, output.Fits

instance (txP : TransactionPrefix) : Decidable txP.Fits :=
  decidable_of_iff (FitsSizeT txP.inputs ∧ FitsSizeT txP.outputs ∧ FitsSizeT txP.extra ∧
      (∀ input ∈ txP.inputs, input.Fits) ∧ ∀ output ∈ txP.outputs, output.Fits)
    ⟨fun ⟨h₁, h₂, h₃, h₄, h₅⟩ => ⟨h₁, h₂, h₃, h₄, h₅⟩, fun ⟨h₁, h₂, h₃, h₄, h₅⟩ => ⟨h₁, h₂, h₃, h₄, h₅⟩⟩

/-- The transactions the consensus codec writes: every vector fits a
{lit}`size_t` and the signatures are shaped by the inputs. -/
structure Transaction.Serializable (tx : Transaction) : Prop where
  fits : tx.Fits
  shaped : tx.SignaturesShaped

instance (tx : Transaction) : Decidable tx.Serializable :=
  decidable_of_iff (tx.Fits ∧ tx.SignaturesShaped)
    ⟨fun ⟨h₁, h₂⟩ => ⟨h₁, h₂⟩, fun ⟨h₁, h₂⟩ => ⟨h₁, h₂⟩⟩

/-- The blocks the consensus codec writes. -/
structure Block.Serializable (block : Block) : Prop where
  baseTransaction : block.baseTransaction.Serializable
  transactionHashes : FitsSizeT block.transactionHashes

instance (block : Block) : Decidable block.Serializable :=
  decidable_of_iff (block.baseTransaction.Serializable ∧ FitsSizeT block.transactionHashes)
    ⟨fun ⟨h₁, h₂⟩ => ⟨h₁, h₂⟩, fun ⟨h₁, h₂⟩ => ⟨h₁, h₂⟩⟩

/-! ## Resizing a vector -/

/-- {lit}`std::vector::resize`: keep the first {lit}`n` elements and pad with
value-initialised ones. -/
def resize {α : Type} [Inhabited α] (xs : List α) (n : Nat) : List α :=
  xs.take n ++ List.replicate (n - xs.length) default

@[simp] theorem length_resize {α : Type} [Inhabited α] (xs : List α) (n : Nat) :
    (resize xs n).length = n := by
  simp only [resize, List.length_append, List.length_take, List.length_replicate]
  omega

theorem resize_length {α : Type} [Inhabited α] (xs : List α) : resize xs xs.length = xs := by
  simp [resize]

/-- Resizing to at most the length truncates. -/
theorem resize_of_le {α : Type} [Inhabited α] {xs : List α} {n : Nat} (h : n ≤ xs.length) :
    resize xs n = xs.take n := by
  simp [resize, Nat.sub_eq_zero_of_le h]

end CryptoNote

import CryptoNote.Serialization.Basics

/-!
# The consensus wire format

The byte layout that the serialize functions of {lit}`basics.cpp` produce,
stated directly: varints for integers, a tag byte in front of each variant,
raw bytes for keys, hashes, signatures and the nonce, a varint count in front
of every vector, and the signatures of a transaction, uncounted, after its
prefix.  Each serialize function, run by the binary serializers, implements
this layout on the values whose vectors fit a {lit}`size_t` and whose
signatures are shaped by their inputs.

Main results:

- Theorems {lit}`Transaction.serialize_implements` and
  {lit}`Block.serialize_implements`: the writer produces the layout, the reader
  recovers every such transaction or block from it whatever it starts from, and
  the reader accepts nothing but the layout of what it returns.
- Theorem {lit}`binaryArray_from_to`: {lit}`BinaryArray::from` reads back what
  {lit}`BinaryArray::to` writes, for transactions and blocks.
- Theorem {lit}`binaryArray_to_of_from`: a blob that {lit}`BinaryArray::from`
  accepts is exactly what {lit}`BinaryArray::to` writes for the result, so the
  hash of a parsed blob is the object hash of the transaction.
-/

namespace CryptoNote

open ByteCodec

/-! ## The layout -/

/-- The bytes of a base input. -/
def BaseInput.encode (gen : BaseInput) : Bytes :=
  Leb128.encode gen.blockIndex.toNat

/-- The bytes of a key input. -/
def KeyInput.encode (key : KeyInput) : Bytes :=
  Leb128.encode key.amount.toNat ++
    (Leb128.lengthPrefixed (fun i => Leb128.encode i.toNat) key.outputIndexes ++
      key.keyImage.bytes)

/-- The bytes of a multisignature input. -/
def MultiSignatureInput.encode (multisignature : MultiSignatureInput) : Bytes :=
  Leb128.encode multisignature.amount.toNat ++
    (Leb128.encode multisignature.signatureCount.toNat ++
      Leb128.encode multisignature.outputIndex.toNat)

/-- An input: its tag byte, then the alternative it holds. -/
def TransactionInput.encode : TransactionInput → Bytes
  | .base v => [0xff] ++ v.encode
  | .key v => [0x2] ++ v.encode
  | .multisignature v => [0x3] ++ v.encode

/-- The bytes of a key output. -/
def KeyOutput.encode (key : KeyOutput) : Bytes :=
  key.key.bytes

/-- The bytes of a multisignature output. -/
def MultiSignatureOutput.encode (multisignature : MultiSignatureOutput) : Bytes :=
  Leb128.lengthPrefixed Pod.bytes multisignature.keys ++
    Leb128.encode multisignature.requiredSignatureCount.toNat

/-- An output target: its tag byte, then the alternative it holds. -/
def TransactionOutputTarget.encode : TransactionOutputTarget → Bytes
  | .key v => [0x2] ++ v.encode
  | .multisignature v => [0x3] ++ v.encode

/-- The bytes of an output. -/
def TransactionOutput.encode (output : TransactionOutput) : Bytes :=
  Leb128.encode output.amount.toNat ++ output.target.encode

/-- The bytes of a transaction prefix. -/
def TransactionPrefix.encode (txP : TransactionPrefix) : Bytes :=
  Leb128.encode txP.version.toNat ++
    (Leb128.encode txP.unlockTime.toNat ++
      (Leb128.lengthPrefixed TransactionInput.encode txP.inputs ++
        (Leb128.lengthPrefixed TransactionOutput.encode txP.outputs ++
          (Leb128.encode txP.extra.length ++ txP.extra))))

/-- The signatures of a transaction, input after input, with no counts. -/
def encodeSignatures (signatures : List (List Signature)) : Bytes :=
  signatures.flatMap fun sigs => sigs.flatMap Pod.bytes

/-- The bytes of a transaction: its prefix, then its signatures. -/
def Transaction.encode (tx : Transaction) : Bytes :=
  tx.toTransactionPrefix.encode ++ encodeSignatures tx.signatures

/-- The bytes of a block header, the nonce raw. -/
def BlockHeader.encode (header : BlockHeader) : Bytes :=
  Leb128.encode header.majorVersion.toNat ++
    (Leb128.encode header.minorVersion.toNat ++
      (Leb128.encode header.timestamp.toNat ++
        (header.previousBlockHash.bytes ++ uint32Bytes header.nonce)))

/-- The bytes of a block: its header, its coinbase and its transaction hashes. -/
def Block.encode (block : Block) : Bytes :=
  block.toBlockHeader.encode ++
    (block.baseTransaction.encode ++ Leb128.lengthPrefixed Pod.bytes block.transactionHashes)

/-! ## Inputs -/

/-- The serializers of a base input write its encoding and read it back. -/
theorem BaseInput.serialize_implements :
    Implements (BaseInput.serialize binaryOutputStreamSerializer)
      (BaseInput.serialize binaryInputStreamSerializer) (fun _ => True) BaseInput.encode where
  writes gen _ := Writes.bind_pure (uint32_implements.writes gen.blockIndex trivial) BaseInput.mk
  reads gen _ y :=
    Reads.bind_pure (uint32_implements.reads gen.blockIndex trivial y.blockIndex) BaseInput.mk
  consumes y := by
    intro s gen rest hrun
    obtain ⟨blockIndex, s₁, h₁, hpure⟩ := run_bind_eq_ok hrun
    obtain ⟨rfl, rfl⟩ := run_pure_eq_ok hpure
    obtain ⟨bs, rfl, -, rfl⟩ := uint32_implements.consumes y.blockIndex s blockIndex rest h₁
    exact ⟨_, rfl, trivial, rfl⟩

theorem serializeVarintVector_implements :
    Implements (serializeVarintVector binaryOutputStreamSerializer)
      (serializeVarintVector binaryInputStreamSerializer)
      (fun xs => FitsSizeT xs ∧ ∀ x ∈ xs, True)
      (Leb128.lengthPrefixed fun i => Leb128.encode i.toNat) :=
  serializeContainer_implements uint32_implements

/-- The serializers of a key input write its encoding and read it back. -/
theorem KeyInput.serialize_implements :
    Implements (KeyInput.serialize binaryOutputStreamSerializer)
      (KeyInput.serialize binaryInputStreamSerializer) KeyInput.Fits KeyInput.encode where
  writes key hkey :=
    Writes.bind (uint64_implements.writes _ trivial)
      (Writes.bind (serializeVarintVector_implements.writes _ ⟨hkey, fun _ _ => trivial⟩)
        (Writes.bind_pure ((serializePod_implements 32).writes _ trivial) _))
  reads key hkey y :=
    Reads.bind (uint64_implements.reads _ trivial y.amount)
      (Reads.bind (serializeVarintVector_implements.reads _ ⟨hkey, fun _ _ => trivial⟩
        y.outputIndexes)
        (Reads.bind_pure ((serializePod_implements 32).reads _ trivial y.keyImage) _))
  consumes y := by
    intro s key rest hrun
    obtain ⟨amount, s₁, h₁, hrun₁⟩ := run_bind_eq_ok hrun
    obtain ⟨outputIndexes, s₂, h₂, hrun₂⟩ := run_bind_eq_ok hrun₁
    obtain ⟨keyImage, s₃, h₃, hpure⟩ := run_bind_eq_ok hrun₂
    obtain ⟨rfl, rfl⟩ := run_pure_eq_ok hpure
    obtain ⟨bs₁, rfl, -, rfl⟩ := uint64_implements.consumes y.amount s amount s₁ h₁
    obtain ⟨bs₂, rfl, ⟨hfits, -⟩, rfl⟩ :=
      serializeVarintVector_implements.consumes _ s₁ outputIndexes s₂ h₂
    obtain ⟨bs₃, rfl, -, rfl⟩ := (serializePod_implements 32).consumes _ s₂ keyImage rest h₃
    exact ⟨_, by simp only [KeyInput.encode, List.append_assoc], hfits, rfl⟩

/-- The serializers of a multisignature input write its encoding and read it back. -/
theorem MultiSignatureInput.serialize_implements :
    Implements (MultiSignatureInput.serialize binaryOutputStreamSerializer)
      (MultiSignatureInput.serialize binaryInputStreamSerializer) (fun _ => True)
      MultiSignatureInput.encode where
  writes _ _ :=
    Writes.bind (uint64_implements.writes _ trivial)
      (Writes.bind (uint8_implements.writes _ trivial)
        (Writes.bind_pure (uint32_implements.writes _ trivial) _))
  reads _ _ y :=
    Reads.bind (uint64_implements.reads _ trivial y.amount)
      (Reads.bind (uint8_implements.reads _ trivial y.signatureCount)
        (Reads.bind_pure (uint32_implements.reads _ trivial y.outputIndex) _))
  consumes y := by
    intro s multisignature rest hrun
    obtain ⟨amount, s₁, h₁, hrun₁⟩ := run_bind_eq_ok hrun
    obtain ⟨signatureCount, s₂, h₂, hrun₂⟩ := run_bind_eq_ok hrun₁
    obtain ⟨outputIndex, s₃, h₃, hpure⟩ := run_bind_eq_ok hrun₂
    obtain ⟨rfl, rfl⟩ := run_pure_eq_ok hpure
    obtain ⟨bs₁, rfl, -, rfl⟩ := uint64_implements.consumes y.amount s amount s₁ h₁
    obtain ⟨bs₂, rfl, -, rfl⟩ := uint8_implements.consumes y.signatureCount s₁ signatureCount s₂ h₂
    obtain ⟨bs₃, rfl, -, rfl⟩ := uint32_implements.consumes y.outputIndex s₂ outputIndex rest h₃
    exact ⟨_, by simp only [MultiSignatureInput.encode, List.append_assoc], trivial, rfl⟩

/-- The serializers of an input write its tag and its encoding, and read them back. -/
theorem TransactionInput.serialize_implements :
    Implements (TransactionInput.serialize binaryOutputStreamSerializer)
      (TransactionInput.serialize binaryInputStreamSerializer) TransactionInput.Fits
      TransactionInput.encode where
  writes input hinput := by
    cases input with
    | base v =>
      exact Writes.bind ((binary_implements 1).writes (Pod.ofUInt8 0xff) trivial)
        (Writes.bind_pure (BaseInput.serialize_implements.writes v trivial) _)
    | key v =>
      exact Writes.bind ((binary_implements 1).writes (Pod.ofUInt8 0x2) trivial)
        (Writes.bind_pure (KeyInput.serialize_implements.writes v hinput) _)
    | multisignature v =>
      exact Writes.bind ((binary_implements 1).writes (Pod.ofUInt8 0x3) trivial)
        (Writes.bind_pure (MultiSignatureInput.serialize_implements.writes v trivial) _)
  reads input hinput _ := by
    cases input with
    | base v =>
      exact Reads.bind ((binary_implements 1).reads (Pod.ofUInt8 0xff) trivial default)
        (Reads.bind_pure (BaseInput.serialize_implements.reads v trivial default) _)
    | key v =>
      exact Reads.bind ((binary_implements 1).reads (Pod.ofUInt8 0x2) trivial default)
        (Reads.bind_pure (KeyInput.serialize_implements.reads v hinput default) _)
    | multisignature v =>
      exact Reads.bind ((binary_implements 1).reads (Pod.ofUInt8 0x3) trivial default)
        (Reads.bind_pure (MultiSignatureInput.serialize_implements.reads v trivial default) _)
  consumes _ := by
    intro s input rest hrun
    obtain ⟨tag, s₁, htag, hrun₁⟩ := run_bind_eq_ok hrun
    obtain ⟨bs, rfl, -, rfl⟩ := (binary_implements 1).consumes default s tag s₁ htag
    -- {lit}`getVariantValue` dispatches on the tag byte
    unfold TransactionInput.getVariantValue at hrun₁
    split_ifs at hrun₁ with hbase hkey hmulti
    · obtain ⟨v, s₂, hv, hpure⟩ := run_bind_eq_ok hrun₁
      obtain ⟨rfl, rfl⟩ := run_pure_eq_ok hpure
      obtain ⟨cs, rfl, -, rfl⟩ := BaseInput.serialize_implements.consumes default s₁ v rest hv
      refine ⟨_, (List.append_assoc ..).symm, trivial, ?_⟩
      rw [Pod.bytes_eq_of_toUInt8 hbase]
      rfl
    · obtain ⟨v, s₂, hv, hpure⟩ := run_bind_eq_ok hrun₁
      obtain ⟨rfl, rfl⟩ := run_pure_eq_ok hpure
      obtain ⟨cs, rfl, hfits, rfl⟩ := KeyInput.serialize_implements.consumes default s₁ v rest hv
      refine ⟨_, (List.append_assoc ..).symm, hfits, ?_⟩
      rw [Pod.bytes_eq_of_toUInt8 hkey]
      rfl
    · obtain ⟨v, s₂, hv, hpure⟩ := run_bind_eq_ok hrun₁
      obtain ⟨rfl, rfl⟩ := run_pure_eq_ok hpure
      obtain ⟨cs, rfl, -, rfl⟩ :=
        MultiSignatureInput.serialize_implements.consumes default s₁ v rest hv
      refine ⟨_, (List.append_assoc ..).symm, trivial, ?_⟩
      rw [Pod.bytes_eq_of_toUInt8 hmulti]
      rfl
    · cases hrun₁

/-! ## Outputs -/

/-- The serializers of a key output write its encoding and read it back. -/
theorem KeyOutput.serialize_implements :
    Implements (KeyOutput.serialize binaryOutputStreamSerializer)
      (KeyOutput.serialize binaryInputStreamSerializer) (fun _ => True) KeyOutput.encode where
  writes key _ := Writes.bind_pure ((serializePod_implements 32).writes key.key trivial) KeyOutput.mk
  reads key _ y :=
    Reads.bind_pure ((serializePod_implements 32).reads key.key trivial y.key) KeyOutput.mk
  consumes y := by
    intro s key rest hrun
    obtain ⟨k, s₁, h₁, hpure⟩ := run_bind_eq_ok hrun
    obtain ⟨rfl, rfl⟩ := run_pure_eq_ok hpure
    obtain ⟨bs, rfl, -, rfl⟩ := (serializePod_implements 32).consumes _ s k rest h₁
    exact ⟨_, rfl, trivial, rfl⟩

/-- The serializers of a multisignature output write its encoding and read it back. -/
theorem MultiSignatureOutput.serialize_implements :
    Implements (MultiSignatureOutput.serialize binaryOutputStreamSerializer)
      (MultiSignatureOutput.serialize binaryInputStreamSerializer) MultiSignatureOutput.Fits
      MultiSignatureOutput.encode where
  writes _ hkeys :=
    Writes.bind ((serializeContainer_implements (serializePod_implements 32)).writes _
        ⟨hkeys, fun _ _ => trivial⟩)
      (Writes.bind_pure (uint8_implements.writes _ trivial) _)
  reads _ hkeys y :=
    Reads.bind ((serializeContainer_implements (serializePod_implements 32)).reads _
        ⟨hkeys, fun _ _ => trivial⟩ y.keys)
      (Reads.bind_pure (uint8_implements.reads _ trivial y.requiredSignatureCount) _)
  consumes y := by
    intro s multisignature rest hrun
    obtain ⟨keys, s₁, h₁, hrun₁⟩ := run_bind_eq_ok hrun
    obtain ⟨requiredSignatureCount, s₂, h₂, hpure⟩ := run_bind_eq_ok hrun₁
    obtain ⟨rfl, rfl⟩ := run_pure_eq_ok hpure
    obtain ⟨bs₁, rfl, ⟨hkeys, -⟩, rfl⟩ :=
      (serializeContainer_implements (serializePod_implements 32)).consumes _ s keys s₁ h₁
    obtain ⟨bs₂, rfl, -, rfl⟩ := uint8_implements.consumes y.requiredSignatureCount s₁
      requiredSignatureCount rest h₂
    exact ⟨_, (List.append_assoc ..).symm, hkeys, rfl⟩

/-- The serializers of an output target write its tag and its encoding, and read
them back. -/
theorem TransactionOutputTarget.serialize_implements :
    Implements (TransactionOutputTarget.serialize binaryOutputStreamSerializer)
      (TransactionOutputTarget.serialize binaryInputStreamSerializer) TransactionOutputTarget.Fits
      TransactionOutputTarget.encode where
  writes target htarget := by
    cases target with
    | key v =>
      exact Writes.bind ((binary_implements 1).writes (Pod.ofUInt8 0x2) trivial)
        (Writes.bind_pure (KeyOutput.serialize_implements.writes v trivial) _)
    | multisignature v =>
      exact Writes.bind ((binary_implements 1).writes (Pod.ofUInt8 0x3) trivial)
        (Writes.bind_pure (MultiSignatureOutput.serialize_implements.writes v htarget) _)
  reads target htarget _ := by
    cases target with
    | key v =>
      exact Reads.bind ((binary_implements 1).reads (Pod.ofUInt8 0x2) trivial default)
        (Reads.bind_pure (KeyOutput.serialize_implements.reads v trivial default) _)
    | multisignature v =>
      exact Reads.bind ((binary_implements 1).reads (Pod.ofUInt8 0x3) trivial default)
        (Reads.bind_pure (MultiSignatureOutput.serialize_implements.reads v htarget default) _)
  consumes _ := by
    intro s target rest hrun
    obtain ⟨tag, s₁, htag, hrun₁⟩ := run_bind_eq_ok hrun
    obtain ⟨bs, rfl, -, rfl⟩ := (binary_implements 1).consumes default s tag s₁ htag
    unfold TransactionOutputTarget.getVariantValue at hrun₁
    split_ifs at hrun₁ with hkey hmulti
    · obtain ⟨v, s₂, hv, hpure⟩ := run_bind_eq_ok hrun₁
      obtain ⟨rfl, rfl⟩ := run_pure_eq_ok hpure
      obtain ⟨cs, rfl, -, rfl⟩ := KeyOutput.serialize_implements.consumes default s₁ v rest hv
      refine ⟨_, (List.append_assoc ..).symm, trivial, ?_⟩
      rw [Pod.bytes_eq_of_toUInt8 hkey]
      rfl
    · obtain ⟨v, s₂, hv, hpure⟩ := run_bind_eq_ok hrun₁
      obtain ⟨rfl, rfl⟩ := run_pure_eq_ok hpure
      obtain ⟨cs, rfl, hfits, rfl⟩ :=
        MultiSignatureOutput.serialize_implements.consumes default s₁ v rest hv
      refine ⟨_, (List.append_assoc ..).symm, hfits, ?_⟩
      rw [Pod.bytes_eq_of_toUInt8 hmulti]
      rfl
    · cases hrun₁

/-- The serializers of an output write its encoding and read it back. -/
theorem TransactionOutput.serialize_implements :
    Implements (TransactionOutput.serialize binaryOutputStreamSerializer)
      (TransactionOutput.serialize binaryInputStreamSerializer) TransactionOutput.Fits
      TransactionOutput.encode where
  writes _ houtput :=
    Writes.bind (uint64_implements.writes _ trivial)
      (Writes.bind_pure (TransactionOutputTarget.serialize_implements.writes _ houtput) _)
  reads _ houtput y :=
    Reads.bind (uint64_implements.reads _ trivial y.amount)
      (Reads.bind_pure (TransactionOutputTarget.serialize_implements.reads _ houtput y.target) _)
  consumes y := by
    intro s output rest hrun
    obtain ⟨amount, s₁, h₁, hrun₁⟩ := run_bind_eq_ok hrun
    obtain ⟨target, s₂, h₂, hpure⟩ := run_bind_eq_ok hrun₁
    obtain ⟨rfl, rfl⟩ := run_pure_eq_ok hpure
    obtain ⟨bs₁, rfl, -, rfl⟩ := uint64_implements.consumes y.amount s amount s₁ h₁
    obtain ⟨bs₂, rfl, hfits, rfl⟩ :=
      TransactionOutputTarget.serialize_implements.consumes _ s₁ target rest h₂
    exact ⟨_, (List.append_assoc ..).symm, hfits, rfl⟩

/-! ## Transactions -/

/-- The serializers of a transaction prefix write its encoding and read it back. -/
theorem TransactionPrefix.serialize_implements :
    Implements (TransactionPrefix.serialize binaryOutputStreamSerializer)
      (TransactionPrefix.serialize binaryInputStreamSerializer) TransactionPrefix.Fits
      TransactionPrefix.encode where
  writes _ htxP :=
    Writes.bind (uint8_implements.writes _ trivial)
      (Writes.bind (uint64_implements.writes _ trivial)
        (Writes.bind ((serializeContainer_implements TransactionInput.serialize_implements).writes _
            ⟨htxP.inputs, htxP.input_fits⟩)
          (Writes.bind ((serializeContainer_implements TransactionOutput.serialize_implements).writes
              _ ⟨htxP.outputs, htxP.output_fits⟩)
            (Writes.bind_pure (serializeAsBinary_implements.writes _ htxP.extra) _))))
  reads _ htxP y :=
    Reads.bind (uint8_implements.reads _ trivial y.version)
      (Reads.bind (uint64_implements.reads _ trivial y.unlockTime)
        (Reads.bind ((serializeContainer_implements TransactionInput.serialize_implements).reads _
            ⟨htxP.inputs, htxP.input_fits⟩ y.inputs)
          (Reads.bind ((serializeContainer_implements TransactionOutput.serialize_implements).reads
              _ ⟨htxP.outputs, htxP.output_fits⟩ y.outputs)
            (Reads.bind_pure (serializeAsBinary_implements.reads _ htxP.extra y.extra) _))))
  consumes y := by
    intro s txP rest hrun
    obtain ⟨version, s₁, h₁, hrun₁⟩ := run_bind_eq_ok hrun
    obtain ⟨unlockTime, s₂, h₂, hrun₂⟩ := run_bind_eq_ok hrun₁
    obtain ⟨inputs, s₃, h₃, hrun₃⟩ := run_bind_eq_ok hrun₂
    obtain ⟨outputs, s₄, h₄, hrun₄⟩ := run_bind_eq_ok hrun₃
    obtain ⟨extra, s₅, h₅, hpure⟩ := run_bind_eq_ok hrun₄
    obtain ⟨rfl, rfl⟩ := run_pure_eq_ok hpure
    obtain ⟨bs₁, rfl, -, rfl⟩ := uint8_implements.consumes y.version s version s₁ h₁
    obtain ⟨bs₂, rfl, -, rfl⟩ := uint64_implements.consumes y.unlockTime s₁ unlockTime s₂ h₂
    obtain ⟨bs₃, rfl, ⟨hinputs, hinput_fits⟩, rfl⟩ :=
      (serializeContainer_implements TransactionInput.serialize_implements).consumes _ s₂ inputs
        s₃ h₃
    obtain ⟨bs₄, rfl, ⟨houtputs, houtput_fits⟩, rfl⟩ :=
      (serializeContainer_implements TransactionOutput.serialize_implements).consumes _ s₃
        outputs s₄ h₄
    obtain ⟨bs₅, rfl, hextra, rfl⟩ := serializeAsBinary_implements.consumes _ s₄ extra rest h₅
    exact ⟨_, by simp only [TransactionPrefix.encode, List.append_assoc],
      ⟨hinputs, houtputs, hextra, hinput_fits, houtput_fits⟩, rfl⟩

/-! ## Signatures -/

section SignatureLoop

/-- One input of the loop, when its signatures are written. -/
theorem serializeSignatures_output_cons {input : TransactionInput} {inputs : List TransactionInput}
    {sigs : List Signature} {rest : List (List Signature)}
    (hsigs : sigs.length = input.signatureCount) :
    Transaction.serializeSignatures binaryOutputStreamSerializer false (input :: inputs)
        (sigs :: rest) = (do
      let sigs ← sigs.mapM (serializePod binaryOutputStreamSerializer)
      let rest ← Transaction.serializeSignatures binaryOutputStreamSerializer false inputs rest
      pure (sigs :: rest)) := by
  simp [Transaction.serializeSignatures, hsigs]

/-- One input of the loop, when its signatures are read. -/
theorem serializeSignatures_input_cons (input : TransactionInput) (inputs : List TransactionInput)
    (y : List Signature) (ys : List (List Signature)) :
    Transaction.serializeSignatures binaryInputStreamSerializer false (input :: inputs) (y :: ys) =
      (do
        let sigs ← (List.replicate input.signatureCount default).mapM
          (serializePod binaryInputStreamSerializer)
        let rest ← Transaction.serializeSignatures binaryInputStreamSerializer false inputs ys
        pure (sigs :: rest)) := by
  simp [Transaction.serializeSignatures]

/-- With inputs left, the flag that signatures are not expected is off. -/
theorem flag_eq_false {b : Bool} {input : TransactionInput} {inputs : List TransactionInput}
    (hb : b = true → input :: inputs = []) : b = false :=
  Bool.eq_false_iff.mpr fun h => List.cons_ne_nil _ _ (hb h)

/-- The output serializer of the signatures writes their encoding, when each
input has as many signatures as it needs. -/
theorem serializeSignatures_writes {b : Bool} :
    ∀ {inputs : List TransactionInput} {signatures : List (List Signature)},
      List.Forall₂ (fun input sigs => sigs.length = input.signatureCount) inputs signatures →
      (b = true → inputs = []) →
      Writes (Transaction.serializeSignatures binaryOutputStreamSerializer b inputs signatures)
        signatures (encodeSignatures signatures)
  | [], [], .nil, _ => Writes.pure []
  | _ :: _, sigs :: _, .cons hsigs hrest, hb => by
    obtain rfl := flag_eq_false hb
    rw [serializeSignatures_output_cons hsigs, encodeSignatures, List.flatMap_cons]
    exact Writes.bind ((serializePod_implements 64).writes_mapM fun _ _ => trivial)
      (Writes.bind_pure (serializeSignatures_writes (b := false) hrest nofun) _)

/-- The input serializer of the signatures reads them back from their encoding. -/
theorem serializeSignatures_reads {b : Bool} :
    ∀ {inputs : List TransactionInput} {signatures : List (List Signature)},
      List.Forall₂ (fun input sigs => sigs.length = input.signatureCount) inputs signatures →
      ∀ {ys : List (List Signature)}, ys.length = inputs.length → (b = true → inputs = []) →
      Reads (Transaction.serializeSignatures binaryInputStreamSerializer b inputs ys)
        signatures (encodeSignatures signatures)
  | [], [], .nil, ys, hlen, _ => by
    rw [List.length_nil, List.length_eq_zero_iff] at hlen
    subst hlen
    exact Reads.pure []
  | input :: _, _ :: _, .cons hsigs hrest, ys, hlen, hb => by
    obtain rfl := flag_eq_false hb
    obtain ⟨y, ys, rfl⟩ := List.exists_cons_of_length_eq_add_one hlen
    rw [serializeSignatures_input_cons, encodeSignatures, List.flatMap_cons]
    exact Reads.bind ((serializePod_implements 64).reads_mapM
        (by rw [List.length_replicate, hsigs]) fun _ _ => trivial)
      (Reads.bind_pure (serializeSignatures_reads (b := false) hrest (by simpa using hlen) nofun) _)

/-- What the input serializer of the signatures reads has as many signatures per
input as it needs, and the bytes it consumes are their encoding. -/
theorem serializeSignatures_consumes {b : Bool} :
    ∀ (inputs : List TransactionInput) (ys : List (List Signature)), ys.length = inputs.length →
      (b = true → inputs = []) →
      Consumes (Transaction.serializeSignatures binaryInputStreamSerializer b inputs ys)
        fun signatures bs =>
          List.Forall₂ (fun input sigs => sigs.length = input.signatureCount) inputs signatures ∧
            bs = encodeSignatures signatures
  | [], ys, hlen, _ => by
    rw [List.length_nil, List.length_eq_zero_iff] at hlen
    subst hlen
    intro s signatures rest hrun
    obtain ⟨rfl, rfl⟩ := run_pure_eq_ok hrun
    exact ⟨[], rfl, .nil, rfl⟩
  | input :: inputs, ys, hlen, hb => by
    obtain rfl := flag_eq_false hb
    obtain ⟨y, ys, rfl⟩ := List.exists_cons_of_length_eq_add_one hlen
    intro s signatures rest hrun
    rw [serializeSignatures_input_cons] at hrun
    obtain ⟨sigs, s₁, h₁, hrun₁⟩ := run_bind_eq_ok hrun
    obtain ⟨others, s₂, h₂, hpure⟩ := run_bind_eq_ok hrun₁
    obtain ⟨rfl, rfl⟩ := run_pure_eq_ok hpure
    obtain ⟨bs₁, rfl, hlen₁, -, rfl⟩ := (serializePod_implements 64).consumes_mapM _ s sigs s₁ h₁
    obtain ⟨bs₂, rfl, hshape, rfl⟩ :=
      serializeSignatures_consumes (b := false) inputs ys (by simpa using hlen) nofun s₁ others rest h₂
    exact ⟨_, (List.append_assoc ..).symm, .cons (by rw [hlen₁, List.length_replicate]) hshape,
      (List.flatMap_cons ..).symm⟩

end SignatureLoop

/-- An empty signature list of the length of the inputs leaves no inputs. -/
theorem inputs_eq_nil_of_isEmpty {inputs : List TransactionInput}
    {signatures : List (List Signature)} (hlen : inputs.length = signatures.length)
    (h : signatures.isEmpty = true) : inputs = [] := by
  rw [List.isEmpty_iff] at h
  subst h
  exact List.length_eq_zero_iff.mp hlen

/-- The serializers of a transaction write its encoding and read it back, for a
transaction whose vectors fit a {lit}`size_t` and whose signatures are shaped by
its inputs. -/
theorem Transaction.serialize_implements :
    Implements (Transaction.serialize binaryOutputStreamSerializer)
      (Transaction.serialize binaryInputStreamSerializer) Transaction.Serializable
      Transaction.encode where
  writes tx htx := by
    have hlen : tx.inputs.length = tx.signatures.length := htx.shaped.length_eq
    refine Writes.bind (TransactionPrefix.serialize_implements.writes _ htx.fits) ?_
    -- an output serializer keeps the signatures, whose count matches the inputs
    simp only [binaryOutputStreamSerializer_type, reduceCtorEq, if_false]
    rw [if_neg (by simp [hlen])]
    exact Writes.bind_pure
      (serializeSignatures_writes htx.shaped (inputs_eq_nil_of_isEmpty hlen)) _
  reads tx htx y := by
    have hlen : tx.inputs.length = (resize y.signatures tx.inputs.length).length :=
      (length_resize _ _).symm
    refine Reads.bind (TransactionPrefix.serialize_implements.reads _ htx.fits y.toTransactionPrefix) ?_
    -- an input serializer resizes the signatures to the inputs just read
    simp only [binaryInputStreamSerializer_type, if_true]
    rw [if_neg (by simp)]
    exact Reads.bind_pure (serializeSignatures_reads htx.shaped hlen.symm
      (inputs_eq_nil_of_isEmpty hlen)) _
  consumes y := by
    intro s tx rest hrun
    obtain ⟨txP, s₁, h₁, hrun₁⟩ := run_bind_eq_ok hrun
    obtain ⟨bs₁, rfl, hfits, rfl⟩ := TransactionPrefix.serialize_implements.consumes _ s txP s₁ h₁
    have hlen : txP.inputs.length = (resize y.signatures txP.inputs.length).length :=
      (length_resize _ _).symm
    simp only [binaryInputStreamSerializer_type, if_true] at hrun₁
    rw [if_neg (by simp)] at hrun₁
    obtain ⟨signatures, s₂, h₂, hpure⟩ := run_bind_eq_ok hrun₁
    obtain ⟨rfl, rfl⟩ := run_pure_eq_ok hpure
    obtain ⟨bs₂, rfl, hshape, rfl⟩ := serializeSignatures_consumes _ _ hlen.symm
      (inputs_eq_nil_of_isEmpty hlen) s₁ signatures rest h₂
    exact ⟨_, (List.append_assoc ..).symm, ⟨hfits, hshape⟩, rfl⟩

/-! ## Blocks -/

/-- The serializers of a block header write its encoding and read it back. -/
theorem BlockHeader.serialize_implements :
    Implements (serializeBlockHeader binaryOutputStreamSerializer)
      (serializeBlockHeader binaryInputStreamSerializer) (fun _ => True) BlockHeader.encode where
  writes header _ := by
    refine Writes.bind (uint8_implements.writes _ trivial)
      (Writes.bind (uint8_implements.writes _ trivial)
        (Writes.bind (uint64_implements.writes _ trivial)
          (Writes.bind ((serializePod_implements 32).writes _ trivial) ?_)))
    -- the nonce goes through its raw memory and comes back unchanged
    have h := Writes.bind_pure ((binary_implements 4).writes (Pod.ofUInt32 header.nonce) trivial)
      fun nonce => ({ header with nonce := nonce.toUInt32 } : BlockHeader)
    rwa [Pod.toUInt32_ofUInt32] at h
  reads header _ y := by
    refine Reads.bind (uint8_implements.reads _ trivial y.majorVersion)
      (Reads.bind (uint8_implements.reads _ trivial y.minorVersion)
        (Reads.bind (uint64_implements.reads _ trivial y.timestamp)
          (Reads.bind ((serializePod_implements 32).reads _ trivial y.previousBlockHash) ?_)))
    have h := Reads.bind_pure ((binary_implements 4).reads (Pod.ofUInt32 header.nonce) trivial
      (Pod.ofUInt32 y.nonce)) fun nonce => ({ header with nonce := nonce.toUInt32 } : BlockHeader)
    rwa [Pod.toUInt32_ofUInt32] at h
  consumes y := by
    intro s header rest hrun
    obtain ⟨majorVersion, s₁, h₁, hrun₁⟩ := run_bind_eq_ok hrun
    obtain ⟨minorVersion, s₂, h₂, hrun₂⟩ := run_bind_eq_ok hrun₁
    obtain ⟨timestamp, s₃, h₃, hrun₃⟩ := run_bind_eq_ok hrun₂
    obtain ⟨previousBlockHash, s₄, h₄, hrun₄⟩ := run_bind_eq_ok hrun₃
    obtain ⟨nonce, s₅, h₅, hpure⟩ := run_bind_eq_ok hrun₄
    obtain ⟨rfl, rfl⟩ := run_pure_eq_ok hpure
    obtain ⟨bs₁, rfl, -, rfl⟩ := uint8_implements.consumes y.majorVersion s majorVersion s₁ h₁
    obtain ⟨bs₂, rfl, -, rfl⟩ := uint8_implements.consumes y.minorVersion s₁ minorVersion s₂ h₂
    obtain ⟨bs₃, rfl, -, rfl⟩ := uint64_implements.consumes y.timestamp s₂ timestamp s₃ h₃
    obtain ⟨bs₄, rfl, -, rfl⟩ := (serializePod_implements 32).consumes _ s₃ previousBlockHash s₄ h₄
    obtain ⟨bs₅, rfl, -, rfl⟩ := (binary_implements 4).consumes _ s₄ nonce rest h₅
    have hnonce : uint32Bytes nonce.toUInt32 = nonce.bytes :=
      congrArg Pod.bytes (Pod.ofUInt32_toUInt32 nonce)
    exact ⟨_, by simp only [BlockHeader.encode, hnonce, List.append_assoc], trivial, rfl⟩

/-- The serializers of a block write its encoding and read it back, for a block
whose coinbase the codec writes and whose hashes fit a {lit}`size_t`. -/
theorem Block.serialize_implements :
    Implements (Block.serialize binaryOutputStreamSerializer)
      (Block.serialize binaryInputStreamSerializer) Block.Serializable Block.encode where
  writes _ hblock :=
    Writes.bind (BlockHeader.serialize_implements.writes _ trivial)
      (Writes.bind (Transaction.serialize_implements.writes _ hblock.baseTransaction)
        (Writes.bind_pure ((serializeContainer_implements (serializePod_implements 32)).writes _
          ⟨hblock.transactionHashes, fun _ _ => trivial⟩) _))
  reads _ hblock y :=
    Reads.bind (BlockHeader.serialize_implements.reads _ trivial y.toBlockHeader)
      (Reads.bind (Transaction.serialize_implements.reads _ hblock.baseTransaction
          y.baseTransaction)
        (Reads.bind_pure ((serializeContainer_implements (serializePod_implements 32)).reads _
          ⟨hblock.transactionHashes, fun _ _ => trivial⟩ y.transactionHashes) _))
  consumes y := by
    intro s block rest hrun
    obtain ⟨header, s₁, h₁, hrun₁⟩ := run_bind_eq_ok hrun
    obtain ⟨baseTransaction, s₂, h₂, hrun₂⟩ := run_bind_eq_ok hrun₁
    obtain ⟨transactionHashes, s₃, h₃, hpure⟩ := run_bind_eq_ok hrun₂
    obtain ⟨rfl, rfl⟩ := run_pure_eq_ok hpure
    obtain ⟨bs₁, rfl, -, rfl⟩ := BlockHeader.serialize_implements.consumes _ s header s₁ h₁
    obtain ⟨bs₂, rfl, hbase, rfl⟩ :=
      Transaction.serialize_implements.consumes _ s₁ baseTransaction s₂ h₂
    obtain ⟨bs₃, rfl, ⟨hhashes, -⟩, rfl⟩ :=
      (serializeContainer_implements (serializePod_implements 32)).consumes _ s₂ transactionHashes
        rest h₃
    exact ⟨_, by simp only [Block.encode, List.append_assoc], ⟨hbase, hhashes⟩, rfl⟩

/-! ## Whole blobs -/

/-- A transaction whose signatures are shaped as its inputs, and a block whose
coinbase is, serialize to a blob that parses back to them. -/
theorem binaryArray_from_to :
    (∀ tx y : Transaction, tx.SignaturesShaped → tx.Fits →
      ∃ blob, BinaryArray.to Transaction.serialize tx = some blob ∧
        BinaryArray.from Transaction.serialize y blob = some tx) ∧
    ∀ block y : Block, block.baseTransaction.SignaturesShaped → block.baseTransaction.Fits →
      FitsSizeT block.transactionHashes →
      ∃ blob, BinaryArray.to Block.serialize block = some blob ∧
        BinaryArray.from Block.serialize y blob = some block := by
  refine ⟨fun tx y hshape hfits => ?_, fun block y hshape hfits hhashes => ?_⟩
  · have htx : tx.Serializable := ⟨hfits, hshape⟩
    exact ⟨_, BinaryArray.to_eq_some Transaction.serialize_implements htx,
      BinaryArray.from_encode Transaction.serialize_implements htx y⟩
  · have hblock : block.Serializable := ⟨⟨hfits, hshape⟩, hhashes⟩
    exact ⟨_, BinaryArray.to_eq_some Block.serialize_implements hblock,
      BinaryArray.from_encode Block.serialize_implements hblock y⟩

/-- A coinbase of one output, alone and as the base of a block with no other
transaction. -/
theorem binaryArray_from_to_coinbase :
    (∃ blob, BinaryArray.to Transaction.serialize
        { version := 1, unlockTime := 10, inputs := [.base ⟨1⟩], outputs := [⟨70, .key default⟩],
          extra := [], signatures := [[]] } = some blob ∧
      BinaryArray.from Transaction.serialize default blob = some
        { version := 1, unlockTime := 10, inputs := [.base ⟨1⟩], outputs := [⟨70, .key default⟩],
          extra := [], signatures := [[]] }) ∧
    ∃ blob, BinaryArray.to Block.serialize
        { majorVersion := 1, minorVersion := 0, nonce := 7, timestamp := 5,
          previousBlockHash := nullHash, transactionHashes := [],
          baseTransaction :=
            { version := 1, unlockTime := 10, inputs := [.base ⟨1⟩],
              outputs := [⟨70, .key default⟩], extra := [], signatures := [[]] } } = some blob ∧
      BinaryArray.from Block.serialize default blob = some
        { majorVersion := 1, minorVersion := 0, nonce := 7, timestamp := 5,
          previousBlockHash := nullHash, transactionHashes := [],
          baseTransaction :=
            { version := 1, unlockTime := 10, inputs := [.base ⟨1⟩],
              outputs := [⟨70, .key default⟩], extra := [], signatures := [[]] } } :=
  ⟨binaryArray_from_to.1 _ default (by decide) (by decide),
    binaryArray_from_to.2 _ default (by decide) (by decide) (by decide)⟩

/-- A blob that parses to a transaction or a block is the serialization of what it
parses to, and the hash that the parse and validation returns is the object hash
of the transaction. -/
theorem binaryArray_to_of_from :
    (∀ (y tx : Transaction) (blob : Bytes), BinaryArray.from Transaction.serialize y blob = some tx →
      BinaryArray.to Transaction.serialize tx = some blob) ∧
    (∀ (y block : Block) (blob : Bytes), BinaryArray.from Block.serialize y blob = some block →
      BinaryArray.to Block.serialize block = some blob) ∧
    ∀ (cnFastHash : Bytes → Hash) (blob : Bytes) (y tx : Transaction) (txHash txPrefixHash : Hash),
      parseAndValidateTransactionFromBinaryArray cnFastHash blob y =
        some (tx, txHash, txPrefixHash) →
      BinaryArray.objectHash cnFastHash Transaction.serialize tx = txHash := by
  refine ⟨fun y tx blob hfrom => ?_, fun y block blob hfrom => ?_,
    fun cnFastHash blob y tx txHash txPrefixHash hparse => ?_⟩
  · obtain ⟨htx, rfl⟩ := BinaryArray.from_eq_some Transaction.serialize_implements hfrom
    exact BinaryArray.to_eq_some Transaction.serialize_implements htx
  · obtain ⟨hblock, rfl⟩ := BinaryArray.from_eq_some Block.serialize_implements hfrom
    exact BinaryArray.to_eq_some Block.serialize_implements hblock
  · unfold parseAndValidateTransactionFromBinaryArray at hparse
    split at hparse
    · cases hparse
    · rename_i tx' hfrom
      simp only [Option.some.injEq, Prod.mk.injEq] at hparse
      obtain ⟨rfl, rfl, -⟩ := hparse
      obtain ⟨htx, rfl⟩ := BinaryArray.from_eq_some Transaction.serialize_implements hfrom
      rw [BinaryArray.objectHash, BinaryArray.to_eq_some Transaction.serialize_implements htx]

/-- The blob of a coinbase of one output parses to it and is its serialization. -/
theorem binaryArray_to_of_from_coinbase :
    (BinaryArray.from Transaction.serialize default
        ([1, 10, 1, 255, 1, 1, 70, 2] ++ List.replicate 33 0) = some
      { version := 1, unlockTime := 10, inputs := [.base ⟨1⟩], outputs := [⟨70, .key default⟩],
        extra := [], signatures := [[]] } ∧
      BinaryArray.to Transaction.serialize
          { version := 1, unlockTime := 10, inputs := [.base ⟨1⟩],
            outputs := [⟨70, .key default⟩], extra := [], signatures := [[]] } =
        some ([1, 10, 1, 255, 1, 1, 70, 2] ++ List.replicate 33 0)) ∧
    (BinaryArray.from Block.serialize default
        ([1, 0, 5] ++ List.replicate 32 0 ++ [7, 0, 0, 0, 1, 10, 1, 255, 1, 1, 70, 2] ++
          List.replicate 34 0) = some
      { majorVersion := 1, minorVersion := 0, nonce := 7, timestamp := 5,
        previousBlockHash := nullHash, transactionHashes := [],
        baseTransaction :=
          { version := 1, unlockTime := 10, inputs := [.base ⟨1⟩],
            outputs := [⟨70, .key default⟩], extra := [], signatures := [[]] } } ∧
      BinaryArray.to Block.serialize
          { majorVersion := 1, minorVersion := 0, nonce := 7, timestamp := 5,
            previousBlockHash := nullHash, transactionHashes := [],
            baseTransaction :=
              { version := 1, unlockTime := 10, inputs := [.base ⟨1⟩],
                outputs := [⟨70, .key default⟩], extra := [], signatures := [[]] } } =
        some ([1, 0, 5] ++ List.replicate 32 0 ++ [7, 0, 0, 0, 1, 10, 1, 255, 1, 1, 70, 2] ++
          List.replicate 34 0)) ∧
    BinaryArray.objectHash (fun blob => ⟨List.replicate 32 blob.length.toUInt8, List.length_replicate⟩)
        Transaction.serialize
        { version := 1, unlockTime := 10, inputs := [.base ⟨1⟩], outputs := [⟨70, .key default⟩],
          extra := [], signatures := [[]] } =
      ⟨List.replicate 32 41, List.length_replicate⟩ := by
  have hfrom : BinaryArray.from Transaction.serialize default
      ([1, 10, 1, 255, 1, 1, 70, 2] ++ List.replicate 33 0) = some
        { version := 1, unlockTime := 10, inputs := [.base ⟨1⟩],
          outputs := [⟨70, .key default⟩], extra := [], signatures := [[]] } := by
    decide
  have hblock : BinaryArray.from Block.serialize default
      ([1, 0, 5] ++ List.replicate 32 0 ++ [7, 0, 0, 0, 1, 10, 1, 255, 1, 1, 70, 2] ++
        List.replicate 34 0) = some
        { majorVersion := 1, minorVersion := 0, nonce := 7, timestamp := 5,
          previousBlockHash := nullHash, transactionHashes := [],
          baseTransaction :=
            { version := 1, unlockTime := 10, inputs := [.base ⟨1⟩],
              outputs := [⟨70, .key default⟩], extra := [], signatures := [[]] } } := by
    decide
  refine ⟨⟨hfrom, binaryArray_to_of_from.1 _ _ _ hfrom⟩,
    ⟨hblock, binaryArray_to_of_from.2.1 _ _ _ hblock⟩,
    binaryArray_to_of_from.2.2 _ ([1, 10, 1, 255, 1, 1, 70, 2] ++ List.replicate 33 0) default _ _
      (BinaryArray.objectHash
        (fun blob => ⟨List.replicate 32 blob.length.toUInt8, List.length_replicate⟩)
        TransactionPrefix.serialize
        { version := 1, unlockTime := 10, inputs := [.base ⟨1⟩],
          outputs := [⟨70, .key default⟩], extra := [] }) ?_⟩
  rw [parseAndValidateTransactionFromBinaryArray, hfrom]
  rfl

end CryptoNote

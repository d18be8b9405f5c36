import CryptoNote.Types
import Mathlib.Data.FinEnum

/-!
# Transaction extra fields

The parser {lit}`parseTransactionExtra` of {lit}`TransactionExtra.cpp`, which
splits the {lit}`extra` bytes of a transaction into padding, public-key and
nonce fields, the writer {lit}`writeTransactionExtra` that lays such fields
out, and the payment id that {lit}`BlockchainExplorerDataBuilder::getPaymentId`
reads out of the first nonce field.  The payment-id indices of the pool and of
the chain file transactions under that id.

The parser reads through a stream {lit}`Reader`, which throws on a read past
the end; the parser catches that and returns false.  Fields pushed before the
throw stay in the output vector, and {lit}`getPaymentId` ignores the status,
so it looks at them too.  The padding loop stops on a nonzero byte with an
early false and also fails once more than {lit}`TX_EXTRA_PADDING_MAX_COUNT`
bytes would be counted, so a padding field always runs to the end of the
bytes.

Main results:

- Theorem {lit}`parseTransactionExtra_writeTransactionExtra`: the parser reads
  back the fields the writer laid out, for every list of fields whose nonces fit
  their length byte, whose paddings count one to
  {lit}`TX_EXTRA_PADDING_MAX_COUNT` bytes, and whose only padding, if any, comes
  last.
- Theorem {lit}`transactionExtra_codec`: the same in the words of the writer,
  that the writer appends those bytes, and that after such fields the parser
  fails, keeping them, on a padding with a nonzero byte or too many bytes and
  on a public key or nonce cut short
  ({lit}`parseExtraLoop_padding_tag`, {lit}`parseExtraLoop_publicKey_short`,
  {lit}`parseExtraLoop_nonce_short`).
- Theorem {lit}`getPaymentId_of_writeTransactionExtra`: the payment id of such
  bytes is the one in the first nonce field written, so a nonce made by
  {lit}`setPaymentIdToTransactionExtraNonce` is read back as its id.
- Theorem {lit}`getPaymentId_eq_none_of_extra_nil`: a transaction without extra
  bytes carries no payment id.
-/

namespace CryptoNote


/-- {lit}`TX_EXTRA_PADDING_MAX_COUNT`. -/
def txExtraPaddingMaxCount : Nat := 255

/-- {lit}`TX_EXTRA_NONCE_MAX_COUNT`. -/
def txExtraNonceMaxCount : Nat := 255

/-- {lit}`TX_EXTRA_TAG_PADDING`. -/
def txExtraTagPadding : UInt8 := 0x00

/-- {lit}`TX_EXTRA_TAG_PUBKEY`. -/
def txExtraTagPubkey : UInt8 := 0x01

/-- {lit}`TX_EXTRA_NONCE`. -/
def txExtraNonce : UInt8 := 0x02

/-- {lit}`TX_EXTRA_NONCE_PAYMENT_ID`, the first byte of a nonce that holds a
payment id. -/
def txExtraNoncePaymentId : UInt8 := 0x00

/-- {lit}`transaction_extra_t`: a {lit}`boost::variant` of the three fields. -/
inductive TransactionExtraField where
  | padding (size : Nat)
  | publicKey (publicKey : PublicKey)
  | nonce (nonce : List UInt8)
deriving DecidableEq, Repr

/-! ## The parser -/

/-- The padding loop of {lit}`parseTransactionExtra`: {lit}`size` counts the tag
and the zero bytes read so far, the loop runs while bytes remain and
{lit}`size` is at most {lit}`TX_EXTRA_PADDING_MAX_COUNT`, and {lit}`none` is
its early {lit}`return false` on a nonzero byte. -/
def readPadding (size : Nat) : List UInt8 → Option (Nat × List UInt8)
  | [] => some (size, [])
  | pad :: rest =>
    if size ≤ txExtraPaddingMaxCount then
      if pad ≠ 0 then none else readPadding (size + 1) rest
    else some (size, pad :: rest)

/-- Reading a padding leaves no more bytes than it was given. -/
theorem length_readPadding_le {size n : Nat} {bytes rest : List UInt8}
    (h : readPadding size bytes = some (n, rest)) : rest.length ≤ bytes.length := by
  induction bytes generalizing size with
  | nil =>
    simp only [readPadding, Option.some.injEq, Prod.mk.injEq] at h
    obtain ⟨-, rfl⟩ := h
    exact Nat.le_refl _
  | cons pad bytes ih =>
    simp only [readPadding] at h
    split_ifs at h with hsize hpad
    · exact Nat.le_succ_of_le (ih h)
    · simp only [Option.some.injEq, Prod.mk.injEq] at h
      obtain ⟨-, rfl⟩ := h
      exact Nat.le_refl _

/-- The loop of {lit}`parseTransactionExtra` from the next tag on, with the
fields pushed so far.  A read past the end (a public key or nonce cut short,
a nonce without its length byte) is the exception the parser turns into
false; a tag the switch does not know is skipped. -/
def parseExtraLoop (fields : List TransactionExtraField) (bytes : List UInt8) :
    Bool × List TransactionExtraField :=
  match bytes with
  | [] => (true, fields)
  | tag :: rest =>
    if tag = txExtraTagPadding then
      match h : readPadding 1 rest with
      | none => (false, fields)
      | some (size, rest') =>
        if size > txExtraPaddingMaxCount then (false, fields)
        else
          have := length_readPadding_le h
          parseExtraLoop (fields ++ [.padding size]) rest'
    else if tag = txExtraTagPubkey then
      if h : 32 ≤ rest.length then
        parseExtraLoop (fields ++ [.publicKey ⟨rest.take 32, by simp; omega⟩]) (rest.drop 32)
      else (false, fields)
    else if tag = txExtraNonce then
      match rest with
      | [] => (false, fields)
      | size :: body =>
        if size.toNat ≤ body.length then
          parseExtraLoop (fields ++ [.nonce (body.take size.toNat)]) (body.drop size.toNat)
        else (false, fields)
    else parseExtraLoop fields rest
termination_by bytes.length
decreasing_by
  all_goals simp only [List.length_cons, List.length_drop]
  all_goals omega

/-- {lit}`parseTransactionExtra`: the status and the fields it pushed. -/
def parseTransactionExtra (extra : List UInt8) : Bool × List TransactionExtraField :=
  if extra.isEmpty then (true, []) else parseExtraLoop [] extra

/-- {lit}`findTransactionExtraFieldByType` for the nonce: the first nonce field. -/
def findNonce : List TransactionExtraField → Option (List UInt8)
  | [] => none
  | .nonce nonce :: _ => some nonce
  | _ :: fields => findNonce fields

/-- {lit}`getPaymentIdFromTransactionExtraNonce`: a nonce of exactly the tag and
a hash, with the payment-id tag. -/
def getPaymentIdFromTransactionExtraNonce (nonce : List UInt8) : Option Hash :=
  match nonce with
  | tag :: body =>
    if h : body.length = 32 then
      if tag = txExtraNoncePaymentId then some ⟨body, h⟩ else none
    else none
  | [] => none

/-- {lit}`BlockchainExplorerDataBuilder::getPaymentId`, which the payment-id
indices call: the parse status is ignored. -/
def getPaymentId (tx : Transaction) : Option Hash :=
  (findNonce (parseTransactionExtra tx.extra).2).bind getPaymentIdFromTransactionExtraNonce

theorem getPaymentId_eq_none_of_extra_nil {tx : Transaction} (h : tx.extra = []) :
    getPaymentId tx = none := by
  simp [getPaymentId, parseTransactionExtra, h, findNonce]

/-! ## The writer -/

/-- One field as {lit}`ExtraSerializerVisitor` appends it, or {lit}`none` where
the visitor returns false: a padding of more than
{lit}`TX_EXTRA_PADDING_MAX_COUNT` bytes, or a nonce longer than its length byte
can say ({lit}`addExtraNonceToTransactionExtra`).  A padding is that many zero
bytes, its tag among them; a public key is its tag and its bytes
({lit}`addTransactionPublicKeyToExtra`). -/
def TransactionExtraField.encode : TransactionExtraField → Option (List UInt8)
  | .padding size =>
    if size > txExtraPaddingMaxCount then none else some (List.replicate size 0)
  | .publicKey key => some (txExtraTagPubkey :: key.bytes)
  | .nonce bytes =>
    if bytes.length > txExtraNonceMaxCount then none
    else some (txExtraNonce :: bytes.length.toUInt8 :: bytes)

/-- {lit}`writeTransactionExtra`: append the fields in order, stopping with
false at the first the visitor refuses. -/
def writeTransactionExtra (extra : List UInt8) : List TransactionExtraField → Bool × List UInt8
  | [] => (true, extra)
  | field :: fields =>
    match field.encode with
    | none => (false, extra)
    | some bytes => writeTransactionExtra (extra ++ bytes) fields

/-- {lit}`setPaymentIdToTransactionExtraNonce`: the nonce that carries a payment
id. -/
def setPaymentIdToTransactionExtraNonce (paymentId : Hash) : List UInt8 :=
  txExtraNoncePaymentId :: paymentId.bytes

/-! ## Reading back what was written -/

/-- A field list the parser can read back: nonces fit their length byte,
paddings count one to {lit}`TX_EXTRA_PADDING_MAX_COUNT` bytes, and a padding,
which runs to the end of the bytes, comes last. -/
def ExtraFieldsParsable : List TransactionExtraField → Prop
  | [] => True
  | [.padding size] => 1 ≤ size ∧ size ≤ txExtraPaddingMaxCount
  | .padding _ :: _ :: _ => False
  | .publicKey _ :: fields => ExtraFieldsParsable fields
  | .nonce nonce :: fields => nonce.length ≤ txExtraNonceMaxCount ∧ ExtraFieldsParsable fields

/-- Zeros within the padding limit are read as padding to the end. -/
theorem readPadding_replicate (size k : Nat) (h : size + k ≤ txExtraPaddingMaxCount) :
    readPadding size (List.replicate k 0) = some (size + k, []) := by
  induction k generalizing size with
  | zero => rfl
  | succ k ih =>
    rw [List.replicate_succ, readPadding, if_pos (by omega), if_neg (by simp),
      ih (size + 1) (by omega)]
    congr 2
    omega

/-- A public key tag and its thirty-two bytes add a public key field. -/
theorem parseExtraLoop_publicKey (fields : List TransactionExtraField) (key : PublicKey)
    (rest : List UInt8) :
    parseExtraLoop fields (txExtraTagPubkey :: key.bytes ++ rest) =
      parseExtraLoop (fields ++ [.publicKey key]) rest := by
  have hlength : 32 ≤ (key.bytes ++ rest).length := by simp [key.length_eq]
  rw [List.cons_append, parseExtraLoop.eq_def]
  dsimp only
  rw [if_neg (by decide), if_pos rfl, dif_pos hlength]
  have htake : (key.bytes ++ rest).take 32 = key.bytes := by
    rw [List.take_append_of_le_length (by simp [key.length_eq]), List.take_of_length_le
      (by simp [key.length_eq])]
  have hdrop : (key.bytes ++ rest).drop 32 = rest := by
    rw [List.drop_append_of_le_length (by simp [key.length_eq]),
      List.drop_of_length_le (by simp [key.length_eq]), List.nil_append]
  simp only [htake, hdrop]

/-- A nonce tag, its length byte and its bytes add a nonce field. -/
theorem parseExtraLoop_nonce (fields : List TransactionExtraField) (nonce rest : List UInt8)
    (hnonce : nonce.length ≤ txExtraNonceMaxCount) :
    parseExtraLoop fields (txExtraNonce :: nonce.length.toUInt8 :: nonce ++ rest) =
      parseExtraLoop (fields ++ [.nonce nonce]) rest := by
  have hsize : nonce.length.toUInt8.toNat = nonce.length := by
    unfold txExtraNonceMaxCount at hnonce
    simp [Nat.toUInt8_eq]
    omega
  rw [List.cons_append, List.cons_append, parseExtraLoop.eq_def]
  dsimp only
  rw [if_neg (by decide), if_neg (by decide), if_pos rfl]
  simp only [hsize, List.length_append, Nat.le_add_right, if_true, List.take_left',
    List.drop_left']

/-- Between one and the limit's worth of zeros end the extra with a padding field. -/
theorem parseExtraLoop_padding (fields : List TransactionExtraField) (size : Nat)
    (hsize : 1 ≤ size ∧ size ≤ txExtraPaddingMaxCount) :
    parseExtraLoop fields (List.replicate size 0) = (true, fields ++ [.padding size]) := by
  obtain ⟨k, rfl⟩ : ∃ k, size = k + 1 := ⟨size - 1, by omega⟩
  rw [List.replicate_succ, parseExtraLoop.eq_def]
  dsimp only
  rw [if_pos (show (0 : UInt8) = txExtraTagPadding from rfl)]
  split
  · rename_i h
    rw [readPadding_replicate 1 k (by omega)] at h
    cases h
  · rename_i size' rest' h
    rw [readPadding_replicate 1 k (by omega), Option.some.injEq, Prod.mk.injEq] at h
    obtain ⟨rfl, rfl⟩ := h
    rw [if_neg (by omega), Nat.add_comm, parseExtraLoop.eq_1]

/-- Writing fields after bytes already written appends what the fields write. -/
theorem writeTransactionExtra_append (extra : List UInt8) :
    ∀ fields : List TransactionExtraField, writeTransactionExtra extra fields =
      ((writeTransactionExtra [] fields).1, extra ++ (writeTransactionExtra [] fields).2)
  | [] => by simp [writeTransactionExtra]
  | field :: fields => by
    simp only [writeTransactionExtra]
    split
    · simp
    · rw [writeTransactionExtra_append (extra ++ _) fields,
        writeTransactionExtra_append ([] ++ _) fields, List.nil_append, List.append_assoc]

/-- The loop reads back the fields the writer appended, after whatever fields
it had already pushed, and goes on with the bytes after them.  A padding runs to
the end of the bytes, so nothing may follow a list that has one. -/
theorem parseExtraLoop_writeTransactionExtra_append :
    ∀ (fields : List TransactionExtraField), ExtraFieldsParsable fields →
      ∀ (pushed : List TransactionExtraField) (tail : List UInt8),
        (tail = [] ∨ ∀ size, .padding size ∉ fields) →
        parseExtraLoop pushed ((writeTransactionExtra [] fields).2 ++ tail) =
          parseExtraLoop (pushed ++ fields) tail
  | [], _, pushed, tail, _ => by simp [writeTransactionExtra]
  | [.padding size], hsize, pushed, tail, htail => by
    have hnil : tail = [] := htail.resolve_right fun h => h size (List.mem_singleton_self _)
    have hfits : ¬ size > txExtraPaddingMaxCount := by
      simp only [ExtraFieldsParsable] at hsize
      omega
    simp only [writeTransactionExtra, TransactionExtraField.encode, hfits, if_false,
      List.nil_append, hnil, List.append_nil]
    rw [parseExtraLoop_padding pushed size hsize, parseExtraLoop.eq_1]
  | .padding _ :: _ :: _, h, _, _, _ => h.elim
  | .publicKey key :: fields, hfields, pushed, tail, htail => by
    have hrest : tail = [] ∨ ∀ size, .padding size ∉ fields :=
      htail.imp_right fun h size hs => h size (List.mem_cons_of_mem _ hs)
    simp only [writeTransactionExtra, TransactionExtraField.encode]
    rw [writeTransactionExtra_append, List.nil_append]
    dsimp only
    rw [List.append_assoc, parseExtraLoop_publicKey,
      parseExtraLoop_writeTransactionExtra_append fields hfields _ _ hrest, List.append_assoc,
      List.singleton_append]
  | .nonce nonce :: fields, hfields, pushed, tail, htail => by
    have hrest : tail = [] ∨ ∀ size, .padding size ∉ fields :=
      htail.imp_right fun h size hs => h size (List.mem_cons_of_mem _ hs)
    simp only [ExtraFieldsParsable] at hfields
    have hfits : ¬ nonce.length > txExtraNonceMaxCount := by omega
    simp only [writeTransactionExtra, TransactionExtraField.encode, hfits, if_false]
    rw [writeTransactionExtra_append, List.nil_append]
    dsimp only
    rw [List.append_assoc, parseExtraLoop_nonce _ _ _ hfields.1,
      parseExtraLoop_writeTransactionExtra_append fields hfields.2 _ _ hrest, List.append_assoc,
      List.singleton_append]

/-- The loop reads back the fields the writer appended, after whatever fields
it had already pushed. -/
theorem parseExtraLoop_writeTransactionExtra (fields : List TransactionExtraField)
    (hfields : ExtraFieldsParsable fields) (pushed : List TransactionExtraField) :
    parseExtraLoop pushed (writeTransactionExtra [] fields).2 = (true, pushed ++ fields) := by
  have hloop := parseExtraLoop_writeTransactionExtra_append fields hfields pushed [] (Or.inl rfl)
  rwa [List.append_nil, parseExtraLoop.eq_1] at hloop

theorem parseTransactionExtra_eq_parseExtraLoop (extra : List UInt8) :
    parseTransactionExtra extra = parseExtraLoop [] extra := by
  unfold parseTransactionExtra
  split_ifs with h
  · rw [List.isEmpty_iff.mp h, parseExtraLoop.eq_1]
  · rfl

/-- The parser reads back every field list the writer lays out. -/
theorem parseTransactionExtra_writeTransactionExtra {fields : List TransactionExtraField}
    (hfields : ExtraFieldsParsable fields) :
    parseTransactionExtra (writeTransactionExtra [] fields).2 = (true, fields) := by
  rw [parseTransactionExtra_eq_parseExtraLoop, parseExtraLoop_writeTransactionExtra fields hfields,
    List.nil_append]

/-- The payment id of a transaction whose extra bytes the writer laid out is
the one in the first nonce field it wrote. -/
theorem getPaymentId_of_writeTransactionExtra {tx : Transaction}
    {fields : List TransactionExtraField} (hfields : ExtraFieldsParsable fields)
    (hextra : tx.extra = (writeTransactionExtra [] fields).2) :
    getPaymentId tx = (findNonce fields).bind getPaymentIdFromTransactionExtraNonce := by
  rw [getPaymentId, hextra, parseTransactionExtra_writeTransactionExtra hfields]

/-! ## Where the parser stops -/

/-- A padding the loop ends within {lit}`TX_EXTRA_PADDING_MAX_COUNT` bytes ran
over zeros to the end of the bytes. -/
theorem readPadding_of_le {size n : Nat} {bytes rest : List UInt8}
    (h : readPadding size bytes = some (n, rest)) (hn : n ≤ txExtraPaddingMaxCount) :
    (∀ b ∈ bytes, b = 0) ∧ n = size + bytes.length ∧ rest = [] := by
  induction bytes generalizing size with
  | nil =>
    simp only [readPadding, Option.some.injEq, Prod.mk.injEq] at h
    obtain ⟨rfl, rfl⟩ := h
    simp
  | cons pad bytes ih =>
    simp only [readPadding] at h
    split_ifs at h with hsize hpad
    · obtain ⟨hzero, rfl, rfl⟩ := ih h
      refine ⟨?_, by simp only [List.length_cons]; omega, rfl⟩
      intro b hb
      rcases List.mem_cons.mp hb with rfl | hb
      · exact not_not.mp hpad
      · exact hzero b hb
    · simp only [Option.some.injEq, Prod.mk.injEq] at h
      omega

/-- After a padding tag the loop succeeds exactly on fewer than
{lit}`TX_EXTRA_PADDING_MAX_COUNT` zeros up to the end of the bytes, and pushes
one padding counting them and the tag. -/
theorem parseExtraLoop_padding_tag (fields : List TransactionExtraField) (rest : List UInt8) :
    parseExtraLoop fields (txExtraTagPadding :: rest) =
      if (∀ b ∈ rest, b = 0) ∧ rest.length < txExtraPaddingMaxCount then
        (true, fields ++ [.padding (rest.length + 1)])
      else (false, fields) := by
  by_cases hok : (∀ b ∈ rest, b = 0) ∧ rest.length < txExtraPaddingMaxCount
  · have hrest : rest = List.replicate rest.length 0 := List.eq_replicate_iff.mpr ⟨rfl, hok.1⟩
    have hloop := parseExtraLoop_padding fields (rest.length + 1) ⟨by omega, by omega⟩
    rw [List.replicate_succ, ← hrest] at hloop
    rw [if_pos hok]
    exact hloop
  · rw [if_neg hok, parseExtraLoop.eq_def]
    dsimp only
    rw [if_pos rfl]
    split
    · rfl
    · rename_i size rest' hpad
      split
      · rfl
      · rename_i hfits
        obtain ⟨hzero, hsize, -⟩ := readPadding_of_le hpad (by omega)
        exact absurd ⟨hzero, by omega⟩ hok

theorem parseExtraLoop_publicKey_short (fields : List TransactionExtraField) (rest : List UInt8)
    (hshort : rest.length < 32) :
    parseExtraLoop fields (txExtraTagPubkey :: rest) = (false, fields) := by
  rw [parseExtraLoop.eq_def]
  dsimp only
  rw [if_neg (by decide), if_pos rfl, dif_neg (by omega)]

/-- A nonce tag without its length byte, or with fewer bytes after it than the
length byte says, fails. -/
theorem parseExtraLoop_nonce_short (fields : List TransactionExtraField) (rest : List UInt8)
    (hshort : rest = [] ∨ ∃ size body, rest = size :: body ∧ body.length < size.toNat) :
    parseExtraLoop fields (txExtraNonce :: rest) = (false, fields) := by
  rw [parseExtraLoop.eq_def]
  dsimp only
  rw [if_neg (by decide), if_neg (by decide), if_pos rfl]
  rcases hshort with rfl | ⟨size, body, rfl, hbody⟩
  · rfl
  · dsimp only
    rw [if_neg (by omega)]

/-! ## The field lists the writer and the parser agree on -/

/-- A field other than a padding does not change where paddings may stand. -/
theorem padding_last_cons_iff {field : TransactionExtraField}
    (hfield : ∀ size, field ≠ .padding size) (fields : List TransactionExtraField)
    (P : Nat → Prop) :
    (∀ i size, (field :: fields)[i]? = some (.padding size) →
        i + 1 = (field :: fields).length ∧ P size) ↔
      ∀ i size, fields[i]? = some (.padding size) → i + 1 = fields.length ∧ P size := by
  constructor
  · intro h i size hi
    have := h (i + 1) size (by simpa using hi)
    simp only [List.length_cons] at this
    exact ⟨by omega, this.2⟩
  · intro h i size hi
    cases i with
    | zero => exact absurd (Option.some.inj hi) (hfield size)
    | succ i =>
      have := h i size (by simpa using hi)
      simp only [List.length_cons]
      exact ⟨by omega, this.2⟩

/-- {lit}`ExtraFieldsParsable` in the words of the writer: paddings stand only
last and count one to {lit}`TX_EXTRA_PADDING_MAX_COUNT` bytes, and every nonce
fits its length byte. -/
theorem extraFieldsParsable_iff :
    ∀ fields : List TransactionExtraField, ExtraFieldsParsable fields ↔
      (∀ i size, fields[i]? = some (.padding size) →
        i + 1 = fields.length ∧ 1 ≤ size ∧ size ≤ txExtraPaddingMaxCount) ∧
      ∀ nonce, .nonce nonce ∈ fields → nonce.length ≤ txExtraNonceMaxCount
  | [] => by simp [ExtraFieldsParsable]
  | [.padding size] => by
    constructor
    · intro h
      refine ⟨fun i size' hi => ?_, by simp⟩
      cases i with
      | zero =>
        cases Option.some.inj hi
        exact ⟨rfl, h⟩
      | succ i => simp at hi
    · rintro ⟨h, -⟩
      exact (h 0 size rfl).2
  | .padding size :: field :: fields => by
    simp only [ExtraFieldsParsable, false_iff, not_and]
    intro h
    have := (h 0 size rfl).1
    simp at this
  | .publicKey key :: fields => by
    rw [ExtraFieldsParsable, extraFieldsParsable_iff fields,
      padding_last_cons_iff (fun _ => by simp) fields]
    simp
  | .nonce nonce :: fields => by
    rw [ExtraFieldsParsable, extraFieldsParsable_iff fields,
      padding_last_cons_iff (fun _ => by simp) fields]
    simp only [List.mem_cons, TransactionExtraField.nonce.injEq]
    constructor
    · rintro ⟨hnonce, hpadding, hnonces⟩
      refine ⟨hpadding, fun nonce' h => ?_⟩
      rcases h with rfl | h
      · exact hnonce
      · exact hnonces nonce' h
    · rintro ⟨hpadding, hnonces⟩
      exact ⟨hnonces nonce (Or.inl rfl), hpadding, fun nonce' h => hnonces nonce' (Or.inr h)⟩

/-- The writer accepts every field its visitor can encode. -/
theorem writeTransactionExtra_fst {fields : List TransactionExtraField}
    (hencode : ∀ field ∈ fields, field.encode.isSome) (extra : List UInt8) :
    (writeTransactionExtra extra fields).1 = true := by
  induction fields generalizing extra with
  | nil => rfl
  | cons field fields ih =>
    obtain ⟨bytes, hbytes⟩ := Option.isSome_iff_exists.mp (hencode field List.mem_cons_self)
    rw [writeTransactionExtra, hbytes]
    exact ih (fun f hf => hencode f (List.mem_cons_of_mem _ hf)) _

/-- Every field of a list that the parser reads back can be written. -/
theorem encode_isSome_of_parsable {fields : List TransactionExtraField}
    (hfields : ExtraFieldsParsable fields) : ∀ field ∈ fields, field.encode.isSome := by
  rw [extraFieldsParsable_iff] at hfields
  intro field hfield
  cases field with
  | padding size =>
    obtain ⟨i, hi⟩ := List.mem_iff_getElem?.mp hfield
    have hfits := (hfields.1 i size hi).2.2
    simp [TransactionExtraField.encode, show ¬ size > txExtraPaddingMaxCount by omega]
  | publicKey key => rfl
  | nonce nonce =>
    have hfits := hfields.2 nonce hfield
    simp [TransactionExtraField.encode, show ¬ nonce.length > txExtraNonceMaxCount by omega]

/-- After fields the writer laid out without a padding, the parser fails at a
field it cannot read and keeps the fields before it. -/
theorem parseTransactionExtra_written_append {fields : List TransactionExtraField}
    (hfields : ExtraFieldsParsable fields) (hpadding : ∀ size, .padding size ∉ fields)
    {tag : UInt8} {rest : List UInt8}
    (hfail : ∀ pushed, parseExtraLoop pushed (tag :: rest) = (false, pushed)) :
    parseTransactionExtra ((writeTransactionExtra [] fields).2 ++ tag :: rest) =
      (false, fields) := by
  rw [parseTransactionExtra_eq_parseExtraLoop,
    parseExtraLoop_writeTransactionExtra_append fields hfields [] _ (Or.inr hpadding),
    List.nil_append, hfail]

/-- The transaction-extra codec.  The writer appends the bytes of every field
list whose paddings stand only last and count one to
{lit}`TX_EXTRA_PADDING_MAX_COUNT` bytes and whose nonces fit their length byte,
and the parser reads those bytes back as the same list.  After fields without a
padding, the parser fails on a padding tag followed by a nonzero byte or by
{lit}`TX_EXTRA_PADDING_MAX_COUNT` bytes or more, on a public key cut short and
on a nonce cut short, keeping the fields it read before. -/
theorem transactionExtra_codec :
    (∀ fields : List TransactionExtraField,
      (∀ i size, fields[i]? = some (.padding size) →
        i + 1 = fields.length ∧ 1 ≤ size ∧ size ≤ txExtraPaddingMaxCount) →
      (∀ nonce, .nonce nonce ∈ fields → nonce.length ≤ txExtraNonceMaxCount) →
      (∀ extra, writeTransactionExtra extra fields =
        (true, extra ++ (writeTransactionExtra [] fields).2)) ∧
      parseTransactionExtra (writeTransactionExtra [] fields).2 = (true, fields)) ∧
    ∀ fields : List TransactionExtraField,
      (∀ size, .padding size ∉ fields) →
      (∀ nonce, .nonce nonce ∈ fields → nonce.length ≤ txExtraNonceMaxCount) →
      (∀ rest : List UInt8, ((∃ b ∈ rest, b ≠ 0) ∨ txExtraPaddingMaxCount ≤ rest.length) →
        parseTransactionExtra ((writeTransactionExtra [] fields).2 ++ txExtraTagPadding :: rest) =
          (false, fields)) ∧
      (∀ rest : List UInt8, rest.length < 32 →
        parseTransactionExtra ((writeTransactionExtra [] fields).2 ++ txExtraTagPubkey :: rest) =
          (false, fields)) ∧
      ∀ rest : List UInt8, (rest = [] ∨ ∃ size body, rest = size :: body ∧ body.length < size.toNat) →
        parseTransactionExtra ((writeTransactionExtra [] fields).2 ++ txExtraNonce :: rest) =
          (false, fields) := by
  constructor
  · intro fields hpadding hnonces
    have hfields := (extraFieldsParsable_iff fields).mpr ⟨hpadding, hnonces⟩
    refine ⟨fun extra => ?_, parseTransactionExtra_writeTransactionExtra hfields⟩
    rw [writeTransactionExtra_append, writeTransactionExtra_fst (encode_isSome_of_parsable hfields)]
  · intro fields hpadding hnonces
    have hfields : ExtraFieldsParsable fields := (extraFieldsParsable_iff fields).mpr
      ⟨fun i size hi => absurd (List.mem_of_getElem? hi) (hpadding size), hnonces⟩
    refine ⟨fun rest hbad => ?_, fun rest hshort => ?_, fun rest hshort => ?_⟩
    · apply parseTransactionExtra_written_append hfields hpadding
      intro pushed
      rw [parseExtraLoop_padding_tag, if_neg]
      rintro ⟨hzero, hlength⟩
      rcases hbad with ⟨b, hb, hne⟩ | hlong
      · exact hne (hzero b hb)
      · omega
    · exact parseTransactionExtra_written_append hfields hpadding
        fun pushed => parseExtraLoop_publicKey_short pushed rest hshort
    · exact parseTransactionExtra_written_append hfields hpadding
        fun pushed => parseExtraLoop_nonce_short pushed rest hshort

/-- A nonce followed by a padding of two bytes is written and read back. -/
theorem transactionExtra_codec_nonce_padding :
    parseTransactionExtra (writeTransactionExtra [] [.nonce [0], .padding 2]).2 =
      (true, [.nonce [0], .padding 2]) := by
  refine (transactionExtra_codec.1 [.nonce [0], .padding 2] ?_ ?_).2
  · intro i size hi
    match i, hi with
    | 1, hi =>
      cases Option.some.inj hi
      exact ⟨rfl, by decide, by decide⟩
  · intro nonce hnonce
    simp only [List.mem_cons, TransactionExtraField.nonce.injEq, reduceCtorEq, List.mem_nil_iff,
      or_false] at hnonce
    subst hnonce
    decide

theorem getPaymentIdFromTransactionExtraNonce_set (paymentId : Hash) :
    getPaymentIdFromTransactionExtraNonce (setPaymentIdToTransactionExtraNonce paymentId) =
      some paymentId := by
  simp [setPaymentIdToTransactionExtraNonce, getPaymentIdFromTransactionExtraNonce,
    paymentId.length_eq]

end CryptoNote

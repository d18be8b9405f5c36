import CryptoNote.Common.Base58
import CryptoNote.Stream.Primitives

/-!
# The address codec

{lit}`tools::base58::encode_addr` and {lit}`decode_addr` in
{lit}`common/base58.cpp`, with the varint helpers {lit}`fromVarint` and
{lit}`toVarint` of {lit}`common/binary.h`.  An address is the Base58 encoding of
the tag as a varint, the data, and the first four bytes of the
{lit}`cn_fast_hash` of both.  The hash is a parameter: nothing below depends on
which function it is.

{lit}`toVarint` has three exits besides a completed value: overflow, a final zero
group after the first, and the end of the input.  The last returns the count of
bytes read so far, which is positive as soon as one byte was read.

Main results:

- Theorem {lit}`fromVarint_eq`: {lit}`fromVarint` writes the LEB128 encoding.
- Theorem {lit}`toVarintLoop_of_readVarintLoop`: wherever the stream reader
  {lit}`Reader::readVarint` completes a value, {lit}`toVarint` completes the
  same value with the same bytes.
- Theorem {lit}`decodeAddr_encodeAddr`: every tag and data read back from their
  address.
- Theorem {lit}`decodeAddr_accepts_truncated_tag`: for every hash function,
  {lit}`decode_addr` accepts an address whose tag is one continuation byte and
  nothing after it, and the tag and data it returns encode to another address.
-/

namespace CryptoNote
namespace Base58

open ByteCodec

/-! ## Varints -/

/-- {lit}`fromVarint`: seven bits at a time, the lowest first, with the top bit
set on every byte but the last. -/
def fromVarint (v : UInt64) : List UInt8 :=
  if _h : 0x80 ≤ v then ((v.toUInt8 &&& 0x7f) ||| 0x80) :: fromVarint (v >>> 7)
  else [v.toUInt8]
termination_by v.toNat
decreasing_by exact uint64_shiftRight_7_lt _h

/-- The loop of {lit}`toVarint` for a {lit}`uint64_t`, from the bytes left, the
shift of the next group, the count of bytes read and the value so far: the
count, or -1 on overflow and -2 on a final zero group, and the value. -/
def toVarintLoop : List UInt8 → Nat → Int → UInt64 → Int × UInt64
  -- end of input
  | [], _, read, i => (read, i)
  | byte :: rest, shift, read, i =>
    let read := read + 1
    if 64 ≤ shift + 7 ∧ 2 ^ (64 - shift) ≤ byte.toNat then (-1, i)
    else if byte = 0 ∧ shift ≠ 0 then (-2, i)
    else
      let i := i ||| (byte &&& 0x7f).toUInt64 <<< shift.toUInt64
      if byte &&& 0x80 = 0 then (read, i)
      else toVarintLoop rest (shift + 7) read i

/-- {lit}`toVarint` into a {lit}`uint64_t`. -/
def toVarint (str : List UInt8) : Int × UInt64 :=
  toVarintLoop str 0 0 0

/-- The byte {lit}`fromVarint` writes before a continuation. -/
theorem toNat_low_flagged (v : UInt64) :
    ((v.toUInt8 &&& 0x7f) ||| 0x80).toNat = v.toNat % 128 + 128 := by
  rw [UInt8.toNat_or, uint8_and_0x7f_toNat, UInt64.toNat_toUInt8,
    show (0x80 : UInt8).toNat = 128 from rfl, nat_or_128 _ (by omega)]
  omega

/-- {lit}`fromVarint` writes the LEB128 encoding of its value. -/
theorem fromVarint_eq (v : UInt64) : fromVarint v = Leb128.encode v.toNat := by
  -- induction on the value, which the loop shifts right by seven each round
  induction hn : v.toNat using Nat.strong_induction_on generalizing v with
  | _ n ih =>
  subst hn
  by_cases h : 0x80 ≤ v
  · have hle : 128 ≤ v.toNat := UInt64.le_iff_toNat_le.mp h
    have hbyte : (v.toUInt8 &&& 0x7f) ||| 0x80 = (v.toNat % 128 + 128).toUInt8 := by
      apply UInt8.toNat.inj
      rw [toNat_low_flagged, toNat_toUInt8_of_lt (by omega)]
    have hrest := ih (v >>> 7).toNat (by rw [uint64_shiftRight_7]; omega) (v >>> 7) rfl
    rw [fromVarint, dif_pos h, Leb128.encode_of_le hle, hbyte, hrest, uint64_shiftRight_7]
  · have hlt : v.toNat < 128 := by
      rw [UInt64.le_iff_toNat_le] at h
      change ¬128 ≤ v.toNat at h
      omega
    have hbyte : v.toUInt8 = v.toNat.toUInt8 := by
      apply UInt8.toNat.inj
      rw [UInt64.toNat_toUInt8, toNat_toUInt8_of_lt (by omega)]
      omega
    rw [fromVarint, dif_neg h, Leb128.encode_of_lt hlt, hbyte]

/-- The group {lit}`toVarint` ors in at a shift below 64, in numbers. -/
theorem toNat_or_group {i : UInt64} {shift : Nat} (hshift : shift < 64) (byte : UInt8) :
    (i ||| (byte &&& 0x7f).toUInt64 <<< shift.toUInt64).toNat =
      (i.toNat ||| (byte &&& 0x7f).toNat <<< shift) % 2 ^ 64 := by
  have hs : shift.toUInt64.toNat % 64 = shift := by
    rw [Nat.toUInt64_eq, UInt64.toNat_ofNat']
    omega
  rw [UInt64.toNat_or, UInt64.toNat_shiftLeft, hs, UInt8.toNat_toUInt64, Nat.or_mod_two_pow,
    Nat.mod_eq_of_lt i.toNat_lt]

/-- Wherever the stream reader {lit}`Reader::readVarint` of a {lit}`uint64_t`
completes a value, {lit}`toVarint`'s loop reads the same bytes to the same
value: the two test the same overflow and the same final zero group. -/
theorem toVarintLoop_of_readVarintLoop :
    ∀ (bytes : List UInt8) (shift : Nat) (read : Int) (i : UInt64) (acc : Nat) (rest : List UInt8),
      shift < 64 → Reader.readVarintLoop 64 shift i.toNat bytes = .ok (acc, rest) →
      ∃ consumed, bytes = consumed ++ rest ∧
        toVarintLoop bytes shift read i = (read + consumed.length, acc.toUInt64)
  | [], _, _, _, _, _, _, h => by simp [Reader.readVarintLoop] at h
  | byte :: tail, shift, read, i, acc, rest, hshift, h => by
    have hover : ¬ (64 - 7 ≤ shift ∧ 2 ^ (64 - shift) ≤ byte.toNat) := by
      intro hcond
      simp [Reader.readVarintLoop, hcond] at h
    have hover' : ¬ (64 ≤ shift + 7 ∧ 2 ^ (64 - shift) ≤ byte.toNat) := by
      intro hcond
      exact hover ⟨by omega, hcond.2⟩
    set i' := i ||| (byte &&& 0x7f).toUInt64 <<< shift.toUInt64 with hi'
    have hacc : i'.toNat = (i.toNat ||| (byte &&& 0x7f).toNat <<< shift) % 2 ^ 64 :=
      toNat_or_group hshift byte
    rw [Reader.readVarintLoop, if_neg hover, ← hacc] at h
    by_cases hlast : byte &&& 0x80 = 0
    · by_cases hzero : byte = 0 ∧ shift ≠ 0
      · simp [hzero] at h
      simp only [hlast, if_true, if_neg hzero, Except.ok.injEq, Prod.mk.injEq] at h
      obtain ⟨rfl, rfl⟩ := h
      refine ⟨[byte], rfl, ?_⟩
      simp only [toVarintLoop, if_neg hover', if_neg hzero, ← hi', hlast, if_true,
        List.length_singleton, Nat.cast_one, Nat.toUInt64_eq, UInt64.ofNat_toNat]
    · have hnext : shift + 7 < 64 := by
        by_contra hge
        have hsmall : byte.toNat < 128 := by
          have : 2 ^ (64 - shift) ≤ 2 ^ 7 := Nat.pow_le_pow_right (by decide) (by omega)
          have := fun h => hover' ⟨by omega, h⟩
          omega
        exact hlast ((uint8_and_0x80_eq_zero_iff byte).mpr hsmall)
      have hnz : ¬ (byte = 0 ∧ shift ≠ 0) := by
        rintro ⟨rfl, -⟩
        exact hlast rfl
      simp only [hlast, if_false] at h
      obtain ⟨consumed, htail, hloop⟩ :=
        toVarintLoop_of_readVarintLoop tail (shift + 7) (read + 1) i' acc rest hnext h
      refine ⟨byte :: consumed, by rw [htail, List.cons_append], ?_⟩
      simp only [toVarintLoop, if_neg hover', if_neg hnz, ← hi', hlast, if_false, hloop,
        List.length_cons, Nat.cast_add, Nat.cast_one]
      congr 1
      omega

/-- {lit}`toVarint` reads the encoding of any 64-bit value, whatever follows it,
and returns the encoding's length. -/
theorem toVarint_encode {v : Nat} (hv : v < 2 ^ 64) (rest : List UInt8) :
    toVarint (Leb128.encode v ++ rest) = (((Leb128.encode v).length : Int), v.toUInt64) := by
  have hread := @Reader.readVarintLoop_encode 64 v 0 0 rest (by decide)
    (fun h => absurd rfl h) (by simpa using hv)
  rw [Nat.zero_add, Nat.pow_zero, Nat.mul_one] at hread
  obtain ⟨consumed, hbytes, hloop⟩ :=
    toVarintLoop_of_readVarintLoop _ 0 0 0 v rest (by decide) hread
  obtain rfl := List.append_cancel_right hbytes
  rw [toVarint, hloop, Int.zero_add]

/-! ## Addresses -/

/-- {lit}`addr_checksum_size`. -/
def addrChecksumSize : Nat := 4

/-- {lit}`encode_addr`: the tag as a varint, the data, and the first bytes of
their hash, in Base58. -/
def encodeAddr (cnFastHash : List UInt8 → Hash) (tag : UInt64) (data : List UInt8) :
    List Char :=
  let buf := fromVarint tag ++ data
  encode (buf ++ (cnFastHash buf).bytes.take addrChecksumSize)

/-- {lit}`decode_addr`: the tag and the data of an address, none when the
Base58 does not decode, when it is no longer than a checksum, when the checksum
does not match, or when {lit}`toVarint` reads no tag. -/
def decodeAddr (cnFastHash : List UInt8 → Hash) (addr : List Char) :
    Option (UInt64 × List UInt8) :=
  match decode addr with
  | none => none
  | some addrData =>
    if addrData.length ≤ addrChecksumSize then none
    else
      let checksum := addrData.drop (addrData.length - addrChecksumSize)
      let addrData := addrData.take (addrData.length - addrChecksumSize)
      let expectedChecksum := (cnFastHash addrData).bytes.take addrChecksumSize
      if expectedChecksum ≠ checksum then none
      else
        let (read, tag) := toVarint addrData
        if read ≤ 0 then none else some (tag, addrData.drop read.toNat)

theorem length_checksum (hash : Hash) :
    (hash.bytes.take addrChecksumSize).length = addrChecksumSize := by
  rw [List.length_take, hash.length_eq]
  rfl

/-- Every tag and data read back from the address {lit}`encode_addr` makes of
them, whatever the hash function. -/
theorem decodeAddr_encodeAddr (cnFastHash : List UInt8 → Hash) (tag : UInt64)
    (data : List UInt8) :
    decodeAddr cnFastHash (encodeAddr cnFastHash tag data) = some (tag, data) := by
  have htag := toVarint_encode tag.toNat_lt data
  rw [← fromVarint_eq] at htag
  have hvarint : 0 < (fromVarint tag).length := by
    rw [fromVarint_eq]
    exact List.length_pos_iff.mpr (Leb128.encode_ne_nil _)
  set buf := fromVarint tag ++ data with hbuf
  have hchecksum := length_checksum (cnFastHash buf)
  have hsplit : (buf ++ (cnFastHash buf).bytes.take addrChecksumSize).length - addrChecksumSize =
      buf.length := by
    rw [List.length_append, hchecksum, Nat.add_sub_cancel]
  unfold decodeAddr encodeAddr
  rw [← hbuf, decode_encode]
  dsimp only
  rw [if_neg (by rw [List.length_append, hchecksum, hbuf, List.length_append]; omega), hsplit,
    List.drop_left, List.take_left, if_neg (not_not.mpr rfl), htag]
  dsimp only
  rw [if_neg (by rw [Int.not_le]; exact_mod_cast hvarint), Int.toNat_natCast, hbuf, List.drop_left,
    Nat.toUInt64_eq, UInt64.ofNat_toNat]

/-- At the end of the input after one continuation byte, {lit}`toVarint`
returns the count of that byte and the value of its group. -/
theorem toVarint_truncated : toVarint [0x80] = (1, 0) := by
  decide

/-- For every hash function: the address of the byte {lit}`0x80` and its
checksum decodes, since {lit}`toVarint` reads the continuation byte, meets the
end of the input and returns one; {lit}`decode_addr` answers tag 0 and no data.
The address that {lit}`encode_addr` makes of tag 0 and no data is another
string. -/
theorem decodeAddr_accepts_truncated_tag (cnFastHash : List UInt8 → Hash) :
    decodeAddr cnFastHash (encode ([0x80] ++ (cnFastHash [0x80]).bytes.take addrChecksumSize)) =
        some (0, []) ∧
      encodeAddr cnFastHash 0 [] ≠
        encode ([0x80] ++ (cnFastHash [0x80]).bytes.take addrChecksumSize) := by
  have hchecksum := length_checksum (cnFastHash [0x80])
  have hsplit : ([0x80] ++ (cnFastHash [0x80]).bytes.take addrChecksumSize).length -
      addrChecksumSize = ([0x80] : List UInt8).length := by
    rw [List.length_append, hchecksum, Nat.add_sub_cancel]
  constructor
  · unfold decodeAddr
    rw [decode_encode]
    dsimp only
    rw [if_neg (by rw [List.length_append, hchecksum]; decide), hsplit, List.drop_left,
      List.take_left, if_neg (not_not.mpr rfl), toVarint_truncated]
    rfl
  · intro heq
    have hdec := congrArg decode heq
    rw [encodeAddr, decode_encode, decode_encode, fromVarint_eq] at hdec
    have hhead := congrArg (fun bytes => bytes.head?) (Option.some.inj hdec)
    simp only [UInt64.toNat_zero, Leb128.encode_of_lt (show 0 < 128 by decide),
      List.cons_append, List.head?_cons, Option.some.injEq] at hhead
    exact absurd hhead (by decide)

end Base58
end CryptoNote

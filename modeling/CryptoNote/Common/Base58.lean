import Mathlib.Data.List.Induction
import CryptoNote.Lib.Radix
import CryptoNote.Crypto.Difficulty

/-!
# Base58 in blocks

{lit}`tools::base58` in {lit}`common/base58.cpp`.  The data is cut into blocks
of eight bytes and a shorter last block; a block is read as a big-endian number
and written as that number's base-58 digits, most significant first, in a fixed
number of characters that depends only on the block's length
({lit}`encoded_block_sizes`).  Decoding reads the length of the last block back
through the inverse table ({lit}`decoded_block_sizes`), rejects the lengths that
no block has, and rejects a block whose number does not fit its bytes.

The model keeps the source's loops: the digit loop of {lit}`encode_block` that
writes from the right into a block prefilled with the first letter, the loop of
{lit}`decode_block` with its 128-bit products and its two overflow tests, the
shift-and-or of {lit}`uint_8be_to_64` and the byte copy of {lit}`uint_64_to_8be`.
Each block of the result is built on its own: the source writes it into its
stretch of one buffer prefilled the same way, and every write stays within the
stretch.

Main results:

- Theorem {lit}`decodeBlockLoop_eq`: the decoding loop accepts exactly the
  blocks of letters whose base-58 value fits in 64 bits, and returns that value.
- Theorem {lit}`encodeBlock_eq`: a block encodes as the base-58 digits of its
  number, padded with the first letter.
- Theorems {lit}`decodeBlock_encodeBlock` and {lit}`encodeBlock_of_decodeBlock`:
  the two round trips of one block.
- Theorem {lit}`decode_encode_round_trip`: {lit}`decode` inverts {lit}`encode`,
  and every string that {lit}`decode` accepts is the encoding of what it returns.
-/

namespace CryptoNote
namespace Base58

open Radix Difficulty

/-! ## The tables -/

/-- {lit}`alphabet`. -/
def alphabet : List Char := "123456789ABCDEFGHJKLMNPQRSTUVWXYZabcdefghijkmnopqrstuvwxyz".toList

/-- {lit}`alphabet_size`. -/
def alphabetSize : Nat := alphabet.length

/-- {lit}`encoded_block_sizes`: the characters that a block of {lit}`i` bytes
takes. -/
def encodedBlockSizes : List Nat := [0, 2, 3, 5, 6, 7, 9, 10, 11]

/-- {lit}`full_block_size`. -/
def fullBlockSize : Nat := encodedBlockSizes.length - 1

/-- {lit}`full_encoded_block_size`. -/
def fullEncodedBlockSize : Nat := encodedBlockSizes.getD fullBlockSize 0

/-- The letter of a digit, {lit}`alphabet[digit]`. -/
def letter (digit : Nat) : Char := alphabet.getD digit ' '

/-- The table of {lit}`reverse_alphabet`: one entry for each character from the
first letter of the alphabet to the last, holding the letter's index or -1. -/
def reverseAlphabetData : List Int :=
  (List.range alphabetSize).foldl
    (fun data i => data.set ((letter i).toNat - (letter 0).toNat) i)
    (List.replicate ((letter (alphabetSize - 1)).toNat - (letter 0).toNat + 1) (-1))

/-- {lit}`reverse_alphabet::operator()`: the index of a letter of the alphabet,
-1 for any other character.  A character below the first letter gives a
negative difference, which the cast to {lit}`size_t` sends past the table. -/
def reverseAlphabet (c : Char) : Int :=
  if c.toNat < (letter 0).toNat then -1
  else reverseAlphabetData.getD (c.toNat - (letter 0).toNat) (-1)

/-- The table of {lit}`decoded_block_sizes`: for each length up to a full
encoded block, the byte count whose blocks take that many characters, or -1. -/
def decodedBlockSizesData : List Int :=
  (List.range (fullBlockSize + 1)).foldl
    (fun data i => data.set (encodedBlockSizes.getD i 0) i)
    (List.replicate (fullEncodedBlockSize + 1) (-1))

/-- {lit}`decoded_block_sizes::operator()`. -/
def decodedBlockSizes (encodedBlockSize : Nat) : Int :=
  decodedBlockSizesData.getD encodedBlockSize (-1)

theorem alphabetSize_eq : alphabetSize = 58 := by decide

theorem fullBlockSize_eq : fullBlockSize = 8 := by decide

theorem fullEncodedBlockSize_eq : fullEncodedBlockSize = 11 := by decide

theorem toNat_letter_zero : (letter 0).toNat = 49 := by decide

/-- The table of {lit}`reverse_alphabet`, entry by entry. -/
theorem reverseAlphabetData_eq : reverseAlphabetData =
    [0, 1, 2, 3, 4, 5, 6, 7, 8, -1, -1, -1, -1, -1, -1, -1, 9, 10, 11, 12, 13, 14, 15, 16, -1,
      17, 18, 19, 20, 21, -1, 22, 23, 24, 25, 26, 27, 28, 29, 30, 31, 32, -1, -1, -1, -1, -1, -1,
      33, 34, 35, 36, 37, 38, 39, 40, 41, 42, 43, -1, 44, 45, 46, 47, 48, 49, 50, 51, 52, 53, 54,
      55, 56, 57] := by
  decide

/-- Every letter reads back as its digit. -/
theorem reverseAlphabet_letter : ∀ d < 58, reverseAlphabet (letter d) = d := by
  simp only [reverseAlphabet, reverseAlphabetData_eq]
  decide

/-- An entry of the table that is not -1 is the digit of the letter at its
offset. -/
theorem reverseAlphabetData_entry : ∀ idx < 74, 0 ≤ reverseAlphabetData.getD idx (-1) →
    (reverseAlphabetData.getD idx (-1)).toNat < 58 ∧
      (letter (reverseAlphabetData.getD idx (-1)).toNat).toNat = idx + 49 := by
  rw [reverseAlphabetData_eq]
  decide +kernel

/-- A character that has a digit is the letter of that digit. -/
theorem letter_reverseAlphabet {c : Char} (h : 0 ≤ reverseAlphabet c) :
    (reverseAlphabet c).toNat < 58 ∧ letter (reverseAlphabet c).toNat = c := by
  unfold reverseAlphabet at h ⊢
  rw [toNat_letter_zero] at h ⊢
  by_cases hlow : c.toNat < 49
  · simp [hlow] at h
  rw [if_neg hlow] at h ⊢
  by_cases hhigh : c.toNat - 49 < 74
  · obtain ⟨hlt, hletter⟩ := reverseAlphabetData_entry (c.toNat - 49) hhigh h
    refine ⟨hlt, Char.toNat_inj.mp ?_⟩
    omega
  · rw [List.getD_eq_default _ _ (by rw [reverseAlphabetData_eq]; simp; omega)] at h
    simp at h

/-! ## The block sizes -/

/-- The byte count of every block length reads back from its encoded length. -/
theorem decodedBlockSizes_encodedBlockSizes :
    ∀ s ≤ 8, decodedBlockSizes (encodedBlockSizes.getD s 0) = s := by
  decide

/-- Every encoded length that has a byte count is the encoded length of it. -/
theorem encodedBlockSizes_decodedBlockSizes :
    ∀ n ≤ 11, 0 ≤ decodedBlockSizes n → encodedBlockSizes.getD (decodedBlockSizes n).toNat 0 = n ∧
      (decodedBlockSizes n).toNat ≤ 8 := by
  decide

/-- Only a full block takes eleven characters. -/
theorem encodedBlockSizes_lt : ∀ s < 8, encodedBlockSizes.getD s 0 < 11 := by
  decide

/-- The base-58 digits of a block's number fit its characters. -/
theorem pow_le_encodedBlockSizes : ∀ s ≤ 8, 256 ^ s ≤ 58 ^ encodedBlockSizes.getD s 0 := by
  decide

/-! ## Bytes and 64-bit numbers -/

/-- {lit}`uint_8be_to_64`: the bytes as a big-endian number.  The switch falls
through one shift-and-or per byte, the first onto zero. -/
def uint8beTo64 (data : List UInt8) : UInt64 :=
  data.foldl (fun res byte => res <<< 8 ||| byte.toUInt64) 0

/-- {lit}`uint_64_to_8be`: the last {lit}`size` bytes of the big-endian image of
{lit}`num`, which {lit}`SWAP64BE` makes and {lit}`memcpy` copies. -/
def uint64To8be (num : UInt64) (size : Nat) : List UInt8 :=
  ((List.range 8).reverse.map fun j => (num >>> (8 * j).toUInt64).toUInt8).drop (8 - size)

/-- Shifting a byte into a number below {lit}`2 ^ 56` appends it as a base-256 digit. -/
theorem toNat_shiftLeft_eight_or {acc : UInt64} (hacc : acc.toNat < 2 ^ 56) (byte : UInt8) :
    (acc <<< 8 ||| byte.toUInt64).toNat = acc.toNat * 256 + byte.toNat := by
  have hbyte := byte.toNat_lt
  rw [UInt64.toNat_or, UInt64.toNat_shiftLeft, UInt8.toNat_toUInt64]
  show acc.toNat <<< 8 % 2 ^ 64 ||| byte.toNat = _
  rw [Nat.shiftLeft_eq, Nat.mod_eq_of_lt (by omega), ← Nat.shiftLeft_eq,
    ← Nat.shiftLeft_add_eq_or_of_lt hbyte, Nat.shiftLeft_eq]

/-- The big-endian value of a list of bytes, as base-256 digits from the last. -/
theorem ofDigits_bytes_lt (data : List UInt8) :
    Nat.ofDigits 256 (data.reverse.map UInt8.toNat) < 256 ^ data.length := by
  have hlt := Nat.ofDigits_lt_base_pow_length (b := 256) (l := data.reverse.map UInt8.toNat)
    (by decide) (by simp only [List.mem_map]; rintro _ ⟨byte, -, rfl⟩; exact byte.toNat_lt)
  simpa using hlt

/-- {lit}`uint_8be_to_64` of at most eight bytes is their big-endian value. -/
theorem toNat_uint8beTo64 {data : List UInt8} (h : data.length ≤ 8) :
    (uint8beTo64 data).toNat = Nat.ofDigits 256 (data.reverse.map UInt8.toNat) := by
  induction data using List.reverseRecOn with
  | nil => rfl
  | append_singleton init byte ih =>
    have hinit : init.length ≤ 7 := by simp at h; omega
    have hval := ih (by omega)
    -- at most seven bytes so far: the shift does not wrap
    have hlt : (uint8beTo64 init).toNat < 2 ^ 56 := by
      rw [hval]
      calc Nat.ofDigits 256 (init.reverse.map UInt8.toNat) < 256 ^ init.length :=
            ofDigits_bytes_lt init
        _ ≤ 256 ^ 7 := Nat.pow_le_pow_right (by decide) hinit
        _ = 2 ^ 56 := by norm_num
    have hstep : uint8beTo64 (init ++ [byte]) = uint8beTo64 init <<< 8 ||| byte.toUInt64 := by
      simp only [uint8beTo64, List.foldl_append, List.foldl_cons, List.foldl_nil]
    rw [hstep, toNat_shiftLeft_eight_or hlt, hval]
    simp only [List.reverse_append, List.reverse_singleton, List.singleton_append, List.map_cons,
      Nat.ofDigits_cons]
    omega

/-- {lit}`uint_64_to_8be` writes the {lit}`size` lowest base-256 digits of the
number, the most significant first. -/
theorem uint64To8be_eq {size : Nat} (h : size ≤ 8) (num : UInt64) :
    uint64To8be num size = ((fixedDigits 256 size num.toNat).map Nat.toUInt8).reverse := by
  have hrange : ∀ size ≤ 8, (List.range 8).reverse.drop (8 - size) = (List.range size).reverse := by
    decide
  rw [uint64To8be, ← List.map_drop, hrange size h, fixedDigits_eq_map_range, List.map_map,
    List.map_reverse]
  congr 1
  apply List.map_congr_left
  intro j hj
  have hj8 : j < 8 := by
    rw [List.mem_range] at hj
    omega
  have hshift : (8 * j).toUInt64.toNat % 64 = 8 * j := by
    rw [Nat.toUInt64_eq, UInt64.toNat_ofNat']
    omega
  have hpow : 2 ^ (8 * j) = 256 ^ j := by
    rw [pow_mul]
    norm_num
  apply UInt8.toNat.inj
  rw [UInt64.toNat_toUInt8, UInt64.toNat_shiftRight, hshift, Function.comp_apply,
    Nat.toUInt8_eq, UInt8.toNat_ofNat', Nat.shiftRight_eq_div_pow, hpow]
  omega

/-! ## Blocks -/

/-- The loop of {lit}`encode_block`: while the number is not zero, write the
letter of its last base-58 digit at {lit}`i` and move one to the left. -/
def encodeBlockLoop (num : UInt64) (i : Nat) (res : List Char) : List Char :=
  if 0 < num then
    let remainder := num % alphabetSize.toUInt64
    encodeBlockLoop (num / alphabetSize.toUInt64) (i - 1) (res.set i (letter remainder.toNat))
  else res
termination_by num.toNat
decreasing_by
  rename_i hpos
  rw [UInt64.lt_iff_toNat_lt, UInt64.toNat_zero] at hpos
  rw [alphabetSize_eq, UInt64.toNat_div]
  exact Nat.div_lt_self hpos (by decide)

/-- {lit}`encode_block`: the characters of one block of bytes, written into
their stretch of the result, which holds the first letter beforehand. -/
def encodeBlock (block : List UInt8) : List Char :=
  let num := uint8beTo64 block
  let size := encodedBlockSizes.getD block.length 0
  encodeBlockLoop num (size - 1) (List.replicate size (letter 0))

/-- The loop of {lit}`decode_block`, over the block's characters from the last:
add each digit times the current power of 58, and fail on a character outside
the alphabet and on a product or a sum that leaves 64 bits.  The power wraps
after the last character, where it is no longer read. -/
def decodeBlockLoop : List Char → UInt64 → UInt64 → Option UInt64
  | [], resNum, _ => some resNum
  | c :: rest, resNum, order =>
    let digit := reverseAlphabet c
    if digit < 0 then none
    else
      let (productLo, productHi) := mul128 order digit.toNat.toUInt64
      let tmp := resNum + productLo
      if tmp < resNum || productHi != 0 then none
      else decodeBlockLoop rest tmp (order * alphabetSize.toUInt64)

/-- {lit}`decode_block`: the bytes of one block of characters, none for a length
that no block has, a character outside the alphabet, or a number that does not
fit the bytes. -/
def decodeBlock (block : List Char) : Option (List UInt8) :=
  let resSize := decodedBlockSizes block.length
  if resSize ≤ 0 then none
  else
    match decodeBlockLoop block.reverse 0 1 with
    | none => none
    | some resNum =>
      if resSize.toNat < fullBlockSize &&
          (1 : UInt64) <<< (8 * resSize.toNat).toUInt64 ≤ resNum then none
      else some (uint64To8be resNum resSize.toNat)

/-! ## One block -/

/-- Every block of one to eight bytes takes at least one character. -/
theorem one_le_encodedBlockSizes : ∀ s, 1 ≤ s → s ≤ 8 → 1 ≤ encodedBlockSizes.getD s 0 := by
  decide

theorem set_replicate_append (i : Nat) (x : Char) (suffix : List Char) :
    (List.replicate (i + 1) (letter 0) ++ suffix).set i x =
      List.replicate i (letter 0) ++ x :: suffix := by
  rw [List.replicate_succ', List.append_assoc, List.set_append_right _ _ (by simp)]
  simp

/-- The digit loop writes the number's base-58 digits, the most significant
first, over the first letters that fill the block up to {lit}`i`; a number of
at most {lit}`i + 1` digits never moves the index below the block. -/
theorem encodeBlockLoop_eq (num : UInt64) :
    ∀ (i : Nat) (suffix : List Char), num.toNat < 58 ^ (i + 1) →
      encodeBlockLoop num i (List.replicate (i + 1) (letter 0) ++ suffix) =
        ((fixedDigits 58 (i + 1) num.toNat).map letter).reverse ++ suffix := by
  -- induction on the number, which each round divides by 58
  induction hn : num.toNat using Nat.strong_induction_on generalizing num with
  | _ n ih =>
  subst hn
  intro i suffix hlt
  by_cases hpos : 0 < num
  · have hdiv : (num / alphabetSize.toUInt64).toNat = num.toNat / 58 := by
      rw [alphabetSize_eq, UInt64.toNat_div]
      rfl
    have hmod : (num % alphabetSize.toUInt64).toNat = num.toNat % 58 := by
      rw [alphabetSize_eq, UInt64.toNat_mod]
      rfl
    have hnum : 0 < num.toNat := by
      rw [UInt64.lt_iff_toNat_lt, UInt64.toNat_zero] at hpos
      exact hpos
    rw [encodeBlockLoop, if_pos hpos]
    simp only [set_replicate_append, hmod]
    cases i with
    | zero =>
      have hzero : num / alphabetSize.toUInt64 = 0 := by
        apply UInt64.toNat.inj
        rw [hdiv, UInt64.toNat_zero]
        omega
      rw [hzero, encodeBlockLoop, if_neg (show ¬ (0 : UInt64) < 0 by decide)]
      simp
    | succ j =>
      have hnext : (num / alphabetSize.toUInt64).toNat < 58 ^ (j + 1) := by
        rw [hdiv, Nat.div_lt_iff_lt_mul (by decide), ← Nat.pow_succ]
        exact hlt
      rw [Nat.add_sub_cancel, ih _ (by rw [hdiv]; omega) _ rfl j _ hnext, hdiv,
        fixedDigits_succ (j + 1)]
      simp
  · have hzero : num.toNat = 0 := by
      rw [UInt64.lt_iff_toNat_lt, UInt64.toNat_zero] at hpos
      omega
    rw [encodeBlockLoop, if_neg hpos, hzero, fixedDigits_zero, List.map_replicate,
      List.reverse_replicate]

/-- {lit}`encode_block` writes the block's big-endian number as base-58 digits,
padded with the first letter to the block's encoded length. -/
theorem encodeBlock_eq {bytes : List UInt8} (h1 : 1 ≤ bytes.length) (h8 : bytes.length ≤ 8) :
    encodeBlock bytes = ((fixedDigits 58 (encodedBlockSizes.getD bytes.length 0)
      (Nat.ofDigits 256 (bytes.reverse.map UInt8.toNat))).map letter).reverse := by
  obtain ⟨i, hi⟩ : ∃ i, encodedBlockSizes.getD bytes.length 0 = i + 1 :=
    ⟨_, (Nat.sub_add_cancel (one_le_encodedBlockSizes _ h1 h8)).symm⟩
  have hfit : (uint8beTo64 bytes).toNat < 58 ^ (i + 1) := by
    rw [toNat_uint8beTo64 h8, ← hi]
    exact lt_of_lt_of_le (ofDigits_bytes_lt bytes) (pow_le_encodedBlockSizes _ h8)
  have hloop := encodeBlockLoop_eq (uint8beTo64 bytes) i [] hfit
  rw [List.append_nil, List.append_nil] at hloop
  simp only [encodeBlock, hi, Nat.add_sub_cancel, hloop, toNat_uint8beTo64 h8]

theorem encodeBlock_nil : encodeBlock [] = [] := by
  decide +kernel

example : encodeBlock [0x06, 0x15, 0x60, 0x13, 0x76, 0x28, 0x79, 0xF7] =
    "22222222222".toList := by
  decide +kernel

/-- The value of a block's characters read from the last, as base-58 digits. -/
def lettersValue (cs : List Char) : Nat :=
  Nat.ofDigits 58 (cs.map fun c => (reverseAlphabet c).toNat)

/-- The decoding loop, started at the power {lit}`58 ^ k`, accepts exactly the
characters of the alphabet whose value, added to what it has, fits in 64 bits,
and returns that sum.  Its two tests catch the product and the sum that wrap. -/
theorem decodeBlockLoop_eq_some_iff : ∀ (cs : List Char) (resNum order value : UInt64) (k : Nat),
    k + cs.length ≤ 11 → order.toNat = 58 ^ k % 2 ^ 64 →
    (decodeBlockLoop cs resNum order = some value ↔
      (∀ c ∈ cs, 0 ≤ reverseAlphabet c) ∧ resNum.toNat + 58 ^ k * lettersValue cs < 2 ^ 64 ∧
        value.toNat = resNum.toNat + 58 ^ k * lettersValue cs)
  | [], resNum, order, value, k, _, _ => by
    have hlt := resNum.toNat_lt
    simp only [decodeBlockLoop, Option.some.injEq, lettersValue, List.map_nil, Nat.ofDigits_nil,
      Nat.mul_zero, Nat.add_zero, List.not_mem_nil, false_imp_iff, implies_true, true_and]
    rw [← UInt64.toNat_inj]
    omega
  | c :: rest, resNum, order, value, k, hlen, horder => by
    by_cases hdigit : reverseAlphabet c < 0
    · have hbad : ¬ ∀ x ∈ c :: rest, 0 ≤ reverseAlphabet x := fun h => by
        have := h c List.mem_cons_self
        omega
      simp only [decodeBlockLoop, hdigit, if_true, reduceCtorEq, false_iff]
      exact fun h => hbad h.1
    set d := (reverseAlphabet c).toNat with hd
    have hd58 : d < 58 := (letter_reverseAlphabet (by omega)).1
    have hk : k ≤ 10 := by
      simp only [List.length_cons] at hlen
      omega
    have horder' : order.toNat = 58 ^ k := by
      have hpow : 58 ^ k ≤ 58 ^ 10 := Nat.pow_le_pow_right (by decide) hk
      rw [horder, Nat.mod_eq_of_lt (by omega)]
    have hdNat : d.toUInt64.toNat = d := by
      rw [Nat.toUInt64_eq, UInt64.toNat_ofNat']
      omega
    rcases hprod : mul128 order d.toUInt64 with ⟨productLo, productHi⟩
    have hspec := mul128_spec order d.toUInt64
    rw [hprod, horder', hdNat] at hspec
    dsimp only at hspec
    have hvalue : lettersValue (c :: rest) = d + 58 * lettersValue rest := by
      simp [lettersValue, Nat.ofDigits_cons, hd]
    have harith : 58 ^ k * (d + 58 * lettersValue rest) =
        58 ^ k * d + 58 ^ (k + 1) * lettersValue rest := by
      ring
    have hlo := productLo.toNat_lt
    have hres := resNum.toNat_lt
    simp only [decodeBlockLoop, hdigit, if_false]
    rw [← hd, hprod, hvalue, harith, List.forall_mem_cons]
    dsimp only
    by_cases hcheck : (resNum + productLo < resNum || productHi != 0) = true
    · rw [if_pos hcheck]
      simp only [Bool.or_eq_true, bne_iff_ne, ne_eq, UInt64.lt_iff_toNat_lt,
        UInt64.toNat_add, decide_eq_true_eq] at hcheck
      have hover : 2 ^ 64 ≤ resNum.toNat + 58 ^ k * d := by
        rcases hcheck with hwrap | hhi
        · omega
        · have : productHi.toNat ≠ 0 := fun h => hhi (UInt64.toNat.inj h)
          omega
      simp only [reduceCtorEq, false_iff, not_and]
      omega
    · rw [if_neg hcheck]
      simp only [Bool.or_eq_true, bne_iff_ne, ne_eq, UInt64.lt_iff_toNat_lt, UInt64.toNat_add,
        decide_eq_true_eq, not_or, not_not, not_lt] at hcheck
      obtain ⟨hnowrap, hhi⟩ := hcheck
      rw [hhi, UInt64.toNat_zero] at hspec
      have htmp : (resNum + productLo).toNat = resNum.toNat + 58 ^ k * d := by
        rw [UInt64.toNat_add]
        omega
      have horderNext : (order * alphabetSize.toUInt64).toNat = 58 ^ (k + 1) % 2 ^ 64 := by
        rw [UInt64.toNat_mul, horder, alphabetSize_eq, Nat.pow_succ, Nat.mul_mod, Nat.mod_mod,
          ← Nat.mul_mod]
        rfl
      rw [decodeBlockLoop_eq_some_iff rest _ _ value (k + 1) (by simp at hlen; omega)
        horderNext, htmp]
      have hvalid : 0 ≤ reverseAlphabet c := by omega
      simp only [hvalid, true_and, Nat.add_assoc]

/-- {lit}`decode_block` succeeds exactly on a block of a length that some bytes
take, of letters of the alphabet, whose value fits those bytes; it returns the
value's base-256 digits, the most significant first. -/
theorem decodeBlock_eq_some_iff {block : List Char} (hlen : block.length ≤ 11)
    {bytes : List UInt8} :
    decodeBlock block = some bytes ↔
      0 < decodedBlockSizes block.length ∧ (∀ c ∈ block, 0 ≤ reverseAlphabet c) ∧
        lettersValue block.reverse < 256 ^ (decodedBlockSizes block.length).toNat ∧
        bytes = ((fixedDigits 256 (decodedBlockSizes block.length).toNat
          (lettersValue block.reverse)).map Nat.toUInt8).reverse := by
  have hloop := fun value =>
    decodeBlockLoop_eq_some_iff block.reverse 0 1 value 0 (by simpa using hlen) (by decide)
  simp only [UInt64.toNat_zero, Nat.pow_zero, Nat.one_mul, Nat.zero_add, List.mem_reverse]
    at hloop
  unfold decodeBlock
  by_cases hpos : decodedBlockSizes block.length ≤ 0
  · simp only [hpos, if_true, reduceCtorEq, false_iff, not_and]
    omega
  rw [if_neg hpos]
  have hr8 := (encodedBlockSizes_decodedBlockSizes _ hlen (by omega)).2
  rcases hres : decodeBlockLoop block.reverse 0 1 with _ | resNum
  · simp only [reduceCtorEq, false_iff, not_and]
    intro _ hvalid hlt
    have hfits : lettersValue block.reverse < 2 ^ 64 :=
      calc lettersValue block.reverse < 256 ^ (decodedBlockSizes block.length).toNat := hlt
        _ ≤ 256 ^ 8 := Nat.pow_le_pow_right (by decide) hr8
        _ = 2 ^ 64 := by norm_num
    have hsome := (hloop (UInt64.ofNat (lettersValue block.reverse))).mpr
      ⟨hvalid, hfits, by rw [UInt64.toNat_ofNat', Nat.mod_eq_of_lt hfits]⟩
    rw [hres] at hsome
    cases hsome
  · obtain ⟨hvalid, -, hval⟩ := (hloop resNum).mp hres
    -- the test against the bytes' bound, skipped for a full block
    have hcheck : (decodedBlockSizes block.length).toNat < fullBlockSize &&
        (1 : UInt64) <<< (8 * (decodedBlockSizes block.length).toNat).toUInt64 ≤ resNum ↔
          256 ^ (decodedBlockSizes block.length).toNat ≤ resNum.toNat := by
      rw [fullBlockSize_eq]
      rcases Nat.lt_or_ge (decodedBlockSizes block.length).toNat 8 with hlt8 | hge8
      · have hshift : ((1 : UInt64) <<< (8 * (decodedBlockSizes block.length).toNat).toUInt64).toNat =
            256 ^ (decodedBlockSizes block.length).toNat := by
          have hexp : (8 * (decodedBlockSizes block.length).toNat).toUInt64.toNat % 64 =
              8 * (decodedBlockSizes block.length).toNat := by
            rw [Nat.toUInt64_eq, UInt64.toNat_ofNat']
            omega
          rw [UInt64.toNat_shiftLeft, hexp, UInt64.toNat_one, Nat.one_shiftLeft,
            Nat.mod_eq_of_lt (Nat.pow_lt_pow_right (by decide) (by omega)), pow_mul]
          norm_num
        simp only [Bool.and_eq_true, decide_eq_true_eq, UInt64.le_iff_toNat_le, hshift]
        exact ⟨fun h => h.2, fun h => ⟨hlt8, h⟩⟩
      · have h8 : (decodedBlockSizes block.length).toNat = 8 := by omega
        have hlt := resNum.toNat_lt
        simp only [h8, lt_irrefl, decide_false, Bool.false_and, Bool.false_eq_true, false_iff,
          not_le]
        norm_num
        exact hlt
    dsimp only
    by_cases hbound : 256 ^ (decodedBlockSizes block.length).toNat ≤ resNum.toNat
    · rw [if_pos (hcheck.mpr hbound)]
      simp only [reduceCtorEq, false_iff, not_and]
      intro _ _ hlt
      omega
    · rw [if_neg fun h => hbound (hcheck.mp h), Option.some.injEq, uint64To8be_eq hr8, hval]
      constructor
      · intro h
        exact ⟨by omega, hvalid, by omega, h.symm⟩
      · rintro ⟨-, -, -, h⟩
        exact h.symm

example : decodeBlock "5Q".toList = some [0xFF] ∧ decodeBlock "5R".toList = none ∧
    decodeBlock "1".toList = none := by
  decide +kernel

/-- The digits of the letters read back: the letters of digits below 58 are
letters of the alphabet, and their value is the number the digits spell. -/
theorem lettersValue_letters {ds : List Nat} (hds : ∀ d ∈ ds, d < 58) :
    (∀ c ∈ ds.map letter, 0 ≤ reverseAlphabet c) ∧
      lettersValue (ds.map letter) = Nat.ofDigits 58 ds := by
  have hread : ∀ d ∈ ds, reverseAlphabet (letter d) = d := fun d hd =>
    reverseAlphabet_letter d (hds d hd)
  constructor
  · intro c hc
    obtain ⟨d, hd, rfl⟩ := List.mem_map.mp hc
    rw [hread d hd]
    omega
  · rw [lettersValue, List.map_map]
    congr 1
    conv_rhs => rw [← List.map_id ds]
    apply List.map_congr_left
    intro d hd
    simp [hread d hd]

/-- Letters of the alphabet are the letters of their digits. -/
theorem map_letter_digits {cs : List Char} (hcs : ∀ c ∈ cs, 0 ≤ reverseAlphabet c) :
    (cs.map fun c => (reverseAlphabet c).toNat).map letter = cs := by
  rw [List.map_map]
  conv_rhs => rw [← List.map_id cs]
  apply List.map_congr_left
  intro c hc
  exact (letter_reverseAlphabet (hcs c hc)).2

/-- A block of one to eight bytes decodes from its encoding. -/
theorem decodeBlock_encodeBlock {bytes : List UInt8} (h1 : 1 ≤ bytes.length)
    (h8 : bytes.length ≤ 8) : decodeBlock (encodeBlock bytes) = some bytes := by
  set v := Nat.ofDigits 256 (bytes.reverse.map UInt8.toNat) with hv
  have hvlt : v < 256 ^ bytes.length := ofDigits_bytes_lt bytes
  have hdigits : ∀ d ∈ fixedDigits 58 (encodedBlockSizes.getD bytes.length 0) v, d < 58 :=
    fun d hd => lt_of_mem_fixedDigits (by decide) hd
  obtain ⟨hvalid, hvalue⟩ := lettersValue_letters hdigits
  have hdec := decodedBlockSizes_encodedBlockSizes _ h8
  have hlen : (encodeBlock bytes).length = encodedBlockSizes.getD bytes.length 0 := by
    simp [encodeBlock_eq h1 h8]
  have hle : encodedBlockSizes.getD bytes.length 0 ≤ 11 := by
    rcases Nat.lt_or_ge bytes.length 8 with hlt | hge
    · exact Nat.le_of_lt (encodedBlockSizes_lt _ hlt)
    · rw [show bytes.length = 8 by omega]
      decide
  -- the block's number is below {lit}`58 ^ size`, so the digits spell it exactly
  have hfits : v < 58 ^ encodedBlockSizes.getD bytes.length 0 :=
    lt_of_lt_of_le hvlt (pow_le_encodedBlockSizes _ h8)
  rw [decodeBlock_eq_some_iff (by omega), hlen, hdec, encodeBlock_eq h1 h8, List.reverse_reverse,
    hvalue, ofDigits_fixedDigits_of_lt hfits]
  simp only [Int.toNat_natCast, List.mem_reverse]
  refine ⟨by omega, hvalid, hvlt, ?_⟩
  have hbytes : ∀ d ∈ bytes.reverse.map UInt8.toNat, d < 256 := by
    simp only [List.mem_map]
    rintro _ ⟨byte, -, rfl⟩
    exact byte.toNat_lt
  have hround := fixedDigits_ofDigits hbytes
  rw [List.length_map, List.length_reverse] at hround
  rw [hv, hround, List.map_map]
  conv_lhs => rw [← List.reverse_reverse bytes, ← List.map_id bytes.reverse]
  congr 1
  apply List.map_congr_left
  intro byte _
  simp

/-- A block that decodes is the encoding of the bytes it decodes to. -/
theorem encodeBlock_of_decodeBlock {block : List Char} {bytes : List UInt8}
    (hlen : block.length ≤ 11) (h : decodeBlock block = some bytes) :
    encodeBlock bytes = block ∧ bytes.length = (decodedBlockSizes block.length).toNat := by
  obtain ⟨hpos, hvalid, hlt, rfl⟩ := (decodeBlock_eq_some_iff hlen).mp h
  obtain ⟨hsize, hr8⟩ := encodedBlockSizes_decodedBlockSizes _ hlen (by omega)
  set r := (decodedBlockSizes block.length).toNat with hr
  set v := lettersValue block.reverse with hv
  have hdigits : ∀ d ∈ fixedDigits 256 r v, d < 256 := fun d hd =>
    lt_of_mem_fixedDigits (by decide) hd
  have hbytes : (((fixedDigits 256 r v).map Nat.toUInt8).reverse.reverse.map UInt8.toNat) =
      fixedDigits 256 r v := by
    rw [List.reverse_reverse, List.map_map]
    conv_rhs => rw [← List.map_id (fixedDigits 256 r v)]
    apply List.map_congr_left
    intro d hd
    simp only [Function.comp_apply, Nat.toUInt8_eq, UInt8.toNat_ofNat', id]
    exact Nat.mod_eq_of_lt (hdigits d hd)
  have hblen : (((fixedDigits 256 r v).map Nat.toUInt8).reverse).length = r := by simp
  refine ⟨?_, hblen⟩
  have hvalid' : ∀ c ∈ block.reverse, 0 ≤ reverseAlphabet c := by
    simpa only [List.mem_reverse] using hvalid
  have hds : ∀ d ∈ block.reverse.map fun c => (reverseAlphabet c).toNat, d < 58 := by
    simp only [List.mem_map]
    rintro _ ⟨c, hc, rfl⟩
    exact (letter_reverseAlphabet (hvalid' c hc)).1
  have hround := fixedDigits_ofDigits hds
  rw [List.length_map, List.length_reverse] at hround
  rw [encodeBlock_eq (by omega) (by omega), hblen, hsize, hbytes, ofDigits_fixedDigits_of_lt hlt, hv,
    lettersValue, hround, map_letter_digits hvalid', List.reverse_reverse]

/-! ## Strings -/

/-- {lit}`encode`: the full blocks of eight bytes and the shorter last block,
each as its characters, end to end. -/
def encode (data : List UInt8) : List Char :=
  if data.isEmpty then []
  else
    let fullBlockCount := data.length / fullBlockSize
    let lastBlockSize := data.length % fullBlockSize
    ((List.range fullBlockCount).map fun i => encodeBlock (block fullBlockSize data i)).flatten ++
      if 0 < lastBlockSize then encodeBlock (data.drop (fullBlockCount * fullBlockSize)) else []

/-- {lit}`decode`: the bytes of the full blocks of eleven characters and of the
shorter last block, none for a last block of a length that no block has or for
a block that does not decode. -/
def decode (enc : List Char) : Option (List UInt8) :=
  if enc.isEmpty then some []
  else
    let fullBlockCount := enc.length / fullEncodedBlockSize
    let lastBlockSize := enc.length % fullEncodedBlockSize
    if decodedBlockSizes lastBlockSize < 0 then none
    else do
      let full ← (List.range fullBlockCount).mapM fun i =>
        decodeBlock (block fullEncodedBlockSize enc i)
      let last ← if 0 < lastBlockSize then
          decodeBlock (enc.drop (fullBlockCount * fullEncodedBlockSize))
        else some []
      pure (full.flatten ++ last)

theorem length_encodeBlock {bytes : List UInt8} (h1 : 1 ≤ bytes.length) (h8 : bytes.length ≤ 8) :
    (encodeBlock bytes).length = encodedBlockSizes.getD bytes.length 0 := by
  simp [encodeBlock_eq h1 h8]

/-- {lit}`encode` of bytes that are not empty: the encodings of the full blocks
and of the last one, as a list of blocks. -/
theorem encode_eq {data : List UInt8} (hne : data ≠ []) :
    encode data =
      ((List.range (data.length / 8)).map fun i => encodeBlock (block 8 data i)).flatten ++
        if 0 < data.length % 8 then encodeBlock (data.drop (data.length / 8 * 8)) else [] := by
  rw [encode, fullBlockSize_eq, if_neg (by simpa using hne)]

/-- Decoding an encoding gives the bytes back. -/
theorem decode_encode (data : List UInt8) : decode (encode data) = some data := by
  by_cases hne : data = []
  · subst hne
    rfl
  set k := data.length / 8 with hk
  set r := data.length % 8 with hr
  set blocks := (List.range k).map fun i => encodeBlock (block 8 data i) with hblocks
  set last := if 0 < r then encodeBlock (data.drop (k * 8)) else [] with hlast
  have hfull : ∀ i < k, (block 8 data i).length = 8 := fun i hi =>
    length_block (by rw [hk] at hi; rw [Nat.succ_mul]; omega)
  have hdrop : (data.drop (k * 8)).length = r := by
    rw [List.length_drop]
    omega
  have hblockLen : ∀ x ∈ blocks, x.length = 11 := by
    intro x hx
    obtain ⟨i, hi, rfl⟩ := List.mem_map.mp hx
    rw [List.mem_range] at hi
    rw [length_encodeBlock (by rw [hfull i hi]; omega) (by rw [hfull i hi]), hfull i hi]
    rfl
  have hlastLen : last.length = encodedBlockSizes.getD r 0 := by
    rw [hlast]
    split
    · rw [length_encodeBlock (by omega) (by omega), hdrop]
    · rw [show r = 0 by omega]
      rfl
  have hE := encodedBlockSizes_lt r (Nat.mod_lt _ (by decide))
  have hflatLen : blocks.flatten.length = k * 11 := by
    rw [length_flatten_of_forall hblockLen]
    simp [blocks]
  have henc : encode data = blocks.flatten ++ last := encode_eq hne
  obtain ⟨hdiv, hmod⟩ := @length_div_mod_of_blocks 11 k _ hE
  have hlen : (encode data).length = k * 11 + encodedBlockSizes.getD r 0 := by
    rw [henc, List.length_append, hflatLen, hlastLen]
  have hnonempty : (encode data).isEmpty = false := by
    rw [List.isEmpty_eq_false_iff, ← List.length_pos_iff, hlen]
    have hone : 0 < r → 1 ≤ encodedBlockSizes.getD r 0 := fun h =>
      one_le_encodedBlockSizes r h (by omega)
    have hdata : 0 < data.length := List.length_pos_iff.mpr hne
    rcases Nat.eq_zero_or_pos k with hk0 | hk0
    · have : 0 < r := by omega
      have := hone this
      omega
    · omega
  have hsizes := decodedBlockSizes_encodedBlockSizes r (by omega)
  have hmapM : (List.range k).mapM (fun i => decodeBlock (block 11 (encode data) i)) =
      some ((List.range k).map (block 8 data)) := by
    apply mapM_eq_some_map
    intro i hi
    rw [List.mem_range] at hi
    have hi' : i < blocks.length := by simpa [blocks] using hi
    rw [henc, block_flatten_append hblockLen last hi']
    simp only [blocks, List.getElem_map, List.getElem_range]
    exact decodeBlock_encodeBlock (by rw [hfull i hi]; omega) (by rw [hfull i hi])
  rw [decode, if_neg (by simp [hnonempty])]
  simp only [fullEncodedBlockSize_eq, hlen, hdiv, hmod, hsizes, hmapM, Option.bind_eq_bind,
    Option.bind_some]
  rw [if_neg (by omega), flatten_map_range_block, henc, List.drop_left' hflatLen]
  by_cases hpos : 0 < r
  · have hEpos := one_le_encodedBlockSizes r hpos (by omega)
    rw [if_pos (by omega), hlast, if_pos hpos,
      decodeBlock_encodeBlock (by omega) (by omega), Option.bind_some, Option.pure_def,
      List.take_append_drop]
  · have hr0 : r = 0 := by omega
    rw [hr0, if_neg (by decide), List.append_nil, Option.pure_def, Option.some.injEq,
      List.take_of_length_le (by omega)]

/-- A string that decodes is the encoding of what it decodes to. -/
theorem encode_of_decode {enc : List Char} {data : List UInt8} (h : decode enc = some data) :
    encode data = enc := by
  by_cases hne : enc = []
  · subst hne
    simp only [decode, List.isEmpty_nil, if_true, Option.some.injEq] at h
    subst h
    rfl
  set k := enc.length / 11 with hk
  set m := enc.length % 11 with hm
  rw [decode, if_neg (by simpa using hne)] at h
  simp only [fullEncodedBlockSize_eq] at h
  by_cases hsize : decodedBlockSizes m < 0
  · rw [if_pos hsize] at h
    cases h
  rw [if_neg hsize] at h
  simp only [Option.bind_eq_bind, Option.bind_eq_some_iff] at h
  obtain ⟨ys, hys, h⟩ := h
  rw [← hk, ← hm] at h
  obtain ⟨lastBytes, hlastDec, hlastNil, rfl⟩ : ∃ lastBytes,
      (0 < m → decodeBlock (enc.drop (k * 11)) = some lastBytes) ∧ (m = 0 → lastBytes = []) ∧
        data = ys.flatten ++ lastBytes := by
    split at h
    · obtain ⟨lastBytes, hdec, hdata⟩ := Option.bind_eq_some_iff.mp h
      exact ⟨lastBytes, fun _ => hdec, fun _ => by omega, (Option.some.inj hdata).symm⟩
    · rw [Option.bind_some, Option.pure_def, Option.some.injEq] at h
      exact ⟨[], fun _ => by omega, fun _ => rfl, h.symm⟩
  have hm11 : m < 11 := Nat.mod_lt _ (by decide)
  obtain ⟨hsizeE, hr8⟩ := encodedBlockSizes_decodedBlockSizes m (by omega) (by omega)
  set r := (decodedBlockSizes m).toNat with hr
  have hr7 : r < 8 := by
    rcases Nat.lt_or_ge r 8 with hlt | hge
    · exact hlt
    · rw [show r = 8 by omega] at hsizeE
      have h11 : encodedBlockSizes.getD 8 0 = 11 := by decide
      omega
  have hF := forall₂_of_mapM_eq_some hys
  have hysLen : ys.length = k := by simpa using hF.length_eq.symm
  have hdecI : ∀ i (hi : i < ys.length), decodeBlock (block 11 enc i) = some ys[i] := by
    intro i hi
    have hget := (List.forall₂_iff_get.mp hF).2 i (by simpa [hysLen] using hi) hi
    simpa using hget
  have hblk : ∀ i < ys.length, (block 11 enc i).length = 11 := fun i hi =>
    length_block (by rw [hysLen, hk] at hi; rw [Nat.succ_mul]; omega)
  have hfullI : ∀ i (hi : i < ys.length),
      encodeBlock ys[i] = block 11 enc i ∧ ys[i].length = 8 := by
    intro i hi
    have hround := encodeBlock_of_decodeBlock (by rw [hblk i hi]) (hdecI i hi)
    rw [hblk i hi] at hround
    exact ⟨hround.1, hround.2⟩
  have hys8 : ∀ y ∈ ys, y.length = 8 := by
    intro y hy
    obtain ⟨i, hi, rfl⟩ := List.getElem_of_mem hy
    exact (hfullI i hi).2
  have hflatLen : ys.flatten.length = k * 8 := by
    rw [length_flatten_of_forall hys8, hysLen]
  have hlastRound : lastBytes.length = r ∧ encodeBlock lastBytes = if 0 < r then enc.drop (k * 11) else [] := by
    by_cases hmpos : 0 < m
    · have hdropLen : (enc.drop (k * 11)).length = m := by
        rw [List.length_drop]
        omega
      have hround := encodeBlock_of_decodeBlock (by omega) (hlastDec hmpos)
      rw [hdropLen] at hround
      have hrpos : 0 < r := by
        obtain ⟨hpos, -⟩ := (decodeBlock_eq_some_iff (by omega)).mp (hlastDec hmpos)
        rw [hdropLen] at hpos
        omega
      exact ⟨hround.2, by rw [if_pos hrpos, hround.1]⟩
    · have hm0 : m = 0 := by omega
      have hr0 : r = 0 := by
        rw [hr, hm0]
        decide
      rw [hlastNil hm0, hr0]
      exact ⟨rfl, by rw [if_neg (lt_irrefl 0)]; exact encodeBlock_nil⟩
  obtain ⟨hlastLen, hlastEnc⟩ := hlastRound
  have hdataLen : (ys.flatten ++ lastBytes).length = k * 8 + r := by
    rw [List.length_append, hflatLen, hlastLen]
  have hencLen : enc.length = k * 11 + m := by
    rw [hk, hm, Nat.mul_comm]
    exact (Nat.div_add_mod _ _).symm
  have hdataNe : ys.flatten ++ lastBytes ≠ [] := by
    intro hnil
    have hzero := congrArg List.length hnil
    rw [hdataLen, List.length_nil] at hzero
    have hr0 : r = 0 := by omega
    have hm0 : m = 0 := by
      rw [← hsizeE, hr0]
      rfl
    exact hne (List.eq_nil_of_length_eq_zero (by omega))
  obtain ⟨hdiv, hmod⟩ := @length_div_mod_of_blocks 8 k r hr7
  rw [encode_eq hdataNe, hdataLen, hdiv, hmod]
  have hmap : (List.range k).map (fun i => encodeBlock (block 8 (ys.flatten ++ lastBytes) i)) =
      (List.range k).map (block 11 enc) := by
    apply List.map_congr_left
    intro i hi
    rw [List.mem_range] at hi
    have hi' : i < ys.length := by omega
    rw [block_flatten_append hys8 lastBytes hi', (hfullI i hi').1]
  rw [hmap, flatten_map_range_block, List.drop_left' hflatLen]
  by_cases hrpos : 0 < r
  · rw [if_pos hrpos, hlastEnc, if_pos hrpos, List.take_append_drop]
  · have hm0 : m = 0 := by
      rw [← hsizeE, show r = 0 by omega]
      rfl
    rw [if_neg hrpos, List.append_nil, List.take_of_length_le (by omega)]

/-- {lit}`decode` inverts {lit}`encode`, and every string it accepts is the
encoding of the bytes it returns. -/
theorem decode_encode_round_trip :
    (∀ data : List UInt8, decode (encode data) = some data) ∧
      ∀ (enc : List Char) (data : List UInt8), decode enc = some data → encode data = enc :=
  ⟨decode_encode, fun _ _ h => encode_of_decode h⟩

end Base58
end CryptoNote

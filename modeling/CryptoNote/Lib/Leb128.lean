import CryptoNote.Lib.ByteStream

/-!
# Unsigned LEB128

The base-128 variable-length integer format: seven value bits per byte, least
significant group first, with the high bit set on every byte but the last.  The
encoding of a number is unique, and a byte string is an encoding exactly when
its last byte is the only one below 128 and is not a zero that follows other
bytes.  Readers of this format differ in how they bound the value and which
malformed inputs they reject; they are proved correct against
{lit}`Leb128.encode` and the two unfolding lemmas below.

Main results:

- Theorems {lit}`encode_of_lt` and {lit}`encode_of_le`: the one-byte case and
  the case that emits a continuation byte and recurses on the quotient.
- Theorem {lit}`encode_digit_add`: prepending a base-128 digit to a positive
  number prepends one flagged byte to its encoding.
- Theorem {lit}`length_encode_le`: a value below {lit}`128 ^ k` takes at most
  {lit}`k` bytes.
- Definition {lit}`lengthPrefixed`: a list as its encoded length followed by its
  elements.
-/

namespace ByteCodec
namespace Leb128

/-- The LEB128 encoding of a natural number. -/
def encode (v : Nat) : Bytes :=
  if v < 128 then [v.toUInt8] else (v % 128 + 128).toUInt8 :: encode (v / 128)
termination_by v
decreasing_by omega

theorem encode_of_lt {v : Nat} (h : v < 128) : encode v = [v.toUInt8] := by
  rw [encode, if_pos h]

theorem encode_of_le {v : Nat} (h : 128 ≤ v) :
    encode v = (v % 128 + 128).toUInt8 :: encode (v / 128) := by
  rw [encode, if_neg (Nat.not_lt.mpr h)]

theorem encode_ne_nil (v : Nat) : encode v ≠ [] := by
  by_cases h : v < 128
  · simp [encode_of_lt h]
  · simp [encode_of_le (Nat.le_of_not_lt h)]

/-- A digit below 128 in front of a positive number becomes one flagged byte in
front of that number's encoding. -/
theorem encode_digit_add {d w : Nat} (hd : d < 128) (hw : 0 < w) :
    encode (d + 128 * w) = (d + 128).toUInt8 :: encode w := by
  have hle : 128 ≤ d + 128 * w := by omega
  have hmod : (d + 128 * w) % 128 = d := by omega
  have hdiv : (d + 128 * w) / 128 = w := by omega
  rw [encode_of_le hle, hmod, hdiv]

/-- The encoding of a value below {lit}`128 ^ k` (with {lit}`k` positive) has at
most {lit}`k` bytes. -/
theorem length_encode_le : ∀ {k v : Nat}, 0 < k → v < 128 ^ k → (encode v).length ≤ k
  | 0, _, hk, _ => absurd hk (Nat.lt_irrefl 0)
  | k + 1, v, _, hv => by
    by_cases h : v < 128
    · simp [encode_of_lt h]
    · have hq : v / 128 < 128 ^ k := by
        rw [Nat.pow_succ] at hv
        exact Nat.div_lt_of_lt_mul (by rwa [Nat.mul_comm] at hv)
      have hk : 0 < k := by
        rcases Nat.eq_zero_or_pos k with rfl | hk
        · simp at hq
          omega
        · exact hk
      have ih := length_encode_le hk hq
      rw [encode_of_le (Nat.le_of_not_lt h), List.length_cons]
      omega

/-- A list in the usual container layout: the encoding of its length, then its
elements one after another. -/
def lengthPrefixed {α : Type} (item : α → Bytes) (xs : List α) : Bytes :=
  encode xs.length ++ xs.flatMap item

end Leb128
end ByteCodec

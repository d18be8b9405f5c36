import Mathlib.Algebra.Group.Nat.Defs
import Mathlib.Algebra.Group.Int.Defs

/-!
# Binary64 arithmetic on non-negative values

The {lit}`double` arithmetic that an expression such as {lit}`x * 0.20` performs
when {lit}`x` is a 64-bit integer: the integer is converted to the nearest
{lit}`double`, the product is rounded to the nearest {lit}`double`, and the
assignment back to an integer type truncates towards zero.  Rounding is to
nearest with ties to even, on 53 significant bits.

A value is kept exactly, as a mantissa and a binary exponent.  The values met
here are non-negative and far inside the exponent range, so subnormal numbers,
infinities and the sign are left out.
-/

namespace Binary64

/-- A non-negative {lit}`double`, the value {lit}`mantissa * 2 ^ exponent`.
Rounding leaves a mantissa of 53 bits, or {lit}`2 ^ 53` when it rounds up past
them, which is the same value as {lit}`2 ^ 52` one exponent higher. -/
structure Value where
  mantissa : Nat
  exponent : Int
deriving DecidableEq, Repr

/-- The quotient, the remainder and the divisor of {lit}`num / (den * 2 ^ e)`,
for an exponent of either sign. -/
def scaledDiv (num den : Nat) (e : Int) : Nat × Nat × Nat :=
  if 0 ≤ e then
    (num / (den * 2 ^ e.toNat), num % (den * 2 ^ e.toNat), den * 2 ^ e.toNat)
  else
    (num * 2 ^ (-e).toNat / den, num * 2 ^ (-e).toNat % den, den)

/-- The {lit}`double` nearest to {lit}`num / den`, ties to even.  The exponent
is the one that puts the quotient in {lit}`[2 ^ 52, 2 ^ 53)`: the bit lengths of
the numerator and the denominator place it within one of the first guess. -/
def ofRat (num den : Nat) : Value :=
  let e := (Nat.log2 num : Int) - Nat.log2 den - 52
  let e := if (scaledDiv num den e).1 < 2 ^ 52 then e - 1 else e
  let (q, r, d) := scaledDiv num den e
  ⟨if d < 2 * r ∨ (2 * r = d ∧ q % 2 = 1) then q + 1 else q, e⟩

/-- An integer converted to {lit}`double`. -/
def ofNat (n : Nat) : Value := ofRat n 1

/-- The product of two values, rounded. -/
def mul (x y : Value) : Value :=
  let e := x.exponent + y.exponent
  if 0 ≤ e then ofRat (x.mantissa * y.mantissa * 2 ^ e.toNat) 1
  else ofRat (x.mantissa * y.mantissa) (2 ^ (-e).toNat)

/-- The conversion of a value to an integer type, which truncates towards zero. -/
def truncate (x : Value) : Nat :=
  if 0 ≤ x.exponent then x.mantissa * 2 ^ x.exponent.toNat
  else x.mantissa / 2 ^ (-x.exponent).toNat

/-- The literal {lit}`0.20` is the {lit}`double` of mantissa {lit}`0x1999999999999A`. -/
example : ofRat 20 100 = ⟨0x1999999999999A, -55⟩ := by decide

/-- An integer of 53 bits or fewer converts exactly. -/
example : truncate (ofNat (2 ^ 53 - 1)) = 2 ^ 53 - 1 := by decide

/-- Above 53 bits the conversion rounds, to the even neighbour at a tie. -/
example : truncate (ofNat (2 ^ 53 + 1)) = 2 ^ 53 := by decide

end Binary64

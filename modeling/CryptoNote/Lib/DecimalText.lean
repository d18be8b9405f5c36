import Mathlib.Data.Nat.Digits.Lemmas

/-!
# Decimal text

Numbers written as decimal digit characters, the most significant first, as
{lit}`std::to_string` writes them and an input stream reads them back.  A
digit is a character that {lit}`Char.isDigit` accepts, {lit}`'0'` to
{lit}`'9'`, which is what {lit}`isdigit` accepts in the C locale.

Main results:

- Theorem {lit}`value_append`: the value of a text is the value of its front
  shifted past its back, plus the value of its back.
- Theorem {lit}`value_ofNat`: reading the text of a number gives the number.
- Theorems {lit}`isDigit_of_mem_ofNat` and {lit}`ofNat_ne_nil`: that text is
  digits, at least one.
-/

namespace DecimalText

/-- The value of a digit character. -/
def digitValue (c : Char) : Nat := c.toNat - '0'.toNat

/-- The number that digit characters spell, as a stream accumulates it: ten
times the value so far plus the next digit. -/
def value (s : List Char) : Nat := s.foldl (fun acc c => 10 * acc + digitValue c) 0

/-- The decimal text of a number without leading zeros; that of {lit}`0` is
one digit. -/
def ofNat (n : Nat) : List Char :=
  if n = 0 then ['0'] else ((Nat.digits 10 n).map Nat.digitChar).reverse

/-- The fold of the digits from an accumulator shifts it past them. -/
theorem foldl_value (acc : Nat) (s : List Char) :
    s.foldl (fun acc c => 10 * acc + digitValue c) acc = acc * 10 ^ s.length + value s := by
  induction s generalizing acc with
  | nil => simp [value]
  | cons c s ih =>
    have hcons : value (c :: s) = digitValue c * 10 ^ s.length + value s := by
      rw [value, List.foldl_cons, ih, Nat.mul_zero, Nat.zero_add]
    rw [List.foldl_cons, ih, hcons, List.length_cons, Nat.pow_succ]
    ring

@[simp] theorem value_nil : value [] = 0 := rfl

theorem value_append (s t : List Char) : value (s ++ t) = value s * 10 ^ t.length + value t := by
  rw [value, List.foldl_append, foldl_value, ← value]

theorem value_cons (c : Char) (s : List Char) :
    value (c :: s) = digitValue c * 10 ^ s.length + value s := by
  rw [← List.singleton_append, value_append]
  simp [value]

@[simp] theorem value_replicate_zero (n : Nat) : value (List.replicate n '0') = 0 := by
  induction n with
  | zero => rfl
  | succ n ih =>
    rw [List.replicate_succ, value_cons, ih]
    simp [digitValue]

theorem digitValue_digitChar {d : Nat} (hd : d < 10) : digitValue (Nat.digitChar d) = d := by
  have : ∀ d < 10, digitValue (Nat.digitChar d) = d := by decide
  exact this d hd

/-- The stream's fold read backwards is {lit}`Nat.ofDigits` of the digits, the
least significant first. -/
theorem value_eq_ofDigits (s : List Char) :
    value s = Nat.ofDigits 10 (s.reverse.map digitValue) := by
  induction s using List.reverseRecOn with
  | nil => rfl
  | append_singleton s c ih =>
    rw [value_append, ih]
    simp [value, Nat.ofDigits_cons]
    ring

/-- The digits of a number read back as the number. -/
theorem value_ofNat (n : Nat) : value (ofNat n) = n := by
  unfold ofNat
  split
  · rename_i h
    subst h
    rfl
  · rw [value_eq_ofDigits, List.reverse_reverse, List.map_map]
    have hmap : (Nat.digits 10 n).map (digitValue ∘ Nat.digitChar) = Nat.digits 10 n := by
      conv_rhs => rw [← List.map_id (Nat.digits 10 n)]
      exact List.map_congr_left fun d hd =>
        digitValue_digitChar (Nat.digits_lt_base (by omega) hd)
    rw [hmap, Nat.ofDigits_digits]

/-- The text of a number has only digits. -/
theorem isDigit_of_mem_ofNat {n : Nat} {c : Char} (hc : c ∈ ofNat n) : c.isDigit = true := by
  unfold ofNat at hc
  split at hc
  · rw [List.mem_singleton] at hc
    subst hc
    rfl
  · obtain ⟨d, hd, rfl⟩ := List.mem_map.mp (List.mem_reverse.mp hc)
    rw [Nat.isDigit_digitChar, decide_eq_true_eq]
    exact Nat.digits_lt_base (by omega) hd

theorem ofNat_ne_nil (n : Nat) : ofNat n ≠ [] := by
  unfold ofNat
  split
  · simp
  · rename_i h
    simpa [Nat.digits_ne_nil_iff_ne_zero] using h

end DecimalText

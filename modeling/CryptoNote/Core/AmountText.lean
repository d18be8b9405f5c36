import Mathlib.Data.List.TakeWhile
import CryptoNote.Lib.DecimalText

/-!
# Amounts as text

{lit}`Currency::formatAmount` and {lit}`Currency::parseAmount`
(src/cryptonote/core/currency.cpp) write an amount of atomic units with a
decimal point {lit}`m_numberOfDecimalPlaces` digits from the right, and read
such a text back.  The number of decimal places is an argument here.  Strings
are lists of characters; the parser tests them with {lit}`std::isspace` and
{lit}`isdigit` of the C locale.

{lit}`binary::is::from` reads the digits with {lit}`operator>>` of an input
stream.  {lit}`parseAmount` calls it only on a non-empty string of digits, and
on such a string the stream reads every digit and fails exactly when the value
does not fit in {lit}`uint64_t`; that is its model.

Main results:

- Theorem {lit}`parseAmount_eq_some_iff`: {lit}`parseAmount` accepts exactly
  the texts {lit}`IsAmountText`, and returns the value they spell times
  {lit}`10 ^ D`.
- Theorem {lit}`parseAmount_formatAmount`: every amount reads back from its
  text, for every number of decimal places.
- Theorem {lit}`parseAmount_point_zero`: with no decimal places the text
  {lit}`".0"` is refused: the loop that trims the fraction erases its only
  digit.
-/

namespace CryptoNote

namespace Currency

open DecimalText

/-! ## The model -/

/-- {lit}`std::isspace` in the C locale: space, and tab to carriage return. -/
def isSpace (c : Char) : Bool := c == ' ' || ('\t' ≤ c && c ≤ '\r')

/-- {lit}`boost::algorithm::trim`: the white space at the end, then at the
start, is erased. -/
def trim (s : List Char) : List Char :=
  (s.reverse.dropWhile isSpace).reverse.dropWhile isSpace

/-- {lit}`formatAmount(uint64_t)`: the decimal text, padded with zeros to more
digits than decimal places, with the point inserted before the last
{lit}`numberOfDecimalPlaces` digits. -/
def formatAmount (numberOfDecimalPlaces : Nat) (amount : UInt64) : List Char :=
  let s := DecimalText.ofNat amount.toNat
  let s := if s.length < numberOfDecimalPlaces + 1 then
      List.replicate (numberOfDecimalPlaces + 1 - s.length) '0' ++ s
    else s
  s.take (s.length - numberOfDecimalPlaces) ++ '.' :: s.drop (s.length - numberOfDecimalPlaces)

/-- The loop of {lit}`parseAmount` that erases the last character while it is a
zero and the fraction has more digits than the decimal places; the fraction
size counts down with it. -/
def eraseTrailingZeros (numberOfDecimalPlaces : Nat) : Nat → List Char → List Char × Nat
  | 0, s => (s, 0)
  | fractionSize + 1, s =>
    if numberOfDecimalPlaces < fractionSize + 1 ∧ s.getLast? = some '0' then
      eraseTrailingZeros numberOfDecimalPlaces fractionSize s.dropLast
    else (s, fractionSize + 1)

/-- The branch of {lit}`parseAmount` on the first point: the fraction is
trimmed of zeros, a fraction still longer than the decimal places is refused,
and the point is erased.  Without a point the fraction is empty. -/
def erasePoint (numberOfDecimalPlaces : Nat) (strAmount : List Char) :
    Option (List Char × Nat) :=
  match strAmount.idxOf? '.' with
  | some pointIndex =>
    let trimmed := eraseTrailingZeros numberOfDecimalPlaces
      (strAmount.length - pointIndex - 1) strAmount
    if numberOfDecimalPlaces < trimmed.2 then none
    else some (trimmed.1.eraseIdx pointIndex, trimmed.2)
  | none => some (strAmount, 0)

/-- {lit}`binary::is::from<uint64_t>` on a non-empty string of digits. -/
def fromDigits (s : List Char) : Option UInt64 :=
  if DecimalText.value s < 2 ^ 64 then some (DecimalText.value s).toUInt64 else none

/-- {lit}`parseAmount`: trim, erase the point, refuse an empty or non-digit
string, pad the fraction to the decimal places and read the digits. -/
def parseAmount (numberOfDecimalPlaces : Nat) (str : List Char) : Option UInt64 :=
  match erasePoint numberOfDecimalPlaces (trim str) with
  | none => none
  | some (strAmount, fractionSize) =>
    if strAmount = [] then none
    else if !strAmount.all Char.isDigit then none
    else if fractionSize < numberOfDecimalPlaces then
      fromDigits (strAmount ++ List.replicate (numberOfDecimalPlaces - fractionSize) '0')
    else fromDigits strAmount

/-! ## The texts it accepts -/

/-- The digits of a fraction once its trailing zeros are dropped. -/
def significant (fraction : List Char) : List Char :=
  (fraction.reverse.dropWhile (· == '0')).reverse

/-- The texts {lit}`parseAmount` accepts after trimming, and the amount each
spells: digits with at most one point; a fraction with at most {lit}`D` digits
once its trailing zeros are dropped; some digit among the integer part and the
first {lit}`D` digits of the fraction; and the amount is the value of the text
times {lit}`10 ^ D`. -/
def IsAmountText (D : Nat) (t : List Char) (amount : Nat) : Prop :=
  ∃ (intPart : List Char) (fraction : Option (List Char)),
    t = intPart ++ (fraction.map ('.' :: ·)).getD [] ∧
      (∀ c ∈ intPart ++ fraction.getD [], c.isDigit) ∧
      intPart ++ (fraction.getD []).take D ≠ [] ∧
      (significant (fraction.getD [])).length ≤ D ∧
      value (intPart ++ fraction.getD []) * 10 ^ D = amount * 10 ^ (fraction.getD []).length

/-! ## The fraction and its trailing zeros -/

theorem takeWhile_zero_eq_replicate (l : List Char) :
    l.takeWhile (· == '0') = List.replicate (l.takeWhile (· == '0')).length '0' :=
  List.eq_replicate_iff.mpr ⟨rfl, fun _ hb => by simpa using List.mem_takeWhile_imp hb⟩

/-- A fraction is its significant digits followed by zeros. -/
theorem significant_append_zeros (fraction : List Char) :
    fraction = significant fraction ++
      List.replicate (fraction.length - (significant fraction).length) '0' := by
  have hsplit := @List.takeWhile_append_dropWhile _ (· == '0') fraction.reverse
  have hlength := congrArg List.length hsplit
  rw [takeWhile_zero_eq_replicate] at hsplit
  rw [List.length_append, List.length_reverse] at hlength
  conv_lhs => rw [← List.reverse_reverse fraction, ← hsplit]
  rw [List.reverse_append, List.reverse_replicate, significant, List.length_reverse]
  congr 2
  omega

theorem length_significant_le (fraction : List Char) :
    (significant fraction).length ≤ fraction.length := by
  rw [significant, List.length_reverse]
  exact (List.length_dropWhile_le _ _).trans (List.length_reverse).le

/-- The first {lit}`D` digits of a fraction whose significant digits fit are
those digits and the zeros after them, up to {lit}`D` digits. -/
theorem take_eq_significant_append {D : Nat} (fraction : List Char)
    (hfit : (significant fraction).length ≤ D) :
    fraction.take D = significant fraction ++ List.replicate
      (min (fraction.length - (significant fraction).length) (D - (significant fraction).length))
      '0' := by
  conv_lhs => rw [significant_append_zeros fraction]
  rw [List.take_append, List.take_of_length_le hfit, List.take_replicate, Nat.min_comm]

/-- The significant digits do not end with a zero. -/
theorem getLast?_significant (fraction : List Char) :
    (significant fraction).getLast? ≠ some '0' := by
  have hhead := List.head?_dropWhile_not (· == '0') fraction.reverse
  rw [significant, List.getLast?_reverse]
  intro h
  rw [h] at hhead
  simp at hhead

/-- The loop erases zeros after a text that does not end with one, down to the
decimal places: of {lit}`z` zeros after {lit}`m` fraction digits it keeps
{lit}`min z (D - m)`. -/
theorem eraseTrailingZeros_zeros {D : Nat} {p : List Char} (hp : p.getLast? ≠ some '0')
    (m : Nat) :
    ∀ z, eraseTrailingZeros D (m + z) (p ++ List.replicate z '0') =
      (p ++ List.replicate (min z (D - m)) '0', m + min z (D - m))
  | 0 => by
    cases m with
    | zero => simp [eraseTrailingZeros]
    | succ m => simp [eraseTrailingZeros, hp]
  | z + 1 => by
    have hlast : (p ++ List.replicate (z + 1) '0').getLast? = some '0' := by
      simp [List.getLast?_append, List.getLast?_replicate]
    rw [show m + (z + 1) = (m + z) + 1 by omega, eraseTrailingZeros]
    by_cases hD : D < m + z + 1
    · rw [if_pos ⟨hD, hlast⟩, List.replicate_succ', ← List.append_assoc, List.dropLast_concat,
        eraseTrailingZeros_zeros hp m z, show min z (D - m) = min (z + 1) (D - m) by omega]
    · rw [if_neg (fun h => hD h.1), show min (z + 1) (D - m) = z + 1 by omega]
      rfl

/-- The first point of a text whose integer part has none follows that part. -/
theorem idxOf?_point {intPart rest : List Char} (hint : '.' ∉ intPart) :
    (intPart ++ '.' :: rest).idxOf? '.' = some intPart.length := by
  rw [List.idxOf?_eq_some_iff]
  refine ⟨by simp, by simp, fun j hj hget => hint ?_⟩
  rw [List.getElem_append_left hj] at hget
  rw [← hget]
  exact List.getElem_mem hj

/-- On a text split at its first point, the branch refuses a fraction with more
significant digits than decimal places, and otherwise keeps the integer part
and the first {lit}`D` digits of the fraction. -/
theorem erasePoint_split {D : Nat} {intPart : List Char} (hint : '.' ∉ intPart)
    (fraction : Option (List Char)) :
    erasePoint D (intPart ++ (fraction.map ('.' :: ·)).getD []) =
      if D < (significant (fraction.getD [])).length then none
      else some (intPart ++ (fraction.getD []).take D, ((fraction.getD []).take D).length) := by
  cases fraction with
  | none =>
    have hnone : intPart.idxOf? '.' = none := List.idxOf?_eq_none_iff.mpr hint
    simp [erasePoint, hnone, significant]
  | some fraction =>
    set m := (significant fraction).length
    set z := fraction.length - m
    have hsplit := significant_append_zeros fraction
    have hp : (intPart ++ '.' :: significant fraction).getLast? ≠ some '0' := by
      rw [List.getLast?_append]
      cases hsig : (significant fraction).getLast? with
      | none => simp [List.getLast?_cons, hsig]
      | some c =>
        have := getLast?_significant fraction
        rw [hsig] at this
        simp [List.getLast?_cons, hsig, this]
    have hloop := eraseTrailingZeros_zeros (D := D) hp m z
    have hm : m ≤ fraction.length := length_significant_le fraction
    have hlength : (intPart ++ '.' :: fraction).length - intPart.length - 1 = m + z := by
      simp
      omega
    rw [List.append_assoc, List.cons_append, ← hsplit] at hloop
    simp only [Option.map_some, Option.getD_some, erasePoint, idxOf?_point hint, hlength,
      hloop]
    by_cases hD : D < m + min z (D - m)
    · rw [if_pos hD, if_pos (by omega)]
    · rw [if_neg hD, if_neg (by omega)]
      rw [List.append_assoc, List.cons_append,
        List.eraseIdx_append_of_length_le (le_refl _), Nat.sub_self, List.eraseIdx_cons_zero,
        take_eq_significant_append fraction (by omega)]
      simp
      omega

/-! ## Reading the digits -/

/-- A string of digits parses to an amount exactly when its value is that amount. -/
theorem fromDigits_eq_some_iff {s : List Char} {amount : UInt64} :
    fromDigits s = some amount ↔ value s = amount.toNat := by
  unfold fromDigits
  split
  · rename_i hfit
    constructor
    · rintro ⟨⟩
      simpa using (Nat.mod_eq_of_lt hfit).symm
    · intro h
      rw [h]
      simp
  · rename_i hfit
    have := amount.toNat_lt
    simp only [reduceCtorEq, false_iff]
    omega

/-- Every text splits at its first point, if it has one. -/
theorem exists_point_split (t : List Char) :
    ∃ (intPart : List Char) (fraction : Option (List Char)),
      '.' ∉ intPart ∧ t = intPart ++ (fraction.map ('.' :: ·)).getD [] := by
  by_cases hpoint : '.' ∈ t
  · refine ⟨t.takeWhile (· != '.'), some (t.dropWhile (· != '.')).tail, ?_, ?_⟩
    · intro hmem
      simpa using List.mem_takeWhile_imp hmem
    · have hhead := List.head?_dropWhile_not (· != '.') t
      obtain ⟨c, rest, hrest⟩ : ∃ c rest, t.dropWhile (· != '.') = c :: rest := by
        cases hdrop : t.dropWhile (· != '.') with
        | nil =>
          rw [List.dropWhile_eq_nil_iff] at hdrop
          simpa using hdrop '.' hpoint
        | cons c rest => exact ⟨c, rest, rfl⟩
      rw [hrest] at hhead
      simp only [List.head?_cons, bne_eq_false_iff_eq] at hhead
      subst hhead
      conv_lhs => rw [← @List.takeWhile_append_dropWhile _ (· != '.') t]
      rw [hrest]
      rfl
  · exact ⟨t, none, hpoint, by simp⟩

/-- Padding the first {lit}`D` digits of a fraction whose significant digits fit
gives the value of the text times {lit}`10 ^ D`, over {lit}`10 ^ ` the fraction's
length. -/
theorem value_padded {D : Nat} (intPart fraction : List Char)
    (hfit : (significant fraction).length ≤ D) :
    value (intPart ++ fraction.take D ++ List.replicate (D - (fraction.take D).length) '0') *
        10 ^ fraction.length = value (intPart ++ fraction) * 10 ^ D := by
  have hm := length_significant_le fraction
  have hpadded : fraction.take D ++ List.replicate (D - (fraction.take D).length) '0' =
      significant fraction ++ List.replicate (D - (significant fraction).length) '0' := by
    rw [take_eq_significant_append fraction hfit, List.length_append, List.length_replicate,
      List.append_assoc, ← List.replicate_add]
    congr 2
    omega
  rw [List.append_assoc, hpadded, ← List.append_assoc, value_append, value_replicate_zero]
  conv_rhs => rw [significant_append_zeros fraction, ← List.append_assoc, value_append,
    value_replicate_zero]
  rw [List.length_replicate, List.length_replicate, Nat.add_zero, Nat.add_zero, Nat.mul_assoc,
    Nat.mul_assoc, ← Nat.pow_add, ← Nat.pow_add]
  congr 2
  omega

/-- {lit}`parseAmount` on a text split at its first point. -/
theorem parseAmount_split (D : Nat) {str intPart : List Char} {fraction : Option (List Char)}
    (hint : '.' ∉ intPart) (htrim : trim str = intPart ++ (fraction.map ('.' :: ·)).getD []) :
    parseAmount D str =
      if D < (significant (fraction.getD [])).length then none
      else if intPart ++ (fraction.getD []).take D = [] then none
      else if !(intPart ++ (fraction.getD []).take D).all Char.isDigit then none
      else fromDigits (intPart ++ (fraction.getD []).take D ++
        List.replicate (D - ((fraction.getD []).take D).length) '0') := by
  rw [parseAmount, htrim, erasePoint_split hint]
  by_cases hfit : D < (significant (fraction.getD [])).length
  · rw [if_pos hfit, if_pos hfit]
  · rw [if_neg hfit, if_neg hfit]
    dsimp only
    split_ifs with hnil hdigits hpad
    · rfl
    · rfl
    · rfl
    · rw [show D - ((fraction.getD []).take D).length = 0 by omega, List.replicate_zero,
        List.append_nil]

/-- {lit}`parseAmount` accepts exactly the texts {lit}`IsAmountText` after
trimming, and returns the amount they spell. -/
theorem parseAmount_eq_some_iff (D : Nat) (str : List Char) (amount : UInt64) :
    parseAmount D str = some amount ↔ IsAmountText D (trim str) amount.toNat := by
  constructor
  · intro hparse
    obtain ⟨intPart, fraction, hint, htrim⟩ := exists_point_split (trim str)
    rw [parseAmount_split D hint htrim] at hparse
    split at hparse
    · cases hparse
    rename_i hfit
    split at hparse
    · cases hparse
    rename_i hne
    split at hparse
    · cases hparse
    rename_i hdigits
    simp only [Bool.not_eq_true', Bool.not_eq_false, List.all_eq_true] at hdigits
    refine ⟨intPart, fraction, htrim, ?_, hne, by omega, ?_⟩
    · intro c hc
      rcases List.mem_append.mp hc with hc | hc
      · exact hdigits c (List.mem_append_left _ hc)
      · rw [significant_append_zeros (fraction.getD [])] at hc
        rcases List.mem_append.mp hc with hc | hc
        · apply hdigits c (List.mem_append_right _ _)
          rw [take_eq_significant_append _ (by omega)]
          exact List.mem_append_left _ hc
        · rw [List.eq_of_mem_replicate hc]
          rfl
    · rw [← value_padded intPart _ (by omega), fromDigits_eq_some_iff.mp hparse]
  · rintro ⟨intPart, fraction, htrim, hdigits, hne, hfit, hvalue⟩
    have hint : '.' ∉ intPart := fun h => by
      simpa using hdigits '.' (List.mem_append_left _ h)
    rw [parseAmount_split D hint htrim, if_neg (by omega), if_neg hne, if_neg]
    · rw [fromDigits_eq_some_iff]
      have hpos : 0 < 10 ^ (fraction.getD []).length := Nat.pow_pos (by omega)
      apply Nat.eq_of_mul_eq_mul_right hpos
      rw [value_padded intPart _ hfit, hvalue]
    · simp only [Bool.not_eq_true', Bool.not_eq_false, List.all_eq_true]
      intro c hc
      rcases List.mem_append.mp hc with hc | hc
      · exact hdigits c (List.mem_append_left _ hc)
      · exact hdigits c (List.mem_append_right _ (List.mem_of_mem_take hc))

/-- A text parses exactly when, trimmed, it is the text of an amount below
{lit}`2 ^ 64`. -/
theorem parseAmount_isSome_iff (D : Nat) (str : List Char) :
    (parseAmount D str).isSome ↔ ∃ amount < 2 ^ 64, IsAmountText D (trim str) amount := by
  rw [Option.isSome_iff_exists]
  constructor
  · rintro ⟨v, hv⟩
    exact ⟨v.toNat, v.toNat_lt, (parseAmount_eq_some_iff D str v).mp hv⟩
  · rintro ⟨amount, hfit, htext⟩
    have hamount : amount.toUInt64.toNat = amount := by
      simpa using Nat.mod_eq_of_lt hfit
    exact ⟨amount.toUInt64, (parseAmount_eq_some_iff D str _).mpr (by rwa [hamount])⟩

/-- With no decimal places the text {lit}`".0"` is refused, though it is digits
with one point, its fraction has no digit once its zeros are dropped, and its
value is {lit}`0`: the loop erases the fraction's only digit, and nothing is
left once the point goes. -/
theorem parseAmount_point_zero :
    trim ['.', '0'] = ['.', '0'] ∧ significant ['0'] = [] ∧ value ['0'] = 0 ∧
      parseAmount 0 ['.', '0'] = none := by
  decide

/-! ## The texts it writes -/

/-- A digit is not whitespace. -/
theorem isSpace_of_isDigit {c : Char} (h : c.isDigit = true) : isSpace c = false := by
  simp only [Char.isDigit, Bool.and_eq_true, decide_eq_true_eq, ge_iff_le,
    UInt32.le_iff_toNat_le] at h
  simp only [isSpace, Bool.or_eq_false_iff, beq_eq_false_iff_ne, Bool.and_eq_false_iff,
    decide_eq_false_iff_not, ne_eq, Char.le_def, Char.ext_iff, UInt32.le_iff_toNat_le,
    ← UInt32.toNat_inj]
  simp at h ⊢
  omega

/-- Trimming keeps a text without white space. -/
theorem trim_of_forall_not_isSpace {t : List Char} (h : ∀ c ∈ t, isSpace c = false) :
    trim t = t := by
  have hkeep : ∀ l : List Char, (∀ c ∈ l, isSpace c = false) → l.dropWhile isSpace = l :=
    fun l hl => List.dropWhile_eq_self_iff.mpr fun h0 => by simp [hl _ (List.getElem_mem h0)]
  rw [trim, hkeep _ (fun c hc => h c (List.mem_reverse.mp hc)), List.reverse_reverse, hkeep _ h]

/-- The text of an amount is its digits, padded with zeros to more digits than
decimal places, with the point before the last {lit}`D`. -/
theorem formatAmount_split (D : Nat) (amount : UInt64) :
    ∃ s : List Char, formatAmount D amount = s.take (s.length - D) ++ '.' :: s.drop (s.length - D) ∧
      (∀ c ∈ s, c.isDigit) ∧ value s = amount.toNat ∧ D + 1 ≤ s.length := by
  unfold formatAmount
  dsimp only
  split
  · rename_i hshort
    refine ⟨_, rfl, ?_, ?_, ?_⟩
    · intro c hc
      rcases List.mem_append.mp hc with hc | hc
      · rw [List.eq_of_mem_replicate hc]
        rfl
      · exact isDigit_of_mem_ofNat hc
    · rw [value_append, value_replicate_zero, Nat.zero_mul, Nat.zero_add, value_ofNat]
    · rw [List.length_append, List.length_replicate]
      omega
  · rename_i hlong
    exact ⟨_, rfl, fun c hc => isDigit_of_mem_ofNat hc, value_ofNat _, by omega⟩

/-- The printed amount is a text of that amount. -/
theorem formatAmount_isAmountText (D : Nat) (amount : UInt64) :
    IsAmountText D (formatAmount D amount) amount.toNat := by
  obtain ⟨s, hs, hdigits, hvalue, hlength⟩ := formatAmount_split D amount
  refine ⟨s.take (s.length - D), some (s.drop (s.length - D)), hs, ?_, ?_, ?_, ?_⟩
  · simpa only [Option.getD_some, List.take_append_drop] using hdigits
  · intro hnil
    have := congrArg List.length hnil
    simp only [List.length_append, List.length_take, List.length_nil] at this
    omega
  · exact (length_significant_le _).trans (by rw [Option.getD_some, List.length_drop]; omega)
  · rw [Option.getD_some, List.take_append_drop, hvalue, List.length_drop]
    congr 2
    omega

/-- A printed amount has nothing to trim. -/
theorem trim_formatAmount (D : Nat) (amount : UInt64) :
    trim (formatAmount D amount) = formatAmount D amount := by
  obtain ⟨s, hs, hdigits, -, -⟩ := formatAmount_split D amount
  apply trim_of_forall_not_isSpace
  rw [hs]
  intro c hc
  rcases List.mem_append.mp hc with hc | hc
  · exact isSpace_of_isDigit (hdigits c (List.mem_of_mem_take hc))
  · rcases List.mem_cons.mp hc with rfl | hc
    · rfl
    · exact isSpace_of_isDigit (hdigits c (List.mem_of_mem_drop hc))

theorem parseAmount_formatAmount (D : Nat) (amount : UInt64) :
    parseAmount D (formatAmount D amount) = some amount := by
  rw [parseAmount_eq_some_iff, trim_formatAmount]
  exact formatAmount_isAmountText D amount

/-- The amount text codec: every amount reads back from its text, and
{lit}`parseAmount` accepts exactly the trimmed texts {lit}`IsAmountText` whose
amount fits in {lit}`uint64_t`, returning that amount. -/
theorem parseAmount_codec (D : Nat) :
    (∀ amount : UInt64, parseAmount D (formatAmount D amount) = some amount) ∧
      (∀ (str : List Char) (amount : UInt64),
        parseAmount D str = some amount ↔ IsAmountText D (trim str) amount.toNat) ∧
      ∀ str : List Char,
        (parseAmount D str).isSome ↔ ∃ amount < 2 ^ 64, IsAmountText D (trim str) amount :=
  ⟨parseAmount_formatAmount D, parseAmount_eq_some_iff D, parseAmount_isSome_iff D⟩

end Currency

end CryptoNote

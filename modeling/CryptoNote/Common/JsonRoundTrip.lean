import CryptoNote.Common.JsonValue

/-!
# Printing and parsing JSON values

What {lit}`fromString` makes of the text {lit}`toString` prints.

The parser takes every character of a string with {lit}`readChar`, that is
{lit}`in >> c`, which skips whitespace: a printed string comes back without its
spaces, tabs and newlines ({lit}`readValue_print_string`).  Everything else
comes back as it was printed.  On values without reals (whose text is the
standard library's), whose strings and keys hold no whitespace, quote or
backslash, and whose objects have their keys in increasing order, as a
{lit}`std::map` keeps them, the parse of the print is the value
({lit}`readsBack_of_plain`).

{lit}`fromString` checks only that the stream has not failed, not that it was
read to the end: the text of a value followed by anything that cannot continue
a number is accepted as that value, and a lone minus as the integer zero
({lit}`fromString_accepts_outside_grammar`).

The proof follows the recursive descent.  A value's text is read back by
{lit}`readValue` with any fuel of three times its length and whatever follows,
as long as that cannot continue a number; arrays and objects are read by the
loops {lit}`readItems` and {lit}`readMembers`, by induction on what is left of
their list.
-/

namespace CryptoNote

open ByteCodec

namespace JsonValue

/-! ## Characters -/

theorem isDigit_iff (c : UInt8) : isDigit c = true ↔ 48 ≤ c.toNat ∧ c.toNat ≤ 57 := by
  simp only [isDigit, Bool.and_eq_true, decide_eq_true_eq, UInt8.le_iff_toNat_le]
  rfl

theorem isSpace_iff (c : UInt8) :
    isSpace c = true ↔ c.toNat = 32 ∨ 9 ≤ c.toNat ∧ c.toNat ≤ 13 := by
  simp only [isSpace, Bool.or_eq_true, Bool.and_eq_true, decide_eq_true_eq,
    UInt8.le_iff_toNat_le, UInt8.ext_iff]
  rfl

theorem ne_minus_of_isDigit {c : UInt8} (hc : isDigit c = true) : c ≠ '-'.toUInt8 := by
  rintro rfl
  exact absurd hc (by decide)

theorem isSpace_of_isDigit {c : UInt8} (hc : isDigit c = true) : isSpace c = false := by
  rw [isDigit_iff] at hc
  rw [Bool.eq_false_iff, ne_eq, isSpace_iff]
  omega

theorem readNonWsChar_run_cons {c : UInt8} (hc : isSpace c = false) (s : Bytes) :
    readNonWsChar.run (c :: s) = .ok (c, s) := by
  simp [readNonWsChar, readChar, StateT.run, hc]

/-! ## Strings -/

/-- {lit}`readStringToken` up to a closing quote: a text without quotes or
backslashes is taken without its whitespace. -/
theorem readStringToken_append_quote (s rest : Bytes)
    (hs : ∀ c ∈ s, c ≠ '"'.toUInt8 ∧ c ≠ '\\'.toUInt8) (value : Bytes) :
    readStringToken value (s ++ '"'.toUInt8 :: rest) =
      .ok (value ++ s.filter (fun c => !isSpace c), rest) := by
  have hquote : isSpace '"'.toUInt8 = false := by decide
  induction s generalizing value with
  | nil => simp [readStringToken, hquote]
  | cons c s ih =>
    have ⟨hquote, hbackslash⟩ := hs c (List.mem_cons_self ..)
    have hs' : ∀ c ∈ s, c ≠ '"'.toUInt8 ∧ c ≠ '\\'.toUInt8 :=
      fun d hd => hs d (List.mem_cons_of_mem c hd)
    cases hspace : isSpace c with
    | true => simp [readStringToken, hspace, ih hs']
    | false =>
      simp only [List.cons_append, readStringToken, hspace, Bool.false_eq_true, if_false,
        if_neg hquote, if_neg hbackslash, ih hs' (value ++ [c])]
      simp [hspace]

/-- Text that {lit}`readStringToken` reads back as it is. -/
def PlainText (s : Bytes) : Prop :=
  ∀ c ∈ s, isSpace c = false ∧ c ≠ '"'.toUInt8 ∧ c ≠ '\\'.toUInt8

theorem readStringToken_plain {s : Bytes} (hs : PlainText s) (rest : Bytes) :
    readStringToken [] (s ++ '"'.toUInt8 :: rest) = .ok (s, rest) := by
  have hfilter : s.filter (fun c => !isSpace c) = s :=
    List.filter_eq_self.mpr fun c hc => by simp [(hs c hc).1]
  rw [readStringToken_append_quote s rest (fun c hc => (hs c hc).2), hfilter, List.nil_append]

/-! ## Numbers -/

/-- What follows a number in the text: nothing that continues it. -/
def Delimited (rest : Bytes) : Prop :=
  ∀ c rest', rest = c :: rest' → isDigit c = false ∧ c ≠ '.'.toUInt8

theorem delimited_nil : Delimited [] := fun _ _ h => by cases h

theorem delimited_cons {c : UInt8} (hc : isDigit c = false ∧ c ≠ '.'.toUInt8) (rest : Bytes) :
    Delimited (c :: rest) := by
  rintro d rest' ⟨⟩
  exact hc

/-- The character of a decimal digit has the code {lit}`48` plus the digit. -/
theorem digitChar_toUInt8_toNat {d : Nat} (hd : d < 10) :
    (Nat.digitChar d).toUInt8.toNat = 48 + d := by
  have h := Nat.toNat_digitChar_of_lt_ten hd
  show (Nat.digitChar d).val.toUInt8.toNat = _
  rw [UInt32.toNat_toUInt8]
  simp only [Char.toNat] at h
  omega

theorem decimal_of_lt {n : Nat} (hn : n < 10) : decimal n = [(Nat.digitChar n).toUInt8] := by
  simp [decimal, Nat.toDigits_of_lt_base hn]

theorem decimal_of_le {n : Nat} (hn : 10 ≤ n) :
    decimal n = decimal (n / 10) ++ [(Nat.digitChar (n % 10)).toUInt8] := by
  simp [decimal, Nat.toDigits_of_base_le (by decide : 1 < 10) hn]

theorem decimal_ne_nil (n : Nat) : decimal n ≠ [] := by
  simp [decimal]

theorem decimal_zero : decimal 0 = [48] := rfl

/-- The digits {lit}`out << n` prints are digits; by induction on the number,
one digit at a time. -/
theorem isDigit_of_mem_decimal {n : Nat} : ∀ {c : UInt8}, c ∈ decimal n → isDigit c = true := by
  induction n using Nat.strongRecOn with
  | ind n ih =>
    intro c hc
    rcases Nat.lt_or_ge n 10 with hn | hn
    · rw [decimal_of_lt hn, List.mem_singleton] at hc
      subst hc
      rw [isDigit_iff, digitChar_toUInt8_toNat hn]
      omega
    · rw [decimal_of_le hn, List.mem_append, List.mem_singleton] at hc
      rcases hc with hc | rfl
      · exact ih (n / 10) (by omega) hc
      · rw [isDigit_iff, digitChar_toUInt8_toNat (Nat.mod_lt n (by decide))]
        omega

/-- A positive number is printed without a leading zero. -/
theorem decimal_head_ne_zero {n : Nat} (hn : 0 < n) :
    ∀ {c : UInt8} {t : Bytes}, decimal n = c :: t → c ≠ '0'.toUInt8 := by
  induction n using Nat.strongRecOn with
  | ind n ih =>
    intro c t h
    rcases Nat.lt_or_ge n 10 with hlt | hle
    · rw [decimal_of_lt hlt, List.cons.injEq] at h
      rw [← h.1, ne_eq, UInt8.ext_iff, digitChar_toUInt8_toNat hlt]
      show ¬48 + n = 48
      omega
    · obtain ⟨c', t', hcons⟩ := List.exists_cons_of_ne_nil (decimal_ne_nil (n / 10))
      rw [decimal_of_le hle, hcons, List.cons_append, List.cons.injEq] at h
      rw [← h.1]
      exact ih (n / 10) (by omega) (by omega) hcons

theorem digitsValue_append_digit (digits : Bytes) (d : UInt8) :
    digitsValue (digits ++ [d]) = 10 * digitsValue digits + (d.toNat - 48) := by
  simp [digitsValue, List.foldl_append]

/-- Reading back the digits of a number gives the number. -/
theorem digitsValue_decimal (n : Nat) : digitsValue (decimal n) = n := by
  induction n using Nat.strongRecOn with
  | ind n ih =>
    rcases Nat.lt_or_ge n 10 with hn | hn
    · rw [decimal_of_lt hn, ← List.nil_append [_], digitsValue_append_digit,
        digitChar_toUInt8_toNat hn]
      simp [digitsValue]
    · rw [decimal_of_le hn, digitsValue_append_digit, ih (n / 10) (by omega),
        digitChar_toUInt8_toNat (Nat.mod_lt n (by decide))]
      omega

/-- The text of an integer starts with a minus or a digit. -/
theorem integerText_eq_cons (value : Int64) :
    ∃ c t, integerText value = c :: t ∧ (c = '-'.toUInt8 ∨ isDigit c = true) := by
  unfold integerText
  split
  · exact ⟨_, _, rfl, .inl rfl⟩
  · obtain ⟨c, t, h⟩ := List.exists_cons_of_ne_nil (decimal_ne_nil value.toInt.natAbs)
    exact ⟨c, t, h, .inr (isDigit_of_mem_decimal (h ▸ List.mem_cons_self ..))⟩

/-- {lit}`istringstream >> int64_t` reads back what {lit}`out << int64_t`
printed, at both ends of the range too. -/
theorem parseInteger_integerText (value : Int64) : parseInteger (integerText value) = value := by
  unfold integerText
  split
  · next hneg =>
    have hmin := Int64.minValue_le_toInt value
    have habs : -((value.toInt.natAbs : Nat) : Int) = value.toInt := by omega
    simp only [parseInteger, if_pos, decimal_ne_nil, if_false, digitsValue_decimal, habs,
      Int.max_eq_left hmin, Int64.ofInt_toInt]
  · next hnonneg =>
    obtain ⟨c, t, hct⟩ := List.exists_cons_of_ne_nil (decimal_ne_nil value.toInt.natAbs)
    have hdigit := isDigit_of_mem_decimal (hct ▸ List.mem_cons_self ..)
    have hmax : value.toInt ≤ Int64.maxValue.toInt := by
      have := Int64.toInt_lt value
      simp only [Int64.toInt_maxValue]
      omega
    have habs : ((value.toInt.natAbs : Nat) : Int) = value.toInt := by omega
    rw [hct]
    simp only [parseInteger]
    rw [if_neg (ne_minus_of_isDigit hdigit), ← hct, digitsValue_decimal, habs,
      Int.min_eq_left hmax, Int64.ofInt_toInt]

/-- The loop of {lit}`readNumber` takes a run of digits and stops before what
follows it. -/
theorem readDigitsAndDots_digits {rest : Bytes} (hrest : Delimited rest) (dots : Nat) :
    ∀ (digits text : Bytes), (∀ d ∈ digits, isDigit d = true) →
      readDigitsAndDots text dots (digits ++ rest) = (text ++ digits, dots, rest)
  | [], text, _ => by
    cases rest with
    | nil => simp [readDigitsAndDots]
    | cons c rest' =>
      obtain ⟨hdigit, hpoint⟩ := hrest c rest' rfl
      simp [readDigitsAndDots, hdigit, hpoint]
  | d :: digits, text, hdigits => by
    have hd := hdigits d (List.mem_cons_self ..)
    rw [List.cons_append, readDigitsAndDots, if_pos hd,
      readDigitsAndDots_digits hrest dots digits (text ++ [d])
        (fun d' hd' => hdigits d' (List.mem_cons_of_mem d hd'))]
    simp

section Parsing

variable (parseReal : Bytes → UInt64)

/-- {lit}`readNumber` on the text of an integer with what follows it. -/
theorem readNumber_integerText (value : Int64) {c : UInt8} {t : Bytes}
    (htext : integerText value = c :: t) {rest : Bytes} (hrest : Delimited rest) :
    (readNumber parseReal c).run (t ++ rest) = .ok (.integer value, rest) := by
  have hdigits : ∀ d ∈ t, isDigit d = true := by
    unfold integerText at htext
    split at htext
    · rw [List.cons.injEq] at htext
      exact fun d hd => isDigit_of_mem_decimal (htext.2 ▸ hd)
    · exact fun d hd => isDigit_of_mem_decimal (htext ▸ List.mem_cons_of_mem c hd)
  -- the leading-zero test of the source refuses none of the texts it prints
  have hlead : ∀ second t', t = second :: t' →
      ¬(c = '0'.toUInt8 ∨ (c = '-'.toUInt8 ∧ second = '0'.toUInt8)) := by
    intro second t' ht
    unfold integerText at htext
    split at htext
    · next hneg =>
      rw [List.cons.injEq, ht] at htext
      have hsecond := decimal_head_ne_zero (Int.natAbs_pos.mpr (by omega)) htext.2
      rintro (hzero | ⟨-, hzero⟩)
      · rw [← htext.1] at hzero
        exact absurd hzero (by decide)
      · exact hsecond hzero
    · next hnonneg =>
      rw [ht] at htext
      have hpos : 0 < value.toInt.natAbs := by
        rcases Nat.eq_zero_or_pos value.toInt.natAbs with h | h
        · rw [h, decimal_zero] at htext
          simp at htext
        · exact h
      have hdigit := isDigit_of_mem_decimal (htext ▸ List.mem_cons_self ..)
      rintro (hzero | ⟨hminus, -⟩)
      · exact decimal_head_ne_zero hpos htext hzero
      · exact ne_minus_of_isDigit hdigit hminus
  have hparse := parseInteger_integerText value
  rw [htext] at hparse
  simp only [readNumber, StateT.run]
  rw [readDigitsAndDots_digits hrest 0 t [c] hdigits]
  cases t with
  | nil => simp [hparse]
  | cons second t' => simp [hlead second t' rfl, hparse]

/-! ## Reading a value by its first character -/

theorem readValue_run_quote (fuel : Nat) (s : Bytes) :
    (readValue parseReal (fuel + 1)).run ('"'.toUInt8 :: s) = readString.run s := rfl

theorem readValue_run_bracket (fuel : Nat) (s : Bytes) :
    (readValue parseReal (fuel + 1)).run ('['.toUInt8 :: s) = (readArray parseReal fuel).run s :=
  rfl

theorem readValue_run_brace (fuel : Nat) (s : Bytes) :
    (readValue parseReal (fuel + 1)).run ('{'.toUInt8 :: s) = (readObject parseReal fuel).run s :=
  rfl

/-- A minus sign or a digit starts a number. -/
theorem readValue_run_number (fuel : Nat) {c : UInt8} (hc : c = '-'.toUInt8 ∨ isDigit c = true)
    (s : Bytes) :
    (readValue parseReal (fuel + 1)).run (c :: s) = (readNumber parseReal c).run s := by
  rcases hc with rfl | hdigit
  · rfl
  · have hrange := (isDigit_iff c).mp hdigit
    have hne : ∀ n : UInt8, (n.toNat < 48 ∨ 57 < n.toNat) → c ≠ n := by
      rintro n hn rfl
      omega
    show (readNonWsChar >>= _).run (c :: s) = _
    rw [run_bind_of_ok (readNonWsChar_run_cons (isSpace_of_isDigit hdigit) s),
      if_neg (hne '['.toUInt8 (by decide)), if_neg (hne 't'.toUInt8 (by decide)),
      if_neg (hne 'f'.toUInt8 (by decide)), if_pos (Or.inr hdigit)]

variable (formatReal : UInt64 → Bytes)

/-- A printed string is read back without its whitespace. -/
theorem readValue_print_string (fuel : Nat) (s rest : Bytes)
    (hs : ∀ c ∈ s, c ≠ '"'.toUInt8 ∧ c ≠ '\\'.toUInt8) :
    (readValue parseReal (fuel + 1)).run (print formatReal (.string s) ++ rest) =
      .ok (.string (s.filter fun c => !isSpace c), rest) := by
  have htext : print formatReal (.string s) ++ rest = '"'.toUInt8 :: (s ++ '"'.toUInt8 :: rest) := by
    simp [print]
  rw [htext, readValue_run_quote]
  simp [readString, StateT.run, readStringToken_append_quote s rest hs]

/-- A string without a quote or a backslash, printed and parsed back, has lost its
whitespace and nothing else. -/
theorem fromString_toString_string (s : Bytes) (hs : ∀ c ∈ s, c ≠ '"'.toUInt8 ∧ c ≠ '\\'.toUInt8) :
    fromString parseReal (toString formatReal (.string s)) =
      .ok (.string (s.filter fun c => !isSpace c)) := by
  have hread := readValue_print_string parseReal formatReal
    (3 * (toString formatReal (.string s)).length + 2) s [] hs
  rw [List.append_nil] at hread
  simp only [fromString, toString] at hread ⊢
  rw [hread]

/-- The string {lit}`a b` comes back as {lit}`ab`. -/
theorem fromString_toString_string_space :
    (∀ c ∈ ([97, 32, 98] : Bytes), c ≠ '"'.toUInt8 ∧ c ≠ '\\'.toUInt8) ∧
      fromString (fun _ => 0) (toString (fun _ => []) (.string [97, 32, 98])) =
        .ok (.string [97, 98]) := by
  -- the kernel evaluates the character test; the elaborator's reduction of
  -- Char.toUInt8 under all of Mathlib runs out of recursion depth
  have hplain : ∀ c ∈ ([97, 32, 98] : Bytes), c ≠ '"'.toUInt8 ∧ c ≠ '\\'.toUInt8 := by
    decide +kernel
  exact ⟨hplain, fromString_toString_string (fun _ => 0) (fun _ => []) [97, 32, 98] hplain⟩

/-! ## Values that read back -/

/-- A member goes last when every key before it is smaller. -/
theorem setMember_of_lt (key : Bytes) (value : JsonValue) :
    ∀ (members : List (Bytes × JsonValue)), (∀ k ∈ members.map Prod.fst, k < key) →
      setMember key value members = members ++ [(key, value)]
  | [], _ => rfl
  | (k, v) :: members, hlt => by
    have hk : k < key := hlt k (List.mem_cons_self ..)
    have hne : key ≠ k := fun h => List.lt_irrefl k (h ▸ hk)
    rw [setMember, if_neg (List.lt_asymm hk), if_neg hne,
      setMember_of_lt key value members (fun k' hk' => hlt k' (List.mem_cons_of_mem k hk'))]
    rfl

/-- The parse of a printed value, with any fuel of three times the length of
its text and any text after it that cannot continue a number. -/
def ReadsBack (value : JsonValue) : Prop :=
  ∀ fuel rest, 3 * (print formatReal value).length ≤ fuel → Delimited rest →
    (readValue parseReal fuel).run (print formatReal value ++ rest) = .ok (value, rest)

/-- The values whose text reads back: no reals, strings and keys of plain text,
and objects whose keys increase, as those of a {lit}`std::map` do. -/
inductive Plain : JsonValue → Prop
  | array {items : List JsonValue} : (∀ item ∈ items, Plain item) → Plain (.array items)
  | bool (value : Bool) : Plain (.bool value)
  | integer (value : Int64) : Plain (.integer value)
  | nil : Plain .nil
  | object {members : List (Bytes × JsonValue)} :
      (members.map Prod.fst).Pairwise (· < ·) → (∀ member ∈ members, PlainText member.1) →
      (∀ member ∈ members, Plain member.2) → Plain (.object members)
  | string {value : Bytes} : PlainText value → Plain (.string value)

/-- The text of a value starts with a character that is neither whitespace nor
the end of an array. -/
theorem print_eq_cons_of_plain {value : JsonValue} (hvalue : Plain value) :
    ∃ c t, print formatReal value = c :: t ∧ isSpace c = false ∧ c ≠ ']'.toUInt8 := by
  cases hvalue with
  | array => exact ⟨_, _, rfl, by decide, by decide⟩
  | bool value => cases value <;> exact ⟨_, _, rfl, by decide, by decide⟩
  | integer value =>
    obtain ⟨c, t, htext, hc⟩ := integerText_eq_cons value
    refine ⟨c, t, htext, ?_, ?_⟩
    · rcases hc with rfl | hdigit
      · decide
      · exact isSpace_of_isDigit hdigit
    · rcases hc with rfl | hdigit
      · decide
      · rintro rfl
        exact absurd hdigit (by decide)
  | nil => exact ⟨_, _, rfl, by decide, by decide⟩
  | object => exact ⟨_, _, rfl, by decide, by decide⟩
  | string => exact ⟨_, _, rfl, by decide, by decide⟩

theorem readsBack_bool (value : Bool) : ReadsBack parseReal formatReal (.bool value) := by
  intro fuel rest hfuel _
  obtain ⟨f, rfl⟩ : ∃ f, fuel = f + 1 := ⟨fuel - 1, by cases value <;> simp [print] at hfuel <;> omega⟩
  cases value <;> rfl

theorem readsBack_nil : ReadsBack parseReal formatReal .nil := by
  intro fuel rest hfuel _
  obtain ⟨f, rfl⟩ : ∃ f, fuel = f + 1 := ⟨fuel - 1, by simp [print] at hfuel; omega⟩
  rfl

/-- An integer is read back from its text. -/
theorem readsBack_integer (value : Int64) : ReadsBack parseReal formatReal (.integer value) := by
  intro fuel rest hfuel hrest
  obtain ⟨c, t, htext, hc⟩ := integerText_eq_cons value
  have hprint : print formatReal (.integer value) = c :: t := htext
  obtain ⟨f, rfl⟩ : ∃ f, fuel = f + 1 := ⟨fuel - 1, by rw [hprint] at hfuel; simp at hfuel; omega⟩
  rw [hprint, List.cons_append, readValue_run_number parseReal f hc,
    readNumber_integerText parseReal value htext hrest]

/-- A string of plain text is read back from its text. -/
theorem readsBack_string {value : Bytes} (hvalue : PlainText value) :
    ReadsBack parseReal formatReal (.string value) := by
  intro fuel rest hfuel _
  obtain ⟨f, rfl⟩ : ∃ f, fuel = f + 1 := ⟨fuel - 1, by simp [print] at hfuel; omega⟩
  have hfilter : value.filter (fun c => !isSpace c) = value :=
    List.filter_eq_self.mpr fun c hc => by simp [(hvalue c hc).1]
  rw [readValue_print_string parseReal formatReal f value rest (fun c hc => (hvalue c hc).2),
    hfilter]

/-- The loop of {lit}`readArray` over the printed items and the closing
bracket; by induction on the items after the first. -/
theorem readItems_printItems (rest : Bytes) :
    ∀ (item : JsonValue) (items : List JsonValue),
      (∀ i ∈ item :: items, ReadsBack parseReal formatReal i) →
      ∀ (fuel : Nat), 3 * (printItems formatReal (item :: items)).length + 1 ≤ fuel →
      ∀ (acc : List JsonValue),
      (readItems parseReal fuel acc).run
          (printItems formatReal (item :: items) ++ ']'.toUInt8 :: rest) =
        .ok (acc ++ item :: items, rest)
  | item, [], hback, fuel, hfuel, acc => by
    obtain ⟨g, rfl⟩ : ∃ g, fuel = g + 1 := ⟨fuel - 1, by omega⟩
    have hitem := hback item (List.mem_cons_self ..) g (']'.toUInt8 :: rest)
      (by simp [printItems, printMoreItems] at hfuel; omega) (delimited_cons (by decide) rest)
    simp only [printItems, printMoreItems, List.append_nil]
    rw [readItems, run_bind_of_ok hitem, run_bind_of_ok (readNonWsChar_run_cons (by decide) rest)]
    rfl
  | item, next :: items, hback, fuel, hfuel, acc => by
    obtain ⟨g, rfl⟩ : ∃ g, fuel = g + 1 := ⟨fuel - 1, by omega⟩
    have htext : printItems formatReal (item :: next :: items) ++ ']'.toUInt8 :: rest =
        print formatReal item ++
          ','.toUInt8 :: (printItems formatReal (next :: items) ++ ']'.toUInt8 :: rest) := by
      simp [printItems, printMoreItems]
    have hlength : (printItems formatReal (item :: next :: items)).length =
        (print formatReal item).length + 1 + (printItems formatReal (next :: items)).length := by
      simp [printItems, printMoreItems]
      omega
    have hitem := hback item (List.mem_cons_self ..) g
      (','.toUInt8 :: (printItems formatReal (next :: items) ++ ']'.toUInt8 :: rest)) (by omega)
      (delimited_cons (by decide) _)
    rw [htext, readItems, run_bind_of_ok hitem,
      run_bind_of_ok (readNonWsChar_run_cons (by decide) _), if_neg (by decide), if_neg (by decide),
      readItems_printItems rest next items (fun i hi => hback i (List.mem_cons_of_mem item hi)) g
        (by omega) (acc ++ [item])]
    simp

/-- An array of plain items, each read back from its text, is read back from its text. -/
theorem readsBack_array {items : List JsonValue} (hplain : ∀ item ∈ items, Plain item)
    (hback : ∀ item ∈ items, ReadsBack parseReal formatReal item) :
    ReadsBack parseReal formatReal (.array items) := by
  intro fuel rest hfuel _
  have hlength : (print formatReal (.array items)).length = (printItems formatReal items).length + 2 := by
    simp [print]
  obtain ⟨f, rfl⟩ : ∃ f, fuel = f + 2 := ⟨fuel - 2, by omega⟩
  have htext : print formatReal (.array items) ++ rest =
      '['.toUInt8 :: (printItems formatReal items ++ ']'.toUInt8 :: rest) := by
    simp [print]
  rw [htext, readValue_run_bracket, readArray]
  cases items with
  | nil =>
    rw [printItems, List.nil_append, run_bind_of_ok (readNonWsChar_run_cons (by decide) rest)]
    rfl
  | cons item items =>
    -- the first character of the first item is read, found not to close the
    -- array, and put back
    obtain ⟨c, t, hprint, hspace, hclose⟩ :=
      print_eq_cons_of_plain formatReal (hplain item (List.mem_cons_self ..))
    have hfirst : printItems formatReal (item :: items) ++ ']'.toUInt8 :: rest =
        c :: (t ++ printMoreItems formatReal items ++ ']'.toUInt8 :: rest) := by
      simp [printItems, hprint]
    have hitems := readItems_printItems parseReal formatReal rest item items hback f (by omega) []
    rw [hfirst, run_bind_of_ok (readNonWsChar_run_cons hspace _), if_neg hclose,
      run_bind_of_ok (rfl : (putback c).run _ = .ok ((), _)), ← hfirst, run_bind_of_ok hitems]
    rfl

/-- The loop of {lit}`readObject` over the printed members and the closing
brace, from the first quote on; by induction on the members after the first.
Each member goes last, since its key is greater than those read before it. -/
theorem readMembers_printMembers (rest : Bytes) :
    ∀ (key : Bytes) (value : JsonValue) (members : List (Bytes × JsonValue)),
      (∀ member ∈ (key, value) :: members, PlainText member.1) →
      (∀ member ∈ (key, value) :: members, ReadsBack parseReal formatReal member.2) →
      ∀ (acc : List (Bytes × JsonValue)),
      (acc.map Prod.fst ++ ((key, value) :: members).map Prod.fst).Pairwise (· < ·) →
      ∀ (fuel : Nat), 3 * (printMembers formatReal ((key, value) :: members)).length ≤ fuel →
      (readMembers parseReal fuel acc '"'.toUInt8).run
          (key ++ '"'.toUInt8 :: ':'.toUInt8 ::
            (print formatReal value ++ printMoreMembers formatReal members ++ '}'.toUInt8 :: rest)) =
        .ok (acc ++ (key, value) :: members, rest)
  | key, value, members, hkeys, hback, acc, hsorted, fuel, hfuel => by
    obtain ⟨g, rfl⟩ : ∃ g, fuel = g + 1 := ⟨fuel - 1, by simp [printMembers] at hfuel; omega⟩
    have hkey := hkeys (key, value) (List.mem_cons_self ..)
    have hlength : (printMembers formatReal ((key, value) :: members)).length =
        key.length + 3 + (print formatReal value).length +
          (printMoreMembers formatReal members).length := by
      simp [printMembers]
      omega
    have hdelimited : Delimited (printMoreMembers formatReal members ++ '}'.toUInt8 :: rest) := by
      cases members with
      | nil => exact delimited_cons (by decide) rest
      | cons => exact delimited_cons (by decide) _
    have hvalueBack : ReadsBack parseReal formatReal value := hback (key, value) (List.mem_cons_self ..)
    have hvalue := hvalueBack g (printMoreMembers formatReal members ++ '}'.toUInt8 :: rest) (by omega) hdelimited
    -- the member goes last: its key is greater than every key read before it
    have hlast : setMember key value acc = acc ++ [(key, value)] :=
      setMember_of_lt key value acc fun k hk =>
        List.pairwise_append.mp hsorted |>.2.2 k hk key (List.mem_cons_self ..)
    rw [readMembers, if_neg (fun h => h rfl)]
    dsimp only
    rw [run_bind_of_ok (readStringToken_plain hkey _),
      run_bind_of_ok (readNonWsChar_run_cons (by decide) _), if_neg (fun h => h rfl)]
    dsimp only
    rw [List.append_assoc, run_bind_of_ok hvalue, hlast]
    cases members with
    | nil =>
      rw [printMoreMembers, List.nil_append, run_bind_of_ok (readNonWsChar_run_cons (by decide) rest)]
      rfl
    | cons next members =>
      obtain ⟨nextKey, nextValue⟩ := next
      have hnext : printMoreMembers formatReal ((nextKey, nextValue) :: members) ++ '}'.toUInt8 :: rest =
          ','.toUInt8 :: '"'.toUInt8 :: (nextKey ++ '"'.toUInt8 :: ':'.toUInt8 ::
            (print formatReal nextValue ++ printMoreMembers formatReal members ++ '}'.toUInt8 :: rest)) := by
        simp [printMoreMembers]
      have hrest := readMembers_printMembers rest nextKey nextValue members
        (fun m hm => hkeys m (List.mem_cons_of_mem _ hm))
        (fun m hm => hback m (List.mem_cons_of_mem _ hm)) (acc ++ [(key, value)])
        (by simpa using hsorted) g ?_
      · rw [hnext, run_bind_of_ok (readNonWsChar_run_cons (by decide) _), if_neg (by decide),
          if_neg (by decide), run_bind_of_ok (readNonWsChar_run_cons (by decide) _), hrest]
        simp
      · have : (printMoreMembers formatReal ((nextKey, nextValue) :: members)).length =
            (printMembers formatReal ((nextKey, nextValue) :: members)).length + 1 := by
          simp [printMoreMembers, printMembers]
        omega

/-- An object whose keys are plain text in increasing order, and whose values are
read back from their texts, is read back from its text. -/
theorem readsBack_object {members : List (Bytes × JsonValue)}
    (hsorted : (members.map Prod.fst).Pairwise (· < ·))
    (hkeys : ∀ member ∈ members, PlainText member.1)
    (hback : ∀ member ∈ members, ReadsBack parseReal formatReal member.2) :
    ReadsBack parseReal formatReal (.object members) := by
  intro fuel rest hfuel _
  have hlength : (print formatReal (.object members)).length =
      (printMembers formatReal members).length + 2 := by
    simp [print]
  obtain ⟨f, rfl⟩ : ∃ f, fuel = f + 2 := ⟨fuel - 2, by omega⟩
  have htext : print formatReal (.object members) ++ rest =
      '{'.toUInt8 :: (printMembers formatReal members ++ '}'.toUInt8 :: rest) := by
    simp [print]
  rw [htext, readValue_run_brace, readObject]
  cases members with
  | nil =>
    rw [printMembers, List.nil_append, run_bind_of_ok (readNonWsChar_run_cons (by decide) rest)]
    rfl
  | cons member members =>
    obtain ⟨key, value⟩ := member
    have hfirst : printMembers formatReal ((key, value) :: members) ++ '}'.toUInt8 :: rest =
        '"'.toUInt8 :: (key ++ '"'.toUInt8 :: ':'.toUInt8 ::
          (print formatReal value ++ printMoreMembers formatReal members ++ '}'.toUInt8 :: rest)) := by
      simp [printMembers]
    have hmembers := readMembers_printMembers parseReal formatReal rest key value members hkeys
      hback [] (by simpa using hsorted) f (by omega)
    rw [hfirst, run_bind_of_ok (readNonWsChar_run_cons (by decide) _), if_neg (by decide),
      run_bind_of_ok hmembers]
    rfl

/-- Every plain value reads back; by induction on the derivation of
{lit}`Plain`, one case per kind of value. -/
theorem readsBack_of_plain {value : JsonValue} (hvalue : Plain value) :
    ReadsBack parseReal formatReal value := by
  induction hvalue with
  | array hplain hback => exact readsBack_array parseReal formatReal hplain hback
  | bool value => exact readsBack_bool parseReal formatReal value
  | integer value => exact readsBack_integer parseReal formatReal value
  | nil => exact readsBack_nil parseReal formatReal
  | object hsorted hkeys _ hback => exact readsBack_object parseReal formatReal hsorted hkeys hback
  | string hplain => exact readsBack_string parseReal formatReal hplain

/-- A plain value, printed and parsed back, is itself. -/
theorem fromString_toString_of_plain {value : JsonValue} (hvalue : Plain value) :
    fromString parseReal (toString formatReal value) = .ok value := by
  have hread := readsBack_of_plain parseReal formatReal hvalue
    (3 * (toString formatReal value).length + 3) [] (by simp [toString]) delimited_nil
  rw [List.append_nil] at hread
  simp only [fromString, toString] at hread ⊢
  rw [hread]

/-- An object of an array of an integer at the bottom of the range, a string,
a null and a boolean. -/
theorem fromString_toString_of_plain_object :
    Plain (.object [([97], .array [.integer (-9223372036854775808), .string [98],
      .nil, .bool true])]) ∧
    fromString (fun _ => 0) (toString (fun _ => [])
      (.object [([97], .array [.integer (-9223372036854775808), .string [98], .nil,
        .bool true])])) =
      .ok (.object [([97], .array [.integer (-9223372036854775808), .string [98], .nil,
        .bool true])]) := by
  have hplain : Plain (.object [([97], .array [.integer (-9223372036854775808), .string [98],
      .nil, .bool true])]) := by
    refine .object (by decide) (by simp [PlainText]; decide) ?_
    simp only [List.mem_singleton, forall_eq]
    refine .array ?_
    simp only [List.mem_cons, List.not_mem_nil, or_false]
    rintro item (rfl | rfl | rfl | rfl)
    · exact .integer _
    · exact .string (by simp [PlainText]; decide)
    · exact .nil
    · exact .bool _
  exact ⟨hplain, fromString_toString_of_plain (fun _ => 0) (fun _ => []) hplain⟩

/-! ## What fromString accepts besides one value -/

/-- A minus that no digit or point follows is a number: the text {lit}`"-"`,
which {lit}`std::istringstream >> int64_t` fails on and leaves zero. -/
theorem readNumber_minus {rest : Bytes} (hrest : Delimited rest) :
    (readNumber parseReal '-'.toUInt8).run rest = .ok (.integer 0, rest) := by
  have hloop := readDigitsAndDots_digits hrest 0 [] ['-'.toUInt8] (by simp)
  rw [List.nil_append, List.append_nil] at hloop
  simp only [readNumber, StateT.run]
  rw [hloop]
  simp [parseInteger]

/-- A lone minus sign before a delimiter parses as the integer zero. -/
theorem fromString_minus {rest : Bytes} (hrest : Delimited rest) :
    fromString parseReal ('-'.toUInt8 :: rest) = .ok (.integer 0) := by
  have hread := readValue_run_number parseReal (3 * rest.length + 5) (Or.inl rfl) rest
  rw [readNumber_minus parseReal hrest] at hread
  have hfuel : 3 * ('-'.toUInt8 :: rest).length + 3 = 3 * rest.length + 5 + 1 := by
    simp only [List.length_cons]
    omega
  simp only [fromString, hfuel, hread]

/-- {lit}`fromString` checks only that the stream has not failed, never that it
is at its end: the text after a value is not read. -/
theorem fromString_toString_append {value : JsonValue} (hvalue : Plain value) {rest : Bytes}
    (hrest : Delimited rest) :
    fromString parseReal (toString formatReal value ++ rest) = .ok value := by
  have hread := readsBack_of_plain parseReal formatReal hvalue
    (3 * (toString formatReal value ++ rest).length + 3) rest
    (by simp only [toString, List.length_append]; omega) hrest
  simp only [fromString, toString] at hread ⊢
  rw [hread]

/-- {lit}`fromString` accepts texts outside the JSON grammar: the text of a
value followed by any text that cannot continue a number, and a lone minus,
which it reads as the integer zero. -/
theorem fromString_accepts_outside_grammar :
    (∀ value : JsonValue, Plain value → ∀ rest : Bytes, Delimited rest →
      fromString parseReal (toString formatReal value ++ rest) = .ok value) ∧
    ∀ rest : Bytes, Delimited rest → fromString parseReal ('-'.toUInt8 :: rest) = .ok (.integer 0) :=
  ⟨fun _ hvalue _ hrest => fromString_toString_append parseReal formatReal hvalue hrest,
    fun _ hrest => fromString_minus parseReal hrest⟩

/-- {lit}`"{}x"` is read as the empty object and {lit}`"-"` as zero. -/
theorem fromString_accepts_outside_grammar_braces :
    fromString (fun _ => 0) (toString (fun _ => []) (.object []) ++ ['x'.toUInt8]) =
        .ok (.object []) ∧
      fromString (fun _ => 0) ['-'.toUInt8] = .ok (.integer 0) := by
  have hplain : Plain (.object []) := .object (by simp) (by simp) (by simp)
  -- the kernel evaluates the character tests, as in the witness above
  have hx : isDigit 'x'.toUInt8 = false ∧ 'x'.toUInt8 ≠ '.'.toUInt8 := by decide +kernel
  exact ⟨(fromString_accepts_outside_grammar (fun _ => 0) (fun _ => [])).1 _ hplain _
      (delimited_cons hx []),
    (fromString_accepts_outside_grammar (fun _ => 0) (fun _ => [])).2 [] delimited_nil⟩

end Parsing

end JsonValue

end CryptoNote

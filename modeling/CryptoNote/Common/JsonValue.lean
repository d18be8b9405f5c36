import CryptoNote.Lib.ByteStream

/-!
# JSON values

{lit}`Common::JsonValue` in {lit}`common/JsonValue.cpp`: a value tree,
{lit}`operator<<` that prints it and {lit}`operator>>` that parses it, used by
{lit}`toString` and {lit}`fromString` and by the portable storage format.

A string is its bytes, as {lit}`std::string` holds them; an object is a
{lit}`std::map`, its members in increasing order of key, the keys compared
byte by byte; a real is the bit pattern of its {lit}`double`.  The printing of
a real ({lit}`std::fixed` with eleven digits) and the parsing of one
({lit}`std::istringstream >> double`) are the standard library's and enter as
the parameters {lit}`formatReal` and {lit}`parseReal`; the trimming of trailing
zeros after the printing is the source's and is modelled.

The parser reads characters as the source does: {lit}`readChar` is
{lit}`in >> c`, which skips whitespace first, and {lit}`readNumber` reads with
{lit}`peek` and {lit}`read`, which do not.  The recursion of {lit}`operator>>`
through arrays and objects is bounded by a fuel argument; every call reads a
character before it recurses, so {lit}`fromString` gives fuel in proportion to
the length of its input.
-/

namespace CryptoNote

open ByteCodec

/-- {lit}`Common::JsonValue`. -/
inductive JsonValue where
  | array (items : List JsonValue)
  | bool (value : Bool)
  | integer (value : Int64)
  | nil
  | object (members : List (Bytes × JsonValue))
  | real (value : UInt64)
  | string (value : Bytes)
deriving Repr

instance : Inhabited JsonValue := ⟨.nil⟩

namespace JsonValue

/-! ## Objects -/

/-- {lit}`insert`, that is {lit}`std::map::emplace`: the member goes in key
order, unless its key is there already, whose value then stays. -/
def insertMember (key : Bytes) (value : JsonValue) :
    List (Bytes × JsonValue) → List (Bytes × JsonValue)
  | [] => [(key, value)]
  | (k, v) :: members =>
    if key < k then (key, value) :: (k, v) :: members
    else if key = k then (k, v) :: members
    else (k, v) :: insertMember key value members

/-- {lit}`value[key] = ...` of {lit}`std::map`: the member goes in key order and
replaces one of the same key. -/
def setMember (key : Bytes) (value : JsonValue) :
    List (Bytes × JsonValue) → List (Bytes × JsonValue)
  | [] => [(key, value)]
  | (k, v) :: members =>
    if key < k then (key, value) :: (k, v) :: members
    else if key = k then (key, value) :: members
    else (k, v) :: setMember key value members

/-! ## Printing -/

/-- The decimal digits of a number. -/
def decimal (n : Nat) : Bytes :=
  (Nat.toDigits 10 n).map Char.toUInt8

/-- {lit}`out << int64_t`. -/
def integerText (value : Int64) : Bytes :=
  if value.toInt < 0 then '-'.toUInt8 :: decimal value.toInt.natAbs
  else decimal value.toInt.natAbs

/-- The trimming loop of the real case, on the reversed text: a last
{lit}`'0'` goes while the one before it is not {lit}`'.'`. -/
def trimZerosReversed : Bytes → Bytes
  | last :: rest@(before :: _) =>
    if before ≠ '.'.toUInt8 ∧ last = '0'.toUInt8 then trimZerosReversed rest
    else last :: rest
  | text => text

/-- The text of a real: the standard library's eleven fixed digits, trailing
zeros trimmed down to one after the point. -/
def realText (formatReal : UInt64 → Bytes) (value : UInt64) : Bytes :=
  (trimZerosReversed (formatReal value).reverse).reverse

section Printing

variable (formatReal : UInt64 → Bytes)

mutual

/-- {lit}`operator<<(std::ostream&, const JsonValue&)`.  Strings are written
between quotes as they are, without escapes. -/
def print : JsonValue → Bytes
  | .array items => '['.toUInt8 :: printItems items ++ [']'.toUInt8]
  | .bool value => (if value then ['t', 'r', 'u', 'e'] else ['f', 'a', 'l', 's', 'e']).map Char.toUInt8
  | .integer value => integerText value
  | .nil => ['n', 'u', 'l', 'l'].map Char.toUInt8
  | .object members => '{'.toUInt8 :: printMembers members ++ ['}'.toUInt8]
  | .real value => realText formatReal value
  | .string value => '"'.toUInt8 :: value ++ ['"'.toUInt8]

/-- The items of an array: the first, then each further one after a comma. -/
def printItems : List JsonValue → Bytes
  | [] => []
  | item :: items => print item ++ printMoreItems items

/-- The items of an array after the first, each after a comma. -/
def printMoreItems : List JsonValue → Bytes
  | [] => []
  | item :: items => ','.toUInt8 :: print item ++ printMoreItems items

/-- The members of an object, {lit}`"key":value`, separated by commas. -/
def printMembers : List (Bytes × JsonValue) → Bytes
  | [] => []
  | (key, value) :: members =>
    '"'.toUInt8 :: key ++ ['"'.toUInt8, ':'.toUInt8] ++ print value ++ printMoreMembers members

/-- The members of an object after the first, each after a comma. -/
def printMoreMembers : List (Bytes × JsonValue) → Bytes
  | [] => []
  | (key, value) :: members =>
    ','.toUInt8 :: '"'.toUInt8 :: key ++ ['"'.toUInt8, ':'.toUInt8] ++ print value ++
      printMoreMembers members

end

/-- {lit}`JsonValue::toString`. -/
def toString (value : JsonValue) : Bytes :=
  print formatReal value

end Printing

/-! ## Parsing -/

/-- {lit}`isspace` in the C locale. -/
def isSpace (c : UInt8) : Bool :=
  c = ' '.toUInt8 || (9 ≤ c && c ≤ 13)

/-- {lit}`isdigit` in the C locale. -/
def isDigit (c : UInt8) : Bool :=
  '0'.toUInt8 ≤ c && c ≤ '9'.toUInt8

/-- {lit}`readChar`: {lit}`in >> c`, which skips whitespace before it takes a
character. -/
def readChar : ByteStream UInt8 := fun s =>
  match s.dropWhile isSpace with
  | c :: rest => .ok (c, rest)
  | [] => .error "Unable to parse: unexpected end of stream"

/-- {lit}`readNonWsChar`.  Its loop calls {lit}`readChar` while the character
is whitespace, which {lit}`readChar` never returns: one call is the loop. -/
def readNonWsChar : ByteStream UInt8 := readChar

mutual

/-- {lit}`readStringToken` from the input on, with the text read so far: each
character comes from {lit}`readChar`, so whitespace is skipped; a backslash is
kept with the character after it. -/
def readStringToken (value : Bytes) : Bytes → Except String (Bytes × Bytes)
  | [] => .error "Unable to parse: unexpected end of stream"
  | c :: rest =>
    if isSpace c then readStringToken value rest
    else if c = '"'.toUInt8 then .ok (value, rest)
    else if c = '\\'.toUInt8 then readEscaped value rest
    else readStringToken (value ++ [c]) rest

/-- The character after a backslash, also read with {lit}`readChar`. -/
def readEscaped (value : Bytes) : Bytes → Except String (Bytes × Bytes)
  | [] => .error "Unable to parse: unexpected end of stream"
  | c :: rest =>
    if isSpace c then readEscaped value rest
    else readStringToken (value ++ ['\\'.toUInt8, c]) rest

end

/-- {lit}`readTrue`, {lit}`readFalse` and {lit}`readNull`: the rest of the
word, read raw with {lit}`in.read`.  A short read leaves the stream failed,
which {lit}`fromString` turns into an error. -/
def readWord (word : List Char) (value : JsonValue) : ByteStream JsonValue := do
  let data ← readBytes word.length
  if data = word.map Char.toUInt8 then pure value else throw "Unable to parse"

/-- {lit}`readTrue`: the rest of {lit}`true`. -/
def readTrue : ByteStream JsonValue := readWord ['r', 'u', 'e'] (.bool true)

/-- {lit}`readFalse`: the rest of {lit}`false`. -/
def readFalse : ByteStream JsonValue := readWord ['a', 'l', 's', 'e'] (.bool false)

/-- {lit}`readNull`: the rest of {lit}`null`. -/
def readNull : ByteStream JsonValue := readWord ['u', 'l', 'l'] .nil

/-- {lit}`readString`. -/
def readString : ByteStream JsonValue := fun s =>
  match readStringToken [] s with
  | .ok (value, rest) => .ok (.string value, rest)
  | .error e => .error e

/-- The loop of {lit}`readNumber` on {lit}`in.peek()`: digits and points are
taken, anything else ends the number and stays in the input. -/
def readDigitsAndDots (text : Bytes) (dots : Nat) : Bytes → Bytes × Nat × Bytes
  | c :: rest =>
    if isDigit c then readDigitsAndDots (text ++ [c]) dots rest
    else if c = '.'.toUInt8 then readDigitsAndDots (text ++ [c]) (dots + 1) rest
    else (text, dots, c :: rest)
  | [] => (text, dots, [])

/-- The digits of an exponent: the {lit}`do ... while` loop on digits. -/
def readExponentDigits (text : Bytes) : Bytes → Bytes × Bytes
  | c :: rest => if isDigit c then readExponentDigits (text ++ [c]) rest else (text, c :: rest)
  | [] => (text, [])

/-- The exponent of a real, after its point: an {lit}`'e'`, a sign, and at least
one digit. -/
def readExponent (text : Bytes) : Bytes → Except String (Bytes × Bytes)
  | c :: rest =>
    if c = 'e'.toUInt8 then
      let (text, rest) := match rest with
        | s :: rest' => if s = '+'.toUInt8 ∨ s = '-'.toUInt8 then (text ++ [c, s], rest')
            else (text ++ [c], rest)
        | [] => (text ++ [c], rest)
      match rest with
      | d :: rest' =>
        if isDigit d then .ok (readExponentDigits (text ++ [d]) rest') else .error "Unable to parse"
      | [] => .error "Unable to parse"
    else .ok (text, c :: rest)
  | [] => .ok (text, [])

/-- The value of a text of digits. -/
def digitsValue (digits : Bytes) : Nat :=
  digits.foldl (fun value d => 10 * value + (d.toNat - '0'.toNat)) 0

/-- {lit}`std::istringstream(text) >> int64_t` on a text of an optional minus
and digits: no digit gives 0, a value out of range the nearest bound. -/
def parseInteger (text : Bytes) : Int64 :=
  match text with
  | c :: digits =>
    if c = '-'.toUInt8 then
      if digits = [] then 0 else Int64.ofInt (max (-(digitsValue digits : Int)) Int64.minValue.toInt)
    else Int64.ofInt (min (digitsValue text : Int) Int64.maxValue.toInt)
  | [] => 0

/-- {lit}`readNumber`, after its first character {lit}`c`: a text with a point
is a real; one without is an integer, refused when it starts with a zero that
is not alone. -/
def readNumber (parseReal : Bytes → UInt64) (c : UInt8) : ByteStream JsonValue := fun s =>
  let (text, dots, rest) := readDigitsAndDots [c] 0 s
  if dots > 0 then
    if dots > 1 then .error "Unable to parse"
    else
      match readExponent text rest with
      | .ok (text, rest) => .ok (.real (parseReal text), rest)
      | .error e => .error e
  else
    match text with
    | first :: second :: _ =>
      if first = '0'.toUInt8 ∨ (first = '-'.toUInt8 ∧ second = '0'.toUInt8) then
        .error "Unable to parse"
      else .ok (.integer (parseInteger text), rest)
    | _ => .ok (.integer (parseInteger text), rest)

/-- {lit}`in.putback(c)`. -/
def putback (c : UInt8) : ByteStream Unit := fun s => .ok ((), c :: s)

section Parsing

variable (parseReal : Bytes → UInt64)

mutual

/-- {lit}`operator>>(std::istream&, JsonValue&)`: the first character that is
not whitespace says what follows. -/
def readValue : Nat → ByteStream JsonValue
  | 0 => throw "Unable to parse"
  | fuel + 1 => do
    let c ← readNonWsChar
    if c = '['.toUInt8 then readArray fuel
    else if c = 't'.toUInt8 then readTrue
    else if c = 'f'.toUInt8 then readFalse
    else if c = '-'.toUInt8 ∨ isDigit c then readNumber parseReal c
    else if c = 'n'.toUInt8 then readNull
    else if c = '{'.toUInt8 then readObject fuel
    else if c = '"'.toUInt8 then readString
    else throw "Unable to parse"

/-- {lit}`readArray`, after the opening bracket. -/
def readArray : Nat → ByteStream JsonValue
  | 0 => throw "Unable to parse"
  | fuel + 1 => do
    let c ← readNonWsChar
    if c = ']'.toUInt8 then pure (.array [])
    else do
      putback c
      let items ← readItems fuel []
      pure (.array items)

/-- The loop of {lit}`readArray`: an item, then a closing bracket or a comma. -/
def readItems : Nat → List JsonValue → ByteStream (List JsonValue)
  | 0, _ => throw "Unable to parse"
  | fuel + 1, items => do
    let item ← readValue fuel
    let c ← readNonWsChar
    if c = ']'.toUInt8 then pure (items ++ [item])
    else if c ≠ ','.toUInt8 then throw "Unable to parse"
    else readItems fuel (items ++ [item])

/-- {lit}`readObject`, after the opening brace. -/
def readObject : Nat → ByteStream JsonValue
  | 0 => throw "Unable to parse"
  | fuel + 1 => do
    let c ← readNonWsChar
    if c = '}'.toUInt8 then pure (.object [])
    else do
      let members ← readMembers fuel [] c
      pure (.object members)

/-- The loop of {lit}`readObject` from the character {lit}`c` read last: a
quoted name, a colon, a value stored with {lit}`value[name]`, then a closing
brace or a comma. -/
def readMembers : Nat → List (Bytes × JsonValue) → UInt8 → ByteStream (List (Bytes × JsonValue))
  | 0, _, _ => throw "Unable to parse"
  | fuel + 1, members, c => do
    if c ≠ '"'.toUInt8 then throw "Unable to parse"
    let name ← (fun s => readStringToken [] s : ByteStream Bytes)
    let colon ← readNonWsChar
    if colon ≠ ':'.toUInt8 then throw "Unable to parse"
    let value ← readValue fuel
    let members := setMember name value members
    let c ← readNonWsChar
    if c = '}'.toUInt8 then pure members
    else if c ≠ ','.toUInt8 then throw "Unable to parse"
    else do
      let c ← readNonWsChar
      readMembers fuel members c

end

/-- {lit}`JsonValue::fromString`.  Each level of the parse reads a character
before it goes down one, so three levels of fuel per character are enough. -/
def fromString (source : Bytes) : Except String JsonValue :=
  match (readValue parseReal (3 * source.length + 3)).run source with
  | .ok (value, _) => .ok value
  | .error e => .error e

end Parsing

end JsonValue

end CryptoNote

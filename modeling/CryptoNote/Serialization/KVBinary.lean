import CryptoNote.Common.JsonValue
import CryptoNote.Lib.ByteFile
import CryptoNote.Stream.Primitives

/-!
# The portable storage binary format

{lit}`KVBinaryOutputStreamSerializer` and {lit}`KVBinaryInputStreamSerializer`
in {lit}`serialization/`: the binary key-value format of the peer-to-peer and
RPC messages.

A stored section is a count and that many named entries; an entry is a type
byte and a value, or an array flag, a type, a count and that many values.
Counts and string sizes are varints whose two low bits say how many bytes they
take.

The writer is a state machine over a stack of levels, one per open object or
array, and a stack of output streams, one per open object.  An array's
preamble (its name, type and size) is written late, when its first element
arrives, since only then is its type known.  The reader is a recursive descent
over type bytes into a {lit}`JsonValue`; its recursion is bounded by a fuel
argument that {lit}`parseBinary` makes proportional to the length of the input,
as every call reads a byte before the next but one.

Machine integers are the source's: a {lit}`size_t` is a {lit}`UInt64`, and the
shifts of {lit}`readVarint` are those of the {lit}`int` that a {lit}`uint8_t`
promotes to.  A shift by 32 or more is undefined in C++; it is modelled as the
x86 instruction does it, with the count taken modulo 32.  An output stream is
the bytes written to it; a thrown exception or a failed assertion is an error.
-/

namespace CryptoNote

open ByteCodec

namespace KVBinary

/-! ## Constants of {lit}`KVBinaryCommon.h` -/

def portableStorageSignatureA : UInt32 := 0x01011101
def portableStorageSignatureB : UInt32 := 0x01020101
def portableStorageFormatVer : UInt8 := 1

def portableRawSizeMarkMask : UInt8 := 0x03
def portableRawSizeMarkByte : UInt8 := 0
def portableRawSizeMarkWord : UInt8 := 1
def portableRawSizeMarkDword : UInt8 := 2
def portableRawSizeMarkInt64 : UInt8 := 3

def binKvSerializeTypeInt64 : UInt8 := 1
def binKvSerializeTypeInt32 : UInt8 := 2
def binKvSerializeTypeInt16 : UInt8 := 3
def binKvSerializeTypeInt8 : UInt8 := 4
def binKvSerializeTypeUint64 : UInt8 := 5
def binKvSerializeTypeUint32 : UInt8 := 6
def binKvSerializeTypeUint16 : UInt8 := 7
def binKvSerializeTypeUint8 : UInt8 := 8
def binKvSerializeTypeDouble : UInt8 := 9
def binKvSerializeTypeString : UInt8 := 10
def binKvSerializeTypeBool : UInt8 := 11
def binKvSerializeTypeObject : UInt8 := 12
def binKvSerializeTypeArray : UInt8 := 13
def binKvSerializeFlagArray : UInt8 := 0x80

/-- {lit}`KVBinaryStorageBlockHeader`, packed into nine bytes. -/
structure KVBinaryStorageBlockHeader where
  signatureA : UInt32
  signatureB : UInt32
  ver : UInt8
deriving DecidableEq, Repr

namespace KVBinaryStorageBlockHeader

/-- The memory of a header, as {lit}`write(&hdr, sizeof(hdr))` writes it. -/
def bytes (hdr : KVBinaryStorageBlockHeader) : Bytes :=
  LittleEndian.bytes 4 hdr.signatureA.toNat ++ LittleEndian.bytes 4 hdr.signatureB.toNat ++
    [hdr.ver]

/-- The header that nine bytes of memory hold. -/
def ofBytes (data : Bytes) : KVBinaryStorageBlockHeader where
  signatureA := UInt32.ofNat (LittleEndian.value (data.take 4))
  signatureB := UInt32.ofNat (LittleEndian.value ((data.drop 4).take 4))
  ver := data.getD 8 0

/-- The header {lit}`dump` writes. -/
def current : KVBinaryStorageBlockHeader :=
  ⟨portableStorageSignatureA, portableStorageSignatureB, portableStorageFormatVer⟩

end KVBinaryStorageBlockHeader

/-! ## Writing -/

/-- {lit}`packVarint<T>`: the size shifted past the two mark bits, cast to the
{lit}`width` bytes of {lit}`T`, the mark put in, and the memory of the
result. -/
def packVarint (width : Nat) (typeOr : UInt8) (pv : UInt64) : Bytes :=
  LittleEndian.bytes width ((pv <<< 2).toNat % 2 ^ (8 * width) ||| typeOr.toNat)

/-- {lit}`writeArraySize`: the shortest of the four marks that holds the size. -/
def writeArraySize (val : UInt64) : Except String Bytes :=
  if val ≤ 63 then .ok (packVarint 1 portableRawSizeMarkByte val)
  else if val ≤ 16383 then .ok (packVarint 2 portableRawSizeMarkWord val)
  else if val ≤ 1073741823 then .ok (packVarint 4 portableRawSizeMarkDword val)
  else if val > 4611686018427387903 then .error "failed to pack varint - too big amount"
  else .ok (packVarint 8 portableRawSizeMarkInt64 val)

/-- {lit}`writeElementName`: a length byte and the name. -/
def writeElementName (name : Bytes) : Except String Bytes :=
  if name.length > 255 then .error "Element name is too long"
  else .ok (name.length.toUInt8 :: name)

/-- {lit}`KVBinaryOutputStreamSerializer::State`. -/
inductive State where
  | root
  | object
  | arrayPrefix
  | array
deriving DecidableEq, Repr

/-- {lit}`KVBinaryOutputStreamSerializer::Level`: an open object, or an array
whose preamble is still to be written ({lit}`arrayPrefix`, the count being the
array's size) or written ({lit}`array`). -/
structure Level where
  state : State
  name : Bytes
  count : UInt64
deriving DecidableEq, Repr

/-- The writer: {lit}`m_stack` and {lit}`m_objectsStack`, each with its back
first.  A stream is the bytes written to it. -/
structure KVBinaryOutputStreamSerializer where
  stack : List Level
  objectsStack : List Bytes
deriving DecidableEq, Repr

namespace KVBinaryOutputStreamSerializer

/-- A write to {lit}`stream()`, the last stream. -/
def write (s : KVBinaryOutputStreamSerializer) (data : Bytes) :
    Except String KVBinaryOutputStreamSerializer :=
  match s.objectsStack with
  | top :: streams => .ok { s with objectsStack := (top ++ data) :: streams }
  | [] => .error "assert(m_objectsStack.size())"

/-- {lit}`checkArrayPreamble`: an array's first element writes the array's name,
its type with the array flag, and its size, and the array's preamble is then
written. -/
def checkArrayPreamble (s : KVBinaryOutputStreamSerializer) (type : UInt8) :
    Except String KVBinaryOutputStreamSerializer :=
  match s.stack with
  | [] => .ok s
  | level :: levels =>
    if level.state = .arrayPrefix then do
      let name ← writeElementName level.name
      let size ← writeArraySize level.count
      let s ← s.write (name ++ [binKvSerializeFlagArray ||| type] ++ size)
      pure { s with stack := { level with state := .array } :: levels }
    else .ok s

/-- {lit}`writeElementPrefix`: outside an array, the name and type of an entry,
and one more entry in the level.  An empty name writes nothing but is still
counted. -/
def writeElementPrefix (s : KVBinaryOutputStreamSerializer) (type : UInt8) (name : Bytes) :
    Except String KVBinaryOutputStreamSerializer := do
  if s.stack = [] then throw "assert(m_stack.size())"
  let s ← s.checkArrayPreamble type
  match s.stack with
  | level :: levels =>
    if level.state ≠ .array then
      let s ← if name ≠ [] then do
          let prefixBytes ← writeElementName name
          s.write (prefixBytes ++ [type])
        else pure s
      pure { s with stack := { level with count := level.count + 1 } :: levels }
    else pure s
  | [] => pure s

/-- {lit}`beginObject`: a new level and a new stream. -/
def beginObject (s : KVBinaryOutputStreamSerializer) (name : Bytes) :
    Except String KVBinaryOutputStreamSerializer := do
  let s ← s.checkArrayPreamble binKvSerializeTypeObject
  pure ⟨⟨.object, name, 0⟩ :: s.stack, [] :: s.objectsStack⟩

/-- {lit}`endObject`: the object's level and stream are popped, and the object
goes to the stream before it as an entry: prefix, count, and its stream. -/
def endObject (s : KVBinaryOutputStreamSerializer) :
    Except String KVBinaryOutputStreamSerializer :=
  match s.stack, s.objectsStack with
  | level :: levels, objStream :: streams => do
    let s ← (⟨levels, streams⟩ : KVBinaryOutputStreamSerializer).writeElementPrefix
      binKvSerializeTypeObject level.name
    let size ← writeArraySize level.count
    s.write (size ++ objStream)
  | _, _ => .error "assert(m_objectsStack.size())"

/-- {lit}`beginArray`: a level whose preamble waits for the first element. -/
def beginArray (s : KVBinaryOutputStreamSerializer) (size : UInt64) (name : Bytes) :
    KVBinaryOutputStreamSerializer :=
  { s with stack := ⟨.arrayPrefix, name, size⟩ :: s.stack }

/-- {lit}`endArray`: the level is popped, and an array whose preamble was
written counts as one entry of the object it is in.  An array that got no
element leaves nothing behind. -/
def endArray (s : KVBinaryOutputStreamSerializer) :
    Except String KVBinaryOutputStreamSerializer :=
  match s.stack with
  | level :: parent :: levels =>
    if parent.state = .object ∧ level.state = .array then
      .ok { s with stack := { parent with count := parent.count + 1 } :: levels }
    else .ok { s with stack := parent :: levels }
  | _ => .error "m_stack.back() of an empty stack"

/-- The operators of the fixed-width values: the prefix, then the memory of the
value. -/
def writeValue (s : KVBinaryOutputStreamSerializer) (type : UInt8) (data : Bytes)
    (name : Bytes) : Except String KVBinaryOutputStreamSerializer := do
  let s ← s.writeElementPrefix type name
  s.write data

def uint8 (s : KVBinaryOutputStreamSerializer) (value : UInt8) (name : Bytes) :=
  s.writeValue binKvSerializeTypeUint8 (LittleEndian.bytes 1 value.toNat) name

def int16 (s : KVBinaryOutputStreamSerializer) (value : Int16) (name : Bytes) :=
  s.writeValue binKvSerializeTypeInt16 (LittleEndian.bytes 2 value.toUInt16.toNat) name

def uint16 (s : KVBinaryOutputStreamSerializer) (value : UInt16) (name : Bytes) :=
  s.writeValue binKvSerializeTypeUint16 (LittleEndian.bytes 2 value.toNat) name

def int32 (s : KVBinaryOutputStreamSerializer) (value : Int32) (name : Bytes) :=
  s.writeValue binKvSerializeTypeInt32 (LittleEndian.bytes 4 value.toUInt32.toNat) name

def uint32 (s : KVBinaryOutputStreamSerializer) (value : UInt32) (name : Bytes) :=
  s.writeValue binKvSerializeTypeUint32 (LittleEndian.bytes 4 value.toNat) name

def int64 (s : KVBinaryOutputStreamSerializer) (value : Int64) (name : Bytes) :=
  s.writeValue binKvSerializeTypeInt64 (LittleEndian.bytes 8 value.toUInt64.toNat) name

def uint64 (s : KVBinaryOutputStreamSerializer) (value : UInt64) (name : Bytes) :=
  s.writeValue binKvSerializeTypeUint64 (LittleEndian.bytes 8 value.toNat) name

def bool (s : KVBinaryOutputStreamSerializer) (value : Bool) (name : Bytes) :=
  s.writeValue binKvSerializeTypeBool (LittleEndian.bytes 1 (if value then 1 else 0)) name

/-- The {lit}`double` operator, on the bit pattern of the value. -/
def double (s : KVBinaryOutputStreamSerializer) (value : UInt64) (name : Bytes) :=
  s.writeValue binKvSerializeTypeDouble (LittleEndian.bytes 8 value.toNat) name

/-- The {lit}`std::string` operator: prefix, size, bytes. -/
def string (s : KVBinaryOutputStreamSerializer) (value : Bytes) (name : Bytes) :
    Except String KVBinaryOutputStreamSerializer := do
  let s ← s.writeElementPrefix binKvSerializeTypeString name
  let size ← writeArraySize (UInt64.ofNat value.length)
  s.write (size ++ value)

/-- {lit}`binary`: a string, except that an empty block writes nothing. -/
def binary (s : KVBinaryOutputStreamSerializer) (value : Bytes) (name : Bytes) :
    Except String KVBinaryOutputStreamSerializer :=
  if value.length > 0 then s.string value name else .ok s

/-- The constructor, {lit}`beginObject(std::string())` on empty stacks. -/
def new : Except String KVBinaryOutputStreamSerializer :=
  beginObject ⟨[], []⟩ []

/-- {lit}`dump`: the header, the count of the root's entries, and the root's
stream. -/
def dump (s : KVBinaryOutputStreamSerializer) : Except String Bytes :=
  match s.stack, s.objectsStack with
  | [root], [stream] => do
    let size ← writeArraySize root.count
    pure (KVBinaryStorageBlockHeader.current.bytes ++ size ++ stream)
  | _, _ => .error "assert(m_objectsStack.size() == 1)"

end KVBinaryOutputStreamSerializer

/-! ## Reading -/

/-- {lit}`n << (i * 8)` of {lit}`readVarint`, where the {lit}`uint8_t` {lit}`n`
is promoted to {lit}`int`, as the {lit}`size_t` it is then or-ed into: the
32-bit result, sign-extended. -/
def shiftPromoted (n : UInt8) (shift : Nat) : UInt64 :=
  (n.toUInt32 <<< shift.toUInt32).toInt32.toInt64.toUInt64

/-- The loop of {lit}`readVarint` over the bytes after the first. -/
def readVarintBytes : Nat → Nat → UInt64 → ByteStream UInt64
  | 0, _, value => pure value
  | bytesLeft + 1, i, value => do
    let n ← Reader.readByte
    readVarintBytes bytesLeft (i + 1) (value ||| shiftPromoted n (i * 8))

/-- The {lit}`switch` of {lit}`readVarint`: how many bytes follow the first,
by its mark. -/
def bytesLeft (sizeMask : UInt8) : Nat :=
  if sizeMask = portableRawSizeMarkByte then 0
  else if sizeMask = portableRawSizeMarkWord then 1
  else if sizeMask = portableRawSizeMarkDword then 3
  else if sizeMask = portableRawSizeMarkInt64 then 7
  else 0

/-- {lit}`readVarint`: the mark in the two low bits of the first byte says how
many bytes follow; the bytes are or-ed together and the mark shifted out. -/
def readVarint : ByteStream UInt64 := do
  let b ← Reader.readByte
  let value ← readVarintBytes (bytesLeft (b &&& portableRawSizeMarkMask)) 1 b.toUInt64
  pure (value >>> 2)

/-- {lit}`readString`: a size and that many bytes.  A size larger than the
input fails, in {lit}`resize` or in the read. -/
def readString : ByteStream Bytes := do
  let size ← readVarint
  if size ≠ 0 then readBytes size.toNat else pure []

/-- {lit}`readName`: a length byte and the name; a length of zero leaves the
name as it was. -/
def readName (name : Bytes) : ByteStream Bytes := do
  let len ← Reader.readByte
  if len ≠ 0 then readBytes len.toNat else pure name

/-- {lit}`readIntegerJson<T>`: the memory of a {lit}`T`, cast to
{lit}`int64_t`. -/
def readIntegerJson (width : Nat) (cast : Nat → Int64) : ByteStream JsonValue := do
  let data ← readBytes width
  pure (.integer (cast (LittleEndian.value data)))

def readInt64Json := readIntegerJson 8 fun v => (UInt64.ofNat v).toInt64
def readInt32Json := readIntegerJson 4 fun v => (UInt32.ofNat v).toInt32.toInt64
def readInt16Json := readIntegerJson 2 fun v => (UInt16.ofNat v).toInt16.toInt64
def readInt8Json := readIntegerJson 1 fun v => (UInt8.ofNat v).toInt8.toInt64
def readUint64Json := readIntegerJson 8 fun v => (UInt64.ofNat v).toInt64
def readUint32Json := readIntegerJson 4 fun v => (UInt32.ofNat v).toUInt64.toInt64
def readUint16Json := readIntegerJson 2 fun v => (UInt16.ofNat v).toUInt64.toInt64
def readUint8Json := readIntegerJson 1 fun v => (UInt8.ofNat v).toUInt64.toInt64

/-- The error of a parse whose fuel ran out; {lit}`parseBinary` gives fuel for
every call its input can pay for. -/
def outOfFuel : String := "Unable to parse: out of fuel"

mutual

/-- {lit}`loadSection`: a count and that many named entries, inserted with
{lit}`insert`, so that of two entries of one name the first stays. -/
def loadSection : Nat → ByteStream JsonValue
  | 0 => throw outOfFuel
  | fuel + 1 => do
    let count ← readVarint
    let sec ← loadMembers fuel count.toNat [] []
    pure (.object sec)

/-- The loop of {lit}`loadSection`, with the name variable it keeps across
iterations. -/
def loadMembers : Nat → Nat → Bytes → List (Bytes × JsonValue) →
    ByteStream (List (Bytes × JsonValue))
  | 0, _, _, _ => throw outOfFuel
  | _ + 1, 0, _, sec => pure sec
  | fuel + 1, count + 1, name, sec => do
    let name ← readName name
    let entry ← loadEntry fuel
    loadMembers fuel count name (JsonValue.insertMember name entry sec)

/-- {lit}`loadValue`: a value of the given type. -/
def loadValue : Nat → UInt8 → ByteStream JsonValue
  | 0, _ => throw outOfFuel
  | fuel + 1, type =>
    if type = binKvSerializeTypeInt64 then readInt64Json
    else if type = binKvSerializeTypeInt32 then readInt32Json
    else if type = binKvSerializeTypeInt16 then readInt16Json
    else if type = binKvSerializeTypeInt8 then readInt8Json
    else if type = binKvSerializeTypeUint64 then readUint64Json
    else if type = binKvSerializeTypeUint32 then readUint32Json
    else if type = binKvSerializeTypeUint16 then readUint16Json
    else if type = binKvSerializeTypeUint8 then readUint8Json
    else if type = binKvSerializeTypeDouble then do
      let data ← readBytes 8
      pure (.real (UInt64.ofNat (LittleEndian.value data)))
    else if type = binKvSerializeTypeBool then do
      let v ← Reader.readByte
      pure (.bool (v ≠ 0))
    else if type = binKvSerializeTypeString then do
      let value ← readString
      pure (.string value)
    else if type = binKvSerializeTypeObject then loadSection fuel
    else if type = binKvSerializeTypeArray then loadArray fuel type
    else throw "Unknown data type"

/-- {lit}`loadEntry`: a type byte, then an array of that type when the array
flag is set, or a value of it. -/
def loadEntry : Nat → ByteStream JsonValue
  | 0 => throw outOfFuel
  | fuel + 1 => do
    let type ← Reader.readByte
    if type &&& binKvSerializeFlagArray ≠ 0 then
      loadArray fuel (type &&& ~~~binKvSerializeFlagArray)
    else loadValue fuel type

/-- {lit}`loadArray`: a count and that many values of the item type. -/
def loadArray : Nat → UInt8 → ByteStream JsonValue
  | 0, _ => throw outOfFuel
  | fuel + 1, itemType => do
    let count ← readVarint
    let arr ← loadItems fuel itemType count.toNat []
    pure (.array arr)

/-- The loop of {lit}`loadArray`. -/
def loadItems : Nat → UInt8 → Nat → List JsonValue → ByteStream (List JsonValue)
  | 0, _, _, _ => throw outOfFuel
  | _ + 1, _, 0, arr => pure arr
  | fuel + 1, itemType, count + 1, arr => do
    let value ← loadValue fuel itemType
    loadItems fuel itemType count (arr ++ [value])

end

/-- {lit}`parseBinary`: the header, checked, and the root section. -/
def parseBinary : ByteStream JsonValue := fun stream =>
  (do
    let data ← readBytes 9
    let hdr := KVBinaryStorageBlockHeader.ofBytes data
    if hdr.signatureA ≠ portableStorageSignatureA ∨ hdr.signatureB ≠ portableStorageSignatureB then
      throw "Invalid binary storage signature"
    if hdr.ver ≠ portableStorageFormatVer then throw "Unknown binary storage format version"
    loadSection (3 * stream.length + 3) : ByteStream JsonValue).run stream

end KVBinary

end CryptoNote

import CryptoNote.Lib.Codec
import CryptoNote.Stream.Primitives

/-!
# The consensus binary serializer

{lit}`serialization/ISerializer.h` describes a format by one {lit}`serialize`
function per type, which a {lit}`BinaryOutputStreamSerializer` runs as a writer
and a {lit}`BinaryInputStreamSerializer` runs as a reader
({lit}`BinaryOutputStreamSerializer.cpp`, {lit}`BinaryInputStreamSerializer.cpp`).
{lit}`BinaryArray::to` and {lit}`BinaryArray::from` ({lit}`structures/array.hpp`)
run a whole object through them; the hash of an object is the hash of its
{lit}`BinaryArray::to` bytes.

The record {lit}`ISerializer` keeps the operations the consensus types use.
Both binary serializers ignore field names, their {lit}`beginObject` and
{lit}`beginArray` return true and {lit}`endObject` and {lit}`endArray` do
nothing, so names, the two {lit}`end` calls and the branches taken when a
{lit}`begin` call fails are left out.  Each operation takes the current value
of the field and returns its new one: a writer returns it unchanged, a reader
returns what it read.

Main results:

- Theorems {lit}`beginArray_implements`, {lit}`string_implements` and
  {lit}`binary_implements`: each operation of the two binary serializers
  implements its piece of the format (varints, a length-prefixed string, raw
  bytes); the integer operations are the stream's varints
  ({lit}`uint8_implements` and its siblings).
- Theorems {lit}`serializeContainer_implements` and
  {lit}`serializeAsBinary_implements`: the two container helpers lift a format
  to vectors.
- Theorems {lit}`BinaryArray.to_eq_some`, {lit}`BinaryArray.from_encode` and
  {lit}`BinaryArray.from_eq_some`: for a type whose {lit}`serialize`
  implements a format, {lit}`to` returns the encoding, {lit}`from` reads it back,
  and {lit}`from` accepts nothing but the encoding of what it returns.
-/

namespace CryptoNote

open ByteCodec

/-- {lit}`ISerializer::SerializerType`. -/
inductive SerializerType where
  | INPUT
  | OUTPUT
deriving DecidableEq, Repr

/-- {lit}`ISerializer`, with the operations the consensus types use: the
{lit}`size_t` count of {lit}`beginArray`, the unsigned integer
{lit}`operator()` overloads, the {lit}`std::string` overload (to which
{lit}`binary(std::string&)` forwards) and {lit}`binary(void*, size)` on the
memory of a fixed-size value. -/
structure ISerializer where
  type : SerializerType
  beginArray : UInt64 → ByteStream UInt64
  uint8 : UInt8 → ByteStream UInt8
  uint32 : UInt32 → ByteStream UInt32
  uint64 : UInt64 → ByteStream UInt64
  string : Bytes → ByteStream Bytes
  binary : (size : Nat) → Pod size → ByteStream (Pod size)

/-! ## The two binary serializers -/

/-- {lit}`BinaryOutputStreamSerializer` over a {lit}`Writer`. -/
def binaryOutputStreamSerializer : ISerializer where
  type := .OUTPUT
  beginArray := writeInteger id
  uint8 := writeInteger UInt8.toUInt64
  uint32 := writeInteger UInt32.toUInt64
  uint64 := writeInteger id
  string value := do
    Writer.writeVarint (UInt64.ofNat value.length)
    writeBytes value
    pure value
  binary _ value := do
    Writer.writePod value
    pure value

/-- {lit}`BinaryInputStreamSerializer` over a {lit}`Reader`. -/
def binaryInputStreamSerializer : ISerializer where
  type := .INPUT
  beginArray := readInteger 64 UInt64.ofNat
  uint8 := readInteger 8 UInt8.ofNat
  uint32 := readInteger 32 UInt32.ofNat
  uint64 := readInteger 64 UInt64.ofNat
  string _ := do
    let size ← Reader.readVarint 64
    if size > 0 then readBytes size else pure []
  binary size _ := Reader.readPod size

@[simp] theorem binaryOutputStreamSerializer_type :
    binaryOutputStreamSerializer.type = .OUTPUT := rfl

@[simp] theorem binaryInputStreamSerializer_type :
    binaryInputStreamSerializer.type = .INPUT := rfl

/-! ## Helpers shared by the serialize functions -/

/-- {lit}`serializePod`: a fixed-size value as its raw memory. -/
def serializePod {n : Nat} (serializer : ISerializer) (v : Pod n) : ByteStream (Pod n) :=
  serializer.binary n v

/-- {lit}`serializeContainer` on a {lit}`std::vector`: the count, a
{lit}`resize` to it, then every element in place. -/
def serializeContainer {α : Type} [Inhabited α] (serializer : ISerializer)
    (item : α → ByteStream α) (value : List α) : ByteStream (List α) := do
  let size ← serializer.beginArray (UInt64.ofNat value.length)
  (resize value size.toNat).mapM item

/-- {lit}`serializeAsBinary` on a {lit}`std::vector<uint8_t>`: the bytes as one
{lit}`std::string`. -/
def serializeAsBinary (serializer : ISerializer) (value : Bytes) : ByteStream Bytes :=
  match serializer.type with
  | .INPUT =>
    -- the vector becomes a copy of the string read
    serializer.string []
  | .OUTPUT => do
    let _ ← serializer.string value
    pure value

/-! ## Each operation implements its piece of the format -/

/-- {lit}`beginArray` writes and reads its count as a 64-bit varint. -/
theorem beginArray_implements :
    Implements binaryOutputStreamSerializer.beginArray binaryInputStreamSerializer.beginArray
      (fun _ => True) fun v => Leb128.encode v.toNat :=
  uint64_implements

/-- A string is written as its length in LEB128 and its bytes, and read back. -/
theorem string_implements :
    Implements binaryOutputStreamSerializer.string binaryInputStreamSerializer.string
      FitsSizeT fun v => Leb128.encode v.length ++ v where
  writes v hv := by
    have hsize : (UInt64.ofNat v.length).toNat = v.length := UInt64.toNat_ofNat_of_lt hv
    have h := Writes.bind (Writer.writeVarint_writes (UInt64.ofNat v.length))
      (f := fun _ => do writeBytes v; pure v) (Writes.bind_pure (Writes.writeBytes v) fun _ => v)
    rwa [hsize] at h
  reads v hv _ := by
    refine Reads.bind (Reader.readVarint_reads hv) ?_
    -- a positive size reads the bytes, a zero size reads nothing
    rcases Nat.eq_zero_or_pos v.length with hlen | hlen
    · rw [List.length_eq_zero_iff.mp hlen]
      exact Reads.pure []
    · simp only [hlen, if_true]
      exact Reads.readBytes v
  consumes _ := by
    intro s v rest hrun
    obtain ⟨size, s', hsize, hbytes⟩ := run_bind_eq_ok hrun
    obtain ⟨bs, rfl, rfl, hlt⟩ := Reader.readVarint_consumes 64 s size s' hsize
    split at hbytes
    · obtain ⟨hs', hlen⟩ := readBytes_run_eq_ok hbytes
      subst hs'
      exact ⟨_, (List.append_assoc ..).symm, by rw [FitsSizeT, hlen]; exact hlt, by rw [hlen]⟩
    · obtain ⟨rfl, rfl⟩ := run_pure_eq_ok hbytes
      have hzero : size = 0 := by omega
      subst hzero
      exact ⟨_, rfl, by decide, (List.append_nil _).symm⟩

theorem binary_implements (n : Nat) :
    Implements (binaryOutputStreamSerializer.binary n) (binaryInputStreamSerializer.binary n)
      (fun _ => True) Pod.bytes where
  writes v _ := Writes.bind_pure (Writes.writeBytes v.bytes) fun _ => v
  reads v _ _ := Reader.readPod_reads v
  consumes _ := (Reader.readPod_consumes n).mono fun _ _ h => ⟨trivial, h⟩

theorem serializePod_implements (n : Nat) :
    Implements (serializePod (n := n) binaryOutputStreamSerializer)
      (serializePod binaryInputStreamSerializer) (fun _ => True) Pod.bytes :=
  binary_implements n

section Containers

variable {α : Type} [Inhabited α] {w r : α → ByteStream α} {D : α → Prop} {enc : α → Bytes}

/-- {lit}`serializeContainer` implements the length-prefixed layout on the
vectors that fit a {lit}`size_t` and whose elements are in the element
format's domain. -/
theorem serializeContainer_implements (h : Implements w r D enc) :
    Implements (serializeContainer binaryOutputStreamSerializer w)
      (serializeContainer binaryInputStreamSerializer r)
      (fun xs => FitsSizeT xs ∧ ∀ x ∈ xs, D x) (Leb128.lengthPrefixed enc) where
  writes xs hxs := by
    have hsize : (UInt64.ofNat xs.length).toNat = xs.length := UInt64.toNat_ofNat_of_lt hxs.1
    have hw := Writes.bind (beginArray_implements.writes (UInt64.ofNat xs.length) trivial)
      (f := fun size => (resize xs size.toNat).mapM w)
      (by rw [hsize, resize_length]; exact h.writes_mapM hxs.2)
    rwa [hsize] at hw
  reads xs hxs y := by
    have hsize : (UInt64.ofNat xs.length).toNat = xs.length := UInt64.toNat_ofNat_of_lt hxs.1
    have hr := Reads.bind (beginArray_implements.reads (UInt64.ofNat xs.length) trivial
      (UInt64.ofNat y.length)) (f := fun size => (resize y size.toNat).mapM r)
      (by rw [hsize]; exact h.reads_mapM (length_resize y xs.length) hxs.2)
    rwa [hsize] at hr
  consumes y := by
    intro s xs rest hrun
    obtain ⟨size, s', hsize, hitems⟩ := run_bind_eq_ok hrun
    obtain ⟨bs, rfl, -, rfl⟩ := beginArray_implements.consumes _ s size s' hsize
    obtain ⟨cs, rfl, hlen, hxs, rfl⟩ := h.consumes_mapM _ s' xs rest hitems
    rw [length_resize] at hlen
    refine ⟨_, (List.append_assoc ..).symm, ⟨?_, hxs⟩, ?_⟩
    · rw [FitsSizeT, hlen]
      exact size.toNat_lt
    · rw [Leb128.lengthPrefixed, hlen]

end Containers

@[simp] theorem serializeAsBinary_output (value : Bytes) :
    serializeAsBinary binaryOutputStreamSerializer value =
      (binaryOutputStreamSerializer.string value >>= fun _ => pure value) :=
  rfl

@[simp] theorem serializeAsBinary_input (value : Bytes) :
    serializeAsBinary binaryInputStreamSerializer value = binaryInputStreamSerializer.string [] :=
  rfl

/-- {lit}`serializeAsBinary` writes a byte vector as a length-prefixed string. -/
theorem serializeAsBinary_implements :
    Implements (serializeAsBinary binaryOutputStreamSerializer)
      (serializeAsBinary binaryInputStreamSerializer) FitsSizeT
      fun v => Leb128.encode v.length ++ v where
  writes v hv := by
    rw [serializeAsBinary_output]
    exact Writes.bind_pure (string_implements.writes v hv) fun _ => v
  reads v hv _ := by
    rw [serializeAsBinary_input]
    exact string_implements.reads v hv []
  consumes _ := by
    intro s v rest hrun
    rw [serializeAsBinary_input] at hrun
    exact string_implements.consumes [] s v rest hrun

/-! ## Whole objects -/

namespace BinaryArray

/-- {lit}`BinaryArray::to`: the bytes an output serializer writes for the
object, or nothing when {lit}`serialize` throws. -/
def «to» {α : Type} (serialize : ISerializer → α → ByteStream α) (object : α) : Option Bytes :=
  match (serialize binaryOutputStreamSerializer object).run [] with
  | .ok (_, binaryArray) => some binaryArray
  | .error _ => none

/-- {lit}`BinaryArray::from`: the object an input serializer reads into
{lit}`object`, when it succeeds and consumes the whole array. -/
def «from» {α : Type} (serialize : ISerializer → α → ByteStream α) (object : α)
    (binaryArray : Bytes) : Option α :=
  let run : ByteStream (α × Bool) := do
    let object ← serialize binaryInputStreamSerializer object
    -- check that all data was consumed
    let result ← Reader.endOfStream
    pure (object, result)
  match run.run binaryArray with
  | .ok ((object, true), _) => some object
  | _ => none

/-- {lit}`BinaryArray::objectHash`: the hash of the object's bytes, or
{lit}`NULL_HASH` when they cannot be written. -/
def objectHash {α : Type} (cnFastHash : Bytes → Hash) (serialize : ISerializer → α → ByteStream α)
    (object : α) : Hash :=
  match «to» serialize object with
  | some binaryArray => cnFastHash binaryArray
  | none => nullHash

variable {α : Type} {serialize : ISerializer → α → ByteStream α} {D : α → Prop}
  {enc : α → Bytes}

/-- A run of {lit}`from` that succeeds is a run of the reader that ends at the
end of the array. -/
theorem from_eq_some_iff {object a : α} {binaryArray : Bytes} :
    «from» serialize object binaryArray = some a ↔
      (serialize binaryInputStreamSerializer object).run binaryArray = .ok (a, []) := by
  simp only [«from»]
  rcases hrun : (serialize binaryInputStreamSerializer object).run binaryArray with e | ⟨a', rest⟩
  · rw [run_bind_of_error hrun]
    simp
  · rw [run_bind_of_ok hrun]
    cases rest <;> simp [Reader.endOfStream]

section
variable (h : Implements (serialize binaryOutputStreamSerializer)
  (serialize binaryInputStreamSerializer) D enc)
include h

theorem to_eq_some {a : α} (ha : D a) : «to» serialize a = some (enc a) := by
  rw [«to», h.run_writes ha]

theorem from_encode {a : α} (ha : D a) (object : α) :
    «from» serialize object (enc a) = some a :=
  from_eq_some_iff.mpr (h.run_reads ha object)

theorem from_eq_some {object a : α} {binaryArray : Bytes}
    (hfrom : «from» serialize object binaryArray = some a) : D a ∧ binaryArray = enc a :=
  h.eq_of_run_reads (from_eq_some_iff.mp hfrom)

end

end BinaryArray

end CryptoNote

import CryptoNote.Lib.ByteStream

/-!
# Files as byte lists

A file is the list of its bytes.  A positioned write, a seek followed by a
write, overwrites the bytes from the position on and extends the file when it
runs past the end; a seek past the end leaves a gap of zero bytes.  Numbers of
a fixed width are stored least significant byte first.

The lemmas say what a positioned write keeps: every prefix of the file that
ends before the position, and a prefix that the write extends when it starts
where that prefix ends.

Main results:

- Theorem {lit}`append_prefix_writeAt`: writing where a prefix ends extends
  the prefix by what was written.
- Theorem {lit}`LittleEndian.value_bytes`: a fixed-width number reads back
  modulo the width.
-/

namespace ByteCodec

/-- A positioned write of {lit}`data` at {lit}`offset`. -/
def writeAt (file : Bytes) (offset : Nat) (data : Bytes) : Bytes :=
  file.take offset ++ List.replicate (offset - file.length) 0 ++ data ++
    file.drop (offset + data.length)

@[simp] theorem writeAt_zero (file data : Bytes) :
    writeAt file 0 data = data ++ file.drop data.length := by
  simp [writeAt]

/-- A write that starts where a prefix ends extends the prefix. -/
theorem append_prefix_writeAt {p file : Bytes} (hp : p <+: file) (data : Bytes) :
    p ++ data <+: writeAt file p.length data := by
  obtain ⟨rest, rfl⟩ := hp
  simp [writeAt, List.prefix_append]

/-- A write at the start over a prefix of the same length replaces it. -/
theorem append_prefix_writeAt_zero {p q file : Bytes} (hp : p ++ q <+: file) {data : Bytes}
    (hlength : data.length = p.length) : data ++ q <+: writeAt file 0 data := by
  obtain ⟨rest, rfl⟩ := hp
  simp [hlength, List.prefix_append]

/-! ## Fixed-width numbers -/

namespace LittleEndian

/-- The {lit}`width` bytes of a number, least significant first, as the memory
of an unsigned integer of that width holds them. -/
def bytes : Nat → Nat → Bytes
  | 0, _ => []
  | width + 1, x => (x % 256).toUInt8 :: bytes width (x / 256)

/-- The number that bytes hold, least significant first. -/
def value : Bytes → Nat
  | [] => 0
  | b :: bs => b.toNat + 256 * value bs

@[simp] theorem length_bytes (width x : Nat) : (bytes width x).length = width := by
  induction width generalizing x with
  | zero => rfl
  | succ width ih => simp [bytes, ih]

/-- The little-endian bytes of a number read back as the number modulo their range. -/
theorem value_bytes (width x : Nat) : value (bytes width x) = x % 256 ^ width := by
  induction width generalizing x with
  | zero => simp [bytes, value, Nat.mod_one]
  | succ width ih =>
    have hdigit : ((x % 256).toUInt8).toNat = x % 256 := by
      simp [Nat.toUInt8_eq, UInt8.toNat_ofNat']
    rw [bytes, value, ih, hdigit, Nat.pow_succ', Nat.mod_mul]

theorem value_bytes_of_lt {width x : Nat} (hx : x < 256 ^ width) :
    value (bytes width x) = x := by
  rw [value_bytes, Nat.mod_eq_of_lt hx]

theorem value_append (l₁ l₂ : Bytes) : value (l₁ ++ l₂) = value l₁ + 256 ^ l₁.length * value l₂ := by
  induction l₁ with
  | nil => simp [value]
  | cons b l₁ ih =>
    rw [List.cons_append, value, ih, value, List.length_cons, Nat.pow_succ', Nat.mul_assoc,
      Nat.mul_add, Nat.add_assoc]

/-- The value of bytes is below {lit}`256` to the power of their count. -/
theorem value_lt (l : Bytes) : value l < 256 ^ l.length := by
  induction l with
  | nil => simp [value]
  | cons b l ih =>
    have hb := b.toNat_lt
    rw [value, List.length_cons, Nat.pow_succ']
    omega

/-- Split the bytes after the first {lit}`n`: the low part and the rest, shifted. -/
theorem value_take_drop (l : Bytes) {n : Nat} (hn : n ≤ l.length) :
    value l = value (l.take n) + 256 ^ n * value (l.drop n) := by
  conv_lhs => rw [← List.take_append_drop n l]
  rw [value_append, List.length_take_of_le hn]

end LittleEndian

end ByteCodec

import CryptoNote.Lib.Codec
import CryptoNote.Types
import Mathlib.Data.Nat.Bitwise
import Mathlib.Tactic.Ring

/-!
# Reader and Writer primitives

The byte-level operations of {lit}`stream/reader.h` and {lit}`stream/writer.h`,
on which both the stream codec of the block store and the consensus binary
serializer are built: {lit}`Writer::writeVarint` and {lit}`Reader::readVarint`
for every integer field, raw copies of fixed-size values, and the end-of-stream
test that {lit}`BinaryArray::from` applies.

{lit}`Reader::readVarint<T>` is the one with logic: it rejects a group that would
overflow the {lit}`8 * sizeof(T)` bits of its target and a final zero group
after the first, so that every value has exactly one accepted encoding.

Main results:

- Theorem {lit}`Writer.writeVarint_writes`: the writer loop emits the LEB128
  encoding of its value.
- Theorem {lit}`Reader.readVarint_reads`: the reader of width {lit}`w` reads back
  every value below {lit}`2 ^ w` from its encoding.
- Theorem {lit}`Reader.readVarint_consumes`: whatever the reader accepts is the
  encoding of the value it returns, and that value is below {lit}`2 ^ w`.
- The same pair of facts for the raw copies of PODs, of {lit}`uint32_t` and of
  single bytes.
- Theorems {lit}`uint8_implements`, {lit}`uint32_implements` and
  {lit}`uint64_implements`: {lit}`o << value` and {lit}`i >> value` implement
  the varint of each unsigned width.
-/

namespace CryptoNote

open ByteCodec

/-! ## Byte arithmetic -/

set_option maxRecDepth 8192 in
/-- Setting the top bit of a byte adds 128 to its low seven bits. -/
theorem nat_or_128 : ∀ n < 256, (n ||| 128) = n % 128 + 128 := by decide

set_option maxRecDepth 8192 in
/-- The top bit of a byte is clear exactly below 128. -/
theorem nat_and_128_eq_zero_iff : ∀ n < 256, (n &&& 128 = 0 ↔ n < 128) := by decide

theorem toNat_toUInt8_of_lt {n : Nat} (h : n < 256) : n.toUInt8.toNat = n := by
  simp only [Nat.toUInt8_eq, UInt8.toNat_ofNat']
  omega

theorem uint8_and_0x7f_toNat (p : UInt8) : (p &&& 0x7f).toNat = p.toNat % 128 := by
  rw [UInt8.toNat_and]
  exact Nat.and_two_pow_sub_one_eq_mod p.toNat 7

theorem uint8_and_0x80_eq_zero_iff (p : UInt8) : p &&& 0x80 = 0 ↔ p.toNat < 128 := by
  rw [← UInt8.toNat_inj, UInt8.toNat_and]
  exact nat_and_128_eq_zero_iff p.toNat p.toNat_lt

/-- A byte at or above 128 is the flagged form of its low seven bits. -/
theorem uint8_eq_flagged {p : UInt8} (h : 128 ≤ p.toNat) :
    (p.toNat % 128 + 128).toUInt8 = p := by
  apply UInt8.toNat.inj
  rw [toNat_toUInt8_of_lt (by omega)]
  have := p.toNat_lt
  omega

/-- Or-ing a group into the bits above an accumulator adds it. -/
theorem or_shiftLeft_eq_add {acc d shift : Nat} (hacc : acc < 2 ^ shift) :
    (acc ||| d <<< shift) = acc + d * 2 ^ shift := by
  rw [Nat.lor_comm, ← Nat.shiftLeft_add_eq_or_of_lt hacc, Nat.shiftLeft_eq, Nat.add_comm]

/-- A factor that keeps a product below {lit}`2 ^ w` is below the remaining power. -/
theorem lt_two_pow_sub_of_mul_lt {v s w : Nat} (h : v * 2 ^ s < 2 ^ w) : v < 2 ^ (w - s) := by
  by_cases hsw : s ≤ w
  · have hsplit : 2 ^ w = 2 ^ (w - s) * 2 ^ s := by
      rw [← Nat.pow_add, Nat.sub_add_cancel hsw]
    rw [hsplit] at h
    exact Nat.lt_of_mul_lt_mul_right h
  · have hpow : 2 ^ w < 2 ^ s := Nat.pow_lt_pow_right (by decide) (by omega)
    have hv : v = 0 := by
      by_contra hne
      have : 2 ^ s ≤ v * 2 ^ s := Nat.le_mul_of_pos_left _ (Nat.pos_of_ne_zero hne)
      omega
    simp [hv]

/-! ## Memory of fixed-size values

{lit}`Writer::write(&value, sizeof(value))` and {lit}`Reader::read` copy a
value's memory; on the little-endian targets the code is built for, a
{lit}`uint32_t` is held least significant byte first. -/

/-- The four bytes of a {lit}`uint32_t` as memory holds them. -/
def uint32Bytes (x : UInt32) : Bytes :=
  [x.toNat.toUInt8, (x.toNat / 256).toUInt8, (x.toNat / 65536).toUInt8,
    (x.toNat / 16777216).toUInt8]

/-- The {lit}`uint32_t` whose memory holds four given bytes. -/
def uint32OfBytes (b0 b1 b2 b3 : UInt8) : UInt32 :=
  UInt32.ofNat (b0.toNat + 256 * b1.toNat + 65536 * b2.toNat + 16777216 * b3.toNat)

/-- Four bytes assembled into a number and split again are themselves. -/
theorem uint32Bytes_uint32OfBytes (b0 b1 b2 b3 : UInt8) :
    uint32Bytes (uint32OfBytes b0 b1 b2 b3) = [b0, b1, b2, b3] := by
  have h0 := b0.toNat_lt
  have h1 := b1.toNat_lt
  have h2 := b2.toNat_lt
  have h3 := b3.toNat_lt
  simp only [uint32Bytes, uint32OfBytes, UInt32.toNat_ofNat', List.cons.injEq,
    ← UInt8.toNat_inj, Nat.toUInt8_eq, UInt8.toNat_ofNat', and_true]
  omega

/-- The memory of a {lit}`uint32_t`, as a four-byte value. -/
def Pod.ofUInt32 (x : UInt32) : Pod 4 := ⟨uint32Bytes x, rfl⟩

/-- The {lit}`uint32_t` that four bytes of memory hold. -/
def Pod.toUInt32 (p : Pod 4) : UInt32 :=
  match p.bytes with
  | [b0, b1, b2, b3] => uint32OfBytes b0 b1 b2 b3
  | _ => 0

@[simp] theorem Pod.toUInt32_ofUInt32 (x : UInt32) : (Pod.ofUInt32 x).toUInt32 = x := by
  apply UInt32.toNat.inj
  have hx := x.toNat_lt
  simp only [Pod.ofUInt32, Pod.toUInt32, uint32Bytes, uint32OfBytes, Nat.toUInt8_eq,
    UInt8.toNat_ofNat', UInt32.toNat_ofNat']
  omega

@[simp] theorem Pod.ofUInt32_toUInt32 (p : Pod 4) : Pod.ofUInt32 p.toUInt32 = p := by
  obtain ⟨bytes, h⟩ := p
  rcases bytes with _ | ⟨b0, _ | ⟨b1, _ | ⟨b2, _ | ⟨b3, _ | ⟨b4, bs⟩⟩⟩⟩⟩ <;> simp at h
  ext1
  exact uint32Bytes_uint32OfBytes b0 b1 b2 b3

/-- The memory of a {lit}`uint8_t`. -/
def Pod.ofUInt8 (b : UInt8) : Pod 1 := ⟨[b], rfl⟩

/-- The {lit}`uint8_t` that one byte of memory holds. -/
def Pod.toUInt8 (p : Pod 1) : UInt8 := p.bytes.headD 0

@[simp] theorem Pod.toUInt8_ofUInt8 (b : UInt8) : (Pod.ofUInt8 b).toUInt8 = b := rfl

@[simp] theorem Pod.ofUInt8_toUInt8 (p : Pod 1) : Pod.ofUInt8 p.toUInt8 = p := by
  obtain ⟨bytes, h⟩ := p
  rcases bytes with _ | ⟨b, _ | ⟨b', bs⟩⟩ <;> simp at h
  rfl

/-- A byte of memory holding {lit}`b` is the list {lit}`[b]`. -/
theorem Pod.bytes_eq_of_toUInt8 {p : Pod 1} {b : UInt8} (h : p.toUInt8 = b) : p.bytes = [b] := by
  rw [← Pod.ofUInt8_toUInt8 p, h]
  rfl

/-! ## Writer -/

theorem uint64_shiftRight_7 (v : UInt64) : (v >>> 7).toNat = v.toNat / 128 := by
  rw [UInt64.toNat_shiftRight, Nat.shiftRight_eq_div_pow]
  rfl

/-- The step of every seven-bit varint loop: a value of more than seven bits
shrinks when shifted. -/
theorem uint64_shiftRight_7_lt {v : UInt64} (h : 0x80 ≤ v) : (v >>> 7).toNat < v.toNat := by
  rw [UInt64.le_iff_toNat_le] at h
  rw [uint64_shiftRight_7]
  have h128 : (0x80 : UInt64).toNat = 128 := rfl
  omega

namespace Writer

/-- {lit}`Writer::writeVarint`: while the value has more than seven bits, emit
its low seven bits with the top bit set and shift right by seven. -/
def writeVarint (v : UInt64) : ByteStream Unit :=
  if _h : 0x80 ≤ v then do
    writeBytes [(v ||| 0x80).toUInt8]
    writeVarint (v >>> 7)
  else writeBytes [v.toUInt8]
termination_by v.toNat
decreasing_by exact uint64_shiftRight_7_lt _h

/-- Setting the continuation bit of the low byte adds {lit}`128` to its low seven
bits. -/
theorem toNat_or_0x80_toUInt8 (v : UInt64) :
    ((v ||| 0x80).toUInt8).toNat = v.toNat % 128 + 128 := by
  rw [UInt64.toNat_toUInt8, UInt64.toNat_or]
  have hmod : (v.toNat ||| (0x80 : UInt64).toNat) % 2 ^ 8 = (v.toNat % 2 ^ 8 ||| 128) := by
    rw [Nat.or_mod_two_pow]
    rfl
  rw [hmod, nat_or_128 (v.toNat % 2 ^ 8) (by omega)]
  omega

/-- The varint writer writes the LEB128 encoding of the value. -/
theorem writeVarint_writes (v : UInt64) :
    Writes (writeVarint v) () (Leb128.encode v.toNat) := by
  -- induction on the value, which the loop shifts right by seven each round
  induction hn : v.toNat using Nat.strong_induction_on generalizing v with
  | _ n ih =>
  subst hn
  by_cases h : 0x80 ≤ v
  · have hle : 128 ≤ v.toNat := UInt64.le_iff_toNat_le.mp h
    have hbyte : (v ||| 0x80).toUInt8 = (v.toNat % 128 + 128).toUInt8 := by
      apply UInt8.toNat.inj
      rw [toNat_or_0x80_toUInt8, toNat_toUInt8_of_lt (by omega)]
    have ih' := ih (v >>> 7).toNat (by rw [uint64_shiftRight_7]; omega) (v >>> 7) rfl
    rw [writeVarint, dif_pos h, Leb128.encode_of_le hle, ← uint64_shiftRight_7, ← hbyte]
    exact Writes.bind (Writes.writeBytes _) ih'
  · have hlt : v.toNat < 128 := by
      rw [UInt64.le_iff_toNat_le] at h
      change ¬128 ≤ v.toNat at h
      omega
    have hbyte : v.toUInt8 = v.toNat.toUInt8 := by
      apply UInt8.toNat.inj
      rw [toNat_toUInt8_of_lt (by omega), UInt64.toNat_toUInt8]
      omega
    rw [writeVarint, dif_neg h, Leb128.encode_of_lt hlt, hbyte]
    exact Writes.writeBytes _

/-- {lit}`Writer::write(const void*, size)` of a fixed-size value. -/
def writePod {n : Nat} (p : Pod n) : ByteStream Unit :=
  writeBytes p.bytes

/-- {lit}`Writer::write(&value, sizeof(uint32_t))`. -/
def writeUInt32Raw (x : UInt32) : ByteStream Unit :=
  writePod (Pod.ofUInt32 x)

/-- {lit}`Writer::write(&value, sizeof(bool))`: one byte, 1 for true. -/
def writeBool (b : Bool) : ByteStream Unit :=
  writeBytes [if b then 1 else 0]

end Writer

/-! ## Reader -/

namespace Reader

/-- The loop of {lit}`Reader::readVarint<T>` for a target of {lit}`w` bits, from
bit position {lit}`shift` with the bits {lit}`acc` read so far. -/
def readVarintLoop (w : Nat) : Nat → Nat → Bytes → Except String (Nat × Bytes)
  | _, _, [] => .error "Failed to read from IInputStream"
  | shift, acc, piece :: rest =>
    if w - 7 ≤ shift ∧ 2 ^ (w - shift) ≤ piece.toNat then .error "readVarint, value overflow"
    else
      -- the group is or-ed into a {lit}`T`, which keeps the low {lit}`w` bits
      let acc := (acc ||| (piece &&& 0x7f).toNat <<< shift) % 2 ^ w
      if piece &&& 0x80 = 0 then
        if piece = 0 ∧ shift ≠ 0 then .error "readVarint, invalid value representation"
        else .ok (acc, rest)
      else readVarintLoop w (shift + 7) acc rest

/-- {lit}`Reader::readVarint<T>` for an unsigned {lit}`T` of {lit}`w` bits. -/
def readVarint (w : Nat) : ByteStream Nat :=
  fun s => readVarintLoop w 0 0 s

/-- From an accumulator below {lit}`2 ^ shift`, the loop reads the rest of an
encoding and adds the value it encodes at position {lit}`shift`. -/
theorem readVarintLoop_encode {w : Nat} (v : Nat) :
    ∀ (shift acc : Nat) (rest : Bytes), acc < 2 ^ shift → (shift ≠ 0 → 0 < v) →
      acc + v * 2 ^ shift < 2 ^ w →
      readVarintLoop w shift acc (Leb128.encode v ++ rest) = .ok (acc + v * 2 ^ shift, rest) := by
  induction v using Nat.strong_induction_on with
  | _ v ih =>
  intro shift acc rest hacc hpos hbound
  have hfit : v < 2 ^ (w - shift) :=
    lt_two_pow_sub_of_mul_lt (Nat.lt_of_le_of_lt (Nat.le_add_left _ _) hbound)
  by_cases hv : v < 128
  · have hpiece : v.toUInt8.toNat = v := toNat_toUInt8_of_lt (by omega)
    have hlow : (v.toUInt8 &&& 0x80) = 0 := by
      rw [uint8_and_0x80_eq_zero_iff, hpiece]
      exact hv
    have hnotzero : ¬(v.toUInt8 = 0 ∧ shift ≠ 0) := by
      rintro ⟨hz, hs⟩
      have := hpos hs
      rw [← UInt8.toNat_inj, hpiece] at hz
      simp at hz
      omega
    have hacc' : (acc ||| (v.toUInt8 &&& 0x7f).toNat <<< shift) % 2 ^ w = acc + v * 2 ^ shift := by
      rw [uint8_and_0x7f_toNat, hpiece, Nat.mod_eq_of_lt hv, or_shiftLeft_eq_add hacc]
      exact Nat.mod_eq_of_lt hbound
    rw [Leb128.encode_of_lt hv, List.singleton_append, readVarintLoop, hpiece,
      if_neg (fun h => Nat.not_le_of_lt hfit h.2)]
    simp only [hacc', hlow, if_true, if_neg hnotzero]
  · have hle : 128 ≤ v := Nat.le_of_not_lt hv
    have hpiece : (v % 128 + 128).toUInt8.toNat = v % 128 + 128 := toNat_toUInt8_of_lt (by omega)
    have hroom : shift + 7 < w := by
      have h1 : 2 ^ (shift + 7) ≤ v * 2 ^ shift :=
        calc 2 ^ (shift + 7) = 128 * 2 ^ shift := by rw [Nat.pow_add]; ring
          _ ≤ v * 2 ^ shift := Nat.mul_le_mul_right _ hle
      have h2 : 2 ^ (shift + 7) < 2 ^ w := by omega
      exact (Nat.pow_lt_pow_iff_right (by decide)).mp h2
    have hhigh : ¬((v % 128 + 128).toUInt8 &&& 0x80) = 0 := by
      rw [uint8_and_0x80_eq_zero_iff, hpiece]
      omega
    have key : acc + v % 128 * 2 ^ shift + v / 128 * 2 ^ (shift + 7) = acc + v * 2 ^ shift := by
      have hv' := Nat.mod_add_div v 128
      calc acc + v % 128 * 2 ^ shift + v / 128 * 2 ^ (shift + 7)
          = acc + (v % 128 + 128 * (v / 128)) * 2 ^ shift := by ring
        _ = acc + v * 2 ^ shift := by rw [hv']
    have hstep : acc + v % 128 * 2 ^ shift < 2 ^ (shift + 7) := by
      have : v % 128 * 2 ^ shift ≤ 127 * 2 ^ shift := Nat.mul_le_mul_right _ (by omega)
      rw [Nat.pow_add]
      omega
    have hacc' : (acc ||| ((v % 128 + 128).toUInt8 &&& 0x7f).toNat <<< shift) % 2 ^ w
        = acc + v % 128 * 2 ^ shift := by
      rw [uint8_and_0x7f_toNat, hpiece, show (v % 128 + 128) % 128 = v % 128 by omega,
        or_shiftLeft_eq_add hacc]
      exact Nat.mod_eq_of_lt (by omega)
    have hrec := ih (v / 128) (by omega) (shift + 7) (acc + v % 128 * 2 ^ shift) rest hstep
      (fun _ => by omega) (by rw [key]; exact hbound)
    rw [Leb128.encode_of_le hle, List.cons_append, readVarintLoop, hpiece,
      if_neg (fun h => by omega)]
    simp only [hacc', hhigh, if_false]
    rw [hrec, key]

/-- {lit}`readVarint` of width {lit}`w` reads back every value below
{lit}`2 ^ w` from its LEB128 encoding. -/
theorem readVarint_reads {w v : Nat} (hv : v < 2 ^ w) :
    Reads (readVarint w) v (Leb128.encode v) := by
  intro rest
  have h := readVarintLoop_encode (w := w) v 0 0 rest (by decide) (fun h => absurd rfl h)
    (by simpa using hv)
  change readVarintLoop w 0 0 (Leb128.encode v ++ rest) = .ok (v, rest)
  simpa using h

/-- Every successful run of the loop consumed the encoding of a value, and
returned the accumulator plus that value at position {lit}`shift`, below
{lit}`2 ^ w`. -/
theorem readVarintLoop_consumes {w : Nat} :
    ∀ (s : Bytes) (shift acc val : Nat) (rest : Bytes),
      readVarintLoop w shift acc s = .ok (val, rest) → acc < 2 ^ shift → shift ≤ w →
      ∃ v, s = Leb128.encode v ++ rest ∧ (shift ≠ 0 → 0 < v) ∧
        val = acc + v * 2 ^ shift ∧ val < 2 ^ w
  | [], _, _, _, _, h, _, _ => by simp [readVarintLoop] at h
  | piece :: s, shift, acc, val, rest, h, hacc, hsw => by
    rw [readVarintLoop] at h
    by_cases hover : w - 7 ≤ shift ∧ 2 ^ (w - shift) ≤ piece.toNat
    · rw [if_pos hover] at h
      cases h
    rw [if_neg hover] at h
    have hgroup : (piece &&& 0x7f).toNat = piece.toNat % 128 := uint8_and_0x7f_toNat piece
    -- the new group fits below {lit}`2 ^ w`, so or-ing it into the target loses nothing
    have hfits : acc + piece.toNat % 128 * 2 ^ shift < 2 ^ w := by
      by_cases hlate : w - 7 ≤ shift
      · have hp : piece.toNat < 2 ^ (w - shift) := by
          by_contra hp
          exact hover ⟨hlate, Nat.le_of_not_lt hp⟩
        have h1 : (piece.toNat % 128 + 1) * 2 ^ shift ≤ 2 ^ (w - shift) * 2 ^ shift :=
          Nat.mul_le_mul_right _ (by omega)
        rw [← Nat.pow_add, Nat.sub_add_cancel hsw] at h1
        rw [Nat.add_mul, Nat.one_mul] at h1
        omega
      · have h1 : piece.toNat % 128 * 2 ^ shift ≤ 127 * 2 ^ shift :=
          Nat.mul_le_mul_right _ (by omega)
        have h2 : 2 ^ (shift + 7) ≤ 2 ^ w := Nat.pow_le_pow_right (by decide) (by omega)
        rw [Nat.pow_add] at h2
        omega
    have hacc' : (acc ||| (piece &&& 0x7f).toNat <<< shift) % 2 ^ w
        = acc + piece.toNat % 128 * 2 ^ shift := by
      rw [hgroup, or_shiftLeft_eq_add hacc]
      exact Nat.mod_eq_of_lt hfits
    simp only [hacc'] at h
    by_cases hlast : piece &&& 0x80 = 0
    · rw [if_pos hlast] at h
      have hlt : piece.toNat < 128 := (uint8_and_0x80_eq_zero_iff piece).mp hlast
      by_cases hzero : piece = 0 ∧ shift ≠ 0
      · rw [if_pos hzero] at h
        cases h
      rw [if_neg hzero] at h
      simp only [Except.ok.injEq, Prod.mk.injEq] at h
      obtain ⟨rfl, rfl⟩ := h
      refine ⟨piece.toNat, ?_, ?_, by rw [Nat.mod_eq_of_lt hlt], by omega⟩
      · rw [Leb128.encode_of_lt hlt, Nat.toUInt8_eq, UInt8.ofNat_toNat, List.singleton_append]
      · intro hs
        by_contra hp
        exact hzero ⟨UInt8.toNat.inj (by simpa using hp), hs⟩
    · rw [if_neg hlast] at h
      have hge : 128 ≤ piece.toNat := by
        by_contra hlt
        exact hlast ((uint8_and_0x80_eq_zero_iff piece).mpr (Nat.lt_of_not_le hlt))
      have hroom : shift + 7 ≤ w := by
        by_contra hroom
        have hpow : 2 ^ (w - shift) ≤ 2 ^ 7 := Nat.pow_le_pow_right (by decide) (by omega)
        exact hover ⟨by omega, Nat.le_trans hpow (by simpa using hge)⟩
      have hstep : acc + piece.toNat % 128 * 2 ^ shift < 2 ^ (shift + 7) := by
        have : piece.toNat % 128 * 2 ^ shift ≤ 127 * 2 ^ shift := Nat.mul_le_mul_right _ (by omega)
        rw [Nat.pow_add]
        omega
      obtain ⟨v, hs, hpos, hval, hlt⟩ := readVarintLoop_consumes s (shift + 7) _ val rest h hstep hroom
      have hv : 0 < v := hpos (by omega)
      refine ⟨piece.toNat % 128 + 128 * v, ?_, fun _ => by omega, ?_, hlt⟩
      · rw [Leb128.encode_digit_add (by omega) hv, uint8_eq_flagged hge, hs, List.cons_append]
      · rw [hval]
        ring

/-- Whatever {lit}`readVarint` of width {lit}`w` accepts is the LEB128 encoding
of the value it returns, and that value is below {lit}`2 ^ w`. -/
theorem readVarint_consumes (w : Nat) :
    Consumes (readVarint w) fun v bs => bs = Leb128.encode v ∧ v < 2 ^ w := by
  intro s val rest h
  obtain ⟨v, hs, -, hval, hlt⟩ := readVarintLoop_consumes s 0 0 val rest h (by decide) (Nat.zero_le w)
  simp only [Nat.pow_zero, Nat.mul_one, Nat.zero_add] at hval
  subst hval
  exact ⟨_, hs, rfl, hlt⟩

/-- {lit}`Reader::read(void*, n)` of a fixed-size value. -/
def readPod (n : Nat) : ByteStream (Pod n) := fun s =>
  if h : n ≤ s.length then .ok (⟨s.take n, List.length_take_of_le h⟩, s.drop n)
  else .error "Failed to read from IInputStream"

theorem readPod_reads {n : Nat} (p : Pod n) : Reads (readPod n) p p.bytes := by
  intro rest
  obtain ⟨bs, rfl⟩ := p
  simp [readPod, StateT.run]

/-- Reading raw bytes consumes the bytes read. -/
theorem readPod_consumes (n : Nat) : Consumes (readPod n) fun p bs => bs = p.bytes := by
  intro s p rest h
  simp only [readPod, StateT.run] at h
  split at h
  · cases h
    exact ⟨_, (List.take_append_drop n s).symm, rfl⟩
  · cases h

/-- {lit}`Reader::read(&value, sizeof(uint32_t))`. -/
def readUInt32Raw : ByteStream UInt32 := do
  let p ← readPod 4
  pure p.toUInt32

theorem readUInt32Raw_reads (x : UInt32) :
    Reads readUInt32Raw x (Pod.ofUInt32 x).bytes := by
  have h := Reads.bind_pure (readPod_reads (Pod.ofUInt32 x)) Pod.toUInt32
  rwa [Pod.toUInt32_ofUInt32] at h

/-- Reading a raw 32-bit number consumes its four bytes. -/
theorem readUInt32Raw_consumes :
    Consumes readUInt32Raw fun x bs => bs = (Pod.ofUInt32 x).bytes := by
  intro s x rest h
  obtain ⟨p, s', hp, h⟩ := run_bind_eq_ok h
  obtain ⟨rfl, rfl⟩ := run_pure_eq_ok h
  obtain ⟨bs, rfl, rfl⟩ := readPod_consumes 4 s p rest hp
  exact ⟨p.bytes, rfl, congrArg Pod.bytes (Pod.ofUInt32_toUInt32 p).symm⟩

/-- {lit}`Reader::read(&value, sizeof(bool))`. -/
def readBool : ByteStream Bool
  | b :: rest => .ok (b ≠ 0, rest)
  | [] => .error "Failed to read from IInputStream"

theorem readBool_reads (b : Bool) : Reads readBool b [if b then 1 else 0] := by
  intro rest
  cases b <;> rfl

/-- {lit}`Reader::read(&value, 1)` of a single byte. -/
def readByte : ByteStream UInt8
  | b :: rest => .ok (b, rest)
  | [] => .error "Failed to read from IInputStream"

theorem readByte_reads (b : UInt8) : Reads readByte b [b] := fun _ => rfl

/-- Reading a byte consumes it. -/
theorem readByte_consumes : Consumes readByte fun b bs => bs = [b] := by
  intro s b rest h
  match s, h with
  | b' :: rest', h =>
    simp only [readByte, StateT.run, Except.ok.injEq, Prod.mk.injEq] at h
    obtain ⟨rfl, rfl⟩ := h
    exact ⟨[b'], rfl, rfl⟩

/-- {lit}`Reader::endOfStream`: the next {lit}`peek` finds no byte. -/
def endOfStream : ByteStream Bool := atEnd

end Reader

/-! ## Unsigned integers

{lit}`o << value` and {lit}`i >> value` on every unsigned integer type go
through {lit}`writeVarint` and {lit}`readVarint`; a reader takes the current
value of the field, which it overwrites. -/

/-- {lit}`o << value` on an unsigned integer: its varint.  The value is kept. -/
def writeInteger {α : Type} (toUInt64 : α → UInt64) (value : α) : ByteStream α := do
  Writer.writeVarint (toUInt64 value)
  pure value

/-- {lit}`i >> value` on an unsigned integer of {lit}`w` bits: a varint
checked against the width. -/
def readInteger {α : Type} (w : Nat) (ofNat : Nat → α) (_value : α) : ByteStream α := do
  let v ← Reader.readVarint w
  pure (ofNat v)

section Integers

variable {α : Type} {w : Nat} {toUInt64 : α → UInt64} {toNat : α → Nat} {ofNat : Nat → α}

/-- A varint operation implements the varint format on an unsigned type of
{lit}`w` bits whose conversions to and from {lit}`Nat` are inverse. -/
theorem integer_implements (htoUInt64 : ∀ v, (toUInt64 v).toNat = toNat v)
    (hlt : ∀ v, toNat v < 2 ^ w) (hof : ∀ v, ofNat (toNat v) = v)
    (hto : ∀ n, n < 2 ^ w → toNat (ofNat n) = n) :
    Implements (writeInteger toUInt64) (readInteger w ofNat) (fun _ => True)
      (fun v => Leb128.encode (toNat v)) where
  writes v _ := by
    rw [← htoUInt64]
    exact Writes.bind_pure (Writer.writeVarint_writes (toUInt64 v)) fun _ => v
  reads v _ _ := by
    have h := Reads.bind_pure (Reader.readVarint_reads (hlt v)) ofNat
    rwa [hof] at h
  consumes _ := by
    intro s v rest hrun
    obtain ⟨n, s', hn, hpure⟩ := run_bind_eq_ok hrun
    obtain ⟨rfl, rfl⟩ := run_pure_eq_ok hpure
    obtain ⟨bs, rfl, rfl, hlt'⟩ := Reader.readVarint_consumes w s n rest hn
    exact ⟨_, rfl, trivial, by rw [hto n hlt']⟩

end Integers

theorem uint8_implements :
    Implements (writeInteger UInt8.toUInt64) (readInteger 8 UInt8.ofNat)
      (fun _ => True) fun v : UInt8 => Leb128.encode v.toNat :=
  integer_implements UInt8.toNat_toUInt64 UInt8.toNat_lt (fun _ => UInt8.ofNat_toNat)
    fun _ hn => UInt8.toNat_ofNat_of_lt hn

theorem uint32_implements :
    Implements (writeInteger UInt32.toUInt64) (readInteger 32 UInt32.ofNat)
      (fun _ => True) fun v : UInt32 => Leb128.encode v.toNat :=
  integer_implements UInt32.toNat_toUInt64 UInt32.toNat_lt (fun _ => UInt32.ofNat_toNat)
    fun _ hn => UInt32.toNat_ofNat_of_lt hn

theorem uint64_implements :
    Implements (writeInteger id) (readInteger 64 UInt64.ofNat)
      (fun _ => True) fun v : UInt64 => Leb128.encode v.toNat :=
  integer_implements (fun _ => rfl) UInt64.toNat_lt (fun _ => UInt64.ofNat_toNat)
    fun _ hn => UInt64.toNat_ofNat_of_lt hn

end CryptoNote

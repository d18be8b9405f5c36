import CryptoNote.Serialization.KVBinary

/-!
# Varints of the portable storage format

What {lit}`readVarint` makes of what {lit}`writeArraySize` writes.

The one- and two-byte marks read back.  The four-byte mark reads back only
while the top byte is below {lit}`0x80`: {lit}`readVarint` shifts each byte as
an {lit}`int`, so a top byte of {lit}`0x80` or more gives a negative
{lit}`int`, which is sign-extended when it is or-ed into the {lit}`size_t`.  A
size {lit}`n` with {lit}`2^29 ≤ n < 2^30` comes back as
{lit}`n + 2^62 - 2^30` ({lit}`readVarint_writeArraySize_of_ge`), and a string
of that size cannot be read back ({lit}`parseBinary_dump_string`).  Below
{lit}`2^29` every size reads back ({lit}`readVarint_writeArraySize_of_lt`).
-/

namespace CryptoNote

open ByteCodec

namespace KVBinary

/-! ## Arithmetic of the shifts -/

/-- The shift of a promoted byte, as a number: the 32-bit result, plus the
sign extension when its top bit is set. -/
theorem toNat_shiftPromoted (n : UInt8) {shift : Nat} (hshift : shift < 32) :
    (shiftPromoted n shift).toNat =
      if n.toNat * 2 ^ shift % 2 ^ 32 < 2 ^ 31 then n.toNat * 2 ^ shift % 2 ^ 32
      else n.toNat * 2 ^ shift % 2 ^ 32 + (2 ^ 64 - 2 ^ 32) := by
  have hbits : (shiftPromoted n shift).toBitVec =
      (n.toUInt32 <<< shift.toUInt32).toBitVec.signExtend 64 := rfl
  have hshifted : (n.toUInt32 <<< shift.toUInt32).toNat = n.toNat * 2 ^ shift % 2 ^ 32 := by
    rw [UInt32.toNat_shiftLeft, UInt8.toNat_toUInt32, Nat.shiftLeft_eq]
    simp [Nat.mod_eq_of_lt hshift]
  rw [← UInt64.toNat_toBitVec, hbits, BitVec.toNat_signExtend, BitVec.msb_eq_decide,
    BitVec.toNat_setWidth, UInt32.toNat_toBitVec, hshifted]
  have hlt : n.toNat * 2 ^ shift % 2 ^ 32 < 2 ^ 32 := Nat.mod_lt _ (by decide)
  generalize n.toNat * 2 ^ shift % 2 ^ 32 = r at hlt ⊢
  by_cases hsign : r < 2 ^ 31
  · have hmsb : ¬2 ^ 31 ≤ r := by omega
    simp only [hmsb, decide_false, Bool.false_eq_true, if_false, hsign, if_true]
    omega
  · have hmsb : 2 ^ 31 ≤ r := by omega
    simp only [hmsb, decide_true, if_true, hsign, if_false]
    omega

/-- A shift that stays below the sign bit is a multiplication. -/
theorem toNat_shiftPromoted_of_lt (n : UInt8) {shift : Nat} (hshift : shift < 32)
    (hsign : n.toNat * 2 ^ shift < 2 ^ 31) :
    (shiftPromoted n shift).toNat = n.toNat * 2 ^ shift := by
  rw [toNat_shiftPromoted n hshift, Nat.mod_eq_of_lt (by omega), if_pos hsign]

/-- {lit}`packVarint` of a size that fits: the memory of four times the size
plus the mark. -/
theorem packVarint_eq {width : Nat} {typeOr : UInt8} {pv : UInt64} (hwidth : width ≤ 8)
    (hfit : 4 * pv.toNat < 2 ^ (8 * width)) (hmark : typeOr.toNat < 4) :
    packVarint width typeOr pv = LittleEndian.bytes width (4 * pv.toNat + typeOr.toNat) := by
  have hroom : 2 ^ (8 * width) ≤ 2 ^ 64 := Nat.pow_le_pow_right (by decide) (by omega)
  have hshift : (pv <<< 2).toNat = 4 * pv.toNat := by
    rw [UInt64.toNat_shiftLeft, Nat.shiftLeft_eq]
    simp only [UInt64.reduceToNat, Nat.reduceMod]
    omega
  rw [packVarint, hshift, Nat.mod_eq_of_lt hfit, Nat.lor_comm,
    show 4 * pv.toNat = pv.toNat <<< 2 by rw [Nat.shiftLeft_eq]; omega,
    or_shiftLeft_eq_add hmark]
  congr 1
  omega

/-! ## What {lit}`writeArraySize` writes -/

theorem writeArraySize_of_le_byte {n : UInt64} (hn : n.toNat ≤ 63) :
    writeArraySize n = .ok (LittleEndian.bytes 1 (4 * n.toNat)) := by
  have hle : n ≤ 63 := UInt64.le_iff_toNat_le.mpr hn
  rw [writeArraySize, if_pos hle, packVarint_eq (by decide) (by omega) (by decide)]
  rfl

theorem writeArraySize_of_le_word {n : UInt64} (hlow : 63 < n.toNat) (hn : n.toNat ≤ 16383) :
    writeArraySize n = .ok (LittleEndian.bytes 2 (4 * n.toNat + 1)) := by
  have hbyte : ¬n ≤ 63 := fun h => by rw [UInt64.le_iff_toNat_le] at h; simp at h; omega
  have hle : n ≤ 16383 := UInt64.le_iff_toNat_le.mpr hn
  rw [writeArraySize, if_neg hbyte, if_pos hle, packVarint_eq (by decide) (by omega) (by decide)]
  rfl

/-- A size past the word range and within the dword range is written on four bytes
with the dword mark. -/
theorem writeArraySize_of_le_dword {n : UInt64} (hlow : 16383 < n.toNat)
    (hn : n.toNat ≤ 1073741823) :
    writeArraySize n = .ok (LittleEndian.bytes 4 (4 * n.toNat + 2)) := by
  have hbyte : ¬n ≤ 63 := fun h => by rw [UInt64.le_iff_toNat_le] at h; simp at h; omega
  have hword : ¬n ≤ 16383 := fun h => by rw [UInt64.le_iff_toNat_le] at h; simp at h; omega
  have hle : n ≤ 1073741823 := UInt64.le_iff_toNat_le.mpr hn
  rw [writeArraySize, if_neg hbyte, if_neg hword, if_pos hle,
    packVarint_eq (by decide) (by omega) (by decide)]
  rfl

/-! ## What {lit}`readVarint` reads -/

theorem readVarint_run_cons (b : UInt8) (s : Bytes) :
    readVarint.run (b :: s) =
      (((fun value : UInt64 => value >>> 2) <$> readVarintBytes (bytesLeft (b &&& portableRawSizeMarkMask)) 1 b.toUInt64 :
        ByteStream UInt64)).run s :=
  rfl

theorem readVarintBytes_run_zero (i : Nat) (value : UInt64) (s : Bytes) :
    (readVarintBytes 0 i value).run s = .ok (value, s) := rfl

theorem readVarintBytes_run_cons (k i : Nat) (value : UInt64) (n : UInt8) (s : Bytes) :
    (readVarintBytes (k + 1) i value).run (n :: s) =
      (readVarintBytes k (i + 1) (value ||| shiftPromoted n (i * 8))).run s := rfl

/-- The mark of the first byte of a number's memory is the number's two low
bits. -/
theorem mark_toUInt8 (v : Nat) :
    ((v % 256).toUInt8 &&& portableRawSizeMarkMask).toNat = v % 4 := by
  rw [UInt8.toNat_and, toNat_toUInt8_of_lt (Nat.mod_lt v (by decide))]
  show v % 256 &&& 3 = v % 4
  rw [show (3 : Nat) = 2 ^ 2 - 1 by rfl, Nat.and_two_pow_sub_one_eq_mod]
  omega

/-- Or-ing a multiple of {lit}`2 ^ shift` onto a smaller number adds it. -/
theorem or_eq_add_of_dvd {acc x shift : Nat} (hacc : acc < 2 ^ shift) (hx : 2 ^ shift ∣ x) :
    (acc ||| x) = acc + x := by
  obtain ⟨m, rfl⟩ := hx
  rw [show 2 ^ shift * m = m <<< shift by rw [Nat.shiftLeft_eq, Nat.mul_comm],
    or_shiftLeft_eq_add hacc, Nat.shiftLeft_eq, Nat.mul_comm]

/-- One step of the loop of {lit}`readVarint`: the shifted byte lands above
the bytes before it, so the or is a sum. -/
theorem toNat_or_shiftPromoted (acc : UInt64) (n : UInt8) {shift : Nat} (hshift : shift < 32)
    (hacc : acc.toNat < 2 ^ shift) :
    (acc ||| shiftPromoted n shift).toNat = acc.toNat + (shiftPromoted n shift).toNat := by
  have hpow : 2 ^ shift ∣ 2 ^ 32 := Nat.pow_dvd_pow 2 (by omega)
  have hlow : 2 ^ shift ∣ n.toNat * 2 ^ shift % 2 ^ 32 :=
    (Nat.dvd_mod_iff hpow).mpr (Dvd.intro_left _ rfl)
  have hsign : 2 ^ shift ∣ 2 ^ 64 - 2 ^ 32 :=
    Nat.dvd_sub (Nat.dvd_trans hpow (Nat.pow_dvd_pow 2 (by decide))) hpow
  have hdvd : 2 ^ shift ∣ (shiftPromoted n shift).toNat := by
    rw [toNat_shiftPromoted n hshift]
    split
    · exact hlow
    · exact Nat.dvd_add hlow hsign
  rw [UInt64.toNat_or, or_eq_add_of_dvd hacc hdvd]

/-- The last step of {lit}`readVarint`: shifting out the mark divides by
four. -/
theorem shiftRight_two_eq {value : UInt64} {x : Nat} (h : value.toNat = x) :
    value >>> 2 = UInt64.ofNat (x / 4) := by
  have hlt : x / 4 < 2 ^ 64 := by have := value.toNat_lt; omega
  apply UInt64.toNat_inj.mp
  rw [UInt64.toNat_shiftRight, h, UInt64.toNat_ofNat', Nat.mod_eq_of_lt hlt,
    Nat.shiftRight_eq_div_pow]
  rfl

/-- The four-byte mark: the memory of {lit}`v` reads back as {lit}`v / 4`
while its top byte is below {lit}`0x80`, and with the sign extension added
otherwise. -/
theorem readVarint_run_dword {v : Nat} (hv : v < 2 ^ 32) (hmark : v % 4 = 2) (rest : Bytes) :
    readVarint.run (LittleEndian.bytes 4 v ++ rest) =
      .ok (UInt64.ofNat ((if v < 2 ^ 31 then v else v + (2 ^ 64 - 2 ^ 32)) / 4), rest) := by
  have h1 := toNat_toUInt8_of_lt (Nat.mod_lt (v / 256) (show 0 < 256 by decide))
  have h2 := toNat_toUInt8_of_lt (Nat.mod_lt (v / 256 / 256) (show 0 < 256 by decide))
  have h3 := toNat_toUInt8_of_lt (Nat.mod_lt (v / 256 / 256 / 256) (show 0 < 256 by decide))
  have hmask : (v % 256).toUInt8 &&& portableRawSizeMarkMask = portableRawSizeMarkDword := by
    apply UInt8.toNat_inj.mp
    rw [mark_toUInt8, hmark]
    rfl
  -- the value after each byte: the bytes so far, each shifted over the ones
  -- before it, and the sign of the last
  have e0 : ((v % 256).toUInt8.toUInt64).toNat = v % 2 ^ 8 := by
    simp [toNat_toUInt8_of_lt (Nat.mod_lt v (show 0 < 256 by decide))]
  have e1 : ((v % 256).toUInt8.toUInt64 ||| shiftPromoted (v / 256 % 256).toUInt8 8).toNat =
      v % 2 ^ 16 := by
    rw [toNat_or_shiftPromoted _ _ (by decide) (by rw [e0]; omega), e0,
      toNat_shiftPromoted_of_lt _ (by decide) (by rw [h1]; omega), h1]
    omega
  have e2 : ((v % 256).toUInt8.toUInt64 ||| shiftPromoted (v / 256 % 256).toUInt8 8 |||
      shiftPromoted (v / 256 / 256 % 256).toUInt8 16).toNat = v % 2 ^ 24 := by
    rw [toNat_or_shiftPromoted _ _ (by decide) (by rw [e1]; omega), e1,
      toNat_shiftPromoted_of_lt _ (by decide) (by rw [h2]; omega), h2]
    omega
  have e3 : ((v % 256).toUInt8.toUInt64 ||| shiftPromoted (v / 256 % 256).toUInt8 8 |||
      shiftPromoted (v / 256 / 256 % 256).toUInt8 16 |||
      shiftPromoted (v / 256 / 256 / 256 % 256).toUInt8 24).toNat =
      if v < 2 ^ 31 then v else v + (2 ^ 64 - 2 ^ 32) := by
    rw [toNat_or_shiftPromoted _ _ (by decide) (by rw [e2]; omega), e2,
      toNat_shiftPromoted _ (by decide), h3]
    split <;> split <;> omega
  have hresult : ((v % 256).toUInt8.toUInt64 ||| shiftPromoted (v / 256 % 256).toUInt8 8 |||
      shiftPromoted (v / 256 / 256 % 256).toUInt8 16 |||
      shiftPromoted (v / 256 / 256 / 256 % 256).toUInt8 24) >>> 2 =
      UInt64.ofNat ((if v < 2 ^ 31 then v else v + (2 ^ 64 - 2 ^ 32)) / 4) :=
    shiftRight_two_eq e3
  rw [show LittleEndian.bytes 4 v ++ rest = (v % 256).toUInt8 :: (v / 256 % 256).toUInt8 ::
      (v / 256 / 256 % 256).toUInt8 :: (v / 256 / 256 / 256 % 256).toUInt8 :: rest from rfl,
    readVarint_run_cons, hmask, show bytesLeft portableRawSizeMarkDword = 3 from rfl,
    StateT.run_map, readVarintBytes_run_cons, readVarintBytes_run_cons, readVarintBytes_run_cons,
    readVarintBytes_run_zero, ← hresult]
  rfl

/-- The one-byte mark: the memory of {lit}`v` reads back as {lit}`v / 4`. -/
theorem readVarint_run_byte {v : Nat} (hv : v < 2 ^ 8) (hmark : v % 4 = 0) (rest : Bytes) :
    readVarint.run (LittleEndian.bytes 1 v ++ rest) = .ok (UInt64.ofNat (v / 4), rest) := by
  have hmask : (v % 256).toUInt8 &&& portableRawSizeMarkMask = portableRawSizeMarkByte := by
    apply UInt8.toNat_inj.mp
    rw [mark_toUInt8, hmark]
    rfl
  have e0 : ((v % 256).toUInt8.toUInt64).toNat = v := by
    simp [toNat_toUInt8_of_lt (Nat.mod_lt v (show 0 < 256 by decide))]
    omega
  have hresult : (v % 256).toUInt8.toUInt64 >>> 2 = UInt64.ofNat (v / 4) := shiftRight_two_eq e0
  rw [show LittleEndian.bytes 1 v ++ rest = (v % 256).toUInt8 :: rest from rfl,
    readVarint_run_cons, hmask, show bytesLeft portableRawSizeMarkByte = 0 from rfl,
    StateT.run_map, readVarintBytes_run_zero, ← hresult]
  rfl

/-- The two-byte mark: the memory of {lit}`v` reads back as {lit}`v / 4`. -/
theorem readVarint_run_word {v : Nat} (hv : v < 2 ^ 16) (hmark : v % 4 = 1) (rest : Bytes) :
    readVarint.run (LittleEndian.bytes 2 v ++ rest) = .ok (UInt64.ofNat (v / 4), rest) := by
  have h1 := toNat_toUInt8_of_lt (Nat.mod_lt (v / 256) (show 0 < 256 by decide))
  have hmask : (v % 256).toUInt8 &&& portableRawSizeMarkMask = portableRawSizeMarkWord := by
    apply UInt8.toNat_inj.mp
    rw [mark_toUInt8, hmark]
    rfl
  have e0 : ((v % 256).toUInt8.toUInt64).toNat = v % 2 ^ 8 := by
    simp [toNat_toUInt8_of_lt (Nat.mod_lt v (show 0 < 256 by decide))]
  have e1 : ((v % 256).toUInt8.toUInt64 ||| shiftPromoted (v / 256 % 256).toUInt8 8).toNat = v := by
    rw [toNat_or_shiftPromoted _ _ (by decide) (by rw [e0]; omega), e0,
      toNat_shiftPromoted_of_lt _ (by decide) (by rw [h1]; omega), h1]
    omega
  have hresult : ((v % 256).toUInt8.toUInt64 ||| shiftPromoted (v / 256 % 256).toUInt8 8) >>> 2 =
      UInt64.ofNat (v / 4) := shiftRight_two_eq e1
  rw [show LittleEndian.bytes 2 v ++ rest = (v % 256).toUInt8 :: (v / 256 % 256).toUInt8 :: rest
      from rfl,
    readVarint_run_cons, hmask, show bytesLeft portableRawSizeMarkWord = 1 from rfl,
    StateT.run_map, readVarintBytes_run_cons, readVarintBytes_run_zero, ← hresult]
  rfl

/-! ## Sizes that read back and sizes that do not -/

theorem ofNat_eq_of_toNat {n : UInt64} {x : Nat} (h : x = n.toNat) : UInt64.ofNat x = n := by
  rw [h, UInt64.ofNat_toNat]

/-- Every size below {lit}`2^29` reads back, whichever mark it is written
with. -/
theorem readVarint_writeArraySize_of_lt (n : UInt64) (hn : n.toNat < 2 ^ 29) :
    ∃ bytes, writeArraySize n = .ok bytes ∧
      ∀ rest, readVarint.run (bytes ++ rest) = .ok (n, rest) := by
  rcases Nat.lt_or_ge 63 n.toNat with hbyte | hbyte
  · rcases Nat.lt_or_ge 16383 n.toNat with hword | hword
    · refine ⟨_, writeArraySize_of_le_dword hword (by omega), fun rest => ?_⟩
      rw [readVarint_run_dword (by omega) (by omega), if_pos (by omega),
        ofNat_eq_of_toNat (show (4 * n.toNat + 2) / 4 = n.toNat by omega)]
    · refine ⟨_, writeArraySize_of_le_word hbyte hword, fun rest => ?_⟩
      rw [readVarint_run_word (by omega) (by omega),
        ofNat_eq_of_toNat (show (4 * n.toNat + 1) / 4 = n.toNat by omega)]
  · refine ⟨_, writeArraySize_of_le_byte hbyte, fun rest => ?_⟩
    rw [readVarint_run_byte (by omega) (by omega),
      ofNat_eq_of_toNat (show 4 * n.toNat / 4 = n.toNat by omega)]

/-- A size of {lit}`2^29` or more, written with the four-byte mark, reads back
as itself plus {lit}`2^62 - 2^30`: its top byte is at least {lit}`0x80`. -/
theorem readVarint_writeArraySize_of_ge (n : UInt64) (hlow : 2 ^ 29 ≤ n.toNat)
    (hn : n.toNat < 2 ^ 30) :
    ∃ bytes, writeArraySize n = .ok bytes ∧
      ∀ rest, readVarint.run (bytes ++ rest) =
        .ok (UInt64.ofNat (n.toNat + (2 ^ 62 - 2 ^ 30)), rest) := by
  refine ⟨_, writeArraySize_of_le_dword (by omega) (by omega), fun rest => ?_⟩
  rw [readVarint_run_dword (by omega) (by omega), if_neg (by omega)]
  congr 3
  omega

/-! ## A long string in a stored section -/

open KVBinaryOutputStreamSerializer in
/-- A section of one string entry: the header, a count of one, the name, the
type, the size and the bytes. -/
theorem string_dump {name value sizeBytes : Bytes} (hname : name ≠ [] ∧ name.length ≤ 255)
    (hsize : writeArraySize (UInt64.ofNat value.length) = .ok sizeBytes) :
    (do let s ← new; let s ← s.string value name; s.dump) =
      .ok (KVBinaryStorageBlockHeader.current.bytes ++ [4] ++
        (name.length.toUInt8 :: name ++ [binKvSerializeTypeString] ++ sizeBytes ++ value)) := by
  have hlong : ¬name.length > 255 := by omega
  have hcount : writeArraySize 1 = .ok [4] := rfl
  simp [new, beginObject, checkArrayPreamble, string, writeElementPrefix, writeElementName,
    hname.1, hlong, hsize, hcount, write, dump]

/-- After the current storage header, the parse loads the root section with fuel
for the rest of the input. -/
theorem parseBinary_run_current (rest : Bytes) :
    parseBinary.run (KVBinaryStorageBlockHeader.current.bytes ++ rest) =
      (loadSection (3 * (9 + rest.length) + 3)).run rest := by
  have hheader : KVBinaryStorageBlockHeader.ofBytes KVBinaryStorageBlockHeader.current.bytes =
      KVBinaryStorageBlockHeader.current := by decide
  have hread := readBytes_run_append KVBinaryStorageBlockHeader.current.bytes rest
  rw [show KVBinaryStorageBlockHeader.current.bytes.length = 9 from rfl] at hread
  show (readBytes 9 >>= _).run _ = _
  rw [run_bind_of_ok hread, List.length_append,
    show KVBinaryStorageBlockHeader.current.bytes.length = 9 from rfl]
  simp only [hheader]
  rfl

/-- A name of one to 255 bytes is read back after its length byte. -/
theorem readName_run {name : Bytes} (hname : name ≠ [] ∧ name.length ≤ 255) (old rest : Bytes) :
    (readName old).run (name.length.toUInt8 :: (name ++ rest)) = .ok (name, rest) := by
  have hlength : name.length.toUInt8.toNat = name.length := toNat_toUInt8_of_lt (by omega)
  have hne : name.length.toUInt8 ≠ 0 := by
    intro h
    rw [h] at hlength
    exact hname.1 (List.length_eq_zero_iff.mp hlength.symm)
  show (Reader.readByte >>= _).run _ = _
  rw [run_bind_of_ok rfl, if_pos hne, hlength, readBytes_run_append]

/-- A size larger than what is left fails {lit}`readString`. -/
theorem readString_run_of_lt {s rest : Bytes} {size : UInt64}
    (hsize : readVarint.run s = .ok (size, rest)) (hshort : rest.length < size.toNat) :
    readString.run s = .error "Failed to read from IInputStream" := by
  have hne : size ≠ 0 := by
    rintro rfl
    simp at hshort
  show (readVarint >>= _).run _ = _
  rw [run_bind_of_ok hsize, if_pos hne]
  simp [readBytes, StateT.run, Nat.not_le_of_lt hshort]

/-- An entry of type string without the array flag is a value of that type. -/
theorem loadEntry_run_string (fuel : Nat) (rest : Bytes) :
    (loadEntry (fuel + 1)).run (binKvSerializeTypeString :: rest) =
      (loadValue fuel binKvSerializeTypeString).run rest := by
  rw [loadEntry.eq_2]
  show (Reader.readByte >>= _).run _ = _
  rw [run_bind_of_ok rfl]
  rfl

/-- A value of the string type is read as a string. -/
theorem loadValue_run_string (fuel : Nat) (rest : Bytes) :
    (loadValue (fuel + 1) binKvSerializeTypeString).run rest =
      (readString >>= fun v => pure (JsonValue.string v)).run rest := by
  rw [loadValue.eq_2]
  simp only [binKvSerializeTypeString, binKvSerializeTypeInt64, binKvSerializeTypeInt32,
    binKvSerializeTypeInt16, binKvSerializeTypeInt8, binKvSerializeTypeUint64,
    binKvSerializeTypeUint32, binKvSerializeTypeUint16, binKvSerializeTypeUint8,
    binKvSerializeTypeDouble, binKvSerializeTypeBool]
  simp

/-- A section of one member is that member's entry under its name, or the
entry's error. -/
theorem loadSection_run_one {name : Bytes} (hname : name ≠ [] ∧ name.length ≤ 255)
    (fuel : Nat) (rest : Bytes) :
    (loadSection (fuel + 3)).run (4 :: name.length.toUInt8 :: (name ++ rest)) =
      ((loadEntry (fuel + 1)).run rest).map fun (v, rest') => (.object [(name, v)], rest') := by
  have hcount : readVarint.run (4 :: name.length.toUInt8 :: (name ++ rest)) =
      .ok (1, name.length.toUInt8 :: (name ++ rest)) :=
    readVarint_run_byte (v := 4) (by decide) (by decide) _
  rw [loadSection.eq_2]
  show (readVarint >>= _).run _ = _
  rw [run_bind_of_ok hcount, show (1 : UInt64).toNat = 0 + 1 from rfl]
  cases hentry : (loadEntry (fuel + 1)).run rest with
  | error e =>
    apply run_bind_of_error
    rw [loadMembers.eq_3]
    show (readName [] >>= _).run _ = _
    rw [run_bind_of_ok (readName_run hname [] rest)]
    exact run_bind_of_error hentry
  | ok r =>
    obtain ⟨v, rest'⟩ := r
    have hmembers : (loadMembers (fuel + 2) (0 + 1) [] []).run
        (name.length.toUInt8 :: (name ++ rest)) = .ok ([(name, v)], rest') := by
      rw [loadMembers.eq_3]
      show (readName [] >>= _).run _ = _
      rw [run_bind_of_ok (readName_run hname [] rest), run_bind_of_ok hentry, loadMembers.eq_2]
      rfl
    rw [run_bind_of_ok hmembers]
    rfl

/-- A size that reads back as the value's length reads the value back. -/
theorem readString_run {sizeBytes value : Bytes}
    (hsize : ∀ rest, readVarint.run (sizeBytes ++ rest) = .ok (UInt64.ofNat value.length, rest))
    (hlength : value.length < 2 ^ 64) (rest : Bytes) :
    readString.run (sizeBytes ++ value ++ rest) = .ok (value, rest) := by
  have htoNat : (UInt64.ofNat value.length).toNat = value.length := by
    rw [UInt64.toNat_ofNat', Nat.mod_eq_of_lt hlength]
  show (readVarint >>= _).run _ = _
  rw [List.append_assoc, run_bind_of_ok (hsize (value ++ rest))]
  by_cases hempty : value = []
  · subst hempty
    rfl
  · have hne : UInt64.ofNat value.length ≠ 0 := by
      intro h
      rw [h] at htoNat
      exact hempty (List.length_eq_zero_iff.mp htoNat.symm)
    rw [if_pos hne, htoNat, readBytes_run_append]

/-- The dump of one string member, read back: the string value under its name. -/
theorem parseBinary_run_string_member {name : Bytes} (hname : name ≠ [] ∧ name.length ≤ 255)
    (sizeBytes value : Bytes) :
    parseBinary.run (KVBinaryStorageBlockHeader.current.bytes ++ [4] ++
        (name.length.toUInt8 :: name ++ [binKvSerializeTypeString] ++ sizeBytes ++ value)) =
      ((readString >>= fun v => pure (JsonValue.string v)).run (sizeBytes ++ value)).map
        fun (v, rest) => (.object [(name, v)], rest) := by
  -- the fuel of the whole input is more than the three levels the member needs
  obtain ⟨fuel, hfuel⟩ : ∃ fuel, 3 * (9 + ([4] ++ (name.length.toUInt8 :: name ++
      [binKvSerializeTypeString] ++ sizeBytes ++ value)).length) + 3 = fuel + 4 :=
    Nat.exists_eq_add_of_le' (m := 4) (by omega)
  rw [List.append_assoc, parseBinary_run_current, hfuel, show fuel + 4 = fuel + 1 + 3 from rfl]
  simp only [List.append_assoc, List.cons_append, List.nil_append]
  rw [loadSection_run_one hname, loadEntry_run_string (fuel + 1), loadValue_run_string]

open KVBinaryOutputStreamSerializer in
/-- A string member of at least 2^29 bytes is dumped, but its size does not read
back: the size word's top byte is sign-extended, so the reader asks for more
bytes than there are. -/
theorem parseBinary_dump_string (name value : Bytes) (hname : name ≠ [] ∧ name.length ≤ 255)
    (hvalue : 2 ^ 29 ≤ value.length ∧ value.length < 2 ^ 30) :
    ∃ bytes, (do let s ← new; let s ← s.string value name; s.dump) = .ok bytes ∧
      ∃ e, parseBinary.run bytes = .error e := by
  have hsize : (UInt64.ofNat value.length).toNat = value.length :=
    UInt64.toNat_ofNat_of_lt' (by unfold UInt64.size; omega)
  obtain ⟨sizeBytes, hwrite, hread⟩ :=
    readVarint_writeArraySize_of_ge (UInt64.ofNat value.length) (by omega) (by omega)
  have hstring : readString.run (sizeBytes ++ value) = .error "Failed to read from IInputStream" := by
    apply readString_run_of_lt (hread value)
    have hhuge : (UInt64.ofNat (value.length + (2 ^ 62 - 2 ^ 30))).toNat =
        value.length + (2 ^ 62 - 2 ^ 30) := UInt64.toNat_ofNat_of_lt' (by unfold UInt64.size; omega)
    rw [hsize, hhuge]
    omega
  have hparse := parseBinary_run_string_member hname sizeBytes value
  refine ⟨_, string_dump hname hwrite, "Failed to read from IInputStream", ?_⟩
  rw [hparse, run_bind_of_error hstring]
  rfl

open KVBinaryOutputStreamSerializer in
/-- A string of {lit}`2 ^ 29` bytes is dumped, and the parse of the dump fails. -/
theorem parseBinary_dump_string_large :
    ([115] ≠ [] ∧ [115].length ≤ 255) ∧
      (2 ^ 29 ≤ (List.replicate 536870912 (0 : UInt8)).length ∧
        (List.replicate 536870912 (0 : UInt8)).length < 2 ^ 30) ∧
      ∃ bytes, (do let s ← new; let s ← s.string (List.replicate 536870912 0) [115]; s.dump) =
        .ok bytes ∧ ∃ e, parseBinary.run bytes = .error e :=
  have hlength : (List.replicate 536870912 (0 : UInt8)).length = 536870912 :=
    List.length_replicate
  ⟨⟨by decide, by decide⟩, by rw [hlength]; decide,
    parseBinary_dump_string [115] (List.replicate 536870912 0) ⟨by decide, by decide⟩
      (by rw [hlength]; decide)⟩

open KVBinaryOutputStreamSerializer in
/-- Below 2^29 bytes a string member reads back as it was written. -/
theorem parseBinary_dump_string_of_lt (name value : Bytes) (hname : name ≠ [] ∧ name.length ≤ 255)
    (hvalue : value.length < 2 ^ 29) :
    ∃ bytes, (do let s ← new; let s ← s.string value name; s.dump) = .ok bytes ∧
      parseBinary.run bytes = .ok (.object [(name, .string value)], []) := by
  have hsize : (UInt64.ofNat value.length).toNat = value.length :=
    UInt64.toNat_ofNat_of_lt' (by unfold UInt64.size; omega)
  obtain ⟨sizeBytes, hwrite, hread⟩ :=
    readVarint_writeArraySize_of_lt (UInt64.ofNat value.length) (by rw [hsize]; exact hvalue)
  have hstring : readString.run (sizeBytes ++ value) = .ok (value, []) := by
    simpa using readString_run hread (by omega) []
  have hparse := parseBinary_run_string_member hname sizeBytes value
  refine ⟨_, string_dump hname hwrite, ?_⟩
  rw [hparse, run_bind_of_ok hstring]
  rfl

open KVBinaryOutputStreamSerializer in
/-- An object of one string member comes back from its dump. -/
theorem parseBinary_dump_string_of_lt_hello :
    ([107] ≠ [] ∧ [107].length ≤ 255) ∧ [104, 105].length < 2 ^ 29 ∧
      ∃ bytes, (do let s ← new; let s ← s.string [104, 105] [107]; s.dump) = .ok bytes ∧
        parseBinary.run bytes = .ok (.object [([107], .string [104, 105])], []) :=
  ⟨⟨by decide, by decide⟩, by decide,
    parseBinary_dump_string_of_lt [107] [104, 105] ⟨by decide, by decide⟩ (by decide)⟩

end KVBinary

end CryptoNote

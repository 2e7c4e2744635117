/-!
# QueryDigest.Source

A query text beside a padded copy of its bytes. The copy ends in zero bytes, at least three of
them, so the byte at a position and the two after it can be read anywhere up to the end of the
text without asking for its length first.

The padded size is computed in 64-bit words, by masking off the low bits, and in numbers where a
size is too large for that. `toNat_paddedSizeWord` says that no word wraps for a size below
`2 ^ 63`, so both come to the same (`paddedSize_eq`). `byte?_eq_zero` says that past the text only
zeros are read, and `exists_byte?` that up to two bytes past its end there is one to read.
-/

namespace QueryDigest

/-- The size of the padded copy of `n` bytes, in words: a multiple of 64 with room for three bytes
more. -/
def paddedSizeWord (n : UInt64) : UInt64 :=
  (n + 3 + 63) &&& ~~~63

/-- The size of the padded copy of `n` bytes. -/
def paddedSize (n : Nat) : Nat :=
  if n < 0x8000000000000000 then (paddedSizeWord n.toUInt64).toNat else (n + 3 + 63) / 64 * 64

/-- `n` zero bytes. -/
def zeroBytes (n : Nat) : ByteArray :=
  ⟨Array.replicate n 0⟩

/-- The bytes, then zeros up to the padded size. -/
def pad (bytes : ByteArray) : ByteArray :=
  bytes ++ zeroBytes (paddedSize bytes.size - bytes.size)

/-- A query text, its UTF-8 bytes and their padded copy. -/
structure Source where
  text : String
  bytes : ByteArray
  padded : ByteArray
  bytes_eq : bytes = text.toByteArray
  padded_eq : padded = pad bytes

namespace Source

/-- The source of a text. -/
def ofText (text : String) : Source where
  text := text
  bytes := text.toByteArray
  padded := pad text.toByteArray
  bytes_eq := rfl
  padded_eq := rfl

/-- The length of the text in bytes. -/
def size (s : Source) : Nat :=
  s.text.utf8ByteSize

/-- Does the text hold no byte? -/
def isEmpty (s : Source) : Bool :=
  s.size == 0

/-- Does nothing but zeros follow the text in the padded copy? -/
def paddingIsZero (s : Source) : Bool :=
  (s.padded.extract s.size s.padded.size).data.all (· == 0)

/-- The byte at position `i` of the padded copy; `none` outside it. -/
def byte? (s : Source) (i : Nat) : Option UInt8 :=
  if h : i < s.padded.size then some s.padded[i] else none

@[simp] theorem size_bytes (s : Source) : s.bytes.size = s.size := by
  rw [s.bytes_eq, size, String.size_toByteArray]

end Source

/-! ## The padded size -/

theorem getElem_mask : ∀ i : Fin 64, (63#64)[i] = decide (i.val < 6) := by
  decide

/-- Masking off the low six bits is shifting them out and zeros in. -/
theorem and_not_mask (x : BitVec 64) : x &&& ~~~63#64 = (x >>> 6) <<< 6 := by
  ext i hi
  have hm : (63#64)[i] = decide (i < 6) := getElem_mask ⟨i, hi⟩
  simp only [BitVec.getElem_and, BitVec.getElem_not, BitVec.getElem_shiftLeft,
    BitVec.getElem_ushiftRight, hm]
  by_cases h : i < 6
  · simp [h]
  · simp [h, show 6 + (i - 6) = i by omega, BitVec.getLsbD_eq_getElem hi]

theorem toNat_and_not_mask (x : UInt64) : (x &&& ~~~63).toNat = x.toNat / 64 * 64 := by
  have hmask := congrArg BitVec.toNat (and_not_mask x.toBitVec)
  simp only [BitVec.toNat_shiftLeft, BitVec.toNat_ushiftRight] at hmask
  have hx := x.toNat_lt
  rw [← UInt64.toNat_toBitVec, UInt64.toBitVec_and, UInt64.toBitVec_not]
  show (x.toBitVec &&& ~~~63#64).toNat = _
  rw [hmask]
  simp [Nat.shiftLeft_eq, Nat.shiftRight_eq_div_pow]
  omega

/-- No word wraps for a size below `2 ^ 63`. -/
theorem toNat_paddedSizeWord {n : Nat} (h : n < 0x8000000000000000) :
    (paddedSizeWord n.toUInt64).toNat = (n + 66) / 64 * 64 := by
  rw [paddedSizeWord, toNat_and_not_mask]
  simp
  omega

/-- The padded size in numbers. -/
theorem paddedSize_eq (n : Nat) : paddedSize n = (n + 66) / 64 * 64 := by
  unfold paddedSize
  split
  · exact toNat_paddedSizeWord (by assumption)
  · rfl

/-- The padded copy has room for the byte at the end of the text and two more. -/
theorem add_three_le_paddedSize (n : Nat) : n + 3 ≤ paddedSize n := by
  rw [paddedSize_eq]
  omega

/-! ## Reading the padded copy -/

@[simp] theorem size_zeroBytes (n : Nat) : (zeroBytes n).size = n := by
  simp [zeroBytes, ByteArray.size]

@[simp] theorem size_pad (bytes : ByteArray) : (pad bytes).size = paddedSize bytes.size := by
  have := add_three_le_paddedSize bytes.size
  simp [pad]
  omega

namespace Source

theorem size_padded (s : Source) : s.padded.size = paddedSize s.size := by
  rw [s.padded_eq, size_pad, size_bytes]

/-- Past the text, every byte that can be read is zero. -/
theorem byte?_eq_zero {s : Source} {i : Nat} {b : UInt8} (hi : s.size ≤ i)
    (h : s.byte? i = some b) : b = 0 := by
  obtain ⟨text, bytes, padded, rfl, rfl⟩ := s
  simp only [byte?, Option.dite_none_right_eq_some, Option.some.injEq] at h
  obtain ⟨hlt, rfl⟩ := h
  have hs : text.toByteArray.size ≤ i := by simpa [size] using hi
  rw [show (pad text.toByteArray)[i] = _ from ByteArray.getElem_append_right hs]
  simp [zeroBytes, ByteArray.getElem_eq_getElem_data]

/-- A byte of the padded copy is read as it is. -/
theorem byte?_of_lt {s : Source} {i : Nat} (h : i < s.padded.size) :
    s.byte? i = some s.padded[i] :=
  dif_pos h

/-- Up to two bytes behind the end of the text there is a byte to read, and from the end on it is
zero. -/
theorem exists_byte? (s : Source) {i : Nat} (h : i ≤ s.size + 2) :
    ∃ b, s.byte? i = some b ∧ (s.size ≤ i → b = 0) := by
  have hroom := add_three_le_paddedSize s.size
  have hread := s.byte?_of_lt (i := i) (by rw [size_padded]; omega)
  exact ⟨_, hread, fun hend => byte?_eq_zero hend hread⟩

/-- Inside the text, the byte read is the text's. -/
theorem byte?_eq_bytes {s : Source} {i : Nat} (hi : i < s.bytes.size) :
    s.byte? i = some s.bytes[i] := by
  obtain ⟨text, bytes, padded, rfl, rfl⟩ := s
  have hlt : i < (pad text.toByteArray).size := by
    have hroom := add_three_le_paddedSize text.toByteArray.size
    have hin : i < text.toByteArray.size := hi
    rw [size_pad]
    omega
  simp only [byte?, hlt, dite_true, Option.some.injEq]
  exact ByteArray.getElem_append_left hi

end Source

end QueryDigest

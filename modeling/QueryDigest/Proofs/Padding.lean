import Mathlib.Order.Bounds.Defs
import QueryDigest.Cursor

/-!
# QueryDigest.Proofs.Padding

The room behind a text. The size of the padded copy is worked out in 64-bit words, where a sum that
is too large wraps. `checkedPaddedSize?` works it out with each sum and each difference checked:
`checkedPaddedSize?_eq` says for which sizes none of them wraps, and those below `2 ^ 63` are among
them. What comes out is the least multiple of 64 with three bytes of room (`isLeast_paddedSize`), so
behind the text there are zeros for every read ahead, and not a line of 64 too many
(`padded_room`).
-/

namespace QueryDigest

/-! ## The size in words -/

namespace Word

/-- The sum of two words; none if it wraps. -/
def add? (a b : UInt64) : Option UInt64 :=
  if a.toNat + b.toNat < UInt64.size then some (a + b) else none

/-- The difference of two words; none if it wraps. -/
def sub? (a b : UInt64) : Option UInt64 :=
  if b.toNat ≤ a.toNat then some (a - b) else none

variable {a b : UInt64}

theorem toNat_add_of_lt (h : a.toNat + b.toNat < UInt64.size) :
    (a + b).toNat = a.toNat + b.toNat := by
  rw [UInt64.toNat_add]
  exact Nat.mod_eq_of_lt h

theorem add?_of_lt (h : a.toNat + b.toNat < UInt64.size) : add? a b = some (a + b) :=
  if_pos h

theorem add?_of_le (h : UInt64.size ≤ a.toNat + b.toNat) : add? a b = none :=
  if_neg (Nat.not_lt.2 h)

theorem sub?_of_le (h : b.toNat ≤ a.toNat) : sub? a b = some (a - b) :=
  if_pos h

end Word

/-- The padded size of `n` bytes from three bytes more and a line of 64, one sum or difference after
the other; none if one of them wraps. -/
def checkedPaddedSize? (n : UInt64) : Option UInt64 := do
  let withReserve ← Word.add? n 3
  let withLine ← Word.add? withReserve 64
  let last ← Word.sub? withLine 1
  let mask ← Word.sub? 64 1
  some (last &&& ~~~mask)

/-- The largest sum is 67 more than the size. Where it is a word, nothing wraps. -/
theorem checkedPaddedSize?_eq (n : UInt64) : checkedPaddedSize? n =
    if n.toNat + 67 < UInt64.size then some (paddedSizeWord n) else none := by
  unfold checkedPaddedSize?
  simp only [Option.bind_eq_bind]
  -- only the two sums can wrap: behind them there is enough to take one away
  by_cases hreserve : n.toNat + (3 : UInt64).toNat < UInt64.size
  · rw [Word.add?_of_lt hreserve, Option.bind_some]
    have hsum : (n + 3).toNat + (64 : UInt64).toNat = n.toNat + 67 := by
      rw [Word.toNat_add_of_lt hreserve]
      rfl
    by_cases hline : n.toNat + 67 < UInt64.size
    · have hin : (n + 3).toNat + (64 : UInt64).toNat < UInt64.size := by rwa [hsum]
      have hback : (1 : UInt64).toNat ≤ (n + 3 + 64).toNat := by
        rw [Word.toNat_add_of_lt hin, hsum]
        exact Nat.le_add_left 1 _
      have hlast : n + 3 + 64 - 1 = n + 3 + 63 := by
        rw [show (64 : UInt64) = 63 + 1 from rfl, ← UInt64.add_assoc, UInt64.add_sub_cancel]
      have hmask : Word.sub? 64 1 = some 63 := rfl
      rw [Word.add?_of_lt hin, Option.bind_some, Word.sub?_of_le hback, Option.bind_some, hmask,
        Option.bind_some, hlast, if_pos hline]
      rfl
    · rw [Word.add?_of_le (by omega), Option.bind_none, if_neg hline]
  · have h3 : (3 : UInt64).toNat = 3 := rfl
    rw [Word.add?_of_le (by omega), Option.bind_none, if_neg (by omega)]

/-- The largest size below `2 ^ 63`. -/
example : checkedPaddedSize? 0x7fffffffffffffff = some 0x8000000000000040 := by
  decide

/-- The padded size is the least one that will do. -/
theorem isLeast_paddedSize (n : Nat) : IsLeast {m | 64 ∣ m ∧ n + 3 ≤ m} (paddedSize n) := by
  constructor
  · refine ⟨?_, add_three_le_paddedSize n⟩
    rw [paddedSize_eq]
    exact Nat.dvd_mul_left _ _
  · rintro m ⟨⟨lines, rfl⟩, hroom⟩
    have hlines : (n + 66) / 64 ≤ lines := by omega
    rw [paddedSize_eq, Nat.mul_comm]
    exact Nat.mul_le_mul_left 64 hlines

/-! ## The bytes -/

namespace Source

/-- The padded copy begins with the text. -/
theorem extract_padded (s : Source) : s.padded.extract 0 s.size = s.text.toByteArray := by
  rw [s.padded_eq, s.bytes_eq, pad, size, ← String.size_toByteArray]
  exact ByteArray.extract_append_eq_left rfl

/-- A text shorter than `2 ^ 63` bytes is padded to the least multiple of 64 that leaves three bytes
of room, and no sum or difference on the way to it wraps. The text comes first and zeros follow, so
a cursor up to the end of the text can read where it stands and the two bytes behind. -/
theorem padded_room (s : Source) (h : s.size ≤ 0x7fffffffffffffff) :
    s.size.toUInt64.toNat = s.size ∧
      checkedPaddedSize? s.size.toUInt64 = some (paddedSizeWord s.size.toUInt64) ∧
      IsLeast {m | 64 ∣ m ∧ s.size + 3 ≤ m} (paddedSizeWord s.size.toUInt64).toNat ∧
      s.padded.size = (paddedSizeWord s.size.toUInt64).toNat ∧
      s.padded.extract 0 s.size = s.text.toByteArray ∧
      (∀ i (hi : i < s.padded.size), s.size ≤ i → s.padded[i] = 0) ∧
      ∀ c : Cursor, c.source = s → c.pos ≤ s.size →
        (∃ b, c.current? = some b ∧ (s.size ≤ c.pos → b = 0)) ∧
        (∃ b, c.peek? = some b ∧ (s.size ≤ c.pos + 1 → b = 0)) ∧
        ∃ b, c.peek2? = some b ∧ (s.size ≤ c.pos + 2 → b = 0) := by
  have hlimit : UInt64.size = 0x10000000000000000 := rfl
  have hword : s.size.toUInt64.toNat = s.size :=
    UInt64.toNat_ofNat_of_lt' (by omega)
  have hsize : paddedSize s.size = (paddedSizeWord s.size.toUInt64).toNat :=
    if_pos (Nat.lt_succ_of_le h)
  refine ⟨hword, ?_, ?_, ?_, s.extract_padded, ?_, ?_⟩
  · rw [checkedPaddedSize?_eq, hword, if_pos (by omega)]
  · rw [← hsize]
    exact isLeast_paddedSize s.size
  · rw [size_padded, hsize]
  · intro i hi hend
    exact byte?_eq_zero hend (byte?_of_lt hi)
  · rintro c rfl hpos
    exact ⟨c.source.exists_byte? (by omega), c.source.exists_byte? (by omega),
      c.source.exists_byte? (by omega)⟩

/-- A text of 62 bytes, one more than a line of 64 has room for, with a zero byte in it. -/
theorem padded_room_next_line : ∃ s : Source,
    s.text = "SELECT 'café\x00' FROM menu WHERE price < 1000 AND place = 'bar'" ∧
      s.size = 62 ∧ s.padded.size = 128 ∧
      checkedPaddedSize? 62 = some 128 ∧ IsLeast {m | 64 ∣ m ∧ 62 + 3 ≤ m} 128 ∧
      s.padded.extract 0 62 = s.text.toByteArray ∧
      ∃ b, (Cursor.mk s 62).peek2? = some b ∧ b = 0 := by
  refine ⟨.ofText _, rfl, ?_⟩
  generalize hs : Source.ofText _ = s
  have hsize : s.size = 62 := by
    subst hs
    decide +kernel
  have hword : paddedSizeWord (Nat.toUInt64 62) = 128 := by decide
  obtain ⟨-, hchecked, hleast, hpadded, htext, -, hreads⟩ :=
    padded_room s (by rw [hsize]; decide)
  rw [hsize, hword] at hchecked hleast hpadded
  rw [hsize] at htext
  obtain ⟨-, -, b, hb, hzero⟩ := hreads ⟨s, 62⟩ rfl (Nat.le_of_eq hsize.symm)
  exact ⟨hsize, hpadded, hchecked, hleast, htext, b, hb, hzero (hsize ▸ Nat.le_add_right 62 2)⟩

end Source
end QueryDigest

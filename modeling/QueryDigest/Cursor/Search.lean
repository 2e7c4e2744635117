import QueryDigest.Bytes
import QueryDigest.Cursor

/-!
# QueryDigest.Cursor.Search

Moving a cursor to the next place of a kind: a byte, the end of a line, a quote or backslash, the
end of a block comment. A search looks at the bytes of the text from the cursor on, never at the
padding. Found, the cursor stands there; not found, it stands at the end of the text, also when
it started past it.

The lemmas at the end bound where a search leaves the cursor.
-/

namespace QueryDigest
namespace Cursor

/-- The cursor at the first byte from where it stands that satisfies `p`, and that byte; or at
the end of the text. -/
def seek (p : UInt8 → Bool) (c : Cursor) : Cursor × Option UInt8 :=
  match c.source.bytes.findIdx? p c.pos with
  | some i => ({ c with pos := i }, c.source.bytes[i]?)
  | none => (c.toEnd, none)

/-- The cursor at the next CR or LF, or at the end. -/
def toLineEnd (c : Cursor) : Cursor :=
  (c.seek fun b => b == '\r'.toUInt8 || b == '\n'.toUInt8).1

/-- The cursor at the next `quote` or backslash, with the byte found. -/
def toQuoteOrBackslash (quote : UInt8) (c : Cursor) : Cursor × Option UInt8 :=
  c.seek fun b => b == quote || b == '\\'.toUInt8

/-- The cursor at the next byte `b`, and whether there is one. -/
def toByte (b : UInt8) (c : Cursor) : Cursor × Bool :=
  ((c.seek (· == b)).1, (c.seek (· == b)).2.isSome)

/-- The cursor past the next `*/`, and whether there is one. -/
def pastBlockComment (c : Cursor) : Cursor × Bool :=
  match Bytes.findPair? c.source.bytes '*'.toUInt8 '/'.toUInt8 c.pos with
  | some i => ({ c with pos := i + 2 }, true)
  | none => (c.toEnd, false)

/-! ## Where a search ends -/

/-- Skipping never moves back. -/
theorem skipWhile?_eq {p : UInt8 → Bool} {c c' : Cursor} (h : c.skipWhile? p = some c') :
    c'.source = c.source ∧ c.pos ≤ c'.pos := by
  simp only [skipWhile?, Option.map_eq_some_iff] at h
  obtain ⟨i, hi, rfl⟩ := h
  exact ⟨rfl, (Bytes.findIdx?_eq_some_iff.1 hi).1⟩

@[simp] theorem source_seek (p : UInt8 → Bool) (c : Cursor) : (c.seek p).1.source = c.source := by
  unfold seek
  split <;> rfl

/-- A search that finds stops inside the text, no earlier than it started, on the byte found. -/
theorem of_seek_eq_some {p : UInt8 → Bool} {c c' : Cursor} {b : UInt8}
    (h : c.seek p = (c', some b)) :
    c'.source = c.source ∧ c.pos ≤ c'.pos ∧ c'.pos < c.source.size ∧ p b = true ∧
      c'.current? = some b := by
  unfold seek at h
  split at h
  · rename_i i hi
    obtain ⟨hle, ⟨hlt, hp⟩, _⟩ := Bytes.findIdx?_eq_some_iff.1 hi
    rw [getElem?_pos c.source.bytes i hlt] at h
    cases h
    exact ⟨rfl, hle, by simpa using hlt, hp, Source.byte?_eq_bytes hlt⟩
  · cases h

/-- A search that finds nothing stops at the end of the text. -/
theorem of_seek_eq_none {p : UInt8 → Bool} {c c' : Cursor} (h : c.seek p = (c', none)) :
    c' = c.toEnd := by
  unfold seek at h
  split at h
  · rename_i i hi
    obtain ⟨_, ⟨hlt, _⟩, _⟩ := Bytes.findIdx?_eq_some_iff.1 hi
    rw [getElem?_pos c.source.bytes i hlt] at h
    cases h
  · cases h
    rfl

/-- From inside the text a search never moves back and never leaves the text. -/
theorem pos_seek (p : UInt8 → Bool) (c : Cursor) (h : c.pos ≤ c.source.size) :
    c.pos ≤ (c.seek p).1.pos ∧ (c.seek p).1.pos ≤ c.source.size := by
  rcases hs : c.seek p with ⟨c', _ | b⟩
  · rw [of_seek_eq_none hs]
    exact ⟨h, Nat.le_refl _⟩
  · have := of_seek_eq_some hs
    dsimp only
    omega

@[simp] theorem source_pastBlockComment (c : Cursor) : c.pastBlockComment.1.source = c.source := by
  unfold pastBlockComment
  split <;> rfl

/-- Past the end of a block comment the cursor is at least two bytes further on, and still in the
text. -/
theorem pos_pastBlockComment {c : Cursor} (h : c.pastBlockComment.2 = true) :
    c.pos + 2 ≤ c.pastBlockComment.1.pos ∧ c.pastBlockComment.1.pos ≤ c.source.size := by
  unfold pastBlockComment at h ⊢
  split at h
  · rename_i i hi
    obtain ⟨hle, ⟨hlt, _⟩, _⟩ := Bytes.findPair?_eq_some_iff.1 hi
    rw [Source.size_bytes] at hlt
    dsimp only
    omega
  · cases h

end Cursor
end QueryDigest

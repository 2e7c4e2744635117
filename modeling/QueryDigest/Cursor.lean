import QueryDigest.Source

/-!
# QueryDigest.Cursor

A position in a padded query text. Moving is free: a cursor may stand anywhere. Reading is not:
a read outside the padded copy has no answer (`none`), and every function here that reads says
so in its type. Cut-out pieces of the text are whole characters; a range that would split one,
or that is no range of the text at all, gives none (`slice?`).

A cursor is at the end when it reads a zero byte at or past the length of the text; a zero byte
before that belongs to the query. `pos_lt_size_of_atEnd?` says that a cursor which is not at the
end stands inside the text.
-/

namespace QueryDigest

/-- A position in a source. -/
structure Cursor where
  source : Source
  pos : Nat

/-- A cursor at the first byte. -/
def Source.cursor (s : Source) : Cursor :=
  ⟨s, 0⟩

namespace Cursor

/-! ## Reading -/

/-- The byte at the cursor. -/
def current? (c : Cursor) : Option UInt8 :=
  c.source.byte? c.pos

/-- The byte after the one at the cursor. -/
def peek? (c : Cursor) : Option UInt8 :=
  c.source.byte? (c.pos + 1)

/-- The second byte after the one at the cursor. -/
def peek2? (c : Cursor) : Option UInt8 :=
  c.source.byte? (c.pos + 2)

/-- Has the cursor used up the text? -/
def atEnd? (c : Cursor) : Option Bool :=
  c.current?.map fun b => b == 0 && decide (c.source.size ≤ c.pos)

/-! ## Moving -/

/-- The cursor `n` bytes on. -/
def advance (c : Cursor) (n : Nat) : Cursor :=
  { c with pos := c.pos + n }

/-- The cursor at `pos`, or where it stands if that is further on. -/
def advanceTo (c : Cursor) (pos : Nat) : Cursor :=
  { c with pos := max pos c.pos }

/-- The cursor at the end of the text. -/
def toEnd (c : Cursor) : Cursor :=
  { c with pos := c.source.size }

/-- The length of the UTF-8 sequence that the byte leads; 1 for a byte that leads none. -/
def charWidth (lead : UInt8) : Nat :=
  if 0xC0 ≤ lead ∧ lead ≤ 0xDF then 2
  else if 0xE0 ≤ lead ∧ lead ≤ 0xEF then 3
  else if 0xF0 ≤ lead ∧ lead ≤ 0xF7 then 4
  else 1

/-- The cursor past the character it stands on. -/
def advanceChar? (c : Cursor) : Option Cursor :=
  c.current?.map fun b => c.advance (charWidth b)

/-- The cursor at the first byte, from where it stands on, that does not satisfy `p`. -/
def skipWhile? (p : UInt8 → Bool) (c : Cursor) : Option Cursor :=
  (c.source.padded.findIdx? (fun b => !p b) c.pos).map fun i => { c with pos := i }

/-! ## Cutting out -/

/-- The characters from byte `start` up to byte `stop`, cut at the end of the text. -/
def slice? (c : Cursor) (start stop : Nat) : Option String :=
  let stop := min stop c.source.size
  if h : start ≤ stop ∧ String.Pos.Raw.IsValid c.source.text ⟨start⟩ ∧
      String.Pos.Raw.IsValid c.source.text ⟨stop⟩ then
    some (c.source.text.extract ⟨⟨start⟩, h.2.1⟩ ⟨⟨stop⟩, h.2.2⟩)
  else
    none

/-- The characters from byte `start` up to the cursor. -/
def sliceFrom? (c : Cursor) (start : Nat) : Option String :=
  c.slice? start c.pos

/-- The characters of a range; the empty text where it is no range of whole characters. -/
def slice (c : Cursor) (start stop : Nat) : String :=
  (c.slice? start stop).getD ""

/-- The characters from byte `start` up to the cursor, or the empty text likewise. -/
def sliceFrom (c : Cursor) (start : Nat) : String :=
  (c.sliceFrom? start).getD ""

/-! ## Lemmas -/

@[simp] theorem source_advance (c : Cursor) (n : Nat) : (c.advance n).source = c.source := rfl
@[simp] theorem pos_advance (c : Cursor) (n : Nat) : (c.advance n).pos = c.pos + n := rfl
@[simp] theorem source_toEnd (c : Cursor) : c.toEnd.source = c.source := rfl
@[simp] theorem pos_toEnd (c : Cursor) : c.toEnd.pos = c.source.size := rfl
@[simp] theorem source_advanceTo (c : Cursor) (p : Nat) : (c.advanceTo p).source = c.source := rfl
@[simp] theorem pos_advanceTo (c : Cursor) (p : Nat) : (c.advanceTo p).pos = max p c.pos := rfl

theorem charWidth_pos (b : UInt8) : 0 < charWidth b := by
  unfold charWidth
  split <;> (try split) <;> (try split) <;> decide

/-- A character takes the cursor on. -/
theorem advanceChar?_eq {c c' : Cursor} (h : c.advanceChar? = some c') :
    c'.source = c.source ∧ c.pos < c'.pos := by
  simp only [advanceChar?, Option.map_eq_some_iff] at h
  obtain ⟨b, _, rfl⟩ := h
  have := charWidth_pos b
  exact ⟨rfl, by simp only [pos_advance]; omega⟩

theorem pos_lt_of_current? {c : Cursor} {b : UInt8} (h : c.current? = some b) :
    c.pos < c.source.padded.size := by
  simp only [current?, Source.byte?, Option.dite_none_right_eq_some] at h
  exact h.1

/-- A cursor that is not at the end stands inside the text. -/
theorem pos_lt_size_of_atEnd? {c : Cursor} (h : c.atEnd? = some false) :
    c.pos < c.source.size := by
  simp only [atEnd?, Option.map_eq_some_iff] at h
  obtain ⟨b, hb, hend⟩ := h
  apply Nat.lt_of_not_le
  intro hle
  have hzero : b = 0 := Source.byte?_eq_zero hle hb
  simp [hzero, hle] at hend

end Cursor
end QueryDigest

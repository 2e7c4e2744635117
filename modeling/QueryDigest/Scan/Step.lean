import QueryDigest.Cursor.Search
import QueryDigest.Scan.Lead

/-!
# QueryDigest.Scan.Step

One step of a scan. Between tokens a step takes what begins at the cursor; inside a token it takes
the rest of it and returns between tokens, or stops because the query ends first. A step that
would read outside the padded query, or cut a character of it in two, has no result.
-/

namespace QueryDigest
namespace Scan

/-- The cursor past the quote that closes a string, and whether there is one. A backslash hides
the byte after it, and a doubled quote is no end. -/
def closeString (quote : UInt8) (c : Cursor) : Option (Cursor × Bool) :=
  match h : c.toQuoteOrBackslash quote with
  | (c', none) => some (c', false)
  | (c', some b) =>
    have hlt : c'.source.size - (c'.pos + 2) < c.source.size - c.pos := by
      obtain ⟨hs, hpos, _⟩ := Cursor.of_seek_eq_some h
      rw [hs]
      omega
    if b == '\\'.toUInt8 then
      closeString quote (c'.advance 2)
    else
      match c'.peek? with
      | none => none
      | some next =>
        if next == quote then closeString quote (c'.advance 2)
        else some (c'.advance 1, true)
termination_by c.source.size - c.pos

/-- Does byte `b` continue a number whose byte before it is `prev`? The minus of an exponent does
only right after its letter. -/
def continuesNumber (prev b : UInt8) : Bool :=
  ByteClass.numberContinue.has b ||
    (b == '-'.toUInt8 && (prev == 'e'.toUInt8 || prev == 'E'.toUInt8))

/-- The cursor past the bytes that continue a number, `prev` being the byte before them. -/
def skipNumber (prev : UInt8) (c : Cursor) : Option Cursor :=
  match h : c.current? with
  | none => none
  | some b =>
    have := Cursor.pos_lt_of_current? h
    if continuesNumber prev b then skipNumber b (c.advance 1) else some c
termination_by c.source.padded.size - c.pos

namespace State

/-- Replaces a string by its placeholder. -/
def stringStep (r : Rules) (quote : UInt8) (s : State) : Option Step := do
  let (cursor, closed) ← closeString quote s.cursor
  let s := s.write r.placeholder
  return if closed then .next (s.moveTo cursor .between)
    else .unclosed .string (s.moveTo cursor s.mode)

/-- Copies a quoted identifier and closes it with the delimiter of the rules. -/
def identifierStep (r : Rules) (quote : UInt8) (s : State) : Option Step := do
  let (cursor, closed) := s.cursor.toByte quote
  let s := s.write (← cursor.sliceFrom? s.cursor.pos)
  return if closed then .next ((s.put r.quotes.delimiter).moveTo (cursor.advance 1) .between)
    else .unclosed .identifier (s.moveTo cursor s.mode)

/-- Copies the rest of a bare name. -/
def nameStep (s : State) : Option Step := do
  let cursor ← s.cursor.skipWhile? ByteClass.nameContinue.has
  return .next ((s.write (← cursor.sliceFrom? s.cursor.pos)).moveTo cursor .between)

/-- Replaces a number by a question mark. -/
def numberStep (s : State) : Option Step := do
  let cursor ← skipNumber 0 s.cursor
  return .next ((s.put '?').moveTo cursor .between)

/-- Drops a block comment. -/
def blockCommentStep (s : State) : Step :=
  let (cursor, closed) := s.cursor.pastBlockComment
  if closed then .next (s.moveTo cursor .between)
  else .unclosed .blockComment (s.moveTo cursor s.mode)

/-- Drops a line comment up to the end of its line. -/
def lineCommentStep (s : State) : Step :=
  .next (s.moveTo s.cursor.toLineEnd .between)

/-- Takes a whitespace byte: a space is written unless the text already ends in one. -/
def blankStep (s : State) : State :=
  let s' := if s.afterBlank || s.output.back? == some ' ' then s else s.put ' '
  { s' with cursor := s.cursor.advance 1, afterBlank := true }

/-- Takes what begins at the cursor between two tokens. -/
def enter (r : Rules) (s : State) : Lead → Option State
  | .blank => some s.blankStep
  | .identifierQuote quote =>
    some ((s.openHere.put r.quotes.delimiter).moveTo (s.cursor.advance 1) (.identifier quote))
  | .stringQuote quote => some (s.openHere.moveTo (s.cursor.advance 1) (.string quote))
  | .lineComment => some (s.moveTo (s.cursor.advance 3) .lineComment)
  | .blockComment => some (s.openHere.moveTo (s.cursor.advance 2) .blockComment)
  | .signedNumber first => some (s.moveTo (s.cursor.advanceTo first) .number)
  | .minus => some ((s.put '-').moveTo (s.cursor.advance 1) .between)
  | .number => some (s.moveTo s.cursor .number)
  | .name first => some ((s.put first).moveTo (s.cursor.advance 1) .name)
  | .lineBlank => some ((s.put ' ').moveTo (s.cursor.advance 1) .between)
  | .character => do
    let cursor ← s.cursor.advanceChar?
    return (s.write (← cursor.sliceFrom? s.cursor.pos)).moveTo cursor .between

/-- One step between two tokens. -/
def betweenStep (r : Rules) (s : State) : Option Step := do
  let lead ← Lead.at? r s.cursor
  let s := if lead == .blank then s else { s with afterBlank := false }
  return .next (← s.enter r lead)

end State

/-- One step of a scan. -/
def step (r : Rules) (s : State) : Option Step :=
  match s.mode with
  | .between => s.betweenStep r
  | .string quote => s.stringStep r quote
  | .identifier quote => s.identifierStep r quote
  | .name => s.nameStep
  | .number => s.numberStep
  | .blockComment => some s.blockCommentStep
  | .lineComment => some s.lineCommentStep

end Scan
end QueryDigest

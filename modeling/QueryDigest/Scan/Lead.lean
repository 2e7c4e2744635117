import QueryDigest.ByteClass
import QueryDigest.Scan.State
import QueryDigest.Sign

/-!
# QueryDigest.Scan.Lead

What a scan sees between two tokens. The bytes at the cursor decide which kind of token begins;
the order of the questions settles the cases in which more than one would fit: whitespace,
identifier, string, comments, signed number, minus, number, name, any other character.
-/

namespace QueryDigest
namespace Scan

/-- What begins at a cursor between two tokens. -/
inductive Lead where
  /-- A whitespace byte of a run that is written as one space. -/
  | blank
  /-- A quote that opens an identifier. -/
  | identifierQuote (quote : UInt8)
  /-- A quote that opens a string. -/
  | stringQuote (quote : UInt8)
  /-- Two minuses and a space or tab. -/
  | lineComment
  /-- A slash and a star. -/
  | blockComment
  /-- A minus that is the sign of the number beginning at `first`. -/
  | signedNumber (first : Nat)
  /-- Any other minus. -/
  | minus
  /-- A digit. -/
  | number
  /-- A letter or `_`. -/
  | name (first : Char)
  /-- A tab, CR or LF that is written as one space. -/
  | lineBlank
  /-- Any other character. -/
  | character
deriving DecidableEq, Repr

/-- What begins at the cursor, `b` being the byte there and `next` and `afterNext` the two after
it. -/
def Lead.ofBytes (r : Rules) (c : Cursor) (b next afterNext : UInt8) : Lead :=
  if r.strip && ByteClass.whitespace.has b then
    .blank
  else if r.quotes.opensIdentifier b then
    .identifierQuote b
  else if r.quotes.opensString b then
    .stringQuote b
  else if b == '-'.toUInt8 && next == '-'.toUInt8 &&
      (afterNext == ' '.toUInt8 || afterNext == '\t'.toUInt8) then
    .lineComment
  else if b == '/'.toUInt8 && next == '*'.toUInt8 then
    .blockComment
  else if b == '-'.toUInt8 then
    match Sign.foldedDigit c.source.bytes c.pos with
    | some first => .signedNumber first
    | none => .minus
  else if ByteClass.digit.has b then
    .number
  else if ByteClass.nameStart.has b then
    .name (Char.ofUInt8 b)
  else if ByteClass.lineWhitespace.has b then
    .lineBlank
  else
    .character

/-- What begins at the cursor; none where that takes a byte outside the padded query. -/
def Lead.at? (r : Rules) (c : Cursor) : Option Lead := do
  let b ← c.current?
  let next ← c.peek?
  let afterNext ← c.peek2?
  return ofBytes r c b next afterNext

/-- What begins at a cursor follows from the three bytes it can see. -/
theorem Lead.at?_eq_some_iff {r : Rules} {c : Cursor} {lead : Lead} :
    Lead.at? r c = some lead ↔ ∃ b next afterNext, c.current? = some b ∧ c.peek? = some next ∧
      c.peek2? = some afterNext ∧ ofBytes r c b next afterNext = lead := by
  simp [Lead.at?, Option.bind_eq_some_iff]

end Scan
end QueryDigest

import QueryDigest.Cursor
import QueryDigest.Quotes

/-!
# QueryDigest.Scan.State

The state of a scan. A scan reads a query once, from left to right. Between two steps it is in
one mode: between tokens, or inside one of six kinds of token whose beginning it has passed. The
text written so far belongs to the state, for a whitespace run is dropped when the text already
ends in a space.
-/

namespace QueryDigest
namespace Scan

/-- What a scan keeps fixed. -/
structure Rules where
  quotes : Quotes
  /-- Write each whitespace run as one space. -/
  strip : Bool
  /-- What is written for a string. -/
  placeholder : String

/-- The rules that the settings choose. -/
def Rules.ofOptions (o : Options) : Except DigestError Rules :=
  o.quotes.map fun quotes => ⟨quotes, o.stripWhitespace, o.stringPlaceholder⟩

/-- Where a scan stands. -/
inductive Mode where
  /-- Between two tokens. -/
  | between
  /-- Past the quote that opens a string, its placeholder not yet written. -/
  | string (quote : UInt8)
  /-- Past the quote that opens an identifier. -/
  | identifier (quote : UInt8)
  /-- Past the first byte of a bare name. -/
  | name
  /-- At the first digit of a number. -/
  | number
  /-- Past the slash and star that open a block comment. -/
  | blockComment
  /-- Past the two minuses and the blank that open a line comment. -/
  | lineComment
deriving DecidableEq, Repr

/-- The scope that a query ending in this mode leaves open. -/
def Mode.openScope : Mode → Option Scope
  | string _ => some .string
  | identifier _ => some .identifier
  | blockComment => some .blockComment
  | between | name | number | lineComment => none

/-- The state of a scan between two steps. -/
structure State where
  cursor : Cursor
  mode : Mode
  /-- The byte at which the latest scope opened. -/
  scopeStart : Nat
  /-- The text written so far. -/
  output : String
  /-- Was the last thing between tokens a collapsed whitespace byte? -/
  afterBlank : Bool

namespace State

/-- The state in which a scan begins. -/
def start (source : Source) : State where
  cursor := source.cursor
  mode := .between
  scopeStart := 0
  output := ""
  afterBlank := false

/-- The state with more text written. -/
def write (s : State) (text : String) : State :=
  { s with output := s.output ++ text }

/-- The state with one character more written. -/
def put (s : State) (c : Char) : State :=
  { s with output := s.output.push c }

/-- The state with the cursor moved and another mode. -/
def moveTo (s : State) (cursor : Cursor) (mode : Mode) : State :=
  { s with cursor := cursor, mode := mode }

/-- The state that records the cursor as the start of a scope. -/
def openHere (s : State) : State :=
  { s with scopeStart := s.cursor.pos }

end State

/-- What one step comes to. -/
inductive Step where
  /-- The scan goes on. -/
  | next (s : State)
  /-- The query ends inside a scope. -/
  | unclosed (scope : Scope) (s : State)

/-- How a scan ends. -/
inductive Outcome where
  /-- At the end of the query, with the text written. -/
  | finished (output : String)
  /-- Inside a scope, with the byte at which it opens and the text written. -/
  | unclosed (scope : Scope) (offset : Nat) (output : String)
deriving DecidableEq, Repr

/-- The outcome of a scan that stops in this state inside the scope. -/
def State.stop (s : State) (scope : Scope) : Outcome :=
  .unclosed scope s.scopeStart s.output

/-- The outcome of a scan whose query ends in this state. -/
def State.finish (s : State) : Outcome :=
  match s.mode.openScope with
  | some scope => s.stop scope
  | none => .finished s.output

end Scan
end QueryDigest

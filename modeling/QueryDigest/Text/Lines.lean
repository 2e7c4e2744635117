/-!
# QueryDigest.Text.Lines

The lines of a text. A line ends at LF, and a CR right before the LF is no part of it. What
follows the last LF is a line too, unless it is empty, and keeps a CR at its end.
-/

namespace QueryDigest
namespace Text

/-- The characters of a line that an LF ends, without the CR before the LF. -/
def dropCR (line : List Char) : List Char :=
  if line.getLast? == some '\r' then line.dropLast else line

/-- The lines of `current.reverse ++ s`, of which `current` has no LF. -/
def linesFrom (current : List Char) : List Char → List (List Char)
  | [] => if current.isEmpty then [] else [current.reverse]
  | c :: s =>
    if c == '\n' then dropCR current.reverse :: linesFrom [] s else linesFrom (c :: current) s

/-- The lines of the text. -/
def lines (text : String) : List String :=
  (linesFrom [] text.toList).map String.ofList

end Text
end QueryDigest

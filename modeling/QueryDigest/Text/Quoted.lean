import QueryDigest.Text.Unprintable

/-!
# QueryDigest.Text.Quoted

The quoted form of a character or a text in a message: a backslash before the quotation mark in
use and before a backslash, short escapes for NUL, tab, LF and CR, and the number of any other
character that cannot be shown.
-/

namespace QueryDigest
namespace Text

/-- The digits of a number in base 16, lower case. -/
def hexDigits (n : Nat) : String :=
  String.ofList (Nat.toDigits 16 n)

/-- How the character is written between two quotation marks `mark`. -/
def escape (mark c : Char) : String :=
  if c == '\x00' then "\\0"
  else if c == '\t' then "\\t"
  else if c == '\n' then "\\n"
  else if c == '\r' then "\\r"
  else if c == '\x5c' || c == mark then "\\" ++ String.singleton c
  else if isPrintable c then String.singleton c
  else "\\u\x7b" ++ hexDigits c.toNat ++ "\x7d"

/-- The character between single quotation marks. -/
def quoteChar (c : Char) : String :=
  "'" ++ escape '\x27' c ++ "'"

/-- The text between double quotation marks. -/
def quoteText (text : String) : String :=
  "\"" ++ String.join (text.toList.map (escape '\x22')) ++ "\""

end Text
end QueryDigest

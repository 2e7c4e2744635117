import QueryDigest.Error
import QueryDigest.Options

/-!
# QueryDigest.Quotes

Which characters open quoted identifiers and strings. A single quote always opens a string. Of
the double quote and the backtick, each dialect gives one to identifiers; the double quote opens
strings where identifiers do not have it. The identifier delimiter of the settings opens
identifiers as well, and goes before every other meaning of its character.

Main statement: a delimiter is accepted exactly if it is ASCII punctuation
(`Options.quotes_isOk_iff`).
-/

namespace QueryDigest

/-- Who owns the double quote. -/
inductive Dialect where
  /-- Backticks quote identifiers, double quotes quote strings. -/
  | mysql
  /-- Double quotes quote identifiers. -/
  | ansi
deriving DecidableEq, Repr

namespace Dialect

/-- The identifier quote of the dialect. -/
def identifierQuote : Dialect → Char
  | mysql => '\x60'
  | ansi => '\x22'

/-- The string quote of the dialect, beside the single quote. -/
def stringQuote : Dialect → Char
  | mysql => '\x22'
  | ansi => '\x27'

end Dialect

/-- Is the character one of the 32 ASCII punctuation characters? -/
def isAsciiPunctuation (c : Char) : Bool :=
  0x21 ≤ c.toNat && c.toNat ≤ 0x7E && !c.isAlphanum

/-- The quotes of one scan. -/
structure Quotes where
  /-- The delimiter of the settings. -/
  delimiter : Char
  delimiter_punctuation : isAsciiPunctuation delimiter = true
  dialect : Dialect

namespace Quotes

/-- Does the byte open a quoted identifier? -/
def opensIdentifier (q : Quotes) (b : UInt8) : Bool :=
  b == q.delimiter.toUInt8 || b == q.dialect.identifierQuote.toUInt8

/-- Does the byte open a string, if it opens no identifier? -/
def opensString (q : Quotes) (b : UInt8) : Bool :=
  b == '\x27'.toUInt8 || b == q.dialect.stringQuote.toUInt8

end Quotes

/-- The dialect that the settings choose. -/
def Options.dialect (o : Options) : Dialect :=
  if o.ansiDoubleQuotes then .ansi else .mysql

/-- The quotes that the settings choose. -/
def Options.quotes (o : Options) : Except DigestError Quotes :=
  if h : isAsciiPunctuation o.identifierDelimiter = true then
    .ok ⟨o.identifierDelimiter, h, o.dialect⟩
  else
    .error (.invalidDelimiter o.identifierDelimiter)

/-- The settings are accepted exactly if their delimiter is ASCII punctuation. -/
theorem Options.quotes_isOk_iff (o : Options) :
    o.quotes.isOk = true ↔ isAsciiPunctuation o.identifierDelimiter = true := by
  unfold Options.quotes
  split <;> simp_all [Except.isOk, Except.toBool]

end QueryDigest

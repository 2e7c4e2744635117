import QueryDigest.Text.Quoted

/-!
# QueryDigest.Error

What can go wrong with a digest, and how it is told. A query is refused only for a delimited
scope that its end leaves open; the settings are refused for an identifier delimiter that no byte
of a query could match.
-/

namespace QueryDigest

/-- A part of a query with a closing delimiter. -/
inductive Scope where
  | string
  | identifier
  | blockComment
deriving DecidableEq, Repr

/-- What is said of a scope left open. -/
def Scope.message : Scope → String
  | string => "Syntax error looking for ending string literal delimiter, reached end of string"
  | identifier => "Syntax error looking for ending identifier delimiter, reached end of string"
  | blockComment =>
    "Syntax error looking for ending block comment delimiter, reached end of string"

/-- A query that ends inside a scope. -/
structure SyntaxError where
  scope : Scope
  /-- The byte at which the scope opens. -/
  offset : Nat
  query : String
  /-- The digest up to the open scope, trimmed as a finished one is. -/
  written : String
deriving DecidableEq, Repr

namespace SyntaxError

/-- The error with the query it is about. -/
def message (e : SyntaxError) : String :=
  e.scope.message ++ ": " ++ e.query

/-- The text that stands for the digest where errors are not thrown. -/
def returnedText (e : SyntaxError) : String :=
  e.scope.message ++ ": " ++ e.written

end SyntaxError

/-- Why a query has no digest. -/
inductive DigestError where
  | syntaxError (e : SyntaxError)
  /-- The identifier delimiter is not ASCII punctuation. -/
  | invalidDelimiter (delimiter : Char)
  /-- The scan would read outside the padded query or cut a character of it in two. -/
  | outOfBounds
deriving DecidableEq, Repr

namespace DigestError

/-- The error in full. -/
def message : DigestError → String
  | syntaxError e => e.message
  | invalidDelimiter c =>
    "identifier delimiter " ++ Text.quoteChar c ++ " must be a single ASCII punctuation character"
  | outOfBounds => "read outside the bounds of the query"

/-- The error in one line: a place in the query instead of the query. -/
def summary : DigestError → String
  | syntaxError e => e.scope.message ++ " (at byte " ++ toString e.offset ++ ")"
  | e => e.message

end DigestError
end QueryDigest

import QueryDigest.ByteClass
import QueryDigest.Scan.State

/-!
# QueryDigest.Proofs.Grammar

The lexical grammar of queries, on characters. A query is a sequence of tokens; `Token.spelling`
is what a token looks like and `Token.written` what a scan writes for it.

* `Reads r before t rest`: between `before` and `rest`, the token `t` is read. Which token begins
  at a place is settled in this order: whitespace of a collapsed run, quoted identifier, string,
  line comment, block comment, signed number, number, name, any other character.
* `ReadsAll r before ts rest`: the tokens `ts` are read one after the other, and then `rest`
  remains.
* `Unclosed r scope text`: `text` begins with a delimited scope that nothing in it closes. A text
  is read up to an `Ending`: such a scope, or nothing.

The text before a token matters to signs only (`signMayFollow`), and the text behind it only as
far as it could have continued the token.
-/

namespace QueryDigest

/-- Does the character open a quoted identifier? -/
def Quotes.beginsIdentifier (q : Quotes) (c : Char) : Bool :=
  c == q.delimiter || c == q.dialect.identifierQuote

/-- Does the character open a string? -/
def Quotes.beginsString (q : Quotes) (c : Char) : Bool :=
  !q.beginsIdentifier c && (c == '\x27' || c == q.dialect.stringQuote)

/-- What is written for a text that begins with an open scope. A string quote with nothing behind it
is not replaced. -/
def Scope.written (r : Scan.Rules) : Scope → List Char → List Char
  | .string, text => if text.length ≤ 1 then [] else r.placeholder.toList
  | .identifier, text => r.quotes.delimiter :: text.tail
  | .blockComment, _ => []

namespace Scan

open ByteClass (whitespace lineWhitespace digit nameStart nameContinue numberContinue operator)

/-- A lexical piece of a query. -/
inductive Token where
  /-- One character of a whitespace run that is collapsed. -/
  | blank (c : Char)
  | identifier (quote : Char) (inner : List Char)
  | string (quote : Char) (body : List Char)
  /-- Two minuses, the blank `mark`, and text up to the end of the line. -/
  | lineComment (mark : Char) (text : List Char)
  | blockComment (body : List Char)
  /-- A number from its first digit on, behind its sign and the whitespace after the sign. -/
  | number (sign : List Char) (first : Char) (more : List Char)
  | name (first : Char) (more : List Char)
  | other (c : Char)
deriving DecidableEq, Repr

/-- The characters of the token. -/
def Token.spelling : Token → List Char
  | blank c | other c => [c]
  | identifier quote inner => quote :: (inner ++ [quote])
  | string quote body => quote :: (body ++ [quote])
  | lineComment mark text => '-' :: '-' :: mark :: text
  | blockComment body => '/' :: '*' :: (body ++ ['*', '/'])
  | number sign first more => sign ++ first :: more
  | name first more => first :: more

/-- The characters of the tokens. -/
def spelling (ts : List Token) : List Char :=
  ts.flatMap Token.spelling

/-! ## What is written -/

/-- What is written for the token behind the text `out`. -/
def Token.written (r : Rules) (out : List Char) : Token → List Char
  | blank _ => if out.getLast? = some ' ' then [] else [' ']
  | identifier _ inner => r.quotes.delimiter :: (inner ++ [r.quotes.delimiter])
  | string _ _ => r.placeholder.toList
  | lineComment _ _ | blockComment _ => []
  | number _ _ _ => ['?']
  | name first more => first :: more
  | other c => [if lineWhitespace.hasChar c then ' ' else c]

/-- The text `out` with what is written for the tokens, from left to right. -/
def writtenFrom (r : Rules) (out : List Char) (ts : List Token) : List Char :=
  ts.foldl (fun out t => out ++ t.written r out) out

/-- What is written for the tokens. -/
def written (r : Rules) (ts : List Token) : List Char :=
  writtenFrom r [] ts

/-! ## What is read -/

/-- Between two quotes `q`: plain characters, a backslash with any character, and doubled quotes. -/
inductive StringBody (q : Char) : List Char → Prop where
  | nil : StringBody q []
  | plain {c : Char} {body : List Char} :
      c ≠ q → c ≠ '\\' → StringBody q body → StringBody q (c :: body)
  | escaped {c : Char} {body : List Char} : StringBody q body → StringBody q ('\\' :: c :: body)
  | doubled {body : List Char} : StringBody q body → StringBody q (q :: q :: body)

/-- Behind a quote `q` that is never closed. A backslash at the end has nothing to hide. -/
inductive OpenBody (q : Char) : List Char → Prop where
  | nil : OpenBody q []
  | backslash : OpenBody q ['\\']
  | plain {c : Char} {body : List Char} :
      c ≠ q → c ≠ '\\' → OpenBody q body → OpenBody q (c :: body)
  | escaped {c : Char} {body : List Char} : OpenBody q body → OpenBody q ('\\' :: c :: body)
  | doubled {body : List Char} : OpenBody q body → OpenBody q (q :: q :: body)

/-- Does `c` continue a number behind `prev`? -/
def continuesDigits (prev c : Char) : Bool :=
  numberContinue.hasChar c || (c == '-' && (prev == 'e' || prev == 'E'))

/-- Does every character continue the number that ends in `prev`? -/
def continueDigits : Char → List Char → Bool
  | _, [] => true
  | prev, c :: cs => continuesDigits prev c && continueDigits c cs

/-- Does the last visible character before a minus allow the minus to be a sign? -/
def signMayFollow (before : List Char) : Bool :=
  (before.findRev? fun c => !whitespace.hasChar c).any fun c =>
    operator.hasChar c || nameStart.hasChar c

/-- Is the first visible character behind a minus a digit? -/
def digitFollows (rest : List Char) : Bool :=
  (rest.find? fun c => !whitespace.hasChar c).any digit.hasChar

/-- Does a minus in front make it the beginning of a line comment? -/
def minusAndBlank : List Char → Bool
  | '-' :: mark :: _ => mark == ' ' || mark == '\t'
  | _ => false

/-- Does the character end a line? -/
def endsLine (c : Char) : Bool :=
  c == '\r' || c == '\n'

/-- Nothing longer begins with `c` between `before` and `rest`. -/
structure Alone (r : Rules) (before : List Char) (c : Char) (rest : List Char) : Prop where
  blank : (r.strip && whitespace.hasChar c) = false
  identifier : r.quotes.beginsIdentifier c = false
  string : r.quotes.beginsString c = false
  digit : digit.hasChar c = false
  name : nameStart.hasChar c = false
  lineComment : c = '-' → minusAndBlank rest = false
  sign : c = '-' → (signMayFollow before && digitFollows rest) = false
  blockComment : c = '/' → rest.head? ≠ some '*'

/-- Between `before` and `rest`, the token is read. -/
inductive Reads (r : Rules) (before : List Char) : Token → List Char → Prop where
  | blank {c : Char} {rest : List Char} :
      r.strip = true → whitespace.hasChar c = true → Reads r before (.blank c) rest
  | identifier {q : Char} {inner rest : List Char} :
      r.quotes.beginsIdentifier q = true → q ∉ inner → Reads r before (.identifier q inner) rest
  | string {q : Char} {body rest : List Char} :
      r.quotes.beginsString q = true → StringBody q body → rest.head? ≠ some q →
      Reads r before (.string q body) rest
  | lineComment {mark : Char} {text rest : List Char} :
      r.quotes.beginsIdentifier '-' = false → mark = ' ' ∨ mark = '\t' →
      (∀ c ∈ text, endsLine c = false) → (∀ c ∈ rest.head?, endsLine c = true) →
      Reads r before (.lineComment mark text) rest
  | blockComment {body rest : List Char} :
      r.quotes.beginsIdentifier '/' = false → ¬ ['*', '/'] <:+: body →
      Reads r before (.blockComment body) rest
  | number {first : Char} {more rest : List Char} :
      digit.hasChar first = true → continueDigits first more = true →
      (∀ c ∈ rest.head?, continuesDigits (more.getLastD first) c = false) →
      Reads r before (.number [] first more) rest
  | signedNumber {blanks : List Char} {first : Char} {more rest : List Char} :
      r.quotes.beginsIdentifier '-' = false → signMayFollow before = true →
      (∀ c ∈ blanks, whitespace.hasChar c = true) →
      digit.hasChar first = true → continueDigits first more = true →
      (∀ c ∈ rest.head?, continuesDigits (more.getLastD first) c = false) →
      Reads r before (.number ('-' :: blanks) first more) rest
  | name {first : Char} {more rest : List Char} :
      r.quotes.beginsIdentifier first = false → nameStart.hasChar first = true →
      (∀ c ∈ more, nameContinue.hasChar c = true) →
      (∀ c ∈ rest.head?, nameContinue.hasChar c = false) → Reads r before (.name first more) rest
  | other {c : Char} {rest : List Char} : Alone r before c rest → Reads r before (.other c) rest

/-- Between `before` and `rest`, the tokens are read one after the other. -/
inductive ReadsAll (r : Rules) : List Char → List Token → List Char → Prop where
  | nil {before rest : List Char} : ReadsAll r before [] rest
  | cons {before rest : List Char} {t : Token} {ts : List Token} :
      Reads r before t (spelling ts ++ rest) → ReadsAll r (before ++ t.spelling) ts rest →
      ReadsAll r before (t :: ts) rest

/-- The text begins with a scope that is not closed in it. -/
inductive Unclosed (r : Rules) : Scope → List Char → Prop where
  | string {q : Char} {text : List Char} :
      r.quotes.beginsString q = true → OpenBody q text → Unclosed r .string (q :: text)
  | identifier {q : Char} {text : List Char} :
      r.quotes.beginsIdentifier q = true → q ∉ text → Unclosed r .identifier (q :: text)
  | blockComment {text : List Char} :
      r.quotes.beginsIdentifier '/' = false → ¬ ['*', '/'] <:+: text →
      Unclosed r .blockComment ('/' :: '*' :: text)

/-- The text is empty, or begins with a scope that is not closed in it. -/
inductive Ending (r : Rules) : Option Scope → List Char → Prop where
  | done : Ending r none []
  | unclosed {scope : Scope} {text : List Char} :
      Unclosed r scope text → Ending r (some scope) text

/-- The text is the tokens and an ending. -/
structure Reading (r : Rules) (text : List Char) (ts : List Token) (scope : Option Scope)
    (tail : List Char) : Prop where
  text_eq : text = spelling ts ++ tail
  reads : ReadsAll r [] ts tail
  ending : Ending r scope tail

end Scan
end QueryDigest

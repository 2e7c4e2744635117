import QueryDigest.EnumList
import QueryDigest.Event
import QueryDigest.Scan.Run

/-!
# QueryDigest.Digest

The digest of a query: the text its scan writes, trimmed, and with its placeholder lists
shortened if the settings say so. A query that ends inside a scope is refused; the settings decide
whether the refusal is an error or a text, and whether it is recorded.

`digest` is the answer alone, `report` the answer with the events on the way to it.
-/

namespace QueryDigest

/-- The answer to a query and the events recorded on the way. -/
structure Report where
  answer : Except DigestError String
  events : List Event

namespace Options

/-- The text without the white space that the settings say to trim. -/
def trim (o : Options) (text : String) : String :=
  let cs := Text.trimEnd text.toList
  String.ofList (if o.stripWhitespace then Text.trimStart cs else cs)

/-- The report on a query whose scan is finished, from the trimmed text it wrote. -/
def deliver (o : Options) (text : String) : Report :=
  if o.reduceEnumsToOneElement then
    match EnumList.collapse? o.identifierDelimiter text with
    | some shortened => ⟨.ok shortened, [.listsShortened shortened]⟩
    | none => ⟨.ok text, []⟩
  else
    ⟨.ok text, []⟩

/-- The answer is the text, or what shortening makes of it. -/
theorem deliver_answer_cases (o : Options) (text : String) :
    (o.deliver text).answer = .ok text ∧ (o.reduceEnumsToOneElement = true →
      EnumList.collapse? o.identifierDelimiter text = none) ∨
    ∃ shortened, (o.deliver text).answer = .ok shortened ∧
      EnumList.collapse? o.identifierDelimiter text = some shortened := by
  unfold deliver
  split
  · split
    · rename_i shortened h
      exact .inr ⟨shortened, rfl, h⟩
    · rename_i h
      exact .inl ⟨rfl, fun _ => h⟩
  · rename_i h
    exact .inl ⟨rfl, fun hreduce => absurd hreduce h⟩

/-- The report on a query with a syntax error. -/
def refuse (o : Options) (e : SyntaxError) : Report where
  answer := if o.throwOnSyntaxError then .error (.syntaxError e) else .ok e.returnedText
  events := if o.writeSyntaxErrorsToConsole then [.ofSyntaxError e] else []

end Options

/-- The report on the query. -/
def report (o : Options) (query : String) : Report :=
  match Scan.Rules.ofOptions o with
  | .error e => ⟨.error e, []⟩
  | .ok rules =>
    match Scan.scan rules (Source.ofText query) with
    | none => ⟨.error .outOfBounds, []⟩
    | some (.finished output) => o.deliver (o.trim output)
    | some (.unclosed scope offset output) => o.refuse ⟨scope, offset, query, o.trim output⟩

/-- The digest of the query. -/
def digest (o : Options) (query : String) : Except DigestError String :=
  (report o query).answer

end QueryDigest

import QueryDigest.Error

/-!
# QueryDigest.Event

What making a digest records beside its answer: that a query is refused, and that placeholder
lists were shortened.
-/

namespace QueryDigest

/-- How much an event matters. -/
inductive Level where
  | error
  | trace
deriving DecidableEq, Repr

/-- Something recorded while a digest is made. -/
inductive Event where
  /-- The query ends inside a scope that opens at byte `offset`. -/
  | syntaxError (scope : Scope) (offset : Nat) (query : String)
  /-- Placeholder lists were shortened, and the text is this now. -/
  | listsShortened (text : String)
deriving DecidableEq, Repr

namespace Event

/-- The level of the event. -/
def level : Event → Level
  | syntaxError .. => .error
  | listsShortened _ => .trace

/-- What the event says. -/
def message : Event → String
  | syntaxError scope _ _ => scope.message
  | listsShortened _ => "reduced enum lists"

/-- The event of a syntax error. -/
def ofSyntaxError (e : SyntaxError) : Event :=
  .syntaxError e.scope e.offset e.query

end Event
end QueryDigest

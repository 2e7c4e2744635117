/-!
# QueryDigest.Options

The settings of a digest. `Options` holds a value for each; `Overrides` holds a value for some of
them, as a settings file or a command line gives it, and is laid over a full set field by field
(`Overrides.apply`). What an override leaves out stays as it was.
-/

namespace QueryDigest

/-- The settings of a digest. -/
structure Options where
  /-- Read `"` as an identifier quote instead of a string quote. -/
  ansiDoubleQuotes : Bool
  /-- The character written around identifiers; it also quotes them in the query. -/
  identifierDelimiter : Char
  /-- Write each whitespace run as one space and trim both ends. Otherwise spaces stay, a tab, CR
  or LF becomes one space, and only the end is trimmed. -/
  stripWhitespace : Bool
  /-- Record an event for a syntax error. -/
  writeSyntaxErrorsToConsole : Bool
  /-- Answer a syntax error as an error, not as a text that names it. -/
  throwOnSyntaxError : Bool
  /-- Write the placeholder of a string as `'?'`. -/
  addRemovedStringQuotes : Bool
  /-- Shorten placeholder lists to one placeholder. -/
  reduceEnumsToOneElement : Bool
deriving DecidableEq, Repr

/-- The settings where nothing is said. -/
def Options.default : Options where
  ansiDoubleQuotes := false
  identifierDelimiter := '\x60'
  stripWhitespace := true
  writeSyntaxErrorsToConsole := true
  throwOnSyntaxError := true
  addRemovedStringQuotes := false
  reduceEnumsToOneElement := false

instance : Inhabited Options :=
  ⟨Options.default⟩

/-- What is written in place of a string. -/
def Options.stringPlaceholder (o : Options) : String :=
  if o.addRemovedStringQuotes then "'?'" else "?"

/-- Settings of which some are left open. -/
structure Overrides where
  ansiDoubleQuotes : Option Bool := none
  identifierDelimiter : Option Char := none
  stripWhitespace : Option Bool := none
  writeSyntaxErrorsToConsole : Option Bool := none
  throwOnSyntaxError : Option Bool := none
  addRemovedStringQuotes : Option Bool := none
  reduceEnumsToOneElement : Option Bool := none
deriving DecidableEq, Repr

namespace Overrides

/-- Nothing overridden. -/
def empty : Overrides := {}

/-- The options with every given setting in place of theirs. -/
def apply (w : Overrides) (o : Options) : Options where
  ansiDoubleQuotes := w.ansiDoubleQuotes.getD o.ansiDoubleQuotes
  identifierDelimiter := w.identifierDelimiter.getD o.identifierDelimiter
  stripWhitespace := w.stripWhitespace.getD o.stripWhitespace
  writeSyntaxErrorsToConsole := w.writeSyntaxErrorsToConsole.getD o.writeSyntaxErrorsToConsole
  throwOnSyntaxError := w.throwOnSyntaxError.getD o.throwOnSyntaxError
  addRemovedStringQuotes := w.addRemovedStringQuotes.getD o.addRemovedStringQuotes
  reduceEnumsToOneElement := w.reduceEnumsToOneElement.getD o.reduceEnumsToOneElement

@[simp] theorem apply_empty (o : Options) : empty.apply o = o := rfl

end Overrides
end QueryDigest

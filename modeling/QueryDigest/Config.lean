import QueryDigest.Json.Parser
import QueryDigest.Options

/-!
# QueryDigest.Config

Settings from a JSON text. An object gives them by name, in any order; a name it does not know is
passed over, one it knows may stand only once. An array gives them by position, as far as it
goes. A value of the wrong kind, `null` included, is refused, and the text with it.
-/

namespace QueryDigest

/-- The name of a setting. -/
inductive Setting where
  | ansiDoubleQuotes
  | identifierDelimiter
  | stripWhitespace
  | writeSyntaxErrorsToConsole
  | throwOnSyntaxError
  | addRemovedStringQuotes
  | reduceEnumsToOneElement
deriving DecidableEq, Repr

namespace Setting

/-- Every setting, in the order in which an array gives them. -/
def all : List Setting :=
  [.ansiDoubleQuotes, .identifierDelimiter, .stripWhitespace, .writeSyntaxErrorsToConsole,
    .throwOnSyntaxError, .addRemovedStringQuotes, .reduceEnumsToOneElement]

theorem mem_all (s : Setting) : s ∈ all := by
  cases s <;> decide

/-- The key of the setting in an object. -/
def key : Setting → String
  | ansiDoubleQuotes => "ansiDoubleQuotes"
  | identifierDelimiter => "identifierDelimiter"
  | stripWhitespace => "stripWhitespace"
  | writeSyntaxErrorsToConsole => "writeSyntaxErrorsToConsole"
  | throwOnSyntaxError => "throwOnSyntaxError"
  | addRemovedStringQuotes => "addRemovedStringQuotes"
  | reduceEnumsToOneElement => "reduceEnumsToOneElement"

/-- The setting with this key. -/
def ofKey? (key : String) : Option Setting :=
  all.find? (·.key == key)

end Setting

namespace Json

/-- A truth value. -/
def asBool? : Json → Option Bool
  | bool b => some b
  | _ => none

/-- A string of one character. -/
def asChar? : Json → Option Char
  | string (some text) =>
    match text.toList with
    | [c] => some c
    | _ => none
  | _ => none

end Json

namespace Overrides

/-- Is the setting given? -/
def gives (w : Overrides) : Setting → Bool
  | .ansiDoubleQuotes => w.ansiDoubleQuotes.isSome
  | .identifierDelimiter => w.identifierDelimiter.isSome
  | .stripWhitespace => w.stripWhitespace.isSome
  | .writeSyntaxErrorsToConsole => w.writeSyntaxErrorsToConsole.isSome
  | .throwOnSyntaxError => w.throwOnSyntaxError.isSome
  | .addRemovedStringQuotes => w.addRemovedStringQuotes.isSome
  | .reduceEnumsToOneElement => w.reduceEnumsToOneElement.isSome

/-- The overrides with the setting given by the value; none if the value is of the wrong kind. -/
def give? (w : Overrides) (s : Setting) (value : Json) : Option Overrides :=
  match s with
  | .ansiDoubleQuotes => value.asBool?.map fun b => { w with ansiDoubleQuotes := some b }
  | .identifierDelimiter => value.asChar?.map fun c => { w with identifierDelimiter := some c }
  | .stripWhitespace => value.asBool?.map fun b => { w with stripWhitespace := some b }
  | .writeSyntaxErrorsToConsole =>
    value.asBool?.map fun b => { w with writeSyntaxErrorsToConsole := some b }
  | .throwOnSyntaxError => value.asBool?.map fun b => { w with throwOnSyntaxError := some b }
  | .addRemovedStringQuotes =>
    value.asBool?.map fun b => { w with addRemovedStringQuotes := some b }
  | .reduceEnumsToOneElement =>
    value.asBool?.map fun b => { w with reduceEnumsToOneElement := some b }

/-- The overrides with one member of an object taken in. -/
def takeMember? (w : Overrides) (member : Option String × Json) : Option Overrides := do
  let key ← member.1
  match Setting.ofKey? key with
  | none => return w
  | some s => if w.gives s then none else w.give? s member.2

/-- The overrides that a JSON value gives. -/
def ofJson? : Json → Option Overrides
  | .object members => members.foldlM takeMember? empty
  | .array items =>
    if items.length ≤ Setting.all.length then
      (Setting.all.zip items).foldlM (fun w (s, value) => w.give? s value) empty
    else none
  | _ => none

/-- The overrides that a JSON text gives. -/
def parse? (text : String) : Option Overrides :=
  (Json.parse? text).bind ofJson?

end Overrides

/-- The settings that a JSON text gives, the rest as by default. -/
def Options.parse? (text : String) : Option Options :=
  (Overrides.parse? text).map (·.apply Options.default)

end QueryDigest

import QueryDigest.Batch
import QueryDigest.Options
import QueryDigest.Text.Quoted

/-!
# QueryDigest.CommandLine.Arguments

What the arguments of the command line ask for. Each argument is read by itself (`Argument.read`)
and then taken into what the arguments before it ask for (`Request.take`). Reading stops at the
first argument that asks for help or that is refused; those behind it are not looked at.
-/

namespace QueryDigest
namespace CommandLine

/-- Where the queries come from. -/
inductive Input where
  | stdin
  | file (path : String)
deriving DecidableEq, Repr

/-- A flag that overrides one setting. -/
inductive Flag where
  | ansi
  | keepWhitespace
  | quoteStrings
  | reduceEnums
  | noThrow
  | quiet
deriving DecidableEq, Repr

/-- The overrides with the flag's setting given. -/
def Flag.give (w : Overrides) : Flag → Overrides
  | ansi => { w with ansiDoubleQuotes := some true }
  | keepWhitespace => { w with stripWhitespace := some false }
  | quoteStrings => { w with addRemovedStringQuotes := some true }
  | reduceEnums => { w with reduceEnumsToOneElement := some true }
  | noThrow => { w with throwOnSyntaxError := some false }
  | quiet => { w with writeSyntaxErrorsToConsole := some false }

/-- Why arguments are refused. -/
inductive ArgumentError where
  | unknownOption (argument : String)
  | missingValue (option : String)
  /-- The identifier delimiter is not one character. -/
  | invalidDelimiter (value : String)
  /-- A second input is named. -/
  | extraInput (argument : String)
deriving DecidableEq, Repr

/-- What is said of refused arguments. -/
def ArgumentError.message : ArgumentError → String
  | unknownOption argument => "unknown option `" ++ argument ++ "`"
  | missingValue option => "option `" ++ option ++ "` requires a value"
  | invalidDelimiter value =>
    "`--identifier-delimiter` takes exactly one character, got " ++ Text.quoteText value
  | extraInput argument =>
    "unexpected argument `" ++ argument ++ "`: only one input file is accepted"

/-- What one argument says. -/
inductive Argument where
  | help
  | flag (f : Flag)
  | lines
  | count
  | config (path : String)
  | delimiter (c : Char)
  | input (source : Input)
deriving DecidableEq, Repr

namespace Argument

/-- What an argument says that is a word of its own, where it is one. -/
def ofWord? : String → Option Argument
  | "-h" => some .help
  | "--help" => some .help
  | "--ansi" => some (.flag .ansi)
  | "--keep-whitespace" => some (.flag .keepWhitespace)
  | "--quote-strings" => some (.flag .quoteStrings)
  | "--reduce-enums" => some (.flag .reduceEnums)
  | "--no-throw" => some (.flag .noThrow)
  | "--quiet" => some (.flag .quiet)
  | "--lines" => some .lines
  | "--count" => some .count
  | "-" => some (.input .stdin)
  | _ => none

/-- The value that the argument gives to the option, where it gives one. -/
def valueFor? (option argument : String) : Option String :=
  (List.isPrefixOf? (option ++ "=").toList argument.toList).map String.ofList

/-- The settings file that a value names. -/
def ofConfigValue (value : String) : Except ArgumentError Argument :=
  if value.isEmpty then .error (.missingValue "--config") else .ok (.config value)

/-- The identifier delimiter that a value names. -/
def ofDelimiterValue (value : String) : Except ArgumentError Argument :=
  match value.toList with
  | [c] => .ok (.delimiter c)
  | _ => .error (.invalidDelimiter value)

/-- What the argument says. -/
def read (argument : String) : Except ArgumentError Argument :=
  match ofWord? argument with
  | some a => .ok a
  | none =>
    if argument == "--config" || argument == "--identifier-delimiter" then
      .error (.missingValue argument)
    else
      match valueFor? "--config" argument with
      | some value => ofConfigValue value
      | none =>
        match valueFor? "--identifier-delimiter" argument with
        | some value => ofDelimiterValue value
        | none =>
          if argument.toList.head? == some '-' then .error (.unknownOption argument)
          else .ok (.input (.file argument))

end Argument

/-- What arguments ask for, an input not named yet standing open. -/
structure Request where
  config : Option String
  overrides : Overrides
  input : Option Input
  layout : Batch.Layout
deriving DecidableEq, Repr

namespace Request

/-- What no arguments ask for. -/
def start : Request where
  config := none
  overrides := .empty
  input := none
  layout := .whole

/-- Where the queries come from: standard input, if nothing is named. -/
def source (r : Request) : Input :=
  r.input.getD .stdin

end Request

/-- What the command line asks for. -/
inductive Command where
  | help
  | run (request : Request)
deriving DecidableEq, Repr

/-- The request with one more argument taken in. Counting goes before lines, in either order. -/
def Request.take (r : Request) (text : String) : Argument → Except ArgumentError Command
  | .help => .ok .help
  | .flag f => .ok (.run { r with overrides := f.give r.overrides })
  | .lines => .ok (.run { r with layout := if r.layout == .whole then .lines else r.layout })
  | .count => .ok (.run { r with layout := .count })
  | .config path => .ok (.run { r with config := some path })
  | .delimiter c =>
    .ok (.run { r with overrides := { r.overrides with identifierDelimiter := some c } })
  | .input source =>
    if r.input.isSome then .error (.extraInput text)
    else .ok (.run { r with input := some source })

/-- What the arguments ask for beyond the request. -/
def Request.takeAll (r : Request) : List String → Except ArgumentError Command
  | [] => .ok (.run r)
  | text :: texts => do
    match ← r.take text (← Argument.read text) with
    | .help => return .help
    | .run r' => r'.takeAll texts

/-- What the arguments ask for. -/
def Command.read (arguments : List String) : Except ArgumentError Command :=
  Request.start.takeAll arguments

end CommandLine
end QueryDigest

import QueryDigest.CommandLine.Arguments
import QueryDigest.CommandLine.Usage
import QueryDigest.Config

/-!
# QueryDigest.CommandLine.Program

The program behind the command line, over any means of reading files and standard input, and any
wording of why a text gives no settings (`Surroundings`). It reads the arguments first, then the
settings file, then the input, and stops at the first of them that fails, with nothing on standard
output.
-/

namespace QueryDigest
namespace CommandLine

/-- An error of the operating system. -/
structure SystemError where
  text : String
  code : Nat
deriving DecidableEq, Repr

namespace SystemError

/-- The error as it is told. -/
def message (e : SystemError) : String :=
  e.text ++ " (os error " ++ toString e.code ++ ")"

/-- Nothing has that name. -/
def notFound : SystemError := ⟨"No such file or directory", 2⟩

/-- Something that is no directory is used as one. -/
def notDirectory : SystemError := ⟨"Not a directory", 20⟩

/-- A directory is read as a file. -/
def isDirectory : SystemError := ⟨"Is a directory", 21⟩

/-- A name is too long for the file system. -/
def nameTooLong : SystemError := ⟨"File name too long", 36⟩

end SystemError

/-- How the program reads what is not on its command line. -/
structure Surroundings (m : Type → Type) where
  file : String → m (Except SystemError ByteArray)
  stdin : m (Except SystemError ByteArray)
  /-- What the reader of settings says of a text that it refuses. -/
  refusal : String → String

/-- What a run of the program comes to. -/
structure Exit where
  status : UInt32
  out : String
  err : String

/-- Why a run ends before its first query. -/
inductive Failure where
  | file (path cause : String)
  | stdin (cause : String)
  | config (path cause : String)
deriving DecidableEq, Repr

/-- What is said of the failure. -/
def Failure.message : Failure → String
  | file path cause => "cannot read " ++ path ++ ": " ++ cause
  | stdin cause => "cannot read standard input: " ++ cause
  | config path cause => "invalid config " ++ path ++ ": " ++ cause

/-- The text that was read, or why there is none. -/
def decode (read : Except SystemError ByteArray) : Except String String :=
  match read with
  | .error e => .error e.message
  | .ok bytes =>
    match String.fromUTF8? bytes with
    | some text => .ok text
    | none => .error "stream did not contain valid UTF-8"

section

variable {m : Type → Type} [Monad m]

/-- The text of a file. -/
def readFile (around : Surroundings m) (path : String) : m (Except Failure String) := do
  return (decode (← around.file path)).mapError (.file path)

/-- The text of the input. -/
def readInput (around : Surroundings m) : Input → m (Except Failure String)
  | .stdin => do return (decode (← around.stdin)).mapError .stdin
  | .file path => readFile around path

/-- The settings before any flag. -/
def readOptions (around : Surroundings m) : Option String → m (Except Failure Options)
  | none => return .ok .default
  | some path => do
    match ← readFile around path with
    | .error e => return .error e
    | .ok text =>
      match Options.parse? text with
      | some o => return .ok o
      | none => return .error (.config path (around.refusal text))

/-- The transcript of the run that the arguments request. -/
def execute (around : Surroundings m) (r : Request) : m (Except Failure Batch.Transcript) := do
  match ← readOptions around r.config with
  | .error e => return .error e
  | .ok base =>
    match ← readInput around r.source with
    | .error e => return .error e
    | .ok input => return .ok (Batch.run r.layout (r.overrides.apply base) input)

/-- The program. -/
def program (around : Surroundings m) (arguments : List String) : m Exit := do
  match Command.read arguments with
  | .error e =>
    return ⟨2, "", Batch.line ("error: " ++ e.message) ++ Batch.line usageHint⟩
  | .ok .help => return ⟨0, "", String.join (usageLines.map Batch.line)⟩
  | .ok (.run r) =>
    match ← execute around r with
    | .error e => return ⟨1, "", Batch.line ("error: " ++ e.message)⟩
    | .ok t => return ⟨if t.ok then 0 else 1, t.out, t.err⟩

end

end CommandLine
end QueryDigest

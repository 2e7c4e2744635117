import QueryDigest.CommandLine.Program

/-!
# QueryDigest.Main

The program on a real file system.
-/

namespace QueryDigest
namespace CommandLine

/-- The number of an error, which comes negated from some calls. -/
def errorCode (code : UInt32) : Nat :=
  code.toInt32.toInt.natAbs

/-- The error of the operating system behind a failed read. -/
def systemErrorOf : IO.Error → SystemError
  | .noFileOrDirectory .. => .notFound
  | .permissionDenied _ code text => ⟨text, errorCode code⟩
  | .inappropriateType _ code text => ⟨text, errorCode code⟩
  | .invalidArgument _ code text => ⟨text, errorCode code⟩
  | e => ⟨toString e, 0⟩

/-- What the read gives, or its error. -/
def attempt (read : IO ByteArray) : IO (Except SystemError ByteArray) := do
  try
    return .ok (← read)
  catch e =>
    return .error (systemErrorOf e)

/-- All bytes that the stream still holds, behind those read. -/
partial def drain (stream : IO.FS.Stream) (done : ByteArray) : IO ByteArray := do
  let chunk ← stream.read 65536
  if chunk.isEmpty then return done else drain stream (done ++ chunk)

/-- Files and standard input of the process. A refused settings text is told with no reason of its
own, for `Options.parse?` gives none. -/
def processSurroundings : Surroundings IO where
  file path := attempt (IO.FS.readBinFile path)
  stdin := attempt do drain (← IO.getStdin) ByteArray.empty
  refusal _ := "no settings"

end CommandLine
end QueryDigest

open QueryDigest.CommandLine in
/-- The program as a process. -/
def main (arguments : List String) : IO UInt32 := do
  let exit ← program processSurroundings arguments
  IO.print exit.out
  IO.eprint exit.err
  return exit.status

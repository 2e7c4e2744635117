import QueryDigest.CommandLine.Program

/-!
# QueryDigest.CommandLine.Directory

Files held in memory, and the program run over them. A path leads from the directory down: each
part but the last has to name a directory, and a path that ends in a slash too. The directory is
the top; nothing is found by a path that begins at the root of a file system.
-/

namespace QueryDigest
namespace CommandLine

/-- Files by their paths below the directory, each path as its parts. -/
structure Directory where
  files : List (List String × ByteArray)

namespace Directory

/-- The parts of a path. -/
def parts (path : String) : List String :=
  (path.splitOn "/").filter fun part => !(part.isEmpty || part == ".")

/-- The directory with files of the given names. -/
def ofFiles (files : List (String × ByteArray)) : Directory :=
  ⟨files.map fun (name, bytes) => (parts name, bytes)⟩

/-- The file at a path, given as its parts. -/
def file? (d : Directory) (path : List String) : Option ByteArray :=
  (d.files.find? (·.1 == path)).map (·.2)

/-- Is there a directory at the path? -/
def isDirectory (d : Directory) (path : List String) : Bool :=
  path.isEmpty || d.files.any fun (name, _) => path.isPrefixOf name && path != name

/-- The path below the directory that the parts lead to from the directory `here`. -/
def walk (d : Directory) (here : List String) : List String → Except SystemError (List String)
  | [] => .ok here
  | part :: rest =>
    if (d.file? here).isSome then .error .notDirectory
    else if !d.isDirectory here then .error .notFound
    else if part == ".." then walk d here.dropLast rest
    else if 255 < part.utf8ByteSize then .error .nameTooLong
    else walk d (here ++ [part]) rest

/-- Does the path say that it leads to a directory? -/
def namesDirectory (path : String) : Bool :=
  ["", ".", ".."].contains ((path.splitOn "/").getLast?.getD "")

/-- The bytes of the file at the path. -/
def read (d : Directory) (path : String) : Except SystemError ByteArray :=
  if path.isEmpty || (path.startsWith "/" && !(parts path).isEmpty) then .error .notFound
  else
    match d.walk [] (parts path) with
    | .error e => .error e
    | .ok place =>
      match d.file? place with
      | some bytes => if namesDirectory path then .error .notDirectory else .ok bytes
      | none => if d.isDirectory place then .error .isDirectory else .error .notFound

/-- The directory and the bytes of standard input as what surrounds the program. -/
def around (d : Directory) (stdin : ByteArray) (refusal : String → String) : Surroundings Id where
  file path := d.read path
  stdin := .ok stdin
  refusal := refusal

/-- The program in the directory. -/
def run (d : Directory) (stdin : ByteArray) (refusal : String → String) (arguments : List String) :
    Exit :=
  program (d.around stdin refusal) arguments

end Directory
end CommandLine
end QueryDigest

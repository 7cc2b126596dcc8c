import Script.CommandLine

/-! # Files by path

A model of a file system, against which the command line can be run without reading anything.  A
path is followed name by name, from the root if it starts with a slash and from the working
directory otherwise.  The first name that cannot be followed decides the failure.

Neither the executable, which reads real files, nor any theorem uses this module.  It is there for
tests, which run the command line among files that they give. -/

namespace Script.CommandLine

/-- The files and directories that a program finds. The executable does not use them, and no theorem
is about them: they stand in for real files when the command line is tested. -/
structure Files where
  /-- Each file, by the names that lead to it from the root. -/
  contents : List (List String × ByteArray)
  /-- Directories that are there whether they hold files or not. -/
  directories : List (List String)
  /-- Where paths start that do not start at the root. -/
  workingDirectory : List String

namespace Files

/-- What a path can lead to. -/
inductive Node where
  | file (content : ByteArray)
  | directory (path : List String)

/-- Whether a directory is at a place: it is one of the given ones, or something lies in it. -/
def isDirectory (fs : Files) (path : List String) : Bool :=
  (fs.workingDirectory :: fs.directories ++ fs.contents.map (·.1.dropLast)).any path.isPrefixOf

/-- What is at a place. -/
def find? (fs : Files) (path : List String) : Option Node :=
  match fs.contents.lookup path with
  | some content => some (.file content)
  | none => if fs.isDirectory path then some (.directory path) else none

/-- The number of bytes that a single name may have. -/
def maxName : Nat := 255

/-- The number of bytes that a whole path may have. -/
def maxPath : Nat := 4095

/-- Follows one name.  An empty name, which a doubled slash or one at the end makes, stays where it
is, like a single point; two points lead to the directory above, and from the root nowhere else. -/
def follow (fs : Files) (node : Node) (name : String) : Except ReadFailure Node :=
  match node with
  | .file _ => .error .notADirectory
  | .directory path =>
    if name = "" ∨ name = "." then
      .ok node
    else if name = ".." then
      .ok (.directory path.dropLast)
    else if maxName < name.utf8ByteSize then
      .error .nameTooLong
    else
      match fs.find? (path ++ [name]) with
      | some found => .ok found
      | none => .error .notFound

/-- What a path leads to. -/
def resolve (fs : Files) (path : String) : Except ReadFailure Node :=
  if path = "" then
    .error .notFound
  else if maxPath < path.utf8ByteSize then
    .error .nameTooLong
  else
    let start := if path.startsWith "/" then [] else fs.workingDirectory
    (path.splitOn "/").foldlM fs.follow (.directory start)

/-- The content of the file that a path leads to. -/
def read (fs : Files) (path : String) : Except ReadFailure ByteArray :=
  match fs.resolve path with
  | .ok (.file content) => .ok content
  | .ok (.directory _) => .error .isADirectory
  | .error failure => .error failure

/-- What there is to read at an origin, with the given bytes on standard input. -/
def readOrigin? (fs : Files) (standardInput : ByteArray) :
    Option Origin → Except ReadFailure ByteArray
  | some (.file path) => fs.read path
  | some .standardInput => .ok standardInput
  | _ => .ok .empty

end Files

/-- The response to arguments among files, with the given bytes on standard input. -/
def respondAmong (fs : Files) (standardInput : ByteArray) (fuel : Nat) (arguments : List String) :
    Option Response :=
  let request := Request.ofArguments arguments
  request.respond fuel (fs.readOrigin? standardInput request.origin?)

end Script.CommandLine

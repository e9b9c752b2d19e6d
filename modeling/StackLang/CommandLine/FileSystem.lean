import StackLang.CommandLine.Path

/-!
The files that commands read and write. A system holds files and directories, each at the place
that names lead to from its root, and commands work in one of its directories. A path is walked
part by part from there or from the root, and every part but the last has to lead to a directory.
There are no links, no devices, and no files that may not be read or written.
-/
namespace StackLang.CommandLine

inductive FileError
  | notFound
  | notDirectory
  | isDirectory
  | nameTooLong
  deriving DecidableEq

namespace FileError

def all : List FileError := [.notFound, .notDirectory, .isDirectory, .nameTooLong]

def number : FileError → Nat
  | .notFound => 2
  | .notDirectory => 20
  | .isDirectory => 21
  | .nameTooLong => 36

def words : FileError → String
  | .notFound => "No such file or directory"
  | .notDirectory => "Not a directory"
  | .isDirectory => "Is a directory"
  | .nameTooLong => "File name too long"

def message (e : FileError) : String := e.words ++ " (os error " ++ Nat.repr e.number ++ ")"

end FileError

/-- The names that lead somewhere from the root. -/
abbrev Place := List String

inductive Node
  | file (bytes : List UInt8)
  | directory
  deriving DecidableEq

/-- Of two nodes at one place the first counts. The root is a directory and is not listed. -/
structure FileSystem where
  nodes : List (Place × Node)
  workingDirectory : Place

structure Location where
  folder : Place
  name : String
  endsInSlash : Bool

def Location.place (l : Location) : Place := l.folder ++ [l.name]

namespace FileSystem

def node? (fs : FileSystem) (place : Place) : Option Node :=
  if place = [] then some .directory else fs.nodes.lookup place

/-- What has the name in a directory. A name that is too long is refused before it is looked for. -/
def child? (fs : FileSystem) (folder : Place) (name : String) :
    Except FileError (Option Node) :=
  match fs.node? folder with
  | none => .error .notFound
  | some (.file _) => .error .notDirectory
  | some .directory =>
    if maxNameSize < name.utf8ByteSize then .error .nameTooLong
    else .ok (fs.node? (folder ++ [name]))

/-- Follows a part to a directory. The root is the directory above itself. -/
def enter (fs : FileSystem) (folder : Place) : PathPart → Except FileError Place
  | .here => .ok folder
  | .up => .ok folder.dropLast
  | .name name => do
    match ← fs.child? folder name with
    | none => .error .notFound
    | some (.file _) => .error .notDirectory
    | some .directory => return folder ++ [name]

def walk (fs : FileSystem) (folder : Place) : List PathPart → Except FileError Place
  | [] => .ok folder
  | part :: rest => do fs.walk (← fs.enter folder part) rest

def startOf (fs : FileSystem) (p : Path) : Place := if p.fromRoot then [] else fs.workingDirectory

/-- Finds what the last name of a path stands for. A path without one leads to a directory. -/
def locate (fs : FileSystem) (path : String) : Except FileError Location :=
  if path.isEmpty then .error .notFound
  else if maxPathSize < path.utf8ByteSize then .error .nameTooLong
  else
    let p := Path.ofString path
    match p.parts.getLast? with
    | some (.name name) => do
      return ⟨← fs.walk (fs.startOf p) p.parts.dropLast, name, p.endsInSlash⟩
    | _ => do
      let _ ← fs.walk (fs.startOf p) p.parts
      .error .isDirectory

def read (fs : FileSystem) (path : String) : Except FileError (List UInt8) := do
  let l ← fs.locate path
  match ← fs.child? l.folder l.name with
  | none => .error .notFound
  | some .directory => .error .isDirectory
  | some (.file bytes) => if l.endsInSlash then .error .notDirectory else return bytes

def put (fs : FileSystem) (place : Place) (bytes : List UInt8) : FileSystem :=
  { fs with nodes := (place, .file bytes) :: fs.nodes }

def write (fs : FileSystem) (path : String) (bytes : List UInt8) :
    Except FileError FileSystem := do
  let l ← fs.locate path
  if l.endsInSlash then .error .isDirectory
  else
    match ← fs.child? l.folder l.name with
    | some .directory => .error .isDirectory
    | _ => return fs.put l.place bytes

end FileSystem

end StackLang.CommandLine

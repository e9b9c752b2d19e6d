/-!
Paths as the parts that a walk follows. Slashes part them, any number of them at a time; a slash
in front starts the walk at the root, and one at the end asks for a directory.
-/
namespace StackLang.CommandLine

inductive PathPart
  | here
  | up
  | name (s : String)
  deriving DecidableEq

def PathPart.ofString (s : String) : PathPart :=
  if s = "." then .here else if s = ".." then .up else .name s

def pieces (path : String) : List String :=
  ((path.toList.splitOnP (· == '/')).filter fun piece => !piece.isEmpty).map String.ofList

structure Path where
  fromRoot : Bool
  parts : List PathPart
  endsInSlash : Bool

def Path.ofString (path : String) : Path where
  fromRoot := path.toList.head? = some '/'
  parts := (pieces path).map .ofString
  endsInSlash := path.toList.getLast? = some '/'

def maxNameSize : Nat := 255

def maxPathSize : Nat := 4095

end StackLang.CommandLine

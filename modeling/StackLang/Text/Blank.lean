import StackLang.Text.Ranges

/-!
Blank characters, that is the property White_Space, and what is cut along them: a text is
split into lines at line feeds and into words at blanks, and trimmed of the blanks around it.
-/
namespace StackLang.Text

/-- The code points of the property White_Space. -/
def blankRanges : Ranges :=
  [(0x09, 0x0D), (0x20, 0x20), (0x85, 0x85), (0xA0, 0xA0), (0x1680, 0x1680),
   (0x2000, 0x200A), (0x2028, 0x2029), (0x202F, 0x202F), (0x205F, 0x205F), (0x3000, 0x3000)]

def isBlank (c : Char) : Bool := blankRanges.contains c

def trimEnd (cs : List Char) : List Char := (cs.reverse.dropWhile isBlank).reverse

def trim (cs : List Char) : List Char := trimEnd (cs.dropWhile isBlank)

def words (cs : List Char) : List (List Char) :=
  (cs.splitOnP isBlank).filter fun word => !word.isEmpty

/-- The pieces between line feeds. A line feed ends a line, so nothing stands after the last
one unless more characters do. -/
def lines (cs : List Char) : List (List Char) :=
  let pieces := cs.splitOnP (· == '\n')
  if pieces.getLast? = some [] then pieces.dropLast else pieces

end StackLang.Text

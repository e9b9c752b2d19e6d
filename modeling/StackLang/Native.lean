import StackLang.Value
import StackLang.Text.Blank

/-!
The functions that the machine itself provides. Each takes one argument; its index is the operand
by which code calls it.
-/
namespace StackLang

inductive Native
  | print
  | input
  | strToInt
  | intToStr
  deriving DecidableEq

namespace Native

def all : List Native := [.print, .input, .strToInt, .intToStr]

def name : Native → String
  | .print => "print"
  | .input => "input"
  | .strToInt => "str_to_int"
  | .intToStr => "int_to_str"

def index : Native → Nat
  | .print => 0
  | .input => 1
  | .strToInt => 2
  | .intToStr => 3

def arity (_ : Native) : Nat := 1

def ofIndex? (i : Nat) : Option Native := all[i]?

def ofName? (name : String) : Option Native := all.find? (·.name = name)

theorem ofIndex?_index (n : Native) : ofIndex? n.index = some n := by cases n <;> rfl

def parseInt? (s : String) : Option Int := Text.readInt? (Text.trim s.toList)

end Native

end StackLang

import StackLang.Text.Decimal

/-!
The values of the language: integers, booleans, strings and the value of what was never set.
The same values are written as literals, stand in code, and live in the machine.
-/
namespace StackLang

inductive Value
  | int (n : Int)
  | bool (b : Bool)
  | str (s : String)
  | nothing
  deriving DecidableEq

inductive ValueType
  | integer
  | boolean
  | string
  | nothing
  deriving DecidableEq

def ValueType.name : ValueType → String
  | .integer => "integer"
  | .boolean => "boolean"
  | .string => "string"
  | .nothing => "none"

namespace Value

def type : Value → ValueType
  | .int _ => .integer
  | .bool _ => .boolean
  | .str _ => .string
  | .nothing => .nothing

/-- What a condition and the logical operators take as true: a boolean itself, an integer other
than zero, a string that is not empty. -/
def truthy : Value → Bool
  | .int n => n ≠ 0
  | .bool b => b
  | .str s => !s.isEmpty
  | .nothing => false

/-- The text that printing a value shows. Strings are shown raw. -/
def display : Value → String
  | .int n => Text.showInt n
  | .bool true => "TRUE"
  | .bool false => "FALSE"
  | .str s => s
  | .nothing => "NONE"

/-- Two integers compare as numbers, two strings by their code points. -/
def order? : Value → Value → Option Ordering
  | .int a, .int b => some (compare a b)
  | .str a, .str b => some (compare a b)
  | _, _ => none

end Value

end StackLang

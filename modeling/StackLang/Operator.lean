import StackLang.Value

/-!
The operators of expressions and what they compute. Integer results are exact: one that leaves the
range of the language is refused, never wrapped. The logical operators take both operands as they
are and have no short cut of their own.
-/
namespace StackLang

inductive UnaryOp
  | neg
  | not
  deriving DecidableEq

inductive BinaryOp
  | or
  | and
  | eq
  | ne
  | lt
  | gt
  | le
  | ge
  | add
  | sub
  | mul
  | div
  deriving DecidableEq

def UnaryOp.mnemonic : UnaryOp → String
  | .neg => "neg"
  | .not => "not"

namespace BinaryOp

def symbol : BinaryOp → String
  | .or => "||"
  | .and => "&&"
  | .eq => "=="
  | .ne => "!="
  | .lt => "<"
  | .gt => ">"
  | .le => "<="
  | .ge => ">="
  | .add => "+"
  | .sub => "-"
  | .mul => "*"
  | .div => "/"

def mnemonic : BinaryOp → String
  | .or => "or"
  | .and => "and"
  | .eq => "equal"
  | .ne => "nequal"
  | .lt => "less"
  | .gt => "great"
  | .le => "leq"
  | .ge => "geq"
  | .add => "add"
  | .sub => "subtract"
  | .mul => "mul"
  | .div => "div"

end BinaryOp

inductive OperandFault
  | operandTypes (op : BinaryOp) (left right : ValueType)
  | operandType (op : UnaryOp) (found : ValueType)
  | overflow (op : BinaryOp)
  | negOverflow
  | divisionByZero

namespace OperandFault

def expected : BinaryOp → String
  | .sub | .mul | .div => "two integers"
  | _ => "two integers or two strings"

def message : OperandFault → String
  | .operandTypes op left right =>
    "type error: '" ++ op.mnemonic ++ "' expects " ++ expected op ++ ", got " ++ left.name ++
      " and " ++ right.name
  | .operandType op found =>
    "type error: '" ++ op.mnemonic ++ "' expects an integer, got " ++ found.name
  | .overflow op => "integer overflow in '" ++ op.mnemonic ++ "'"
  | .negOverflow => "integer overflow in '" ++ UnaryOp.neg.mnemonic ++ "'"
  | .divisionByZero => "division by zero"

end OperandFault

open Text (InIntRange)

def exactInt (n : Int) (otherwise : OperandFault) : Except OperandFault Value :=
  if InIntRange n then .ok (.int n) else .error otherwise

def UnaryOp.apply : UnaryOp → Value → Except OperandFault Value
  | .neg, .int n => exactInt (-n) .negOverflow
  | .neg, v => .error (.operandType .neg v.type)
  | .not, v => .ok (.bool (!v.truthy))

namespace BinaryOp

def holds : BinaryOp → Ordering → Bool
  | .lt, o => o.isLT
  | .gt, o => o.isGT
  | .le, o => o.isLE
  | .ge, o => o.isGE
  | _, _ => false

def applyOrder (op : BinaryOp) (left right : Value) : Except OperandFault Value :=
  match left.order? right with
  | some o => .ok (.bool (op.holds o))
  | none => .error (.operandTypes op left.type right.type)

/-- Division drops the fraction, so it goes toward zero. -/
def applyInts : BinaryOp → Int → Int → Except OperandFault Value
  | .add, a, b => exactInt (a + b) (.overflow .add)
  | .sub, a, b => exactInt (a - b) (.overflow .sub)
  | .mul, a, b => exactInt (a * b) (.overflow .mul)
  | _, a, b => if b = 0 then .error .divisionByZero else exactInt (a.tdiv b) (.overflow .div)

def apply (op : BinaryOp) (left right : Value) : Except OperandFault Value :=
  match op with
  | .or => .ok (.bool (left.truthy || right.truthy))
  | .and => .ok (.bool (left.truthy && right.truthy))
  | .eq => .ok (.bool (left = right))
  | .ne => .ok (.bool (left ≠ right))
  | .lt | .gt | .le | .ge => op.applyOrder left right
  | .add =>
    match left, right with
    | .int a, .int b => applyInts .add a b
    | .str a, .str b => .ok (.str (a ++ b))
    | _, _ => .error (.operandTypes .add left.type right.type)
  | .sub | .mul | .div =>
    match left, right with
    | .int a, .int b => applyInts op a b
    | _, _ => .error (.operandTypes op left.type right.type)

end BinaryOp

end StackLang

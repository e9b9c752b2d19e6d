import StackLang.Code.Check
import StackLang.Interaction
import StackLang.Stack

/-!
The stack machine: what it holds, what bounds it, and why it stops before a program has returned.
-/
namespace StackLang

structure Limits where
  maxCallDepth : Nat
  maxSteps : Option Nat
  maxStackSize : Nat

def Limits.standard : Limits := ⟨1000, none, 10000⟩

/-- A call that has not returned: its function, its variables, and the position of the instruction
to be executed next. -/
structure Frame where
  function : FunctionCode
  locals : Array Value
  pc : Nat

structure State where
  stack : Stack Value
  globals : Array Value
  frames : Stack Frame
  steps : Nat

namespace State

def fresh (globalCount : Nat) : State :=
  ⟨.empty, Array.replicate globalCount .nothing, .empty, 0⟩

def reset (s : State) : State := { s with stack := .empty, frames := .empty, steps := 0 }

def push (s : State) (v : Value) : State := { s with stack := s.stack.push v }

def callStack (s : State) : List String := (s.frames.items.map (·.function.name)).reverse

end State

inductive LimitFault
  | steps (max : Nat)
  | stackSize (max : Nat)
  | callDepth (max : Nat) (function : String)

inductive InternalFault
  | rejected (error : CheckError)
  | noFrame
  | fellOff (function : String)
  | underflow
  | badSlot (slot : Slot)
  | undefinedCall (function : String)
  | unknownNative (index : Nat)

inductive Fault
  | operand (fault : OperandFault)
  | nativeOperand (native : Native) (found : ValueType)
  | conversion (text : String)
  | interaction (error : InteractionError)
  | limit (fault : LimitFault)
  | internal (fault : InternalFault)

def LimitFault.message : LimitFault → String
  | .steps max => "execution step limit exceeded (" ++ Nat.repr max ++ ")"
  | .stackSize max => "stack size limit exceeded (" ++ Nat.repr max ++ ")"
  | .callDepth max function =>
    "call depth limit exceeded (" ++ Nat.repr max ++ ") - possible infinite recursion in '" ++
      function ++ "'"

def InternalFault.message : InternalFault → String
  | .rejected e => e.message
  | .noFrame => "no active frame"
  | .fellOff function => "fell off the end of '" ++ function ++ "'"
  | .underflow => "operand stack underflow"
  | .badSlot slot => slot.outOfRange
  | .undefinedCall function => "call to undefined function '" ++ function ++ "'"
  | .unknownNative i => "unknown native function " ++ Nat.repr i

namespace Fault

def nativeExpects : Native → String
  | .strToInt => "a string"
  | _ => "an integer"

def message : Fault → String
  | .operand fault => fault.message
  | .nativeOperand function found =>
    "type error: '" ++ function.name ++ "' expects " ++ nativeExpects function ++ ", got " ++
      found.name
  | .conversion text => "cannot convert \"" ++ text ++ "\" to an integer"
  | .interaction error => error.message
  | .limit fault => fault.message
  | .internal fault => "internal error: " ++ fault.message

def report (fault : Fault) (callStack : List String) : String :=
  -- The innermost call comes first.
  let calls := callStack.reverse.zipIdx.map fun (function, i) =>
    "\n    " ++ Nat.repr i ++ ": " ++ function
  let stack := if callStack.isEmpty then "" else "\n  call stack:" ++ String.join calls
  "runtime error: " ++ fault.message ++ stack

end Fault

end StackLang

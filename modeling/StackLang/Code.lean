import StackLang.Native
import StackLang.Operator
import StackLang.Scope

/-!
Code for the stack machine. A function is a sequence of instructions, and jumps go to positions in
it; a table holds the functions of a program and the number of its global variables.
-/
namespace StackLang

inductive Instr
  | push (value : Value)
  | load (slot : Slot)
  | store (slot : Slot)
  | unary (op : UnaryOp)
  | binary (op : BinaryOp)
  | pop
  | jump (target : Nat)
  | jumpIf (target : Nat)
  | call (function : String)
  | native (index : Nat)
  | ret
  deriving DecidableEq

namespace Instr

def mnemonic : Instr → String
  | .push (.int _) => "lint"
  | .push (.bool _) => "lboo"
  | .push (.str _) => "lstr"
  | .push .nothing => "lnon"
  | .load (.frame _) => "lload"
  | .load (.global _) => "gload"
  | .store (.frame _) => "lstore"
  | .store (.global _) => "gstore"
  | .unary op => op.mnemonic
  | .binary op => op.mnemonic
  | .pop => "pop"
  | .jump _ => "jmp"
  | .jumpIf _ => "cjmp"
  | .call _ => "call"
  | .native _ => "ncall"
  | .ret => "ret"

def jumpTarget? : Instr → Option Nat
  | .jump target => some target
  | .jumpIf target => some target
  | _ => none

end Instr

/-- The code of a function. Its frame has `localCount` slots, the parameters first. -/
structure FunctionCode where
  name : String
  paramCount : Nat
  localCount : Nat
  code : Array Instr
  deriving DecidableEq

structure Table where
  globalCount : Nat
  functions : List FunctionCode
  deriving DecidableEq

def Table.find? (t : Table) (name : String) : Option FunctionCode :=
  t.functions.find? (·.name = name)

end StackLang

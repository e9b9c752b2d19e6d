import StackLang.Operator

/-!
Programs as trees. Reads and assignments of variables, loops, and the statements that leave or
continue a loop carry a number, by which later stages refer to them.
-/
namespace StackLang

inductive Expr
  | literal (value : Value)
  | var (id : Nat) (name : String)
  | unary (op : UnaryOp) (operand : Expr)
  | binary (op : BinaryOp) (left right : Expr)
  | call (function : String) (args : List Expr)

inductive Stmt
  | declare (names : List String)
  | assign (id : Nat) (name : String) (value : Expr)
  | ret (value : Option Expr)
  | leave (id : Nat)
  | again (id : Nat)
  | branch (cond : Expr) (thenBody elseBody : List Stmt)
  | loop (id : Nat) (cond : Expr) (body : List Stmt)
  | eval (expr : Expr)

structure FunctionDecl where
  name : String
  params : List String
  body : List Stmt

inductive Item
  | globals (names : List String)
  | function (decl : FunctionDecl)

structure Program where
  globals : List (List String)
  functions : List FunctionDecl

def Program.globalNames (p : Program) : List String := p.globals.flatten

namespace Item

def globals? : Item → Option (List String)
  | .globals names => some names
  | .function _ => none

def function? : Item → Option FunctionDecl
  | .globals _ => none
  | .function decl => some decl

end Item

end StackLang

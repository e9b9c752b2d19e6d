import StackLang.Tree

/-!
How many instructions a part of a program takes. Jumps are written with their targets, so these
numbers are known before any code is.
-/
namespace StackLang

mutual

def Expr.length : Expr → Nat
  | .literal _ => 1
  | .var _ _ => 1
  | .unary _ operand => operand.length + 1
  | .binary _ left right => left.length + right.length + 1
  | .call _ args => Expr.lengthAll args + 1

def Expr.lengthAll : List Expr → Nat
  | [] => 0
  | e :: rest => e.length + Expr.lengthAll rest

end

mutual

def Stmt.length : Stmt → Nat
  | .declare _ => 0
  | .assign _ _ value => value.length + 1
  | .ret (some value) => value.length + 1
  | .ret none => 2
  | .leave _ => 1
  | .again _ => 1
  | .branch cond thenBody elseBody =>
    cond.length + Stmt.lengthAll thenBody + Stmt.lengthAll elseBody + 2
  | .loop _ cond body => cond.length + Stmt.lengthAll body + 2
  | .eval e => e.length + 1

def Stmt.lengthAll : List Stmt → Nat
  | [] => 0
  | s :: rest => s.length + Stmt.lengthAll rest

end

def FunctionDecl.length (f : FunctionDecl) : Nat := Stmt.lengthAll f.body + 2

end StackLang

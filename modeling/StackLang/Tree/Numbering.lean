import StackLang.Tree

/-!
Numbers for the nodes of a program. One counter runs over the functions in their order, over
statements, operands and arguments from left to right, and meets a node before its parts.
-/
namespace StackLang

mutual

/-- Numbers an expression from `n` on; gives back the next free number. -/
def Expr.number (n : Nat) : Expr → Expr × Nat
  | .literal v => (.literal v, n)
  | .var _ name => (.var n name, n + 1)
  | .unary op operand =>
    let operand := operand.number n
    (.unary op operand.1, operand.2)
  | .binary op left right =>
    let left := left.number n
    let right := right.number left.2
    (.binary op left.1 right.1, right.2)
  | .call f args =>
    let args := Expr.numberAll n args
    (.call f args.1, args.2)

def Expr.numberAll (n : Nat) : List Expr → List Expr × Nat
  | [] => ([], n)
  | e :: rest =>
    let e := e.number n
    let rest := Expr.numberAll e.2 rest
    (e.1 :: rest.1, rest.2)

end

mutual

def Stmt.number (n : Nat) : Stmt → Stmt × Nat
  | .declare names => (.declare names, n)
  | .assign _ name value =>
    let value := value.number (n + 1)
    (.assign n name value.1, value.2)
  | .ret none => (.ret none, n)
  | .ret (some value) =>
    let value := value.number n
    (.ret (some value.1), value.2)
  | .leave _ => (.leave n, n + 1)
  | .again _ => (.again n, n + 1)
  | .branch cond thenBody elseBody =>
    let cond := cond.number n
    let thenBody := Stmt.numberAll cond.2 thenBody
    let elseBody := Stmt.numberAll thenBody.2 elseBody
    (.branch cond.1 thenBody.1 elseBody.1, elseBody.2)
  | .loop _ cond body =>
    let cond := cond.number (n + 1)
    let body := Stmt.numberAll cond.2 body
    (.loop n cond.1 body.1, body.2)
  | .eval e =>
    let e := e.number n
    (.eval e.1, e.2)

def Stmt.numberAll (n : Nat) : List Stmt → List Stmt × Nat
  | [] => ([], n)
  | s :: rest =>
    let s := s.number n
    let rest := Stmt.numberAll s.2 rest
    (s.1 :: rest.1, rest.2)

end

def FunctionDecl.numberAll (n : Nat) : List FunctionDecl → List FunctionDecl × Nat
  | [] => ([], n)
  | f :: rest =>
    let body := Stmt.numberAll n f.body
    let rest := FunctionDecl.numberAll body.2 rest
    ({ f with body := body.1 } :: rest.1, rest.2)

/-- The program of some items: global variables and functions apart, each in their order, and the
nodes numbered from zero. -/
def Program.ofItems (items : List Item) : Program where
  globals := items.filterMap Item.globals?
  functions := (FunctionDecl.numberAll 0 (items.filterMap Item.function?)).1

end StackLang

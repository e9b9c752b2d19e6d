import Std.Data.TreeMap.Basic
import StackLang.Scope
import StackLang.Tree

/-!
What the names of a program mean: the slot of each variable that is read or assigned, the loop of
each statement that leaves or continues one, and the size of each function's frame. A program
whose names do not all have a meaning is refused at the first one that has none.
-/
namespace StackLang

inductive NameKind
  | variable
  | parameter
  | function
  deriving DecidableEq

def NameKind.noun : NameKind → String
  | .variable => "variable"
  | .parameter => "parameter"
  | .function => "function"

/-- The two statements that need a loop around them. -/
inductive LoopJump
  | leave
  | again
  deriving DecidableEq

def LoopJump.word : LoopJump → String
  | .leave => "break"
  | .again => "continue"

inductive ScopeError
  | duplicate (kind : NameKind) (name : String)
  | undeclared (kind : NameKind) (name : String)
  | outsideLoop (jump : LoopJump)
  | wrongArity (function : String) (expected found : Nat)

def ScopeError.message : ScopeError → String
  | .duplicate kind name =>
    "duplicate declaration of " ++ kind.noun ++ " '" ++ name ++
      "'\n  hint: a name can be declared once per scope"
  | .undeclared kind name => "undeclared " ++ kind.noun ++ " '" ++ name ++ "'"
  | .outsideLoop jump =>
    "'" ++ jump.word ++ "' outside of a loop\n  hint: '" ++ jump.word ++
      "' must appear inside a while body"
  | .wrongArity function expected found =>
    "function '" ++ function ++ "' expects " ++ Nat.repr expected ++ " argument(s), got " ++
      Nat.repr found

structure Resolutions where
  slots : Std.TreeMap Nat Slot
  loops : Std.TreeMap Nat Nat
  frames : Std.TreeMap String Nat
  globalCount : Nat

namespace Resolutions

def empty (globalCount : Nat) : Resolutions := ⟨{}, {}, {}, globalCount⟩

def slot? (r : Resolutions) (id : Nat) : Option Slot := r.slots[id]?

def loopOf? (r : Resolutions) (id : Nat) : Option Nat := r.loops[id]?

def frameSize? (r : Resolutions) (function : String) : Option Nat := r.frames[function]?

def setSlot (r : Resolutions) (id : Nat) (slot : Slot) : Resolutions :=
  { r with slots := r.slots.insert id slot }

def setLoop (r : Resolutions) (id target : Nat) : Resolutions :=
  { r with loops := r.loops.insert id target }

def setFrameSize (r : Resolutions) (function : String) (size : Nat) : Resolutions :=
  { r with frames := r.frames.insert function size }

def resolveVar (scopes : Scopes) (r : Resolutions) (id : Nat) (name : String) :
    Except ScopeError Resolutions :=
  match scopes.lookup? name with
  | some slot => .ok (r.setSlot id slot)
  | none => .error (.undeclared .variable name)

def resolveJump (scopes : Scopes) (r : Resolutions) (id : Nat) (jump : LoopJump) :
    Except ScopeError Resolutions :=
  match scopes.nearestLoop? with
  | some target => .ok (r.setLoop id target)
  | none => .error (.outsideLoop jump)

end Resolutions

open Resolutions

mutual

def Expr.resolve (scopes : Scopes) (r : Resolutions) : Expr → Except ScopeError Resolutions
  | .literal _ => .ok r
  | .var id name => resolveVar scopes r id name
  | .unary _ operand => operand.resolve scopes r
  | .binary _ left right => do
    let r ← left.resolve scopes r
    right.resolve scopes r
  | .call function args =>
    match scopes.global.function? function with
    | none => .error (.undeclared .function function)
    | some signature =>
      if signature.arity = args.length then Expr.resolveAll scopes r args
      else .error (.wrongArity function signature.arity args.length)

def Expr.resolveAll (scopes : Scopes) (r : Resolutions) :
    List Expr → Except ScopeError Resolutions
  | [] => .ok r
  | e :: rest => do
    let r ← e.resolve scopes r
    Expr.resolveAll scopes r rest

end

def Scopes.declareAll (kind : NameKind) (scopes : Scopes) :
    List String → Except ScopeError Scopes
  | [] => .ok scopes
  | name :: rest =>
    match scopes.declare? name with
    | some (_, scopes) => scopes.declareAll kind rest
    | none => .error (.duplicate kind name)

mutual

def Stmt.resolve (scopes : Scopes) (r : Resolutions) :
    Stmt → Except ScopeError (Scopes × Resolutions)
  | .declare names => do return (← scopes.declareAll .variable names, r)
  | .assign id name value => do
    let r ← value.resolve scopes r
    return (scopes, ← resolveVar scopes r id name)
  | .ret none => .ok (scopes, r)
  | .ret (some value) => do return (scopes, ← value.resolve scopes r)
  | .leave id => do return (scopes, ← resolveJump scopes r id .leave)
  | .again id => do return (scopes, ← resolveJump scopes r id .again)
  | .branch cond thenBody elseBody => do
    let r ← cond.resolve scopes r
    let (scopes, r) ← Stmt.resolveAll (scopes.push .block) r thenBody
    let (scopes, r) ← Stmt.resolveAll (scopes.pop.push .block) r elseBody
    return (scopes.pop, r)
  | .loop id cond body => do
    let r ← cond.resolve scopes r
    let (scopes, r) ← Stmt.resolveAll (scopes.push (.loop id)) r body
    return (scopes.pop, r)
  | .eval e => do return (scopes, ← e.resolve scopes r)

def Stmt.resolveAll (scopes : Scopes) (r : Resolutions) :
    List Stmt → Except ScopeError (Scopes × Resolutions)
  | [] => .ok (scopes, r)
  | s :: rest => do
    let (scopes, r) ← s.resolve scopes r
    Stmt.resolveAll scopes r rest

end

/-- Resolves the body of a function, its parameters first, and notes the size of its frame. -/
def FunctionDecl.resolve (scopes : Scopes) (r : Resolutions) (f : FunctionDecl) :
    Except ScopeError (Scopes × Resolutions) := do
  let scopes ← scopes.enterFunction.declareAll .parameter f.params
  let (scopes, r) ← Stmt.resolveAll scopes r f.body
  return (scopes.exitFunction, r.setFrameSize f.name scopes.highWater)

def FunctionDecl.resolveAll (scopes : Scopes) (r : Resolutions) :
    List FunctionDecl → Except ScopeError Resolutions
  | [] => .ok r
  | f :: rest => do
    let (scopes, r) ← f.resolve scopes r
    FunctionDecl.resolveAll scopes r rest

/-- Makes all functions known before any body is looked at. -/
def Scopes.declareFunctions (scopes : Scopes) : List FunctionDecl → Except ScopeError Scopes
  | [] => .ok scopes
  | f :: rest =>
    match scopes.global.declareFunction? f.name f.params.length with
    | some global => { scopes with global }.declareFunctions rest
    | none => .error (.duplicate .function f.name)

def Program.resolve (p : Program) : Except ScopeError Resolutions := do
  let scopes ← Scopes.initial.declareAll .variable p.globalNames
  let r := Resolutions.empty scopes.global.varCount
  let scopes ← scopes.declareFunctions p.functions
  FunctionDecl.resolveAll scopes r p.functions

end StackLang

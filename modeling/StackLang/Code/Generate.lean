import StackLang.Code
import StackLang.Code.Length
import StackLang.Resolution

/-!
Code for a resolved program. An expression leaves its value on the stack, a statement leaves the
stack as it was. The arguments of a call are computed from the last to the first, so that the first
ends on top. A condition stands behind the body of its loop, and the branch that is taken when a
condition fails stands before the other one. Jumps go to where the known lengths say that their
targets will be, and code starts where the code before it has ended.
-/
namespace StackLang

/-- What to jump to in a loop: its condition, and what follows it. -/
structure LoopLabels where
  check : Nat
  exit : Nat

/-- The loops of a function that were met so far, the latest first, by their numbers. -/
abbrev Labels := List (Nat × LoopLabels)

inductive GenerateError
  | unresolved (name : String)
  | lengthMismatch (function : String) (expected emitted : Nat)

def GenerateError.message : GenerateError → String
  | .unresolved name =>
    "internal error: '" ++ name ++
      "' has no resolution\n  hint: run semantic analysis before code generation"
  | .lengthMismatch function expected emitted =>
    "internal error: function '" ++ function ++ "' emitted " ++ Nat.repr emitted ++
      " instruction(s), expected " ++ Nat.repr expected

namespace Resolutions

def slot (r : Resolutions) (id : Nat) (name : String) : Except GenerateError Slot :=
  match r.slot? id with
  | some slot => .ok slot
  | none => .error (.unresolved name)

def labels (r : Resolutions) (known : Labels) (id : Nat) (jump : LoopJump) :
    Except GenerateError LoopLabels :=
  match (r.loopOf? id).bind (List.lookup · known) with
  | some labels => .ok labels
  | none => .error (.unresolved jump.word)

end Resolutions

def callInstr (function : String) : Instr :=
  match Native.ofName? function with
  | some native => .native native.index
  | none => .call function

mutual

def Expr.code (r : Resolutions) : Expr → Except GenerateError (List Instr)
  | .literal v => .ok [.push v]
  | .var id name => do return [.load (← r.slot id name)]
  | .unary op operand => do return (← operand.code r) ++ [.unary op]
  | .binary op left right => do
    let left ← left.code r
    let right ← right.code r
    return left ++ right ++ [.binary op]
  | .call function args => do return (← Expr.codeReversed r args) ++ [callInstr function]

def Expr.codeReversed (r : Resolutions) : List Expr → Except GenerateError (List Instr)
  | [] => .ok []
  | e :: rest => do
    let rest ← Expr.codeReversed r rest
    let first ← e.code r
    return rest ++ first

end

mutual

/-- The code of a statement that starts at position `start`, and the labels known after it. -/
def Stmt.code (r : Resolutions) (start : Nat) (known : Labels) :
    Stmt → Except GenerateError (List Instr × Labels)
  | .declare _ => .ok ([], known)
  | .assign id name value => do
    let value ← value.code r
    let slot ← r.slot id name
    return (value ++ [.store slot], known)
  | .ret none => .ok ([.push .nothing, .ret], known)
  | .ret (some value) => do return ((← value.code r) ++ [.ret], known)
  | .leave id => do return ([.jump (← r.labels known id .leave).exit], known)
  | .again id => do return ([.jump (← r.labels known id .again).check], known)
  | .branch cond thenBody elseBody => do
    let thenStart := start + cond.length + 1 + Stmt.lengthAll elseBody + 1
    let condCode ← cond.code r
    let here := start + condCode.length + 1
    let (elseCode, known) ← Stmt.codeAll r here known elseBody
    let here := here + elseCode.length + 1
    let (thenCode, known) ← Stmt.codeAll r here known thenBody
    return (condCode ++ [.jumpIf thenStart] ++ elseCode ++
      [.jump (thenStart + Stmt.lengthAll thenBody)] ++ thenCode, known)
  | .loop id cond body => do
    let check := start + 1 + Stmt.lengthAll body
    let exit := check + cond.length + 1
    let (bodyCode, known) ← Stmt.codeAll r (start + 1) ((id, ⟨check, exit⟩) :: known) body
    let condCode ← cond.code r
    return ([.jump check] ++ bodyCode ++ condCode ++ [.jumpIf (start + 1)], known)
  | .eval e => do return ((← e.code r) ++ [.pop], known)

def Stmt.codeAll (r : Resolutions) (start : Nat) (known : Labels) :
    List Stmt → Except GenerateError (List Instr × Labels)
  | [] => .ok ([], known)
  | s :: rest => do
    let (first, known) ← s.code r start known
    let (rest, known) ← Stmt.codeAll r (start + first.length) known rest
    return (first ++ rest, known)

end

def FunctionDecl.code (r : Resolutions) (f : FunctionDecl) : Except GenerateError FunctionCode :=
  match r.frameSize? f.name with
  | none => .error (.unresolved f.name)
  | some localCount => do
    let (body, _) ← Stmt.codeAll r 0 [] f.body
    -- A body that comes to its end returns nothing.
    let code := (body ++ [Instr.push .nothing, Instr.ret]).toArray
    if code.size = f.length then
      return ⟨f.name, f.params.length, localCount, code⟩
    else .error (.lengthMismatch f.name f.length code.size)

def FunctionDecl.codeAll (r : Resolutions) :
    List FunctionDecl → Except GenerateError (List FunctionCode)
  | [] => .ok []
  | f :: rest => do
    let first ← f.code r
    let rest ← FunctionDecl.codeAll r rest
    return first :: rest

def Program.code (p : Program) (r : Resolutions) : Except GenerateError Table := do
  return ⟨r.globalCount, ← FunctionDecl.codeAll r p.functions⟩

end StackLang

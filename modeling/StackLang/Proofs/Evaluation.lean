import StackLang.Machine.Run
import StackLang.Proofs.Resolved

/-!
Evaluators of a program's tree. What operators, calls, natives, loops, jumps and returns mean is
said once; how variables are held is left to a store. One store is given here: each call has an
array of slots, all calls share another one, and a name means the slot that is noted under the
number of its node. Loops and calls take fuel, so an evaluation that has not come to its end is told
apart from one that has.
-/
namespace StackLang

/-- What a computation on a memory comes to. A computation that failed says which calls were open
inside it, the outermost first. One is stuck if it has no next step, and unfinished if it ran out of
fuel. -/
inductive Result (μ α : Type)
  | done (value : α) (memory : μ)
  | failed (fault : Fault) (calls : List String) (memory : μ)
  | stuck
  | unfinished

def Eval (μ α : Type) := μ → Result μ α

namespace Eval

variable {μ α β : Type}

def bind (x : Eval μ α) (f : α → Eval μ β) : Eval μ β := fun m =>
  match x m with
  | .done a m => f a m
  | .failed fault calls m => .failed fault calls m
  | .stuck => .stuck
  | .unfinished => .unfinished

instance : Monad (Eval μ) where
  pure a m := .done a m
  bind := bind

def stuck : Eval μ α := fun _ => .stuck

def unfinished : Eval μ α := fun _ => .unfinished

def ofOperator : Except OperandFault α → Eval μ α
  | .ok a => pure a
  | .error fault => fun m => .failed (.operand fault) [] m

end Eval

structure Shared (γ σ : Type) where
  globals : γ
  world : σ

structure Memory (ρ γ σ : Type) extends Shared γ σ where
  locals : ρ

/-- How variables are held: those of one call in a `ρ`, the global ones in a `γ`. Reads and
assignments are given the number and the name of their node. -/
structure Store (ρ γ : Type) where
  enter : FunctionDecl → List Value → ρ
  read : Nat → String → ρ → γ → Option Value
  write : Nat → String → Value → ρ → γ → Option (ρ × γ)
  declare : List String → ρ → ρ
  openScope : ρ → ρ
  closeScope : ρ → ρ

/-- How a statement ends: control goes on after it, leaves or continues the loop around it, or
returns from the call. -/
inductive Flow
  | next
  | leave
  | again
  | ret (value : Value)

def Flow.result : Flow → Value
  | .ret v => v
  | _ => .nothing

def Native.answer {σ : Type} (h : Handler σ) : Native → Value → σ → Except Fault Value × σ
  | .print, v, w =>
    match h.tell v.display w with
    | (.ok (), w) => (.ok .nothing, w)
    | (.error e, w) => (.error (.interaction e), w)
  | .input, v, w =>
    match h.ask v.display w with
    | (.ok line, w) => (.ok (.str line), w)
    | (.error e, w) => (.error (.interaction e), w)
  | .strToInt, .str text, w =>
    match Native.parseInt? text with
    | some n => (.ok (.int n), w)
    | none => (.error (.conversion text), w)
  | .intToStr, .int n, w => (.ok (.str (Text.showInt n)), w)
  | native, v, w => (.error (.nativeOperand native v.type), w)

section

variable {ρ γ σ : Type}

namespace Eval

def read (S : Store ρ γ) (id : Nat) (name : String) : Eval (Memory ρ γ σ) Value := fun m =>
  match S.read id name m.locals m.globals with
  | some v => .done v m
  | none => .stuck

def write (S : Store ρ γ) (id : Nat) (name : String) (v : Value) : Eval (Memory ρ γ σ) Unit :=
  fun m =>
    match S.write id name v m.locals m.globals with
    | some (locals, globals) => .done () { m with locals, globals }
    | none => .stuck

def modifyLocals (f : ρ → ρ) : Eval (Memory ρ γ σ) Unit := fun m =>
  .done () { m with locals := f m.locals }

def native (h : Handler σ) (n : Native) : List Value → Eval (Memory ρ γ σ) Value
  | [v] => fun m =>
    match n.answer h v m.world with
    | (.ok v, world) => .done v { m with world }
    | (.error fault, world) => .failed fault [] { m with world }
  | _ => stuck

theorem native_one (h : Handler σ) (n : Native) (v : Value) (m : Memory ρ γ σ) :
    native h n [v] m =
      match n.answer h v m.world with
      | (.ok v, world) => .done v { m with world }
      | (.error fault, world) => .failed fault [] { m with world } := rfl

def fromCall (x : Eval (Shared γ σ) Value) : Eval (Memory ρ γ σ) Value := fun m =>
  match x m.toShared with
  | .done v shared => .done v { m with toShared := shared }
  | .failed fault calls shared => .failed fault calls { m with toShared := shared }
  | .stuck => .stuck
  | .unfinished => .unfinished

def inCall (function : String) (locals : ρ) (body : Eval (Memory ρ γ σ) Flow) :
    Eval (Shared γ σ) Value := fun shared =>
  match body { shared with locals } with
  | .done flow m => .done flow.result m.toShared
  | .failed fault calls m => .failed fault (function :: calls) m.toShared
  | .stuck => .stuck
  | .unfinished => .unfinished

/-- A block has a scope of its own, which is closed however it ends. -/
def block (S : Store ρ γ) (body : Eval (Memory ρ γ σ) Flow) : Eval (Memory ρ γ σ) Flow := do
  modifyLocals S.openScope
  let flow ← body
  modifyLocals S.closeScope
  pure flow

theorem block_eq (S : Store ρ γ) (body : Eval (Memory ρ γ σ) Flow) (m : Memory ρ γ σ) :
    block S body m =
      match body { m with locals := S.openScope m.locals } with
      | .done flow m => .done flow { m with locals := S.closeScope m.locals }
      | .failed fault calls m => .failed fault calls m
      | .stuck => .stuck
      | .unfinished => .unfinished := by
  simp only [block, Bind.bind, bind, modifyLocals]
  cases body { m with locals := S.openScope m.locals } <;> rfl

def rounds {μ : Type} (cond : Eval μ Value) (body : Eval μ Flow) : Nat → Eval μ Flow
  | 0 => unfinished
  | n + 1 => do
    let v ← cond
    if v.truthy then
      match ← body with
      | .next | .again => rounds cond body n
      | .leave => pure .next
      | .ret v => pure (.ret v)
    else pure .next

end Eval

section

-- Functions are called as `call` says; inside their bodies, loops take up to `fuel` rounds.
variable (S : Store ρ γ) (h : Handler σ) (p : Program)
  (call : FunctionDecl → List Value → Eval (Shared γ σ) Value)

mutual

/-- Both operands are evaluated, the left one first; arguments from the last one to the first. -/
def Expr.eval : Expr → Eval (Memory ρ γ σ) Value
  | .literal v => pure v
  | .var id name => .read S id name
  | .unary op operand => do
    let v ← operand.eval
    .ofOperator (op.apply v)
  | .binary op left right => do
    let a ← left.eval
    let b ← right.eval
    .ofOperator (op.apply a b)
  | .call function args => do
    let values ← Expr.evalArgs args
    match Native.ofName? function with
    | some n => .native h n values
    | none =>
      match p.find? function with
      | some f => .fromCall (call f values)
      | none => .stuck

def Expr.evalArgs : List Expr → Eval (Memory ρ γ σ) (List Value)
  | [] => pure []
  | e :: rest => do
    let values ← Expr.evalArgs rest
    let v ← e.eval
    pure (v :: values)

end

variable (fuel : Nat)

mutual

def Stmt.exec : Stmt → Eval (Memory ρ γ σ) Flow
  | .declare names => do
    .modifyLocals (S.declare names)
    pure .next
  | .assign id name value => do
    let v ← value.eval S h p call
    .write S id name v
    pure .next
  | .ret none => pure (.ret .nothing)
  | .ret (some value) => do
    let v ← value.eval S h p call
    pure (.ret v)
  | .leave _ => pure .leave
  | .again _ => pure .again
  | .branch cond thenBody elseBody => do
    let v ← cond.eval S h p call
    if v.truthy then .block S (Stmt.execAll thenBody) else .block S (Stmt.execAll elseBody)
  | .loop _ cond body =>
    .rounds (cond.eval S h p call) (.block S (Stmt.execAll body)) fuel
  | .eval e => do
    let _ ← e.eval S h p call
    pure .next

def Stmt.execAll : List Stmt → Eval (Memory ρ γ σ) Flow
  | [] => pure .next
  | s :: rest => do
    match ← s.exec with
    | .next => Stmt.execAll rest
    | flow => pure flow

end

end

namespace Program

variable (p : Program) (S : Store ρ γ) (h : Handler σ)

/-- A call of a function. Each call inside it has one unit of fuel less. -/
def call : Nat → FunctionDecl → List Value → Eval (Shared γ σ) Value
  | 0, _, _ => .unfinished
  | fuel + 1, f, args =>
    .inCall f.name (S.enter f args) (Stmt.execAll S h p (call fuel) fuel f.body)

/-- The whole program: a call of `main`, with no parameter set. Without such a function nothing is
done. -/
def evaluate (globals : γ) (w : σ) (fuel : Nat) : Result (Shared γ σ) Value :=
  match p.find? "main" with
  | some main => p.call S h fuel main (main.params.map fun _ => .nothing) ⟨globals, w⟩
  | none => .done .nothing ⟨globals, w⟩

end Program

end

def Slot.read (locals globals : Array Value) : Slot → Option Value
  | .frame i => locals[i]?
  | .global i => globals[i]?

def Slot.write (locals globals : Array Value) (v : Value) :
    Slot → Option (Array Value × Array Value)
  | .frame i => if i < locals.size then some (locals.setIfInBounds i v, globals) else none
  | .global i => if i < globals.size then some (locals, globals.setIfInBounds i v) else none

/-- Variables in the slots that are noted for them. The arguments of a call come first, and no other
slot is set; declarations and scopes do nothing. -/
def Resolutions.store (r : Resolutions) : Store (Array Value) (Array Value) where
  enter f args :=
    let others := (r.frameSize? f.name).getD 0 - f.params.length
    (args ++ List.replicate others Value.nothing).toArray
  read id _ locals globals := (r.slot? id).bind (·.read locals globals)
  write id _ v locals globals := (r.slot? id).bind (·.write locals globals v)
  declare _ locals := locals
  openScope locals := locals
  closeScope locals := locals

/-- How a program ends: what it returns or why it fails, the calls that were open then, and what it
leaves behind. -/
structure Outcome (γ σ : Type) where
  result : Except Fault Value
  calls : List String
  globals : γ
  world : σ

def Result.outcome? {γ σ : Type} : Result (Shared γ σ) Value → Option (Outcome γ σ)
  | .done v m => some ⟨.ok v, [], m.globals, m.world⟩
  | .failed fault calls m => some ⟨.error fault, calls, m.globals, m.world⟩
  | .stuck | .unfinished => none

def Turn.outcome? {σ : Type} : Turn σ → Option (Outcome (Array Value) σ)
  | .halted result s w => some ⟨result, s.callStack, s.globals, w⟩
  | .running _ _ => none

end StackLang

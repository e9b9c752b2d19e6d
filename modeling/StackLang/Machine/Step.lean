import StackLang.Machine

/-!
One step of the machine. A step counts itself, then looks at the limits, then executes the next
instruction of the innermost call. What a program says and asks is left to whoever drives the
machine; a step that fails leaves the machine as far as it came.
-/
namespace StackLang

/-- The function that a call enters: the last one of that name. -/
def Table.callee? (t : Table) (name : String) : Option FunctionCode :=
  t.functions.reverse.find? (·.name = name)

/-- What a step comes to. After a line was told, or one was asked for, the machine goes on with the
result of the request on its stack. -/
inductive Progress
  | next (state : State)
  | done (value : Value) (state : State)
  | fault (fault : Fault) (state : State)
  | tell (text : String) (state : State)
  | ask (prompt : String) (state : State)

namespace State

/-- Not enough values on the stack: all of them are gone. -/
def underflow (s : State) : Progress := .fault (.internal .underflow) { s with stack := .empty }

def withTop (s : State) (k : Value → State → Progress) : Progress :=
  match s.stack.pop? with
  | some (v, stack) => k v { s with stack }
  | none => s.underflow

def withTopTwo (s : State) (k : Value → Value → State → Progress) : Progress :=
  s.withTop fun right s => s.withTop fun left s => k left right s

def pushResult (s : State) : Except OperandFault Value → Progress
  | .ok v => .next (s.push v)
  | .error fault => .fault (.operand fault) s

def modifyFrame (s : State) (f : Frame → Frame) : State :=
  match s.frames.pop? with
  | some (frame, callers) => { s with frames := callers.push (f frame) }
  | none => s

def jump (s : State) (target : Nat) : State :=
  s.modifyFrame fun frame => { frame with pc := target }

def load (s : State) (frame : Frame) (slot : Slot) : Progress :=
  let value := match slot with
    | .frame i => frame.locals[i]?
    | .global i => s.globals[i]?
  match value with
  | some v => .next (s.push v)
  | none => .fault (.internal (.badSlot slot)) s

def store (s : State) (frame : Frame) (slot : Slot) (v : Value) : Progress :=
  match slot with
  | .frame i =>
    if i < frame.locals.size then
      .next (s.modifyFrame fun frame => { frame with locals := frame.locals.setIfInBounds i v })
    else .fault (.internal (.badSlot slot)) s
  | .global i =>
    if i < s.globals.size then .next { s with globals := s.globals.setIfInBounds i v }
    else .fault (.internal (.badSlot slot)) s

/-- Enters a function. Its arguments come from the stack, the first one from the top; its other
variables are not set. -/
def enter (s : State) (limits : Limits) (f : FunctionCode) : Progress :=
  if limits.maxCallDepth ≤ s.frames.size then
    .fault (.limit (.callDepth limits.maxCallDepth f.name)) s
  else
    match s.stack.popMany? f.paramCount with
    | some (args, stack) =>
      let others := List.replicate (f.localCount - f.paramCount) Value.nothing
      let frame : Frame := ⟨f, (args ++ others).toArray, 0⟩
      .next { s with stack, frames := s.frames.push frame }
    | none => s.underflow

def callNative (s : State) (native : Native) (arg : Value) : Progress :=
  match native, arg with
  | .print, v => .tell v.display s
  | .input, v => .ask v.display s
  | .strToInt, .str text =>
    match Native.parseInt? text with
    | some n => .next (s.push (.int n))
    | none => .fault (.conversion text) s
  | .intToStr, .int n => .next (s.push (.str (Text.showInt n)))
  | native, v => .fault (.nativeOperand native v.type) s

def leave (s : State) (v : Value) : Progress :=
  match s.frames.pop? with
  | some (_, callers) =>
    if callers.items.isEmpty then .done v { s with frames := callers }
    else .next ({ s with frames := callers }.push v)
  | none => .done v s

/-- Executes an instruction of the given frame, whose position is already past it. -/
def execute (t : Table) (limits : Limits) (s : State) (frame : Frame) : Instr → Progress
  | .push v => .next (s.push v)
  | .load slot => s.load frame slot
  | .store slot => s.withTop fun v s => s.store frame slot v
  | .unary op => s.withTop fun v s => s.pushResult (op.apply v)
  | .binary op => s.withTopTwo fun left right s => s.pushResult (op.apply left right)
  | .pop => s.withTop fun _ s => .next s
  | .jump target => .next (s.jump target)
  | .jumpIf target => s.withTop fun v s => .next (if v.truthy then s.jump target else s)
  | .call function =>
    match t.callee? function with
    | some f => s.enter limits f
    | none => .fault (.internal (.undefinedCall function)) s
  | .native i =>
    match Native.ofIndex? i with
    | some native => s.withTop fun v s => s.callNative native v
    | none => .fault (.internal (.unknownNative i)) s
  | .ret => s.withTop fun v s => s.leave v

def brokenLimit? (limits : Limits) (s : State) : Option LimitFault :=
  match limits.maxSteps with
  | some max => if max < s.steps then some (.steps max) else stackLimit?
  | none => stackLimit?
where
  stackLimit? : Option LimitFault :=
    if limits.maxStackSize < s.stack.size then some (.stackSize limits.maxStackSize) else none

def step (t : Table) (limits : Limits) (s : State) : Progress :=
  let s := { s with steps := s.steps + 1 }
  match s.brokenLimit? limits with
  | some fault => .fault (.limit fault) s
  | none =>
    match s.frames.pop? with
    | none => .fault (.internal .noFrame) s
    | some (frame, callers) =>
      let s := { s with frames := callers.push { frame with pc := frame.pc + 1 } }
      match frame.function.code[frame.pc]? with
      | some instr => s.execute t limits frame instr
      | none => .fault (.internal (.fellOff frame.function.name)) s

end State

end StackLang

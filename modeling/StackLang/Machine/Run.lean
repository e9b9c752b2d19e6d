import StackLang.Machine.Step

/-!
Runs of a table. A run starts with the first function called `main`, after the table was checked,
and takes turns until the machine halts; a table without such a function does nothing. A run is
driven for a number of turns, so one that never halts is no value but a sequence of states.
-/
namespace StackLang

/-- A machine and the world it talks to: still running, or halted with a value or a fault. -/
inductive Turn (σ : Type)
  | running (state : State) (world : σ)
  | halted (result : Except Fault Value) (state : State) (world : σ)

namespace Turn

variable {σ : Type}

def state : Turn σ → State
  | .running s _ => s
  | .halted _ s _ => s

def world : Turn σ → σ
  | .running _ w => w
  | .halted _ _ w => w

end Turn

section

variable {σ : Type}

/-- One step, with the answer of the handler if the program said or asked something. Telling has
the result that nothing was set. -/
def State.turn (h : Handler σ) (t : Table) (limits : Limits) (s : State) (w : σ) : Turn σ :=
  match s.step t limits with
  | .next s => .running s w
  | .done v s => .halted (.ok v) s w
  | .fault f s => .halted (.error f) s w
  | .tell text s =>
    match h.tell text w with
    | (.ok (), w) => .running (s.push .nothing) w
    | (.error e, w) => .halted (.error (.interaction e)) s w
  | .ask prompt s =>
    match h.ask prompt w with
    | (.ok line, w) => .running (s.push (.str line)) w
    | (.error e, w) => .halted (.error (.interaction e)) s w

def Turn.advance (h : Handler σ) (t : Table) (limits : Limits) : (n : Nat) → Turn σ → Turn σ
  | n + 1, .running s w => Turn.advance h t limits n (s.turn h t limits w)
  | _, turn => turn

def Frame.ofMain (main : FunctionCode) : Frame :=
  ⟨main, Array.replicate main.localCount .nothing, 0⟩

def Table.start (t : Table) (w : σ) : Turn σ :=
  let s := State.fresh t.globalCount
  match t.find? "main" with
  | none => .halted (.ok .nothing) s w
  | some main =>
    match t.check with
    | .error e => .halted (.error (.internal (.rejected e))) s w
    | .ok () => .running { s with frames := s.frames.push (.ofMain main) } w

def Table.run (h : Handler σ) (t : Table) (limits : Limits) (w : σ) (n : Nat) : Turn σ :=
  (t.start w).advance h t limits n

end

end StackLang

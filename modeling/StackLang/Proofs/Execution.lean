import StackLang.Proofs.Evaluation
import StackLang.Proofs.Segments

/-!
The machine seen through lists. A state is given by the values on its stack, its global variables
and its frames, and each instruction says what becomes of them. A turn either breaks a limit or is
the execution of the next instruction; a run is made of turns, and goes on with the rest of its
turns where the first ones stopped.
-/
namespace StackLang

namespace Stack

variable {α : Type}

def ofList (items : List α) : Stack α := ⟨items, items.length, rfl⟩

@[simp]
theorem items_ofList (items : List α) : (ofList items).items = items := rfl

theorem ofList_items (s : Stack α) : ofList s.items = s := ext_items rfl

@[simp]
theorem push_ofList (items : List α) (a : α) : (ofList items).push a = ofList (a :: items) := rfl

@[simp]
theorem pop?_ofList_cons (items : List α) (a : α) :
    (ofList (a :: items)).pop? = some (a, ofList items) := rfl

theorem popMany?_ofList_append (first rest : List α) :
    popMany? first.length (ofList (first ++ rest)) = some (first, ofList rest) := by
  induction first with
  | nil => rfl
  | cons a first ih =>
    simp only [List.length_cons, List.cons_append, popMany?, pop?_ofList_cons]
    rw [ih]

end Stack

def FunctionCode.locals (f : FunctionCode) (args : List Value) : Array Value :=
  (args ++ List.replicate (f.localCount - f.paramCount) Value.nothing).toArray

namespace State

/-- The state with these values on its stack and these frames, the top ones first. -/
def of (values : List Value) (globals : Array Value) (frames : List Frame) (steps : Nat) : State :=
  ⟨.ofList values, globals, .ofList frames, steps⟩

theorem eq_of (s : State) : s = of s.stack.items s.globals s.frames.items s.steps := by
  rw [of, Stack.ofList_items, Stack.ofList_items]

section

variable (values : List Value) (globals : Array Value) (frames callers : List Frame) (steps : Nat)
  (frame : Frame)

@[simp]
theorem stack_of : (of values globals frames steps).stack = .ofList values := rfl

@[simp]
theorem globals_of : (of values globals frames steps).globals = globals := rfl

@[simp]
theorem frames_of : (of values globals frames steps).frames = .ofList frames := rfl

@[simp]
theorem push_of (v : Value) :
    (of values globals frames steps).push v = of (v :: values) globals frames steps := rfl

theorem callStack_of :
    (of values globals frames steps).callStack = (frames.map (·.function.name)).reverse := rfl

@[simp]
theorem withTop_of (v : Value) (k : Value → State → Progress) :
    (of (v :: values) globals frames steps).withTop k = k v (of values globals frames steps) := rfl

@[simp]
theorem withTopTwo_of (left right : Value) (k : Value → Value → State → Progress) :
    (of (right :: left :: values) globals frames steps).withTopTwo k =
      k left right (of values globals frames steps) := rfl

@[simp]
theorem jump_of (target : Nat) :
    (of values globals (frame :: callers) steps).jump target =
      of values globals ({ frame with pc := target } :: callers) steps := rfl

theorem load_of (slot : Slot) :
    (of values globals frames steps).load frame slot =
      match slot.read frame.locals globals with
      | some v => .next (of (v :: values) globals frames steps)
      | none => .fault (.internal (.badSlot slot)) (of values globals frames steps) := by
  cases slot <;> rfl

/-- A store writes the slot it names and nothing else. A slot that there is not is a fault. -/
theorem store_of (pc : Nat) (slot : Slot) (v : Value) :
    (of values globals ({ frame with pc } :: callers) steps).store frame slot v =
      match slot.write frame.locals globals v with
      | some (locals', globals') =>
        .next (of values globals' (⟨frame.function, locals', pc⟩ :: callers) steps)
      | none =>
        .fault (.internal (.badSlot slot))
          (of values globals ({ frame with pc } :: callers) steps) := by
  cases slot with
  | frame i =>
    by_cases hi : i < frame.locals.size
    · simp only [Slot.write, if_pos hi]
      exact if_pos hi
    · simp only [Slot.write, if_neg hi]
      exact if_neg hi
  | global i =>
    by_cases hi : i < globals.size
    · simp only [Slot.write, if_pos hi]
      exact if_pos hi
    · simp only [Slot.write, if_neg hi]
      exact if_neg hi

/-- A call that finds its arguments on the stack enters the function, if that is not too deep. -/
theorem enter_of (limits : Limits) {f : FunctionCode} {args : List Value}
    (hargs : args.length = f.paramCount) :
    (∃ fault, (of (args ++ values) globals frames steps).enter limits f =
        .fault (.limit fault) (of (args ++ values) globals frames steps)) ∨
      (of (args ++ values) globals frames steps).enter limits f =
        .next (of values globals (⟨f, f.locals args, 0⟩ :: frames) steps) := by
  unfold enter
  by_cases hdepth : limits.maxCallDepth ≤ frames.length
  · left
    exact ⟨_, if_pos hdepth⟩
  · right
    have hpop : (of (args ++ values) globals frames steps).stack.popMany? f.paramCount =
        some (args, .ofList values) := by
      rw [← hargs]
      exact Stack.popMany?_ofList_append args values
    rw [hpop]
    exact if_neg hdepth

end

end State

section

variable {σ : Type}

def Progress.settle (h : Handler σ) (w : σ) : Progress → Turn σ
  | .next s => .running s w
  | .done v s => .halted (.ok v) s w
  | .fault f s => .halted (.error f) s w
  | .tell text s =>
    match h.tell text w with
    | (.ok (), w) => .running (s.push .nothing) w
    | (.error e, w) => .halted (.error (.interaction e)) s w
  | .ask prompt s =>
    match h.ask prompt w with
    | (.ok line, w) => .running (s.push (.str line)) w
    | (.error e, w) => .halted (.error (.interaction e)) s w

variable {h : Handler σ} {t : Table} {limits : Limits} {w : σ}

/-- A turn is one step of the machine, with the call of a native answered by the world. -/
theorem State.turn_eq_settle (s : State) :
    s.turn h t limits w = (s.step t limits).settle h w := by
  unfold State.turn Progress.settle
  cases s.step t limits <;> rfl

/-- The machine calls natives as the evaluators do. -/
theorem State.settle_callNative (values : List Value) (globals : Array Value) (frames : List Frame)
    (steps : Nat) (native : Native) (arg : Value) :
    ((State.of values globals frames steps).callNative native arg).settle h w =
      match native.answer h arg w with
      | (.ok v, w) => .running (State.of (v :: values) globals frames steps) w
      | (.error fault, w) => .halted (.error fault) (State.of values globals frames steps) w := by
  cases native with
  | print =>
    simp only [State.callNative, Progress.settle, Native.answer]
    rcases h.tell arg.display w with ⟨answer | answer, w'⟩ <;> rfl
  | input =>
    simp only [State.callNative, Progress.settle, Native.answer]
    rcases h.ask arg.display w with ⟨answer | answer, w'⟩ <;> rfl
  | strToInt =>
    cases arg with
    | str text =>
      simp only [State.callNative, Native.answer]
      cases Native.parseInt? text <;> rfl
    | int n => rfl
    | bool b => rfl
    | nothing => rfl
  | intToStr => cases arg <;> rfl

/-- A turn breaks a limit or looks for the next instruction. -/
theorem State.turn_cases (h : Handler σ) (t : Table) (limits : Limits) (w : σ)
    (values : List Value) (globals : Array Value) (frame : Frame) (callers : List Frame)
    (steps : Nat) :
    (∃ fault s, (State.of values globals (frame :: callers) steps).turn h t limits w =
        .halted (.error (.limit fault)) s w) ∨
      (State.of values globals (frame :: callers) steps).turn h t limits w =
        Progress.settle h w (match frame.function.code.toList[frame.pc]? with
          | some i => (State.of values globals ({ frame with pc := frame.pc + 1 } :: callers)
              (steps + 1)).execute t limits frame i
          | none => .fault (.internal (.fellOff frame.function.name))
              (State.of values globals ({ frame with pc := frame.pc + 1 } :: callers)
                (steps + 1))) := by
  rw [Array.getElem?_toList, State.turn_eq_settle, State.step]
  cases hlimit : State.brokenLimit? limits
      { State.of values globals (frame :: callers) steps with
        steps := (State.of values globals (frame :: callers) steps).steps + 1 } with
  | some fault => exact Or.inl ⟨fault, _, rfl⟩
  | none => exact Or.inr rfl

/-- A turn at an instruction executes it, unless the limit of steps has been reached. -/
theorem State.turn_of (h : Handler σ) (t : Table) (limits : Limits) (w : σ) {values : List Value}
    {globals : Array Value} {frame : Frame} {callers : List Frame} {steps : Nat} {i : Instr}
    (hi : frame.function.code.toList[frame.pc]? = some i) :
    (∃ fault s, (State.of values globals (frame :: callers) steps).turn h t limits w =
        .halted (.error (.limit fault)) s w) ∨
      (State.of values globals (frame :: callers) steps).turn h t limits w =
        ((State.of values globals ({ frame with pc := frame.pc + 1 } :: callers)
          (steps + 1)).execute t limits frame i).settle h w := by
  have hturn := State.turn_cases h t limits w values globals frame callers steps
  rwa [hi] at hturn

namespace Turn

@[simp]
theorem advance_zero (turn : Turn σ) : turn.advance h t limits 0 = turn := by
  cases turn <;> rfl

@[simp]
theorem advance_halted (n : Nat) (result : Except Fault Value) (s : State) (w : σ) :
    (Turn.halted result s w).advance h t limits n = .halted result s w := by
  cases n <;> rfl

@[simp]
theorem advance_running (n : Nat) (s : State) (w : σ) :
    (Turn.running s w).advance h t limits (n + 1) =
      (s.turn h t limits w).advance h t limits n := rfl

/-- Turns add up. -/
theorem advance_add (m n : Nat) (turn : Turn σ) :
    turn.advance h t limits (m + n) = (turn.advance h t limits m).advance h t limits n := by
  induction m generalizing turn with
  | zero => simp
  | succ m ih =>
    cases turn with
    | halted result s w => simp
    | running s w =>
      rw [Nat.add_right_comm, advance_running, advance_running]
      exact ih _

/-- Once a machine has halted, all longer runs end the same. -/
theorem advance_of_halted {m n : Nat} {turn : Turn σ} {result : Except Fault Value} {s : State}
    {w : σ} (hle : m ≤ n) (hm : turn.advance h t limits m = .halted result s w) :
    turn.advance h t limits n = .halted result s w := by
  obtain ⟨k, rfl⟩ := Nat.exists_eq_add_of_le hle
  rw [advance_add, hm, advance_halted]

end Turn

theorem Table.run_succ (n : Nat) :
    t.run h limits w (n + 1) = (t.run h limits w n).advance h t limits 1 :=
  Turn.advance_add n 1 _

end

end StackLang

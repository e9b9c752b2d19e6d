import StackLang.Proofs.Execution

/-!
All that one turn can do. The machine executes an instruction of the innermost call, which goes on,
calls or returns; or it stops, and then the reason is known: a fault of the program, too few values
on the stack, or an operand that names nothing. What holds along runs is proved from this list.
-/
namespace StackLang

namespace Instr

/-- How many values the machine takes from the stack for an instruction. A call takes the arguments
of the function that it enters. -/
def takes (t : Table) : Instr → Nat
  | .call function => ((t.callee? function).map (·.paramCount)).getD 0
  | i => i.pops t

def HasOperand (t : Table) (locals globals : Array Value) : Instr → Prop
  | .load slot | .store slot => slot.Fits locals.size globals.size
  | .call function => (t.callee? function).isSome
  | .native index => (Native.ofIndex? index).isSome
  | _ => True

def GoesTo (i : Instr) (pc next : Nat) : Prop :=
  (next = pc + 1 ∧ i.endsCode = false) ∨ i.jumpTarget? = some next

def variablesAfter (i : Instr) (taken : List Value) (locals globals : Array Value) :
    Option (Array Value × Array Value) :=
  match i, taken with
  | .store slot, v :: _ => slot.write locals globals v
  | _, _ => some (locals, globals)

end Instr

theorem Slot.Fits.read {locals globals : Array Value} {slot : Slot}
    (h : slot.Fits locals.size globals.size) : ∃ v, slot.read locals globals = some v := by
  cases slot with
  | frame i => exact ⟨_, Array.getElem?_eq_getElem h⟩
  | global i => exact ⟨_, Array.getElem?_eq_getElem h⟩

theorem Slot.Fits.write {locals globals : Array Value} {slot : Slot} (v : Value)
    (h : slot.Fits locals.size globals.size) :
    ∃ locals' globals', slot.write locals globals v = some (locals', globals') := by
  cases slot with
  | frame i => exact ⟨_, _, if_pos h⟩
  | global i => exact ⟨_, _, if_pos h⟩

theorem Slot.write_frame_eq_some {locals globals locals' globals' : Array Value} {k : Nat}
    {v : Value} (h : (Slot.frame k).write locals globals v = some (locals', globals')) :
    locals' = locals.setIfInBounds k v ∧ globals' = globals := by
  rw [Slot.write] at h
  split at h
  · cases h
    exact ⟨rfl, rfl⟩
  · cases h

theorem Slot.write_global_eq_some {locals globals locals' globals' : Array Value} {k : Nat}
    {v : Value} (h : (Slot.global k).write locals globals v = some (locals', globals')) :
    locals' = locals ∧ globals' = globals.setIfInBounds k v := by
  rw [Slot.write] at h
  split at h
  · cases h
    exact ⟨rfl, rfl⟩
  · cases h

/-- Setting variables makes neither more nor fewer of them. -/
theorem Slot.size_write {locals globals locals' globals' : Array Value} {slot : Slot} {v : Value}
    (h : slot.write locals globals v = some (locals', globals')) :
    locals'.size = locals.size ∧ globals'.size = globals.size := by
  cases slot with
  | frame k =>
    obtain ⟨rfl, rfl⟩ := Slot.write_frame_eq_some h
    exact ⟨Array.size_setIfInBounds .., rfl⟩
  | global k =>
    obtain ⟨rfl, rfl⟩ := Slot.write_global_eq_some h
    exact ⟨rfl, Array.size_setIfInBounds ..⟩

/-- No instruction changes how many variables there are. -/
theorem Instr.size_variablesAfter {i : Instr} {taken : List Value}
    {locals globals locals' globals' : Array Value}
    (h : i.variablesAfter taken locals globals = some (locals', globals')) :
    locals'.size = locals.size ∧ globals'.size = globals.size := by
  unfold Instr.variablesAfter at h
  split at h
  · exact Slot.size_write h
  · cases h
    exact ⟨rfl, rfl⟩

theorem Instr.locals_variablesAfter {i : Instr} {taken : List Value}
    {locals globals locals' globals' : Array Value} (hne : ∀ k, i ≠ .store (.frame k))
    (h : i.variablesAfter taken locals globals = some (locals', globals')) : locals' = locals := by
  unfold Instr.variablesAfter at h
  split at h
  · rename_i slot v rest
    cases slot with
    | frame k => exact absurd rfl (hne k)
    | global k => exact (Slot.write_global_eq_some h).1
  · cases h
    rfl

/-- What a turn comes to that executes an instruction of the innermost call. -/
inductive Executed {σ : Type} (t : Table) (values : List Value) (globals : Array Value)
    (frame : Frame) (callers : List Frame) : Instr → Turn σ → Prop
  | goesOn {i : Instr} (taken pushed rest : List Value) {locals' globals' : Array Value}
      {pc' steps : Nat} {w : σ} (hcall : ∀ function, i ≠ .call function)
      (hpc : i.GoesTo frame.pc pc') (hvalues : values = taken ++ rest)
      (htaken : taken.length = i.takes t) (hpushed : pushed.length = i.pushes)
      (hset : i.variablesAfter taken frame.locals globals = some (locals', globals')) :
    Executed t values globals frame callers i (.running
      (.of (pushed ++ rest) globals' (⟨frame.function, locals', pc'⟩ :: callers) steps) w)
  | enters (function : String) (f : FunctionCode) (args rest : List Value) {steps : Nat} {w : σ}
      (hf : t.callee? function = some f) (hvalues : values = args ++ rest)
      (hargs : args.length = f.paramCount) :
    Executed t values globals frame callers (.call function) (.running (.of rest globals
      (⟨f, f.locals args, 0⟩ :: { frame with pc := frame.pc + 1 } :: callers) steps) w)
  | returns (v : Value) (rest : List Value) (caller : Frame) (outer : List Frame) {steps : Nat}
      {w : σ} (hvalues : values = v :: rest) (hcallers : callers = caller :: outer) :
    Executed t values globals frame callers .ret
      (.running (.of (v :: rest) globals (caller :: outer) steps) w)
  | finishes (v : Value) (rest : List Value) {steps : Nat} {w : σ} (hvalues : values = v :: rest)
      (hcallers : callers = []) :
    Executed t values globals frame callers .ret (.halted (.ok v) (.of rest globals [] steps) w)
  | fails {i : Instr} {fault : Fault} {s : State} {w : σ} (hfault : ∀ f, fault ≠ .internal f) :
    Executed t values globals frame callers i (.halted (.error fault) s w)
  | lacksValues {i : Instr} {s : State} {w : σ} (hvalues : values.length < i.takes t) :
    Executed t values globals frame callers i (.halted (.error (.internal .underflow)) s w)
  | lacksOperand {i : Instr} {fault : InternalFault} {s : State} {w : σ}
      (hoperand : ¬i.HasOperand t frame.locals globals) :
    Executed t values globals frame callers i (.halted (.error (.internal fault)) s w)

theorem Stack.popMany?_ofList_of_lt {α : Type} {n : Nat} {items : List α} (h : items.length < n) :
    popMany? n (ofList items) = none := by
  induction items generalizing n with
  | nil =>
    cases n with
    | zero => simp at h
    | succ n => rfl
  | cons a rest ih =>
    cases n with
    | zero => simp at h
    | succ n =>
      rw [List.length_cons] at h
      simp only [popMany?, pop?_ofList_cons]
      rw [ih (by omega)]

section

variable {σ : Type} {h : Handler σ} {t : Table} {limits : Limits} {w : σ} {values : List Value}
  {globals : Array Value} {frame : Frame} {callers : List Frame} {steps : Nat}

/-- A native may fail, but not by a fault of the machine. -/
theorem Native.answer_ne_internal {native : Native} {arg : Value} {fault : Fault} {w' : σ}
    (hanswer : native.answer h arg w = (.error fault, w')) : ∀ f, fault ≠ .internal f := by
  intro f hf
  subst hf
  cases native with
  | print =>
    rw [Native.answer] at hanswer
    split at hanswer <;> cases hanswer
  | input =>
    rw [Native.answer] at hanswer
    split at hanswer <;> cases hanswer
  | strToInt =>
    cases arg with
    | str text =>
      rw [Native.answer] at hanswer
      split at hanswer <;> cases hanswer
    | int n => cases hanswer
    | bool b => cases hanswer
    | nothing => cases hanswer
  | intToStr => cases arg <;> cases hanswer

theorem State.load_executed {slot : Slot} :
    Executed t values globals frame callers (.load slot)
      (((State.of values globals ({ frame with pc := frame.pc + 1 } :: callers) steps).load frame
        slot).settle h w) := by
  rw [State.load_of]
  cases hread : slot.read frame.locals globals with
  | some v => exact .goesOn [] [v] values (by simp) (Or.inl ⟨rfl, rfl⟩) rfl rfl rfl rfl
  | none =>
    refine .lacksOperand fun hfits => ?_
    obtain ⟨v, hv⟩ := Slot.Fits.read hfits
    rw [hread] at hv
    cases hv

theorem State.store_executed {slot : Slot} {v : Value} {rest : List Value}
    (hvalues : values = v :: rest) :
    Executed t values globals frame callers (.store slot)
      (((State.of rest globals ({ frame with pc := frame.pc + 1 } :: callers) steps).store frame
        slot v).settle h w) := by
  rw [State.store_of]
  cases hwrite : slot.write frame.locals globals v with
  | some written =>
    exact .goesOn [v] [] rest (by simp) (Or.inl ⟨rfl, rfl⟩) hvalues rfl rfl hwrite
  | none =>
    refine .lacksOperand fun hfits => ?_
    obtain ⟨locals', globals', hsome⟩ := Slot.Fits.write v hfits
    rw [hwrite] at hsome
    cases hsome

/-- An operator, which takes some values and may put one. -/
theorem State.pushResult_executed {i : Instr} (taken rest : List Value)
    (result : Except OperandFault Value) (hcall : ∀ function, i ≠ .call function)
    (hends : i.endsCode = false) (hvalues : values = taken ++ rest)
    (htaken : taken.length = i.takes t) (hpushes : i.pushes = 1)
    (hset : i.variablesAfter taken frame.locals globals = some (frame.locals, globals)) :
    Executed t values globals frame callers i
      (((State.of rest globals ({ frame with pc := frame.pc + 1 } :: callers) steps).pushResult
        result).settle h w) := by
  cases result with
  | ok v =>
    exact .goesOn taken [v] rest hcall (Or.inl ⟨rfl, hends⟩) hvalues htaken hpushes.symm hset
  | error fault => exact .fails (by simp)

/-- What a call can come to: the function is entered, or there are too few values or too many
calls. -/
theorem State.enter_executed {function : String} {f : FunctionCode}
    (hf : t.callee? function = some f) :
    Executed t values globals frame callers (.call function)
      (((State.of values globals ({ frame with pc := frame.pc + 1 } :: callers) steps).enter limits
        f).settle h w) := by
  have htakes : (Instr.call function).takes t = f.paramCount := by simp [Instr.takes, hf]
  by_cases henough : f.paramCount ≤ values.length
  · have hargs : (values.take f.paramCount).length = f.paramCount := by
      rw [List.length_take]
      omega
    have hsplit := List.take_append_drop f.paramCount values
    rw [← hsplit]
    rcases State.enter_of (values.drop f.paramCount) globals
        ({ frame with pc := frame.pc + 1 } :: callers) steps limits hargs with
      ⟨fault, hfault⟩ | hnext
    · rw [hfault]
      exact .fails (by simp)
    · rw [hnext]
      exact .enters function f _ _ hf rfl hargs
  · have hshort : values.length < f.paramCount := Nat.lt_of_not_le henough
    have hpop : (State.of values globals ({ frame with pc := frame.pc + 1 } :: callers)
        steps).stack.popMany? f.paramCount = none := Stack.popMany?_ofList_of_lt hshort
    unfold State.enter
    rw [hpop]
    split
    · exact .fails (by simp)
    · refine .lacksValues ?_
      rw [htakes]
      exact hshort

theorem State.callNative_executed {index : Nat} {native : Native} {arg : Value} {rest : List Value}
    (hvalues : values = arg :: rest) :
    Executed t values globals frame callers (.native index)
      (((State.of rest globals ({ frame with pc := frame.pc + 1 } :: callers) steps).callNative
        native arg).settle h w) := by
  rw [State.settle_callNative]
  rcases hanswer : native.answer h arg w with ⟨fault | v, w'⟩
  · exact .fails (Native.answer_ne_internal hanswer)
  · exact .goesOn [arg] [v] rest (by simp) (Or.inl ⟨rfl, rfl⟩) hvalues rfl rfl rfl

theorem State.leave_executed {v : Value} {rest : List Value} (hvalues : values = v :: rest)
    (frame' : Frame) :
    Executed t values globals frame callers .ret
      (((State.of rest globals (frame' :: callers) steps).leave v).settle h w) := by
  cases callers with
  | nil => exact .finishes v rest hvalues rfl
  | cons caller outer => exact .returns v rest caller outer hvalues rfl

/-- Executing an instruction does what is listed. -/
theorem State.execute_executed (i : Instr) :
    Executed t values globals frame callers i
      (((State.of values globals ({ frame with pc := frame.pc + 1 } :: callers) steps).execute t
        limits frame i).settle h w) := by
  cases i with
  | push v => exact .goesOn [] [v] values (by simp) (Or.inl ⟨rfl, rfl⟩) rfl rfl rfl rfl
  | load slot => exact State.load_executed
  | store slot =>
    cases values with
    | nil => exact .lacksValues Nat.zero_lt_one
    | cons v rest => exact State.store_executed rfl
  | unary op =>
    cases values with
    | nil => exact .lacksValues Nat.zero_lt_one
    | cons v rest =>
      exact State.pushResult_executed [v] rest (op.apply v) (by simp) rfl rfl rfl rfl rfl
  | binary op =>
    cases values with
    | nil => exact .lacksValues Nat.zero_lt_two
    | cons right rest =>
      cases rest with
      | nil => exact .lacksValues Nat.one_lt_two
      | cons left rest =>
        exact State.pushResult_executed [right, left] rest (op.apply left right) (by simp) rfl rfl
          rfl rfl rfl
  | pop =>
    cases values with
    | nil => exact .lacksValues Nat.zero_lt_one
    | cons v rest => exact .goesOn [v] [] rest (by simp) (Or.inl ⟨rfl, rfl⟩) rfl rfl rfl rfl
  | jump target => exact .goesOn [] [] values (by simp) (Or.inr rfl) rfl rfl rfl rfl
  | jumpIf target =>
    cases values with
    | nil => exact .lacksValues Nat.zero_lt_one
    | cons v rest =>
      simp only [State.execute, State.withTop_of]
      by_cases hv : v.truthy
      · rw [if_pos hv]
        exact .goesOn [v] [] rest (by simp) (Or.inr rfl) rfl rfl rfl rfl
      · rw [if_neg hv]
        exact .goesOn [v] [] rest (by simp) (Or.inl ⟨rfl, rfl⟩) rfl rfl rfl rfl
  | call function =>
    rw [State.execute]
    cases hf : t.callee? function with
    | none => exact .lacksOperand (by simp [Instr.HasOperand, hf])
    | some f => exact State.enter_executed hf
  | native index =>
    rw [State.execute]
    cases hnative : Native.ofIndex? index with
    | none => exact .lacksOperand (by simp [Instr.HasOperand, hnative])
    | some native =>
      cases values with
      | nil => exact .lacksValues Nat.zero_lt_one
      | cons arg rest => exact State.callNative_executed rfl
  | ret =>
    cases values with
    | nil => exact .lacksValues Nat.zero_lt_one
    | cons v rest => exact State.leave_executed rfl _

/-- A turn does what is listed, or breaks a limit, which is listed too. -/
theorem State.turn_executed (h : Handler σ) (t : Table) (limits : Limits) (w : σ) {s : State}
    {i : Instr} (hframes : s.frames.items = frame :: callers)
    (hi : frame.function.code.toList[frame.pc]? = some i) :
    Executed t s.stack.items s.globals frame callers i (s.turn h t limits w) := by
  have hs : s = .of s.stack.items s.globals (frame :: callers) s.steps := by
    rw [← hframes]
    exact s.eq_of
  rw [hs]
  rcases State.turn_of h t limits w hi with ⟨fault, s', hlimit⟩ | hexec
  · rw [hlimit]
    exact .fails (by simp)
  · rw [hexec]
    exact State.execute_executed i

end

/-- A run of code that passes the check starts with a call of the first `main`, if there is one. -/
theorem Table.start_cases {σ : Type} {t : Table} (ht : t.check = .ok ()) (w : σ) :
    (t.find? "main" = none ∧ t.start w = .halted (.ok .nothing) (.fresh t.globalCount) w) ∨
      ∃ main, t.find? "main" = some main ∧ t.start w =
        .running (.of [] (Array.replicate t.globalCount .nothing) [.ofMain main] 0) w := by
  unfold Table.start
  cases hmain : t.find? "main" with
  | none => exact Or.inl ⟨rfl, rfl⟩
  | some main =>
    refine Or.inr ⟨main, rfl, ?_⟩
    simp only [ht]
    rfl

/-- What holds when a run starts, and is kept by each turn, holds all along the run. -/
theorem Table.run_invariant {σ : Type} {h : Handler σ} {t : Table} {limits : Limits}
    {P : Turn σ → Prop} (w : σ) (hstart : P (t.start w))
    (hturn : ∀ s w', P (.running s w') → P (s.turn h t limits w')) (n : Nat) :
    P (t.run h limits w n) := by
  induction n with
  | zero =>
    rw [Table.run, Turn.advance_zero]
    exact hstart
  | succ n ih =>
    rw [Table.run_succ]
    cases hrun : t.run h limits w n with
    | halted result s w' =>
      rw [hrun] at ih
      exact ih
    | running s w' =>
      rw [hrun] at ih
      exact hturn s w' ih

end StackLang

import StackLang.Proofs.CheckedCode
import StackLang.Proofs.Turns

/-!
Runs of code that passed the check. Every call stands at an instruction of its function and has all
its variables, whatever jumps the code makes and whatever its functions are called, so the only
fault of the machine's own that is left is a stack with too few values. This one is excluded as well
if the names of functions differ and no jump goes to where the scan has more values than it has
after the jump. All calls share one stack, so the invariant is about all of them: the values there
are at least as many as the innermost call has by the scan, and each call around it has by the scan
but for the value that it waits for.
-/
namespace StackLang

structure Frame.Sound (t : Table) (frame : Frame) : Prop where
  function : frame.function ∈ t.functions
  pc : frame.pc < frame.function.code.toList.length
  locals : frame.locals.size = frame.function.localCount

structure InPlace (t : Table) (globals : Array Value) (frames : List Frame) : Prop where
  active : ∃ frame callers, frames = frame :: callers
  sound : ∀ frame ∈ frames, frame.Sound t
  globals : globals.size = t.globalCount

section

variable {t : Table} {values : List Value} {globals : Array Value} {frame : Frame}
  {callers : List Frame} {i : Instr}

/-- A new call has all its variables. -/
theorem FunctionCode.Checked.size_locals {f : FunctionCode} (hf : f.Checked t) {args : List Value}
    (hargs : args.length = f.paramCount) : (f.locals args).size = f.localCount := by
  have hle := hf.params_le
  simp only [FunctionCode.locals, List.size_toArray, List.length_append, List.length_replicate]
  omega

/-- Control never leaves a checked function over its end: every instruction leads to another one. -/
theorem FunctionCode.Checked.goesTo_lt {f : FunctionCode} (hf : f.Checked t) {pos next : Nat}
    (hi : f.code.toList[pos]? = some i) (hgo : i.GoesTo pos next) :
    next < f.code.toList.length := by
  rcases hgo with ⟨rfl, hends⟩ | htarget
  · exact hf.next_lt hi hends
  · exact Instr.jumpTarget_lt (hf.instr hi).operand htarget

/-- What a checked instruction refers to exists when it is executed. -/
theorem InPlace.hasOperand (hp : InPlace t globals (frame :: callers))
    (hf : frame.function.Checked t) (hi : frame.function.code.toList[frame.pc]? = some i) :
    i.HasOperand t frame.locals globals := by
  have hlocals := (hp.sound frame (by simp)).locals
  have hoperand := (hf.instr hi).operand
  cases i with
  | load slot =>
    rw [Instr.load_operand_iff, ← hlocals, ← hp.globals] at hoperand
    exact hoperand
  | store slot =>
    rw [Instr.store_operand_iff, ← hlocals, ← hp.globals] at hoperand
    exact hoperand
  | call function =>
    rw [Instr.HasOperand, Table.isSome_callee?, Option.isSome_iff_ne_none]
    simpa [Instr.operandFault?] using hoperand
  | native index =>
    rw [Instr.HasOperand, Option.isSome_iff_ne_none]
    simpa [Instr.operandFault?] using hoperand
  | _ => exact trivial

section

variable {σ : Type} {s' : State} {w' : σ}

/-- Executing an instruction leaves each call at an instruction, with all its variables. -/
theorem Executed.inPlace (ht : ∀ f ∈ t.functions, f.Checked t)
    (hp : InPlace t globals (frame :: callers))
    (hi : frame.function.code.toList[frame.pc]? = some i)
    (hex : Executed t values globals frame callers i (.running s' w')) :
    InPlace t s'.globals s'.frames.items := by
  have htop := hp.sound frame (by simp)
  have hf := ht _ htop.function
  have hcallers : ∀ caller ∈ callers, caller.Sound t :=
    fun caller hcaller => hp.sound caller (by simp [hcaller])
  cases hex with
  | goesOn taken pushed rest hcall hpc hvalues htaken hpushed hset =>
    obtain ⟨hlocals, hglobals⟩ := Instr.size_variablesAfter hset
    refine ⟨⟨_, _, rfl⟩, ?_, hglobals.trans hp.globals⟩
    refine List.forall_mem_cons.2 ⟨?_, hcallers⟩
    exact ⟨htop.function, hf.goesTo_lt hi hpc, hlocals.trans htop.locals⟩
  | enters function f args rest hcallee hvalues hargs =>
    have hmem := (Table.callee?_mem hcallee).1
    refine ⟨⟨_, _, rfl⟩, ?_, hp.globals⟩
    refine List.forall_mem_cons.2 ⟨?_, List.forall_mem_cons.2 ⟨?_, hcallers⟩⟩
    · exact ⟨hmem, (ht _ hmem).code_pos, (ht _ hmem).size_locals hargs⟩
    · exact ⟨htop.function, hf.next_lt hi rfl, htop.locals⟩
  | returns v rest caller outer hvalues houter =>
    rw [houter] at hcallers
    exact ⟨⟨_, _, rfl⟩, hcallers, hp.globals⟩

/-- An instruction whose slot, function or native exists can have only one internal fault: it finds
too few values. -/
theorem Executed.internal_eq_underflow {fault : InternalFault}
    (hoperand : i.HasOperand t frame.locals globals)
    (hex : Executed t values globals frame callers i (.halted (.error (.internal fault)) s' w')) :
    fault = .underflow ∧ values.length < i.takes t := by
  cases hex with
  | fails hfault => exact absurd rfl (hfault fault)
  | lacksValues hvalues => exact ⟨rfl, hvalues⟩
  | lacksOperand hnone => exact absurd hoperand hnone

end

end

/-- The machine runs with all calls in place, or has halted for another reason than that something
was missing. -/
def Turn.InPlace {σ : Type} (t : Table) : Turn σ → Prop
  | .running s _ => StackLang.InPlace t s.globals s.frames.items
  | .halted (.ok _) _ _ => True
  | .halted (.error cause) _ _ => ∀ fault, cause = .internal fault → fault = .underflow

section

variable {σ : Type} {h : Handler σ} {t : Table} {limits : Limits} {w : σ}

/-- The instruction that is executed next. -/
theorem InPlace.instr {globals : Array Value} {frame : Frame} {callers : List Frame}
    (hp : InPlace t globals (frame :: callers)) :
    ∃ i, frame.function.code.toList[frame.pc]? = some i :=
  ⟨_, List.getElem?_eq_getElem (hp.sound frame (by simp)).pc⟩

/-- The first call is in place. -/
theorem Table.inPlace_ofMain (ht : ∀ f ∈ t.functions, f.Checked t) {main : FunctionCode}
    (hmain : t.find? "main" = some main) :
    InPlace t (Array.replicate t.globalCount .nothing) [.ofMain main] := by
  have hmem := (Table.find?_mem hmain).1
  refine ⟨⟨_, _, rfl⟩, List.forall_mem_singleton.2 ?_, Array.size_replicate⟩
  exact ⟨hmem, (ht main hmem).code_pos, Array.size_replicate⟩

theorem InPlace.turn (ht : ∀ f ∈ t.functions, f.Checked t) {s : State}
    (hp : InPlace t s.globals s.frames.items) (w : σ) : (s.turn h t limits w).InPlace t := by
  obtain ⟨frame, callers, hframes⟩ := hp.active
  rw [hframes] at hp
  obtain ⟨i, hi⟩ := hp.instr
  have hex := State.turn_executed h t limits w hframes hi
  cases hturn : s.turn h t limits w with
  | running s' w' =>
    rw [hturn] at hex
    exact hex.inPlace ht hp hi
  | halted result s' w' =>
    cases result with
    | ok v => exact trivial
    | error cause =>
      rintro fault rfl
      rw [hturn] at hex
      have hf := ht _ (hp.sound frame (by simp)).function
      exact (hex.internal_eq_underflow (hp.hasOperand hf hi)).1

/-- At every turn of a run over checked functions, the frames stand at instructions they have. -/
theorem Table.run_inPlace (ht : ∀ f ∈ t.functions, f.Checked t) (h : Handler σ) (limits : Limits)
    (w : σ) (n : Nat) : (t.run h limits w n).InPlace t := by
  apply Table.run_invariant
  · rcases Table.start_cases (Table.check_eq_ok_iff.2 ht) w with ⟨-, hstart⟩ | ⟨main, hmain, hstart⟩
    · rw [hstart]
      exact trivial
    · rw [hstart]
      exact Table.inPlace_ofMain ht hmain
  · intro s w' hp
    exact InPlace.turn ht hp w'

end

/-- If code that passed the check fails by a fault of the machine's own, the stack was too low.
While it runs, there is a call, whose position is in its function, and what the instruction there
refers to exists. -/
theorem Table.run_internal_underflow {t : Table} (ht : t.check = .ok ()) {σ : Type} (h : Handler σ)
    (limits : Limits) (w : σ) (n : Nat) :
    (∀ fault s w', t.run h limits w n = .halted (.error (.internal fault)) s w' →
        fault.message = "operand stack underflow") ∧
      ∀ s w', t.run h limits w n = .running s w' →
        ∃ frame callers i, s.frames.items = frame :: callers ∧ frame.function ∈ t.functions ∧
          frame.function.code.toList[frame.pc]? = some i ∧
          i.HasOperand t frame.locals s.globals := by
  have hchecked := Table.check_eq_ok_iff.1 ht
  have hrun := Table.run_inPlace hchecked h limits w n
  constructor
  · intro fault s w' hn
    rw [hn] at hrun
    rw [hrun fault rfl]
    rfl
  · intro s w' hn
    rw [hn] at hrun
    have hp : InPlace t s.globals s.frames.items := hrun
    obtain ⟨frame, callers, hframes⟩ := hp.active
    rw [hframes] at hp
    obtain ⟨i, hi⟩ := hp.instr
    have hfunction := (hp.sound frame (by simp)).function
    exact ⟨frame, callers, i, hframes, hfunction, hi, hp.hasOperand (hchecked _ hfunction) hi⟩

def jumpOverPush : Table :=
  ⟨0, [⟨"main", 0, 0, #[.jump 2, .push .nothing, .pop, .push .nothing, .ret]⟩]⟩

/-- It passes the check, and its second turn finds no value. -/
theorem Table.run_internal_underflow_jumpOverPush :
    ∃ fault s w', jumpOverPush.check = .ok () ∧
      jumpOverPush.run Recording.handler .standard (.ofInputs [] none none) 2 =
        .halted (.error (.internal fault)) s w' ∧ fault.message = "operand stack underflow" := by
  have hunderflow := (Table.run_internal_underflow (t := jumpOverPush) rfl Recording.handler
    .standard (.ofInputs [] none none) 2).1
  exact ⟨_, _, _, rfl, rfl, hunderflow _ _ _ rfl⟩

/-- The number of values that the call has on the stack when it is at its position. -/
def Frame.height (t : Table) (frame : Frame) : Nat :=
  heightAt t frame.function.code.toList frame.pc

def Frame.waiting (t : Table) : List Frame → Nat
  | [] => 0
  | caller :: outer => caller.height t - 1 + Frame.waiting t outer

/-- The number of values that all calls count on, of which all but the innermost wait for one. -/
def Frame.demand (t : Table) : List Frame → Nat
  | [] => 0
  | frame :: callers => frame.height t + Frame.waiting t callers

@[simp]
theorem Frame.waiting_nil (t : Table) : Frame.waiting t [] = 0 := rfl

@[simp]
theorem Frame.waiting_cons (t : Table) (caller : Frame) (outer : List Frame) :
    Frame.waiting t (caller :: outer) = caller.height t - 1 + Frame.waiting t outer := rfl

section

variable {σ : Type} {t : Table} {values : List Value} {globals : Array Value} {frame : Frame}
  {callers : List Frame} {i : Instr} {s' : State} {w' : σ}

/-- Calls that wait for a value have one by the scan, which is this value once it is there. -/
theorem Executed.waits (hwaits : ∀ caller ∈ callers, 1 ≤ caller.height t)
    (hi : frame.function.code.toList[frame.pc]? = some i)
    (hex : Executed t values globals frame callers i (.running s' w')) :
    ∀ caller ∈ s'.frames.items.tail, 1 ≤ caller.height t := by
  cases hex with
  | goesOn taken pushed rest hcall hpc hvalues htaken hpushed hset => exact hwaits
  | enters function f args rest hcallee hvalues hargs =>
    refine List.forall_mem_cons.2 ⟨?_, hwaits⟩
    have hafter := heightAt_succ (t := t) hi
    simp only [Instr.pushes] at hafter
    simp only [Frame.height]
    omega
  | returns v rest caller outer hvalues houter =>
    intro other hother
    rw [houter] at hwaits
    exact hwaits other (List.mem_cons_of_mem caller hother)

/-- The values on the stack and the values that are counted on change alike, but for those that a
jump or a return leaves behind: a jump, if the scan has fewer at its target than after it, and a
return, if the scan has more than the one that is returned. -/
theorem Executed.demand (hwaits : ∀ caller ∈ callers, 1 ≤ caller.height t)
    (hpops : i.pops t ≤ frame.height t) (htakes : i.takes t = i.pops t)
    (hi : frame.function.code.toList[frame.pc]? = some i)
    (hex : Executed t values globals frame callers i (.running s' w')) :
    ∃ left kept, s'.stack.items.length + Frame.demand t (frame :: callers) + left =
        values.length + Frame.demand t s'.frames.items + kept ∧
      (left = kept ∨
        (∃ target, i.jumpTarget? = some target ∧
          left = heightAt t frame.function.code.toList target ∧
          kept = heightAt t frame.function.code.toList (frame.pc + 1)) ∨
        (i = .ret ∧ left = 1 ∧ kept = frame.height t)) := by
  have hafter := heightAt_succ (t := t) hi
  rw [Frame.height] at hpops
  cases hex with
  | goesOn taken pushed rest hcall hpc hvalues htaken hpushed hset =>
    have hlength : (pushed ++ rest).length + i.pops t = values.length + i.pushes := by
      rw [hvalues, List.length_append, List.length_append, htaken, htakes, hpushed]
      omega
    rcases hpc with ⟨rfl, -⟩ | htarget
    · refine ⟨0, 0, ?_, Or.inl rfl⟩
      simp only [State.stack_of, State.frames_of, Stack.items_ofList, Frame.demand, Frame.height]
      omega
    · refine ⟨_, _, ?_, Or.inr (Or.inl ⟨_, htarget, rfl, rfl⟩)⟩
      simp only [State.stack_of, State.frames_of, Stack.items_ofList, Frame.demand, Frame.height]
      omega
  | enters function f args rest hcallee hvalues hargs =>
    have hparams : args.length = (Instr.call function).pops t := by
      rw [← htakes, hargs, Instr.takes, hcallee]
      rfl
    refine ⟨0, 0, ?_, Or.inl rfl⟩
    simp only [Instr.pushes] at hafter
    simp only [State.stack_of, State.frames_of, Stack.items_ofList, Frame.demand,
      Frame.waiting_cons, Frame.height, heightAt_zero, hafter, hvalues, List.length_append]
    omega
  | returns v rest caller outer hvalues houter =>
    refine ⟨1, frame.height t, ?_, Or.inr (Or.inr ⟨rfl, rfl, rfl⟩)⟩
    rw [houter] at hwaits
    have hone := hwaits caller List.mem_cons_self
    simp only [State.stack_of, State.frames_of, Stack.items_ofList, Frame.demand, houter,
      Frame.waiting_cons, hvalues]
    omega

end

/-- No jump goes to where the scan has more values on the stack than it has after the jump. -/
def Table.JumpsDescend (t : Table) : Prop :=
  ∀ f ∈ t.functions, ∀ pos i target, f.code.toList[pos]? = some i → i.jumpTarget? = some target →
    heightAt t f.code.toList target ≤ heightAt t f.code.toList (pos + 1)

/-- Where names agree, the machine takes what the check counts. -/
theorem Instr.takes_eq_pops {t : Table} (hcallee : ∀ name, t.callee? name = t.find? name)
    (i : Instr) : i.takes t = i.pops t := by
  cases i with
  | call function => simp [Instr.takes, Instr.pops, hcallee]
  | _ => rfl

def Turn.Supplied {σ : Type} (t : Table) : Turn σ → Prop
  | .running s _ => StackLang.InPlace t s.globals s.frames.items ∧
      (∀ caller ∈ s.frames.items.tail, 1 ≤ caller.height t) ∧
      Frame.demand t s.frames.items ≤ s.stack.items.length
  | .halted (.ok _) _ _ => True
  | .halted (.error cause) _ _ => ∀ fault, cause ≠ .internal fault

section

variable {σ : Type} {h : Handler σ} {t : Table} {limits : Limits}

theorem Turn.Supplied.turn (ht : ∀ f ∈ t.functions, f.Checked t)
    (hcallee : ∀ name, t.callee? name = t.find? name) (hjumps : t.JumpsDescend) {s : State} {w : σ}
    (hs : (Turn.running s w).Supplied t) : (s.turn h t limits w).Supplied t := by
  obtain ⟨hp, hwaits, hdemand⟩ := hs
  obtain ⟨frame, callers, hframes⟩ := hp.active
  rw [hframes] at hp hwaits hdemand
  rw [List.tail_cons] at hwaits
  obtain ⟨i, hi⟩ := hp.instr
  have hmem := (hp.sound frame (by simp)).function
  have hf := ht _ hmem
  have hpops : i.pops t ≤ frame.height t := (hf.instr hi).pops
  have htakes := Instr.takes_eq_pops hcallee i
  have hex := State.turn_executed h t limits w hframes hi
  cases hturn : s.turn h t limits w with
  | running s' w' =>
    rw [hturn] at hex
    refine ⟨hex.inPlace ht hp hi, hex.waits hwaits hi, ?_⟩
    obtain ⟨left, kept, hbalance, hleft⟩ := hex.demand hwaits hpops htakes hi
    have hle : left ≤ kept := by
      rcases hleft with rfl | ⟨target, htarget, rfl, rfl⟩ | ⟨rfl, rfl, rfl⟩
      · exact Nat.le_refl left
      · exact hjumps _ hmem _ _ _ hi htarget
      · exact hpops
    omega
  | halted result s' w' =>
    cases result with
    | ok v => exact trivial
    | error cause =>
      rintro fault rfl
      rw [hturn] at hex
      have hfew := (hex.internal_eq_underflow (hp.hasOperand hf hi)).2
      rw [Frame.demand] at hdemand
      omega

end

/-- Code that passed the check never fails by a fault of the machine's own, if its functions have
different names and no jump goes to where the scan has more values than after the jump. -/
theorem Table.run_ne_internal {t : Table} (hnames : (t.functions.map (·.name)).Nodup)
    (ht : t.check = .ok ()) (hjumps : t.JumpsDescend) {σ : Type} (h : Handler σ) (limits : Limits)
    (w : σ) (n : Nat) (fault : InternalFault) (s : State) (w' : σ) :
    t.run h limits w n ≠ .halted (.error (.internal fault)) s w' := by
  have hchecked := Table.check_eq_ok_iff.1 ht
  have hcallee := Table.callee?_eq_find? hnames
  have hsupplied : (t.run h limits w n).Supplied t := by
    apply Table.run_invariant
    · rcases Table.start_cases ht w with ⟨-, hstart⟩ | ⟨main, hmain, hstart⟩
      · rw [hstart]
        exact trivial
      · rw [hstart]
        exact ⟨Table.inPlace_ofMain hchecked hmain, by simp, Nat.le_refl 0⟩
    · intro s w' hs
      exact hs.turn hchecked hcallee hjumps
  intro hn
  rw [hn] at hsupplied
  exact hsupplied fault rfl

def leftValues : Table :=
  ⟨0, [⟨"f", 0, 0, #[.push (.int 1), .push (.int 2), .ret]⟩,
    ⟨"main", 0, 0, #[.call "f", .jump 3, .pop, .push (.int 5), .ret]⟩]⟩

/-- Where it jumps to, the scan has one value fewer. Two values are left at the end. -/
theorem Table.run_ne_internal_leftValues :
    (leftValues.functions.map (·.name)).Nodup ∧ leftValues.check = .ok () ∧
      leftValues.JumpsDescend ∧
      (leftValues.run Recording.handler .standard (.ofInputs [] none none) 7).state.stack.items =
        [.int 2, .int 1] ∧
      ∀ n fault s w', leftValues.run Recording.handler .standard (.ofInputs [] none none) n ≠
        .halted (.error (.internal fault)) s w' := by
  have hnames : (leftValues.functions.map (·.name)).Nodup := by decide
  have hjumps : leftValues.JumpsDescend := by
    intro f hf pos i target hi htarget
    simp only [leftValues, List.mem_cons, List.not_mem_nil, or_false] at hf
    rcases hf with rfl | rfl
    · rcases pos with _ | _ | _ | pos <;> cases hi <;> cases htarget
    · rcases pos with _ | _ | _ | _ | _ | pos <;> cases hi <;> cases htarget
      decide
  refine ⟨hnames, rfl, hjumps, rfl, ?_⟩
  intro n fault s w'
  exact Table.run_ne_internal hnames rfl hjumps Recording.handler .standard _ n fault s w'

end StackLang

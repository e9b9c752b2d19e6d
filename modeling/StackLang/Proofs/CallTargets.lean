import StackLang.Proofs.CheckedCode
import StackLang.Proofs.Turns

/-!
Which function a name means. The check counts the arguments of a call by the first function of that
name, and a run starts with the first `main`; a call enters the last function of its name. The check
does not look at names, so the two can differ in a table that passes it. They are the same function
if only one has the name.
-/
namespace StackLang

section

variable {σ : Type} {h : Handler σ} {t : Table} {limits : Limits}

/-- A turn that executes a call, after which the machine goes on, enters the last function of the
name with the arguments it has taken from the stack. -/
theorem State.turn_call {s s' : State} {w w' : σ} {frame : Frame} {callers : List Frame}
    {name : String} (hframes : s.frames.items = frame :: callers)
    (hcall : frame.function.code.toList[frame.pc]? = some (.call name))
    (hturn : s.turn h t limits w = .running s' w') :
    ∃ last args, t.callee? name = some last ∧ args.length = last.paramCount ∧
      s.stack.items = args ++ s'.stack.items ∧
      s'.frames.items =
        ⟨last, last.locals args, 0⟩ :: { frame with pc := frame.pc + 1 } :: callers := by
  have hex := State.turn_executed h t limits w hframes hcall
  rw [hturn] at hex
  cases hex with
  | goesOn taken pushed rest hno => exact absurd rfl (hno name)
  | enters function last args rest hlast hvalues hargs =>
    exact ⟨last, args, hlast, hargs, hvalues, rfl⟩

end

/-- In a run of code that passed the check, a call takes the arguments of the last function of its
name and enters it, while the check has counted those of the first one. If no other function has the
name, both are the same function, and the call takes as many values as the check has counted. The
first function called `main` is the one that the run has started with. -/
theorem Table.run_call_enters_last {t : Table} (ht : t.check = .ok ()) {σ : Type} (h : Handler σ)
    (limits : Limits) (w : σ) (n : Nat) {s s' : State} {w₁ w₂ : σ} {frame : Frame}
    {callers : List Frame} {name : String} (hn : t.run h limits w n = .running s w₁)
    (hframes : s.frames.items = frame :: callers)
    (hcall : frame.function.code.toList[frame.pc]? = some (.call name))
    (hnext : t.run h limits w (n + 1) = .running s' w₂) :
    ∃ first last args, t.find? name = some first ∧ t.callee? name = some last ∧
      (Instr.call name).pops t = first.paramCount ∧ args.length = last.paramCount ∧
      s.stack.items = args ++ s'.stack.items ∧
      s'.frames.items =
        ⟨last, last.locals args, 0⟩ :: { frame with pc := frame.pc + 1 } :: callers ∧
      ((∀ f ∈ t.functions, ∀ g ∈ t.functions, f.name = name → g.name = name → f = g) →
        last = first ∧ args.length = (Instr.call name).pops t) ∧
      (name = "main" → t.start w =
        .running (.of [] (Array.replicate t.globalCount .nothing) [.ofMain first] 0) w) := by
  rw [Table.run_succ, hn, Turn.advance_running, Turn.advance_zero] at hnext
  obtain ⟨last, args, hlast, hargs, hvalues, hentered⟩ := State.turn_call hframes hcall hnext
  have hsome : (t.find? name).isSome := by
    rw [← Table.isSome_callee?, hlast]
    rfl
  obtain ⟨first, hfirst⟩ := Option.isSome_iff_exists.1 hsome
  have hpops : (Instr.call name).pops t = first.paramCount := by simp [Instr.pops, hfirst]
  refine ⟨first, last, args, hfirst, hlast, hpops, hargs, hvalues, hentered, ?_, ?_⟩
  · intro hunique
    have hsame := Table.callee?_eq_find?_of_unique hunique
    rw [hlast, hfirst] at hsame
    cases hsame
    exact ⟨rfl, hargs.trans hpops.symm⟩
  · intro hmain
    rw [hmain] at hfirst
    rcases Table.start_cases ht w with ⟨hnone, -⟩ | ⟨main, hfound, hstart⟩
    · rw [hfirst] at hnone
      cases hnone
    · rw [hfirst] at hfound
      cases hfound
      exact hstart

def backAndForth : Table :=
  ⟨0, [⟨"main", 0, 0, #[.push (.int 9), .push (.int 8), .call "f", .ret]⟩,
    ⟨"f", 2, 2, #[.call "main", .ret]⟩]⟩

/-- The third turn takes the two values for `f`; the fourth enters `main` again. -/
theorem Table.run_call_enters_last_backAndForth :
    (∃ s' w' f callers, backAndForth.find? "f" = some f ∧
      backAndForth.run Recording.handler .standard (.ofInputs [] none none) 3 = .running s' w' ∧
      s'.frames.items = ⟨f, f.locals [.int 8, .int 9], 0⟩ :: callers) ∧
    ∃ s' w' main callers,
      backAndForth.start (Recording.ofInputs [] none none) = .running (.of [] #[] [.ofMain main] 0)
        (.ofInputs [] none none) ∧
      backAndForth.run Recording.handler .standard (.ofInputs [] none none) 4 = .running s' w' ∧
      s'.frames.items = ⟨main, main.locals [], 0⟩ :: callers := by
  constructor
  · obtain ⟨first, last, args, hfirst, -, -, -, hvalues, hentered, hunique, -⟩ :=
      Table.run_call_enters_last (t := backAndForth) rfl Recording.handler .standard
        (.ofInputs [] none none) 2 rfl rfl rfl rfl
    obtain ⟨rfl, -⟩ := hunique (by decide)
    have htaken : [Value.int 8, .int 9] = args ++ [] := hvalues
    rw [List.append_nil] at htaken
    rw [← htaken] at hentered
    exact ⟨_, _, last, _, hfirst, rfl, hentered⟩
  · obtain ⟨first, last, args, -, -, -, -, -, hentered, hunique, hstart⟩ :=
      Table.run_call_enters_last (t := backAndForth) rfl Recording.handler .standard
        (.ofInputs [] none none) 3 rfl rfl rfl rfl
    obtain ⟨rfl, hargs⟩ := hunique (by decide)
    have htaken : args = [] := List.eq_nil_of_length_eq_zero hargs
    rw [htaken] at hentered
    exact ⟨_, _, last, _, hstart rfl, rfl, hentered⟩

def namesakes : Table :=
  ⟨0, [⟨"main", 0, 0, #[.push (.int 9), .push (.int 8), .call "f", .binary .sub, .ret]⟩,
    ⟨"f", 1, 1, #[.load (.frame 0), .ret]⟩,
    ⟨"f", 2, 2, #[.load (.frame 0), .load (.frame 1), .binary .sub, .ret]⟩]⟩

/-- The check counts one argument; the third turn takes two and enters the other function. -/
theorem Table.call_of_namesake :
    ∃ s s' w' frame callers first last locals, namesakes.check = .ok () ∧
      namesakes.run Recording.handler .standard (.ofInputs [] none none) 2 = .running s w' ∧
      s.frames.items = frame :: callers ∧
      frame.function.code.toList[frame.pc]? = some (.call "f") ∧
      namesakes.run Recording.handler .standard (.ofInputs [] none none) 3 = .running s' w' ∧
      namesakes.find? "f" = some first ∧ (Instr.call "f").pops namesakes = 1 ∧
      s.stack.items = [.int 8, .int 9] ∧ s'.stack.items = [] ∧
      s'.frames.items = ⟨last, locals, 0⟩ :: { frame with pc := frame.pc + 1 } :: callers ∧
      last ≠ first := by
  refine ⟨_, _, _, _, _, _, _, _, rfl, rfl, rfl, rfl, rfl, rfl, rfl, rfl, rfl, rfl, ?_⟩
  decide

end StackLang

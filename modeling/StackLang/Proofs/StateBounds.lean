import StackLang.Proofs.Calls
import StackLang.Proofs.CheckedRuns
import StackLang.Proofs.ResourceLimits

/-!
How large a machine can grow. The size of the stack is looked at before each instruction and the
depth of calls in each call, so the stack can be one value higher than its limit and the calls as
deep as theirs; the call of `main` is there whatever the limit is. The variables are those that the
table asks for, and the outermost call stays the one that the run has started with.
-/
namespace StackLang

structure State.Bounded (t : Table) (limits : Limits) (s : State) : Prop where
  active : 1 ≤ s.frames.size
  depth : s.frames.size ≤ max 1 limits.maxCallDepth
  stack : s.stack.size ≤ limits.maxStackSize + 1
  steps : ∀ max, limits.maxSteps = some max → s.steps ≤ max
  globals : s.globals.size = t.globalCount
  outermost : ∃ main, t.find? "main" = some main ∧
    s.frames.items.getLast?.map (·.function) = some main
  locals : ∀ frame ∈ s.frames.items, frame.function ∈ t.functions ∧
    frame.locals.size = frame.function.localCount

section

variable {σ : Type} {h : Handler σ} {t : Table} {limits : Limits} {s s' : State} {w w' : σ}

/-- Where the machine goes on, it was allowed to. -/
theorem State.turn_allowed (hturn : s.turn h t limits w = .running s' w') :
    (∀ max, limits.maxSteps = some max → s.steps + 1 ≤ max) ∧
      s.stack.size ≤ limits.maxStackSize := by
  cases hbroken : State.brokenLimit? limits { s with steps := s.steps + 1 } with
  | none => exact State.brokenLimit?_eq_none_iff.1 hbroken
  | some fault =>
    rw [State.turn_eq_settle, State.step] at hturn
    simp only [hbroken] at hturn
    cases hturn

theorem State.turn_call_allowed {frame : Frame} {callers : List Frame} {name : String}
    (hframes : s.frames.items = frame :: callers)
    (hcall : frame.function.code.toList[frame.pc]? = some (.call name))
    (hturn : s.turn h t limits w = .running s' w') : s.frames.size < limits.maxCallDepth := by
  rw [s.eq_of, hframes] at hturn
  rw [s.frames.size_eq, hframes]
  rcases State.turn_of h t limits w hcall with ⟨fault, s₁, hlimit⟩ | hexec
  · rw [hlimit] at hturn
    cases hturn
  · rw [hexec, State.execute] at hturn
    cases hcallee : t.callee? name with
    | none =>
      rw [hcallee] at hturn
      cases hturn
    | some f =>
      simp only [hcallee, State.enter] at hturn
      split at hturn
      · cases hturn
      · rename_i hdepth
        exact Nat.lt_of_not_le hdepth

theorem Instr.pushes_le_one (i : Instr) : i.pushes ≤ 1 := by
  cases i <;> simp [Instr.pushes]

/-- An instruction makes the stack higher by one value at most. -/
theorem Executed.length_stack_le {values : List Value} {globals : Array Value} {frame : Frame}
    {callers : List Frame} {i : Instr}
    (hex : Executed t values globals frame callers i (.running s' w')) :
    s'.stack.items.length ≤ values.length + 1 := by
  cases hex with
  | goesOn taken pushed rest hcall hpc hvalues htaken hpushed hset =>
    have hone := i.pushes_le_one
    simp only [State.stack_of, Stack.items_ofList, hvalues, List.length_append]
    omega
  | enters function f args rest hf hvalues hargs =>
    simp only [State.stack_of, Stack.items_ofList, hvalues, List.length_append]
    omega
  | returns v rest caller outer hvalues hcallers =>
    simp only [State.stack_of, Stack.items_ofList, hvalues]
    omega

/-- The outermost call stays. -/
theorem FramesStep.outermost {values : List Value} {frame : Frame} {callers frames' : List Frame}
    {i : Instr} (hstep : FramesStep values frame callers i frames') :
    frames'.getLast?.map (·.function) = (frame :: callers).getLast?.map (·.function) := by
  cases hstep with
  | stay pc hi => cases callers <;> rfl
  | set hv => cases callers <;> rfl
  | enter f args hargs => cases callers <;> rfl
  | leave hcallers =>
    cases callers with
    | nil => exact absurd rfl hcallers
    | cons caller outer => rfl

theorem FramesStep.depth_le {values : List Value} {frame : Frame} {callers frames' : List Frame}
    {i : Instr} (hstep : FramesStep values frame callers i frames') :
    frames'.length ≤ (frame :: callers).length ∨ ∃ name, i = .call name := by
  cases hstep with
  | stay pc hi => exact Or.inl (Nat.le_refl _)
  | set hv => exact Or.inl (Nat.le_refl _)
  | enter f args hargs => exact Or.inr ⟨_, rfl⟩
  | leave hcallers => exact Or.inl (Nat.le_succ _)

/-- A turn keeps the bounds. -/
theorem State.Bounded.turn (ht : ∀ f ∈ t.functions, f.Checked t) (hs : s.Bounded t limits)
    (hp : InPlace t s.globals s.frames.items)
    (hturn : s.turn h t limits w = .running s' w') : s'.Bounded t limits := by
  obtain ⟨frame, callers, hframes⟩ := hp.active
  obtain ⟨i, hi, hstep⟩ := State.turn_frames hframes hturn
  have hex := State.turn_executed h t limits w hframes hi
  rw [hturn] at hex
  obtain ⟨hsteps, hsize⟩ := State.turn_allowed hturn
  have hp' : InPlace t s'.globals s'.frames.items := by
    rw [hframes] at hp
    exact hex.inPlace ht hp hi
  obtain ⟨frame', callers', hframes'⟩ := hp'.active
  constructor
  case active =>
    rw [s'.frames.size_eq, hframes', List.length_cons]
    omega
  case depth =>
    rcases hstep.depth_le with hle | ⟨name, rfl⟩
    · have hdepth := hs.depth
      rw [s.frames.size_eq, hframes] at hdepth
      rw [s'.frames.size_eq]
      exact Nat.le_trans hle hdepth
    · have hallowed := State.turn_call_allowed hframes hi hturn
      have hlength := hstep.length_le
      rw [← hframes, ← s.frames.size_eq, ← s'.frames.size_eq] at hlength
      omega
  case stack =>
    have hlength := hex.length_stack_le
    rw [← s.stack.size_eq, ← s'.stack.size_eq] at hlength
    omega
  case steps =>
    intro max hmax
    have hcount := State.steps_turn h t limits s w
    rw [hturn] at hcount
    exact Nat.le_trans (Nat.le_of_eq hcount) (hsteps max hmax)
  case globals => exact hp'.globals
  case outermost =>
    rw [hstep.outermost, ← hframes]
    exact hs.outermost
  case locals =>
    intro frame₁ hframe₁
    exact ⟨(hp'.sound frame₁ hframe₁).function, (hp'.sound frame₁ hframe₁).locals⟩

/-- Only a table that passed the check runs, and its run starts with the first `main`. -/
theorem Table.start_eq_running (hstart : t.start w = .running s w') :
    t.check = .ok () ∧ ∃ main, t.find? "main" = some main ∧
      s = .of [] (Array.replicate t.globalCount .nothing) [.ofMain main] 0 := by
  rw [Table.start] at hstart
  cases hmain : t.find? "main" with
  | none =>
    rw [hmain] at hstart
    cases hstart
  | some main =>
    simp only [hmain] at hstart
    cases hcheck : t.check with
    | error e =>
      rw [hcheck] at hstart
      cases hstart
    | ok _ =>
      simp only [hcheck] at hstart
      cases hstart
      exact ⟨rfl, main, rfl, rfl⟩

theorem Table.start_bounded (limits : Limits) (hstart : t.start w = .running s w') :
    s.Bounded t limits := by
  obtain ⟨hcheck, main, hmain, rfl⟩ := Table.start_eq_running hstart
  constructor
  case active => exact Nat.le_refl 1
  case depth => exact Nat.le_max_left 1 _
  case stack => exact Nat.zero_le _
  case steps => exact fun max _ => Nat.zero_le max
  case globals => exact Array.size_replicate
  case outermost => exact ⟨main, hmain, rfl⟩
  case locals =>
    refine List.forall_mem_singleton.2 ⟨(Table.find?_mem hmain).1, ?_⟩
    exact Array.size_replicate

/-- The bounds hold along a run. -/
theorem Table.run_bounded {n : Nat} (hn : t.run h limits w n = .running s w') :
    s.Bounded t limits := by
  obtain ⟨s₀, w₀, hzero⟩ := Table.run_running (Nat.zero_le n) hn
  rw [Table.run, Turn.advance_zero] at hzero
  have hchecked := Table.check_eq_ok_iff.1 (Table.start_eq_running hzero).1
  induction n generalizing s w' with
  | zero =>
    rw [Table.run, Turn.advance_zero] at hn
    exact Table.start_bounded limits hn
  | succ n ih =>
    obtain ⟨s₁, w₁, s₂, w₂, hbefore, hafter, hturn⟩ := Table.run_turn (Nat.lt_succ_self n) hn
    rw [hn] at hafter
    cases hafter
    have hp := Table.run_inPlace hchecked h limits w n
    rw [hbefore] at hp
    exact (ih hbefore).turn hchecked hp hturn

/-- With a limit on steps, a machine halts before it has counted two steps too many. -/
theorem Table.steps_le_maxSteps {max : Nat} (hmax : limits.maxSteps = some max) (n : Nat) :
    (t.run h limits w n).state.steps ≤ max + 1 := by
  rcases Table.run_steps h t limits w n with
    ⟨s, w', hn, -⟩ | ⟨result, s, w', hn, -⟩
  · rw [hn]
    exact Nat.le_succ_of_le ((Table.run_bounded hn).steps max hmax)
  · rw [hn]
    change s.steps ≤ max + 1
    cases hsteps : s.steps with
    | zero => exact Nat.zero_le _
    | succ k =>
      have hk : k < s.steps := by omega
      obtain ⟨s₁, w₁, hbefore⟩ := Table.running_before_halt hn hk
      have hcount := Table.steps_of_running hbefore
      have hle := (Table.run_bounded hbefore).steps max hmax
      omega

end

/-- In every state between two instructions of a run there are calls, no more than the limit on
their depth allows, but for the first one; there is at most one value more on the stack than its
limit says; there are the global variables of the table, and in each call the variables of its
function; and the outermost call is one of the first function called `main`. With a limit on steps,
no more than one step beyond it is ever counted, and the run halts. -/
theorem Table.run_within_bounds (t : Table) {σ : Type} (h : Handler σ) (limits : Limits) (w : σ) :
    (∀ n s w', t.run h limits w n = .running s w' → s.Bounded t limits) ∧
      ∀ max, limits.maxSteps = some max →
        (∀ n, (t.run h limits w n).state.steps ≤ max + 1) ∧
        ∃ n result s w', t.run h limits w n = .halted result s w' := by
  refine ⟨fun n s w' hn => Table.run_bounded hn, ?_⟩
  intro max hmax
  refine ⟨Table.steps_le_maxSteps hmax, ?_⟩
  cases hn : t.run h limits w (max + 1) with
  | halted result s w' => exact ⟨max + 1, result, s, w', hn⟩
  | running s w' =>
    have hsteps := Table.steps_of_running hn
    have hle := (Table.run_bounded hn).steps max hmax
    omega

def endlessCalls : Table :=
  ⟨1, [⟨"main", 0, 2, #[.push (.int 1), .push (.int 2), .call "main", .ret]⟩]⟩

/-- After four turns the calls are as deep as allowed, and the stack is one value higher. -/
theorem Table.run_within_bounds_endlessCalls :
    ∃ s w', endlessCalls.run Recording.handler ⟨2, some 6, 2⟩ (.ofInputs [] none none) 4 =
        .running s w' ∧ s.frames.size = 2 ∧ s.stack.size = 3 ∧
      s.Bounded endlessCalls ⟨2, some 6, 2⟩ ∧
      ∃ n result s₁ w₁,
        endlessCalls.run Recording.handler ⟨2, some 6, 2⟩ (.ofInputs [] none none) n =
          .halted result s₁ w₁ := by
  obtain ⟨hbounds, hsteps⟩ := Table.run_within_bounds endlessCalls Recording.handler ⟨2, some 6, 2⟩
    (.ofInputs [] none none)
  exact ⟨_, _, rfl, rfl, rfl, hbounds 4 _ _ rfl, (hsteps 6 rfl).2⟩

end StackLang

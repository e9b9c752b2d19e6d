import StackLang.Proofs.Execution

/-!
What the limits do to a run. A turn looks at them before it executes an instruction, and a call
looks at the depth; nothing else depends on them. So a run with lower limits takes the same turns as
one with higher limits until it breaks one of its own. For the limit on steps this is exact, since
the machine counts its turns: a run that is allowed as many steps as it needs does not notice the
limit, and with fewer it is cut off after just as many turns as it is allowed.
-/
namespace StackLang

/-- What a program says to the outside: a line that it tells, or the prompt with which it asks for
one. -/
inductive Request
  | tell (text : String)
  | ask (prompt : String)

/-- Each of the limits is at least as large. No limit on steps is the largest one. -/
structure Limits.AtMost (limits larger : Limits) : Prop where
  maxCallDepth : limits.maxCallDepth ≤ larger.maxCallDepth
  maxSteps : ∀ max, larger.maxSteps = some max →
    ∃ lower, limits.maxSteps = some lower ∧ lower ≤ max
  maxStackSize : limits.maxStackSize ≤ larger.maxStackSize

namespace Progress

def state : Progress → State
  | .next s => s
  | .done _ s => s
  | .fault _ s => s
  | .tell _ s => s
  | .ask _ s => s

def request? : Progress → Option Request
  | .tell text _ => some (.tell text)
  | .ask prompt _ => some (.ask prompt)
  | _ => none

end Progress

def Turn.request? {σ : Type} (t : Table) (limits : Limits) : Turn σ → Option Request
  | .running s _ => (s.step t limits).request?
  | .halted _ _ _ => none

def Table.requests {σ : Type} (h : Handler σ) (t : Table) (limits : Limits) (w : σ) :
    Nat → List Request
  | 0 => []
  | n + 1 => t.requests h limits w n ++ ((t.run h limits w n).request? t limits).toList

namespace State

variable {t : Table} {limits larger : Limits}

/-! A step counts itself once. -/

theorem steps_withTop {s : State} {k : Value → State → Progress}
    (hk : ∀ v s', (k v s').state.steps = s'.steps) : (s.withTop k).state.steps = s.steps := by
  unfold withTop
  split
  · rw [hk]
  · rfl

theorem steps_modifyFrame (s : State) (f : Frame → Frame) : (s.modifyFrame f).steps = s.steps := by
  unfold modifyFrame
  split <;> rfl

theorem steps_pushResult (s : State) (result : Except OperandFault Value) :
    (s.pushResult result).state.steps = s.steps := by
  cases result <;> rfl

theorem steps_load (s : State) (frame : Frame) (slot : Slot) :
    (s.load frame slot).state.steps = s.steps := by
  simp only [load]
  split <;> rfl

theorem steps_store (s : State) (frame : Frame) (slot : Slot) (v : Value) :
    (s.store frame slot v).state.steps = s.steps := by
  cases slot with
  | frame i =>
    rw [store]
    split
    · exact steps_modifyFrame s _
    · rfl
  | global i =>
    rw [store]
    split <;> rfl

theorem steps_enter (s : State) (f : FunctionCode) : (s.enter limits f).state.steps = s.steps := by
  unfold enter
  split
  · rfl
  · split <;> rfl

theorem steps_callNative (s : State) (native : Native) (arg : Value) :
    (s.callNative native arg).state.steps = s.steps := by
  unfold callNative
  split
  · rfl
  · rfl
  · split <;> rfl
  · rfl
  · rfl

theorem steps_leave (s : State) (v : Value) : (s.leave v).state.steps = s.steps := by
  unfold leave
  split
  · split <;> rfl
  · rfl

theorem steps_execute (s : State) (frame : Frame) (i : Instr) :
    (s.execute t limits frame i).state.steps = s.steps := by
  cases i with
  | push v => rfl
  | load slot => exact steps_load s frame slot
  | store slot => exact steps_withTop fun v s' => steps_store s' frame slot v
  | unary op => exact steps_withTop fun v s' => steps_pushResult s' (op.apply v)
  | binary op =>
    rw [execute, withTopTwo]
    apply steps_withTop
    intro right s'
    exact steps_withTop fun left s'' => steps_pushResult s'' (op.apply left right)
  | pop => exact steps_withTop fun _ _ => rfl
  | jump target => exact steps_modifyFrame s _
  | jumpIf target =>
    rw [execute]
    apply steps_withTop
    intro v s'
    by_cases hv : v.truthy
    · rw [if_pos hv]
      exact steps_modifyFrame s' _
    · rw [if_neg hv]
      rfl
  | call function =>
    rw [execute]
    split
    · exact steps_enter s _
    · rfl
  | native index =>
    rw [execute]
    split
    · exact steps_withTop fun v s' => steps_callNative s' _ v
    · rfl
  | ret => exact steps_withTop fun v s' => steps_leave s' v

theorem steps_step (s : State) : (s.step t limits).state.steps = s.steps + 1 := by
  simp only [step]
  split
  · rfl
  · split
    · rfl
    · split
      · exact steps_execute _ _ _
      · rfl

/-! What depends on the limits. -/

theorem enter_atMost (hle : limits.AtMost larger) (s : State) (f : FunctionCode) :
    (∃ fault, s.enter limits f = .fault (.limit fault) s) ∨
      s.enter larger f = s.enter limits f := by
  unfold enter
  by_cases hdepth : limits.maxCallDepth ≤ s.frames.size
  · exact Or.inl ⟨_, if_pos hdepth⟩
  · right
    have hlarger := hle.maxCallDepth
    rw [if_neg hdepth, if_neg (by omega)]

/-- Under larger limits an instruction does the same, unless the smaller ones stop it. -/
theorem execute_atMost (hle : limits.AtMost larger) (s : State) (frame : Frame) (i : Instr) :
    (∃ fault, s.execute t limits frame i = .fault (.limit fault) s) ∨
      s.execute t larger frame i = s.execute t limits frame i := by
  cases i with
  | call function =>
    rw [execute, execute]
    cases t.callee? function with
    | none => exact Or.inr rfl
    | some f => exact enter_atMost hle s f
  | _ => exact Or.inr rfl

/-- No limit is broken just if steps and values are within their limits. -/
theorem brokenLimit?_eq_none_iff {s : State} :
    s.brokenLimit? limits = none ↔
      (∀ max, limits.maxSteps = some max → s.steps ≤ max) ∧
        s.stack.size ≤ limits.maxStackSize := by
  rw [brokenLimit?, brokenLimit?.stackLimit?]
  cases limits.maxSteps with
  | none => simp
  | some max =>
    by_cases hsteps : max < s.steps
    · simp [hsteps, Nat.not_le.2 hsteps]
    · simp [hsteps, Nat.le_of_not_lt hsteps]

theorem brokenLimit?_atMost (hle : limits.AtMost larger) {s : State}
    (hnone : s.brokenLimit? limits = none) : s.brokenLimit? larger = none := by
  rw [brokenLimit?_eq_none_iff] at hnone ⊢
  obtain ⟨hsteps, hsize⟩ := hnone
  refine ⟨?_, Nat.le_trans hsize hle.maxStackSize⟩
  intro max hmax
  obtain ⟨lower, hlower, hlow⟩ := hle.maxSteps max hmax
  exact Nat.le_trans (hsteps lower hlower) hlow

/-- A step breaks a limit, or is the same with larger limits. -/
theorem step_atMost (hle : limits.AtMost larger) (s : State) :
    (∃ fault s', s.step t limits = .fault (.limit fault) s') ∨
      s.step t larger = s.step t limits := by
  simp only [step]
  cases hbroken : brokenLimit? limits { s with steps := s.steps + 1 } with
  | some fault => exact Or.inl ⟨fault, _, rfl⟩
  | none =>
    rw [brokenLimit?_atMost hle hbroken]
    cases s.frames.pop? with
    | none => exact Or.inr rfl
    | some popped =>
      obtain ⟨frame, callers⟩ := popped
      cases hcode : frame.function.code[frame.pc]? with
      | none => exact Or.inr (by simp only [hcode])
      | some i =>
        simp only [hcode]
        rcases execute_atMost (t := t) hle _ frame i with ⟨fault, hfault⟩ | hsame
        · exact Or.inl ⟨fault, _, hfault⟩
        · exact Or.inr hsame

variable {max : Nat}

/-- A step that is allowed is the same as without a limit on steps. -/
theorem step_of_lt_maxSteps (t : Table) (depth size : Nat) {s : State} (hlt : s.steps < max) :
    s.step t ⟨depth, some max, size⟩ = s.step t ⟨depth, none, size⟩ := by
  have hbroken : brokenLimit? ⟨depth, some max, size⟩ { s with steps := s.steps + 1 } =
      brokenLimit? ⟨depth, none, size⟩ { s with steps := s.steps + 1 } :=
    if_neg (Nat.not_lt.2 hlt)
  have hexecute : ∀ (s' : State) frame i, s'.execute t ⟨depth, some max, size⟩ frame i =
      s'.execute t ⟨depth, none, size⟩ frame i := by
    intro s' frame i
    cases i <;> rfl
  simp only [step, hbroken, hexecute]

/-- A step more than allowed is not taken, but counted. This limit is looked at first. -/
theorem step_of_maxSteps_le (t : Table) (depth size : Nat) {s : State} (hle : max ≤ s.steps) :
    s.step t ⟨depth, some max, size⟩ =
      .fault (.limit (.steps max)) { s with steps := s.steps + 1 } := by
  have hbroken : brokenLimit? ⟨depth, some max, size⟩ { s with steps := s.steps + 1 } =
      some (.steps max) := if_pos (Nat.lt_succ_of_le hle)
  simp only [step, hbroken]

end State

section

variable {σ : Type} {h : Handler σ} {t : Table} {limits larger : Limits} {w : σ}

theorem Progress.state_settle_steps (progress : Progress) :
    (progress.settle h w).state.steps = progress.state.steps := by
  cases progress with
  | next s => rfl
  | done v s => rfl
  | fault f s => rfl
  | tell text s =>
    rw [Progress.settle]
    split <;> rfl
  | ask prompt s =>
    rw [Progress.settle]
    split <;> rfl

/-- A turn counts one step. -/
theorem State.steps_turn (h : Handler σ) (t : Table) (limits : Limits) (s : State) (w : σ) :
    (s.turn h t limits w).state.steps = s.steps + 1 := by
  rw [State.turn_eq_settle, Progress.state_settle_steps, State.steps_step]

/-- A running machine has counted its turns. One that has halted took as many turns as it has
counted. -/
theorem Table.run_steps (h : Handler σ) (t : Table) (limits : Limits) (w : σ) (n : Nat) :
    (∃ s w', t.run h limits w n = .running s w' ∧ s.steps = n) ∨
      ∃ result s w', t.run h limits w n = .halted result s w' ∧ s.steps ≤ n ∧
        t.run h limits w s.steps = .halted result s w' := by
  induction n with
  | zero =>
    have hzero : (t.run h limits w 0).state.steps = 0 := by
      rw [Table.run, Turn.advance_zero, Table.start]
      split
      · rfl
      · split <;> rfl
    cases hrun : t.run h limits w 0 with
    | running s w' =>
      rw [hrun] at hzero
      exact Or.inl ⟨s, w', rfl, hzero⟩
    | halted result s w' =>
      have hsteps : s.steps = 0 := by
        rw [hrun] at hzero
        exact hzero
      refine Or.inr ⟨result, s, w', rfl, Nat.le_of_eq hsteps, ?_⟩
      rw [hsteps]
      exact hrun
  | succ n ih =>
    rcases ih with ⟨s, w', hrun, hsteps⟩ | ⟨result, s, w', hrun, hle, hhalted⟩
    · have hnext : t.run h limits w (n + 1) = s.turn h t limits w' := by
        rw [Table.run_succ, hrun, Turn.advance_running, Turn.advance_zero]
      have hcount := State.steps_turn h t limits s w'
      rw [hsteps, ← hnext] at hcount
      cases hturn : t.run h limits w (n + 1) with
      | running s₁ w₁ =>
        rw [hturn] at hcount
        exact Or.inl ⟨s₁, w₁, rfl, hcount⟩
      | halted result s₁ w₁ =>
        have hsteps₁ : s₁.steps = n + 1 := by
          rw [hturn] at hcount
          exact hcount
        refine Or.inr ⟨result, s₁, w₁, rfl, Nat.le_of_eq hsteps₁, ?_⟩
        rw [hsteps₁]
        exact hturn
    · rw [Table.run_succ, hrun, Turn.advance_halted]
      exact Or.inr ⟨result, s, w', rfl, Nat.le_succ_of_le hle, hhalted⟩

section

variable {n : Nat} {s : State} {w' : σ} {result : Except Fault Value}

/-- A machine that still runs has taken as many steps as turns. -/
theorem Table.steps_of_running (hn : t.run h limits w n = .running s w') : s.steps = n := by
  rcases Table.run_steps h t limits w n with ⟨s₁, w₁, hrun, hsteps⟩ | ⟨_, _, _, hrun, -⟩
  · rw [hn] at hrun
    cases hrun
    exact hsteps
  · rw [hn] at hrun
    cases hrun

/-- A machine that has halted did so at the turn that its steps count. -/
theorem Table.steps_of_halted (hn : t.run h limits w n = .halted result s w') :
    s.steps ≤ n ∧ t.run h limits w s.steps = .halted result s w' := by
  rcases Table.run_steps h t limits w n with ⟨_, _, hrun, -⟩ | ⟨_, _, _, hrun, hle, hhalted⟩
  · rw [hn] at hrun
    cases hrun
  · rw [hn] at hrun
    cases hrun
    exact ⟨hle, hhalted⟩

/-- A machine that has halted was running until its last turn. -/
theorem Table.running_before_halt (hn : t.run h limits w n = .halted result s w') {k : Nat}
    (hk : k < s.steps) : ∃ s₁ w₁, t.run h limits w k = .running s₁ w₁ := by
  cases hrun : t.run h limits w k with
  | running s₁ w₁ => exact ⟨s₁, w₁, rfl⟩
  | halted result₁ s₁ w₁ =>
    obtain ⟨hle, hhalted⟩ := Table.steps_of_halted hn
    have hsame : t.run h limits w s.steps = .halted result₁ s₁ w₁ :=
      Turn.advance_of_halted (Nat.le_of_lt hk) hrun
    rw [hhalted] at hsame
    cases hsame
    exact absurd (Table.steps_of_halted hrun).1 (Nat.not_le.2 hk)

/-- What was said is never taken back. -/
theorem Table.requests_prefix {m : Nat} (hle : m ≤ n) :
    t.requests h limits w m <+: t.requests h limits w n := by
  induction hle with
  | refl => exact List.prefix_rfl
  | step _ ih => exact ih.trans (List.prefix_append _ _)

/-- A machine that has halted says nothing more. -/
theorem Table.requests_of_halted {m : Nat} (hle : m ≤ n)
    (hm : t.run h limits w m = .halted result s w') :
    t.requests h limits w n = t.requests h limits w m := by
  induction hle with
  | refl => rfl
  | step hle ih =>
    rw [Table.requests, ih, Table.run, Turn.advance_of_halted hle hm]
    exact List.append_nil _

end

/-! Larger limits. -/

/-- A run breaks a limit, or is the same with larger limits. -/
theorem Table.run_atMost (hle : limits.AtMost larger) (n : Nat) :
    (∃ fault s w', t.run h limits w n = .halted (.error (.limit fault)) s w') ∨
      (t.run h larger w n = t.run h limits w n ∧
        t.requests h larger w n = t.requests h limits w n) := by
  induction n with
  | zero => exact Or.inr ⟨by rw [Table.run, Table.run, Turn.advance_zero, Turn.advance_zero], rfl⟩
  | succ n ih =>
    rcases ih with ⟨fault, s, w', hlimit⟩ | ⟨hrun, hrequests⟩
    · exact Or.inl ⟨fault, s, w', Turn.advance_of_halted (Nat.le_succ n) hlimit⟩
    · rw [Table.requests, Table.requests, Table.run_succ, Table.run_succ, hrun, hrequests]
      cases t.run h limits w n with
      | halted result s w' => exact Or.inr ⟨rfl, rfl⟩
      | running s w' =>
        simp only [Turn.advance_running, Turn.advance_zero, State.turn_eq_settle, Turn.request?]
        rcases State.step_atMost (t := t) hle s with ⟨fault, s', hfault⟩ | hsame
        · rw [hfault]
          exact Or.inl ⟨fault, s', w', rfl⟩
        · rw [hsame]
          exact Or.inr ⟨rfl, rfl⟩

/-! A limit on steps. -/

section

variable {depth size max n : Nat}

/-- A run notices a limit on steps only after as many turns. -/
theorem Table.run_of_le_maxSteps (h : Handler σ) (t : Table) (depth size : Nat) (w : σ)
    (hle : n ≤ max) :
    t.run h ⟨depth, some max, size⟩ w n = t.run h ⟨depth, none, size⟩ w n ∧
      t.requests h ⟨depth, some max, size⟩ w n = t.requests h ⟨depth, none, size⟩ w n := by
  induction n with
  | zero => exact ⟨by rw [Table.run, Table.run, Turn.advance_zero, Turn.advance_zero], rfl⟩
  | succ n ih =>
    obtain ⟨hrun, hrequests⟩ := ih (Nat.le_of_succ_le hle)
    rw [Table.requests, Table.requests, Table.run_succ, Table.run_succ, hrun, hrequests]
    cases hn : t.run h ⟨depth, none, size⟩ w n with
    | halted result s w' => exact ⟨rfl, rfl⟩
    | running s w' =>
      have hsteps : s.steps < max := by
        rw [Table.steps_of_running hn]
        exact hle
      simp only [Turn.advance_running, Turn.advance_zero, State.turn_eq_settle, Turn.request?,
        State.step_of_lt_maxSteps t depth size hsteps, and_self]

/-- A run that needs more steps is cut off at the next one. -/
theorem Table.run_maxSteps_succ {s : State} {w' : σ}
    (hrun : t.run h ⟨depth, none, size⟩ w max = .running s w') :
    t.run h ⟨depth, some max, size⟩ w (max + 1) =
        .halted (.error (.limit (.steps max))) { s with steps := max + 1 } w' ∧
      t.requests h ⟨depth, some max, size⟩ w (max + 1) =
        t.requests h ⟨depth, none, size⟩ w max := by
  have hsteps := Table.steps_of_running hrun
  obtain ⟨hsame, hrequests⟩ :=
    Table.run_of_le_maxSteps h t depth size w (Nat.le_refl max)
  have hstep := State.step_of_maxSteps_le t depth size (Nat.le_of_eq hsteps.symm)
  rw [Table.requests, Table.run_succ, hrequests, hsame, hrun, Turn.advance_running,
    Turn.advance_zero, State.turn_eq_settle, Turn.request?, hstep, hsteps]
  exact ⟨rfl, List.append_nil _⟩

end

end

/-- Limits cut a run off and do not change it. If a run without a limit on steps halts, it halts the
same way with any limit that allows the steps it has counted; with a lower limit it fails at the
first step too many, and the world is as it was after the turns that were allowed, so that all that
was said until then is the beginning of what is said without the limit. A run that does not halt is
cut off by every limit on steps. A run that halts for another reason than a limit halts the same way
if no limit is lowered. -/
theorem Table.run_until_limit (t : Table) {σ : Type} (h : Handler σ) (w : σ) :
    (∀ depth size n result s w', t.run h ⟨depth, none, size⟩ w n = .halted result s w' →
      (∀ max, s.steps ≤ max →
        t.run h ⟨depth, some max, size⟩ w n = .halted result s w' ∧
        t.requests h ⟨depth, some max, size⟩ w n = t.requests h ⟨depth, none, size⟩ w n) ∧
      ∀ max, max < s.steps → ∃ s₁ w₁,
        t.run h ⟨depth, some max, size⟩ w n = .halted (.error (.limit (.steps max))) s₁ w₁ ∧
        s₁.steps = max + 1 ∧ w₁ = (t.run h ⟨depth, none, size⟩ w max).world ∧
        t.requests h ⟨depth, some max, size⟩ w n <+: t.requests h ⟨depth, none, size⟩ w n) ∧
    (∀ depth size, (∀ n result s w', t.run h ⟨depth, none, size⟩ w n ≠ .halted result s w') →
      ∀ max, ∃ n s₁ w₁,
        t.run h ⟨depth, some max, size⟩ w n = .halted (.error (.limit (.steps max))) s₁ w₁) ∧
    ∀ limits larger : Limits, limits.AtMost larger → ∀ n result s w',
      t.run h limits w n = .halted result s w' → (∀ fault, result ≠ .error (.limit fault)) →
      t.run h larger w n = .halted result s w' ∧
        t.requests h larger w n = t.requests h limits w n := by
  refine ⟨?_, ?_, ?_⟩
  · intro depth size n result s w' hn
    obtain ⟨hle, hhalted⟩ := Table.steps_of_halted hn
    constructor
    · intro max hmax
      obtain ⟨hsame, hrequests⟩ := Table.run_of_le_maxSteps h t depth size w hmax
      rw [hhalted] at hsame
      refine ⟨Turn.advance_of_halted hle hsame, ?_⟩
      rw [Table.requests_of_halted hle hsame, Table.requests_of_halted hle hhalted, hrequests]
    · intro max hmax
      obtain ⟨s₁, w₁, hrun⟩ := Table.running_before_halt hn hmax
      obtain ⟨hcut, hrequests⟩ := Table.run_maxSteps_succ hrun
      have hlate : max + 1 ≤ n := Nat.le_trans hmax hle
      refine ⟨_, w₁, Turn.advance_of_halted hlate hcut, rfl, by rw [hrun]; rfl, ?_⟩
      rw [Table.requests_of_halted hlate hcut, hrequests]
      exact Table.requests_prefix (Nat.le_of_succ_le hlate)
  · intro depth size hnever max
    cases hrun : t.run h ⟨depth, none, size⟩ w max with
    | halted result s w' => exact absurd hrun (hnever max result s w')
    | running s w' => exact ⟨max + 1, _, w', (Table.run_maxSteps_succ hrun).1⟩
  · intro limits larger hle n result s w' hn hresult
    rcases Table.run_atMost (h := h) (t := t) (w := w) hle n with
      ⟨fault, s₁, w₁, hlimit⟩ | ⟨hsame, hrequests⟩
    · rw [hn] at hlimit
      cases hlimit
      exact absurd rfl (hresult fault)
    · exact ⟨hsame.trans hn, hrequests⟩

def twoLines : Table :=
  ⟨0, [⟨"main", 0, 0, #[.push (.str "a"), .native 0, .pop, .push (.str "b"), .native 0, .pop,
    .push (.int 7), .ret]⟩]⟩

/-- It takes eight steps. Four of them are enough for one line, and a stack of one value will do. -/
theorem Table.run_until_limit_twoLines :
    ∃ s w' s₁ w₁,
      twoLines.run Recording.handler ⟨1, none, 1⟩ (.ofInputs [] none none) 8 =
        .halted (.ok (.int 7)) s w' ∧ s.steps = 8 ∧
      twoLines.run Recording.handler ⟨1, some 8, 1⟩ (.ofInputs [] none none) 8 =
        .halted (.ok (.int 7)) s w' ∧
      twoLines.run Recording.handler ⟨1, some 4, 1⟩ (.ofInputs [] none none) 8 =
        .halted (.error (.limit (.steps 4))) s₁ w₁ ∧ s₁.steps = 5 ∧
      twoLines.requests Recording.handler ⟨1, some 4, 1⟩ (.ofInputs [] none none) 8 = [.tell "a"] ∧
      twoLines.requests Recording.handler ⟨1, some 4, 1⟩ (.ofInputs [] none none) 8 <+:
        twoLines.requests Recording.handler ⟨1, none, 1⟩ (.ofInputs [] none none) 8 ∧
      twoLines.run Recording.handler .standard (.ofInputs [] none none) 8 =
        .halted (.ok (.int 7)) s w' := by
  obtain ⟨hsteps, -, hlarger⟩ :=
    Table.run_until_limit twoLines Recording.handler (.ofInputs [] none none)
  obtain ⟨henough, hfew⟩ := hsteps 1 1 8 _ _ _ rfl
  obtain ⟨s₁, w₁, hcut, hcount, -, hprefix⟩ := hfew 4 (by decide)
  have hstandard : Limits.AtMost ⟨1, none, 1⟩ .standard :=
    ⟨by decide, by simp [Limits.standard], by decide⟩
  exact ⟨_, _, s₁, w₁, rfl, rfl, (henough 8 (by decide)).1, hcut, hcount, rfl, hprefix,
    (hlarger _ _ hstandard 8 _ _ _ rfl (by simp)).1⟩

end StackLang

import StackLang.Proofs.Turns

/-!
What becomes of calls along a run. A turn changes the innermost call only: it sets one of its
variables or goes on in it, enters a new call above it, or returns from it. So the calls around the
innermost one stay as they are until it has returned, and the turn that entered it is known from the
depths of the run.
-/
namespace StackLang

inductive FramesStep (values : List Value) (frame : Frame) (callers : List Frame) :
    Instr → List Frame → Prop
  | stay {i : Instr} (pc : Nat) (hi : ∀ k, i ≠ .store (.frame k)) :
    FramesStep values frame callers i ({ frame with pc } :: callers)
  | set {k : Nat} {v : Value} {rest : List Value} (hv : values = v :: rest) :
    FramesStep values frame callers (.store (.frame k))
      (⟨frame.function, frame.locals.setIfInBounds k v, frame.pc + 1⟩ :: callers)
  | enter {function : String} (f : FunctionCode) (args : List Value)
      (hargs : args.length = f.paramCount) :
    FramesStep values frame callers (.call function)
      (⟨f, f.locals args, 0⟩ :: { frame with pc := frame.pc + 1 } :: callers)
  | leave (hcallers : callers ≠ []) : FramesStep values frame callers .ret callers

section

variable {σ : Type} {h : Handler σ} {t : Table} {limits : Limits}

/-- Only an assignment to a variable of the call sets one. -/
theorem Executed.framesStep {values : List Value} {globals : Array Value} {frame : Frame}
    {callers : List Frame} {i : Instr} {s' : State} {w' : σ}
    (hex : Executed t values globals frame callers i (.running s' w')) :
    FramesStep values frame callers i s'.frames.items := by
  cases hex with
  | goesOn taken pushed rest hcall hpc hvalues htaken hpushed hset =>
    by_cases hstore : ∃ k, i = .store (.frame k)
    · obtain ⟨k, rfl⟩ := hstore
      obtain ⟨v, rfl⟩ := List.length_eq_one_iff.1 htaken
      obtain ⟨rfl, rfl⟩ := Slot.write_frame_eq_some hset
      rcases hpc with ⟨rfl, -⟩ | htarget
      · exact .set hvalues
      · cases htarget
    · have hne : ∀ k, i ≠ .store (.frame k) := fun k hk => hstore ⟨k, hk⟩
      rw [Instr.locals_variablesAfter hne hset]
      exact .stay _ hne
  | enters function f args rest hf hvalues hargs => exact .enter f args hargs
  | returns v rest caller outer hvalues hcallers =>
    rw [State.frames_of, Stack.items_ofList, ← hcallers]
    exact .leave (by simp [hcallers])

/-- A turn after which the machine goes on executes an instruction of the innermost call. -/
theorem State.turn_frames {s s' : State} {w w' : σ} {frame : Frame} {callers : List Frame}
    (hframes : s.frames.items = frame :: callers) (hturn : s.turn h t limits w = .running s' w') :
    ∃ i, frame.function.code.toList[frame.pc]? = some i ∧
      FramesStep s.stack.items frame callers i s'.frames.items := by
  cases hcode : frame.function.code.toList[frame.pc]? with
  | none =>
    rw [s.eq_of, hframes] at hturn
    rcases State.turn_cases h t limits w s.stack.items s.globals frame callers s.steps with
      ⟨fault, s'', hlimit⟩ | hexec
    · rw [hlimit] at hturn
      cases hturn
    · rw [hexec, hcode] at hturn
      cases hturn
  | some i =>
    have hex := State.turn_executed h t limits w hframes hcode
    rw [hturn] at hex
    exact ⟨i, rfl, hex.framesStep⟩

theorem State.turn_has_frame {s s' : State} {w w' : σ}
    (hturn : s.turn h t limits w = .running s' w') :
    ∃ frame callers, s.frames.items = frame :: callers := by
  cases hframes : s.frames.items with
  | cons frame callers => exact ⟨frame, callers, rfl⟩
  | nil =>
    rw [s.eq_of, hframes, State.turn_eq_settle, State.step] at hturn
    split at hturn
    · cases hturn
    · cases hturn

theorem FramesStep.length_le {values : List Value} {frame : Frame} {callers frames' : List Frame}
    {i : Instr} (hstep : FramesStep values frame callers i frames') :
    frames'.length ≤ (frame :: callers).length + 1 := by
  cases hstep <;> simp only [List.length_cons] <;> omega

/-- The variable that the next turn sets in the innermost call, and its new value. -/
def State.stores? (s : State) : Option (Nat × Value) :=
  match s.frames.items, s.stack.items with
  | frame :: _, v :: _ =>
    match frame.function.code.toList[frame.pc]? with
    | some (.store (.frame k)) => some (k, v)
    | _ => none
  | _, _ => none

def Frame.after (frame : Frame) : Option (Nat × Value) → Array Value
  | some (k, v) => frame.locals.setIfInBounds k v
  | none => frame.locals

/-- A turn changes the variables of the innermost call as it says. -/
theorem FramesStep.stores? {s : State} {frame : Frame} {callers frames' : List Frame} {i : Instr}
    (hframes : s.frames.items = frame :: callers)
    (hi : frame.function.code.toList[frame.pc]? = some i)
    (hstep : FramesStep s.stack.items frame callers i frames')
    (hdepth : callers.length < frames'.length) :
    ∃ above' frame', frames' = above' ++ frame' :: callers ∧
      frame'.function = frame.function ∧ frame'.locals = frame.after s.stores? := by
  have hplain : (∀ k, i ≠ .store (.frame k)) → s.stores? = none := by
    intro hne
    unfold State.stores?
    rw [hframes]
    split
    · rename_i frame' callers' v rest heq _
      cases heq
      rw [hi]
      split
      · rename_i k hk
        cases hk
        exact absurd rfl (hne k)
      · rfl
    · rfl
  cases hstep with
  | stay pc hne =>
    rw [hplain hne]
    exact ⟨[], _, rfl, rfl, rfl⟩
  | set hv =>
    refine ⟨[], _, rfl, rfl, ?_⟩
    simp only [State.stores?, hframes, hv, hi]
    rfl
  | enter f args hargs =>
    rw [hplain (by simp)]
    exact ⟨[_], _, rfl, rfl, rfl⟩
  | leave hcallers => exact absurd hdepth (Nat.lt_irrefl _)

/-- A call that a turn does not return from stays where it is, and its variables change only if it
is the innermost one. -/
theorem State.turn_below {s s' : State} {w w' : σ} {above callers : List Frame} {frame : Frame}
    (hturn : s.turn h t limits w = .running s' w')
    (hsplit : s.frames.items = above ++ frame :: callers)
    (hdepth : callers.length < s'.frames.items.length) :
    ∃ above' frame', s'.frames.items = above' ++ frame' :: callers ∧
      frame'.function = frame.function ∧
      frame'.locals = frame.after (if above.isEmpty then s.stores? else none) := by
  cases above with
  | nil =>
    obtain ⟨i, hi, hstep⟩ := State.turn_frames hsplit hturn
    exact hstep.stores? hsplit hi hdepth
  | cons top above =>
    obtain ⟨i, hi, hstep⟩ := State.turn_frames hsplit hturn
    generalize s'.frames.items = frames' at hstep hdepth
    cases hstep with
    | stay pc hne => exact ⟨_ :: above, frame, rfl, rfl, rfl⟩
    | set hv => exact ⟨_ :: above, frame, rfl, rfl, rfl⟩
    | enter f args hargs => exact ⟨_ :: _ :: above, frame, rfl, rfl, rfl⟩
    | leave hcallers => exact ⟨above, frame, rfl, rfl, rfl⟩

end

section

variable {σ : Type} (h : Handler σ) (t : Table) (limits : Limits) (w : σ)

def Table.framesAt (n : Nat) : List Frame := (t.run h limits w n).state.frames.items

/-- The call that is the innermost one after `n` turns was entered by turn `j`: its depth was
reached there, and has been kept since. The call of `main` is there from the start. -/
structure Table.EnteredAt (j n : Nat) : Prop where
  le : j ≤ n
  depth_eq : (t.framesAt h limits w j).length = (t.framesAt h limits w n).length
  kept : ∀ k, j ≤ k → k ≤ n →
    (t.framesAt h limits w n).length ≤ (t.framesAt h limits w k).length
  reached : ∀ k, k + 1 = j → (t.framesAt h limits w k).length < (t.framesAt h limits w j).length

variable {h t limits w}

/-- A machine that is running after some turns took a turn after each one before. -/
theorem Table.run_turn {k n : Nat} (hk : k < n) {s : State} {w' : σ}
    (hn : t.run h limits w n = .running s w') :
    ∃ s₁ w₁ s₂ w₂, t.run h limits w k = .running s₁ w₁ ∧ t.run h limits w (k + 1) = .running s₂ w₂ ∧
      s₁.turn h t limits w₁ = .running s₂ w₂ := by
  obtain ⟨d, rfl⟩ : ∃ d, n = k + 1 + d := ⟨n - (k + 1), by omega⟩
  have hsplit : t.run h limits w (k + 1 + d) = (t.run h limits w (k + 1)).advance h t limits d :=
    Turn.advance_add (k + 1) d _
  rw [hsplit] at hn
  cases hnext : t.run h limits w (k + 1) with
  | halted result s₂ w₂ =>
    rw [hnext, Turn.advance_halted] at hn
    cases hn
  | running s₂ w₂ =>
    rw [Table.run_succ] at hnext
    cases hrun : t.run h limits w k with
    | halted result s₁ w₁ =>
      rw [hrun, Turn.advance_halted] at hnext
      cases hnext
    | running s₁ w₁ =>
      rw [hrun] at hnext
      exact ⟨s₁, w₁, s₂, w₂, rfl, rfl, hnext⟩

theorem Table.run_running {k n : Nat} (hk : k ≤ n) {s : State} {w' : σ}
    (hn : t.run h limits w n = .running s w') :
    ∃ s₁ w₁, t.run h limits w k = .running s₁ w₁ := by
  rcases Nat.lt_or_eq_of_le hk with hlt | rfl
  · obtain ⟨s₁, w₁, s₂, w₂, hrun, -, -⟩ := Table.run_turn hlt hn
    exact ⟨s₁, w₁, hrun⟩
  · exact ⟨s, w', hn⟩

theorem Table.framesAt_running {n : Nat} {s : State} {w' : σ}
    (hn : t.run h limits w n = .running s w') : t.framesAt h limits w n = s.frames.items := by
  rw [Table.framesAt, hn]
  rfl

/-- Every call was entered at some turn. -/
theorem Table.exists_enteredAt {n d : Nat} {s : State} {w' : σ}
    (hn : t.run h limits w n = .running s w') (hpos : 0 < d)
    (hd : d ≤ (t.framesAt h limits w n).length) :
    ∃ j, j ≤ n ∧ (t.framesAt h limits w j).length = d ∧
      (∀ k, j ≤ k → k ≤ n → d ≤ (t.framesAt h limits w k).length) ∧
      (∀ k, k + 1 = j → (t.framesAt h limits w k).length < d) := by
  induction n generalizing s w' with
  | zero =>
    have hone : (t.framesAt h limits w 0).length = 1 := by
      rw [Table.framesAt_running hn]
      rw [Table.run, Turn.advance_zero, Table.start] at hn
      split at hn
      · cases hn
      · split at hn
        · cases hn
        · cases hn
          rfl
    refine ⟨0, Nat.le_refl 0, by omega, ?_, by omega⟩
    intro k _ hk
    have hzero : k = 0 := by omega
    rw [hzero]
    exact hd
  | succ n ih =>
    obtain ⟨s₁, w₁, s₂, w₂, hbefore, hafter, hturn⟩ := Table.run_turn (Nat.lt_succ_self n) hn
    obtain ⟨frame, callers, hframes⟩ := State.turn_has_frame hturn
    obtain ⟨i, -, hstep⟩ := State.turn_frames hframes hturn
    have hle : (t.framesAt h limits w (n + 1)).length ≤ (t.framesAt h limits w n).length + 1 := by
      rw [Table.framesAt_running hbefore, Table.framesAt_running hafter, hframes]
      exact hstep.length_le
    by_cases hkept : d ≤ (t.framesAt h limits w n).length
    · obtain ⟨j, hj, hdepth, hall, hreached⟩ := ih hbefore hkept
      refine ⟨j, by omega, hdepth, ?_, hreached⟩
      intro k hjk hkn
      by_cases hlast : k = n + 1
      · rw [hlast]
        exact hd
      · exact hall k hjk (by omega)
    · refine ⟨n + 1, Nat.le_refl _, by omega, ?_, ?_⟩
      · intro k hk hk'
        have hlast : k = n + 1 := by omega
        rw [hlast]
        exact hd
      · intro k hk
        have hprev : k = n := by omega
        rw [hprev]
        omega

/-- The innermost call of a running machine was entered at some turn. -/
theorem Table.exists_entry {n : Nat} {s : State} {w' : σ} {frame : Frame} {callers : List Frame}
    (hn : t.run h limits w n = .running s w') (hframes : s.frames.items = frame :: callers) :
    ∃ j, t.EnteredAt h limits w j n := by
  have hpos : 0 < (t.framesAt h limits w n).length := by
    rw [Table.framesAt_running hn, hframes, List.length_cons]
    omega
  obtain ⟨j, hj, hdepth, hkept, hreached⟩ := Table.exists_enteredAt hn hpos (Nat.le_refl _)
  refine ⟨j, hj, hdepth, hkept, ?_⟩
  intro k hk
  rw [hdepth]
  exact hreached k hk

/-- Where the innermost call was entered, it is at its first instruction, with its arguments and no
other variable set. -/
theorem Table.EnteredAt.entry {j n : Nat} {s : State} {w' : σ} {frame : Frame}
    {callers : List Frame} (hentered : t.EnteredAt h limits w j n)
    (hn : t.run h limits w n = .running s w')
    (hj : t.framesAt h limits w j = frame :: callers) :
    frame.pc = 0 ∧ (frame = .ofMain frame.function ∨
      ∃ args, args.length = frame.function.paramCount ∧
        frame.locals = frame.function.locals args) := by
  cases j with
  | zero =>
    rw [Table.framesAt, Table.run, Turn.advance_zero, Table.start] at hj
    split at hj
    · cases hj
    · split at hj
      · cases hj
      · cases hj
        exact ⟨rfl, Or.inl rfl⟩
  | succ k =>
    have hreached := hentered.reached k rfl
    obtain ⟨s₁, w₁, s₂, w₂, hbefore, hafter, hturn⟩ :=
      Table.run_turn (Nat.lt_of_succ_le hentered.le) hn
    obtain ⟨top, rest, htop⟩ := State.turn_has_frame hturn
    obtain ⟨i, -, hstep⟩ := State.turn_frames htop hturn
    rw [Table.framesAt_running hafter] at hj hreached
    rw [Table.framesAt_running hbefore, htop] at hreached
    rw [hj] at hstep hreached
    cases hstep with
    | stay pc hi => simp at hreached
    | set hv => simp at hreached
    | enter f args hargs => exact ⟨rfl, Or.inr ⟨args, hargs, rfl⟩⟩
    | leave hcallers =>
      simp only [List.length_cons] at hreached
      omega

section

variable {j n : Nat} {s : State} {w' : σ} {frame : Frame} {callers : List Frame}
  {P : Nat → Frame → Prop}

/-- What is true of a call when it is entered, and is kept by each turn until now, is true of it
now; and the calls around it are those that were there when it was entered. -/
theorem Table.EnteredAt.invariant (hentered : t.EnteredAt h limits w j n)
    (hn : t.run h limits w n = .running s w')
    (hj : t.framesAt h limits w j = frame :: callers) (hentry : P j frame)
    (hkeep : ∀ k s₁ w₁ above frame₁ frame₂, j ≤ k → k < n →
      t.run h limits w k = .running s₁ w₁ → s₁.frames.items = above ++ frame₁ :: callers →
      P k frame₁ → frame₂.function = frame₁.function →
      frame₂.locals = frame₁.after (if above.isEmpty then s₁.stores? else none) →
      P (k + 1) frame₂) :
    ∃ frame', s.frames.items = frame' :: callers ∧ P n frame' := by
  have hall : ∀ d, j + d ≤ n → ∃ above frame',
      t.framesAt h limits w (j + d) = above ++ frame' :: callers ∧ P (j + d) frame' := by
    intro d
    induction d with
    | zero =>
      intro _
      exact ⟨[], frame, hj, hentry⟩
    | succ d ih =>
      intro hd
      obtain ⟨above, frame₁, hsplit, hP⟩ := ih (by omega)
      obtain ⟨s₁, w₁, s₂, w₂, hbefore, hafter, hturn⟩ := Table.run_turn (k := j + d) (by omega) hn
      rw [Table.framesAt_running hbefore] at hsplit
      have hdepth : callers.length < s₂.frames.items.length := by
        have hkept := hentered.kept (j + d + 1) (by omega) hd
        have heq := hentered.depth_eq
        rw [hj, List.length_cons] at heq
        rw [Table.framesAt_running hafter] at hkept
        omega
      obtain ⟨above', frame₂, hsplit', hsame, hlocals⟩ := State.turn_below hturn hsplit hdepth
      refine ⟨above', frame₂, ?_, ?_⟩
      · rw [← Nat.add_assoc, Table.framesAt_running hafter]
        exact hsplit'
      · exact hkeep (j + d) s₁ w₁ above frame₁ frame₂ (by omega) (by omega) hbefore hsplit hP hsame
          hlocals
  have hnow : j + (n - j) = n := Nat.add_sub_cancel' hentered.le
  obtain ⟨above, frame', hsplit, hP⟩ := hall (n - j) (Nat.le_of_eq hnow)
  rw [hnow] at hsplit hP
  -- The depth is that of the entry, so nothing is above the call.
  have hnil : above = [] := by
    have heq := hentered.depth_eq
    rw [hj, hsplit, List.length_append, List.length_cons, List.length_cons] at heq
    exact List.length_eq_zero_iff.1 (by omega)
  rw [hnil, Table.framesAt_running hn] at hsplit
  exact ⟨frame', hsplit, hP⟩

/-- Where the innermost call was entered, it was a call of the same function, with the same calls
around it. -/
theorem Table.EnteredAt.entry_frame (hentered : t.EnteredAt h limits w j n)
    (hn : t.run h limits w n = .running s w') (hframes : s.frames.items = frame :: callers) :
    ∃ entry, t.framesAt h limits w j = entry :: callers ∧ entry.function = frame.function := by
  obtain ⟨entry, callers₀, hentry⟩ :
      ∃ entry callers₀, t.framesAt h limits w j = entry :: callers₀ := by
    apply List.exists_cons_of_length_pos
    rw [hentered.depth_eq, Table.framesAt_running hn, hframes, List.length_cons]
    omega
  obtain ⟨frame', hframes', hsame⟩ :=
    hentered.invariant (P := fun _ frame₁ => frame₁.function = entry.function) hn hentry rfl
      (fun _ _ _ _ _ _ _ _ _ _ hsame₁ hsame₂ _ => hsame₂.trans hsame₁)
  rw [hframes] at hframes'
  cases hframes'
  exact ⟨entry, hentry, hsame.symm⟩

end

end

end StackLang

import StackLang.Proofs.Execution

/-!
When a machine follows an evaluation. It either gives up, or after some turns it is where the result
of the evaluation says: ready to go on, or halted with the same fault, the same open calls, the same
global variables and the same world. An evaluation that runs out of fuel is followed by as many
turns as there was fuel. Evaluations in sequence are followed if each one is.
-/
namespace StackLang

section

variable {σ μ α β : Type}

def Turn.GaveUp : Turn σ → Prop
  | .halted (.error (.limit _)) _ _ => True
  | .halted (.error (.internal _)) _ _ => True
  | _ => False

/-- The machine does, from a turn on, what an evaluation came to. The calls `outer` are open around
the evaluation, and `need` is the number of turns that it takes to run out of fuel. -/
def Follows (h : Handler σ) (t : Table) (limits : Limits) (share : μ → Shared (Array Value) σ)
    (outer : List String) (need : Nat) (start : Turn σ) (result : Result μ α)
    (post : α → μ → Turn σ → Prop) : Prop :=
  ∃ k, (start.advance h t limits k).GaveUp ∨
    match result with
    | .done a m => post a m (start.advance h t limits k)
    | .failed fault calls m => (start.advance h t limits k).outcome? =
        some ⟨.error fault, outer ++ calls, (share m).globals, (share m).world⟩
    | .stuck => False
    | .unfinished => need ≤ k ∧ (start.advance h t limits k).outcome? = none

namespace Follows

variable {h : Handler σ} {t : Table} {limits : Limits} {share : μ → Shared (Array Value) σ}
  {outer : List String} {need : Nat} {start : Turn σ} {post : α → μ → Turn σ → Prop}

theorem done {a : α} {m : μ} (hpost : post a m start) :
    Follows h t limits share outer need start (.done a m) post := by
  refine ⟨0, Or.inr ?_⟩
  rw [Turn.advance_zero]
  exact hpost

theorem mono {result : Result μ α} {need' : Nat} (hle : need' ≤ need)
    (hf : Follows h t limits share outer need start result post) :
    Follows h t limits share outer need' start result post := by
  obtain ⟨k, hup | hk⟩ := hf
  · exact ⟨k, Or.inl hup⟩
  · refine ⟨k, Or.inr ?_⟩
    cases result with
    | done a m => exact hk
    | failed fault calls m => exact hk
    | stuck => exact hk
    | unfinished => exact ⟨Nat.le_trans hle hk.1, hk.2⟩

/-- The machine follows from some turns later on. -/
theorem later {result : Result μ α} (k : Nat)
    (hf : Follows h t limits share outer need (start.advance h t limits k) result post) :
    Follows h t limits share outer (need + k) start result post := by
  obtain ⟨l, hl⟩ := hf
  refine ⟨k + l, ?_⟩
  rw [Turn.advance_add]
  rcases hl with hup | hl
  · exact Or.inl hup
  · refine Or.inr ?_
    cases result with
    | done a m => exact hl
    | failed fault calls m => exact hl
    | stuck => exact hl
    | unfinished =>
      refine ⟨?_, hl.2⟩
      have hneed := hl.1
      omega

/-- The machine takes a turn, and follows from there on. -/
theorem step {result : Result μ α} {P : Turn σ → Prop}
    (hstep : (start.advance h t limits 1).GaveUp ∨ P (start.advance h t limits 1))
    (hf : ∀ next, P next → Follows h t limits share outer need next result post) :
    Follows h t limits share outer (need + 1) start result post := by
  rcases hstep with hup | hnext
  · exact ⟨1, Or.inl hup⟩
  · exact (hf _ hnext).later 1

theorem turn {result : Result μ α} {P : Turn σ → Prop}
    (hstep : (start.advance h t limits 1).GaveUp ∨ P (start.advance h t limits 1))
    (hf : ∀ next, P next → Follows h t limits share outer need next result post) :
    Follows h t limits share outer need start result post :=
  (step hstep hf).mono (Nat.le_succ need)

/-- Evaluations in sequence. -/
theorem bind {x : Eval μ α} {f : α → Eval μ β} {m : μ} {post' : β → μ → Turn σ → Prop}
    (hx : Follows h t limits share outer need start (x m) post)
    (hf : ∀ a m' next, post a m' next →
      Follows h t limits share outer need next (f a m') post') :
    Follows h t limits share outer need start ((x >>= f) m) post' := by
  have hbind : (x >>= f) m = Eval.bind x f m := rfl
  rw [hbind, Eval.bind]
  obtain ⟨k, hup | hk⟩ := hx
  · exact ⟨k, Or.inl hup⟩
  · cases hxm : x m with
    | done a m' =>
      rw [hxm] at hk
      exact ((hf a m' _ hk).later k).mono (Nat.le_add_right need k)
    | failed fault calls m' =>
      rw [hxm] at hk
      exact ⟨k, Or.inr hk⟩
    | stuck =>
      rw [hxm] at hk
      exact hk.elim
    | unfinished =>
      rw [hxm] at hk
      exact ⟨k, Or.inr hk⟩

/-- The machine goes on for some turns after it followed. -/
theorem conclude {result : Result μ α} {post' : α → μ → Turn σ → Prop}
    (hx : Follows h t limits share outer need start result post)
    (hf : ∀ a m next, post a m next →
      Follows h t limits share outer need next (.done a m) post') :
    Follows h t limits share outer need start result post' := by
  cases result with
  | done a m => exact bind (x := fun m => .done a m) (f := fun a m => .done a m) (m := m) hx hf
  | failed fault calls m => exact hx
  | stuck => exact hx
  | unfinished => exact hx

end Follows

end

namespace Follows

variable {ρ σ : Type} {h : Handler σ} {t : Table} {limits : Limits} {outer : List String}
  {need : Nat} {start : Turn σ}

/-- A body is followed as a call if the machine returns from it. -/
theorem inCall {name : String} {locals : ρ} {body : Eval (Memory ρ (Array Value) σ) Flow}
    {shared : Shared (Array Value) σ} {post : Flow → Memory ρ (Array Value) σ → Turn σ → Prop}
    {post' : Value → Shared (Array Value) σ → Turn σ → Prop}
    (hbody : Follows h t limits Memory.toShared (outer ++ [name]) need start
      (body { shared with locals }) post)
    (hret : ∀ flow m next, post flow m next →
      Follows h t limits id outer need next (.done flow.result m.toShared) post') :
    Follows h t limits id outer need start (Eval.inCall name locals body shared) post' := by
  unfold Eval.inCall
  obtain ⟨k, hup | hk⟩ := hbody
  · exact ⟨k, Or.inl hup⟩
  · cases hresult : body { shared with locals } with
    | done flow m =>
      rw [hresult] at hk
      exact ((hret flow m _ hk).later k).mono (Nat.le_add_right need k)
    | failed fault calls m =>
      rw [hresult] at hk
      simp only [List.append_assoc] at hk
      exact ⟨k, Or.inr hk⟩
    | stuck =>
      rw [hresult] at hk
      exact hk.elim
    | unfinished =>
      rw [hresult] at hk
      exact ⟨k, Or.inr hk⟩

/-- A call keeps the variables of the calling function. -/
theorem fromCall {x : Eval (Shared (Array Value) σ) Value} {m : Memory ρ (Array Value) σ}
    {post : Value → Shared (Array Value) σ → Turn σ → Prop}
    (hx : Follows h t limits id outer need start (x m.toShared) post) :
    Follows h t limits Memory.toShared outer need start (Eval.fromCall x m)
      fun v m' next => post v m'.toShared next ∧ m'.locals = m.locals := by
  unfold Eval.fromCall
  obtain ⟨k, hup | hk⟩ := hx
  · exact ⟨k, Or.inl hup⟩
  · refine ⟨k, Or.inr ?_⟩
    cases hresult : x m.toShared with
    | done v shared =>
      rw [hresult] at hk
      exact ⟨hk, rfl⟩
    | failed fault calls shared =>
      rw [hresult] at hk
      exact hk
    | stuck =>
      rw [hresult] at hk
      exact hk.elim
    | unfinished =>
      rw [hresult] at hk
      exact hk

end Follows

abbrev SlotMemory (σ : Type) := Memory (Array Value) (Array Value) σ

/-- The machine is about to execute the instruction of `f` at a position, above these calls, with
these values on its stack and this memory. -/
def At {σ : Type} (f : FunctionCode) (callers : List Frame) (pc : Nat) (values : List Value)
    (m : SlotMemory σ) (turn : Turn σ) : Prop :=
  ∃ steps, turn = .running (State.of values m.globals (⟨f, m.locals, pc⟩ :: callers) steps) m.world

def openCalls (callers : List Frame) (f : FunctionCode) : List String :=
  (callers.map (·.function.name)).reverse ++ [f.name]

theorem openCalls_cons (caller : Frame) (callers : List Frame) (f : FunctionCode) :
    openCalls (caller :: callers) f = openCalls callers caller.function ++ [f.name] := by
  simp [openCalls]

namespace At

variable {σ : Type} {h : Handler σ} {t : Table} {limits : Limits} {f : FunctionCode}
  {callers : List Frame} {pc need : Nat} {values : List Value} {m : SlotMemory σ} {turn : Turn σ}

/-- One turn executes the instruction the machine is at. -/
theorem execute {i : Instr} (hat : At f callers pc values m turn)
    (hi : f.code.toList[pc]? = some i) :
    (turn.advance h t limits 1).GaveUp ∨ ∃ steps, turn.advance h t limits 1 =
      ((State.of values m.globals (⟨f, m.locals, pc + 1⟩ :: callers) steps).execute t limits
        ⟨f, m.locals, pc⟩ i).settle h m.world := by
  obtain ⟨steps, rfl⟩ := hat
  rw [Turn.advance_running, Turn.advance_zero]
  have hnext : (⟨f, m.locals, pc⟩ : Frame).function.code.toList[pc]? = some i := hi
  rcases State.turn_of h t limits m.world hnext with ⟨fault, s, hlimit⟩ | hexec
  · left
    rw [hlimit]
    trivial
  · right
    exact ⟨steps + 1, hexec⟩

theorem push {v : Value} (hat : At f callers pc values m turn)
    (hi : f.code.toList[pc]? = some (.push v)) :
    (turn.advance h t limits 1).GaveUp ∨
      At f callers (pc + 1) (v :: values) m (turn.advance h t limits 1) := by
  rcases hat.execute hi with hup | ⟨steps, hexec⟩
  · exact Or.inl hup
  · exact Or.inr ⟨steps, hexec⟩

theorem pop {v : Value} (hat : At f callers pc (v :: values) m turn)
    (hi : f.code.toList[pc]? = some .pop) :
    (turn.advance h t limits 1).GaveUp ∨
      At f callers (pc + 1) values m (turn.advance h t limits 1) := by
  rcases hat.execute hi with hup | ⟨steps, hexec⟩
  · exact Or.inl hup
  · exact Or.inr ⟨steps, hexec⟩

theorem jump {target : Nat} (hat : At f callers pc values m turn)
    (hi : f.code.toList[pc]? = some (.jump target)) :
    (turn.advance h t limits 1).GaveUp ∨
      At f callers target values m (turn.advance h t limits 1) := by
  rcases hat.execute hi with hup | ⟨steps, hexec⟩
  · exact Or.inl hup
  · exact Or.inr ⟨steps, hexec⟩

theorem jumpIf {target : Nat} {v : Value} (hat : At f callers pc (v :: values) m turn)
    (hi : f.code.toList[pc]? = some (.jumpIf target)) :
    (turn.advance h t limits 1).GaveUp ∨
      At f callers (if v.truthy then target else pc + 1) values m
        (turn.advance h t limits 1) := by
  rcases hat.execute hi with hup | ⟨steps, hexec⟩
  · exact Or.inl hup
  · right
    refine ⟨steps, hexec.trans ?_⟩
    simp only [State.execute, State.withTop_of]
    by_cases hv : v.truthy
    · simp only [if_pos hv]
      rfl
    · simp only [if_neg hv]
      rfl

section

variable {outer : List String}

theorem read {r : Resolutions} {id : Nat} {slot : Slot} (name : String)
    (hat : At f callers pc values m turn) (hslot : r.slot? id = some slot)
    (hi : f.code.toList[pc]? = some (.load slot)) :
    Follows h t limits Memory.toShared outer need turn (Eval.read r.store id name m)
      fun v m' => At f callers (pc + 1) (v :: values) m' := by
  refine ⟨1, ?_⟩
  rcases hat.execute hi with hup | ⟨steps, hexec⟩
  · exact Or.inl hup
  · rw [hexec, State.execute, State.load_of]
    have hread : r.store.read id name m.locals m.globals = slot.read m.locals m.globals := by
      simp [Resolutions.store, hslot]
    rw [Eval.read, hread]
    cases slot.read m.locals m.globals with
    | none => exact Or.inl trivial
    | some v => exact Or.inr ⟨steps, rfl⟩

theorem write {r : Resolutions} {id : Nat} {slot : Slot} {v : Value} (name : String)
    (hat : At f callers pc (v :: values) m turn) (hslot : r.slot? id = some slot)
    (hi : f.code.toList[pc]? = some (.store slot)) :
    Follows h t limits Memory.toShared outer need turn (Eval.write r.store id name v m)
      fun _ m' => At f callers (pc + 1) values m' := by
  refine ⟨1, ?_⟩
  rcases hat.execute hi with hup | ⟨steps, hexec⟩
  · exact Or.inl hup
  · have hstore := State.store_of values m.globals callers steps ⟨f, m.locals, pc⟩ (pc + 1) slot v
    rw [hexec, State.execute, State.withTop_of, hstore]
    have hwrite : r.store.write id name v m.locals m.globals =
        slot.write m.locals m.globals v := by
      simp [Resolutions.store, hslot]
    rw [Eval.write, hwrite]
    cases slot.write m.locals m.globals v with
    | none => exact Or.inl trivial
    | some written =>
      obtain ⟨locals', globals'⟩ := written
      exact Or.inr ⟨steps, rfl⟩

/-- An instruction that leaves the result of an operator. -/
theorem operator {i : Instr} {rest : List Value} {result : Except OperandFault Value}
    (hat : At f callers pc values m turn) (hi : f.code.toList[pc]? = some i)
    (hresult : ∀ steps, (State.of values m.globals (⟨f, m.locals, pc + 1⟩ :: callers)
        steps).execute t limits ⟨f, m.locals, pc⟩ i =
      (State.of rest m.globals (⟨f, m.locals, pc + 1⟩ :: callers) steps).pushResult result) :
    Follows h t limits Memory.toShared (openCalls callers f) need turn
      (Eval.ofOperator result m) fun v m' => At f callers (pc + 1) (v :: rest) m' := by
  refine ⟨1, ?_⟩
  rcases hat.execute hi with hup | ⟨steps, hexec⟩
  · exact Or.inl hup
  · rw [hexec, hresult steps]
    right
    cases result with
    | ok v => exact ⟨steps, rfl⟩
    | error fault =>
      simp [Eval.ofOperator, State.pushResult, Progress.settle, Turn.outcome?, openCalls,
        State.callStack_of]

/-- A native call leaves what the world answers, or fails as it does. -/
theorem native {index : Nat} {n : Native} {v : Value} (hat : At f callers pc (v :: values) m turn)
    (hi : f.code.toList[pc]? = some (.native index)) (hn : Native.ofIndex? index = some n) :
    Follows h t limits Memory.toShared (openCalls callers f) need turn (Eval.native h n [v] m)
      fun v m' => At f callers (pc + 1) (v :: values) m' := by
  refine ⟨1, ?_⟩
  rcases hat.execute hi with hup | ⟨steps, hexec⟩
  · exact Or.inl hup
  · right
    rw [Eval.native_one, hexec, State.execute, hn]
    simp only [State.withTop_of, State.settle_callNative]
    rcases n.answer h v m.world with ⟨answer | answer, w'⟩
    · simp [Turn.outcome?, openCalls, State.callStack_of]
    · exact ⟨steps, rfl⟩

end

/-- A call that finds its arguments on the stack enters its function. -/
theorem call {name : String} {g : FunctionCode} {args : List Value}
    (hat : At f callers pc (args ++ values) m turn) (hi : f.code.toList[pc]? = some (.call name))
    (hg : t.callee? name = some g) (hargs : args.length = g.paramCount) :
    (turn.advance h t limits 1).GaveUp ∨
      At g (⟨f, m.locals, pc + 1⟩ :: callers) 0 values { m with locals := g.locals args }
        (turn.advance h t limits 1) := by
  rcases hat.execute hi with hup | ⟨steps, hexec⟩
  · exact Or.inl hup
  · rw [State.execute, hg] at hexec
    rcases State.enter_of values m.globals (⟨f, m.locals, pc + 1⟩ :: callers) steps limits hargs
      with ⟨fault, hfault⟩ | henter
    · left
      simp only [hexec, hfault]
      trivial
    · right
      refine ⟨steps, ?_⟩
      simp only [hexec, henter]
      rfl

/-- A return leaves its value for the caller, and goes on behind the call. -/
theorem ret {v : Value} {caller : Frame} (hat : At f (caller :: callers) pc (v :: values) m turn)
    (hi : f.code.toList[pc]? = some .ret) :
    (turn.advance h t limits 1).GaveUp ∨
      At caller.function callers caller.pc (v :: values) { m with locals := caller.locals }
        (turn.advance h t limits 1) := by
  rcases hat.execute hi with hup | ⟨steps, hexec⟩
  · exact Or.inl hup
  · exact Or.inr ⟨steps, hexec⟩

/-- The outermost call returns. -/
theorem finish {v : Value} (hat : At f [] pc (v :: values) m turn)
    (hi : f.code.toList[pc]? = some .ret) :
    (turn.advance h t limits 1).GaveUp ∨
      (turn.advance h t limits 1).outcome? = some ⟨.ok v, [], m.globals, m.world⟩ := by
  rcases hat.execute hi with hup | ⟨steps, hexec⟩
  · exact Or.inl hup
  · right
    rw [hexec]
    rfl

end At

end StackLang

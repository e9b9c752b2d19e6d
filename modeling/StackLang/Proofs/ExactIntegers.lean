import StackLang.Proofs.CheckedCode
import StackLang.Proofs.TextPieces
import StackLang.Proofs.Turns

/-!
Integers never wrap. The integers that come into a machine are literals of its code and texts that
were converted, and both are in the range of the language; an operator puts the exact result on the
stack or, where the language does not have it, stops the program. So whatever a machine holds stays
in range through runs of any length.
-/
namespace StackLang

open Text (InIntRange)

def Value.InRange : Value → Prop
  | .int n => InIntRange n
  | _ => True

def FunctionCode.LiteralsInRange (f : FunctionCode) : Prop :=
  ∀ v, .push v ∈ f.code.toList → v.InRange

structure Frame.InRange (frame : Frame) : Prop where
  locals : ∀ v ∈ frame.locals, v.InRange
  literals : frame.function.LiteralsInRange

structure State.InRange (s : State) : Prop where
  stack : ∀ v ∈ s.stack.items, v.InRange
  globals : ∀ v ∈ s.globals, v.InRange
  frames : ∀ frame ∈ s.frames.items, frame.InRange

def Progress.InRange : Progress → Prop
  | .next s | .fault _ s | .tell _ s | .ask _ s => s.InRange
  | .done v s => v.InRange ∧ s.InRange

def Turn.InRange {σ : Type} : Turn σ → Prop
  | .running s _ | .halted (.error _) s _ => s.InRange
  | .halted (.ok v) s _ => v.InRange ∧ s.InRange

/-! What operators compute. -/

theorem inRange_of_exactInt {n : Int} {otherwise : OperandFault} {v : Value}
    (h : exactInt n otherwise = .ok v) : v.InRange := by
  unfold exactInt at h
  split at h
  · rename_i hn
    cases h
    exact hn
  · cases h

theorem UnaryOp.inRange_of_apply {op : UnaryOp} {v r : Value} (h : op.apply v = .ok r) :
    r.InRange := by
  cases op with
  | neg =>
    cases v with
    | int n => exact inRange_of_exactInt h
    | _ => cases h
  | not =>
    cases h
    trivial

theorem BinaryOp.inRange_of_applyInts {op : BinaryOp} {a b : Int} {r : Value}
    (h : op.applyInts a b = .ok r) : r.InRange := by
  unfold BinaryOp.applyInts at h
  split at h
  · exact inRange_of_exactInt h
  · exact inRange_of_exactInt h
  · exact inRange_of_exactInt h
  · split at h
    · cases h
    · exact inRange_of_exactInt h

theorem BinaryOp.inRange_of_applyOrder {op : BinaryOp} {left right r : Value}
    (h : op.applyOrder left right = .ok r) : r.InRange := by
  unfold BinaryOp.applyOrder at h
  split at h
  · cases h
    trivial
  · cases h

/-- Whatever the operands are, an operator gives no integer out of range. -/
theorem BinaryOp.inRange_of_apply {op : BinaryOp} {left right r : Value}
    (h : op.apply left right = .ok r) : r.InRange := by
  unfold BinaryOp.apply at h
  split at h
  iterate 4
    · cases h
      trivial
  iterate 4 exact inRange_of_applyOrder h
  · split at h
    · exact inRange_of_applyInts h
    · cases h
      trivial
    · cases h
  iterate 3
    · split at h
      · exact inRange_of_applyInts h
      · cases h

/-! What one step leaves. -/

theorem Stack.forall_mem_of_pop? {α : Type} {P : α → Prop} {s rest : Stack α} {a : α}
    (hpop : s.pop? = some (a, rest)) (h : ∀ x ∈ s.items, P x) : P a ∧ ∀ x ∈ rest.items, P x := by
  rwa [(pop?_eq_some_iff _ _ _).1 hpop, items_push, List.forall_mem_cons] at h

theorem Stack.items_of_popMany? {α : Type} {n : Nat} {s rest : Stack α} {first : List α}
    (h : s.popMany? n = some (first, rest)) : s.items = first ++ rest.items := by
  induction n generalizing s first with
  | zero =>
    cases h
    rfl
  | succ n ih =>
    rw [popMany?] at h
    cases hpop : s.pop? with
    | none =>
      rw [hpop] at h
      cases h
    | some top =>
      obtain ⟨a, below⟩ := top
      simp only [hpop] at h
      cases hmore : popMany? n below with
      | none =>
        rw [hmore] at h
        cases h
      | some found =>
        rw [hmore] at h
        cases h
        rw [(pop?_eq_some_iff _ _ _).1 hpop, items_push, ih hmore, List.cons_append]

namespace State.InRange

variable {s : State} {t : Table} {limits : Limits}

theorem push (hs : s.InRange) {v : Value} (hv : v.InRange) : (s.push v).InRange :=
  ⟨List.forall_mem_cons.2 ⟨hv, hs.stack⟩, hs.globals, hs.frames⟩

theorem underflow (hs : s.InRange) : s.underflow.InRange :=
  ⟨List.forall_mem_nil _, hs.globals, hs.frames⟩

theorem withTop (hs : s.InRange) {k : Value → State → Progress}
    (hk : ∀ v s', v.InRange → s'.InRange → (k v s').InRange) : (s.withTop k).InRange := by
  unfold State.withTop
  cases hpop : s.stack.pop? with
  | none => exact hs.underflow
  | some top =>
    obtain ⟨v, rest⟩ := top
    obtain ⟨hv, hrest⟩ := Stack.forall_mem_of_pop? hpop hs.stack
    exact hk v _ hv ⟨hrest, hs.globals, hs.frames⟩

theorem pushResult (hs : s.InRange) {result : Except OperandFault Value}
    (hresult : ∀ v, result = .ok v → v.InRange) : (s.pushResult result).InRange := by
  cases result with
  | ok v => exact hs.push (hresult v rfl)
  | error fault => exact hs

theorem modifyFrame (hs : s.InRange) {f : Frame → Frame}
    (hf : ∀ frame, frame.InRange → (f frame).InRange) : (s.modifyFrame f).InRange := by
  unfold State.modifyFrame
  cases hpop : s.frames.pop? with
  | none => exact hs
  | some top =>
    obtain ⟨frame, callers⟩ := top
    obtain ⟨hframe, hcallers⟩ := Stack.forall_mem_of_pop? hpop hs.frames
    exact ⟨hs.stack, hs.globals, List.forall_mem_cons.2 ⟨hf frame hframe, hcallers⟩⟩

theorem jump (hs : s.InRange) (target : Nat) : (s.jump target).InRange :=
  hs.modifyFrame fun _ hframe => ⟨hframe.locals, hframe.literals⟩

theorem load (hs : s.InRange) {frame : Frame} (hframe : frame.InRange) (slot : Slot) :
    (s.load frame slot).InRange := by
  cases slot with
  | frame i =>
    simp only [State.load]
    cases hv : frame.locals[i]? with
    | none => exact hs
    | some v => exact hs.push (hframe.locals v (Array.mem_of_getElem? hv))
  | global i =>
    simp only [State.load]
    cases hv : s.globals[i]? with
    | none => exact hs
    | some v => exact hs.push (hs.globals v (Array.mem_of_getElem? hv))

theorem setVariable {slots : Array Value} {v : Value} (hall : ∀ u ∈ slots, u.InRange)
    (hv : v.InRange) (i : Nat) : ∀ u ∈ slots.setIfInBounds i v, u.InRange := by
  intro u hu
  rcases Array.mem_or_eq_of_mem_setIfInBounds hu with hu | rfl
  · exact hall u hu
  · exact hv

theorem store (hs : s.InRange) (frame : Frame) (slot : Slot) {v : Value} (hv : v.InRange) :
    (s.store frame slot v).InRange := by
  cases slot with
  | frame i =>
    simp only [State.store]
    split
    · exact hs.modifyFrame fun _ hframe => ⟨setVariable hframe.locals hv i, hframe.literals⟩
    · exact hs
  | global i =>
    simp only [State.store]
    split
    · exact ⟨hs.stack, setVariable hs.globals hv i, hs.frames⟩
    · exact hs

theorem enter (hs : s.InRange) (limits : Limits) {f : FunctionCode} (hf : f.LiteralsInRange) :
    (s.enter limits f).InRange := by
  unfold State.enter
  split
  · exact hs
  · cases hpop : s.stack.popMany? f.paramCount with
    | none => exact hs.underflow
    | some found =>
      obtain ⟨args, rest⟩ := found
      have hstack := hs.stack
      rw [Stack.items_of_popMany? hpop, List.forall_mem_append] at hstack
      refine ⟨hstack.2, hs.globals, List.forall_mem_cons.2 ⟨⟨?_, hf⟩, hs.frames⟩⟩
      intro v hv
      rw [List.mem_toArray, List.mem_append] at hv
      rcases hv with hv | hv
      · exact hstack.1 v hv
      · rw [List.eq_of_mem_replicate hv]
        trivial

/-- The only integers that a native makes are those that texts spell. -/
theorem callNative (hs : s.InRange) (native : Native) (arg : Value) :
    (s.callNative native arg).InRange := by
  unfold State.callNative
  split
  · exact hs
  · exact hs
  · split
    · rename_i n hn
      exact hs.push (Text.inIntRange_of_readInt? hn)
    · exact hs
  · exact hs.push trivial
  · exact hs

theorem leave (hs : s.InRange) {v : Value} (hv : v.InRange) : (s.leave v).InRange := by
  unfold State.leave
  cases hpop : s.frames.pop? with
  | none => exact ⟨hv, hs⟩
  | some top =>
    obtain ⟨frame, callers⟩ := top
    have hleft : ({ s with frames := callers } : State).InRange :=
      ⟨hs.stack, hs.globals, (Stack.forall_mem_of_pop? hpop hs.frames).2⟩
    simp only
    split
    · exact ⟨hv, hleft⟩
    · exact hleft.push hv

/-- Executing an instruction keeps every integer of the machine in range. -/
theorem execute (ht : ∀ f ∈ t.functions, f.LiteralsInRange) (hs : s.InRange) {frame : Frame}
    (hframe : frame.InRange) {i : Instr} (hi : i ∈ frame.function.code.toList) :
    (s.execute t limits frame i).InRange := by
  cases i with
  | push v => exact hs.push (hframe.literals v hi)
  | load slot => exact hs.load hframe slot
  | store slot => exact hs.withTop fun v s' hv hs' => hs'.store frame slot hv
  | unary op =>
    exact hs.withTop fun v s' _ hs' => hs'.pushResult fun _ => UnaryOp.inRange_of_apply
  | binary op =>
    refine hs.withTop fun right s' _ hs' => hs'.withTop fun left s'' _ hs'' => ?_
    exact hs''.pushResult fun _ => BinaryOp.inRange_of_apply
  | pop => exact hs.withTop fun _ _ _ hs' => hs'
  | jump target => exact hs.jump target
  | jumpIf target =>
    rw [State.execute]
    apply hs.withTop
    intro v s' _ hs'
    by_cases hv : v.truthy = true
    · rw [if_pos hv]
      exact hs'.jump target
    · rw [if_neg hv]
      exact hs'
  | call function =>
    rw [State.execute]
    cases hcallee : t.callee? function with
    | none => exact hs
    | some f => exact hs.enter limits (ht f (Table.callee?_mem hcallee).1)
  | native index =>
    rw [State.execute]
    cases Native.ofIndex? index with
    | none => exact hs
    | some native => exact hs.withTop fun v s' _ hs' => hs'.callNative native v
  | ret => exact hs.withTop fun v s' hv hs' => hs'.leave hv

/-- A step keeps all integers in range. -/
theorem step (ht : ∀ f ∈ t.functions, f.LiteralsInRange) (hs : s.InRange) :
    (s.step t limits).InRange := by
  have hcounted : ({ s with steps := s.steps + 1 } : State).InRange :=
    ⟨hs.stack, hs.globals, hs.frames⟩
  simp only [State.step]
  cases State.brokenLimit? limits { s with steps := s.steps + 1 } with
  | some fault => exact hcounted
  | none =>
    cases hpop : s.frames.pop? with
    | none => exact hcounted
    | some top =>
      obtain ⟨frame, callers⟩ := top
      obtain ⟨hframe, hcallers⟩ := Stack.forall_mem_of_pop? hpop hs.frames
      have hnext : ({ s with
          frames := callers.push { frame with pc := frame.pc + 1 }, steps := s.steps + 1 } :
          State).InRange := by
        refine ⟨hs.stack, hs.globals, List.forall_mem_cons.2 ⟨?_, hcallers⟩⟩
        exact ⟨hframe.locals, hframe.literals⟩
      simp only
      cases hi : frame.function.code[frame.pc]? with
      | none => exact hnext
      | some i =>
        exact hnext.execute ht hframe (Array.mem_toList_iff.2 (Array.mem_of_getElem? hi))

/-- A turn keeps every integer of the machine in range, and its result is in range. -/
theorem turn {σ : Type} {h : Handler σ} (ht : ∀ f ∈ t.functions, f.LiteralsInRange)
    (hs : s.InRange) (w : σ) : (s.turn h t limits w).InRange := by
  have hstep : (s.step t limits).InRange := hs.step ht
  rw [State.turn_eq_settle]
  cases hprogress : s.step t limits with
  | next s' | done v s' | fault f s' =>
    rw [hprogress] at hstep
    exact hstep
  | tell text s' =>
    rw [hprogress] at hstep
    simp only [Progress.settle]
    rcases h.tell text w with ⟨e | answer, w'⟩
    · exact hstep
    · exact State.InRange.push hstep trivial
  | ask prompt s' =>
    rw [hprogress] at hstep
    simp only [Progress.settle]
    rcases h.ask prompt w with ⟨e | line, w'⟩
    · exact hstep
    · exact State.InRange.push hstep trivial

end State.InRange

theorem forall_mem_replicate_nothing (n : Nat) :
    ∀ v ∈ Array.replicate n Value.nothing, v.InRange := by
  intro v hv
  rw [(Array.mem_replicate.1 hv).2]
  trivial

theorem Table.start_inRange {σ : Type} {t : Table} (ht : ∀ f ∈ t.functions, f.LiteralsInRange)
    (w : σ) : (t.start w).InRange := by
  have hfresh : (State.fresh t.globalCount).InRange :=
    ⟨List.forall_mem_nil _, forall_mem_replicate_nothing _, List.forall_mem_nil _⟩
  unfold Table.start
  cases hmain : t.find? "main" with
  | none => exact ⟨trivial, hfresh⟩
  | some main =>
    simp only
    cases t.check with
    | error e => exact hfresh
    | ok _ =>
      refine ⟨hfresh.stack, hfresh.globals, List.forall_mem_singleton.2 ?_⟩
      exact ⟨forall_mem_replicate_nothing _, ht main (Table.find?_mem hmain).1⟩

/-- Every integer that a run ever holds is in range, if the literals of the code are. -/
theorem Table.run_inRange {σ : Type} {h : Handler σ} {t : Table} {limits : Limits}
    (ht : ∀ f ∈ t.functions, f.LiteralsInRange) (w : σ) (n : Nat) :
    (t.run h limits w n).InRange :=
  Table.run_invariant w (Table.start_inRange ht w) (fun _ w' hs => State.InRange.turn ht hs w') n

/-! What arithmetic means. -/

/-- Division toward zero: what is left over is smaller than the divisor, and on the same side of
zero as the dividend. -/
def Truncates (a b q : Int) : Prop :=
  ∃ r, a = b * q + r ∧ r.natAbs < b.natAbs ∧ 0 ≤ a * r

/-- Division drops the fraction: the quotient is the integer next to the true one on the side of
zero. -/
theorem truncates_tdiv (a : Int) {b : Int} (hb : b ≠ 0) : Truncates a b (a.tdiv b) := by
  refine ⟨a.tmod b, (Int.mul_tdiv_add_tmod a b).symm, ?_, ?_⟩
  · rw [Int.natAbs_tmod]
    exact Nat.mod_lt _ (Int.natAbs_pos.2 hb)
  · rcases Int.le_total 0 a with ha | ha
    · exact Int.mul_nonneg ha (Int.tmod_nonneg b ha)
    · refine Int.mul_nonneg_of_nonpos_of_nonpos ha ?_
      have hneg := Int.tmod_nonneg b (Int.neg_nonneg_of_nonpos ha)
      rw [Int.neg_tmod] at hneg
      exact Int.nonpos_of_neg_nonneg hneg

def OperandFault.overflowed? : OperandFault → Option String
  | .overflow op => some op.mnemonic
  | .negOverflow => some UnaryOp.neg.mnemonic
  | _ => none

/-- The innermost call stands at the instruction, and no limit keeps it from being executed. -/
structure State.Executes (limits : Limits) (s : State) (frame : Frame) (callers : List Frame)
    (i : Instr) : Prop where
  allowed : State.brokenLimit? limits { s with steps := s.steps + 1 } = none
  frames : s.frames.items = frame :: callers
  instr : frame.function.code.toList[frame.pc]? = some i

/-- The instruction takes these operands off the stack, of which the last was pushed last. It puts
the result in their place if the language has this integer; if not, the program fails with an
overflow that names the instruction. Variables and the calls around this one stay as they are. -/
def Instr.Computes {σ : Type} (h : Handler σ) (t : Table) (limits : Limits) (i : Instr)
    (operands : List Int) (result : Int) : Prop :=
  ∀ (s : State) (frame : Frame) (callers : List Frame) (rest : List Value) (w : σ),
    s.Executes limits frame callers i → s.stack.items = (operands.map .int).reverse ++ rest →
    let after := fun values =>
      State.of values s.globals ({ frame with pc := frame.pc + 1 } :: callers) (s.steps + 1)
    (InIntRange result → s.turn h t limits w = .running (after (.int result :: rest)) w) ∧
    (¬InIntRange result → ∃ fault, fault.overflowed? = some i.mnemonic ∧
      s.turn h t limits w = .halted (.error (.operand fault)) (after rest) w)

section

variable {σ : Type} {h : Handler σ} {t : Table} {limits : Limits} {s : State} {frame : Frame}
  {callers : List Frame} {i : Instr} {w : σ}

theorem State.Executes.turn_eq (hs : s.Executes limits frame callers i) :
    s.turn h t limits w =
      ((State.of s.stack.items s.globals ({ frame with pc := frame.pc + 1 } :: callers)
        (s.steps + 1)).execute t limits frame i).settle h w := by
  have hpop : s.frames.pop? = some (frame, .ofList callers) := by
    rw [Stack.pop?_eq_some_iff]
    exact Stack.ext_items hs.frames
  rw [State.turn_eq_settle, State.step]
  simp only [hs.allowed, hpop, ← Array.getElem?_toList, hs.instr]
  rw [State.of, Stack.ofList_items]
  rfl

/-- An instruction computes what its operator makes of the operands, if it checks the range. -/
theorem Instr.computes_of_execute {operands : List Int} {result : Int} (fault : OperandFault)
    (hfault : fault.overflowed? = some i.mnemonic)
    (hexec : ∀ rest globals frames steps frame,
      (State.of ((operands.map Value.int).reverse ++ rest) globals frames steps).execute t limits
          frame i =
        (State.of rest globals frames steps).pushResult (exactInt result fault)) :
    i.Computes h t limits operands result := by
  intro s frame callers rest w hs hstack
  rw [hs.turn_eq, hstack, hexec]
  constructor
  · intro hrange
    rw [exactInt, if_pos hrange]
    rfl
  · intro hrange
    refine ⟨fault, hfault, ?_⟩
    rw [exactInt, if_neg hrange]
    rfl

theorem Instr.computes_tdiv (a : Int) {b : Int} (hb : b ≠ 0) :
    Instr.Computes h t limits (.binary .div) [a, b] (a.tdiv b) := by
  refine Instr.computes_of_execute (.overflow .div) rfl fun rest globals frames steps _ => ?_
  have hdiv : BinaryOp.div.apply (.int a) (.int b) = exactInt (a.tdiv b) (.overflow .div) :=
    if_neg hb
  exact congrArg (State.of rest globals frames steps).pushResult hdiv

/-- Division is by zero just if the divisor is. -/
theorem State.Executes.divisionByZero_iff {a b : Int} {rest : List Value}
    (hs : s.Executes limits frame callers (.binary .div))
    (hstack : s.stack.items = .int b :: .int a :: rest) :
    (∃ s', s.turn h t limits w = .halted (.error (.operand .divisionByZero)) s' w) ↔ b = 0 := by
  constructor
  · rintro ⟨s', hturn⟩
    by_cases hb : b = 0
    · exact hb
    exfalso
    obtain ⟨hresult, hoverflow⟩ :=
      Instr.computes_tdiv (h := h) (t := t) a hb s frame callers rest w hs hstack
    by_cases hrange : InIntRange (a.tdiv b)
    · rw [hresult hrange] at hturn
      cases hturn
    · obtain ⟨fault, hfault, hhalted⟩ := hoverflow hrange
      rw [hhalted] at hturn
      cases hturn
      cases hfault
  · rintro rfl
    rw [hs.turn_eq, hstack]
    exact ⟨_, rfl⟩

end

/-- If the literals of the code are in range, then so is, all along a run, every integer on the
stack, in a variable or returned. On any stack, addition, subtraction, multiplication, division
toward zero and negation compute the exact integer or fail with an overflow, taking the operand that
was pushed first as the left one; and a division fails as one by zero just if its right operand is
zero. -/
theorem Table.run_integers_exact {t : Table} (ht : ∀ f ∈ t.functions, f.LiteralsInRange)
    {σ : Type} (h : Handler σ) (limits : Limits) (w : σ) :
    (∀ n, (t.run h limits w n).InRange) ∧
    (∀ a b,
      Instr.Computes h t limits (.binary .add) [a, b] (a + b) ∧
      Instr.Computes h t limits (.binary .sub) [a, b] (a - b) ∧
      Instr.Computes h t limits (.binary .mul) [a, b] (a * b) ∧
      (b ≠ 0 → ∃ q, Truncates a b q ∧ Instr.Computes h t limits (.binary .div) [a, b] q) ∧
      Instr.Computes h t limits (.unary .neg) [a] (-a)) ∧
    ∀ (s : State) (frame : Frame) (callers : List Frame) (a b : Int) (rest : List Value) (w' : σ),
      s.Executes limits frame callers (.binary .div) → s.stack.items = .int b :: .int a :: rest →
      ((∃ s', s.turn h t limits w' = .halted (.error (.operand .divisionByZero)) s' w') ↔
        b = 0) := by
  refine ⟨Table.run_inRange ht w, ?_, ?_⟩
  · intro a b
    refine ⟨?_, ?_, ?_, ?_, ?_⟩
    · exact Instr.computes_of_execute (.overflow .add) rfl fun _ _ _ _ _ => rfl
    · exact Instr.computes_of_execute (.overflow .sub) rfl fun _ _ _ _ _ => rfl
    · exact Instr.computes_of_execute (.overflow .mul) rfl fun _ _ _ _ _ => rfl
    · exact fun hb => ⟨a.tdiv b, truncates_tdiv a hb, Instr.computes_tdiv a hb⟩
    · exact Instr.computes_of_execute .negOverflow rfl fun _ _ _ _ _ => rfl
  · intro s frame callers a b rest w' hs hstack
    exact hs.divisionByZero_iff hstack

/-- The one quotient of two integers in range that is out of range. -/
def leastByMinusOne : Table :=
  ⟨0, [⟨"main", 0, 0,
    #[.push (.int (-0x8000000000000000)), .push (.int (-1)), .binary .div, .ret]⟩]⟩

/-- The one quotient that does not fit: the least integer by minus one. -/
theorem Table.run_integers_exact_leastByMinusOne :
    (∀ f ∈ leastByMinusOne.functions, f.LiteralsInRange) ∧
    ∃ s w' frame, leastByMinusOne.run Recording.handler .standard (.ofInputs [] none none) 2 =
        .running s w' ∧ s.InRange ∧ s.Executes .standard frame [] (.binary .div) ∧
      s.stack.items = [.int (-1), .int (-0x8000000000000000)] ∧
      ∃ fault s', fault.overflowed? = some "div" ∧
        s.turn Recording.handler leastByMinusOne .standard w' =
          .halted (.error (.operand fault)) s' w' := by
  have hliterals : ∀ f ∈ leastByMinusOne.functions, f.LiteralsInRange := by
    refine List.forall_mem_singleton.2 fun v hv => ?_
    simp only [List.mem_cons, Instr.push.injEq, reduceCtorEq, or_false,
      List.not_mem_nil] at hv
    rcases hv with rfl | rfl
    · show InIntRange _
      decide
    · show InIntRange _
      decide
  obtain ⟨s, w', frame, hs, hexecutes, hstack⟩ : ∃ s w' frame,
      leastByMinusOne.run Recording.handler .standard (.ofInputs [] none none) 2 = .running s w' ∧
        s.Executes .standard frame [] (.binary .div) ∧
        s.stack.items = [.int (-1), .int (-0x8000000000000000)] :=
    ⟨_, _, _, rfl, ⟨rfl, rfl, rfl⟩, rfl⟩
  obtain ⟨hrun, harith, -⟩ := Table.run_integers_exact hliterals Recording.handler .standard
    (.ofInputs [] none none)
  obtain ⟨q, ⟨r, hq, hr, -⟩, hdiv⟩ := (harith (-0x8000000000000000) (-1)).2.2.2.1 (by decide)
  have hrange : ¬InIntRange q := by
    unfold InIntRange
    omega
  obtain ⟨fault, hfault, hturn⟩ := (hdiv s frame [] [] w' hexecutes hstack).2 hrange
  have hs₂ := hrun 2
  rw [hs] at hs₂
  exact ⟨hliterals, s, w', frame, hs, hs₂, hexecutes, hstack, fault, _, hfault, hturn⟩

end StackLang

import StackLang.Proofs.BalancedCode
import StackLang.Proofs.Calls

/-!
Which places of a program read and set variables. Each expression of a function has its code at a
known position, so that of a variable is one load there. A variable is set by an assignment only:
each store in the code of a function is the last instruction of one.
-/
namespace StackLang

mutual

/-- An expression and all expressions inside it, each with the position where its code begins. -/
def Expr.placed (start : Nat) : Expr → List (Nat × Expr)
  | .unary op operand => (start, .unary op operand) :: operand.placed start
  | .binary op left right =>
    (start, .binary op left right) :: (left.placed start ++ right.placed (start + left.length))
  | .call function args => (start, .call function args) :: Expr.placedReversed start args
  | e => [(start, e)]

def Expr.placedReversed (start : Nat) : List Expr → List (Nat × Expr)
  | [] => []
  | e :: rest => Expr.placedReversed start rest ++ e.placed (start + Expr.lengthAll rest)

end

/-- The expressions that a statement evaluates itself, and not the statements inside it. -/
def Stmt.expressions (start : Nat) : Stmt → List (Nat × Expr)
  | .assign _ _ value => value.placed start
  | .ret (some value) => value.placed start
  | .branch cond _ _ => cond.placed start
  | .loop _ cond body => cond.placed (start + 1 + Stmt.lengthAll body)
  | .eval e => e.placed start
  | _ => []

def FunctionDecl.expressions (f : FunctionDecl) : List (Nat × Expr) :=
  f.placed.flatMap fun x => x.2.expressions x.1

section

variable {r : Resolutions} {code : List Instr}

mutual

/-- Every expression inside an expression has its own code inside the code of the whole. -/
theorem Expr.codeAt_placed {start : Nat} (e : Expr) (hc : CodeAt code start (e.layout r)) :
    ∀ x ∈ e.placed start, CodeAt code x.1 (x.2.layout r) := by
  intro x hx
  cases e with
  | literal v =>
    obtain rfl := List.mem_singleton.1 hx
    exact hc
  | var id name =>
    obtain rfl := List.mem_singleton.1 hx
    exact hc
  | unary op operand =>
    obtain ⟨hoperand, -⟩ := hc.unary
    simp only [Expr.placed, List.mem_cons] at hx
    rcases hx with rfl | hx
    · exact hc
    · exact Expr.codeAt_placed operand hoperand x hx
  | binary op left right =>
    obtain ⟨hleft, hright, -⟩ := hc.binary
    simp only [Expr.placed, List.mem_cons, List.mem_append] at hx
    rcases hx with rfl | hx | hx
    · exact hc
    · exact Expr.codeAt_placed left hleft x hx
    · exact Expr.codeAt_placed right hright x hx
  | call function args =>
    obtain ⟨hargs, -⟩ := hc.call
    simp only [Expr.placed, List.mem_cons] at hx
    rcases hx with rfl | hx
    · exact hc
    · exact Expr.codeAt_placedReversed args hargs x hx

theorem Expr.codeAt_placedReversed {start : Nat} (es : List Expr)
    (hc : CodeAt code start (Expr.layoutReversed r es)) :
    ∀ x ∈ Expr.placedReversed start es, CodeAt code x.1 (x.2.layout r) := by
  intro x hx
  cases es with
  | nil => cases hx
  | cons e rest =>
    obtain ⟨hrest, hfirst⟩ := hc.args_cons
    simp only [Expr.placedReversed, List.mem_append] at hx
    rcases hx with hx | hx
    · exact Expr.codeAt_placedReversed rest hrest x hx
    · exact Expr.codeAt_placed e hfirst x hx

end

theorem Stmt.codeAt_expressions {loop : LoopLabels} {start : Nat} {s : Stmt}
    (hc : CodeAt code start (s.layout r loop start)) :
    ∀ x ∈ s.expressions start, CodeAt code x.1 (x.2.layout r) := by
  intro x hx
  cases s with
  | declare names => cases hx
  | assign id name value => exact Expr.codeAt_placed value hc.value_then.1 x hx
  | ret value =>
    cases value with
    | none => cases hx
    | some value => exact Expr.codeAt_placed value hc.value_then.1 x hx
  | leave id => cases hx
  | again id => cases hx
  | branch cond thenBody elseBody =>
    obtain ⟨elseStart, thenStart, b⟩ := hc.branch
    exact Expr.codeAt_placed cond b.condCode x hx
  | loop id cond body =>
    obtain ⟨labels, b⟩ := hc.loop
    have hcond := b.condCode
    rw [b.check_eq] at hcond
    exact Expr.codeAt_placed cond hcond x hx
  | eval e => exact Expr.codeAt_placed e hc.value_then.1 x hx

/-- Where a variable is read, there is a load from its slot. -/
theorem FunctionDecl.Resolved.load_of_var {p : Program} {f : FunctionDecl} (h : f.Resolved p r)
    {pos id : Nat} {name : String} {slot : Slot} (hvar : (pos, .var id name) ∈ f.expressions)
    (hslot : r.slot? id = some slot) :
    (f.layout r).code.toList[pos]? = some (.load slot) := by
  obtain ⟨⟨start, s⟩, hs, hx⟩ := List.mem_flatMap.1 hvar
  obtain ⟨-, ⟨loop, hc⟩, -⟩ := h.begins hs
  have hload := (Stmt.codeAt_expressions hc _ hx).get
  rwa [Resolutions.slotAt, hslot] at hload

/-- Where the value of an assignment has been computed, there is a store to its slot. -/
theorem FunctionDecl.Resolved.store_of_assign {p : Program} {f : FunctionDecl} (h : f.Resolved p r)
    {start id : Nat} {name : String} {value : Expr} {slot : Slot}
    (hassign : (start, .assign id name value) ∈ f.placed) (hslot : r.slot? id = some slot) :
    (f.layout r).code.toList[start + value.length]? = some (.store slot) := by
  obtain ⟨-, ⟨loop, hc⟩, -⟩ := h.begins hassign
  have hstore := hc.value_then.2.get
  rwa [Resolutions.slotAt, hslot] at hstore

mutual

theorem Expr.store_not_mem {slot : Slot} (e : Expr) : .store slot ∉ e.layout r := by
  cases e with
  | literal v => simp [Expr.layout]
  | var id name => simp [Expr.layout]
  | unary op operand => simp [Expr.layout, Expr.store_not_mem operand]
  | binary op left right =>
    simp [Expr.layout, Expr.store_not_mem left, Expr.store_not_mem right]
  | call function args =>
    have hcall : Instr.store slot ≠ callInstr function := by
      unfold callInstr
      split <;> simp
    simp [Expr.layout, Expr.store_not_memReversed args, hcall]

theorem Expr.store_not_memReversed {slot : Slot} (es : List Expr) :
    .store slot ∉ Expr.layoutReversed r es := by
  cases es with
  | nil => simp [Expr.layoutReversed]
  | cons e rest =>
    simp [Expr.layoutReversed, Expr.store_not_memReversed rest, Expr.store_not_mem e]

end

/-- If the instruction is a store, it ends one of the assignments. -/
def Instr.Assigns (r : Resolutions) (placed : List (Nat × Stmt)) (pos : Nat) (i : Instr) : Prop :=
  ∀ slot, i = .store slot → ∃ start id name value,
    (start, Stmt.assign id name value) ∈ placed ∧ pos = start + value.length ∧ r.slotAt id = slot

theorem AllAt.of_no_store {placed : List (Nat × Stmt)} {start : Nat} {piece : List Instr}
    (h : ∀ slot, .store slot ∉ piece) : AllAt (Instr.Assigns r placed) start piece := by
  induction piece generalizing start with
  | nil => exact trivial
  | cons i rest ih =>
    refine ⟨?_, ih fun slot hmem => h slot (List.mem_cons_of_mem _ hmem)⟩
    intro slot hi
    exact absurd (hi ▸ List.mem_cons_self) (h slot)

variable {placed : List (Nat × Stmt)}

mutual

/-- Every store in the code of a statement belongs to an assignment inside it, and to that one's
slot. -/
theorem Stmt.assigns_layout (loop : LoopLabels) {start : Nat} (s : Stmt)
    (hsub : ∀ x ∈ s.placed start, x ∈ placed) :
    AllAt (Instr.Assigns r placed) start (s.layout r loop start) := by
  have hexpr : ∀ (e : Expr) pos, AllAt (Instr.Assigns r placed) pos (e.layout r) :=
    fun e _ => .of_no_store fun _ => e.store_not_mem
  have hone : ∀ (i : Instr) pos, (∀ slot, i ≠ .store slot) → i.Assigns r placed pos :=
    fun i pos hi slot heq => absurd heq (hi slot)
  cases s with
  | declare names => exact trivial
  | assign id name value =>
    rw [Stmt.layout, AllAt.append_iff, Expr.length_layout]
    refine ⟨hexpr value start, ?_, trivial⟩
    intro slot hslot
    cases hslot
    exact ⟨start, id, name, value, hsub _ (List.mem_singleton.2 rfl), rfl, rfl⟩
  | ret value =>
    cases value with
    | none => exact .of_no_store (by simp [Stmt.layout])
    | some value =>
      rw [Stmt.layout, AllAt.append_iff]
      exact ⟨hexpr value start, hone _ _ (by simp), trivial⟩
  | leave id => exact ⟨hone _ _ (by simp), trivial⟩
  | again id => exact ⟨hone _ _ (by simp), trivial⟩
  | branch cond thenBody elseBody =>
    simp only [Stmt.placed, List.mem_cons, List.mem_append] at hsub
    have helse := Stmt.assigns_layoutAll loop elseBody
      fun x hx => hsub x (Or.inr (Or.inl hx))
    have hthen := Stmt.assigns_layoutAll loop thenBody
      fun x hx => hsub x (Or.inr (Or.inr hx))
    exact (AllAt.branch_iff rfl rfl).2
      ⟨hexpr cond start, hone _ _ (by simp), helse, hone _ _ (by simp), hthen⟩
  | loop id cond body =>
    simp only [Stmt.placed, List.mem_cons] at hsub
    let check := start + 1 + Stmt.lengthAll body
    have hbody := Stmt.assigns_layoutAll ⟨check, check + cond.length + 1⟩ body
      fun x hx => hsub x (Or.inr hx)
    exact (AllAt.loop_iff rfl rfl).2
      ⟨hone _ _ (by simp), hbody, hexpr cond check, hone _ _ (by simp)⟩
  | eval e =>
    rw [Stmt.layout, AllAt.append_iff]
    exact ⟨hexpr e start, hone _ _ (by simp), trivial⟩

theorem Stmt.assigns_layoutAll (loop : LoopLabels) {start : Nat} (ss : List Stmt)
    (hsub : ∀ x ∈ Stmt.placedAll start ss, x ∈ placed) :
    AllAt (Instr.Assigns r placed) start (Stmt.layoutAll r loop start ss) := by
  cases ss with
  | nil => exact trivial
  | cons s rest =>
    simp only [Stmt.placedAll, List.mem_append] at hsub
    rw [Stmt.layoutAll, AllAt.append_iff, Stmt.length_layout]
    exact ⟨Stmt.assigns_layout loop s fun x hx => hsub x (Or.inl hx),
      Stmt.assigns_layoutAll loop rest fun x hx => hsub x (Or.inr hx)⟩

end

/-- Each store is the end of an assignment. -/
theorem FunctionDecl.Resolved.assign_of_store {p : Program} {f : FunctionDecl} (h : f.Resolved p r)
    {pos : Nat} {slot : Slot} (hstore : (f.layout r).code.toList[pos]? = some (.store slot)) :
    ∃ start id name value, (start, Stmt.assign id name value) ∈ f.placed ∧
      pos = start + value.length ∧ r.slot? id = some slot := by
  have hsplit : (f.layout r).code.toList = f.bodyLayout r ++ [.push .nothing, .ret] := rfl
  have hall : AllAt (Instr.Assigns r f.placed) 0 (f.layout r).code.toList := by
    rw [hsplit, AllAt.append_iff]
    exact ⟨Stmt.assigns_layoutAll _ f.body fun _ hx => hx, .of_no_store (by simp)⟩
  obtain ⟨start, id, name, value, hassign, hpos, hslot⟩ := hall.get hstore slot rfl
  rw [Nat.zero_add] at hpos
  obtain ⟨⟨frames, hresolved⟩, -, -⟩ := h.begins hassign
  simp only [Stmt.Resolved] at hresolved
  obtain ⟨-, slot', -, hslot', -⟩ := hresolved
  rw [Resolutions.slotAt, hslot'] at hslot
  cases hslot
  exact ⟨start, id, name, value, hassign, hpos, hslot'⟩

end

/-- The next turn ends an assignment of the function to a variable in the given slot, of the given
value. -/
def State.Assigns (r : Resolutions) (f : FunctionDecl) (s : State) (k : Nat) (v : Value) : Prop :=
  ∃ frame callers start id name value rest, s.frames.items = frame :: callers ∧
    frame.function.name = f.name ∧ (start, Stmt.assign id name value) ∈ f.placed ∧
    frame.pc = start + value.length ∧ r.slot? id = some (.frame k) ∧ s.stack.items = v :: rest

/-- What a turn sets in the innermost call is what the assignment there says. -/
theorem FunctionDecl.Resolved.stores?_eq_some_iff {p : Program} {r : Resolutions}
    {f : FunctionDecl} (h : f.Resolved p r) {s : State} {frame : Frame} {callers : List Frame}
    (hframes : s.frames.items = frame :: callers) (hfunction : frame.function = f.layout r)
    {k : Nat} {v : Value} : s.stores? = some (k, v) ↔ s.Assigns r f k v := by
  constructor
  · intro hstores
    unfold State.stores? at hstores
    split at hstores
    · rename_i frame' callers' v' rest heq hstack
      cases hframes.symm.trans heq
      split at hstores
      · rename_i k' hstore
        cases hstores
        rw [hfunction] at hstore
        obtain ⟨start, id, name, value, hassign, hpos, hslot⟩ := h.assign_of_store hstore
        exact ⟨frame, callers, start, id, name, value, rest, hframes, by rw [hfunction]; rfl,
          hassign, hpos, hslot, hstack⟩
      · cases hstores
    · cases hstores
  · rintro ⟨frame', callers', start, id, name, value, rest, heq, -, hassign, hpos, hslot, hstack⟩
    cases hframes.symm.trans heq
    have hstore := h.store_of_assign hassign hslot
    rw [← hpos, ← hfunction] at hstore
    simp only [State.stores?, hframes, hstack, hstore]

end StackLang

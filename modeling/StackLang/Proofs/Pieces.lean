import StackLang.Proofs.Layout
import StackLang.Proofs.Segments

/-!
Where the code of each part of an expression or statement stands, given where the code of the whole
stands. Positions are given by the lengths that are known beforehand.
-/
namespace StackLang

variable {r : Resolutions} {code : List Instr} {start : Nat}

namespace CodeAt

theorem unary {op : UnaryOp} {operand : Expr}
    (h : CodeAt code start ((Expr.unary op operand).layout r)) :
    CodeAt code start (operand.layout r) ∧ CodeAt code (start + operand.length) [.unary op] := by
  rw [Expr.layout] at h
  have hop := h.append_right
  rw [Expr.length_layout] at hop
  exact ⟨h.append_left, hop⟩

theorem binary {op : BinaryOp} {left right : Expr}
    (h : CodeAt code start ((Expr.binary op left right).layout r)) :
    CodeAt code start (left.layout r) ∧ CodeAt code (start + left.length) (right.layout r) ∧
      CodeAt code (start + left.length + right.length) [.binary op] := by
  rw [Expr.layout] at h
  have hright := h.append_left.append_right
  have hop := h.append_right
  rw [Expr.length_layout] at hright
  rw [List.length_append, Expr.length_layout, Expr.length_layout, ← Nat.add_assoc] at hop
  exact ⟨h.append_left.append_left, hright, hop⟩

theorem call {function : String} {args : List Expr}
    (h : CodeAt code start ((Expr.call function args).layout r)) :
    CodeAt code start (Expr.layoutReversed r args) ∧
      CodeAt code (start + Expr.lengthAll args) [callInstr function] := by
  rw [Expr.layout] at h
  have hcall := h.append_right
  rw [Expr.length_layoutReversed] at hcall
  exact ⟨h.append_left, hcall⟩

theorem args_cons {e : Expr} {rest : List Expr}
    (h : CodeAt code start (Expr.layoutReversed r (e :: rest))) :
    CodeAt code start (Expr.layoutReversed r rest) ∧
      CodeAt code (start + Expr.lengthAll rest) (e.layout r) := by
  rw [Expr.layoutReversed] at h
  have hfirst := h.append_right
  rw [Expr.length_layoutReversed] at hfirst
  exact ⟨h.append_left, hfirst⟩

/-- A statement that computes one value and then executes one instruction. -/
theorem value_then {value : Expr} {i : Instr} (h : CodeAt code start (value.layout r ++ [i])) :
    CodeAt code start (value.layout r) ∧ CodeAt code (start + value.length) [i] := by
  have hi := h.append_right
  rw [Expr.length_layout] at hi
  exact ⟨h.append_left, hi⟩

/-- The code of a block is that of its first statement, with that of the others behind it. -/
theorem stmts_cons {loop : LoopLabels} {s : Stmt} {rest : List Stmt}
    (h : CodeAt code start (Stmt.layoutAll r loop start (s :: rest))) :
    CodeAt code start (s.layout r loop start) ∧
      CodeAt code (start + s.length) (Stmt.layoutAll r loop (start + s.length) rest) := by
  rw [Stmt.layoutAll] at h
  have hrest := h.append_right
  rw [Stmt.length_layout] at hrest
  exact ⟨h.append_left, hrest⟩

end CodeAt

structure BranchAt (r : Resolutions) (code : List Instr) (loop : LoopLabels) (start : Nat)
    (cond : Expr) (thenBody elseBody : List Stmt) (elseStart thenStart : Nat) : Prop where
  else_eq : elseStart = start + cond.length + 1
  then_eq : thenStart = elseStart + Stmt.lengthAll elseBody + 1
  condCode : CodeAt code start (cond.layout r)
  test : CodeAt code (start + cond.length) [.jumpIf thenStart]
  elseCode : CodeAt code elseStart (Stmt.layoutAll r loop elseStart elseBody)
  skip : CodeAt code (elseStart + Stmt.lengthAll elseBody)
    [.jump (thenStart + Stmt.lengthAll thenBody)]
  thenCode : CodeAt code thenStart (Stmt.layoutAll r loop thenStart thenBody)

/-- The parts of a branch: its condition, the block for otherwise, a jump over the other block, and
that one. -/
theorem CodeAt.branch {loop : LoopLabels} {cond : Expr} {thenBody elseBody : List Stmt}
    (h : CodeAt code start ((Stmt.branch cond thenBody elseBody).layout r loop start)) :
    ∃ elseStart thenStart,
      BranchAt r code loop start cond thenBody elseBody elseStart thenStart := by
  refine ⟨start + cond.length + 1, start + cond.length + 1 + Stmt.lengthAll elseBody + 1, rfl, rfl,
    ?_, ?_, ?_, ?_, ?_⟩
  all_goals rw [Stmt.layout] at h
  · exact h.append_left.append_left.append_left.append_left
  · simpa only [Expr.length_layout] using h.append_left.append_left.append_left.append_right
  · simpa only [List.length_append, Expr.length_layout, List.length_cons, List.length_nil,
      Nat.zero_add, ← Nat.add_assoc] using h.append_left.append_left.append_right
  · simpa only [List.length_append, Expr.length_layout, Stmt.length_layoutAll, List.length_cons,
      List.length_nil, Nat.zero_add, ← Nat.add_assoc] using h.append_left.append_right
  · simpa only [List.length_append, Expr.length_layout, Stmt.length_layoutAll, List.length_cons,
      List.length_nil, Nat.zero_add, ← Nat.add_assoc] using h.append_right

/-- A property holds in the code of a branch just if it holds in the code of its parts. -/
theorem AllAt.branch_iff {P : Nat → Instr → Prop} {loop : LoopLabels} {cond : Expr}
    {thenBody elseBody : List Stmt} {elseStart thenStart : Nat}
    (helse : elseStart = start + cond.length + 1)
    (hthen : thenStart = elseStart + Stmt.lengthAll elseBody + 1) :
    AllAt P start ((Stmt.branch cond thenBody elseBody).layout r loop start) ↔
      AllAt P start (cond.layout r) ∧ P (start + cond.length) (.jumpIf thenStart) ∧
        AllAt P elseStart (Stmt.layoutAll r loop elseStart elseBody) ∧
        P (elseStart + Stmt.lengthAll elseBody) (.jump (thenStart + Stmt.lengthAll thenBody)) ∧
        AllAt P thenStart (Stmt.layoutAll r loop thenStart thenBody) := by
  subst hthen
  subst helse
  simp only [Stmt.layout, AllAt.append_iff, AllAt, List.length_append, List.length_cons,
    List.length_nil, Expr.length_layout, Stmt.length_layoutAll, Nat.zero_add, ← Nat.add_assoc,
    and_true, and_assoc]

structure LoopAt (r : Resolutions) (code : List Instr) (start : Nat) (cond : Expr)
    (body : List Stmt) (labels : LoopLabels) : Prop where
  check_eq : labels.check = start + 1 + Stmt.lengthAll body
  exit_eq : labels.exit = labels.check + cond.length + 1
  enter : CodeAt code start [.jump labels.check]
  bodyCode : CodeAt code (start + 1) (Stmt.layoutAll r labels (start + 1) body)
  condCode : CodeAt code labels.check (cond.layout r)
  back : CodeAt code (labels.check + cond.length) [.jumpIf (start + 1)]

/-- The parts of a loop: a jump to its condition, its body, the condition, and a jump back. -/
theorem CodeAt.loop {loop : LoopLabels} {id : Nat} {cond : Expr} {body : List Stmt}
    (h : CodeAt code start ((Stmt.loop id cond body).layout r loop start)) :
    ∃ labels, LoopAt r code start cond body labels := by
  refine ⟨⟨start + 1 + Stmt.lengthAll body, start + 1 + Stmt.lengthAll body + cond.length + 1⟩,
    rfl, rfl, ?_, ?_, ?_, ?_⟩
  all_goals rw [Stmt.layout] at h
  · exact h.append_left.append_left.append_left
  · exact h.append_left.append_left.append_right
  · simpa only [List.length_append, Stmt.length_layoutAll, List.length_cons, List.length_nil,
      Nat.zero_add, ← Nat.add_assoc] using h.append_left.append_right
  · simpa only [List.length_append, Expr.length_layout, Stmt.length_layoutAll, List.length_cons,
      List.length_nil, Nat.zero_add, ← Nat.add_assoc] using h.append_right

/-- A property holds in the code of a loop just if it holds in the code of its parts. -/
theorem AllAt.loop_iff {P : Nat → Instr → Prop} {loop labels : LoopLabels} {id : Nat} {cond : Expr}
    {body : List Stmt} (hcheck : labels.check = start + 1 + Stmt.lengthAll body)
    (hexit : labels.exit = labels.check + cond.length + 1) :
    AllAt P start ((Stmt.loop id cond body).layout r loop start) ↔
      P start (.jump labels.check) ∧
        AllAt P (start + 1) (Stmt.layoutAll r labels (start + 1) body) ∧
        AllAt P labels.check (cond.layout r) ∧
        P (labels.check + cond.length) (.jumpIf (start + 1)) := by
  obtain ⟨check, exit⟩ := labels
  simp only at hcheck hexit
  subst hexit
  subst hcheck
  simp only [Stmt.layout, AllAt.append_iff, AllAt, List.length_append, List.length_cons,
    List.length_nil, Expr.length_layout, Stmt.length_layoutAll, Nat.zero_add, ← Nat.add_assoc,
    and_true, and_assoc]

/-- The code of a function: its body, and what returns when the body ends. -/
theorem FunctionDecl.codeAt_layout (r : Resolutions) (f : FunctionDecl) :
    CodeAt (f.layout r).code.toList 0 (f.bodyLayout r) ∧
      CodeAt (f.layout r).code.toList (Stmt.lengthAll f.body) [.push .nothing, .ret] := by
  have h : CodeAt (f.layout r).code.toList 0 (f.bodyLayout r ++ [.push .nothing, .ret]) :=
    ⟨[], [], by simp [FunctionDecl.layout], rfl⟩
  have hend := h.append_right
  rw [FunctionDecl.bodyLayout, Stmt.length_layoutAll, Nat.zero_add] at hend
  exact ⟨h.append_left, hend⟩

end StackLang

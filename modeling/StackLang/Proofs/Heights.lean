import StackLang.Proofs.Pieces

/-!
Heights of the operand stack along the code of a resolved program. An expression adds one value and
a statement adds none, so the stack is empty of the function's own values between statements; all
jumps go from such a place to such a place. What holds of each instruction is collected in
`Instr.Balanced`.
-/
namespace StackLang

open Scope

/-- A jump may go to the position: it is in the code, between two statements. -/
def FunctionCode.Lands (t : Table) (f : FunctionCode) (pos : Nat) : Prop :=
  pos < f.code.toList.length ∧ heightAt t f.code.toList pos = 0

/-- What holds of an instruction at a position: its operand exists, its arguments are on the stack,
a jump goes between statements, and a return leaves nothing behind. -/
structure Instr.Balanced (t : Table) (f : FunctionCode) (pos : Nat) (i : Instr) : Prop where
  operand : i.operandFault? t f = none
  pops : i.pops t ≤ heightAt t f.code.toList pos
  jumps : ∀ target, i.jumpTarget? = some target →
    f.Lands t target ∧ heightAt t f.code.toList (pos + 1) = 0
  returns : i = .ret → heightAt t f.code.toList pos = 1

theorem Instr.Balanced.of_plain {t : Table} {f : FunctionCode} {pos : Nat} {i : Instr}
    (hoperand : i.operandFault? t f = none) (hpops : i.pops t ≤ heightAt t f.code.toList pos)
    (hjump : i.jumpTarget? = none) (hret : i ≠ .ret) : i.Balanced t f pos where
  operand := hoperand
  pops := hpops
  jumps target h := by rw [hjump] at h; cases h
  returns h := absurd h hret

theorem Instr.Balanced.of_jump {t : Table} {f : FunctionCode} {pos target : Nat} {i : Instr}
    (hi : i = .jump target ∨ i = .jumpIf target) (htarget : f.Lands t target)
    (hpops : i.pops t ≤ heightAt t f.code.toList pos)
    (hafter : heightAt t f.code.toList (pos + 1) = 0) : i.Balanced t f pos := by
  have hlt : target < f.code.size := by simpa using htarget.1
  rcases hi with rfl | rfl
  · refine ⟨by simp [Instr.operandFault?, hlt], hpops, ?_, by simp⟩
    intro target' h
    cases h
    exact ⟨htarget, hafter⟩
  · refine ⟨by simp [Instr.operandFault?, hlt], hpops, ?_, by simp⟩
    intro target' h
    cases h
    exact ⟨htarget, hafter⟩

/-- The functions of a layout are found as those of the program. -/
theorem Program.find?_layout (p : Program) (r : Resolutions) (name : String) :
    (p.layout r).find? name = (p.find? name).map (·.layout r) := by
  simp only [Table.find?, Program.layout, Program.find?, List.find?_map]
  rfl

/-- A call takes its arguments from the stack and leaves one value, as any instruction that is
neither a jump nor a return. -/
theorem callInstr_of_arity? {p : Program} {name : String} {n : Nat} (r : Resolutions)
    (f : FunctionCode) (h : p.arity? name = some n) :
    (callInstr name).pops (p.layout r) = n ∧ (callInstr name).pushes = 1 ∧
      (callInstr name).operandFault? (p.layout r) f = none ∧
      (callInstr name).jumpTarget? = none ∧ callInstr name ≠ .ret := by
  unfold Program.arity? at h
  unfold callInstr
  cases hnative : Native.ofName? name with
  | some native =>
    simp only [hnative, Option.some.injEq] at h
    subst h
    refine ⟨rfl, rfl, ?_, rfl, by simp⟩
    simp [Instr.operandFault?, Native.ofIndex?_index]
  | none =>
    simp only [hnative, Option.map_eq_some_iff] at h
    obtain ⟨d, hfind, rfl⟩ := h
    have hlayout : (p.layout r).find? name = some (d.layout r) := by
      simp [Program.find?_layout, hfind]
    refine ⟨?_, rfl, ?_, rfl, by simp⟩
    · simp [Instr.pops, hlayout, FunctionDecl.layout]
    · simp [Instr.operandFault?, hlayout]

section

variable {p : Program} {r : Resolutions} {size : Nat}

mutual

/-- The code of an expression leaves one value more than it found. -/
theorem Expr.heightAfter_layout {frames : List Scope} (h : Nat) (e : Expr)
    (he : e.Resolved p r size frames) : heightAfter (p.layout r) h (e.layout r) = h + 1 := by
  cases e with
  | literal v => rfl
  | var id name => rfl
  | unary op operand =>
    simp only [Expr.Resolved] at he
    simp [Expr.layout, Expr.heightAfter_layout h operand he, Instr.pops, Instr.pushes]
  | binary op left right =>
    simp only [Expr.Resolved] at he
    simp [Expr.layout, Expr.heightAfter_layout h left he.1,
      Expr.heightAfter_layout (h + 1) right he.2, Instr.pops, Instr.pushes]
  | call function args =>
    simp only [Expr.Resolved] at he
    obtain ⟨hpops, hpushes, -⟩ := callInstr_of_arity? r ⟨"", 0, 0, #[]⟩ he.1
    simp [Expr.layout, Expr.heightAfter_layoutReversed h args he.2, hpops, hpushes]

theorem Expr.heightAfter_layoutReversed {frames : List Scope} (h : Nat) (es : List Expr)
    (hes : Expr.ResolvedAll p r size frames es) :
    heightAfter (p.layout r) h (Expr.layoutReversed r es) = h + es.length := by
  cases es with
  | nil => rfl
  | cons e rest =>
    simp only [Expr.ResolvedAll] at hes
    simp [Expr.layoutReversed, Expr.heightAfter_layoutReversed h rest hes.2,
      Expr.heightAfter_layout _ e hes.1, Nat.add_assoc]

end

mutual

/-- The code of a statement leaves as many values as it found. -/
theorem Stmt.heightAfter_layout {frames : List Scope} (loop : LoopLabels) (start h : Nat)
    (s : Stmt) (hs : s.Resolved p r size frames) :
    heightAfter (p.layout r) h (s.layout r loop start) = h := by
  cases s with
  | declare names => rfl
  | assign id name value =>
    simp only [Stmt.Resolved] at hs
    simp [Stmt.layout, Expr.heightAfter_layout h value hs.1, Instr.pops, Instr.pushes]
  | ret value =>
    cases value with
    | none => rfl
    | some value =>
      simp only [Stmt.Resolved] at hs
      simp [Stmt.layout, Expr.heightAfter_layout h value hs, Instr.pops, Instr.pushes]
  | leave id => rfl
  | again id => rfl
  | branch cond thenBody elseBody =>
    simp only [Stmt.Resolved] at hs
    obtain ⟨hcond, hthen, helse⟩ := hs
    simp [Stmt.layout, Expr.heightAfter_layout h cond hcond,
      Stmt.heightAfter_layoutAll loop _ h thenBody hthen,
      Stmt.heightAfter_layoutAll loop _ h elseBody helse, Instr.pops, Instr.pushes]
  | loop id cond body =>
    simp only [Stmt.Resolved] at hs
    simp [Stmt.layout, Expr.heightAfter_layout h cond hs.1,
      Stmt.heightAfter_layoutAll _ _ h body hs.2, Instr.pops, Instr.pushes]
  | eval e =>
    simp only [Stmt.Resolved] at hs
    simp [Stmt.layout, Expr.heightAfter_layout h e hs, Instr.pops, Instr.pushes]

theorem Stmt.heightAfter_layoutAll {frames : List Scope} (loop : LoopLabels) (start h : Nat)
    (ss : List Stmt) (hss : Stmt.ResolvedAll p r size frames ss) :
    heightAfter (p.layout r) h (Stmt.layoutAll r loop start ss) = h := by
  cases ss with
  | nil => rfl
  | cons s rest =>
    simp only [Stmt.ResolvedAll] at hss
    simp [Stmt.layoutAll, Stmt.heightAfter_layout loop start h s hss.1,
      Stmt.heightAfter_layoutAll loop _ h rest hss.2]

end

section

variable {frames : List Scope} {code : List Instr} {start : Nat}

theorem CodeAt.heightAt_expr {e : Expr} (hc : CodeAt code start (e.layout r))
    (he : e.Resolved p r size frames) :
    heightAt (p.layout r) code (start + e.length) = heightAt (p.layout r) code start + 1 := by
  rw [← Expr.length_layout r e, hc.heightAt_add, Expr.heightAfter_layout _ e he]

theorem CodeAt.heightAt_args {es : List Expr} (hc : CodeAt code start (Expr.layoutReversed r es))
    (hes : Expr.ResolvedAll p r size frames es) :
    heightAt (p.layout r) code (start + Expr.lengthAll es) =
      heightAt (p.layout r) code start + es.length := by
  rw [← Expr.length_layoutReversed r es, hc.heightAt_add, Expr.heightAfter_layoutReversed _ es hes]

theorem CodeAt.heightAt_stmt {loop : LoopLabels} {s : Stmt}
    (hc : CodeAt code start (s.layout r loop start)) (hs : s.Resolved p r size frames) :
    heightAt (p.layout r) code (start + s.length) = heightAt (p.layout r) code start := by
  rw [← Stmt.length_layout r loop start s, hc.heightAt_add,
    Stmt.heightAfter_layout loop start _ s hs]

theorem CodeAt.heightAt_stmts {loop : LoopLabels} {ss : List Stmt}
    (hc : CodeAt code start (Stmt.layoutAll r loop start ss))
    (hss : Stmt.ResolvedAll p r size frames ss) :
    heightAt (p.layout r) code (start + Stmt.lengthAll ss) =
      heightAt (p.layout r) code start := by
  rw [← Stmt.length_layoutAll r loop start ss, hc.heightAt_add,
    Stmt.heightAfter_layoutAll loop start _ ss hss]

/-- The heights between the pieces of a branch. -/
theorem BranchAt.heights {loop : LoopLabels} {cond : Expr} {thenBody elseBody : List Stmt}
    {elseStart thenStart : Nat}
    (b : BranchAt r code loop start cond thenBody elseBody elseStart thenStart)
    (hs : (Stmt.branch cond thenBody elseBody).Resolved p r size frames)
    (h0 : heightAt (p.layout r) code start = 0) :
    heightAt (p.layout r) code (start + cond.length) = 1 ∧
      heightAt (p.layout r) code elseStart = 0 ∧
      heightAt (p.layout r) code (elseStart + Stmt.lengthAll elseBody) = 0 ∧
      heightAt (p.layout r) code thenStart = 0 ∧
      heightAt (p.layout r) code (thenStart + Stmt.lengthAll thenBody) = 0 := by
  simp only [Stmt.Resolved] at hs
  obtain ⟨hcond, hthen, helse⟩ := hs
  have htest : heightAt (p.layout r) code (start + cond.length) = 1 := by
    rw [b.condCode.heightAt_expr hcond, h0]
  have helse0 : heightAt (p.layout r) code elseStart = 0 := by
    rw [b.else_eq, heightAt_succ b.test.get, htest]
    rfl
  have hskip0 : heightAt (p.layout r) code (elseStart + Stmt.lengthAll elseBody) = 0 := by
    rw [b.elseCode.heightAt_stmts helse, helse0]
  have hthen0 : heightAt (p.layout r) code thenStart = 0 := by
    rw [b.then_eq, heightAt_succ b.skip.get, hskip0]
    rfl
  refine ⟨htest, helse0, hskip0, hthen0, ?_⟩
  rw [b.thenCode.heightAt_stmts hthen, hthen0]

/-- The heights between the pieces of a loop. -/
theorem LoopAt.heights {id : Nat} {cond : Expr} {body : List Stmt} {labels : LoopLabels}
    (b : LoopAt r code start cond body labels)
    (hs : (Stmt.loop id cond body).Resolved p r size frames)
    (h0 : heightAt (p.layout r) code start = 0) :
    heightAt (p.layout r) code (start + 1) = 0 ∧ heightAt (p.layout r) code labels.check = 0 ∧
      heightAt (p.layout r) code (labels.check + cond.length) = 1 ∧
      heightAt (p.layout r) code labels.exit = 0 := by
  simp only [Stmt.Resolved] at hs
  obtain ⟨hcond, hbody⟩ := hs
  have hbody0 : heightAt (p.layout r) code (start + 1) = 0 := by
    rw [heightAt_succ b.enter.get, h0]
    rfl
  have hcheck0 : heightAt (p.layout r) code labels.check = 0 := by
    rw [b.check_eq, b.bodyCode.heightAt_stmts hbody, hbody0]
  have htest : heightAt (p.layout r) code (labels.check + cond.length) = 1 := by
    rw [b.condCode.heightAt_expr hcond, hcheck0]
  refine ⟨hbody0, hcheck0, htest, ?_⟩
  rw [b.exit_eq, heightAt_succ b.back.get, htest]
  rfl

end

end

end StackLang

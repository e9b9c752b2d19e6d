import StackLang.Code.Generate
import StackLang.Proofs.Resolved

/-!
The lengths known beforehand against the code that is generated, whatever the notes on names say.
Code that is generated at all has the length its part of the tree tells, so the generator never
fails but for a name that the notes leave without a meaning.
-/
namespace StackLang

section

variable {r : Resolutions}

mutual

/-- The code of an expression has the length that is computed from the tree. -/
theorem Expr.length_code {c : List Instr} (e : Expr) (h : e.code r = .ok c) :
    c.length = e.length := by
  cases e with
  | literal v =>
    cases h
    rfl
  | var id name =>
    simp only [Expr.code, bind_eq_ok_iff] at h
    obtain ⟨slot, -, hc⟩ := h
    cases hc
    rfl
  | unary op operand =>
    simp only [Expr.code, bind_eq_ok_iff] at h
    obtain ⟨c₁, h₁, hc⟩ := h
    cases hc
    have hlength := Expr.length_code operand h₁
    simp only [Expr.length, List.length_append, List.length_singleton]
    omega
  | binary op left right =>
    simp only [Expr.code, bind_eq_ok_iff] at h
    obtain ⟨c₁, h₁, c₂, h₂, hc⟩ := h
    cases hc
    have hleft := Expr.length_code left h₁
    have hright := Expr.length_code right h₂
    simp only [Expr.length, List.length_append, List.length_singleton]
    omega
  | call function args =>
    simp only [Expr.code, bind_eq_ok_iff] at h
    obtain ⟨c₁, h₁, hc⟩ := h
    cases hc
    have hargs := Expr.length_codeReversed args h₁
    simp only [Expr.length, List.length_append, List.length_singleton]
    omega

theorem Expr.length_codeReversed {c : List Instr} (es : List Expr)
    (h : Expr.codeReversed r es = .ok c) : c.length = Expr.lengthAll es := by
  cases es with
  | nil =>
    cases h
    rfl
  | cons e rest =>
    simp only [Expr.codeReversed, bind_eq_ok_iff] at h
    obtain ⟨c₁, h₁, c₂, h₂, hc⟩ := h
    cases hc
    have hrest := Expr.length_codeReversed rest h₁
    have hfirst := Expr.length_code e h₂
    simp only [Expr.lengthAll, List.length_append]
    omega

end

mutual

/-- The code of a statement has the length that is computed from the tree. The labels of its jumps
are computed from that length before any code is there. -/
theorem Stmt.length_code {start : Nat} {known known' : Labels} {c : List Instr} (s : Stmt)
    (h : s.code r start known = .ok (c, known')) : c.length = s.length := by
  cases s with
  | declare names =>
    cases h
    rfl
  | assign id name value =>
    simp only [Stmt.code, bind_eq_ok_iff] at h
    obtain ⟨c₁, h₁, slot, -, hc⟩ := h
    cases hc
    have hvalue := Expr.length_code value h₁
    simp only [Stmt.length, List.length_append, List.length_singleton]
    omega
  | ret value =>
    cases value with
    | none =>
      cases h
      rfl
    | some value =>
      simp only [Stmt.code, bind_eq_ok_iff] at h
      obtain ⟨c₁, h₁, hc⟩ := h
      cases hc
      have hvalue := Expr.length_code value h₁
      simp only [Stmt.length, List.length_append, List.length_singleton]
      omega
  | leave id =>
    simp only [Stmt.code, bind_eq_ok_iff] at h
    obtain ⟨labels, -, hc⟩ := h
    cases hc
    rfl
  | again id =>
    simp only [Stmt.code, bind_eq_ok_iff] at h
    obtain ⟨labels, -, hc⟩ := h
    cases hc
    rfl
  | branch cond thenBody elseBody =>
    simp only [Stmt.code, bind_eq_ok_iff, Prod.exists] at h
    obtain ⟨c₁, h₁, c₂, k₂, h₂, c₃, k₃, h₃, hc⟩ := h
    cases hc
    have hcond := Expr.length_code cond h₁
    have helse := Stmt.length_codeAll elseBody h₂
    have hthen := Stmt.length_codeAll thenBody h₃
    simp only [Stmt.length, List.length_append, List.length_singleton]
    omega
  | loop id cond body =>
    simp only [Stmt.code, bind_eq_ok_iff, Prod.exists] at h
    obtain ⟨c₁, k₁, h₁, c₂, h₂, hc⟩ := h
    cases hc
    have hbody := Stmt.length_codeAll body h₁
    have hcond := Expr.length_code cond h₂
    simp only [Stmt.length, List.length_append, List.length_singleton]
    omega
  | eval e =>
    simp only [Stmt.code, bind_eq_ok_iff] at h
    obtain ⟨c₁, h₁, hc⟩ := h
    cases hc
    have hvalue := Expr.length_code e h₁
    simp only [Stmt.length, List.length_append, List.length_singleton]
    omega

theorem Stmt.length_codeAll {start : Nat} {known known' : Labels} {c : List Instr}
    (ss : List Stmt) (h : Stmt.codeAll r start known ss = .ok (c, known')) :
    c.length = Stmt.lengthAll ss := by
  cases ss with
  | nil =>
    cases h
    rfl
  | cons s rest =>
    simp only [Stmt.codeAll, bind_eq_ok_iff, Prod.exists] at h
    obtain ⟨c₁, k₁, h₁, c₂, k₂, h₂, hc⟩ := h
    cases hc
    have hfirst := Stmt.length_code s h₁
    have hrest := Stmt.length_codeAll rest h₂
    simp only [Stmt.lengthAll, List.length_append]
    omega

end

/-- The code of a block is that of its first part and then that of the rest, which starts after as
many instructions as the first part has. -/
theorem Stmt.codeAll_append_ok {start : Nat} {known known' : Labels} {before after : List Stmt}
    {c : List Instr} (h : Stmt.codeAll r start known (before ++ after) = .ok (c, known')) :
    ∃ c₁ known₁ c₂, Stmt.codeAll r start known before = .ok (c₁, known₁) ∧
      Stmt.codeAll r (start + c₁.length) known₁ after = .ok (c₂, known') ∧ c = c₁ ++ c₂ := by
  induction before generalizing start known c with
  | nil => exact ⟨[], known, c, rfl, h, rfl⟩
  | cons s rest ih =>
    simp only [List.cons_append, Stmt.codeAll, bind_eq_ok_iff, Prod.exists] at h
    obtain ⟨c₀, k₀, h₀, c₁, k₁, h₁, hc⟩ := h
    cases hc
    obtain ⟨d₁, known₁, d₂, hd₁, hd₂, rfl⟩ := ih h₁
    refine ⟨c₀ ++ d₁, known₁, d₂, ?_, ?_, by simp⟩
    · simp only [Stmt.codeAll, h₀, hd₁, ok_bind, pure_eq_ok]
    · rw [List.length_append, ← Nat.add_assoc]
      exact hd₂

end

/-! Which errors there are. -/

def OnlyUnresolved {α : Type} (x : Except GenerateError α) : Prop :=
  ∀ e, x = .error e → ∃ name, e = .unresolved name

namespace OnlyUnresolved

theorem ok {α : Type} (a : α) : OnlyUnresolved (.ok a) := by
  intro e h
  cases h

theorem bind {α β : Type} {x : Except GenerateError α} {f : α → Except GenerateError β}
    (hx : OnlyUnresolved x) (hf : ∀ a, OnlyUnresolved (f a)) : OnlyUnresolved (x >>= f) := by
  intro e h
  cases x with
  | error e' =>
    cases h
    exact hx e rfl
  | ok a => exact hf a e h

theorem slot (r : Resolutions) (id : Nat) (name : String) : OnlyUnresolved (r.slot id name) := by
  intro e h
  unfold Resolutions.slot at h
  split at h
  · cases h
  · cases h
    exact ⟨name, rfl⟩

theorem labels (r : Resolutions) (known : Labels) (id : Nat) (jump : LoopJump) :
    OnlyUnresolved (r.labels known id jump) := by
  intro e h
  unfold Resolutions.labels at h
  split at h
  · cases h
  · cases h
    exact ⟨jump.word, rfl⟩

end OnlyUnresolved

section

variable (r : Resolutions)

mutual

theorem Expr.code_onlyUnresolved (e : Expr) : OnlyUnresolved (e.code r) := by
  cases e with
  | literal v => exact .ok _
  | var id name =>
    rw [Expr.code]
    exact (OnlyUnresolved.slot r id name).bind fun _ => .ok _
  | unary op operand =>
    rw [Expr.code]
    exact (Expr.code_onlyUnresolved operand).bind fun _ => .ok _
  | binary op left right =>
    rw [Expr.code]
    exact (Expr.code_onlyUnresolved left).bind fun _ =>
      (Expr.code_onlyUnresolved right).bind fun _ => .ok _
  | call function args =>
    rw [Expr.code]
    exact (Expr.codeReversed_onlyUnresolved args).bind fun _ => .ok _

theorem Expr.codeReversed_onlyUnresolved (es : List Expr) :
    OnlyUnresolved (Expr.codeReversed r es) := by
  cases es with
  | nil => exact .ok _
  | cons e rest =>
    rw [Expr.codeReversed]
    exact (Expr.codeReversed_onlyUnresolved rest).bind fun _ =>
      (Expr.code_onlyUnresolved e).bind fun _ => .ok _

end

mutual

theorem Stmt.code_onlyUnresolved (start : Nat) (known : Labels) (s : Stmt) :
    OnlyUnresolved (s.code r start known) := by
  cases s with
  | declare names => exact .ok _
  | assign id name value =>
    rw [Stmt.code]
    exact (Expr.code_onlyUnresolved r value).bind fun _ =>
      (OnlyUnresolved.slot r id name).bind fun _ => .ok _
  | ret value =>
    cases value with
    | none => exact .ok _
    | some value =>
      rw [Stmt.code]
      exact (Expr.code_onlyUnresolved r value).bind fun _ => .ok _
  | leave id =>
    rw [Stmt.code]
    exact (OnlyUnresolved.labels r known id .leave).bind fun _ => .ok _
  | again id =>
    rw [Stmt.code]
    exact (OnlyUnresolved.labels r known id .again).bind fun _ => .ok _
  | branch cond thenBody elseBody =>
    rw [Stmt.code]
    exact (Expr.code_onlyUnresolved r cond).bind fun _ =>
      (Stmt.codeAll_onlyUnresolved _ _ elseBody).bind fun _ =>
        (Stmt.codeAll_onlyUnresolved _ _ thenBody).bind fun _ => .ok _
  | loop id cond body =>
    rw [Stmt.code]
    exact (Stmt.codeAll_onlyUnresolved _ _ body).bind fun _ =>
      (Expr.code_onlyUnresolved r cond).bind fun _ => .ok _
  | eval e =>
    rw [Stmt.code]
    exact (Expr.code_onlyUnresolved r e).bind fun _ => .ok _

theorem Stmt.codeAll_onlyUnresolved (start : Nat) (known : Labels) (ss : List Stmt) :
    OnlyUnresolved (Stmt.codeAll r start known ss) := by
  cases ss with
  | nil => exact .ok _
  | cons s rest =>
    rw [Stmt.codeAll]
    exact (Stmt.code_onlyUnresolved start known s).bind fun _ =>
      (Stmt.codeAll_onlyUnresolved _ _ rest).bind fun _ => .ok _

end

end

/-- What the generator gives for a function: its body, with the two instructions that return. -/
theorem FunctionDecl.code_ok {r : Resolutions} {d : FunctionDecl} {f : FunctionCode}
    (h : d.code r = .ok f) :
    ∃ size body known, r.frameSize? d.name = some size ∧
      Stmt.codeAll r 0 [] d.body = .ok (body, known) ∧
      f = ⟨d.name, d.params.length, size, (body ++ [Instr.push .nothing, Instr.ret]).toArray⟩ := by
  unfold FunctionDecl.code at h
  cases hsize : r.frameSize? d.name with
  | none => simp [hsize] at h
  | some size =>
    simp only [hsize, bind_eq_ok_iff, Prod.exists] at h
    obtain ⟨body, known, hbody, hf⟩ := h
    split at hf
    · cases hf
      exact ⟨size, body, known, rfl, hbody, rfl⟩
    · cases hf

/-- A function whose code cannot be generated has a name or a jump that was not resolved. -/
theorem FunctionDecl.code_onlyUnresolved (r : Resolutions) (d : FunctionDecl) :
    OnlyUnresolved (d.code r) := by
  intro e h
  unfold FunctionDecl.code at h
  cases hsize : r.frameSize? d.name with
  | none =>
    simp only [hsize, Except.error.injEq] at h
    exact ⟨d.name, h.symm⟩
  | some size =>
    simp only [hsize] at h
    cases hbody : Stmt.codeAll r 0 [] d.body with
    | error e' =>
      rw [hbody] at h
      cases h
      exact Stmt.codeAll_onlyUnresolved r 0 [] d.body e hbody
    | ok out =>
      have hlength := Stmt.length_codeAll d.body hbody
      rw [hbody] at h
      have hsame : (out.1 ++ [Instr.push .nothing, Instr.ret]).toArray.size = d.length := by
        simp [FunctionDecl.length, hlength]
      simp only [ok_bind, hsame, if_true] at h
      cases h

end StackLang

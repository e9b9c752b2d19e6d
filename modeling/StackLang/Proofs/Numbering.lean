import StackLang.Tree.Numbering

/-!
Which numbers stand where in a numbered program. A part of a tree that is numbered from `n` up to
`n'` uses just the numbers between them, and its own parts share these numbers without overlap. So
what is noted under the numbers of one part is not touched by what is noted for another.
-/
namespace StackLang

mutual

/-- The numbers in the expression run from `n` up to `n'`, in the order of its parts. -/
def Expr.Numbered : Nat → Expr → Nat → Prop
  | n, .literal _, n' => n' = n
  | n, .var id _, n' => id = n ∧ n' = n + 1
  | n, .unary _ operand, n' => operand.Numbered n n'
  | n, .binary _ left right, n' => ∃ k, left.Numbered n k ∧ right.Numbered k n'
  | n, .call _ args, n' => Expr.NumberedAll n args n'

def Expr.NumberedAll : Nat → List Expr → Nat → Prop
  | n, [], n' => n' = n
  | n, e :: rest, n' => ∃ k, e.Numbered n k ∧ Expr.NumberedAll k rest n'

end

mutual

def Stmt.Numbered : Nat → Stmt → Nat → Prop
  | n, .declare _, n' => n' = n
  | n, .assign id _ value, n' => id = n ∧ value.Numbered (n + 1) n'
  | n, .ret none, n' => n' = n
  | n, .ret (some value), n' => value.Numbered n n'
  | n, .leave id, n' => id = n ∧ n' = n + 1
  | n, .again id, n' => id = n ∧ n' = n + 1
  | n, .branch cond thenBody elseBody, n' =>
    ∃ k l, cond.Numbered n k ∧ Stmt.NumberedAll k thenBody l ∧ Stmt.NumberedAll l elseBody n'
  | n, .loop id cond body, n' =>
    id = n ∧ ∃ k, cond.Numbered (n + 1) k ∧ Stmt.NumberedAll k body n'
  | n, .eval e, n' => e.Numbered n n'

def Stmt.NumberedAll : Nat → List Stmt → Nat → Prop
  | n, [], n' => n' = n
  | n, s :: rest, n' => ∃ k, s.Numbered n k ∧ Stmt.NumberedAll k rest n'

end

def FunctionDecl.NumberedAll : Nat → List FunctionDecl → Nat → Prop
  | n, [], n' => n' = n
  | n, f :: rest, n' => ∃ k, Stmt.NumberedAll n f.body k ∧ FunctionDecl.NumberedAll k rest n'

def Program.Numbered (p : Program) : Prop := ∃ n, FunctionDecl.NumberedAll 0 p.functions n

mutual

/-- Numbering an expression gives its nodes the numbers from `n` on, in the order of reading. -/
theorem Expr.number_numbered (n : Nat) (e : Expr) :
    (e.number n).1.Numbered n (e.number n).2 := by
  cases e with
  | literal v => simp [Expr.number, Expr.Numbered]
  | var id name => simp [Expr.number, Expr.Numbered]
  | unary op operand =>
    simp only [Expr.number, Expr.Numbered]
    exact Expr.number_numbered n operand
  | binary op left right =>
    simp only [Expr.number, Expr.Numbered]
    exact ⟨_, Expr.number_numbered n left, Expr.number_numbered _ right⟩
  | call f args =>
    simp only [Expr.number, Expr.Numbered]
    exact Expr.numberAll_numbered n args

theorem Expr.numberAll_numbered (n : Nat) (es : List Expr) :
    Expr.NumberedAll n (Expr.numberAll n es).1 (Expr.numberAll n es).2 := by
  cases es with
  | nil => simp [Expr.numberAll, Expr.NumberedAll]
  | cons e rest =>
    simp only [Expr.numberAll, Expr.NumberedAll]
    exact ⟨_, Expr.number_numbered n e, Expr.numberAll_numbered _ rest⟩

end

mutual

/-- Numbering a statement gives its nodes the numbers from `n` on, in the order of reading. -/
theorem Stmt.number_numbered (n : Nat) (s : Stmt) :
    (s.number n).1.Numbered n (s.number n).2 := by
  cases s with
  | declare names => simp [Stmt.number, Stmt.Numbered]
  | assign id name value =>
    simp only [Stmt.number, Stmt.Numbered, true_and]
    exact Expr.number_numbered _ value
  | ret value =>
    cases value with
    | none => simp [Stmt.number, Stmt.Numbered]
    | some value =>
      simp only [Stmt.number, Stmt.Numbered]
      exact Expr.number_numbered n value
  | leave id => simp [Stmt.number, Stmt.Numbered]
  | again id => simp [Stmt.number, Stmt.Numbered]
  | branch cond thenBody elseBody =>
    simp only [Stmt.number, Stmt.Numbered]
    exact ⟨_, _, Expr.number_numbered n cond, Stmt.numberAll_numbered _ thenBody,
      Stmt.numberAll_numbered _ elseBody⟩
  | loop id cond body =>
    simp only [Stmt.number, Stmt.Numbered, true_and]
    exact ⟨_, Expr.number_numbered _ cond, Stmt.numberAll_numbered _ body⟩
  | eval e =>
    simp only [Stmt.number, Stmt.Numbered]
    exact Expr.number_numbered n e

theorem Stmt.numberAll_numbered (n : Nat) (ss : List Stmt) :
    Stmt.NumberedAll n (Stmt.numberAll n ss).1 (Stmt.numberAll n ss).2 := by
  cases ss with
  | nil => simp [Stmt.numberAll, Stmt.NumberedAll]
  | cons s rest =>
    simp only [Stmt.numberAll, Stmt.NumberedAll]
    exact ⟨_, Stmt.number_numbered n s, Stmt.numberAll_numbered _ rest⟩

end

theorem FunctionDecl.numberAll_numbered (n : Nat) (fs : List FunctionDecl) :
    FunctionDecl.NumberedAll n (FunctionDecl.numberAll n fs).1
      (FunctionDecl.numberAll n fs).2 := by
  induction fs generalizing n with
  | nil => simp [FunctionDecl.numberAll, FunctionDecl.NumberedAll]
  | cons f rest ih =>
    simp only [FunctionDecl.numberAll, FunctionDecl.NumberedAll]
    exact ⟨_, Stmt.numberAll_numbered n f.body, ih _⟩

/-- A program made from items is numbered throughout. -/
theorem Program.ofItems_numbered (items : List Item) : (Program.ofItems items).Numbered :=
  ⟨_, FunctionDecl.numberAll_numbered 0 _⟩

mutual

theorem Expr.Numbered.le {n n' : Nat} {e : Expr} (h : e.Numbered n n') : n ≤ n' := by
  cases e with
  | literal v => simp only [Expr.Numbered] at h; omega
  | var id name => simp only [Expr.Numbered] at h; omega
  | unary op operand =>
    simp only [Expr.Numbered] at h
    exact Expr.Numbered.le h
  | binary op left right =>
    simp only [Expr.Numbered] at h
    obtain ⟨k, hleft, hright⟩ := h
    exact Nat.le_trans (Expr.Numbered.le hleft) (Expr.Numbered.le hright)
  | call f args =>
    simp only [Expr.Numbered] at h
    exact Expr.NumberedAll.le h

theorem Expr.NumberedAll.le {n n' : Nat} {es : List Expr} (h : Expr.NumberedAll n es n') :
    n ≤ n' := by
  cases es with
  | nil => simp only [Expr.NumberedAll] at h; omega
  | cons e rest =>
    simp only [Expr.NumberedAll] at h
    obtain ⟨k, he, hrest⟩ := h
    exact Nat.le_trans (Expr.Numbered.le he) (Expr.NumberedAll.le hrest)

end

mutual

theorem Stmt.Numbered.le {n n' : Nat} {s : Stmt} (h : s.Numbered n n') : n ≤ n' := by
  cases s with
  | declare names => simp only [Stmt.Numbered] at h; omega
  | assign id name value =>
    simp only [Stmt.Numbered] at h
    have hvalue := Expr.Numbered.le h.2
    omega
  | ret value =>
    cases value with
    | none => simp only [Stmt.Numbered] at h; omega
    | some value =>
      simp only [Stmt.Numbered] at h
      exact Expr.Numbered.le h
  | leave id => simp only [Stmt.Numbered] at h; omega
  | again id => simp only [Stmt.Numbered] at h; omega
  | branch cond thenBody elseBody =>
    simp only [Stmt.Numbered] at h
    obtain ⟨k, l, hcond, hthen, helse⟩ := h
    have h1 := Expr.Numbered.le hcond
    have h2 := Stmt.NumberedAll.le hthen
    have h3 := Stmt.NumberedAll.le helse
    omega
  | loop id cond body =>
    simp only [Stmt.Numbered] at h
    obtain ⟨-, k, hcond, hbody⟩ := h
    have h1 := Expr.Numbered.le hcond
    have h2 := Stmt.NumberedAll.le hbody
    omega
  | eval e =>
    simp only [Stmt.Numbered] at h
    exact Expr.Numbered.le h

theorem Stmt.NumberedAll.le {n n' : Nat} {ss : List Stmt} (h : Stmt.NumberedAll n ss n') :
    n ≤ n' := by
  cases ss with
  | nil => simp only [Stmt.NumberedAll] at h; omega
  | cons s rest =>
    simp only [Stmt.NumberedAll] at h
    obtain ⟨k, hs, hrest⟩ := h
    exact Nat.le_trans (Stmt.Numbered.le hs) (Stmt.NumberedAll.le hrest)

end

end StackLang

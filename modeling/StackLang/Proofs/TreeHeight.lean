import StackLang.Proofs.ParseCompleteness

/-!
How high the trees of accepted programs are. A walk over a tree recurses once for each step down.
Every step but one is paid for by a level of nesting or by a tighter level of operators, and those
are bounded. The exception is the step into the left operand of a binary operator: a chain of
operators of one level leans to the left without any nesting, as long as the text may be.
-/
namespace StackLang

mutual

/-- The height of an expression, where the step into the left operand of a binary operator counts
`leftStep`. With 1 this is the height of the tree. -/
def Expr.height (leftStep : Nat) : Expr → Nat
  | .literal _ => 1
  | .var _ _ => 1
  | .unary _ operand => operand.height leftStep + 1
  | .binary _ left right => max (left.height leftStep + leftStep) (right.height leftStep + 1)
  | .call _ args => Expr.heightAll leftStep args + 1

def Expr.heightAll (leftStep : Nat) : List Expr → Nat
  | [] => 0
  | e :: rest => max (e.height leftStep) (Expr.heightAll leftStep rest)

end

mutual

def Stmt.height (leftStep : Nat) : Stmt → Nat
  | .declare _ => 1
  | .assign _ _ value => value.height leftStep + 1
  | .ret none => 1
  | .ret (some value) => value.height leftStep + 1
  | .leave _ => 1
  | .again _ => 1
  | .branch cond thenBody elseBody =>
    max (cond.height leftStep)
      (max (Stmt.heightAll leftStep thenBody) (Stmt.heightAll leftStep elseBody)) + 1
  | .loop _ cond body => max (cond.height leftStep) (Stmt.heightAll leftStep body) + 1
  | .eval e => e.height leftStep + 1

def Stmt.heightAll (leftStep : Nat) : List Stmt → Nat
  | [] => 0
  | s :: rest => max (s.height leftStep) (Stmt.heightAll leftStep rest)

end

def FunctionDecl.heightAll (leftStep : Nat) : List FunctionDecl → Nat
  | [] => 0
  | f :: rest => max (Stmt.heightAll leftStep f.body) (FunctionDecl.heightAll leftStep rest)

def Program.height (leftStep : Nat) (p : Program) : Nat :=
  FunctionDecl.heightAll leftStep p.functions

/-! Numbers do not change the shape of a tree. -/

mutual

theorem Expr.height_number (leftStep n : Nat) (e : Expr) :
    (e.number n).1.height leftStep = e.height leftStep := by
  cases e with
  | literal v => rfl
  | var id name => rfl
  | unary op operand =>
    simp only [Expr.number, Expr.height, Expr.height_number leftStep n operand]
  | binary op left right =>
    simp only [Expr.number, Expr.height, Expr.height_number leftStep _ left,
      Expr.height_number leftStep _ right]
  | call f args =>
    simp only [Expr.number, Expr.height, Expr.heightAll_numberAll leftStep n args]

theorem Expr.heightAll_numberAll (leftStep n : Nat) (es : List Expr) :
    Expr.heightAll leftStep (Expr.numberAll n es).1 = Expr.heightAll leftStep es := by
  cases es with
  | nil => rfl
  | cons e rest =>
    simp only [Expr.numberAll, Expr.heightAll, Expr.height_number leftStep n e,
      Expr.heightAll_numberAll leftStep _ rest]

end

mutual

/-- Numbering changes no height. -/
theorem Stmt.height_number (leftStep n : Nat) (s : Stmt) :
    (s.number n).1.height leftStep = s.height leftStep := by
  cases s with
  | declare names => rfl
  | assign id name value => simp only [Stmt.number, Stmt.height, Expr.height_number]
  | ret value =>
    cases value with
    | none => rfl
    | some value => simp only [Stmt.number, Stmt.height, Expr.height_number]
  | leave id => rfl
  | again id => rfl
  | branch cond thenBody elseBody =>
    simp only [Stmt.number, Stmt.height, Expr.height_number,
      Stmt.heightAll_numberAll leftStep _ thenBody, Stmt.heightAll_numberAll leftStep _ elseBody]
  | loop id cond body =>
    simp only [Stmt.number, Stmt.height, Expr.height_number,
      Stmt.heightAll_numberAll leftStep _ body]
  | eval e => simp only [Stmt.number, Stmt.height, Expr.height_number]

theorem Stmt.heightAll_numberAll (leftStep n : Nat) (body : List Stmt) :
    Stmt.heightAll leftStep (Stmt.numberAll n body).1 = Stmt.heightAll leftStep body := by
  cases body with
  | nil => rfl
  | cons s rest =>
    simp only [Stmt.numberAll, Stmt.heightAll, Stmt.height_number leftStep n s,
      Stmt.heightAll_numberAll leftStep _ rest]

end

theorem FunctionDecl.heightAll_numberAll (leftStep n : Nat) (fs : List FunctionDecl) :
    FunctionDecl.heightAll leftStep (FunctionDecl.numberAll n fs).1 =
      FunctionDecl.heightAll leftStep fs := by
  induction fs generalizing n with
  | nil => rfl
  | cons f rest ih => simp only [numberAll, heightAll, Stmt.heightAll_numberAll, ih]

theorem Program.height_ofItems (leftStep : Nat) (items : List Item) :
    (Program.ofItems items).height leftStep =
      FunctionDecl.heightAll leftStep (items.filterMap Item.function?) :=
  FunctionDecl.heightAll_numberAll leftStep 0 _

/-! The bound. -/

def Token.isOperator : Token → Bool
  | .operator _ => true
  | _ => false

/-- One level of nesting allows seven steps down: one into the nested part, and one for each level
of operators. Left operands come on top. -/
def Phrase.HeightWithin (leftStep d : Nat) (ts : List Token) : Phrase → Prop
  | .joined level e =>
      e.height leftStep + level ≤ 7 * d + 7 + leftStep * ts.countP Token.isOperator
  | .whole e => e.height leftStep ≤ 7 * d + leftStep * ts.countP Token.isOperator
  | .furtherArgs es =>
      Expr.heightAll leftStep es ≤ 7 * d + leftStep * ts.countP Token.isOperator
  | .block body =>
      Stmt.heightAll leftStep body + 6 ≤ 7 * d + leftStep * ts.countP Token.isOperator
  | .statements body =>
      Stmt.heightAll leftStep body ≤ 7 * d + 1 + leftStep * ts.countP Token.isOperator
  | .statement s => s.height leftStep ≤ 7 * d + 1 + leftStep * ts.countP Token.isOperator
  | .otherwise body =>
      Stmt.heightAll leftStep body ≤ 7 * d + leftStep * ts.countP Token.isOperator
  | .items program =>
      FunctionDecl.heightAll leftStep (program.filterMap Item.function?) ≤
        7 * d - 6 + leftStep * ts.countP Token.isOperator

/-- The height of a phrase is bounded by its nesting and by the operators it is spelled with. -/
theorem Spells.heightWithin (leftStep : Nat) {phrase : Phrase} {d : Nat} {ts : List Token}
    (h : Spells phrase d ts) : phrase.HeightWithin leftStep d ts := by
  induction h with
  | binary op _ _ ih ih' =>
    -- the right operand is one level tighter; for the left one the operator itself has to pay
    simp only [Phrase.HeightWithin, Expr.height, List.countP_append, List.countP_cons,
      Token.isOperator, if_true, Nat.mul_add, Nat.mul_one] at *
    omega
  | noItem => exact Nat.zero_le _
  | globals _ _ ih =>
    simp only [Phrase.HeightWithin, List.countP_append, List.countP_cons, Nat.mul_add,
      List.filterMap_cons, Item.function?] at *
    omega
  | function _ _ _ _ ih ih' =>
    simp only [Phrase.HeightWithin, List.countP_append, List.countP_cons, Nat.mul_add,
      List.filterMap_cons, Item.function?, FunctionDecl.heightAll] at *
    omega
  | _ =>
    simp only [Phrase.HeightWithin, Expr.height, Expr.heightAll, Stmt.height, Stmt.heightAll,
      List.countP_append, List.countP_cons, Nat.mul_add, operandLevel] at *
    omega

/-! A sum without nesting. -/

theorem sentence_of_spells {items : List Item} {d : Nat} {ts : List Token} {pos : Position}
    (h : Spells (.items items) d ts) : sentence (ts.map (⟨·, pos⟩)) = ts := by
  have heof : .eof ∉ ts := fun hmem => h.allows .eof hmem rfl
  have hend : (ts.map (Placed.mk · pos)).map (·.token) = ts ++ Cursor.tokens ⟨[], none⟩ := by
    simp [Cursor.tokens, Function.comp_def]
  exact sentence_eq hend heof rfl

def sumOfOnes : Nat → Expr
  | 0 => .literal (.int 1)
  | n + 1 => .binary .add (sumOfOnes n) (.literal (.int 1))

def sumTokens : Nat → List Token
  | 0 => [.literal (.int 1)]
  | n + 1 => sumTokens n ++ [.operator .add, .literal (.int 1)]

def sumProgram (n : Nat) : List Token :=
  .ident "main" :: .lparen :: .rparen :: .lbrace :: .keyword .returnWord ::
    (sumTokens n ++ [.semicolon, .rbrace])

theorem Spells.loosen {e : Expr} {d k : Nat} {ts : List Token} (n : Nat)
    (h : Spells (.joined (k + n) e) d ts) (hk : k + n ≤ operandLevel) :
    Spells (.joined k e) d ts := by
  induction n with
  | zero => exact h
  | succ n ih => exact ih (.tighter (by omega) h) (by omega)

theorem spells_sumTokens (n : Nat) :
    Spells (.joined BinaryOp.add.level (sumOfOnes n)) 0 (sumTokens n) := by
  induction n with
  | zero => exact .loosen 2 (.literal (.int 1)) (Nat.le_refl _)
  | succ n ih => exact .binary .add ih (.loosen 1 (.literal (.int 1)) (Nat.le_refl _))

theorem spells_sumProgram (n : Nat) :
    Spells (.items [.function ⟨"main", [], [.ret (some (sumOfOnes n))]⟩]) 2 (sumProgram n) := by
  have hsum : Spells (.whole (sumOfOnes n)) 1 (sumTokens n) :=
    .whole (.loosen 4 (spells_sumTokens n) (by decide))
  have hitems := Spells.function "main" [] (.block (.nextStatement (.ret hsum) .noStatement))
    .noItem
  simpa [Token.ofNames, sumProgram] using hitems

/-- A sum of ones is parsed, however long it is. -/
theorem Program.ofTokens_sumProgram (n : Nat) :
    Program.ofTokens ((sumProgram n).map (⟨·, .start⟩)) =
      .ok (.ofItems [.function ⟨"main", [], [.ret (some (sumOfOnes n))]⟩]) := by
  apply Program.ofTokens_of_spells
  rw [sentence_of_spells (spells_sumProgram n)]
  exact ⟨2, by decide, spells_sumProgram n⟩

theorem height_sumOfOnes (n : Nat) : n ≤ (sumOfOnes n).height 1 := by
  induction n with
  | zero => exact Nat.zero_le _
  | succ n ih =>
    rw [sumOfOnes, Expr.height]
    omega

theorem height_sumProgram (n : Nat) :
    n ≤ (Program.ofItems [.function ⟨"main", [], [.ret (some (sumOfOnes n))]⟩]).height 1 := by
  have hsum := height_sumOfOnes n
  rw [Program.height_ofItems]
  simp only [List.filterMap_cons, Item.function?, FunctionDecl.heightAll, Stmt.heightAll,
    Stmt.height]
  omega

/-! How high the trees of a program are. -/

/-- Left operands apart, the cap on nesting bounds the height of the trees, whatever the length of
the text; and each step into a left operand takes an operator of the text. -/
theorem Program.height_le_of_ofTokens {tokens : List Placed} {p : Program}
    (h : Program.ofTokens tokens = .ok p) (leftStep : Nat) :
    p.height leftStep ≤
      7 * maxNesting - 6 + leftStep * (sentence tokens).countP Token.isOperator := by
  obtain ⟨items, ⟨d, hd, hspells⟩, rfl⟩ := Program.spells_of_ofTokens h
  have hwithin := hspells.heightWithin leftStep
  rw [Program.height_ofItems]
  unfold Phrase.HeightWithin at hwithin
  omega

/-- A thousand additions in a row. -/
theorem Program.height_le_of_ofTokens_sum :
    ∃ p, Program.ofTokens ((sumProgram 1000).map (⟨·, .start⟩)) = .ok p ∧
      1000 ≤ p.height 1 ∧ p.height 0 ≤ 694 := by
  have hparsed := Program.ofTokens_sumProgram 1000
  have hle := Program.height_le_of_ofTokens hparsed 0
  rw [Nat.zero_mul] at hle
  exact ⟨_, hparsed, height_sumProgram 1000, hle⟩

/-- The height itself has no bound. -/
theorem Program.height_of_accepted_unbounded :
    ¬∃ bound, ∀ tokens p, Program.ofTokens tokens = .ok p → p.height 1 ≤ bound := by
  rintro ⟨bound, hbound⟩
  have hle := hbound _ _ (Program.ofTokens_sumProgram (bound + 1))
  have hhigh := height_sumProgram (bound + 1)
  omega

end StackLang

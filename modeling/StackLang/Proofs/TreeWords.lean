import StackLang.Proofs.Grammar
import StackLang.Proofs.Layout
import StackLang.Proofs.WellScoped

/-!
The tokens that a tree keeps of its text. They stand in the text in the same order; only brackets,
commas and the like are left out. All that is in the code of a program comes from them: its
literals and names, and every length and count, since there are at least as many of these tokens as
instructions and as variables.
-/
namespace StackLang

open OpenScope

def UnaryOp.token : UnaryOp → Token
  | .neg => .operator .sub
  | .not => .bang

mutual

/-- One token for each node of the expression. -/
def Expr.words : Expr → List Token
  | .literal v => [.literal v]
  | .var _ name => [.ident name]
  | .unary op operand => op.token :: operand.words
  | .binary op left right => left.words ++ .operator op :: right.words
  | .call f args => .ident f :: Expr.wordsAll args

def Expr.wordsAll : List Expr → List Token
  | [] => []
  | e :: rest => e.words ++ Expr.wordsAll rest

end

mutual

def Stmt.words : Stmt → List Token
  | .declare names => .keyword .declWord :: (names.map .ident ++ [.semicolon])
  | .assign _ name value => .ident name :: (value.words ++ [.semicolon])
  | .ret none => [.keyword .returnWord, .semicolon]
  | .ret (some value) => .keyword .returnWord :: (value.words ++ [.semicolon])
  | .leave _ => [.keyword .breakWord, .semicolon]
  | .again _ => [.keyword .continueWord, .semicolon]
  | .branch cond thenBody elseBody =>
    .keyword .ifWord ::
      (cond.words ++ (.lbrace :: (Stmt.wordsAll thenBody ++ [.rbrace]) ++ Stmt.wordsAll elseBody))
  | .loop _ cond body =>
    .keyword .whileWord :: (cond.words ++ .lbrace :: (Stmt.wordsAll body ++ [.rbrace]))
  | .eval e => e.words ++ [.semicolon]

def Stmt.wordsAll : List Stmt → List Token
  | [] => []
  | s :: rest => s.words ++ Stmt.wordsAll rest

end

def FunctionDecl.words (f : FunctionDecl) : List Token :=
  .ident f.name :: (f.params.map .ident ++ .lbrace :: (Stmt.wordsAll f.body ++ [.rbrace]))

def Item.words : Item → List Token
  | .globals names => .keyword .declWord :: (names.map .ident ++ [.semicolon])
  | .function f => f.words

def Phrase.words : Phrase → List Token
  | .joined _ e => e.words
  | .whole e => e.words
  | .furtherArgs es => Expr.wordsAll es
  | .block body => .lbrace :: (Stmt.wordsAll body ++ [.rbrace])
  | .statements body => Stmt.wordsAll body
  | .statement s => s.words
  | .otherwise body => Stmt.wordsAll body
  | .items program => program.flatMap Item.words

/-! The words stand in the text. -/

theorem Token.idents_sublist_ofNames (names : List String) :
    (names.map Token.ident).Sublist (Token.ofNames names) := by
  cases names with
  | nil => exact .slnil
  | cons name further =>
    rw [List.map_cons, ofNames]
    apply List.Sublist.cons_cons
    induction further with
    | nil => exact .slnil
    | cons next rest ih => exact .cons _ (.cons_cons _ ih)

/-- The words of a phrase stand in the tokens that spell it, in that order. -/
theorem Spells.words_sublist {phrase : Phrase} {d : Nat} {ts : List Token}
    (h : Spells phrase d ts) : phrase.words.Sublist ts := by
  induction h with
  | literal | var | retNothing | leave | again | noArg | noElse | noStatement | noItem =>
    exact List.Sublist.refl _
  | callNone f => exact .cons_cons _ (List.nil_sublist _)
  | call f _ _ ih ih' =>
    exact .cons_cons _ (.cons _ (ih.append (ih'.trans (List.sublist_append_left _ _))))
  | parens _ ih => exact .cons _ (ih.trans (List.sublist_append_left _ _))
  | neg _ ih | not _ ih => exact .cons_cons _ ih
  | tighter _ _ ih => exact ih
  | binary op _ _ ih ih' => exact ih.append (.cons_cons _ ih')
  | whole _ ih => exact ih
  | nextArg _ _ ih ih' => exact .cons _ (ih.append ih')
  | @declare names _ =>
    exact .cons_cons _ ((Token.idents_sublist_ofNames names).append (.refl _))
  | assign name _ ih => exact .cons_cons _ (.cons _ (ih.append (.refl _)))
  | ret _ ih => exact .cons_cons _ (ih.append (.refl _))
  | branch _ _ _ ih ih' ih'' =>
    exact .cons_cons _ (.cons _ (ih.append (.cons _ (ih'.append ih''))))
  | loop _ _ ih ih' => exact .cons_cons _ (.cons _ (ih.append (.cons _ ih')))
  | eval _ ih => exact ih.append (.refl _)
  | elseBlock _ ih =>
    apply List.Sublist.cons
    exact .trans (.cons _ (List.sublist_append_left _ _)) ih
  | elseIf _ ih =>
    apply List.Sublist.cons
    rwa [Phrase.words, Stmt.wordsAll, Stmt.wordsAll, List.append_nil]
  | nextStatement _ _ ih ih' => exact ih.append ih'
  | block _ ih => exact .cons_cons _ (ih.append (.refl _))
  | @globals names _ _ _ _ _ ih =>
    have hnames := (Token.idents_sublist_ofNames names).append (ih.cons_cons .semicolon)
    simpa [Phrase.words, Item.words] using hnames.cons_cons (.keyword .declWord)
  | @function name params _ _ _ _ _ _ _ _ ih ih' =>
    have hparams := (Token.idents_sublist_ofNames params).append ((ih.append ih').cons .rparen)
    simpa [Phrase.words, Item.words, FunctionDecl.words] using
      (hparams.cons .lparen).cons_cons (.ident name)

/-! Numbers do not change the words. -/

mutual

theorem Expr.words_number (n : Nat) (e : Expr) : (e.number n).1.words = e.words := by
  cases e with
  | literal v => rfl
  | var id name => rfl
  | unary op operand => simp only [Expr.number, Expr.words, Expr.words_number n operand]
  | binary op left right =>
    simp only [Expr.number, Expr.words, Expr.words_number _ left, Expr.words_number _ right]
  | call f args => simp only [Expr.number, Expr.words, Expr.wordsAll_numberAll n args]

theorem Expr.wordsAll_numberAll (n : Nat) (es : List Expr) :
    Expr.wordsAll (Expr.numberAll n es).1 = Expr.wordsAll es := by
  cases es with
  | nil => rfl
  | cons e rest =>
    simp only [Expr.numberAll, Expr.wordsAll, Expr.words_number n e,
      Expr.wordsAll_numberAll _ rest]

end

mutual

theorem Stmt.words_number (n : Nat) (s : Stmt) : (s.number n).1.words = s.words := by
  cases s with
  | declare names => rfl
  | assign id name value => simp only [Stmt.number, Stmt.words, Expr.words_number]
  | ret value =>
    cases value with
    | none => rfl
    | some value => simp only [Stmt.number, Stmt.words, Expr.words_number]
  | leave id => rfl
  | again id => rfl
  | branch cond thenBody elseBody =>
    simp only [Stmt.number, Stmt.words, Expr.words_number, Stmt.wordsAll_numberAll _ thenBody,
      Stmt.wordsAll_numberAll _ elseBody]
  | loop id cond body =>
    simp only [Stmt.number, Stmt.words, Expr.words_number, Stmt.wordsAll_numberAll _ body]
  | eval e => simp only [Stmt.number, Stmt.words, Expr.words_number]

theorem Stmt.wordsAll_numberAll (n : Nat) (body : List Stmt) :
    Stmt.wordsAll (Stmt.numberAll n body).1 = Stmt.wordsAll body := by
  cases body with
  | nil => rfl
  | cons s rest =>
    simp only [Stmt.numberAll, Stmt.wordsAll, Stmt.words_number n s, Stmt.wordsAll_numberAll _ rest]

end

theorem FunctionDecl.map_words_numberAll (n : Nat) (fs : List FunctionDecl) :
    (FunctionDecl.numberAll n fs).1.map words = fs.map words := by
  induction fs generalizing n with
  | nil => rfl
  | cons f rest ih =>
    simp only [numberAll, List.map_cons, words, Stmt.wordsAll_numberAll, ih]

/-! Code comes from the words. -/

/-- What the instruction has from the text is among the tokens. -/
def Instr.DrawnFrom (ts : List Token) : Instr → Prop
  | .push v => v = .nothing ∨ .literal v ∈ ts
  | .call f => .ident f ∈ ts
  | _ => True

theorem Instr.DrawnFrom.mono {ts ts' : List Token} {i : Instr} (h : i.DrawnFrom ts)
    (hsub : ts ⊆ ts') : i.DrawnFrom ts' := by
  cases i with
  | push v => exact h.imp_right fun hmem => hsub hmem
  | call f => exact hsub h
  | _ => trivial

theorem Instr.drawnFrom_callInstr (f : String) (ts : List Token) :
    (callInstr f).DrawnFrom (.ident f :: ts) := by
  unfold callInstr
  split
  · trivial
  · exact List.mem_cons_self

section

variable (r : Resolutions)

mutual

/-- The instructions of an expression are drawn from its words. -/
theorem Expr.layout_drawn (e : Expr) : ∀ i ∈ e.layout r, i.DrawnFrom e.words := by
  cases e with
  | literal v => simp [Expr.layout, Expr.words, Instr.DrawnFrom]
  | var id name => simp [Expr.layout, Instr.DrawnFrom]
  | unary op operand =>
    intro i hi
    rcases List.mem_append.1 hi with hi | hi
    · exact (operand.layout_drawn i hi).mono (List.subset_cons_self _ _)
    · cases List.mem_singleton.1 hi
      trivial
  | binary op left right =>
    intro i hi
    rcases List.mem_append.1 hi with hi | hi
    · rcases List.mem_append.1 hi with hi | hi
      · exact (left.layout_drawn i hi).mono (List.subset_append_left _ _)
      · refine (right.layout_drawn i hi).mono ?_
        exact List.Subset.trans (List.subset_cons_self _ _) (List.subset_append_right _ _)
    · cases List.mem_singleton.1 hi
      trivial
  | call f args =>
    intro i hi
    rcases List.mem_append.1 hi with hi | hi
    · exact (Expr.layoutReversed_drawn args i hi).mono (List.subset_cons_self _ _)
    · cases List.mem_singleton.1 hi
      exact Instr.drawnFrom_callInstr f _

theorem Expr.layoutReversed_drawn (es : List Expr) :
    ∀ i ∈ Expr.layoutReversed r es, i.DrawnFrom (Expr.wordsAll es) := by
  cases es with
  | nil => exact nofun
  | cons e rest =>
    intro i hi
    rcases List.mem_append.1 hi with hi | hi
    · exact (Expr.layoutReversed_drawn rest i hi).mono (List.subset_append_right _ _)
    · exact (e.layout_drawn i hi).mono (List.subset_append_left _ _)

end

theorem Expr.layout_then_drawn {e : Expr} {last : Instr} {ts : List Token}
    (hsub : e.words ⊆ ts) (hlast : last.DrawnFrom ts) :
    ∀ i ∈ e.layout r ++ [last], i.DrawnFrom ts := by
  intro i hi
  rcases List.mem_append.1 hi with hi | hi
  · exact (e.layout_drawn r i hi).mono hsub
  · cases List.mem_singleton.1 hi
    exact hlast

mutual

/-- The instructions of a statement are drawn from its words. -/
theorem Stmt.layout_drawn (loop : LoopLabels) (start : Nat) (s : Stmt) :
    ∀ i ∈ s.layout r loop start, i.DrawnFrom s.words := by
  cases s with
  | declare names => exact nofun
  | assign id name value =>
    refine Expr.layout_then_drawn r ?_ trivial
    exact List.Subset.trans (List.subset_append_left _ _) (List.subset_cons_self _ _)
  | ret value =>
    cases value with
    | none => simp [Stmt.layout, Instr.DrawnFrom]
    | some value =>
      refine Expr.layout_then_drawn r ?_ trivial
      exact List.Subset.trans (List.subset_append_left _ _) (List.subset_cons_self _ _)
  | leave id => simp [Stmt.layout, Instr.DrawnFrom]
  | again id => simp [Stmt.layout, Instr.DrawnFrom]
  | branch cond thenBody elseBody =>
    have hcond := cond.layout_drawn r
    have hthen := Stmt.layoutAll_drawn loop
      (start + cond.length + 1 + Stmt.lengthAll elseBody + 1) thenBody
    have helse := Stmt.layoutAll_drawn loop (start + cond.length + 1) elseBody
    intro i hi
    simp only [Stmt.layout, List.mem_append, List.mem_singleton] at hi
    rcases hi with (((hi | rfl) | hi) | rfl) | hi
    · exact (hcond i hi).mono fun t ht => by simp [Stmt.words, ht]
    · trivial
    · exact (helse i hi).mono fun t ht => by simp [Stmt.words, ht]
    · trivial
    · exact (hthen i hi).mono fun t ht => by simp [Stmt.words, ht]
  | loop id cond body =>
    have hcond := cond.layout_drawn r
    intro i hi
    simp only [Stmt.layout, List.mem_append, List.mem_singleton] at hi
    rcases hi with ((rfl | hi) | hi) | rfl
    · trivial
    · exact (Stmt.layoutAll_drawn _ _ body i hi).mono fun t ht => by simp [Stmt.words, ht]
    · exact (hcond i hi).mono fun t ht => by simp [Stmt.words, ht]
    · trivial
  | eval e => exact Expr.layout_then_drawn r (List.subset_append_left _ _) trivial

theorem Stmt.layoutAll_drawn (loop : LoopLabels) (start : Nat) (body : List Stmt) :
    ∀ i ∈ Stmt.layoutAll r loop start body, i.DrawnFrom (Stmt.wordsAll body) := by
  cases body with
  | nil => exact nofun
  | cons s rest =>
    intro i hi
    rcases List.mem_append.1 hi with hi | hi
    · exact (s.layout_drawn loop start i hi).mono (List.subset_append_left _ _)
    · exact (Stmt.layoutAll_drawn loop _ rest i hi).mono (List.subset_append_right _ _)

end

/-- The instructions of a function are drawn from its words. -/
theorem FunctionDecl.layout_drawn (f : FunctionDecl) :
    ∀ i ∈ (f.layout r).code.toList, i.DrawnFrom f.words := by
  intro i hi
  rcases List.mem_append.1 hi with hi | hi
  · exact (Stmt.layoutAll_drawn r _ _ f.body i hi).mono fun t ht => by simp [words, ht]
  · simp only [List.mem_cons, List.not_mem_nil, or_false] at hi
    rcases hi with rfl | rfl
    · exact Or.inl rfl
    · trivial

end

/-! There are as many words as instructions, and as variables. -/

mutual

theorem Expr.length_words (e : Expr) : e.words.length = e.length := by
  cases e with
  | literal v => rfl
  | var id name => rfl
  | unary op operand => rw [Expr.words, List.length_cons, operand.length_words, Expr.length]
  | binary op left right =>
    rw [Expr.words, List.length_append, List.length_cons, left.length_words, right.length_words,
      Expr.length]
    omega
  | call f args => rw [Expr.words, List.length_cons, Expr.length_wordsAll args, Expr.length]

theorem Expr.length_wordsAll (es : List Expr) : (Expr.wordsAll es).length = Expr.lengthAll es := by
  cases es with
  | nil => rfl
  | cons e rest =>
    rw [Expr.wordsAll, List.length_append, e.length_words, Expr.length_wordsAll rest,
      Expr.lengthAll]

end

mutual

theorem Stmt.length_le_words (s : Stmt) : s.length ≤ s.words.length := by
  cases s with
  | declare names => exact Nat.zero_le _
  | ret value =>
    cases value with
    | none => exact Nat.le_refl _
    | some value => simp [Stmt.length, Stmt.words, Expr.length_words]
  | branch cond thenBody elseBody =>
    have hthen := Stmt.lengthAll_le_words thenBody
    have helse := Stmt.lengthAll_le_words elseBody
    simp only [Stmt.length, Stmt.words, List.length_cons, List.length_append, List.length_nil,
      Expr.length_words]
    omega
  | loop id cond body =>
    have hbody := Stmt.lengthAll_le_words body
    simp only [Stmt.length, Stmt.words, List.length_cons, List.length_append, List.length_nil,
      Expr.length_words]
    omega
  | _ => simp [Stmt.length, Stmt.words, Expr.length_words]

theorem Stmt.lengthAll_le_words (body : List Stmt) :
    Stmt.lengthAll body ≤ (Stmt.wordsAll body).length := by
  cases body with
  | nil => exact Nat.le_refl _
  | cons s rest =>
    have hs := s.length_le_words
    have hrest := Stmt.lengthAll_le_words rest
    rw [Stmt.lengthAll, Stmt.wordsAll, List.length_append]
    omega

end

/-- A function has no more instructions than words. -/
theorem FunctionDecl.length_le_words (f : FunctionDecl) : f.length ≤ f.words.length := by
  have hbody := Stmt.lengthAll_le_words f.body
  simp only [length, words, List.length_cons, List.length_append, List.length_nil]
  omega

theorem Stmt.length_declared_le_words (s : Stmt) : s.declared.length ≤ s.words.length := by
  cases s with
  | declare names =>
    simp only [Stmt.declared, Stmt.words, List.length_cons, List.length_append, List.length_map]
    omega
  | _ => exact Nat.zero_le _

theorem Stmt.length_block_le_words {s : Stmt} {b : Option Nat × List Stmt} (hb : b ∈ s.blocks) :
    (Stmt.wordsAll b.2).length ≤ s.words.length := by
  cases s with
  | branch cond thenBody elseBody =>
    simp only [Stmt.blocks, List.mem_cons, List.not_mem_nil, or_false] at hb
    rcases hb with rfl | rfl <;> simp only [Stmt.words, List.length_cons, List.length_append] <;>
      omega
  | loop id cond body =>
    simp only [Stmt.blocks, List.mem_cons, List.not_mem_nil, or_false] at hb
    subst hb
    simp only [Stmt.words, List.length_cons, List.length_append]
    omega
  | _ => cases hb

/-- What is declared on the way to a place is spelled on the way there. -/
theorem Within.live_add_words_le {scopes scopes' : List OpenScope} {block block' : List Stmt}
    (h : Within scopes block scopes' block') :
    (live scopes').length + (Stmt.wordsAll block').length ≤
      (live scopes).length + (Stmt.wordsAll block).length := by
  induction h with
  | start => exact Nat.le_refl _
  | @next scope outer s rest _ ih =>
    have hdeclared := s.length_declared_le_words
    rw [length_live_declare]
    rw [Stmt.wordsAll, List.length_append] at ih
    omega
  | @enter around s rest b _ hb ih =>
    have hblock := Stmt.length_block_le_words hb
    have hlive : live (⟨[], b.1⟩ :: around) = live around := by simp [live]
    rw [Stmt.wordsAll, List.length_append] at ih
    rw [hlive]
    omega

/-- At no place of a function are more variables live than it has words. -/
theorem FunctionDecl.Place.live_le_words {f : FunctionDecl} {scopes : List OpenScope}
    {block : List Stmt} (h : f.Place scopes block) : (live scopes).length ≤ f.words.length := by
  have hle := Within.live_add_words_le h
  simp only [live, FunctionDecl.words, List.length_cons, List.length_append, List.length_map,
    List.length_nil] at hle ⊢
  omega

/-! The words of a program. -/

theorem Item.words_sublist_of_mem {items : List Item} {f : FunctionDecl}
    (h : f ∈ items.filterMap Item.function?) : f.words.Sublist (items.flatMap Item.words) := by
  obtain ⟨item, hitem, hf⟩ := List.mem_filterMap.1 h
  cases item with
  | globals names => cases hf
  | function g =>
    cases hf
    exact List.sublist_flatten_of_mem (List.mem_map_of_mem hitem)

theorem Program.words_sublist {items : List Item} {f : FunctionDecl}
    (h : f ∈ (Program.ofItems items).functions) :
    f.words.Sublist (items.flatMap Item.words) := by
  have hwords : f.words ∈ (Program.ofItems items).functions.map FunctionDecl.words :=
    List.mem_map_of_mem h
  rw [Program.ofItems, FunctionDecl.map_words_numberAll] at hwords
  obtain ⟨g, hg, heq⟩ := List.mem_map.1 hwords
  rw [← heq]
  exact Item.words_sublist_of_mem hg

theorem Item.length_functions_le (items : List Item) :
    (items.filterMap Item.function?).length ≤ (items.flatMap Item.words).length := by
  induction items with
  | nil => exact Nat.le_refl _
  | cons item rest ih =>
    rw [List.flatMap_cons, List.length_append]
    cases item with
    | globals names =>
      simp only [List.filterMap_cons, Item.function?]
      omega
    | function f =>
      simp only [List.filterMap_cons, Item.function?, List.length_cons, Item.words,
        FunctionDecl.words]
      omega

theorem Program.length_functions_le (items : List Item) :
    (Program.ofItems items).functions.length ≤ (items.flatMap Item.words).length := by
  have hlength := congrArg List.length
    (FunctionDecl.map_words_numberAll 0 (items.filterMap Item.function?))
  rw [List.length_map, List.length_map] at hlength
  rw [Program.ofItems, hlength]
  exact Item.length_functions_le items

/-- There are no more global variables than words. -/
theorem Program.length_globalNames_le (items : List Item) :
    (Program.ofItems items).globalNames.length ≤ (items.flatMap Item.words).length := by
  show (items.filterMap Item.globals?).flatten.length ≤ _
  induction items with
  | nil => exact Nat.le_refl _
  | cons item rest ih =>
    rw [List.flatMap_cons, List.length_append]
    cases item with
    | globals names =>
      simp only [List.filterMap_cons, Item.globals?, List.flatten_cons, List.length_append,
        Item.words, List.length_cons, List.length_map]
      omega
    | function f =>
      simp only [List.filterMap_cons, Item.globals?]
      omega

end StackLang

import StackLang.Proofs.ParseSoundness

/-!
What the grammar spells is read. With enough room for nesting and enough turns for its loops, each
reader of the parser gives the tree of a derivation, if what follows the tokens cannot continue
them. A chain of operators is derived from the left and read by a loop: reading the first part of a
chain comes to the same as going on with the loop from its tree. Together with soundness this says
that the parser accepts exactly the grammar.
-/
namespace StackLang

namespace Parser

open Parsed

variable {budget room : Nat}

/-- The tokens do not continue an expression whose operators are of the level or tighter. -/
def EndsLevel (k : Nat) (rest : List Token) : Prop :=
  rest.head? ≠ some .lparen ∧ ∀ op, rest.head? = some (.operator op) → op.level < k

theorem EndsLevel.mono {k k' : Nat} {rest : List Token} (h : EndsLevel k rest) (hk : k ≤ k') :
    EndsLevel k' rest := by
  refine ⟨h.1, ?_⟩
  intro op hop
  have hlt := h.2 op hop
  omega

/-- These tokens end every expression. -/
theorem endsLevel_cons {t : Token} (ht : t = .comma ∨ t = .semicolon ∨ t = .rparen)
    (k : Nat) (rest : List Token) : EndsLevel k (t :: rest) := by
  rcases ht with rfl | rfl | rfl <;> exact ⟨nofun, nofun⟩

theorem endsLevel_further {es : List Expr} {ts : List Token}
    (h : (Phrase.furtherArgs es).Begins ts) (k : Nat) (rest : List Token) :
    EndsLevel k (ts ++ .rparen :: rest) := by
  rcases h with rfl | ⟨more, rfl⟩
  · exact endsLevel_cons (by simp) k rest
  · exact endsLevel_cons (by simp) k _

/-- The loop over the operators of a level, with a left operand already read. The level of operands
has none. -/
def loopAt (budget room k n : Nat) (e : Expr) : Parser Expr :=
  match levels.drop k with
  | [] => pure e
  | level :: tighter => foldWhile (joinNext level (climb budget (operand budget room) tighter)) n e

theorem loopAt_eq {k n : Nat} {level : List BinaryOp} {e : Expr}
    (hdrop : levels.drop k = level :: levels.drop (k + 1)) :
    loopAt budget room k n e = foldWhile
      (joinNext level (climb budget (operand budget room) (levels.drop (k + 1)))) n e := by
  unfold loopAt
  rw [hdrop]

theorem loopAt_of_le {k n : Nat} {e : Expr} (hk : operandLevel ≤ k) :
    loopAt budget room k n e = pure e := by
  unfold loopAt
  rw [List.drop_eq_nil_of_le hk]

theorem climb_eq {k : Nat} (hk : k < operandLevel) :
    climb budget (operand budget room) (levels.drop k) = (do
      let first ← climb budget (operand budget room) (levels.drop (k + 1))
      loopAt budget room k budget first) := by
  obtain ⟨level, hdrop, -⟩ := levels_drop hk
  unfold loopAt
  rw [hdrop]
  rfl

/-- Where no operator of the level follows, the loop is over. -/
theorem gives_loopAt_end {k n : Nat} {e : Expr} {c : Cursor} {rest : List Token}
    (hrest : EndsLevel k rest) (h : c.tokens = rest) :
    (loopAt budget room k n e c).Gives e rest := by
  by_cases hk : k < operandLevel
  · obtain ⟨level, hdrop, hlevel⟩ := levels_drop hk
    rw [loopAt_eq hdrop]
    cases n with
    | zero => exact gives_pure h
    | succ n =>
      have hnone : operatorOf level c.peek? = none := by
        cases hop : operatorOf level c.peek? with
        | none => rfl
        | some op =>
          obtain ⟨hpeek, hmem⟩ := operatorOf_eq_some hop
          rw [Cursor.peek?_eq, h] at hpeek
          have hlt := hrest.2 op hpeek
          have heq := (hlevel op).1 hmem
          omega
      unfold foldWhile joinNext
      rw [peek_bind, hnone]
      exact ⟨rfl, h⟩
  · rw [loopAt_of_le (by omega)]
    exact gives_pure h

/-- Where an operator of the level follows, the loop takes it with its right operand. -/
theorem gives_loopAt_next {n : Nat} {op : BinaryOp} {left right e : Expr} {c : Cursor}
    {mid rest rest' : List Token} (h : c.tokens = .operator op :: mid)
    (hright : ∀ next, next.tokens = mid →
      (climb budget (operand budget room) (levels.drop (op.level + 1)) next).Gives right rest)
    (hlater : ∀ next, next.tokens = rest →
      (loopAt budget room op.level n (.binary op left right) next).Gives e rest') :
    (loopAt budget room op.level (n + 1) left c).Gives e rest' := by
  have hk : op.level < operandLevel := by cases op <;> decide
  obtain ⟨level, hdrop, hlevel⟩ := levels_drop hk
  rw [loopAt_eq hdrop] at hlater ⊢
  have hop : operatorOf level c.peek? = some op := by
    rw [Cursor.peek?_of_tokens h, operatorOf, if_pos ((hlevel op).2 rfl)]
  obtain ⟨next, hrun, hnext⟩ := (hright c.advance (Cursor.tokens_advance_of h)).eq_ok
  have hstep : joinNext level (climb budget (operand budget room) (levels.drop (op.level + 1)))
      left c = .ok (some (.binary op left right)) next := by
    unfold joinNext
    rw [peek_bind, hop]
    exact bind_of_ok hrun
  unfold foldWhile
  rw [hstep]
  exact hlater next hnext

/-! Readers by their room. -/

def signed (budget : Nat) : (room : Nat) → Parser Expr
  | 0 => tooDeep
  | room + 1 => operand budget room

theorem operand_eq (budget room : Nat) :
    operand budget room = operandWith budget (signed budget room) (expression budget room) := by
  cases room <;> rfl

def further (budget : Nat) : (room : Nat) → Parser Stmt
  | 0 => tooDeep
  | room + 1 => statement budget room

theorem statement_eq (budget room : Nat) :
    statement budget room =
      statementWith budget (expression budget room) (block budget room) (further budget room) := by
  cases room <;> rfl

/-- With the depth of the derivation as room, the tokens are read as the phrase, whatever follows
them that does not continue them. -/
def Complete (budget d : Nat) (ts : List Token) : Phrase → Prop
  | .joined k e => ∀ room ≥ d, ∀ c rest, c.tokens = ts ++ rest → EndsLevel (k + 1) rest →
      ∀ e' rest', (∀ n next, next.tokens = rest → budget ≤ n + ts.length →
        (loopAt budget room k n e next).Gives e' rest') →
      (climb budget (operand budget room) (levels.drop k) c).Gives e' rest'
  | .whole e => ∀ room ≥ d, ∀ c rest, Cursor.tokens c = ts ++ rest → EndsLevel 0 rest →
      (expression budget room c).Gives e rest
  | .furtherArgs es => ∀ room ≥ d, ∀ c rest, c.tokens = ts ++ .rparen :: rest →
      Collects (commaNext (expression budget room)) ts.length es c (.rparen :: rest)
  | .block body => ∀ room ≥ d, ∀ c rest, Cursor.tokens c = ts ++ rest →
      (block budget room c).Gives body rest
  | .statements body => ∀ room ≥ d, ∀ c rest, c.tokens = ts ++ .rbrace :: rest →
      Collects (nextStatement (statement budget room)) ts.length body c (.rbrace :: rest)
  | .statement s => ∀ room ≥ d, ∀ c rest, Cursor.tokens c = ts ++ rest →
      rest.head? ≠ some (.keyword .elseWord) → (statement budget room c).Gives s rest
  | .otherwise body => ∀ room ≥ d, ∀ c rest, c.tokens = ts ++ rest →
      rest.head? ≠ some (.keyword .elseWord) →
      (elseBody (block budget room) (further budget room) c).Gives body rest
  | .items items => d ≤ maxNesting → ∀ c rest, c.tokens = ts ++ rest →
      (rest = [] ∨ rest.head? = some .eof) → Collects (item budget) ts.length items c rest

namespace Complete

variable {d : Nat} {ts : List Token}

/-- An expression of a level is parsed from the tokens that spell it, if what follows does not
continue it. -/
theorem gives {k : Nat} {e : Expr} {c : Cursor} {rest : List Token}
    (h : Complete budget d ts (.joined k e)) (hroom : d ≤ room) (hc : c.tokens = ts ++ rest)
    (hrest : EndsLevel k rest) :
    (climb budget (operand budget room) (levels.drop k) c).Gives e rest :=
  h room hroom c rest hc (hrest.mono (by omega)) e rest fun _ _ hnext _ =>
    gives_loopAt_end hrest hnext

/-- After an operand no loop follows. -/
theorem of_operand {e : Expr}
    (h : ∀ room ≥ d, ∀ c rest, c.tokens = ts ++ rest → rest.head? ≠ some .lparen →
      (operand budget room c).Gives e rest) :
    Complete budget d ts (.joined operandLevel e) := by
  intro room hroom c rest hc hrest e' rest' hlater
  obtain ⟨next, hrun, hnext⟩ := (h room hroom c rest hc hrest.1).eq_ok
  have hloop := hlater budget next hnext (by omega)
  rw [loopAt_of_le (Nat.le_refl _)] at hloop
  show (operand budget room c).Gives e' rest'
  rw [hrun]
  exact hloop

theorem gives_operand {e : Expr} {c : Cursor} {rest : List Token}
    (h : Complete budget d ts (.joined operandLevel e)) (hroom : d ≤ room)
    (hc : c.tokens = ts ++ rest) (hrest : rest.head? ≠ some .lparen) :
    (operand budget room c).Gives e rest := by
  refine h.gives hroom hc ⟨hrest, ?_⟩
  intro op hop
  cases op <;> decide

/-! Expressions. -/

theorem literal (v : Value) :
    Complete budget 0 [.literal v] (.joined operandLevel (.literal v)) := by
  apply of_operand
  intro room hroom c rest hc hrest
  rw [List.singleton_append] at hc
  rw [operand_eq]
  unfold operandWith
  rw [peek_bind, Cursor.peek?_of_tokens hc]
  exact gives_advance hc fun _ hnext => gives_pure hnext

theorem var (name : String) :
    Complete budget 0 [.ident name] (.joined operandLevel (.var 0 name)) := by
  apply of_operand
  intro room hroom c rest hc hrest
  rw [List.singleton_append] at hc
  rw [operand_eq]
  unfold operandWith
  rw [peek_bind, Cursor.peek?_of_tokens hc]
  apply gives_advance hc
  intro next hnext
  rw [peek_bind, if_neg (by rwa [Cursor.peek?_eq, hnext])]
  exact gives_pure hnext

/-- A name before an opening parenthesis is called with what is read between the parentheses. -/
theorem of_args {f : String} {args : List Expr}
    (h : ∀ room ≥ d, ∀ c rest, c.tokens = ts ++ rest →
      (parenthesized budget (expression budget room) c).Gives args rest)
    (hts : ts.head? = some .lparen) :
    Complete budget d (.ident f :: ts) (.joined operandLevel (.call f args)) := by
  apply of_operand
  intro room hroom c rest hc hrest
  rw [List.cons_append] at hc
  rw [operand_eq]
  unfold operandWith
  rw [peek_bind, Cursor.peek?_of_tokens hc]
  apply gives_advance hc
  intro next hnext
  obtain ⟨ts', rfl⟩ := List.head?_eq_some_iff.1 hts
  rw [peek_bind, if_pos (Cursor.peek?_of_tokens hnext)]
  exact gives_bind (h room hroom next rest hnext) fun _ hlast => gives_pure hlast

theorem parens {e : Expr} (h : Complete budget d ts (.whole e)) :
    Complete budget d (.lparen :: (ts ++ [.rparen])) (.joined operandLevel e) := by
  apply of_operand
  intro room hroom c rest hc hrest
  rw [List.cons_append, List.append_assoc, List.singleton_append] at hc
  rw [operand_eq]
  unfold operandWith
  rw [peek_bind, Cursor.peek?_of_tokens hc]
  apply gives_advance hc
  intro next hnext
  apply gives_bind (h room hroom next _ hnext (endsLevel_cons (by simp) _ _))
  intro after hafter
  exact gives_closing hafter

/-- Both signs take a level of nesting for their operand. -/
theorem sign {e : Expr} {t : Token} {op : UnaryOp}
    (ht : t = .operator .sub ∧ op = .neg ∨ t = .bang ∧ op = .not)
    (h : Complete budget d ts (.joined operandLevel e)) :
    Complete budget (d + 1) (t :: ts) (.joined operandLevel (.unary op e)) := by
  apply of_operand
  intro room hroom c rest hc hrest
  obtain ⟨room, rfl⟩ : ∃ n, room = n + 1 := ⟨room - 1, by omega⟩
  have hsigned : ∀ next : Cursor, next.tokens = ts ++ rest →
      ((do return .unary op (← signed budget (room + 1)) : Parser Expr) next).Gives
        (.unary op e) rest := by
    intro next hnext
    exact gives_bind (h.gives_operand (by omega) hnext hrest) fun _ hlast => gives_pure hlast
  rw [operand_eq]
  unfold operandWith
  rw [peek_bind, Cursor.peek?_of_tokens hc]
  rcases ht with ⟨rfl, rfl⟩ | ⟨rfl, rfl⟩
  · exact gives_advance hc hsigned
  · exact gives_advance hc hsigned

theorem tighter {k : Nat} {e : Expr} (hk : k < operandLevel)
    (h : Complete budget d ts (.joined (k + 1) e)) : Complete budget d ts (.joined k e) := by
  intro room hroom c rest hc hrest e' rest' hlater
  rw [climb_eq hk]
  apply gives_bind (h.gives hroom hc hrest)
  intro next hnext
  exact hlater budget next hnext (by omega)

/-- An operator joins an operand of its own level on the left with one of a tighter level on the
right. -/
theorem binary (op : BinaryOp) {left right : Expr} {d' : Nat} {ts' : List Token}
    (hbudget : (ts ++ .operator op :: ts').length ≤ budget)
    (hleft : Complete budget d ts (.joined op.level left))
    (hright : Complete budget d' ts' (.joined (op.level + 1) right)) :
    Complete budget (max d d') (ts ++ .operator op :: ts')
      (.joined op.level (.binary op left right)) := by
  intro room hroom c rest hc hrest e' rest' hlater
  rw [List.append_assoc, List.cons_append] at hc
  simp only [List.length_append, List.length_cons] at hbudget hlater
  have hop : EndsLevel (op.level + 1) (.operator op :: (ts' ++ rest)) := by
    refine ⟨nofun, ?_⟩
    intro op' hhead
    cases hhead
    omega
  apply hleft room (by omega) c _ hc hop
  intro n next hnext hn
  -- The loop has a turn left for this operator, since its tokens have not been counted yet.
  obtain ⟨n, rfl⟩ : ∃ m, n = m + 1 := ⟨n - 1, by omega⟩
  apply gives_loopAt_next hnext
  · intro after hafter
    exact hright.gives (by omega) hafter hrest
  · intro after hafter
    exact hlater n after hafter (by omega)

theorem whole {e : Expr} (h : Complete budget d ts (.joined 0 e)) :
    Complete budget (d + 1) ts (.whole e) := by
  intro room hroom c rest hc hrest
  obtain ⟨room, rfl⟩ : ∃ n, room = n + 1 := ⟨room - 1, by omega⟩
  exact h.gives (by omega) hc hrest

theorem callNone (f : String) :
    Complete budget 0 [.ident f, .lparen, .rparen] (.joined operandLevel (.call f [])) := by
  refine of_args ?_ rfl
  intro room hroom c rest hc
  exact gives_parenthesized_none hc

theorem call (f : String) {e : Expr} {es : List Expr} {d' : Nat} {ts' : List Token}
    (hbudget : ts'.length ≤ budget) (hts : (Phrase.whole e).Begins ts)
    (hts' : (Phrase.furtherArgs es).Begins ts') (h : Complete budget d ts (.whole e))
    (h' : Complete budget d' ts' (.furtherArgs es)) :
    Complete budget (max d d') (.ident f :: .lparen :: (ts ++ (ts' ++ [.rparen])))
      (.joined operandLevel (.call f (e :: es))) := by
  refine of_args ?_ rfl
  intro room hroom c rest hc
  rw [List.cons_append, List.append_assoc, List.append_assoc, List.singleton_append] at hc
  apply gives_parenthesized hc
  · obtain ⟨t, ts, rfl, ht⟩ := hts
    rintro ⟨rfl⟩
    cases ht
  · intro next hnext
    have hend := endsLevel_further hts' 0 rest
    exact gives_commaList (h room (by omega) next _ hnext hend)
      (fun after hafter => h' room (by omega) after rest hafter) hbudget

theorem noArg : Complete budget 0 [] (.furtherArgs []) := by
  intro room hroom c rest hc
  exact Collects.noComma hc nofun

theorem nextArg {e : Expr} {es : List Expr} {d' : Nat} {ts' : List Token}
    (hts' : (Phrase.furtherArgs es).Begins ts') (h : Complete budget d ts (.whole e))
    (h' : Complete budget d' ts' (.furtherArgs es)) :
    Complete budget (max d d') (.comma :: (ts ++ ts')) (.furtherArgs (e :: es)) := by
  intro room hroom c rest hc
  rw [List.cons_append, List.append_assoc] at hc
  have hend := endsLevel_further hts' 0 rest
  have hcollects := Collects.comma hc (fun next hnext => h room (by omega) next _ hnext hend)
    (fun after hafter => h' room (by omega) after rest hafter)
  refine hcollects.mono ?_
  simp only [List.length_cons, List.length_append]
  omega

end Complete

/-! Statements. -/

/-- The names after the first one. -/
theorem collects_names (role : NameRole) {names : List String} {c : Cursor} {rest : List Token}
    (hc : c.tokens = (names.flatMap fun next => [.comma, .ident next]) ++ rest)
    (hrest : rest.head? ≠ some .comma) :
    Collects (commaNext (name role)) names.length names c rest := by
  induction names generalizing c with
  | nil => exact Collects.noComma hc hrest
  | cons first more ih =>
    rw [List.flatMap_cons, List.append_assoc] at hc
    exact Collects.comma hc (fun next hnext => gives_name role hnext) fun after hafter => ih hafter

theorem gives_names (role role' : NameRole) {names : List String} {c : Cursor}
    {rest : List Token} (hc : c.tokens = Token.ofNames names ++ rest) (hne : names ≠ [])
    (hrest : rest.head? ≠ some .comma) (hbudget : names.length ≤ budget) :
    (commaList budget (name role) (name role') c).Gives names rest := by
  obtain ⟨first, more, rfl⟩ := List.exists_cons_of_ne_nil hne
  rw [List.length_cons] at hbudget
  exact gives_commaList (gives_name role hc)
    (fun next hnext => collects_names role' hnext hrest) (by omega)

theorem gives_declaration {names : List String} {c : Cursor} {rest : List Token}
    (hc : c.tokens = .keyword .declWord :: (Token.ofNames names ++ .semicolon :: rest))
    (hne : names ≠ []) (hbudget : names.length ≤ budget) :
    (declaration budget c).Gives names rest := by
  apply gives_bind (gives_expect hc)
  intro next hnext
  apply gives_bind (gives_names .variable .nextVariable hnext hne nofun hbudget)
  intro after hafter
  exact gives_closing hafter

theorem gives_params {params : List String} {c : Cursor} {rest : List Token}
    (hc : c.tokens = .lparen :: (Token.ofNames params ++ .rparen :: rest))
    (hbudget : params.length ≤ budget) :
    (parenthesized budget (name .parameter) c).Gives params rest := by
  by_cases hne : params = []
  · subst hne
    exact gives_parenthesized_none hc
  · apply gives_parenthesized hc
    · obtain ⟨first, more, rfl⟩ := List.exists_cons_of_ne_nil hne
      exact nofun
    · intro next hnext
      exact gives_names .parameter .parameter hnext hne nofun hbudget

theorem gives_condition {expr : Parser Expr} {cond : Expr} {c : Cursor} {inner rest : List Token}
    (hc : c.tokens = .lparen :: inner)
    (h : ∀ next, next.tokens = inner → (expr next).Gives cond (.rparen :: rest)) :
    (condition expr c).Gives cond rest := by
  apply gives_bind (gives_expect hc)
  intro next hnext
  apply gives_bind (h next hnext)
  intro after hafter
  exact gives_closing hafter

/-- After `else` the next token decides between a further condition and a block. -/
theorem elseBody_of_else {block : Parser (List Stmt)} {further : Parser Stmt} {c : Cursor}
    {ts : List Token} (hc : c.tokens = .keyword .elseWord :: ts) :
    elseBody block further c = if c.advance.peek? = some (.keyword .ifWord)
      then (do return [← further] : Parser (List Stmt)) c.advance else block c.advance := by
  unfold elseBody
  rw [peek_bind, if_pos (Cursor.peek?_of_tokens hc), advance_bind, peek_bind]
  split <;> rfl

theorem gives_elseBlock {block : Parser (List Stmt)} {further : Parser Stmt} {body : List Stmt}
    {c : Cursor} {ts rest : List Token} (hc : c.tokens = .keyword .elseWord :: .lbrace :: ts)
    (h : (block c.advance).Gives body rest) : (elseBody block further c).Gives body rest := by
  have hblock : c.advance.peek? ≠ some (.keyword .ifWord) := by
    rw [Cursor.peek?_of_tokens (Cursor.tokens_advance_of hc)]
    exact nofun
  rwa [elseBody_of_else hc, if_neg hblock]

theorem gives_elseIf {block : Parser (List Stmt)} {further : Parser Stmt} {s : Stmt}
    {c : Cursor} {ts rest : List Token}
    (hc : c.tokens = .keyword .elseWord :: .keyword .ifWord :: ts)
    (h : (further c.advance).Gives s rest) : (elseBody block further c).Gives [s] rest := by
  have hif := Cursor.peek?_of_tokens (Cursor.tokens_advance_of hc)
  rw [elseBody_of_else hc, if_pos hif]
  exact gives_bind h fun _ hlast => gives_pure hlast

theorem gives_braces {statement : Parser Stmt} {body : List Stmt} {c : Cursor} {turns : Nat}
    {mid rest : List Token} (hc : c.tokens = .lbrace :: mid) (hturns : turns ≤ budget)
    (h : ∀ next, next.tokens = mid →
      Collects (nextStatement statement) turns body next (.rbrace :: rest)) :
    (braces budget statement c).Gives body rest := by
  rw [braces_eq]
  apply gives_bind (gives_expect hc)
  intro next hnext
  apply gives_bind ((h next hnext).many hturns)
  intro stop hstop
  exact gives_closing hstop

/-- What begins like an expression is one, unless it is a name before an assignment. -/
theorem gives_eval {expr : Parser Expr} {block : Parser (List Stmt)} {further : Parser Stmt}
    {e : Expr} {t : Token} {c : Cursor} {ts rest : List Token} (hc : c.tokens = t :: ts)
    (ht : t.startsExpr = true) (hts : ts.head? ≠ some .assign)
    (h : (expr c).Gives e (.semicolon :: rest)) :
    (statementWith budget expr block further c).Gives (.eval e) rest := by
  have heval : ((do
      let e ← expr
      expect .semicolon
      return .eval e : Parser Stmt) c).Gives (.eval e) rest := by
    apply gives_bind h
    intro stop hstop
    exact gives_closing hstop
  have hnext : c.peekNext? ≠ some .assign := by rwa [Cursor.peekNext?_eq, hc, List.tail_cons]
  unfold statementWith
  rw [Cursor.peek?_of_tokens hc]
  cases t with
  | keyword word => cases ht
  | ident name =>
    dsimp only
    split
    · rename_i hassign
      exact absurd hassign hnext
    · exact heval
  | _ => exact heval

theorem head?_ne_assign {t : Token} {ts rest : List Token} (h : ∀ t' ∈ t :: ts, t' ≠ .assign) :
    (ts ++ .semicolon :: rest).head? ≠ some .assign := by
  cases ts with
  | nil => exact nofun
  | cons t' ts =>
    rintro ⟨rfl⟩
    exact h .assign (by simp) rfl

namespace Complete

variable {d : Nat} {ts : List Token}

theorem declare {names : List String} (hne : names ≠ []) (hbudget : names.length ≤ budget) :
    Complete budget 0 (.keyword .declWord :: (Token.ofNames names ++ [.semicolon]))
      (.statement (.declare names)) := by
  intro room hroom c rest hc helse
  rw [List.cons_append, List.append_assoc, List.singleton_append] at hc
  rw [statement_eq]
  unfold statementWith
  rw [Cursor.peek?_of_tokens hc]
  exact gives_map _ (gives_declaration hc hne hbudget)

theorem assign (name : String) {value : Expr} (h : Complete budget d ts (.whole value)) :
    Complete budget d (.ident name :: .assign :: (ts ++ [.semicolon]))
      (.statement (.assign 0 name value)) := by
  intro room hroom c rest hc helse
  rw [List.cons_append, List.cons_append, List.append_assoc, List.singleton_append] at hc
  have hnext : c.peekNext? = some .assign := by
    rw [Cursor.peekNext?_eq, hc, List.tail_cons, List.head?_cons]
  rw [statement_eq]
  unfold statementWith
  rw [Cursor.peek?_of_tokens hc, hnext]
  apply gives_advance hc
  intro after hafter
  apply gives_advance hafter
  intro start hstart
  apply gives_bind (h room hroom start _ hstart (endsLevel_cons (by simp) _ _))
  intro stop hstop
  exact gives_closing hstop

theorem retNothing :
    Complete budget 0 [.keyword .returnWord, .semicolon] (.statement (.ret none)) := by
  intro room hroom c rest hc helse
  rw [statement_eq]
  unfold statementWith
  rw [Cursor.peek?_of_tokens hc]
  apply gives_advance hc
  intro next hnext
  have hvalue : (returned (expression budget room) next).Gives none (.semicolon :: rest) := by
    unfold returned
    rw [peek_bind, if_pos (Cursor.peek?_of_tokens hnext)]
    exact gives_pure hnext
  apply gives_bind hvalue
  intro stop hstop
  exact gives_closing hstop

theorem ret {value : Expr} (hts : (Phrase.whole value).Begins ts)
    (h : Complete budget d ts (.whole value)) :
    Complete budget d (.keyword .returnWord :: (ts ++ [.semicolon]))
      (.statement (.ret (some value))) := by
  intro room hroom c rest hc helse
  rw [List.cons_append, List.append_assoc, List.singleton_append] at hc
  rw [statement_eq]
  unfold statementWith
  rw [Cursor.peek?_of_tokens hc]
  apply gives_advance hc
  intro next hnext
  have hvalue : (returned (expression budget room) next).Gives (some value)
      (.semicolon :: rest) := by
    have hsome : next.peek? ≠ some .semicolon := by
      obtain ⟨t, ts', rfl, ht⟩ := hts
      rw [Cursor.peek?_of_tokens hnext]
      rintro ⟨rfl⟩
      cases ht
    unfold returned
    rw [peek_bind, if_neg hsome]
    exact gives_bind (h room hroom next _ hnext (endsLevel_cons (by simp) _ _)) fun _ hlast =>
      gives_pure hlast
  apply gives_bind hvalue
  intro stop hstop
  exact gives_closing hstop

theorem leave : Complete budget 0 [.keyword .breakWord, .semicolon] (.statement (.leave 0)) := by
  intro room hroom c rest hc helse
  rw [statement_eq]
  unfold statementWith
  rw [Cursor.peek?_of_tokens hc]
  apply gives_advance hc
  intro next hnext
  exact gives_closing hnext

theorem again :
    Complete budget 0 [.keyword .continueWord, .semicolon] (.statement (.again 0)) := by
  intro room hroom c rest hc helse
  rw [statement_eq]
  unfold statementWith
  rw [Cursor.peek?_of_tokens hc]
  apply gives_advance hc
  intro next hnext
  exact gives_closing hnext

theorem branch {cond : Expr} {thenBody elseBody : List Stmt} {d' d'' : Nat}
    {ts' ts'' : List Token} (h : Complete budget d ts (.whole cond))
    (h' : Complete budget d' ts' (.block thenBody))
    (h'' : Complete budget d'' ts'' (.otherwise elseBody)) :
    Complete budget (max d (max d' d''))
      (.keyword .ifWord :: .lparen :: (ts ++ .rparen :: (ts' ++ ts'')))
      (.statement (.branch cond thenBody elseBody)) := by
  intro room hroom c rest hc helse
  simp only [List.cons_append, List.append_assoc] at hc
  rw [statement_eq]
  unfold statementWith
  rw [Cursor.peek?_of_tokens hc]
  apply gives_advance hc
  intro next hnext
  apply gives_bind (gives_condition hnext fun start hstart =>
    h room (by omega) start _ hstart (endsLevel_cons (by simp) _ _))
  intro after hafter
  apply gives_bind (h' room (by omega) after _ hafter)
  intro stop hstop
  apply gives_bind (h'' room (by omega) stop _ hstop helse)
  intro last hlast
  exact gives_pure hlast

theorem loop {cond : Expr} {body : List Stmt} {d' : Nat} {ts' : List Token}
    (h : Complete budget d ts (.whole cond)) (h' : Complete budget d' ts' (.block body)) :
    Complete budget (max d d') (.keyword .whileWord :: .lparen :: (ts ++ .rparen :: ts'))
      (.statement (.loop 0 cond body)) := by
  intro room hroom c rest hc helse
  simp only [List.cons_append, List.append_assoc] at hc
  rw [statement_eq]
  unfold statementWith
  rw [Cursor.peek?_of_tokens hc]
  apply gives_advance hc
  intro next hnext
  apply gives_bind (gives_condition hnext fun start hstart =>
    h room (by omega) start _ hstart (endsLevel_cons (by simp) _ _))
  intro after hafter
  exact gives_bind (h' room (by omega) after _ hafter) fun _ hlast => gives_pure hlast

theorem eval {e : Expr} (hts : (Phrase.whole e).Begins ts) (hallowed : ∀ t ∈ ts, t ≠ .assign)
    (h : Complete budget d ts (.whole e)) :
    Complete budget d (ts ++ [.semicolon]) (.statement (.eval e)) := by
  intro room hroom c rest hc helse
  rw [List.append_assoc, List.singleton_append] at hc
  obtain ⟨t, ts', rfl, ht⟩ := hts
  rw [statement_eq]
  exact gives_eval hc ht (head?_ne_assign hallowed)
    (h room hroom c _ hc (endsLevel_cons (by simp) _ _))

theorem noElse : Complete budget 0 [] (.otherwise []) := by
  intro room hroom c rest hc helse
  rw [List.nil_append] at hc
  unfold elseBody
  rw [peek_bind, if_neg (by rwa [Cursor.peek?_eq, hc])]
  exact gives_pure hc

theorem elseBlock {body : List Stmt} (hts : (Phrase.block body).Begins ts)
    (h : Complete budget d ts (.block body)) :
    Complete budget d (.keyword .elseWord :: ts) (.otherwise body) := by
  intro room hroom c rest hc helse
  obtain ⟨ts', rfl⟩ := hts
  exact gives_elseBlock hc (h room hroom c.advance rest (Cursor.tokens_advance_of hc))

theorem elseIf {s : Stmt} (hts : ts.head? = some (.keyword .ifWord))
    (h : Complete budget d ts (.statement s)) :
    Complete budget (d + 1) (.keyword .elseWord :: ts) (.otherwise [s]) := by
  intro room hroom c rest hc helse
  obtain ⟨room, rfl⟩ : ∃ n, room = n + 1 := ⟨room - 1, by omega⟩
  obtain ⟨ts', rfl⟩ := List.head?_eq_some_iff.1 hts
  exact gives_elseIf hc
    (h room (by omega) c.advance rest (Cursor.tokens_advance_of hc) helse)

theorem noStatement : Complete budget 0 [] (.statements []) := by
  intro room hroom c rest hc
  apply Collects.nil hc
  unfold nextStatement
  rw [if_pos (Cursor.peek?_of_tokens hc)]
  exact ⟨rfl, hc⟩

theorem nextStatement {s : Stmt} {body : List Stmt} {d' : Nat} {ts' : List Token}
    (hts : (Phrase.statement s).Begins ts) (hallowed : ∀ t ∈ ts, t ≠ .eof)
    (hts' : (Phrase.statements body).Begins ts') (h : Complete budget d ts (.statement s))
    (h' : Complete budget d' ts' (.statements body)) :
    Complete budget (max d d') (ts ++ ts') (.statements (s :: body)) := by
  intro room hroom c rest hc
  rw [List.append_assoc] at hc
  obtain ⟨t, more, rfl, ht⟩ := hts
  have hopen : c.peek? ≠ some .rbrace := by
    rw [Cursor.peek?_of_tokens hc]
    rintro ⟨rfl⟩
    cases ht
  have hnotEnd : ¬c.atEnd = true := by
    rw [Cursor.atEnd_iff, hc, List.cons_append, List.head?_cons]
    rintro (hnil | heof)
    · cases hnil
    · exact hallowed t List.mem_cons_self (Option.some.inj heof)
  have helse : (ts' ++ .rbrace :: rest).head? ≠ some (.keyword .elseWord) := by
    rcases hts' with rfl | ⟨t', more', rfl, ht'⟩
    · exact nofun
    · rintro ⟨rfl⟩
      cases ht'
  have hfirst : (Parser.nextStatement (statement budget room) c).Gives (some s)
      (ts' ++ .rbrace :: rest) := by
    unfold Parser.nextStatement
    rw [if_neg hopen, if_neg hnotEnd]
    exact gives_map some (h room (by omega) c _ hc helse)
  have hcollects := Collects.cons hfirst fun next hnext => h' room (by omega) next rest hnext
  refine hcollects.mono ?_
  simp only [List.length_append, List.length_cons]
  omega

theorem block {body : List Stmt} (hbudget : ts.length ≤ budget)
    (h : Complete budget d ts (.statements body)) :
    Complete budget (d + 1) (.lbrace :: (ts ++ [.rbrace])) (.block body) := by
  intro room hroom c rest hc
  rw [List.cons_append, List.append_assoc, List.singleton_append] at hc
  obtain ⟨room, rfl⟩ : ∃ n, room = n + 1 := ⟨room - 1, by omega⟩
  exact gives_braces hc hbudget fun next hnext => h room (by omega) next rest hnext

/-! Items. -/

theorem noItem : Complete budget 0 [] (.items []) := by
  intro hdepth c rest hc hend
  rw [List.nil_append] at hc
  apply Collects.nil hc
  unfold item
  rw [if_pos (c.atEnd_iff.2 (by rwa [hc]))]
  exact ⟨rfl, hc⟩

theorem globals {names : List String} {items : List Item} (hne : names ≠ [])
    (hbudget : names.length ≤ budget) (h : Complete budget d ts (.items items)) :
    Complete budget d (.keyword .declWord :: (Token.ofNames names ++ .semicolon :: ts))
      (.items (.globals names :: items)) := by
  intro hdepth c rest hc hend
  simp only [List.cons_append, List.append_assoc] at hc
  have hnotEnd : ¬c.atEnd = true := by simp [Cursor.atEnd_iff, hc]
  have hfirst : (item budget c).Gives (some (.globals names)) (ts ++ rest) := by
    unfold item
    rw [if_neg hnotEnd, Cursor.peek?_of_tokens hc]
    exact gives_map _ (gives_declaration hc hne hbudget)
  have hcollects := Collects.cons hfirst fun next hnext => h hdepth next rest hnext hend
  refine hcollects.mono ?_
  simp only [List.length_append, List.length_cons]
  omega

theorem function (name : String) (params : List String) {body : List Stmt} {items : List Item}
    {d' : Nat} {ts' : List Token} (hbudget : params.length ≤ budget)
    (h : Complete budget d ts (.block body)) (h' : Complete budget d' ts' (.items items)) :
    Complete budget (max d d')
      (.ident name :: .lparen :: (Token.ofNames params ++ .rparen :: (ts ++ ts')))
      (.items (.function ⟨name, params, body⟩ :: items)) := by
  intro hdepth c rest hc hend
  simp only [List.cons_append, List.append_assoc] at hc
  have hnotEnd : ¬c.atEnd = true := by simp [Cursor.atEnd_iff, hc]
  have hfunction : (Parser.function budget c).Gives ⟨name, params, body⟩ (ts' ++ rest) := by
    apply gives_bind (gives_name .function hc)
    intro next hnext
    apply gives_bind (gives_params hnext hbudget)
    intro after hafter
    exact gives_bind (h maxNesting (by omega) after _ hafter) fun _ hlast => gives_pure hlast
  have hfirst : (item budget c).Gives (some (.function ⟨name, params, body⟩)) (ts' ++ rest) := by
    unfold item
    rw [if_neg hnotEnd, Cursor.peek?_of_tokens hc]
    exact gives_map _ hfunction
  have hcollects := Collects.cons hfirst fun next hnext =>
    h' (by omega) next rest hnext hend
  refine hcollects.mono ?_
  simp only [List.length_append, List.length_cons]
  omega

end Complete

end Parser

/-- A run of tokens is read as the phrase that it spells, if the budget is as long as the run. -/
theorem Spells.complete {phrase : Phrase} {budget d : Nat} {ts : List Token}
    (h : Spells phrase d ts) (hbudget : ts.length ≤ budget) :
    Parser.Complete budget d ts phrase := by
  induction h with
  | literal v => exact .literal v
  | var name => exact .var name
  | callNone f => exact .callNone f
  | call f h h' ih ih' =>
    simp only [List.length_cons, List.length_append, List.length_nil] at hbudget
    exact .call f (by omega) h.begins h'.begins (ih (by omega)) (ih' (by omega))
  | parens _ ih =>
    simp only [List.length_cons, List.length_append, List.length_nil] at hbudget
    exact .parens (ih (by omega))
  | neg _ ih => exact .sign (.inl ⟨rfl, rfl⟩) (ih (Nat.le_of_succ_le hbudget))
  | not _ ih => exact .sign (.inr ⟨rfl, rfl⟩) (ih (Nat.le_of_succ_le hbudget))
  | tighter hlevel _ ih => exact .tighter hlevel (ih hbudget)
  | binary op _ _ ih ih' =>
    have hlength := hbudget
    simp only [List.length_append, List.length_cons] at hlength
    exact .binary op hbudget (ih (by omega)) (ih' (by omega))
  | whole _ ih => exact .whole (ih hbudget)
  | noArg => exact .noArg
  | nextArg _ h' ih ih' =>
    simp only [List.length_cons, List.length_append] at hbudget
    exact .nextArg h'.begins (ih (by omega)) (ih' (by omega))
  | @declare names hne =>
    have hnames := Token.length_le_ofNames names
    simp only [List.length_cons, List.length_append, List.length_nil] at hbudget
    exact .declare hne (by omega)
  | assign name _ ih =>
    simp only [List.length_cons, List.length_append, List.length_nil] at hbudget
    exact .assign name (ih (by omega))
  | retNothing => exact .retNothing
  | ret h ih =>
    simp only [List.length_cons, List.length_append, List.length_nil] at hbudget
    exact .ret h.begins (ih (by omega))
  | leave => exact .leave
  | again => exact .again
  | branch _ _ _ ih ih' ih'' =>
    simp only [List.length_cons, List.length_append] at hbudget
    exact .branch (ih (by omega)) (ih' (by omega)) (ih'' (by omega))
  | loop _ _ ih ih' =>
    simp only [List.length_cons, List.length_append] at hbudget
    exact .loop (ih (by omega)) (ih' (by omega))
  | eval h ih =>
    simp only [List.length_cons, List.length_append, List.length_nil] at hbudget
    exact .eval h.begins (fun t ht => (h.allows t ht).2) (ih (by omega))
  | noElse => exact .noElse
  | elseBlock h ih => exact .elseBlock h.begins (ih (Nat.le_of_succ_le hbudget))
  | elseIf h ih => exact .elseIf h.begins_branch (ih (Nat.le_of_succ_le hbudget))
  | noStatement => exact .noStatement
  | nextStatement h h' ih ih' =>
    rw [List.length_append] at hbudget
    exact .nextStatement h.begins h.allows h'.begins (ih (by omega)) (ih' (by omega))
  | block _ ih =>
    simp only [List.length_cons, List.length_append, List.length_nil] at hbudget
    exact .block (by omega) (ih (by omega))
  | noItem => exact .noItem
  | @globals names _ _ _ hne _ ih =>
    have hnames := Token.length_le_ofNames names
    simp only [List.length_cons, List.length_append] at hbudget
    exact .globals hne (by omega) (ih (by omega))
  | @function name params _ _ _ _ _ _ _ _ ih ih' =>
    have hparams := Token.length_le_ofNames params
    simp only [List.length_cons, List.length_append] at hbudget
    exact .function name params (by omega) (ih (by omega)) (ih' (by omega))

/-- Tokens that spell items within the nesting limit are parsed, and to those items. -/
theorem Program.ofTokens_of_spells {tokens : List Placed} {items : List Item}
    (h : SpellsWithin maxNesting (.items items) (sentence tokens)) :
    Program.ofTokens tokens = .ok (Program.ofItems items) := by
  let budget := (Cursor.ofTokens tokens).rest.length + 1
  obtain ⟨d, hd, hspells⟩ := h
  obtain ⟨rest, htokens, hrest⟩ := sentence_append_rest tokens
  have hlength : (sentence tokens).length ≤ budget := by
    have htotal := congrArg List.length htokens
    rw [List.length_map, List.length_append] at htotal
    show _ ≤ tokens.length + 1
    omega
  have hcollects := hspells.complete hlength hd (.ofTokens tokens) rest htokens hrest
  obtain ⟨next, hnext, -⟩ := (hcollects.many hlength).eq_ok
  have hparsed : Item.parseAll (.ofTokens tokens) = .ok items next := hnext
  rw [ofTokens, hparsed]

/-- The reader accepts exactly the sentences of the grammar with at most so many levels of nesting
open at once, up to the first end token, and gives the tree of the derivation, numbered. -/
theorem Program.ofTokens_eq_ok_iff (tokens : List Placed) (p : Program) :
    Program.ofTokens tokens = .ok p ↔
      ∃ items, SpellsWithin maxNesting (.items items) (sentence tokens) ∧
        p = Program.ofItems items := by
  constructor
  · exact Program.spells_of_ofTokens
  · rintro ⟨items, hspells, rfl⟩
    exact Program.ofTokens_of_spells hspells

end StackLang

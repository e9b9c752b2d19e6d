import StackLang.Tree.Parse

/-!
The grammar of programs, as a relation between runs of tokens and the trees that they spell. Binary
operators have six levels, and a level joins operands of the next one from the left. With a run goes
the depth of its derivation, the number of levels of nesting that are open at once: a block, a whole
expression, the operand of a sign and a chained condition open one each.
-/
namespace StackLang

def BinaryOp.level : BinaryOp → Nat
  | .or => 0
  | .and => 1
  | .eq | .ne => 2
  | .lt | .gt | .le | .ge => 3
  | .add | .sub => 4
  | .mul | .div => 5

def operandLevel : Nat := 6

/-- What a run of tokens can spell. -/
inductive Phrase
  /-- Operands joined by operators of the given level and of tighter ones. -/
  | joined (level : Nat) (e : Expr)
  | whole (e : Expr)
  /-- Expressions with a comma in front of each. -/
  | furtherArgs (es : List Expr)
  | block (body : List Stmt)
  | statements (body : List Stmt)
  | statement (s : Stmt)
  /-- What may follow the block of a condition. -/
  | otherwise (body : List Stmt)
  | items (items : List Item)

def Token.ofNames : List String → List Token
  | [] => []
  | name :: further => .ident name :: further.flatMap fun next => [.comma, .ident next]

/-- The tokens spell the phrase, by a derivation of the given depth. -/
inductive Spells : Phrase → (depth : Nat) → List Token → Prop
  | literal (v : Value) : Spells (.joined operandLevel (.literal v)) 0 [.literal v]
  | var (name : String) : Spells (.joined operandLevel (.var 0 name)) 0 [.ident name]
  | callNone (f : String) :
      Spells (.joined operandLevel (.call f [])) 0 [.ident f, .lparen, .rparen]
  | call (f : String) {e : Expr} {es : List Expr} {d d' : Nat} {ts ts' : List Token} :
      Spells (.whole e) d ts → Spells (.furtherArgs es) d' ts' →
      Spells (.joined operandLevel (.call f (e :: es))) (max d d')
        (.ident f :: .lparen :: (ts ++ (ts' ++ [.rparen])))
  | parens {e : Expr} {d : Nat} {ts : List Token} :
      Spells (.whole e) d ts →
      Spells (.joined operandLevel e) d (.lparen :: (ts ++ [.rparen]))
  | neg {e : Expr} {d : Nat} {ts : List Token} :
      Spells (.joined operandLevel e) d ts →
      Spells (.joined operandLevel (.unary .neg e)) (d + 1) (.operator .sub :: ts)
  | not {e : Expr} {d : Nat} {ts : List Token} :
      Spells (.joined operandLevel e) d ts →
      Spells (.joined operandLevel (.unary .not e)) (d + 1) (.bang :: ts)
  | tighter {level : Nat} {e : Expr} {d : Nat} {ts : List Token} :
      level < operandLevel → Spells (.joined (level + 1) e) d ts → Spells (.joined level e) d ts
  | binary (op : BinaryOp) {left right : Expr} {d d' : Nat} {ts ts' : List Token} :
      Spells (.joined op.level left) d ts → Spells (.joined (op.level + 1) right) d' ts' →
      Spells (.joined op.level (.binary op left right)) (max d d') (ts ++ .operator op :: ts')
  | whole {e : Expr} {d : Nat} {ts : List Token} :
      Spells (.joined 0 e) d ts → Spells (.whole e) (d + 1) ts
  | noArg : Spells (.furtherArgs []) 0 []
  | nextArg {e : Expr} {es : List Expr} {d d' : Nat} {ts ts' : List Token} :
      Spells (.whole e) d ts → Spells (.furtherArgs es) d' ts' →
      Spells (.furtherArgs (e :: es)) (max d d') (.comma :: (ts ++ ts'))
  | declare {names : List String} : names ≠ [] →
      Spells (.statement (.declare names)) 0
        (.keyword .declWord :: (Token.ofNames names ++ [.semicolon]))
  | assign (name : String) {value : Expr} {d : Nat} {ts : List Token} :
      Spells (.whole value) d ts →
      Spells (.statement (.assign 0 name value)) d
        (.ident name :: .assign :: (ts ++ [.semicolon]))
  | retNothing :
      Spells (.statement (.ret none)) 0 [.keyword .returnWord, .semicolon]
  | ret {value : Expr} {d : Nat} {ts : List Token} :
      Spells (.whole value) d ts →
      Spells (.statement (.ret (some value))) d (.keyword .returnWord :: (ts ++ [.semicolon]))
  | leave : Spells (.statement (.leave 0)) 0 [.keyword .breakWord, .semicolon]
  | again : Spells (.statement (.again 0)) 0 [.keyword .continueWord, .semicolon]
  | branch {cond : Expr} {thenBody elseBody : List Stmt} {d d' d'' : Nat}
      {ts ts' ts'' : List Token} :
      Spells (.whole cond) d ts → Spells (.block thenBody) d' ts' →
      Spells (.otherwise elseBody) d'' ts'' →
      Spells (.statement (.branch cond thenBody elseBody)) (max d (max d' d''))
        (.keyword .ifWord :: .lparen :: (ts ++ .rparen :: (ts' ++ ts'')))
  | loop {cond : Expr} {body : List Stmt} {d d' : Nat} {ts ts' : List Token} :
      Spells (.whole cond) d ts → Spells (.block body) d' ts' →
      Spells (.statement (.loop 0 cond body)) (max d d')
        (.keyword .whileWord :: .lparen :: (ts ++ .rparen :: ts'))
  | eval {e : Expr} {d : Nat} {ts : List Token} :
      Spells (.whole e) d ts → Spells (.statement (.eval e)) d (ts ++ [.semicolon])
  | noElse : Spells (.otherwise []) 0 []
  | elseBlock {body : List Stmt} {d : Nat} {ts : List Token} :
      Spells (.block body) d ts → Spells (.otherwise body) d (.keyword .elseWord :: ts)
  | elseIf {cond : Expr} {thenBody elseBody : List Stmt} {d : Nat} {ts : List Token} :
      Spells (.statement (.branch cond thenBody elseBody)) d ts →
      Spells (.otherwise [.branch cond thenBody elseBody]) (d + 1) (.keyword .elseWord :: ts)
  | noStatement : Spells (.statements []) 0 []
  | nextStatement {s : Stmt} {body : List Stmt} {d d' : Nat} {ts ts' : List Token} :
      Spells (.statement s) d ts → Spells (.statements body) d' ts' →
      Spells (.statements (s :: body)) (max d d') (ts ++ ts')
  | block {body : List Stmt} {d : Nat} {ts : List Token} :
      Spells (.statements body) d ts →
      Spells (.block body) (d + 1) (.lbrace :: (ts ++ [.rbrace]))
  | noItem : Spells (.items []) 0 []
  | globals {names : List String} {items : List Item} {d : Nat} {ts : List Token} :
      names ≠ [] → Spells (.items items) d ts →
      Spells (.items (.globals names :: items)) d
        (.keyword .declWord :: (Token.ofNames names ++ .semicolon :: ts))
  | function (name : String) (params : List String) {body : List Stmt} {items : List Item}
      {d d' : Nat} {ts ts' : List Token} :
      Spells (.block body) d ts → Spells (.items items) d' ts' →
      Spells (.items (.function ⟨name, params, body⟩ :: items)) (max d d')
        (.ident name :: .lparen :: (Token.ofNames params ++ .rparen :: (ts ++ ts')))

/-! How a phrase begins, and what cannot stand in it. -/

def Token.startsExpr : Token → Bool
  | .literal _ | .ident _ | .operator .sub | .bang | .lparen => true
  | _ => false

def Token.startsStmt : Token → Bool
  | .keyword .elseWord => false
  | .keyword _ => true
  | t => t.startsExpr

theorem Token.startsStmt_of_startsExpr {t : Token} (h : t.startsExpr = true) :
    t.startsStmt = true := by
  cases t with
  | keyword word => cases h
  | _ => exact h

theorem Token.mem_ofNames {names : List String} {t : Token} (h : t ∈ Token.ofNames names) :
    t = .comma ∨ ∃ name, t = .ident name := by
  cases names with
  | nil => cases h
  | cons name further =>
    simp only [ofNames, List.mem_cons, List.mem_flatMap, List.not_mem_nil, or_false] at h
    rcases h with rfl | ⟨next, -, rfl | rfl⟩
    · exact Or.inr ⟨name, rfl⟩
    · exact Or.inl rfl
    · exact Or.inr ⟨next, rfl⟩

theorem Token.length_le_ofNames (names : List String) :
    names.length ≤ (Token.ofNames names).length := by
  cases names with
  | nil => exact Nat.le_refl _
  | cons name further =>
    simp only [ofNames, List.length_cons, List.length_flatMap, List.length_nil, List.map_const',
      List.sum_replicate_nat]
    omega

namespace Phrase

def Begins (ts : List Token) : Phrase → Prop
  | .joined _ _ | .whole _ => ∃ t rest, ts = t :: rest ∧ t.startsExpr = true
  | .furtherArgs _ => ts = [] ∨ ∃ rest, ts = .comma :: rest
  | .block _ => ∃ rest, ts = .lbrace :: rest
  | .statement _ => ∃ t rest, ts = t :: rest ∧ t.startsStmt = true
  | .statements _ => ts = [] ∨ ∃ t rest, ts = t :: rest ∧ t.startsStmt = true
  | _ => True

/-- The token may stand in the phrase. An expression has no assignment in it. -/
def Allows (t : Token) : Phrase → Prop
  | .joined _ _ | .whole _ | .furtherArgs _ => t ≠ .eof ∧ t ≠ .assign
  | _ => t ≠ .eof

theorem Begins.append {ts : List Token} {level : Nat} {e : Expr}
    (h : (joined level e).Begins ts) (ts' : List Token) (e' : Expr) :
    (joined level e').Begins (ts ++ ts') := by
  obtain ⟨t, rest, rfl, ht⟩ := h
  exact ⟨t, rest ++ ts', rfl, ht⟩

end Phrase

namespace Spells

variable {phrase : Phrase} {d : Nat} {ts : List Token}

theorem begins (h : Spells phrase d ts) : phrase.Begins ts := by
  induction h with
  | literal | var | callNone | call | parens | neg | not => exact ⟨_, _, rfl, rfl⟩
  | tighter _ _ ih => exact ih
  | binary op _ _ ih => exact ih.append _ _
  | whole _ ih => exact ih
  | eval _ ih =>
    obtain ⟨t, rest, rfl, ht⟩ := ih
    exact ⟨t, rest ++ [.semicolon], rfl, Token.startsStmt_of_startsExpr ht⟩
  | declare | assign | retNothing | ret | leave | again | branch | loop => exact ⟨_, _, rfl, rfl⟩
  | noArg | noStatement => exact Or.inl rfl
  | nextArg => exact Or.inr ⟨_, rfl⟩
  | block => exact ⟨_, rfl⟩
  | nextStatement _ _ ih =>
    obtain ⟨t, rest, rfl, ht⟩ := ih
    exact Or.inr ⟨t, _, rfl, ht⟩
  | _ => trivial

/-- Only a condition begins with its keyword. -/
theorem isBranch {s : Stmt} (h : Spells (.statement s) d ts)
    (hhead : ts ≠ [] → ts.head? = some (.keyword .ifWord)) :
    ∃ cond thenBody elseBody, s = .branch cond thenBody elseBody := by
  cases h with
  | branch => exact ⟨_, _, _, rfl⟩
  | eval h =>
    obtain ⟨t, rest, rfl, ht⟩ := h.begins
    have ht' := hhead (by simp)
    rw [List.cons_append, List.head?_cons, Option.some.injEq] at ht'
    rw [ht'] at ht
    cases ht
  | _ => simp at hhead

theorem begins_branch {cond : Expr} {thenBody elseBody : List Stmt}
    (h : Spells (.statement (.branch cond thenBody elseBody)) d ts) :
    ts.head? = some (.keyword .ifWord) := by
  cases h
  rfl

theorem allows (h : Spells phrase d ts) : ∀ t ∈ ts, phrase.Allows t := by
  have hnames : ∀ names, ∀ t ∈ Token.ofNames names, t ≠ .eof := by
    intro names t ht
    rcases Token.mem_ofNames ht with rfl | ⟨name, rfl⟩ <;> nofun
  induction h with
  | _ =>
    simp only [Phrase.Allows, List.mem_cons, List.mem_append, List.not_mem_nil] at *
    grind

end Spells

def SpellsWithin (room : Nat) (phrase : Phrase) (ts : List Token) : Prop :=
  ∃ d ≤ room, Spells phrase d ts

end StackLang

import StackLang.Proofs.Readers

/-!
One reader that is asked for expressions again and again. It holds a list of tokens, how many of
them it has read, the place of the last one, and how many levels of nesting are open: a level is
opened before something is read in it, and closed behind it whether this was read or not. Step by
step it does what the readers do that are told how many levels are free. Hence a call leaves no
trace but the tokens that it took, and the next one is like the first call of a new reader.
-/
namespace StackLang

/-- The same tokens are left, and an error would be reported at the same place. -/
structure Cursor.Alike (c c' : Cursor) : Prop where
  rest : c.rest = c'.rest
  pos : c.pos = c'.pos

namespace Parsed

variable {α : Type}

def result : Parsed α → Except ParseError α
  | .ok a _ => .ok a
  | .failed e _ => .error e

def next : Parsed α → Cursor
  | .ok _ c => c
  | .failed _ c => c

end Parsed

/-- Tokens that are being read: how many were, the place of the last of these, and the levels of
nesting that are open. -/
structure Reading where
  tokens : List Placed
  pos : Nat
  last : Option Position
  depth : Nat

namespace Reading

def ofTokens (tokens : List Placed) : Reading := ⟨tokens, 0, none, 0⟩

def current? (r : Reading) : Option Placed := r.tokens[r.pos]?

def peek? (r : Reading) : Option Token := r.current?.map (·.token)

def place (r : Reading) : Position :=
  ((r.current?.map (·.pos)).or r.last).getD .start

def advance (r : Reading) : Reading :=
  match r.current? with
  | some placed => { r with pos := r.pos + 1, last := some placed.pos }
  | none => r

def cursor (r : Reading) : Cursor := ⟨r.tokens.drop r.pos, r.last⟩

end Reading

def Counting (α : Type) : Type := Reading → Except ParseError α × Reading

namespace Counting

variable {α β : Type}

instance : Monad Counting where
  pure a := fun r => (.ok a, r)
  bind p f := fun r =>
    match p r with
    | (.ok a, r) => f a r
    | (.error e, r) => (.error e, r)

def fail (fault : Option Token → ParseFault) : Counting α := fun r =>
  (.error ⟨fault r.peek?, r.place⟩, r)

def peek : Counting (Option Token) := fun r => (.ok r.peek?, r)

def advance : Counting Unit := fun r => (.ok (), r.advance)

/-- Opens a level for the reader, if one is free, and closes it in the end. -/
def nested (p : Counting α) : Counting α := fun r =>
  if maxNesting ≤ r.depth then fail (fun _ => .tooDeep) r
  else
    let (result, r) := p { r with depth := r.depth + 1 }
    (result, { r with depth := r.depth - 1 })

def expect (token : Token) : Counting Unit := do
  if (← peek) = some token then advance else fail (.expectedToken token)

def foldWhile (step : α → Counting (Option α)) : (budget : Nat) → α → Counting α
  | 0, a => pure a
  | budget + 1, a => do
    match ← step a with
    | some a' => foldWhile step budget a'
    | none => pure a

def many (budget : Nat) (item : Counting (Option β)) : Counting (List β) := do
  let collected ← foldWhile (fun done => do return (← item).map (· :: done)) budget []
  return collected.reverse

def commaList (budget : Nat) (item : Counting β) : Counting (List β) := do
  let head ← item
  let tail ← many budget do
    if (← peek) = some .comma then
      advance
      return some (← item)
    else return none
  return head :: tail

def parenthesized (budget : Nat) (item : Counting β) : Counting (List β) := do
  expect .lparen
  let items ← if (← peek) = some .rparen then pure [] else commaList budget item
  expect .rparen
  return items

def binary (budget : Nat) (operand : Counting Expr) : List (List BinaryOp) → Counting Expr
  | [] => operand
  | level :: tighter => do
    let first ← binary budget operand tighter
    foldWhile (fun left => do
      match Parser.operatorOf level (← peek) with
      | some op =>
        advance
        let right ← binary budget operand tighter
        return some (.binary op left right)
      | none => return none) budget first

def operandWith (budget : Nat) (signed whole : Counting Expr) : Counting Expr := do
  match ← peek with
  | some (.operator .sub) => advance; return .unary .neg (← signed)
  | some .bang => advance; return .unary .not (← signed)
  | some (.literal v) => advance; return .literal v
  | some (.ident name) =>
    advance
    if (← peek) = some .lparen then return .call name (← parenthesized budget whole)
    else return .var 0 name
  | some .lparen =>
    advance
    let e ← whole
    expect .rparen
    return e
  | _ => fail .expectedExpression

/-- An operand. No more than `turns` levels can be opened in it, as so many are free at most. -/
def operand (budget : Nat) : (turns : Nat) → Counting Expr
  | 0 => operandWith budget (nested (fail fun _ => .tooDeep)) (nested (fail fun _ => .tooDeep))
  | turns + 1 =>
    operandWith budget (nested (operand budget turns))
      (nested (binary budget (operand budget turns) Parser.levels))

end Counting

def Reading.expression : Counting Expr := fun r =>
  let budget := (r.tokens.length - r.pos) + 1
  Counting.nested (Counting.binary budget (Counting.operand budget maxNesting) Parser.levels) r

/-- The reading after so many calls for an expression, whatever these came to. -/
def Reading.afterCalls (r : Reading) : Nat → Reading
  | 0 => r
  | n + 1 => (r.afterCalls n).expression.2

def Cursor.afterCalls (c : Cursor) : Nat → Cursor
  | 0 => c
  | n + 1 => (Expr.parse (c.afterCalls n)).next

namespace Reading

variable (r : Reading)

theorem peek?_cursor : r.cursor.peek? = r.peek? := by
  rw [Cursor.peek?, cursor, List.head?_drop, peek?, current?]

theorem pos_cursor : r.cursor.pos = r.place := by
  unfold Cursor.pos place cursor current?
  rw [← List.head?_drop]
  cases r.tokens.drop r.pos with
  | cons placed rest => rfl
  | nil => cases r.last <;> rfl

theorem cursor_advance : r.advance.cursor = r.cursor.advance := by
  unfold advance Cursor.advance current?
  rw [← List.head?_drop]
  cases hdrop : r.tokens.drop r.pos with
  | cons placed rest =>
    have hrest : r.tokens.drop (r.pos + 1) = rest := by
      rw [← List.drop_drop, hdrop, List.drop_one, List.tail_cons]
    simp only [cursor, hdrop, hrest, List.head?_cons]
  | nil => simp only [cursor, hdrop, List.head?_nil]

end Reading

namespace Cursor.Alike

variable {c c' : Cursor}

theorem peek? (h : c.Alike c') : c.peek? = c'.peek? := by
  rw [Cursor.peek?, Cursor.peek?, h.rest]

theorem advance (h : c.Alike c') : c.advance.Alike c'.advance := by
  have hrest := h.rest
  unfold Cursor.advance
  cases hc : c.rest with
  | cons placed rest =>
    rw [hc] at hrest
    rw [← hrest]
    exact ⟨rfl, rfl⟩
  | nil =>
    rw [hc] at hrest
    rw [← hrest]
    exact h

end Cursor.Alike

namespace Counting

variable {α β : Type}

theorem bind_of_ok {q : Counting α} {g : α → Counting β} {r next : Reading} {a : α}
    (h : q r = (.ok a, next)) : (q >>= g) r = g a next := by
  simp only [Bind.bind, h]

theorem bind_of_error {q : Counting α} {g : α → Counting β} {r next : Reading} {e : ParseError}
    (h : q r = (.error e, next)) : (q >>= g) r = (.error e, next) := by
  simp only [Bind.bind, h]

end Counting

theorem Parser.foldWhile_succ {α : Type} (step : α → Parser (Option α)) (budget : Nat) (a : α) :
    foldWhile step (budget + 1) a =
      step a >>= fun found => found.elim (pure a) (foldWhile step budget) := by
  funext c
  rw [foldWhile]
  cases hstep : step a c with
  | ok found next =>
    rw [bind_of_ok hstep]
    cases found <;> simp only [hstep] <;> rfl
  | failed e next =>
    rw [bind_of_failed hstep]
    simp only [hstep]

/-- The second goes on where the first was: with the same tokens and open levels, and not behind
it. -/
structure Reading.Continues (r next : Reading) : Prop where
  tokens : next.tokens = r.tokens
  depth : next.depth = r.depth
  pos_le : r.pos ≤ next.pos
  pos_bound : next.pos ≤ next.tokens.length

namespace Reading.Continues

variable {r r' r'' : Reading}

theorem refl (h : r.pos ≤ r.tokens.length) : r.Continues r := ⟨rfl, rfl, Nat.le_refl _, h⟩

theorem trans (h : r.Continues r') (h' : r'.Continues r'') : r.Continues r'' where
  tokens := h'.tokens.trans h.tokens
  depth := h'.depth.trans h.depth
  pos_le := Nat.le_trans h.pos_le h'.pos_le
  pos_bound := h'.pos_bound

theorem advance (h : r.pos ≤ r.tokens.length) : r.Continues r.advance := by
  unfold Reading.advance Reading.current?
  cases htoken : r.tokens[r.pos]? with
  | none => exact refl h
  | some placed =>
    obtain ⟨hlt, -⟩ := List.getElem?_eq_some_iff.1 htoken
    exact ⟨rfl, rfl, Nat.le_succ _, hlt⟩

end Reading.Continues

/-- From the same place, and with the given number of levels free, both readers come to the same
result and to the same place, and all levels that were opened are closed again. -/
def Mirrors {α : Type} (room : Nat) (p : Parser α) (q : Counting α) : Prop :=
  ∀ (r : Reading) (c : Cursor), r.pos ≤ r.tokens.length → r.depth + room = maxNesting →
    c.Alike r.cursor →
    r.Continues (q r).2 ∧ (q r).1 = (p c).result ∧ (p c).next.Alike (q r).2.cursor

namespace Mirrors

variable {α β : Type} {room budget : Nat}

theorem pure (a : α) : Mirrors room (Pure.pure a) (Pure.pure a) :=
  fun _ _ hr _ hc => ⟨.refl hr, rfl, hc⟩

/-- Where both have succeeded, what follows starts from the same place again. -/
theorem bind {p : Parser α} {q : Counting α} {f : α → Parser β} {g : α → Counting β}
    (h : Mirrors room p q) (h' : ∀ a, Mirrors room (f a) (g a)) :
    Mirrors room (p >>= f) (q >>= g) := by
  intro r c hr hroom hc
  obtain ⟨hcont, hresult, hnext⟩ := h r c hr hroom hc
  cases hp : p c with
  | ok a c' =>
    rw [hp] at hresult hnext
    have hq : q r = (.ok a, (q r).2) := Prod.ext hresult rfl
    rw [Parser.bind_of_ok hp, Counting.bind_of_ok hq]
    rw [← hcont.depth] at hroom
    obtain ⟨hcont', hrest⟩ := h' a (q r).2 c' hcont.pos_bound hroom hnext
    exact ⟨hcont.trans hcont', hrest⟩
  | failed e c' =>
    rw [hp] at hresult hnext
    have hq : q r = (.error e, (q r).2) := Prod.ext hresult rfl
    rw [Parser.bind_of_failed hp, Counting.bind_of_error hq]
    exact ⟨hcont, rfl, hnext⟩

theorem peek : Mirrors room Parser.peek Counting.peek := by
  intro r c hr _ hc
  refine ⟨.refl hr, ?_, hc⟩
  show Except.ok r.peek? = .ok c.peek?
  rw [hc.peek?, r.peek?_cursor]

theorem advance : Mirrors room Parser.advance Counting.advance := by
  intro r c hr _ hc
  refine ⟨.advance hr, rfl, ?_⟩
  show c.advance.Alike r.advance.cursor
  rw [r.cursor_advance]
  exact hc.advance

theorem fail (fault : Option Token → ParseFault) :
    Mirrors room (Parser.fail fault : Parser α) (Counting.fail fault) := by
  intro r c hr _ hc
  refine ⟨.refl hr, ?_, hc⟩
  show Except.error (⟨fault r.peek?, r.place⟩ : ParseError) = .error ⟨fault c.peek?, c.pos⟩
  rw [hc.peek?, hc.pos, r.peek?_cursor, r.pos_cursor]

theorem ite {P : Prop} [Decidable P] {p p' : Parser α} {q q' : Counting α}
    (h : Mirrors room p q) (h' : Mirrors room p' q') :
    Mirrors room (if P then p else p') (if P then q else q') := by
  by_cases hP : P
  · rwa [if_pos hP, if_pos hP]
  · rwa [if_neg hP, if_neg hP]

theorem expect (token : Token) : Mirrors room (Parser.expect token) (Counting.expect token) :=
  peek.bind fun _ => ite advance (fail _)

theorem foldWhile {step : α → Parser (Option α)} {step' : α → Counting (Option α)}
    (h : ∀ a, Mirrors room (step a) (step' a)) (budget : Nat) (a : α) :
    Mirrors room (Parser.foldWhile step budget a) (Counting.foldWhile step' budget a) := by
  induction budget generalizing a with
  | zero => exact pure a
  | succ budget ih =>
    rw [Parser.foldWhile_succ]
    refine (h a).bind fun found => ?_
    cases found with
    | some a' => exact ih a'
    | none => exact pure a

theorem many {item : Parser (Option β)} {item' : Counting (Option β)}
    (h : Mirrors room item item') (budget : Nat) :
    Mirrors room (Parser.many budget item) (Counting.many budget item') := by
  refine (foldWhile (fun done => ?_) budget []).bind fun collected => pure _
  exact h.bind fun found => pure _

theorem commaList {item : Parser β} {item' : Counting β} (h : Mirrors room item item')
    (budget : Nat) :
    Mirrors room (Parser.commaList budget item item) (Counting.commaList budget item') := by
  refine h.bind fun head => (many ?_ budget).bind fun tail => pure (head :: tail)
  exact peek.bind fun _ => ite (advance.bind fun _ => h.bind fun _ => pure _) (pure none)

theorem parenthesized {item : Parser β} {item' : Counting β} (h : Mirrors room item item')
    (budget : Nat) :
    Mirrors room (Parser.parenthesized budget item) (Counting.parenthesized budget item') := by
  have hclose : ∀ items : List β, Mirrors room
      (do Parser.expect .rparen; return items) (do Counting.expect .rparen; return items) :=
    fun items => (expect _).bind fun _ => pure items
  refine (expect _).bind fun _ => peek.bind fun _ => ?_
  exact ite ((pure []).bind hclose) ((h.commaList budget).bind hclose)

/-- Operators are read level by level. -/
theorem binary {operand : Parser Expr} {operand' : Counting Expr}
    (h : Mirrors room operand operand') (budget : Nat) (levels : List (List BinaryOp)) :
    Mirrors room (Parser.climb budget operand levels) (Counting.binary budget operand' levels) := by
  induction levels with
  | nil => exact h
  | cons level tighter ih =>
    refine ih.bind fun first => foldWhile (fun left => peek.bind fun found => ?_) budget first
    cases Parser.operatorOf level found with
    | none => exact pure none
    | some op => exact advance.bind fun _ => ih.bind fun right => pure _

theorem operandWith {signed whole : Parser Expr} {signed' whole' : Counting Expr}
    (hsigned : Mirrors room signed signed') (hwhole : Mirrors room whole whole') (budget : Nat) :
    Mirrors room (Parser.operandWith budget signed whole)
      (Counting.operandWith budget signed' whole') := by
  have hsign : ∀ op, Mirrors room (do Parser.advance; return Expr.unary op (← signed))
      (do Counting.advance; return Expr.unary op (← signed')) :=
    fun op => advance.bind fun _ => hsigned.bind fun e => pure _
  refine peek.bind fun found => ?_
  cases found with
  | none => exact fail _
  | some t =>
    cases t with
    | literal v => exact advance.bind fun _ => pure _
    | bang => exact hsign .not
    | operator op =>
      cases op with
      | sub => exact hsign .neg
      | _ => exact fail _
    | ident name =>
      refine advance.bind fun _ => peek.bind fun _ => ?_
      exact ite ((hwhole.parenthesized budget).bind fun args => pure _) (pure _)
    | lparen =>
      exact advance.bind fun _ => hwhole.bind fun e => (expect _).bind fun _ => pure e
    | _ => exact fail _

/-- With no level free, none is opened. -/
theorem nested_tooDeep (q : Counting α) : Mirrors 0 Parser.tooDeep (Counting.nested q) := by
  intro r c hr hroom hc
  have hdepth : maxNesting ≤ r.depth := Nat.le_of_eq hroom.symm
  rw [Counting.nested, if_pos hdepth]
  exact fail _ r c hr hroom hc

/-- With a level free, one is opened, and closed again. -/
theorem nested {p : Parser α} {q : Counting α} (h : Mirrors room p q) :
    Mirrors (room + 1) p (Counting.nested q) := by
  intro r c hr hroom hc
  have hdepth : ¬maxNesting ≤ r.depth := by omega
  obtain ⟨hcont, hresult, hnext⟩ := h { r with depth := r.depth + 1 } c hr (by simp only; omega) hc
  rw [Counting.nested, if_neg hdepth]
  refine ⟨⟨hcont.tokens, ?_, hcont.pos_le, hcont.pos_bound⟩, hresult, hnext⟩
  exact congrArg (· - 1) hcont.depth

/-- The counting parser of an operand mirrors the one that has the rest of the depth, if it has
turns enough for it. -/
theorem operand (budget : Nat) {turns room : Nat} (h : room ≤ turns) :
    Mirrors room (Parser.operand budget room) (Counting.operand budget turns) := by
  induction turns generalizing room with
  | zero =>
    obtain rfl : room = 0 := Nat.le_zero.1 h
    exact operandWith (nested_tooDeep _) (nested_tooDeep _) budget
  | succ turns ih =>
    cases room with
    | zero => exact operandWith (nested_tooDeep _) (nested_tooDeep _) budget
    | succ room =>
      have hoperand := ih (Nat.le_of_succ_le_succ h)
      exact operandWith hoperand.nested (hoperand.binary budget Parser.levels).nested budget

end Mirrors

/-- A reading with no level open reads an expression as the parser does. -/
theorem Reading.expression_mirrors {r : Reading} {c : Cursor} (hr : r.pos ≤ r.tokens.length)
    (hdepth : r.depth = 0) (hc : c.Alike r.cursor) :
    r.Continues r.expression.2 ∧ r.expression.1 = (Expr.parse c).result ∧
      (Expr.parse c).next.Alike r.expression.2.cursor := by
  have hlength : c.rest.length = r.tokens.length - r.pos := by
    rw [hc.rest, Reading.cursor, List.length_drop]
  have hwhole : ∀ budget, Mirrors maxNesting (Parser.expression budget maxNesting)
      (Counting.nested (Counting.binary budget (Counting.operand budget maxNesting)
        Parser.levels)) := by
    intro budget
    exact ((Mirrors.operand budget (by decide)).binary budget Parser.levels).nested
  rw [Expr.parse, hlength]
  exact hwhole _ r c hr (by rw [hdepth, Nat.zero_add]) hc

/-- Whatever the calls came to, the reading and the parser are at the same place. -/
theorem Reading.afterCalls_alike (tokens : List Placed) (n : Nat) :
    (ofTokens tokens).Continues ((ofTokens tokens).afterCalls n) ∧
      ((Cursor.ofTokens tokens).afterCalls n).Alike ((ofTokens tokens).afterCalls n).cursor := by
  induction n with
  | zero => exact ⟨.refl (Nat.zero_le _), ⟨rfl, rfl⟩⟩
  | succ n ih =>
    obtain ⟨hcont, halike⟩ := ih
    obtain ⟨hnext, -, halike'⟩ := expression_mirrors hcont.pos_bound hcont.depth halike
    exact ⟨hcont.trans hnext, halike'⟩

/-- A new reading of the tokens that are left is at the same place, as long as there are some. -/
theorem Reading.alike_ofTokens_drop {r : Reading} (h : r.pos < r.tokens.length) :
    r.cursor.Alike (ofTokens (r.tokens.drop r.pos)).cursor := by
  unfold cursor ofTokens
  rw [List.drop_zero, List.drop_eq_getElem_cons h]
  exact ⟨rfl, rfl⟩

/-- After any number of calls for an expression, each of them read or refused, the next call leaves
as many levels open as there were, and has read on, but not beyond the tokens; and while there are
tokens left, it comes to what the first call of a new reading of these comes to. The calls of the
parser come to the same, leave the same tokens, and are like the first one there too. -/
theorem Reading.expression_as_fresh (tokens : List Placed) (n : Nat) :
    let r := (ofTokens tokens).afterCalls n
    let c := (Cursor.ofTokens tokens).afterCalls n
    (r.expression.2.depth = r.depth ∧ r.pos ≤ r.expression.2.pos ∧
      r.expression.2.pos ≤ tokens.length) ∧
    (r.pos < tokens.length →
      r.expression.1 = (ofTokens (tokens.drop r.pos)).expression.1 ∧
      (Expr.parse c).result = (Expr.parse (.ofTokens (tokens.drop r.pos))).result) ∧
    (Expr.parse c).result = r.expression.1 ∧ c.rest = tokens.drop r.pos := by
  intro r c
  obtain ⟨hcont, halike⟩ := afterCalls_alike tokens n
  have htokens : r.tokens = tokens := hcont.tokens
  obtain ⟨hnext, hresult, -⟩ := expression_mirrors hcont.pos_bound hcont.depth halike
  refine ⟨⟨hnext.depth, hnext.pos_le, ?_⟩, ?_, hresult.symm, ?_⟩
  · rw [← htokens, ← hnext.tokens]
    exact hnext.pos_bound
  · intro hleft
    rw [← htokens] at hleft ⊢
    -- One cursor is at the place of both readings, so both come to what the parser comes to there.
    have hfresh : r.cursor.Alike (ofTokens (r.tokens.drop r.pos)).cursor :=
      alike_ofTokens_drop hleft
    obtain ⟨-, hhere, -⟩ := expression_mirrors (r := r) hcont.pos_bound hcont.depth ⟨rfl, rfl⟩
    obtain ⟨-, hnew, -⟩ := expression_mirrors (Nat.zero_le _) rfl hfresh
    obtain ⟨-, hparser, -⟩ :=
      expression_mirrors (r := ofTokens (r.tokens.drop r.pos)) (Nat.zero_le _) rfl ⟨rfl, rfl⟩
    have hsame : r.expression.1 = (ofTokens (r.tokens.drop r.pos)).expression.1 := by
      rw [hhere, hnew]
    exact ⟨hsame, hresult.symm.trans (hsame.trans hparser)⟩
  · exact halike.rest.trans (congrArg (List.drop r.pos) htokens)

def signs : List Placed :=
  List.replicate 101 ⟨.operator .sub, ⟨1, 1⟩⟩ ++ [⟨.literal (.int 5), ⟨2, 1⟩⟩]

/-- The first call is refused for its nesting with one sign left, and the second reads this sign. -/
theorem Reading.expression_as_fresh_signs :
    (ofTokens signs).expression.1.toOption.isNone = true ∧
      ((ofTokens signs).afterCalls 1).pos < signs.length ∧
      ((ofTokens signs).afterCalls 1).expression.1 =
        (ofTokens (signs.drop ((ofTokens signs).afterCalls 1).pos)).expression.1 ∧
      ((ofTokens signs).afterCalls 1).expression.1 = .ok (.unary .neg (.literal (.int 5))) := by
  have hfails : (ofTokens signs).expression.1.toOption.isNone = true := by decide +kernel
  have hpos : ((ofTokens signs).afterCalls 1).pos = 100 := by decide +kernel
  have hleft : ((ofTokens signs).afterCalls 1).pos < signs.length := by
    rw [hpos]
    decide
  have hfresh := ((expression_as_fresh signs 1).2.1 hleft).1
  refine ⟨hfails, hleft, hfresh, ?_⟩
  rw [hfresh, hpos]
  rfl

end StackLang

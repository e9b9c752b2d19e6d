import StackLang.Token
import StackLang.Tree.Numbering

/-!
Reading tokens as a tree. Binary operators have six levels and associate to the left; blocks,
whole expressions, operands of a sign and chained conditions open a level of nesting each, and at
most a hundred may be open at once. The levels still free are an argument of each reader, so a
reader that fails leaves nothing behind but the place it reached.
-/
namespace StackLang

inductive NameRole
  | variable
  | nextVariable
  | function
  | parameter

def NameRole.description : NameRole → String
  | .variable => "variable name after 'decl'"
  | .nextVariable => "variable name after ','"
  | .function => "function name"
  | .parameter => "parameter name"

inductive ParseFault
  | expectedToken (token : Token) (found : Option Token)
  | expectedName (role : NameRole) (found : Option Token)
  | unexpectedItem (found : Option Token)
  | expectedExpression (found : Option Token)
  | unclosedBlock
  | tooDeep

/-- The most levels of nesting that a program may have open at once. -/
def maxNesting : Nat := 100

namespace ParseFault

def describe : Option Token → String
  | some token => "'" ++ token.spelling ++ "'"
  | none => "end of input"

def message : ParseFault → String
  | .expectedToken token found => "expected '" ++ token.spelling ++ "', found " ++ describe found
  | .expectedName role found => "expected " ++ role.description ++ ", found " ++ describe found
  | .unexpectedItem found => "unexpected token " ++ describe found ++ " in the global scope"
  | .expectedExpression found => "expected expression, found " ++ describe found
  | .unclosedBlock => "unexpected end of input, expected '\x7d'"
  | .tooDeep => "nesting deeper than " ++ Nat.repr maxNesting ++ " levels"

end ParseFault

structure ParseError where
  fault : ParseFault
  pos : Position

def ParseError.message (e : ParseError) : String := e.pos.display ++ ": " ++ e.fault.message

/-- The tokens still to be read, and the place of the last one that was. -/
structure Cursor where
  rest : List Placed
  last : Option Position

namespace Cursor

def ofTokens (tokens : List Placed) : Cursor := ⟨tokens, none⟩

def peek? (c : Cursor) : Option Token := c.rest.head?.map (·.token)

def peekNext? (c : Cursor) : Option Token := c.rest.tail.head?.map (·.token)

/-- The place that an error is reported at: the next token, else the last one read. -/
def pos (c : Cursor) : Position :=
  match c.rest, c.last with
  | placed :: _, _ => placed.pos
  | [], some p => p
  | [], none => .start

def advance (c : Cursor) : Cursor :=
  match c.rest with
  | placed :: rest => ⟨rest, some placed.pos⟩
  | [] => c

def atEnd (c : Cursor) : Bool :=
  match c.peek? with
  | none | some .eof => true
  | _ => false

end Cursor

/-- What a reader comes to, and the cursor it leaves, also when it fails. -/
inductive Parsed (α : Type)
  | ok (value : α) (next : Cursor)
  | failed (error : ParseError) (next : Cursor)

def Parser (α : Type) : Type := Cursor → Parsed α

namespace Parser

variable {α β : Type}

instance : Monad Parser where
  pure value := fun c => .ok value c
  bind p f := fun c =>
    match p c with
    | .ok value next => f value next
    | .failed e next => .failed e next

/-- Fails at the next token, of which the fault may speak. -/
def fail (fault : Option Token → ParseFault) : Parser α := fun c =>
  .failed ⟨fault c.peek?, c.pos⟩ c

def tooDeep : Parser α := fail fun _ => .tooDeep

def peek : Parser (Option Token) := fun c => .ok c.peek? c

def advance : Parser Unit := fun c => .ok () c.advance

def expect (token : Token) : Parser Unit := do
  if (← peek) = some token then advance else fail (.expectedToken token)

def name (role : NameRole) : Parser String := do
  match ← peek with
  | some (.ident name) => advance; pure name
  | _ => fail (.expectedName role)

/-- Repeats a step that carries a value, until the step says `none`, at most `budget` times. A
step that goes on reads at least one token, so one more than the tokens left is always enough. -/
def foldWhile (step : α → Parser (Option α)) : (budget : Nat) → α → Parser α
  | 0, a => pure a
  | budget + 1, a => fun c =>
    match step a c with
    | .ok (some a') next => foldWhile step budget a' next
    | .ok none next => .ok a next
    | .failed e next => .failed e next

def many (budget : Nat) (item : Parser (Option β)) : Parser (List β) := do
  let collected ← foldWhile (fun done => do return (← item).map (· :: done)) budget []
  return collected.reverse

def commaList (budget : Nat) (first next : Parser β) : Parser (List β) := do
  let head ← first
  let tail ← many budget do
    if (← peek) = some .comma then
      advance
      return some (← next)
    else return none
  return head :: tail

def parenthesized (budget : Nat) (item : Parser β) : Parser (List β) := do
  expect .lparen
  let items ← if (← peek) = some .rparen then pure [] else commaList budget item item
  expect .rparen
  return items

def levels : List (List BinaryOp) :=
  [[.or], [.and], [.eq, .ne], [.lt, .gt, .le, .ge], [.add, .sub], [.mul, .div]]

def operatorOf (level : List BinaryOp) : Option Token → Option BinaryOp
  | some (.operator op) => if op ∈ level then some op else none
  | _ => none

/-- Operands joined by operators of one level, grouped from the left. -/
def leftAssoc (budget : Nat) (level : List BinaryOp) (operand : Parser Expr) : Parser Expr := do
  let first ← operand
  foldWhile (fun left => do
    match operatorOf level (← peek) with
    | some op =>
      advance
      let right ← operand
      return some (.binary op left right)
    | none => return none) budget first

def climb (budget : Nat) (operand : Parser Expr) : List (List BinaryOp) → Parser Expr
  | [] => operand
  | level :: tighter => leftAssoc budget level (climb budget operand tighter)

/-- A signed operand, a literal, a variable, a call, or an expression in parentheses. The operand
of a sign and whole expressions have readers of their own. -/
def operandWith (budget : Nat) (signed whole : Parser Expr) : Parser Expr := do
  match ← peek with
  | some (.operator .sub) => advance; return .unary .neg (← signed)
  | some .bang => advance; return .unary .not (← signed)
  | some (.literal v) => advance; return .literal v
  | some (.ident name) =>
    advance
    if (← peek) = some .lparen then return .call name (← parenthesized budget whole)
    else return .var 0 name
  | some .lparen =>
    advance
    let e ← whole
    expect .rparen
    return e
  | _ => fail .expectedExpression

def operand (budget : Nat) : (room : Nat) → Cursor → Parsed Expr
  | 0, c => operandWith budget tooDeep tooDeep c
  | room + 1, c =>
    operandWith budget (operand budget room) (climb budget (operand budget room) levels) c

/-- A whole expression with `room` levels of nesting free, of which it takes one. -/
def expression (budget : Nat) : (room : Nat) → Cursor → Parsed Expr
  | 0, c => tooDeep c
  | room + 1, c => climb budget (operand budget room) levels c

def declaration (budget : Nat) : Parser (List String) := do
  expect (.keyword .declWord)
  let names ← commaList budget (name .variable) (name .nextVariable)
  expect .semicolon
  return names

def condition (expr : Parser Expr) : Parser Expr := do
  expect .lparen
  let cond ← expr
  expect .rparen
  return cond

def braces (budget : Nat) (statement : Parser Stmt) : Parser (List Stmt) := do
  expect .lbrace
  let body ← many budget fun c =>
    if c.peek? = some .rbrace then .ok none c
    else if c.atEnd then fail (fun _ => .unclosedBlock) c
    else (some <$> statement) c
  expect .rbrace
  return body

/-- What stands after `else`: a further condition as the only statement, or a block. -/
def elseBody (block : Parser (List Stmt)) (further : Parser Stmt) : Parser (List Stmt) := do
  if (← peek) = some (.keyword .elseWord) then
    advance
    if (← peek) = some (.keyword .ifWord) then return [← further] else block
  else return []

def returned (expr : Parser Expr) : Parser (Option Expr) := do
  if (← peek) = some .semicolon then return none else return some (← expr)

/-- A statement, given the readers of what it may hold: expressions, blocks, and a condition
chained to an earlier one. -/
def statementWith (budget : Nat) (expr : Parser Expr) (block : Parser (List Stmt))
    (further : Parser Stmt) : Parser Stmt := fun c =>
  match c.peek? with
  | some (.keyword .declWord) => (Stmt.declare <$> declaration budget) c
  | some (.keyword .ifWord) =>
    (do
      advance
      let cond ← condition expr
      let thenBody ← block
      let elseBody ← elseBody block further
      return .branch cond thenBody elseBody : Parser Stmt) c
  | some (.keyword .whileWord) =>
    (do
      advance
      let cond ← condition expr
      let body ← block
      return .loop 0 cond body : Parser Stmt) c
  | some (.keyword .returnWord) =>
    (do
      advance
      let value ← returned expr
      expect .semicolon
      return .ret value : Parser Stmt) c
  | some (.keyword .breakWord) =>
    (do
      advance
      expect .semicolon
      return .leave 0 : Parser Stmt) c
  | some (.keyword .continueWord) =>
    (do
      advance
      expect .semicolon
      return .again 0 : Parser Stmt) c
  | found =>
    match found, c.peekNext? with
    | some (.ident name), some .assign =>
      (do
        advance
        advance
        let value ← expr
        expect .semicolon
        return .assign 0 name value : Parser Stmt) c
    | _, _ =>
      (do
        let e ← expr
        expect .semicolon
        return .eval e : Parser Stmt) c

def statement (budget : Nat) : (room : Nat) → Cursor → Parsed Stmt
  | 0, c => statementWith budget (expression budget 0) tooDeep tooDeep c
  | room + 1, c =>
    statementWith budget (expression budget (room + 1)) (braces budget (statement budget room))
      (statement budget room) c

def block (budget : Nat) : (room : Nat) → Cursor → Parsed (List Stmt)
  | 0, c => tooDeep c
  | room + 1, c => braces budget (statement budget room) c

def function (budget : Nat) : Parser FunctionDecl := do
  let functionName ← name .function
  let params ← parenthesized budget (name .parameter)
  let body ← block budget maxNesting
  return ⟨functionName, params, body⟩

def item (budget : Nat) : Parser (Option Item) := fun c =>
  if c.atEnd then .ok none c
  else
    match c.peek? with
    | some (.keyword .declWord) => ((some ∘ Item.globals) <$> declaration budget) c
    | some (.ident _) => ((some ∘ Item.function) <$> function budget) c
    | _ => fail .unexpectedItem c

end Parser

def Expr.parse : Parser Expr := fun c =>
  Parser.expression (c.rest.length + 1) maxNesting c

/-- Reads all items of a text. What stands after the first end token is ignored. -/
def Item.parseAll : Parser (List Item) := fun c =>
  let budget := c.rest.length + 1
  Parser.many budget (Parser.item budget) c

def Program.ofTokens (tokens : List Placed) : Except ParseError Program :=
  match Item.parseAll (.ofTokens tokens) with
  | .ok items _ => .ok (.ofItems items)
  | .failed e _ => .error e

end StackLang

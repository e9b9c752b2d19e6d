import StackLang.Token
import StackLang.Text.Printable

/-!
Listings of tokens for people, one line each: the place, then either the category and the name of
the token with what it carries, or the spelling and the category. Colours follow the category.
-/
namespace StackLang.Token

open Text

structure ListingStyle where
  color : Bool
  pretty : Bool

def hex (n : Nat) : String := String.ofList (Nat.toDigits 16 n)

/-- A character as a listing shows it inside quotes: the common controls, the quote and the
backslash after a backslash, and one without a shape of its own by its number. -/
def showChar (c : Char) : String :=
  if c = '\x00' then "\\0"
  else if c = '\t' then "\\t"
  else if c = '\r' then "\\r"
  else if c = '\n' then "\\n"
  else if c = '"' then "\\\""
  else if c = '\\' then "\\\\"
  else if isPrintable c then c.toString
  else "\\u\x7b" ++ hex c.toNat ++ "\x7d"

def showString (s : String) : String :=
  "\"" ++ String.join (s.toList.map showChar) ++ "\""

def literalName : Value → String
  | .int n => "Integer(" ++ showInt n ++ ")"
  | .bool b => "Bool(" ++ (if b then "true" else "false") ++ ")"
  | .str s => "String(" ++ showString s ++ ")"
  | .nothing => "None"

def keywordName : Keyword → String
  | .ifWord => "If"
  | .elseWord => "Else"
  | .whileWord => "While"
  | .returnWord => "Return"
  | .breakWord => "Break"
  | .continueWord => "Continue"
  | .declWord => "Decl"

def operatorName : BinaryOp → String
  | .or => "OrOr"
  | .and => "AndAnd"
  | .eq => "Eq"
  | .ne => "NotEq"
  | .lt => "Lt"
  | .gt => "Gt"
  | .le => "LtEq"
  | .ge => "GtEq"
  | .add => "Plus"
  | .sub => "Minus"
  | .mul => "Star"
  | .div => "Slash"

def describe : Token → String
  | .literal v => literalName v
  | .ident name => "Ident(" ++ showString name ++ ")"
  | .keyword word => keywordName word
  | .operator op => operatorName op
  | .bang => "Bang"
  | .assign => "Assign"
  | .comma => "Comma"
  | .semicolon => "Semicolon"
  | .lparen => "LParen"
  | .rparen => "RParen"
  | .lbrace => "LBrace"
  | .rbrace => "RBrace"
  | .eof => "Eof"

def resetColor : String := "\x1b[0m"

def color : Token → String
  | .eof => "\x1b[2m"
  | .literal (.str _) => "\x1b[32m"
  | token =>
    match token.category with
    | .literal => "\x1b[36m"
    | .identifier => "\x1b[33m"
    | .operator => "\x1b[35m"
    | .keyword => "\x1b[34m"
    | .symbol => resetColor

def listingLine (style : ListingStyle) (placed : Placed) : String :=
  let token := placed.token
  let body :=
    if style.pretty then "(" ++ token.spelling ++ ", " ++ token.category.name ++ ")"
    else padEnd 10 token.category.name ++ " " ++ token.describe
  let shown := if style.color then token.color ++ body ++ resetColor else body
  "[" ++ showPadded 2 placed.pos.line ++ ":" ++ showPadded 2 placed.pos.col ++ "] " ++ shown ++ "\n"

def listing (style : ListingStyle) (tokens : List Placed) : String :=
  String.join (tokens.map (listingLine style))

end StackLang.Token

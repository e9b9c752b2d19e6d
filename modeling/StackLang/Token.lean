import StackLang.Operator
import StackLang.Position
import StackLang.Text.Quoted

/-!
Tokens, their categories and their spelling. The spelling of a token is the text that reads back
as that token; the end of the text counts as a symbol.
-/
namespace StackLang

inductive Keyword
  | ifWord
  | elseWord
  | whileWord
  | returnWord
  | breakWord
  | continueWord
  | declWord
  deriving DecidableEq

def Keyword.spelling : Keyword → String
  | .ifWord => "if"
  | .elseWord => "else"
  | .whileWord => "while"
  | .returnWord => "return"
  | .breakWord => "break"
  | .continueWord => "continue"
  | .declWord => "decl"

inductive Token
  | literal (value : Value)
  | ident (name : String)
  | keyword (word : Keyword)
  | operator (op : BinaryOp)
  | bang
  | assign
  | comma
  | semicolon
  | lparen
  | rparen
  | lbrace
  | rbrace
  | eof
  deriving DecidableEq

inductive Category
  | keyword
  | identifier
  | literal
  | symbol
  | operator
  deriving DecidableEq

def Category.name : Category → String
  | .keyword => "keyword"
  | .identifier => "identifier"
  | .literal => "literal"
  | .symbol => "symbol"
  | .operator => "operator"

namespace Token

def category : Token → Category
  | .literal _ => .literal
  | .ident _ => .identifier
  | .keyword _ => .keyword
  | .operator _ | .bang | .assign => .operator
  | .comma | .semicolon | .lparen | .rparen | .lbrace | .rbrace | .eof => .symbol

def spelling : Token → String
  | .literal (.str s) => Text.quote s
  | .literal v => v.display
  | .ident name => name
  | .keyword word => word.spelling
  | .operator op => op.symbol
  | .bang => "!"
  | .assign => "="
  | .comma => ","
  | .semicolon => ";"
  | .lparen => "("
  | .rparen => ")"
  | .lbrace => "\x7b"
  | .rbrace => "\x7d"
  | .eof => "EOF"

end Token

structure Placed where
  token : Token
  pos : Position
  deriving DecidableEq

end StackLang

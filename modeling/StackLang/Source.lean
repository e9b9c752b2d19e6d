import StackLang.Code.Generate
import StackLang.Token.Scan
import StackLang.Tree.Parse

/-!
From the text of a program to its table. Each stage has errors of its own, and the first one that
fails decides.
-/
namespace StackLang

inductive SourceError
  | scan (error : ScanError)
  | parse (error : ParseError)
  | scope (error : ScopeError)
  | generate (error : GenerateError)

namespace SourceError

def message : SourceError → String
  | .scan e => "lexer error at " ++ e.message
  | .parse e => "parse error at " ++ e.message
  | .scope e => "semantic error: " ++ e.message
  | .generate e => e.message

end SourceError

def Program.ofSource (source : String) : Except SourceError Program :=
  match Token.scan source with
  | .error e => .error (.scan e)
  | .ok tokens =>
    match Program.ofTokens tokens with
    | .error e => .error (.parse e)
    | .ok p => .ok p

def Program.compile (p : Program) : Except SourceError Table :=
  match p.resolve with
  | .error e => .error (.scope e)
  | .ok r =>
    match p.code r with
    | .error e => .error (.generate e)
    | .ok t => .ok t

def Table.ofSource (source : String) : Except SourceError Table := do
  (← Program.ofSource source).compile

end StackLang

import StackLang.Code.Listing
import StackLang.Code.Load
import StackLang.CommandLine.FileSystem
import StackLang.CommandLine.Help
import StackLang.Machine.Run
import StackLang.Source

/-!
What commands do. Every command reads one file; then it prints a listing, writes a file or runs a
table. An error is told as a chain, each link the cause of the one before it.
-/
namespace StackLang.CommandLine

def chain (links : List String) : String := ": ".intercalate links

/-- An error with the errors below it. Code generation has none below its own. -/
def sourceLinks (e : SourceError) : List String :=
  match e with
  | .scan inner => [e.message, inner.message]
  | .parse inner => [e.message, inner.message]
  | .scope inner => [e.message, inner.message]
  | .generate _ => [e.message]

def faultLinks (fault : Fault) (callStack : List String) : List String :=
  match fault with
  | .interaction (.failed reason) => [fault.report callStack, fault.message, reason]
  | _ => [fault.report callStack, fault.message]

def inFile (path : String) : String := "in '" ++ path ++ "'"

def cannotRead (path reason : String) : String :=
  chain ["cannot read '" ++ path ++ "'", reason]

def cannotWrite (path reason : String) : String :=
  chain ["cannot write '" ++ path ++ "'", reason]

inductive Action
  | print (text : String)
  | write (path : String) (bytes : List UInt8)
  | execute (table : Table)

namespace Command

def input : Command → String
  | .compile source _ _ => source
  | .exec bytecode => bytecode
  | .run source => source
  | .tokens source _ => source
  | .disasm bytecode => bytecode

def readSource (path : String) (bytes : List UInt8) : Except String String :=
  match Text.decodeUtf8? bytes with
  | some text => .ok text
  | none => .error (cannotRead path Console.notUtf8)

def compileFile (path : String) (bytes : List UInt8) : Except String Table := do
  let text ← readSource path bytes
  match Table.ofSource text with
  | .ok t => return t
  | .error e => .error (chain (inFile path :: sourceLinks e))

def loadFile (path : String) (bytes : List UInt8) : Except String Table :=
  match Table.load bytes with
  | .ok t => .ok t
  | .error e => .error (chain [inFile path, e.message])

def scanFile (path : String) (bytes : List UInt8) : Except String (List Placed) := do
  let text ← readSource path bytes
  match Token.scan text with
  | .ok placed => return placed
  | .error e => .error (chain [inFile path, e.message])

def action (c : Command) (bytes : List UInt8) : Except String Action :=
  match c with
  | .compile source output binary => do
    let t ← compileFile source bytes
    return .write output (if binary then t.toBytes else Text.encodeUtf8 t.text)
  | .exec bytecode => do return .execute (← loadFile bytecode bytes)
  | .run source => do return .execute (← compileFile source bytes)
  | .tokens source style => do return .print (Token.listing style (← scanFile source bytes))
  | .disasm bytecode => do return .print (← loadFile bytecode bytes).listing

end Command

structure Report where
  exitCode : Nat
  output : String
  error : Option String
  files : FileSystem

namespace Report

def success (output : String) (fs : FileSystem) : Report := ⟨0, output, none, fs⟩

def failure (output error : String) (fs : FileSystem) : Report :=
  ⟨1, output, some ("error: " ++ error ++ "\n"), fs⟩

end Report

/-- A command under way: a table that runs, or the report at the end. -/
inductive Job
  | executing (table : Table) (limits : Limits) (files : FileSystem) (turn : Turn Console)
  | finished (report : Report)

namespace Job

def ofTurn (t : Table) (limits : Limits) (fs : FileSystem) (turn : Turn Console) : Job :=
  match turn with
  | .running s w => .executing t limits fs (.running s w)
  | .halted (.ok _) _ w => .finished (.success w.output fs)
  | .halted (.error fault) s w =>
    .finished (.failure w.output (chain (faultLinks fault s.callStack)) fs)

def perform (limits : Limits) (fs : FileSystem) (input : List UInt8) : Action → Job
  | .print text => .finished (.success text fs)
  | .write path bytes =>
    match fs.write path bytes with
    | .ok fs => .finished (.success "" fs)
    | .error e => .finished (.failure "" (cannotWrite path e.message) fs)
  | .execute t => ofTurn t limits fs (t.start ⟨input, ""⟩)

def start (i : Invocation) (fs : FileSystem) (input : List UInt8) : Job :=
  match fs.read i.command.input with
  | .error e => .finished (.failure "" (cannotRead i.command.input e.message) fs)
  | .ok bytes =>
    match i.command.action bytes with
    | .error e => .finished (.failure "" e fs)
    | .ok action => perform i.limits fs input action

/-- Starts what the arguments ask for. Wrong ones are reported without a word of output. -/
def ofArguments (env : Environment) (args : List String) (fs : FileSystem) (input : List UInt8) :
    Job :=
  match Invocation.ofArguments env args with
  | .ok i => start i fs input
  | .error .version => .finished (.success versionText fs)
  | .error (.help command) => .finished (.success (helpText env command) fs)
  | .error (.misuse e) => .finished ⟨2, "", some ("error: " ++ e.message ++ "\n"), fs⟩

def advance (n : Nat) : Job → Job
  | .executing t limits fs turn => ofTurn t limits fs (turn.advance Console.handler t limits n)
  | .finished r => .finished r

end Job

end StackLang.CommandLine

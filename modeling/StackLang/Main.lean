import StackLang.CommandLine.Job

/-!
The program on a real console. It reads and writes real files, and answers each request of a
running table at once.
-/
namespace StackLang.CommandLine

/-- The number of an error. Some calls of the system give it with its sign changed. -/
def errorNumber (code : UInt32) : Nat :=
  if code.toNat < 0x80000000 then code.toNat else 0x100000000 - code.toNat

def errorCode? : IO.Error → Option UInt32
  | .noFileOrDirectory _ code _ => some code
  | .inappropriateType _ code _ => some code
  | .invalidArgument _ code _ => some code
  | _ => none

def describeError (e : IO.Error) : String :=
  let known := (errorCode? e).bind fun code =>
    FileError.all.find? (·.number = errorNumber code)
  match known with
  | some error => error.message
  | none => toString e

partial def readLineBytes (stdin : IO.FS.Stream) (line : List UInt8) : IO (List UInt8) := do
  match (← stdin.read 1).toList with
  | [] => return line.reverse
  | byte :: _ =>
    if byte = 10 then return (byte :: line).reverse else readLineBytes stdin (byte :: line)

def askConsole (prompt : String) : IO (Except InteractionError String) := do
  try
    let stdout ← IO.getStdout
    stdout.putStr prompt
    stdout.flush
    let line ← readLineBytes (← IO.getStdin) []
    return (Console.ask prompt ⟨line, ""⟩).1
  catch e => return .error (.failed (describeError e))

def tellConsole (text : String) : IO (Except InteractionError Unit) := do
  try
    IO.println text
    return .ok ()
  catch e => return .error (.failed (describeError e))

partial def runConsole (t : Table) (limits : Limits) (s : State) :
    IO (Except (Fault × State) Value) := do
  match s.step t limits with
  | .next s => runConsole t limits s
  | .done v _ => return .ok v
  | .fault f s => return .error (f, s)
  | .tell text s =>
    match ← tellConsole text with
    | .ok () => runConsole t limits (s.push .nothing)
    | .error e => return .error (.interaction e, s)
  | .ask prompt s =>
    match ← askConsole prompt with
    | .ok line => runConsole t limits (s.push (.str line))
    | .error e => return .error (.interaction e, s)

def executeTable (t : Table) (limits : Limits) : IO (Except String Unit) := do
  let result ← match t.start () with
    | .running s () => runConsole t limits s
    | .halted (.ok v) _ () => pure (.ok v)
    | .halted (.error f) s () => pure (.error (f, s))
  match result with
  | .ok _ => return .ok ()
  | .error (f, s) => return .error (chain (faultLinks f s.callStack))

def performAction (limits : Limits) : Action → IO (Except String Unit)
  | .print text => do
    IO.print text
    return .ok ()
  | .write path bytes => do
    try
      IO.FS.writeBinFile path ⟨bytes.toArray⟩
      return .ok ()
    catch e => return .error (cannotWrite path (describeError e))
  | .execute t => executeTable t limits

def performInvocation (i : Invocation) : IO (Except String Unit) := do
  let path := i.command.input
  let bytes : Except String (List UInt8) ←
    try
      pure (.ok (← IO.FS.readBinFile path).data.toList)
    catch e => pure (.error (cannotRead path (describeError e)))
  match bytes with
  | .error e => return .error e
  | .ok bytes =>
    match i.command.action bytes with
    | .error e => return .error e
    | .ok action => performAction i.limits action

end StackLang.CommandLine

open StackLang.CommandLine in
def main (args : List String) : IO UInt32 := do
  let env : Environment ← environmentVariables.filterMapM fun name => do
    return (← IO.getEnv name).map fun value => (name, value)
  match Invocation.ofArguments env args with
  | .error .version =>
    IO.print versionText
    return 0
  | .error (.help command) =>
    IO.print (helpText env command)
    return 0
  | .error (.misuse e) =>
    IO.eprintln ("error: " ++ e.message)
    return 2
  | .ok i =>
    match ← performInvocation i with
    | .ok () => return 0
    | .error e =>
      IO.eprintln ("error: " ++ e)
      return 1

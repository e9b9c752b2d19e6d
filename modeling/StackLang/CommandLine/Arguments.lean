import StackLang.Machine
import StackLang.Token.Listing

/-!
The arguments of the command line. A command has options of its own; options about limits and
verbosity may stand before the command as well as after it, where the one after it counts. The
environment stands in for a limit that is not given. An option is long, with its value after an
equals sign or as the next argument, or a letter, with its value right behind it or as the next
argument; letters may share a dash.
-/
namespace StackLang.CommandLine

/-- A path has a default, or else has to be given. A count may come from a variable of the
environment. -/
inductive OptionKind
  | flag
  | counter
  | path (default : Option String)
  | count (source : String)
  | version
  | help (command : Option String)
  deriving DecidableEq

structure OptionSpec where
  long : String
  short : Option Char
  kind : OptionKind
  about : String

def OptionSpec.takesValue (spec : OptionSpec) : Bool :=
  match spec.kind with
  | .path _ | .count _ => true
  | _ => false

def OptionSpec.isRequired (spec : OptionSpec) : Bool := spec.kind = .path none

inductive UsageError
  | unknownOption (arg : String)
  | unexpectedArgument (arg : String)
  | missingValue (option : String)
  | unexpectedValue (option : String)
  | badValue (option value : String)
  | repeated (option : String)
  | missingOption (option : String)
  | missingCommand
  | unknownCommand (word : String)

def UsageError.message : UsageError → String
  | .unknownOption arg => "unknown option '" ++ arg ++ "'"
  | .unexpectedArgument arg => "unexpected argument '" ++ arg ++ "'"
  | .missingValue option => "option '--" ++ option ++ "' needs a value"
  | .unexpectedValue option => "option '--" ++ option ++ "' takes no value"
  | .badValue option value => "'" ++ value ++ "' is no value for option '--" ++ option ++ "'"
  | .repeated option => "option '--" ++ option ++ "' is given more than once"
  | .missingOption option => "option '--" ++ option ++ "' is missing"
  | .missingCommand => "no command is given"
  | .unknownCommand word => "unknown command '" ++ word ++ "'"

/-- Why the arguments name nothing to be done: they ask about the program or about one of its
commands, or they are wrong. -/
inductive Stop
  | version
  | help (command : Option String)
  | misuse (error : UsageError)

abbrev Given := List (String × String)

namespace Given

def value? (given : Given) (option : String) : Option String := given.lookup option

def has (given : Given) (option : String) : Bool := (given.value? option).isSome

def isValue (kind : OptionKind) (value : String) : Bool :=
  match kind with
  | .path _ => !value.isEmpty
  | .count _ => (Text.readCount? value.toList).isSome
  | _ => true

/-- Notes an option. Only a counter may be given again. -/
def add (given : Given) (spec : OptionSpec) (value : String) : Except Stop Given :=
  match spec.kind with
  | .version => .error .version
  | .help command => .error (.help command)
  | kind =>
    if kind ≠ .counter ∧ given.has spec.long then .error (.misuse (.repeated spec.long))
    else if isValue kind value then .ok ((spec.long, value) :: given)
    else .error (.misuse (.badValue spec.long value))

end Given

def isOption (arg : String) : Bool :=
  match arg.toList with
  | '-' :: _ :: _ => true
  | _ => false

/-- Reads letters that share a dash. An option is left over if its value has to follow. -/
def readLetters (specs : List OptionSpec) (arg : String) (given : Given) :
    List Char → Except Stop (Given × Option OptionSpec)
  | [] => .ok (given, none)
  | c :: cs =>
    match specs.find? (·.short = some c) with
    | none => .error (.misuse (.unknownOption arg))
    | some spec =>
      if spec.takesValue then
        match cs with
        | [] => .ok (given, some spec)
        | '=' :: value => do return (← given.add spec (String.ofList value), none)
        | value => do return (← given.add spec (String.ofList value), none)
      else do
        let given ← given.add spec ""
        readLetters specs arg given cs

def readLong (specs : List OptionSpec) (arg : String) (given : Given) (text : List Char) :
    Except Stop (Given × Option OptionSpec) :=
  let long := String.ofList (text.takeWhile (· ≠ '='))
  match specs.find? (·.long = long), text.dropWhile (· ≠ '=') with
  | none, _ => .error (.misuse (.unknownOption arg))
  | some spec, [] =>
    -- The value has to be the next argument.
    if spec.takesValue then .ok (given, some spec)
    else do return (← given.add spec "", none)
  | some spec, _ :: value =>
    if spec.takesValue then do return (← given.add spec (String.ofList value), none)
    else .error (.misuse (.unexpectedValue spec.long))

def readOption (specs : List OptionSpec) (given : Given) (arg : String) :
    Option (Except Stop (Given × Option OptionSpec)) :=
  match arg.toList with
  | '-' :: '-' :: text => some (readLong specs arg given text)
  | '-' :: c :: cs => some (readLetters specs arg given (c :: cs))
  | _ => none

/-- Reads options up to the first argument that is none, and gives back the arguments from there
on. Two dashes alone end the options, and nothing may follow them. -/
def readOptions (specs : List OptionSpec) (given : Given) :
    List String → Except Stop (Given × List String)
  | [] => .ok (given, [])
  | "--" :: rest =>
    match rest with
    | [] => .ok (given, [])
    | arg :: _ => .error (.misuse (.unexpectedArgument arg))
  | arg :: rest =>
    match readOption specs given arg with
    | none => .ok (given, arg :: rest)
    | some (.error stop) => .error stop
    | some (.ok (given, none)) => readOptions specs given rest
    | some (.ok (given, some spec)) =>
      match rest with
      | [] => .error (.misuse (.missingValue spec.long))
      | value :: rest =>
        if isOption value then .error (.misuse (.missingValue spec.long))
        else do
          let given ← given.add spec value
          readOptions specs given rest

/-! ## Commands -/

inductive Command
  | compile (source output : String) (binary : Bool)
  | exec (bytecode : String)
  | run (source : String)
  | tokens (source : String) (style : Token.ListingStyle)
  | disasm (bytecode : String)

structure CommandSpec where
  word : String
  about : String
  options : List OptionSpec

def defaultOutput : String := "output.byte"

def sourceOption : OptionSpec := ⟨"source", some 's', .path none, ""⟩

def bytecodeOption : OptionSpec := ⟨"bytecode", some 'b', .path none, ""⟩

def commandSpecs : List CommandSpec :=
  [⟨"compile", "Compile source to bytecode",
    [sourceOption, ⟨"output", some 'o', .path (some defaultOutput), ""⟩,
     ⟨"binary", none, .flag, "Write the binary container instead of text"⟩]⟩,
   ⟨"exec", "Execute a bytecode file (text or binary)", [bytecodeOption]⟩,
   ⟨"run", "Compile and execute source without writing bytecode", [sourceOption]⟩,
   ⟨"tokens", "Show the token stream of a source file",
    [sourceOption, ⟨"no-color", none, .flag, ""⟩, ⟨"pretty", none, .flag, ""⟩]⟩,
   ⟨"disasm", "Print a readable listing of a bytecode file", [bytecodeOption]⟩]

def CommandSpec.find? (word : String) : Option CommandSpec := commandSpecs.find? (·.word = word)

/-- The options that may stand on both sides of the command. -/
def sharedOptions : List OptionSpec :=
  [⟨"verbose", some 'v', .counter, "More log output (-v debug, -vv trace)"⟩,
   ⟨"max-steps", none, .count "KINDLE_MAX_STEPS",
    "Abort after this many executed instructions"⟩,
   ⟨"max-call-depth", none, .count "KINDLE_MAX_CALL_DEPTH",
    "Maximum nesting of function calls"⟩]

def helpOption (command : Option String) : OptionSpec :=
  ⟨"help", some 'h', .help command, "Print help"⟩

def versionOption : OptionSpec := ⟨"version", some 'V', .version, "Print version"⟩

def outerOptions : List OptionSpec := sharedOptions ++ [helpOption none, versionOption]

def CommandSpec.allOptions (spec : CommandSpec) : List OptionSpec :=
  spec.options ++ sharedOptions ++ [helpOption (some spec.word)]

def Given.required (given : Given) (option : String) : Except UsageError String :=
  match given.value? option with
  | some value => .ok value
  | none => .error (.missingOption option)

def Command.ofGiven (word : String) (given : Given) : Except UsageError Command :=
  match word with
  | "compile" => do
    let output := (given.value? "output").getD defaultOutput
    return .compile (← given.required "source") output (given.has "binary")
  | "exec" => do return .exec (← given.required "bytecode")
  | "run" => do return .run (← given.required "source")
  | "tokens" => do
    return .tokens (← given.required "source") ⟨!given.has "no-color", given.has "pretty"⟩
  | "disasm" => do return .disasm (← given.required "bytecode")
  | _ => .error (.unknownCommand word)

/-! ## Limits -/

abbrev Environment := List (String × String)

def environmentVariables : List String :=
  sharedOptions.filterMap fun spec =>
    match spec.kind with
    | .count source => some source
    | _ => none

def Environment.valueFor? (env : Environment) (option : String) : Option String :=
  match (sharedOptions.find? (·.long = option)).map OptionSpec.kind with
  | some (.count source) => env.lookup source
  | _ => none

/-- The limit that one level of options sets. The environment stands in for it. -/
def levelCount (env : Environment) (given : Given) (option : String) :
    Except UsageError (Option Nat) :=
  match given.value? option, env.valueFor? option with
  | some value, _ => .ok (Text.readCount? value.toList)
  | none, none => .ok none
  | none, some value =>
    match Text.readCount? value.toList with
    | some n => .ok (some n)
    | none => .error (.badValue option value)

def sharedCount (env : Environment) (outer inner : Given) (option : String) :
    Except UsageError (Option Nat) := do
  let innerCount ← levelCount env inner option
  let outerCount ← levelCount env outer option
  return if inner.has option then innerCount else outerCount

def readLimits (env : Environment) (outer inner : Given) : Except UsageError Limits := do
  let maxSteps ← sharedCount env outer inner "max-steps"
  let maxCallDepth ← sharedCount env outer inner "max-call-depth"
  return { Limits.standard with
    maxSteps
    maxCallDepth := maxCallDepth.getD Limits.standard.maxCallDepth }

/-! ## Invocations -/

structure Invocation where
  limits : Limits
  command : Command

def misuse {α : Type} : Except UsageError α → Except Stop α
  | .ok a => .ok a
  | .error e => .error (.misuse e)

def readTopic : List String → Stop
  | [] => .help none
  | [word] =>
    if word = "help" then .help none
    else if (CommandSpec.find? word).isSome then .help (some word)
    else .misuse (.unknownCommand word)
  | word :: next :: _ =>
    if word = "help" ∨ (CommandSpec.find? word).isSome then .misuse (.unknownCommand next)
    else .misuse (.unknownCommand word)

def Invocation.ofArguments (env : Environment) (args : List String) : Except Stop Invocation := do
  let (outer, rest) ← readOptions outerOptions [] args
  match rest with
  | [] => .error (.misuse .missingCommand)
  | "help" :: topic => .error (readTopic topic)
  | word :: rest =>
    match CommandSpec.find? word with
    | none => .error (.misuse (.unknownCommand word))
    | some spec => do
      let (inner, rest) ← readOptions spec.allOptions [] rest
      match rest with
      | arg :: _ => .error (.misuse (.unexpectedArgument arg))
      | [] => do
        let command ← misuse (Command.ofGiven word inner)
        let limits ← misuse (readLimits env outer inner)
        return ⟨limits, command⟩

end StackLang.CommandLine

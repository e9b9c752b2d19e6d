import StackLang.CommandLine.Arguments

/-!
What the program says about itself and its commands: what each is for, how it is called, and its
options, each with the words on it below it.
-/
namespace StackLang.CommandLine

def programName : String := "kindle"

def versionText : String := programName ++ " 0.1.0\n"

def programAbout : String := "Compile and run Kindle programs on a stack bytecode VM"

namespace OptionSpec

def valueName (spec : OptionSpec) : String :=
  "<" ++ String.ofList (spec.long.toList.map fun c => if c = '-' then '_' else c.toUpper) ++ ">"

def usage (spec : OptionSpec) : String :=
  match spec.kind with
  | .path _ | .count _ => "--" ++ spec.long ++ " " ++ spec.valueName
  | .counter => "--" ++ spec.long ++ "..."
  | _ => "--" ++ spec.long

def fallback (env : Environment) (spec : OptionSpec) : String :=
  match spec.kind with
  | .count source => "[env: " ++ source ++ "=" ++ (env.lookup source).getD "" ++ "]"
  | .path (some default) => "[default: " ++ default ++ "]"
  | _ => ""

def helpLines (env : Environment) (spec : OptionSpec) : String :=
  let letter := match spec.short with
    | some c => "-" ++ c.toString ++ ", "
    | none => "    "
  let words := [spec.about, spec.fallback env].filter (!·.isEmpty)
  "  " ++ letter ++ spec.usage ++ "\n          " ++ " ".intercalate words ++ "\n"

/-- The order of options of one rank: by letter, else by name. -/
def sortKey (spec : OptionSpec) : String :=
  match spec.short with
  | some c => c.toLower.toString ++ (if c.isLower then "0" else "1")
  | none => spec.long

end OptionSpec

/-- Two lists of options in one: first those that are first in their list, and so on. -/
def interleave (own shared : List OptionSpec) : List OptionSpec :=
  let ranked := own.zipIdx ++ shared.zipIdx
  (ranked.mergeSort fun a b =>
    a.2 < b.2 || a.2 == b.2 && decide (a.1.sortKey ≤ b.1.sortKey)).map (·.1)

def optionsHelp (env : Environment) (options : List OptionSpec) : String :=
  "Options:\n" ++ String.join (options.map (·.helpLines env))

def helpAbout (about call body : String) : String :=
  about ++ "\n\nUsage: " ++ programName ++ " " ++ call ++ "\n\n" ++ body

namespace CommandSpec

def help (env : Environment) (spec : CommandSpec) : String :=
  let required := (spec.options.filter (·.isRequired)).map (·.usage)
  helpAbout spec.about (" ".intercalate (spec.word :: "[OPTIONS]" :: required))
    (optionsHelp env (interleave spec.options sharedOptions ++ [helpOption (some spec.word)]))

def helpLine (spec : CommandSpec) : String :=
  "  " ++ Text.padEnd 9 spec.word ++ spec.about ++ "\n"

end CommandSpec

def helpCommand : CommandSpec :=
  ⟨"help", "Print this message or the help of the given subcommand(s)", []⟩

def programHelp (env : Environment) : String :=
  helpAbout programAbout "[OPTIONS] <COMMAND>"
    ("Commands:\n" ++ String.join ((commandSpecs ++ [helpCommand]).map (·.helpLine)) ++ "\n" ++
      optionsHelp env outerOptions)

def helpText (env : Environment) (command : Option String) : String :=
  match command.bind CommandSpec.find? with
  | some spec => spec.help env
  | none => programHelp env

end StackLang.CommandLine

import StackLang.Text.Utf8

/-!
How a running program talks: it asks for a line, showing a prompt, and tells a line. A handler says
what becomes of each request in a world of its own. Two handlers are given: one follows a script and
records all that is said, the other reads and writes a console.
-/
namespace StackLang

inductive InteractionError
  | exhausted
  | failed (reason : String)

def InteractionError.message : InteractionError → String
  | .exhausted => "no more input available"
  | .failed reason => "I/O error: " ++ reason

structure Handler (σ : Type) where
  ask : String → σ → Except InteractionError String × σ
  tell : String → σ → Except InteractionError Unit × σ

/-- Lines to be read, and all prompts and outputs so far. A request fails when as many of its kind
are recorded as the script says. -/
structure Recording where
  inputs : List String
  prompts : Array String
  outputs : Array String
  failInputAt : Option Nat
  failOutputAt : Option Nat

namespace Recording

def ofInputs (inputs : List String) (failInputAt failOutputAt : Option Nat) : Recording :=
  ⟨inputs, #[], #[], failInputAt, failOutputAt⟩

/-- A prompt is recorded even if no line is left to answer it. -/
def ask (prompt : String) (r : Recording) : Except InteractionError String × Recording :=
  if r.failInputAt = some r.prompts.size then (.error (.failed "broken input"), r)
  else
    let r := { r with prompts := r.prompts.push prompt }
    match r.inputs with
    | [] => (.error .exhausted, r)
    | line :: rest => (.ok line, { r with inputs := rest })

def tell (text : String) (r : Recording) : Except InteractionError Unit × Recording :=
  if r.failOutputAt = some r.outputs.size then (.error (.failed "broken output"), r)
  else (.ok (), { r with outputs := r.outputs.push text })

def handler : Handler Recording := ⟨ask, tell⟩

end Recording

structure Console where
  input : List UInt8
  output : String

namespace Console

def notUtf8 : String := "stream did not contain valid UTF-8"

def stripLine (line : String) : String :=
  String.ofList (line.toList.reverse.dropWhile (· = '\r')).reverse

def takeLine (input : List UInt8) : List UInt8 × List UInt8 :=
  (input.takeWhile (· ≠ 10), (input.dropWhile (· ≠ 10)).tail)

def ask (prompt : String) (c : Console) : Except InteractionError String × Console :=
  let c := { c with output := c.output ++ prompt }
  if c.input.isEmpty then (.error .exhausted, c)
  else
    let (line, rest) := takeLine c.input
    let c := { c with input := rest }
    match Text.decodeUtf8? line with
    | some text => (.ok (stripLine text), c)
    | none => (.error (.failed notUtf8), c)

def tell (text : String) (c : Console) : Except InteractionError Unit × Console :=
  (.ok (), { c with output := c.output ++ text ++ "\n" })

def handler : Handler Console := ⟨ask, tell⟩

end Console

end StackLang

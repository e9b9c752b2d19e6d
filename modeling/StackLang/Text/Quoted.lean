/-!
Double-quoted text. A line feed, a tab, a carriage return, a backslash and a double quote are
written as a backslash and a letter; every other character stands for itself.
-/
namespace StackLang.Text

/-- The letter after the backslash, for a character that is written with one. -/
def escapeLetter : Char → Option Char
  | '\n' => some 'n'
  | '\t' => some 't'
  | '\r' => some 'r'
  | '\\' => some '\\'
  | '"' => some '"'
  | _ => none

def unescapeLetter : Char → Option Char
  | 'n' => some '\n'
  | 't' => some '\t'
  | 'r' => some '\r'
  | '\\' => some '\\'
  | '"' => some '"'
  | _ => none

theorem unescapeLetter_of_escapeLetter {c letter : Char} (h : escapeLetter c = some letter) :
    unescapeLetter letter = some c := by
  unfold escapeLetter at h
  split at h <;> cases h <;> rfl

def escape (c : Char) : List Char :=
  match escapeLetter c with
  | some letter => ['\\', letter]
  | none => [c]

def quote (s : String) : String :=
  String.ofList ('"' :: (s.toList.flatMap escape ++ ['"']))

inductive UnquoteError
  | notQuoted
  | unknownEscape (letter : Char)
  | danglingBackslash

/-- Undoes the escapes of the characters between two quotes. A bare quote stands for itself. -/
def unescape : List Char → Except UnquoteError (List Char)
  | [] => .ok []
  | ['\\'] => .error .danglingBackslash
  | '\\' :: letter :: rest =>
    match unescapeLetter letter with
    | some c => (unescape rest).map (c :: ·)
    | none => .error (.unknownEscape letter)
  | c :: rest => (unescape rest).map (c :: ·)

def betweenQuotes : List Char → Option (List Char)
  | '"' :: rest => if rest.getLast? = some '"' then some rest.dropLast else none
  | _ => none

def unquote (cs : List Char) : Except UnquoteError String :=
  match betweenQuotes cs with
  | none => .error .notQuoted
  | some inner => (unescape inner).map String.ofList

end StackLang.Text

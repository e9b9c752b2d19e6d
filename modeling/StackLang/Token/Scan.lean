import StackLang.Token
import StackLang.Text.Alphabetic
import StackLang.Text.Blank

/-!
Reading a text as tokens. Blanks and comments, which run from two slashes to the end of their
line, stand between tokens; a word, a number and an operator are as long as they can be. Every
token has its place, and so has every reason why a text has no tokens.
-/
namespace StackLang

inductive ScanFault
  | unknownEscape (letter : Char)
  | endInEscape
  | lineFeedInString
  | unterminatedString
  | malformedNumber (digits : String) (next : Char)
  | numberOutOfRange (digits : String)
  | unexpected (c : Char)

def ScanFault.message : ScanFault → String
  | .unknownEscape letter => "unknown escape sequence: \\" ++ letter.toString
  | .endInEscape => "unexpected EOF in escape sequence"
  | .lineFeedInString => "unterminated string (newline before closing quote)"
  | .unterminatedString => "unterminated string literal"
  | .malformedNumber digits next => "invalid number literal: " ++ digits ++ next.toString
  | .numberOutOfRange digits => "integer literal out of range: " ++ digits
  | .unexpected c => "unexpected character: '" ++ c.toString ++ "'"

structure ScanError where
  fault : ScanFault
  pos : Position

def ScanError.message (e : ScanError) : String := e.pos.display ++ ": " ++ e.fault.message

namespace Token

open Text

def isWordStart (c : Char) : Bool := c.isAlpha || c == '_'

def isWordChar (c : Char) : Bool := c.isAlphanum || c == '_'

def ofWord (word : String) : Token :=
  match word with
  | "TRUE" => .literal (.bool true)
  | "FALSE" => .literal (.bool false)
  | "NONE" => .literal .nothing
  | "if" => .keyword .ifWord
  | "else" => .keyword .elseWord
  | "while" => .keyword .whileWord
  | "return" => .keyword .returnWord
  | "break" => .keyword .breakWord
  | "continue" => .keyword .continueWord
  | "decl" => .keyword .declWord
  | _ => .ident word

/-- The longest token of punctuation at the head of the text, and how many characters it takes. -/
def punctuationAt? (text : List Char) : Option (Token × Nat) :=
  match text with
  | '=' :: '=' :: _ => some (.operator .eq, 2)
  | '!' :: '=' :: _ => some (.operator .ne, 2)
  | '<' :: '=' :: _ => some (.operator .le, 2)
  | '>' :: '=' :: _ => some (.operator .ge, 2)
  | '&' :: '&' :: _ => some (.operator .and, 2)
  | '|' :: '|' :: _ => some (.operator .or, 2)
  | '=' :: _ => some (.assign, 1)
  | '!' :: _ => some (.bang, 1)
  | '<' :: _ => some (.operator .lt, 1)
  | '>' :: _ => some (.operator .gt, 1)
  | '+' :: _ => some (.operator .add, 1)
  | '-' :: _ => some (.operator .sub, 1)
  | '*' :: _ => some (.operator .mul, 1)
  | '/' :: _ => some (.operator .div, 1)
  | ',' :: _ => some (.comma, 1)
  | ';' :: _ => some (.semicolon, 1)
  | '(' :: _ => some (.lparen, 1)
  | ')' :: _ => some (.rparen, 1)
  | '\x7b' :: _ => some (.lbrace, 1)
  | '\x7d' :: _ => some (.rbrace, 1)
  | _ => none

def skipTrivia (inComment : Bool) (p : Position) : List Char → Position × List Char
  | [] => (p, [])
  | c :: rest =>
    if inComment then skipTrivia (c ≠ '\n') (p.next c) rest
    else if isBlank c then skipTrivia false (p.next c) rest
    else if c = '/' ∧ rest.head? = some '/' then skipTrivia true (p.next c) rest
    else (p, c :: rest)

/-- Reads the characters of a string up to its closing quote. The characters already read come in
reverse, with the place where the string starts and the place reached. -/
def readString (start here : Position) (content : List Char) :
    List Char → Except ScanError (Token × Position × List Char)
  | [] => .error ⟨.unterminatedString, start⟩
  | ['\\'] => .error ⟨.endInEscape, here.next '\\'⟩
  | '\\' :: letter :: rest =>
    match unescapeLetter letter with
    | some c => readString start ((here.next '\\').next letter) (c :: content) rest
    | none => .error ⟨.unknownEscape letter, here.next '\\'⟩
  | '"' :: rest => .ok (.literal (.str (String.ofList content.reverse)), here.next '"', rest)
  | '\n' :: _ => .error ⟨.lineFeedInString, start⟩
  | c :: rest => readString start (here.next c) (c :: content) rest

/-- Reads the digits at the head of the text. A letter or an underscore may not follow them. -/
def readNumber (p : Position) (text : List Char) :
    Except ScanError (Token × Position × List Char) :=
  let digits := text.takeWhile Char.isDigit
  let rest := text.dropWhile Char.isDigit
  match rest.head?.filter fun c => isAlphabetic c || c == '_' with
  | some c => .error ⟨.malformedNumber (String.ofList digits) c, p⟩
  | none =>
    match readInt? digits with
    | some n => .ok (.literal (.int n), p.after digits, rest)
    | none => .error ⟨.numberOutOfRange (String.ofList digits), p⟩

def readWord (p : Position) (text : List Char) : Token × Position × List Char :=
  let word := text.takeWhile isWordChar
  (ofWord (String.ofList word), p.after word, text.dropWhile isWordChar)

/-- Reads the token that starts with the given character: the token, the place after it and the
rest of the text. -/
def readToken (p : Position) (c : Char) (cs : List Char) :
    Except ScanError (Token × Position × List Char) :=
  if c = '"' then readString p (p.next c) [] cs
  else if c.isDigit then readNumber p (c :: cs)
  else if isWordStart c then .ok (readWord p (c :: cs))
  else
    match punctuationAt? (c :: cs) with
    | some (token, width) =>
      .ok (token, p.after ((c :: cs).take width), (c :: cs).drop width)
    | none => .error ⟨.unexpected c, p⟩

theorem skipTrivia_length (inComment : Bool) (p : Position) (cs : List Char) :
    (skipTrivia inComment p cs).2.length ≤ cs.length := by
  induction cs generalizing inComment p with
  | nil => simp [skipTrivia]
  | cons c rest ih =>
    simp only [skipTrivia]
    have hrest : ∀ b q, (skipTrivia b q rest).2.length ≤ rest.length + 1 := fun b q =>
      Nat.le_succ_of_le (ih b q)
    split
    · exact hrest _ _
    · split
      · exact hrest _ _
      · split
        · exact hrest _ _
        · simp

theorem readString_length {start here : Position} {content cs : List Char}
    {token : Token} {q : Position} {rest : List Char}
    (h : readString start here content cs = .ok (token, q, rest)) :
    rest.length ≤ cs.length := by
  fun_induction readString start here content cs with
  | case1 | case2 | case4 | case6 => cases h
  | case3 here content letter tail c hc ih =>
    have := ih h
    simp only [List.length_cons]
    omega
  | case5 here content tail =>
    cases h
    simp
  | case7 here content c tail _ _ _ _ ih =>
    have := ih h
    simp only [List.length_cons]
    omega

theorem length_dropWhile_le (f : Char → Bool) (cs : List Char) :
    (cs.dropWhile f).length ≤ cs.length :=
  (List.dropWhile_suffix f).length_le

theorem readNumber_length {p : Position} {c : Char} {cs : List Char} {token : Token}
    {q : Position} {rest : List Char} (hc : c.isDigit = true)
    (h : readNumber p (c :: cs) = .ok (token, q, rest)) : rest.length ≤ cs.length := by
  unfold readNumber at h
  simp only [List.dropWhile_cons_of_pos hc] at h
  split at h
  · cases h
  · split at h
    · cases h
      exact length_dropWhile_le _ _
    · cases h

theorem width_pos_of_punctuationAt? {text : List Char} {token : Token} {width : Nat}
    (h : punctuationAt? text = some (token, width)) : 0 < width := by
  unfold punctuationAt? at h
  split at h <;> cases h <;> decide

theorem readToken_length {p : Position} {c : Char} {cs : List Char} {token : Token}
    {q : Position} {rest : List Char} (h : readToken p c cs = .ok (token, q, rest)) :
    rest.length ≤ cs.length := by
  unfold readToken at h
  split at h
  · exact readString_length h
  · split at h
    · rename_i hdigit
      exact readNumber_length hdigit h
    · split at h
      · rename_i hstart
        have hword : isWordChar c = true := by
          simp only [isWordStart, isWordChar, Char.isAlphanum, Bool.or_eq_true] at hstart ⊢
          rcases hstart with h | h
          · exact Or.inl (Or.inl h)
          · exact Or.inr h
        cases h
        rw [List.dropWhile_cons_of_pos hword]
        exact length_dropWhile_le _ _
      · split at h
        · rename_i found
          cases h
          have hpos := width_pos_of_punctuationAt? found
          simp only [List.length_drop, List.length_cons]
          omega
        · cases h

def scanFrom (p : Position) (cs : List Char) (done : List Placed) :
    Except ScanError (List Placed) :=
  match _hskip : skipTrivia false p cs with
  | (q, []) => .ok (⟨.eof, q⟩ :: done).reverse
  | (q, c :: rest) =>
    match _hread : readToken q c rest with
    | .error e => .error e
    | .ok (token, r, left) => scanFrom r left (⟨token, q⟩ :: done)
termination_by cs.length
decreasing_by
  have hskip := skipTrivia_length false p cs
  have hread := readToken_length _hread
  rw [_hskip] at hskip
  simp only [List.length_cons] at hskip
  omega

def scan (source : String) : Except ScanError (List Placed) :=
  scanFrom .start source.toList []

end Token

end StackLang

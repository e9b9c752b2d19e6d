import Mathlib.Data.List.TakeWhile
import StackLang.Proofs.ScannedTokens

/-!
How tokens are spelled in a text, said without the reader. A number, a word and a symbol are the
longest of their class at their place; a string ends with the first quote that is not escaped. The
reader finds a token just where one is spelled, and takes exactly its characters.
-/
namespace StackLang.Token

open Text

/-- The word belongs to the class, and nothing longer at its place does. -/
structure Longest (Class : List Char → Prop) (word rest : List Char) : Prop where
  belongs : Class word
  longest : ∀ longer, Class longer → longer <+: word ++ rest → longer.length ≤ word.length

/-- One or more characters of a kind. The first may have to be of a narrower kind. -/
def IsRun (first other : Char → Bool) (word : List Char) : Prop :=
  (∃ c, word.head? = some c ∧ first c = true) ∧ ∀ c ∈ word, other c = true

def IsNumeral : List Char → Prop := IsRun Char.isDigit Char.isDigit

def IsIdentifier : List Char → Prop := IsRun isWordStart isWordChar

/-- The tokens that are spelled like identifiers but are none. -/
def IsReserved (t : Token) : Prop :=
  t.category = .keyword ∨ t = .literal .nothing ∨ ∃ b, t = .literal (.bool b)

def IsPunctuation (t : Token) : Prop :=
  t.category = .operator ∨ t.category = .symbol ∧ t ≠ .eof

def IsSymbol (word : List Char) : Prop := ∃ t, IsPunctuation t ∧ t.spelling.toList = word

/-- The characters between the quotes of a string, and those that they stand for. -/
inductive Quotes : List Char → List Char → Prop
  | nil : Quotes [] []
  | plain {c : Char} {body content : List Char} : c ≠ '"' → c ≠ '\\' → c ≠ '\n' →
    Quotes body content → Quotes (c :: body) (c :: content)
  | escaped {letter c : Char} {body content : List Char} : unescapeLetter letter = some c →
    Quotes body content → Quotes ('\\' :: letter :: body) (c :: content)

/-- The word spells the token where the rest stands behind it. -/
inductive Lexeme : List Char → List Char → Token → Prop
  | string {body content rest : List Char} : Quotes body content →
    Lexeme ('"' :: (body ++ ['"'])) rest (.literal (.str (String.ofList content)))
  | number {word rest : List Char} : Longest IsNumeral word rest →
    (∀ c, rest.head? = some c → isAlphabetic c = false ∧ c ≠ '_') →
    InIntRange (Nat.ofDigitChars 10 word 0) →
    Lexeme word rest (.literal (.int (Nat.ofDigitChars 10 word 0)))
  | reserved {word rest : List Char} {t : Token} : Longest IsIdentifier word rest →
    IsReserved t → t.spelling.toList = word → Lexeme word rest t
  | ident {word rest : List Char} : Longest IsIdentifier word rest →
    (∀ t, IsReserved t → t.spelling.toList ≠ word) → Lexeme word rest (.ident (String.ofList word))
  | symbol {word rest : List Char} {t : Token} : Longest IsSymbol word rest →
    IsPunctuation t → t.spelling.toList = word → ¬ ['/', '/'] <+: word ++ rest →
    Lexeme word rest t

/-! Runs of characters. -/

section

variable {first other : Char → Bool} {word rest : List Char}

theorem takeWhile_append_of_stop (hword : ∀ c ∈ word, other c = true)
    (hrest : ∀ c, rest.head? = some c → other c = false) :
    (word ++ rest).takeWhile other = word ∧ (word ++ rest).dropWhile other = rest := by
  rw [List.takeWhile_append_of_pos hword, List.dropWhile_append_of_pos hword]
  cases rest with
  | nil => simp
  | cons c cs => simp [hrest c rfl]

/-- The longest run is the one that the next character does not continue. -/
theorem longest_isRun_iff :
    Longest (IsRun first other) word rest ↔
      IsRun first other word ∧ ∀ c, rest.head? = some c → other c = false := by
  constructor
  · intro h
    refine ⟨h.belongs, ?_⟩
    intro c hc
    rw [Bool.eq_false_iff]
    intro hother
    obtain ⟨cs, rfl⟩ := List.head?_eq_some_iff.1 hc
    obtain ⟨⟨d, hd, hfirst⟩, hall⟩ := h.belongs
    have hlonger : IsRun first other (word ++ [c]) := by
      refine ⟨⟨d, by rw [List.head?_append, hd, Option.some_or], hfirst⟩, ?_⟩
      intro e he
      rcases List.mem_append.1 he with he | he
      · exact hall e he
      · rw [List.mem_singleton.1 he]
        exact hother
    have hle := h.longest _ hlonger ⟨cs, by simp⟩
    rw [List.length_append, List.length_singleton] at hle
    omega
  · rintro ⟨hrun, hrest⟩
    refine ⟨hrun, ?_⟩
    rintro longer hlonger ⟨more, htext⟩
    have htake := congrArg (List.takeWhile other) htext
    rw [List.takeWhile_append_of_pos hlonger.2, (takeWhile_append_of_stop hrun.2 hrest).1] at htake
    rw [← htake, List.length_append]
    omega

/-- Taking characters as long as they are of the kind gives the longest run. -/
theorem longest_takeWhile {text : List Char} {c : Char} (hc : text.head? = some c)
    (hfirst : first c = true) (hother : other c = true) :
    Longest (IsRun first other) (text.takeWhile other) (text.dropWhile other) := by
  obtain ⟨cs, rfl⟩ := List.head?_eq_some_iff.1 hc
  rw [longest_isRun_iff]
  refine ⟨⟨⟨c, by rw [List.takeWhile_cons_of_pos hother]; rfl, hfirst⟩, ?_⟩, ?_⟩
  · intro d hd
    exact List.all_eq_true.1 List.all_takeWhile d hd
  · intro d hd
    have hnot := List.head?_dropWhile_not other (c :: cs)
    rw [hd] at hnot
    exact hnot

end

/-! Strings. -/

section

variable {start here q : Position} {content body more cs rest : List Char} {t : Token}

theorem readString_of_quotes (h : Quotes body more) (start here : Position)
    (content rest : List Char) :
    readString start here content (body ++ '"' :: rest) =
      .ok (.literal (.str (String.ofList (content.reverse ++ more))),
        (here.after body).next '"', rest) := by
  induction h generalizing here content with
  | nil =>
    rw [List.nil_append, readString, List.append_nil, Position.after_nil]
  | @plain c body more hquote hslash hline _ ih =>
    rw [List.cons_append, readString]
    · rw [ih]
      simp
    · exact fun hc _ => hslash hc
    · exact fun _ _ hc _ => hslash hc
    · exact hquote
    · exact hline
  | escaped hletter _ ih =>
    rw [List.cons_append, List.cons_append, readString]
    simp only [hletter]
    rw [ih]
    simp

theorem quotes_of_readString (h : readString start here content cs = .ok (t, q, rest)) :
    ∃ body more, cs = body ++ '"' :: rest ∧ Quotes body more ∧
      t = .literal (.str (String.ofList (content.reverse ++ more))) ∧
      q = (here.after body).next '"' := by
  fun_induction readString start here content cs with
  | case1 | case2 | case4 | case6 => cases h
  | case3 here content letter tail c hc ih =>
    obtain ⟨body, more, rfl, hquotes, rfl, rfl⟩ := ih h
    exact ⟨'\\' :: letter :: body, c :: more, rfl, .escaped hc hquotes, by simp, rfl⟩
  | case5 here content tail =>
    cases h
    exact ⟨[], [], rfl, .nil, by simp, rfl⟩
  | case7 here content c tail hend hescape hquote hline ih =>
    obtain ⟨body, more, rfl, hquotes, rfl, rfl⟩ := ih h
    have hslash : c ≠ '\\' := by
      intro hc
      cases hbody : body ++ '"' :: rest with
      | nil => exact hend hc hbody
      | cons letter tail => exact hescape letter tail hc hbody
    exact ⟨c :: body, c :: more, rfl, .plain hquote hslash hline hquotes, by simp, rfl⟩

/-- A string that cannot be read is refused at its start or at a place in it. -/
theorem pos_of_readString {e : ScanError} (h : readString start here content cs = .error e) :
    e.pos = start ∨ ∃ before after, cs = before ++ after ∧ e.pos = here.after before := by
  fun_induction readString start here content cs with
  | case1 | case6 =>
    cases h
    exact Or.inl rfl
  | case2 here content =>
    cases h
    exact Or.inr ⟨['\\'], [], rfl, rfl⟩
  | case3 here content letter tail c hc ih =>
    rcases ih h with hstart | ⟨before, after, rfl, hpos⟩
    · exact Or.inl hstart
    · exact Or.inr ⟨'\\' :: letter :: before, after, rfl, hpos⟩
  | case4 here content letter tail hnone =>
    cases h
    exact Or.inr ⟨['\\'], letter :: tail, rfl, rfl⟩
  | case5 => cases h
  | case7 here content c tail _ _ _ _ ih =>
    rcases ih h with hstart | ⟨before, after, rfl, hpos⟩
    · exact Or.inl hstart
    · exact Or.inr ⟨c :: before, after, rfl, hpos⟩

end

/-! Numbers. -/

section

variable {p q : Position} {word rest : List Char} {t : Token}

theorem readInt?_of_isNumeral (h : IsNumeral word) :
    readInt? word =
      if InIntRange (Nat.ofDigitChars 10 word 0) then some ↑(Nat.ofDigitChars 10 word 0)
      else none := by
  obtain ⟨⟨d, hd, hdigit⟩, hall⟩ := h
  obtain ⟨ds, rfl⟩ := List.head?_eq_some_iff.1 hd
  have hplus : d ≠ '+' := by
    rintro rfl
    exact absurd hdigit (by decide)
  have hminus : d ≠ '-' := by
    rintro rfl
    exact absurd hdigit (by decide)
  have hvalue : digitsValue? (d :: ds) = some (Nat.ofDigitChars 10 (d :: ds) 0) := by
    rw [digitsValue?, if_pos ⟨List.cons_ne_nil d ds, List.all_eq_true.2 hall⟩]
  simp [readInt?, hplus, hminus, hvalue, Option.filter]

theorem readNumber_of_longest (p : Position) (h : Longest IsNumeral word rest)
    (hnext : ∀ c, rest.head? = some c → isAlphabetic c = false ∧ c ≠ '_')
    (hrange : InIntRange (Nat.ofDigitChars 10 word 0)) :
    readNumber p (word ++ rest) =
      .ok (.literal (.int (Nat.ofDigitChars 10 word 0)), p.after word, rest) := by
  obtain ⟨hnumeral, hstop⟩ := longest_isRun_iff.1 h
  obtain ⟨htake, hdrop⟩ := takeWhile_append_of_stop hnumeral.2 hstop
  have hletter : rest.head?.filter (fun c => isAlphabetic c || c == '_') = none := by
    rw [Option.filter_eq_none_iff]
    intro c hc
    simp [hnext c hc]
  simp only [readNumber, htake, hdrop, hletter, readInt?_of_isNumeral hnumeral, if_pos hrange]

theorem lexeme_of_readNumber {c : Char} {cs : List Char} (hc : c.isDigit = true)
    (h : readNumber p (c :: cs) = .ok (t, q, rest)) :
    ∃ word, c :: cs = word ++ rest ∧ Lexeme word rest t ∧ q = p.after word := by
  have hlongest : Longest IsNumeral ((c :: cs).takeWhile Char.isDigit)
      ((c :: cs).dropWhile Char.isDigit) := longest_takeWhile rfl hc hc
  dsimp only [readNumber] at h
  split at h
  · cases h
  · rename_i hletter
    rw [readInt?_of_isNumeral hlongest.belongs] at h
    split at h
    · rename_i n hn
      cases h
      split at hn
      · rename_i hrange
        cases hn
        refine ⟨_, List.takeWhile_append_dropWhile.symm, .number hlongest ?_ hrange, rfl⟩
        intro d hd
        rw [Option.filter_eq_none_iff] at hletter
        simpa using hletter d hd
      · cases hn
    · cases h

theorem pos_of_readNumber {text : List Char} {e : ScanError} (h : readNumber p text = .error e) :
    e.pos = p := by
  dsimp only [readNumber] at h
  split at h
  · cases h
    rfl
  · split at h
    · cases h
    · cases h
      rfl

end

/-! Words. -/

theorem mem_reserved_iff {t : Token} : t ∈ reserved ↔ t.IsReserved := by
  cases t with
  | literal v => cases v <;> simp [reserved, IsReserved, category]
  | keyword word => cases word <;> simp [reserved, IsReserved, category]
  | _ => simp [reserved, IsReserved, category]

theorem ofWord_of_mem_reserved : ∀ t ∈ reserved, ofWord t.spelling = t := by
  decide

theorem ofWord_eq_ident {word : String} (h : ∀ t ∈ reserved, t.spelling ≠ word) :
    ofWord word = .ident word := by
  rcases ofWord_cases word with hident | ⟨hreserved, hspelling⟩
  · exact hident
  · exact absurd hspelling (h _ hreserved)

section

variable {word rest : List Char} {t : Token}

theorem readWord_of_longest (p : Position) (h : Longest IsIdentifier word rest) :
    readWord p (word ++ rest) = (ofWord (String.ofList word), p.after word, rest) := by
  obtain ⟨hidentifier, hstop⟩ := longest_isRun_iff.1 h
  obtain ⟨htake, hdrop⟩ := takeWhile_append_of_stop hidentifier.2 hstop
  simp only [readWord, htake, hdrop]

/-- A word that is as long as it can be is an identifier, or the reserved word of that spelling. -/
theorem lexeme_ofWord (h : Longest IsIdentifier word rest) :
    Lexeme word rest (ofWord (String.ofList word)) := by
  by_cases hword : ∃ t ∈ reserved, t.spelling = String.ofList word
  · obtain ⟨t, ht, hspelling⟩ := hword
    rw [← hspelling, ofWord_of_mem_reserved t ht]
    refine .reserved h (mem_reserved_iff.1 ht) ?_
    rw [hspelling, String.toList_ofList]
  · have hnone : ∀ t ∈ reserved, t.spelling ≠ String.ofList word := by
      intro t ht hspelling
      exact hword ⟨t, ht, hspelling⟩
    rw [ofWord_eq_ident hnone]
    refine .ident h ?_
    intro t ht hspelling
    apply hnone t (mem_reserved_iff.2 ht)
    rw [← hspelling, String.ofList_toList]

end

/-! Symbols. -/

theorem mem_punctuation_iff {t : Token} : t ∈ punctuation ↔ t.IsPunctuation := by
  cases t with
  | operator op => cases op <;> simp [punctuation, IsPunctuation, category]
  | _ => simp [punctuation, IsPunctuation, category]

theorem eq_of_spelling_eq :
    ∀ t ∈ punctuation, ∀ u ∈ punctuation, t.spelling = u.spelling → t = u := by
  decide

/-- Where a symbol stands, a symbol is found that is not shorter. -/
theorem exists_punctuationAt? (rest : List Char) :
    ∀ u ∈ punctuation, ∃ t width, punctuationAt? (u.spelling.toList ++ rest) = some (t, width) ∧
      u.spelling.toList.length ≤ width := by
  simp only [punctuation, List.forall_mem_cons, List.not_mem_nil, false_implies, implies_true]
  by_cases hnext : ∃ more, rest = '=' :: more
  · obtain ⟨more, rfl⟩ := hnext
    and_intros
    all_goals first | exact trivial | exact ⟨_, _, rfl, by decide⟩
  · -- Only these four begin a longer symbol.
    have hshort : ∀ more, rest = '=' :: more → False := fun more h => hnext ⟨more, h⟩
    have hassign : punctuationAt? ('=' :: rest) = some (.assign, 1) := by
      rw [punctuationAt?]
      exact hshort
    have hbang : punctuationAt? ('!' :: rest) = some (.bang, 1) := by
      rw [punctuationAt?]
      exact hshort
    have hlt : punctuationAt? ('<' :: rest) = some (.operator .lt, 1) := by
      rw [punctuationAt?]
      exact hshort
    have hgt : punctuationAt? ('>' :: rest) = some (.operator .gt, 1) := by
      rw [punctuationAt?]
      exact hshort
    and_intros
    all_goals first | exact trivial | exact ⟨_, _, rfl, by decide⟩ | exact ⟨_, _, ‹_›, by decide⟩

/-- A symbol is found just if the text starts with its spelling and with no longer symbol. So the
table that symbols are read by agrees with how they are spelled. -/
theorem punctuationAt?_eq_some_iff {text : List Char} {t : Token} {width : Nat} :
    punctuationAt? text = some (t, width) ↔
      t.IsPunctuation ∧ t.spelling.toList.length = width ∧
        ∃ rest, text = t.spelling.toList ++ rest ∧ Longest IsSymbol t.spelling.toList rest := by
  constructor
  · intro h
    obtain ⟨hmem, ⟨rest, rfl⟩, hwidth⟩ := spelling_of_punctuationAt? h
    have hsymbol := mem_punctuation_iff.1 hmem
    refine ⟨hsymbol, hwidth, rest, rfl, ⟨t, hsymbol, rfl⟩, ?_⟩
    rintro longer ⟨u, hu, rfl⟩ ⟨more, hat⟩
    obtain ⟨t', width', hfound, hle⟩ := exists_punctuationAt? more u (mem_punctuation_iff.2 hu)
    rw [hat, h] at hfound
    cases hfound
    omega
  · rintro ⟨ht, rfl, rest, rfl, hlongest⟩
    have hmem := mem_punctuation_iff.2 ht
    obtain ⟨u, width, hfound, hle⟩ := exists_punctuationAt? rest t hmem
    obtain ⟨humem, hat, rfl⟩ := spelling_of_punctuationAt? hfound
    have hge := hlongest.longest _ ⟨u, mem_punctuation_iff.1 humem, rfl⟩ hat
    have hsame : t.spelling.toList = u.spelling.toList :=
      (List.prefix_of_prefix_length_le (List.prefix_append _ rest) hat hle).eq_of_length (by omega)
    rw [hfound, hsame, eq_of_spelling_eq t hmem u humem (String.toList_injective hsame)]

/-! The first character decides which reader is taken. -/

theorem toNat_of_isWordStart {c : Char} (h : isWordStart c = true) : 65 ≤ c.toNat := by
  unfold isWordStart Char.isAlpha Char.isUpper Char.isLower at h
  simp only [Bool.or_eq_true, Bool.and_eq_true, decide_eq_true_eq, beq_iff_eq, ge_iff_le,
    UInt32.le_iff_toNat_le] at h
  rcases h with (⟨h, -⟩ | ⟨h, -⟩) | rfl
  · exact h
  · exact Nat.le_trans (by decide) h
  · decide

theorem ne_of_isDigit {c : Char} (h : c.isDigit = true) : c ≠ '"' ∧ c ≠ '/' := by
  have hdigit := toNat_of_isDigit h
  constructor
  · rintro rfl
    exact absurd hdigit.1 (by decide)
  · rintro rfl
    exact absurd hdigit.1 (by decide)

theorem ne_of_isWordStart {c : Char} (h : isWordStart c = true) :
    c ≠ '"' ∧ c ≠ '/' ∧ c.isDigit = false := by
  have hstart := toNat_of_isWordStart h
  refine ⟨?_, ?_, ?_⟩
  · rintro rfl
    exact absurd hstart (by decide)
  · rintro rfl
    exact absurd hstart (by decide)
  · rw [Bool.eq_false_iff]
    intro hdigit
    have hle := toNat_of_isDigit hdigit
    omega

/-- A symbol begins with a character that begins nothing else. -/
theorem head_of_isPunctuation {t : Token} (h : t.IsPunctuation) :
    ∃ c cs, t.spelling.toList = c :: cs ∧ c ≠ '"' ∧ c.isDigit = false ∧ isWordStart c = false ∧
      isBlank c = false := by
  have hall : ∀ t ∈ punctuation, (t.spelling.toList.head?.any fun c =>
      c != '"' && !c.isDigit && !isWordStart c && !isBlank c) = true := by
    decide
  obtain ⟨c, hc, hkind⟩ := (Option.any_eq_true _ _).1 (hall t (mem_punctuation_iff.2 h))
  obtain ⟨cs, hcs⟩ := List.head?_eq_some_iff.1 hc
  exact ⟨c, cs, hcs, by simpa [and_assoc] using hkind⟩

def Stops (text : List Char) : Prop :=
  (∀ c, text.head? = some c → isBlank c = false) ∧ ¬ ['/', '/'] <+: text

section

variable {p q : Position} {c : Char} {word cs rest : List Char} {t : Token}

theorem stops_cons (hblank : isBlank c = false) (hslash : c ≠ '/') : Stops (c :: cs) := by
  refine ⟨?_, ?_⟩
  · intro d hd
    cases hd
    exact hblank
  · intro hcomment
    exact hslash (List.cons_prefix_cons.1 hcomment).1.symm

theorem stops_of_isIdentifier (h : IsIdentifier word) (rest : List Char) :
    Stops (word ++ rest) := by
  obtain ⟨c, hc, hstart⟩ := h.1
  obtain ⟨cs, rfl⟩ := List.head?_eq_some_iff.1 hc
  exact stops_cons (isBlank_of_isWordChar (isWordChar_of_isWordStart hstart))
    (ne_of_isWordStart hstart).2.1

theorem Lexeme.stops (h : Lexeme word rest t) : Stops (word ++ rest) := by
  cases h with
  | string hquotes => exact stops_cons (by decide) (by decide)
  | number hlongest hnext hrange =>
    obtain ⟨d, hd, hdigit⟩ := hlongest.belongs.1
    obtain ⟨ds, rfl⟩ := List.head?_eq_some_iff.1 hd
    exact stops_cons (isBlank_of_isDigit hdigit) (ne_of_isDigit hdigit).2
  | reserved hlongest _ _ => exact stops_of_isIdentifier hlongest.belongs rest
  | ident hlongest _ => exact stops_of_isIdentifier hlongest.belongs rest
  | symbol hlongest hsymbol hspelling hslash =>
    obtain ⟨c, cs, hcs, -, -, -, hblank⟩ := head_of_isPunctuation hsymbol
    refine ⟨?_, hslash⟩
    intro d hd
    rw [← hspelling, hcs] at hd
    cases hd
    exact hblank

/-- What is read as a token is the lexeme that the text starts with. -/
theorem lexeme_of_readToken (hstops : Stops (c :: cs)) (h : readToken p c cs = .ok (t, q, rest)) :
    ∃ word, c :: cs = word ++ rest ∧ Lexeme word rest t ∧ q = p.after word := by
  unfold readToken at h
  split at h
  · rename_i hquote
    obtain ⟨body, more, rfl, hquotes, rfl, rfl⟩ := quotes_of_readString h
    refine ⟨'"' :: (body ++ ['"']), by simp [hquote], .string hquotes, ?_⟩
    simp [hquote, Position.after_append]
  · split at h
    · rename_i hdigit
      exact lexeme_of_readNumber hdigit h
    · split at h
      · rename_i hstart
        cases h
        exact ⟨_, List.takeWhile_append_dropWhile.symm,
          lexeme_ofWord (longest_takeWhile rfl hstart (isWordChar_of_isWordStart hstart)), rfl⟩
      · split at h
        · rename_i hfound
          obtain ⟨hsymbol, rfl, more, htext, hlongest⟩ := punctuationAt?_eq_some_iff.1 hfound
          have hslash := hstops.2
          rw [htext] at h hslash ⊢
          cases h
          rw [List.drop_left, List.take_left]
          exact ⟨_, rfl, .symbol hlongest hsymbol rfl hslash, rfl⟩
        · cases h

theorem readToken_of_isIdentifier (p : Position) (h : Longest IsIdentifier word rest) :
    ∃ c cs, word ++ rest = c :: cs ∧
      readToken p c cs = .ok (ofWord (String.ofList word), p.after word, rest) := by
  obtain ⟨c, hc, hstart⟩ := h.belongs.1
  obtain ⟨cs, rfl⟩ := List.head?_eq_some_iff.1 hc
  obtain ⟨hquote, -, hdigit⟩ := ne_of_isWordStart hstart
  refine ⟨c, cs ++ rest, rfl, ?_⟩
  rw [readToken, if_neg hquote, if_neg (by simp [hdigit]), if_pos hstart, ← List.cons_append,
    readWord_of_longest p h]

/-- The lexeme that a text starts with is read as its token. -/
theorem readToken_of_lexeme (p : Position) (h : Lexeme word rest t) :
    ∃ c cs, word ++ rest = c :: cs ∧ readToken p c cs = .ok (t, p.after word, rest) := by
  cases h with
  | @string body content _ hquotes =>
    refine ⟨'"', body ++ '"' :: rest, by simp, ?_⟩
    rw [readToken, if_pos rfl, readString_of_quotes hquotes]
    simp [Position.after_append]
  | number hlongest hnext hrange =>
    obtain ⟨d, hd, hdigit⟩ := hlongest.belongs.1
    obtain ⟨ds, rfl⟩ := List.head?_eq_some_iff.1 hd
    refine ⟨d, ds ++ rest, rfl, ?_⟩
    rw [readToken, if_neg (ne_of_isDigit hdigit).1, if_pos hdigit]
    exact readNumber_of_longest p hlongest hnext hrange
  | reserved hlongest hreserved hspelling =>
    have hword := ofWord_of_mem_reserved t (mem_reserved_iff.2 hreserved)
    have hread := readToken_of_isIdentifier p hlongest
    rwa [← hspelling, String.ofList_toList, hword, hspelling] at hread
  | ident hlongest hfree =>
    have hread := readToken_of_isIdentifier p hlongest
    rwa [ofWord_eq_ident] at hread
    intro u hu hspelling
    apply hfree u (mem_reserved_iff.1 hu)
    rw [hspelling, String.toList_ofList]
  | symbol hlongest hsymbol hspelling hslash =>
    obtain ⟨c, cs, hcs, hquote, hdigit, hstart, -⟩ := head_of_isPunctuation hsymbol
    subst hspelling
    have hfound : punctuationAt? (t.spelling.toList ++ rest) = some (t, t.spelling.toList.length) :=
      punctuationAt?_eq_some_iff.2 ⟨hsymbol, rfl, rest, rfl, hlongest⟩
    rw [hcs] at hfound ⊢
    refine ⟨c, cs ++ rest, rfl, ?_⟩
    rw [readToken, if_neg hquote, if_neg (by simp [hdigit]), if_neg (by simp [hstart])]
    rw [List.cons_append] at hfound
    simp only [hfound]
    rw [← List.cons_append, List.drop_left, List.take_left]

/-- A token that cannot be read is refused at a place in the text. -/
theorem pos_of_readToken {e : ScanError} (h : readToken p c cs = .error e) :
    ∃ before after, c :: cs = before ++ after ∧ e.pos = p.after before := by
  unfold readToken at h
  split at h
  · rcases pos_of_readString h with hpos | ⟨before, after, rfl, hpos⟩
    · exact ⟨[], c :: cs, rfl, hpos⟩
    · exact ⟨c :: before, after, rfl, hpos⟩
  · split at h
    · exact ⟨[], c :: cs, rfl, pos_of_readNumber h⟩
    · split at h
      · cases h
      · split at h
        · cases h
        · cases h
          exact ⟨[], c :: cs, rfl, rfl⟩

end

end StackLang.Token

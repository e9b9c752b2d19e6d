import StackLang.Proofs.Tiling

/-!
Tokens that are written down are read again as the same tokens. A space behind a spelling keeps the
token from growing into what follows, so it is enough that the spelling of a token spells it where a
space or the end of the text comes next.
-/
namespace StackLang.Token

open Text

def Spaced (rest : List Char) : Prop := ∀ c, rest.head? = some c → c = ' '

/-- The spelling of the token is read as that token. -/
def Printable (t : Token) : Prop := ∀ rest, Spaced rest → Lexeme t.spelling.toList rest t

theorem spaced_nil : Spaced [] := by simp [Spaced]

theorem spaced_cons (cs : List Char) : Spaced (' ' :: cs) := by simp [Spaced]

section

variable {word rest : List Char}

/-- What has no space in it does not reach past the word. -/
theorem isPrefix_of_spaced {v : List Char} (hspace : ' ' ∉ v) (hrest : Spaced rest)
    (h : v <+: word ++ rest) : v <+: word := by
  rcases List.prefix_or_prefix_of_prefix h (List.prefix_append word rest) with hv | ⟨more, rfl⟩
  · exact hv
  · rw [List.prefix_append_right_inj] at h
    cases more with
    | nil => simp
    | cons c cs =>
      obtain ⟨left, rfl⟩ := h
      have hc : c = ' ' := hrest c rfl
      exact absurd (List.mem_append_right word (hc ▸ List.mem_cons_self ..)) hspace

theorem longest_isRun_of_spaced {first other : Char → Bool} (h : IsRun first other word)
    (hspace : other ' ' = false) (hrest : Spaced rest) :
    Longest (IsRun first other) word rest := by
  rw [longest_isRun_iff]
  refine ⟨h, ?_⟩
  intro c hc
  rw [hrest c hc]
  exact hspace

theorem space_not_mem_symbol {t : Token} (h : t.IsPunctuation) : ' ' ∉ t.spelling.toList := by
  have hall : ∀ t ∈ punctuation, ' ' ∉ t.spelling.toList := by decide
  exact hall t (mem_punctuation_iff.2 h)

theorem longest_isSymbol_of_spaced (h : IsSymbol word) (hrest : Spaced rest) :
    Longest IsSymbol word rest := by
  refine ⟨h, ?_⟩
  rintro longer ⟨u, hu, rfl⟩ hat
  exact (isPrefix_of_spaced (space_not_mem_symbol hu) hrest hat).length_le

end

/-! One token. -/

theorem quotes_escape (cs : List Char) : Quotes (cs.flatMap escape) cs := by
  induction cs with
  | nil => exact .nil
  | cons c cs ih =>
    rw [List.flatMap_cons, escape]
    cases hletter : escapeLetter c with
    | some letter => exact .escaped (unescapeLetter_of_escapeLetter hletter) ih
    | none =>
      refine .plain ?_ ?_ ?_ ih
      all_goals
        rintro rfl
        cases hletter

theorem isNumeral_repr (n : Nat) : IsNumeral (Nat.repr n).toList := by
  obtain ⟨d, ds, hcons⟩ := List.exists_cons_of_ne_nil (repr_ne_nil n)
  refine ⟨⟨d, by rw [hcons]; rfl, ?_⟩, fun _ hc => isDigit_of_mem_repr hc⟩
  exact isDigit_of_mem_repr (hcons ▸ List.mem_cons_self ..)

theorem printable_string (s : String) : Printable (.literal (.str s)) := by
  intro rest _
  have hlexeme : Lexeme ('"' :: (s.toList.flatMap escape ++ ['"'])) rest _ :=
    .string (quotes_escape s.toList)
  rwa [String.ofList_toList, ← toList_quote] at hlexeme

theorem printable_number {n : Nat} (h : InIntRange n) : Printable (.literal (.int n)) := by
  intro rest hrest
  have hspelling : (Token.literal (.int n)).spelling.toList = (Nat.repr n).toList := by
    show (showInt n).toList = _
    rw [showInt_natAbs, if_neg (by omega), Int.natAbs_natCast]
  have hvalue : Nat.ofDigitChars 10 (Nat.repr n).toList 0 = n := by
    rw [Nat.toList_repr, Nat.ofDigitChars_ten_toDigits]
  have hnext : ∀ c, rest.head? = some c → isAlphabetic c = false ∧ c ≠ '_' := by
    intro c hc
    rw [hrest c hc]
    decide +kernel
  have hlongest : Longest IsNumeral (Nat.repr n).toList rest :=
    longest_isRun_of_spaced (isNumeral_repr n) (by decide) hrest
  have hlexeme := Lexeme.number hlongest hnext (by rwa [hvalue])
  rwa [hvalue, ← hspelling] at hlexeme

/-- Every token that a text can spell is read again from its own spelling. -/
theorem Lexeme.printable {word rest : List Char} {t : Token} (h : Lexeme word rest t) :
    Printable t := by
  cases h with
  | string _ => exact printable_string _
  | number _ _ hrange => exact printable_number hrange
  | reserved hlongest hreserved hspelling =>
    intro rest hrest
    refine .reserved (longest_isRun_of_spaced ?_ (by decide) hrest) hreserved rfl
    rw [hspelling]
    exact hlongest.belongs
  | ident hlongest hfree =>
    intro rest hrest
    show Lexeme (String.ofList word).toList rest _
    rw [String.toList_ofList]
    exact .ident (longest_isRun_of_spaced hlongest.belongs (by decide) hrest) hfree
  | symbol hlongest hsymbol hspelling hslash =>
    intro rest hrest
    refine .symbol (longest_isSymbol_of_spaced ⟨t, hsymbol, rfl⟩ hrest) hsymbol rfl ?_
    -- A slash could only become a comment with the help of what follows.
    intro hcomment
    have hword := isPrefix_of_spaced (by decide) hrest hcomment
    rw [hspelling] at hword
    exact hslash (hword.trans (List.prefix_append _ _))

/-! Many tokens. -/

/-- Every token of a text can be printed, apart from the one that ends it. -/
theorem Tiled.printable {before cs : List Char} {tokens : List Placed}
    (h : Tiled before cs tokens) : ∀ t ∈ tokens.dropLast, Printable t.token := by
  induction h with
  | done _ => exact List.forall_mem_nil _
  | token _ hlexeme htiled ih =>
    obtain ⟨spelled, rfl, -⟩ := htiled.eof_last
    rw [List.dropLast_concat] at ih
    rw [← List.cons_append, List.dropLast_concat]
    exact List.forall_mem_cons.2 ⟨hlexeme.printable, ih⟩

theorem Tiled.blank {c : Char} {before cs : List Char} {tokens : List Placed}
    (hblank : isBlank c = true) (h : Tiled (before ++ [c]) cs tokens) :
    Tiled before (c :: cs) tokens := by
  cases h with
  | @done _ trivia htrivia =>
    rw [List.append_assoc, List.singleton_append]
    exact .done (.blank hblank htrivia)
  | @token _ trivia word rest t tokens htrivia hlexeme htiled =>
    rw [List.append_assoc, List.singleton_append] at htiled ⊢
    exact .token (.blank hblank htrivia) hlexeme htiled

/-- A printed token is read back, if a blank follows. -/
theorem Tiled.spelling {before rest : List Char} {t : Token} {tokens : List Placed}
    (ht : Printable t) (hrest : Spaced rest)
    (h : Tiled (before ++ t.spelling.toList) rest tokens) :
    Tiled before (t.spelling.toList ++ rest) (⟨t, .behind before⟩ :: tokens) := by
  have htoken := @Tiled.token before [] _ rest t tokens .nil (ht rest hrest) h
  rwa [List.append_nil] at htoken

/-- Spellings with single spaces between them are covered by their tokens. -/
theorem exists_tiled_spellings {ts : List Token} (h : ∀ t ∈ ts, Printable t)
    (before : List Char) :
    ∃ tokens, Tiled before (" ".intercalate (ts.map spelling)).toList tokens ∧
      tokens.map (·.token) = ts ++ [.eof] := by
  induction ts generalizing before with
  | nil => exact ⟨_, .done .nil, rfl⟩
  | cons t ts ih =>
    obtain ⟨ht, hts⟩ := List.forall_mem_cons.1 h
    cases ts with
    | nil =>
      have htiled := Tiled.spelling ht spaced_nil (@Tiled.done (before ++ _) [] .nil)
      rw [List.append_nil, List.append_nil] at htiled
      rw [List.map_singleton, String.intercalate_singleton]
      exact ⟨_, htiled, rfl⟩
    | cons u us =>
      obtain ⟨tokens, htiled, hmap⟩ := ih hts (before ++ t.spelling.toList ++ [' '])
      refine ⟨⟨t, .behind before⟩ :: tokens, ?_, ?_⟩
      · rw [List.map_cons, List.map_cons, String.intercalate_cons_cons, ← List.map_cons,
          String.toList_append, String.toList_append, List.append_assoc]
        exact .spelling ht (spaced_cons _) (.blank (by decide) htiled)
      · rw [List.map_cons, hmap]
        rfl

/-- Printed tokens with a blank between them are scanned to the same tokens. -/
theorem exists_scan_spellings {ts : List Token} (h : ∀ t ∈ ts, Printable t) :
    ∃ tokens, scan (" ".intercalate (ts.map spelling)) = .ok tokens ∧
      tokens.map (·.token) = ts ++ [.eof] := by
  obtain ⟨tokens, htiled, hmap⟩ := exists_tiled_spellings h []
  exact ⟨tokens, scan_of_tiled htiled, hmap⟩

/-- The tokens of a text, written down with single spaces between them, are the tokens of what is
written. Any string at all is read back from its spelling. -/
theorem scan_spellings_eq_ok :
    (∀ source tokens, scan source = .ok tokens →
      ∃ again, scan (" ".intercalate (tokens.dropLast.map (·.token.spelling))) = .ok again ∧
        again.map (·.token) = tokens.map (·.token)) ∧
    ∀ s : String, ∃ again, scan (Token.literal (.str s)).spelling = .ok again ∧
      again.map (·.token) = [.literal (.str s), .eof] := by
  constructor
  · intro source tokens h
    have htiled := tiled_of_scan h
    have hprintable := htiled.printable
    obtain ⟨spelled, hspelled, -⟩ := htiled.eof_last
    rw [hspelled, List.dropLast_concat] at hprintable ⊢
    obtain ⟨again, hagain, hmap⟩ := exists_scan_spellings (List.forall_mem_map.2 hprintable)
    rw [List.map_map] at hagain
    refine ⟨again, hagain, ?_⟩
    rw [hmap, List.map_append, List.map_singleton]
  · intro s
    obtain ⟨again, hagain, hmap⟩ :=
      exists_scan_spellings (List.forall_mem_singleton.2 (printable_string s))
    rw [List.map_singleton, String.intercalate_singleton] at hagain
    exact ⟨again, hagain, hmap⟩

/-- Tokens that touch each other, the largest number, and a string that looks like a comment. -/
def touching : String := "a===-9223372036854775807/\"//\\\"\r\\\\\"//\nif_x<=!TRUE"

def touchingTokens : List Placed :=
  [⟨.ident "a", ⟨1, 1⟩⟩, ⟨.operator .eq, ⟨1, 2⟩⟩, ⟨.assign, ⟨1, 4⟩⟩, ⟨.operator .sub, ⟨1, 5⟩⟩,
   ⟨.literal (.int 9223372036854775807), ⟨1, 6⟩⟩, ⟨.operator .div, ⟨1, 25⟩⟩,
   ⟨.literal (.str "//\"\r\\"), ⟨1, 26⟩⟩, ⟨.ident "if_x", ⟨2, 1⟩⟩, ⟨.operator .le, ⟨2, 5⟩⟩,
   ⟨.bang, ⟨2, 7⟩⟩, ⟨.literal (.bool true), ⟨2, 8⟩⟩, ⟨.eof, ⟨2, 12⟩⟩]

theorem scan_spellings_eq_ok_touching :
    scan touching = .ok touchingTokens ∧
      ∃ again,
        scan (" ".intercalate (touchingTokens.dropLast.map (·.token.spelling))) = .ok again ∧
          again.map (·.token) = touchingTokens.map (·.token) := by
  have hscan : scan touching = .ok touchingTokens := scan_eq_ok_of_toOption (by decide +kernel)
  exact ⟨hscan, scan_spellings_eq_ok.1 touching touchingTokens hscan⟩

end StackLang.Token

import Mathlib.Data.List.Induction
import StackLang.Proofs.Lexemes

/-!
The tokens of a text cover it. Between them stand only blanks and comments, no character is lost or
taken twice, and every place that is reported is the true one: the line by the line feeds in front
of it, the column by the characters since the last of these. Such a cover is unique, and a text has
tokens just if it has one.
-/
namespace StackLang

open Text

/-- The place behind some characters, counted afresh. -/
def Position.behind (before : List Char) : Position :=
  ⟨1 + before.count '\n', 1 + (before.reverse.takeWhile (· ≠ '\n')).length⟩

theorem Position.start_after (before : List Char) : start.after before = behind before := by
  induction before using List.reverseRecOn with
  | nil => rfl
  | append_singleton cs c ih =>
    rw [after_append, ih, after_cons, after_nil, next]
    by_cases hc : c = '\n'
    · simp [hc, behind, Nat.add_assoc]
    · simp [hc, behind, Nat.add_assoc]

theorem Position.behind_after (before cs : List Char) :
    (behind before).after cs = behind (before ++ cs) := by
  rw [← start_after, ← start_after, after_append]

namespace Token

def AtLineEnd (cs : List Char) : Prop := cs = [] ∨ cs.head? = some '\n'

/-- Blanks and comments in front of the rest of a text. The line feed behind a comment is not part
of it. -/
inductive Trivia (rest : List Char) : List Char → Prop
  | nil : Trivia rest []
  | blank {c : Char} {trivia : List Char} : isBlank c = true → Trivia rest trivia →
    Trivia rest (c :: trivia)
  | comment {body trivia : List Char} : '\n' ∉ body → AtLineEnd (trivia ++ rest) →
    Trivia rest trivia → Trivia rest ('/' :: '/' :: (body ++ trivia))

/-- The text behind `before` is covered by the tokens, with blanks and comments between them. The
last token is the end of the text. -/
inductive Tiled : List Char → List Char → List Placed → Prop
  | done {before trivia : List Char} : Trivia [] trivia →
    Tiled before trivia [⟨.eof, .behind (before ++ trivia)⟩]
  | token {before trivia word rest : List Char} {t : Token} {tokens : List Placed} :
    Trivia (word ++ rest) trivia → Lexeme word rest t →
    Tiled (before ++ (trivia ++ word)) rest tokens →
    Tiled before (trivia ++ (word ++ rest)) (⟨t, .behind (before ++ trivia)⟩ :: tokens)

/-! What is skipped. -/

theorem stops_nil : Stops [] := by simp [Stops]

theorem cons_prefix_iff {c : Char} {cs : List Char} :
    ['/', '/'] <+: c :: cs ↔ c = '/' ∧ cs.head? = some '/' := by
  cases cs <;> simp [List.cons_prefix_cons, eq_comm]

theorem skipTrivia_of_stops (p : Position) {rest : List Char} (h : Stops rest) :
    skipTrivia false p rest = (p, rest) := by
  cases rest with
  | nil => rfl
  | cons c cs =>
    have hcomment := h.2
    rw [cons_prefix_iff] at hcomment
    simp [skipTrivia, h.1 c rfl, hcomment]

/-- A comment is skipped up to the end of its line. -/
theorem skipTrivia_comment (p : Position) {body cs : List Char} (hbody : '\n' ∉ body)
    (hend : AtLineEnd cs) :
    skipTrivia true p (body ++ cs) = skipTrivia false (p.after body) cs := by
  induction body generalizing p with
  | nil =>
    cases cs with
    | nil => rfl
    | cons c rest =>
      have hc : c = '\n' := by simpa [AtLineEnd] using hend
      have hblank : isBlank '\n' = true := by decide
      simp [skipTrivia, hc, hblank]
  | cons c body ih =>
    have hc : c ≠ '\n' := (List.ne_of_not_mem_cons hbody).symm
    rw [List.cons_append, skipTrivia, if_pos rfl, decide_eq_true hc,
      ih _ (List.not_mem_of_not_mem_cons hbody), Position.after_cons]

theorem skipTrivia_slashes (p : Position) {body cs : List Char} (hbody : '\n' ∉ body)
    (hend : AtLineEnd cs) :
    skipTrivia false p ('/' :: '/' :: (body ++ cs)) =
      skipTrivia false (p.after ('/' :: '/' :: body)) cs := by
  have hblank : isBlank '/' = false := by decide
  have hslash : '\n' ∉ '/' :: body := by simpa using hbody
  have hskip := skipTrivia_comment (p.next '/') hslash hend
  rw [List.cons_append] at hskip
  rw [skipTrivia]
  simpa [hblank] using hskip

/-- Blanks and comments are skipped, as far as they go and no further. -/
theorem skipTrivia_of_trivia (p : Position) {trivia rest : List Char} (h : Trivia rest trivia)
    (hstops : Stops rest) : skipTrivia false p (trivia ++ rest) = (p.after trivia, rest) := by
  induction h generalizing p with
  | nil => exact skipTrivia_of_stops p hstops
  | @blank c trivia hblank _ ih =>
    rw [List.cons_append, skipTrivia, if_neg Bool.false_ne_true, if_pos hblank, ih,
      Position.after_cons]
  | @comment body trivia hbody hend _ ih =>
    rw [List.cons_append, List.cons_append, List.append_assoc, skipTrivia_slashes p hbody hend, ih,
      ← Position.after_append]
    rfl

theorem exists_lineEnd (cs : List Char) :
    ∃ body rest, cs = body ++ rest ∧ '\n' ∉ body ∧ AtLineEnd rest := by
  refine ⟨cs.takeWhile (· ≠ '\n'), cs.dropWhile (· ≠ '\n'),
    List.takeWhile_append_dropWhile.symm, ?_, ?_⟩
  · intro hmem
    simpa using List.all_eq_true.1 List.all_takeWhile '\n' hmem
  · have hhead := List.head?_dropWhile_not (fun c => decide (c ≠ '\n')) cs
    cases hrest : cs.dropWhile (· ≠ '\n') with
    | nil => exact Or.inl rfl
    | cons c rest =>
      rw [hrest] at hhead
      exact Or.inr (by simpa using hhead)

/-- Every text has blanks and comments in front, up to a place where none is left. -/
theorem exists_trivia (cs : List Char) :
    ∃ trivia rest, cs = trivia ++ rest ∧ Trivia rest trivia ∧ Stops rest := by
  induction hn : cs.length using Nat.strong_induction_on generalizing cs with
  | h n ih =>
    cases cs with
    | nil => exact ⟨[], [], rfl, .nil, stops_nil⟩
    | cons c cs =>
      by_cases hblank : isBlank c = true
      · obtain ⟨trivia, rest, rfl, htrivia, hstops⟩ := ih cs.length (by simp [← hn]) cs rfl
        exact ⟨c :: trivia, rest, rfl, .blank hblank htrivia, hstops⟩
      · by_cases hcomment : ['/', '/'] <+: c :: cs
        · obtain ⟨line, hline⟩ := hcomment
          obtain ⟨body, more, rfl, hbody, hend⟩ := exists_lineEnd line
          have hlength : more.length < n := by
            rw [← hn, ← hline]
            simp only [List.length_append, List.length_cons, List.length_nil]
            omega
          obtain ⟨trivia, rest, rfl, htrivia, hstops⟩ := ih more.length hlength more rfl
          exact ⟨'/' :: '/' :: (body ++ trivia), rest, by rw [← hline]; simp,
            .comment hbody hend htrivia, hstops⟩
        · exact ⟨[], c :: cs, rfl, .nil, by simpa using hblank, hcomment⟩

/-- What was skipped are blanks and comments, and neither of them follows. -/
theorem trivia_of_skipTrivia {p q : Position} {cs rest : List Char}
    (h : skipTrivia false p cs = (q, rest)) :
    ∃ trivia, cs = trivia ++ rest ∧ Trivia rest trivia ∧ Stops rest ∧ q = p.after trivia := by
  obtain ⟨trivia, rest', rfl, htrivia, hstops⟩ := exists_trivia cs
  rw [skipTrivia_of_trivia p htrivia hstops] at h
  cases h
  exact ⟨trivia, rfl, htrivia, hstops, rfl⟩

/-! What is read between. -/

section

variable {p q r : Position} {cs left : List Char} {t : Token} {done : List Placed}

theorem scanFrom_end (h : skipTrivia false p cs = (q, [])) :
    scanFrom p cs done = .ok (done.reverse ++ [⟨.eof, q⟩]) := by
  rw [scanFrom]
  split
  · rename_i hskip
    rw [h] at hskip
    cases hskip
    rw [List.reverse_cons]
  · rename_i hskip
    rw [h] at hskip
    cases hskip

theorem scanFrom_next {c : Char} {rest : List Char} (h : skipTrivia false p cs = (q, c :: rest))
    (hread : readToken q c rest = .ok (t, r, left)) :
    scanFrom p cs done = scanFrom r left (⟨t, q⟩ :: done) := by
  rw [scanFrom]
  split
  · rename_i hskip
    rw [h] at hskip
    cases hskip
  · rename_i hskip
    rw [h] at hskip
    cases hskip
    split
    · rename_i hread'
      rw [hread] at hread'
      cases hread'
    · rename_i hread'
      rw [hread] at hread'
      cases hread'
      rfl

end

section

variable {before cs : List Char} {tokens : List Placed}

/-- A tiled text is scanned to the tokens it is tiled by. -/
theorem scanFrom_of_tiled (h : Tiled before cs tokens) (done : List Placed) :
    scanFrom (.behind before) cs done = .ok (done.reverse ++ tokens) := by
  induction h generalizing done with
  | @done before trivia htrivia =>
    have hskip := skipTrivia_of_trivia (.behind before) htrivia stops_nil
    rw [List.append_nil, Position.behind_after] at hskip
    exact scanFrom_end hskip
  | @token before trivia word rest t tokens htrivia hlexeme _ ih =>
    have hskip := skipTrivia_of_trivia (.behind before) htrivia hlexeme.stops
    obtain ⟨c, cs, hcons, hread⟩ := readToken_of_lexeme (.behind (before ++ trivia)) hlexeme
    rw [hcons, Position.behind_after] at hskip
    rw [Position.behind_after, List.append_assoc] at hread
    rw [hcons, scanFrom_next hskip hread, ih, List.reverse_cons, List.append_assoc,
      List.singleton_append]

/-- The tokens that were scanned tile the text. -/
theorem tiled_of_scanFrom {p : Position} {done found : List Placed} (hp : p = .behind before)
    (h : scanFrom p cs done = .ok found) :
    ∃ tokens, found = done.reverse ++ tokens ∧ Tiled before cs tokens := by
  fun_induction scanFrom p cs done generalizing before with
  | case1 p cs done q hskip =>
    obtain ⟨trivia, rfl, htrivia, -, rfl⟩ := trivia_of_skipTrivia hskip
    cases h
    refine ⟨[⟨.eof, .behind (before ++ trivia)⟩], ?_, ?_⟩
    · rw [List.reverse_cons, hp, Position.behind_after]
    · rw [List.append_nil]
      exact .done htrivia
  | case2 p cs done q c rest hskip e hread => cases h
  | case3 p cs done q c rest hskip t r left hread ih =>
    obtain ⟨trivia, rfl, htrivia, hstops, rfl⟩ := trivia_of_skipTrivia hskip
    obtain ⟨word, hword, hlexeme, rfl⟩ := lexeme_of_readToken hstops hread
    have hplace : (p.after trivia).after word = .behind (before ++ (trivia ++ word)) := by
      rw [hp, Position.behind_after, Position.behind_after, List.append_assoc]
    obtain ⟨tokens, rfl, htiled⟩ := ih hplace h
    rw [hword] at htrivia ⊢
    refine ⟨_, ?_, .token htrivia hlexeme htiled⟩
    rw [List.reverse_cons, List.append_assoc, List.singleton_append, hp, Position.behind_after]

/-- Where the text cannot be read, the place that is reported lies in it. -/
theorem pos_of_scanFrom {p : Position} {done : List Placed} {e : ScanError}
    (hp : p = .behind before) (h : scanFrom p cs done = .error e) :
    ∃ read rest, before ++ cs = read ++ rest ∧ e.pos = .behind read := by
  fun_induction scanFrom p cs done generalizing before with
  | case1 p cs done q hskip => cases h
  | case2 p cs done q c rest hskip e hread =>
    cases h
    obtain ⟨trivia, rfl, -, -, rfl⟩ := trivia_of_skipTrivia hskip
    obtain ⟨read, more, hsplit, hpos⟩ := pos_of_readToken hread
    refine ⟨before ++ (trivia ++ read), more, ?_, ?_⟩
    · rw [hsplit, List.append_assoc, List.append_assoc]
    · rw [hpos, hp, Position.behind_after, Position.behind_after, List.append_assoc]
  | case3 p cs done q c rest hskip t r left hread ih =>
    obtain ⟨trivia, rfl, -, hstops, rfl⟩ := trivia_of_skipTrivia hskip
    obtain ⟨word, hword, -, rfl⟩ := lexeme_of_readToken hstops hread
    have hplace : (p.after trivia).after word = .behind (before ++ (trivia ++ word)) := by
      rw [hp, Position.behind_after, Position.behind_after, List.append_assoc]
    obtain ⟨read, more, hsplit, hpos⟩ := ih hplace h
    refine ⟨read, more, ?_, hpos⟩
    rw [hword, ← hsplit, List.append_assoc, List.append_assoc]

theorem Lexeme.ne_eof {word rest : List Char} {t : Token} (h : Lexeme word rest t) : t ≠ .eof := by
  rintro rfl
  cases h with
  | reserved _ hreserved _ => simp [IsReserved, category] at hreserved
  | symbol _ hsymbol _ _ => simp [IsPunctuation, category] at hsymbol

/-- The token that ends the text stands last, behind all characters, and nowhere else. -/
theorem Tiled.eof_last (h : Tiled before cs tokens) :
    ∃ spelled, tokens = spelled ++ [⟨.eof, .behind (before ++ cs)⟩] ∧
      ∀ t ∈ spelled, t.token ≠ .eof := by
  induction h with
  | done _ => exact ⟨[], rfl, List.forall_mem_nil _⟩
  | @token before trivia word rest t tokens _ hlexeme _ ih =>
    obtain ⟨spelled, rfl, hspelled⟩ := ih
    refine ⟨⟨t, .behind (before ++ trivia)⟩ :: spelled, ?_, ?_⟩
    · rw [List.cons_append, List.append_assoc, List.append_assoc]
    · exact List.forall_mem_cons.2 ⟨hlexeme.ne_eof, hspelled⟩

end

theorem tiled_of_scan {source : String} {tokens : List Placed} (h : scan source = .ok tokens) :
    Tiled [] source.toList tokens := by
  have hscan : scan source = scanFrom (.behind []) source.toList [] := rfl
  rw [hscan] at h
  obtain ⟨found, rfl, hfound⟩ := tiled_of_scanFrom rfl h
  exact hfound

theorem scan_of_tiled {source : String} {tokens : List Placed}
    (h : Tiled [] source.toList tokens) : scan source = .ok tokens :=
  scanFrom_of_tiled h []

theorem scan_eq_ok_of_toOption {source : String} {tokens : List Placed}
    (h : (scan source).toOption = some tokens) : scan source = .ok tokens := by
  cases hscan : scan source with
  | error e => simp [hscan, Except.toOption] at h
  | ok found => simpa [hscan, Except.toOption] using h

/-- A text has tokens just if it is made of their spellings and of what may stand between them, and
these are its tokens, at their places. The end of the text comes last and nowhere else. Otherwise a
place in the text is reported. -/
theorem scan_eq_ok_iff_tiled (source : String) :
    (∀ tokens, scan source = .ok tokens ↔ Tiled [] source.toList tokens) ∧
    (∀ tokens, scan source = .ok tokens →
      ∃ spelled, tokens = spelled ++ [⟨.eof, .behind source.toList⟩] ∧
        ∀ t ∈ spelled, t.token ≠ .eof) ∧
    ∀ e, scan source = .error e →
      ∃ read rest, source.toList = read ++ rest ∧ e.pos = .behind read := by
  refine ⟨?_, ?_, ?_⟩
  · intro tokens
    exact ⟨tiled_of_scan, scan_of_tiled⟩
  · intro tokens h
    exact (tiled_of_scan h).eof_last
  · intro e h
    have hscan : scan source = scanFrom (.behind []) source.toList [] := rfl
    rw [hscan] at h
    exact pos_of_scanFrom rfl h

/-- Slashes begin a comment, stand in a string, divide, and begin a comment that ends with the
text. -/
def slashes : String := "x<=//<\n\t\"//\\n\"/007//\"é"

def slashTokens : List Placed :=
  [⟨.ident "x", ⟨1, 1⟩⟩, ⟨.operator .le, ⟨1, 2⟩⟩, ⟨.literal (.str "//\n"), ⟨2, 2⟩⟩,
   ⟨.operator .div, ⟨2, 8⟩⟩, ⟨.literal (.int 7), ⟨2, 9⟩⟩, ⟨.eof, ⟨2, 16⟩⟩]

def unknownEscape : String := "a // b\n \"\\é"

/-- Slashes in a string, in comments and as an operator, and a text with an escape that there is
not. -/
theorem scan_eq_ok_iff_tiled_slashes :
    scan slashes = .ok slashTokens ∧ Tiled [] slashes.toList slashTokens ∧
      Position.behind slashes.toList = ⟨2, 16⟩ ∧
      ∃ e, scan unknownEscape = .error e ∧
        ∃ read rest, unknownEscape.toList = read ++ rest ∧ e.pos = .behind read := by
  have hscan : scan slashes = .ok slashTokens := scan_eq_ok_of_toOption (by decide +kernel)
  refine ⟨hscan, ((scan_eq_ok_iff_tiled slashes).1 _).1 hscan, by decide, ?_⟩
  have hnone : (scan unknownEscape).toOption = none := by decide +kernel
  cases h : scan unknownEscape with
  | ok tokens => simp [h, Except.toOption] at hnone
  | error e => exact ⟨e, rfl, (scan_eq_ok_iff_tiled unknownEscape).2.2 e h⟩

end Token

end StackLang

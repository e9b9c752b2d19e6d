import StackLang.Text.Blank
import StackLang.Text.Decimal
import StackLang.Text.Quoted

/-!
The pieces that a written text is made of, and how they are read back. A piece without blanks at
its ends survives trimming, words survive splitting at blanks, and lines without line feeds survive
splitting at line feeds. Numbers and quoted texts are read as what was shown.
-/
namespace StackLang.Text

def IsWord (cs : List Char) : Prop := cs ≠ [] ∧ ∀ c ∈ cs, isBlank c = false

instance (cs : List Char) : Decidable (IsWord cs) :=
  decidable_of_iff ((!cs.isEmpty && cs.all fun c => !isBlank c) = true) (by simp [IsWord])

/-- One or more characters in one line, with no blank at the ends. -/
structure IsPiece (cs : List Char) : Prop where
  head : ∃ c, cs.head? = some c ∧ isBlank c = false
  last : ∃ c, cs.getLast? = some c ∧ isBlank c = false
  oneLine : '\n' ∉ cs

theorem IsWord.isPiece {cs : List Char} (h : IsWord cs) : IsPiece cs where
  head := ⟨cs.head h.1, List.head?_eq_some_head h.1, h.2 _ (List.head_mem h.1)⟩
  last := ⟨cs.getLast h.1, List.getLast?_eq_some_getLast h.1, h.2 _ (List.getLast_mem h.1)⟩
  oneLine := by
    intro hmem
    exact absurd (h.2 _ hmem) (by decide)

theorem IsWord.ne_space {cs : List Char} (h : IsWord cs) : ∀ c ∈ cs, decide (c ≠ ' ') = true := by
  intro c hc
  rw [decide_eq_true_eq]
  rintro rfl
  exact absurd (h.2 _ hc) (by decide)

namespace IsPiece

variable {cs ds : List Char}

theorem ne_nil (h : IsPiece cs) : cs ≠ [] := by
  obtain ⟨c, hc, -⟩ := h.head
  intro hnil
  simp [hnil] at hc

/-- A piece begins with the one in front and ends with the one at the back. -/
theorem append_space (h : IsPiece cs) (h' : IsPiece ds) : IsPiece (cs ++ ' ' :: ds) := by
  obtain ⟨c, hc, hblank⟩ := h.head
  obtain ⟨d, hd, hblank'⟩ := h'.last
  refine ⟨⟨c, ?_, hblank⟩, ⟨d, ?_, hblank'⟩, ?_⟩
  · rw [List.head?_append, hc, Option.some_or]
  · rw [List.getLast?_append, List.getLast?_cons, hd]
    rfl
  · simp [h.oneLine, h'.oneLine]

theorem trim_eq (h : IsPiece cs) : trim cs = cs := by
  obtain ⟨c, hc, hblank⟩ := h.head
  obtain ⟨d, hd, hblank'⟩ := h.last
  have hstart : cs.dropWhile isBlank = cs := by
    cases cs with
    | nil => rfl
    | cons x rest =>
      cases hc
      rw [List.dropWhile_cons, hblank]
      rfl
  have hend : cs.reverse.dropWhile isBlank = cs.reverse := by
    rw [← List.head?_reverse] at hd
    cases hrev : cs.reverse with
    | nil => rfl
    | cons x rest =>
      rw [hrev] at hd
      cases hd
      rw [List.dropWhile_cons, hblank']
      rfl
  rw [trim, trimEnd, hstart, hend, List.reverse_reverse]

end IsPiece

/-- Blanks in front are dropped. -/
theorem trim_append {blanks : List Char} (h : blanks.all isBlank = true) (cs : List Char) :
    trim (blanks ++ cs) = trim cs := by
  rw [trim, trim, List.dropWhile_append_of_pos (List.all_eq_true.1 h)]

/-! Words and lines. -/

theorem words_three {a b c : List Char} (ha : IsWord a) (hb : IsWord b) (hc : IsWord c) :
    words (a ++ ' ' :: (b ++ ' ' :: c)) = [a, b, c] := by
  have hspace : isBlank ' ' = true := by decide
  rw [words, List.splitOnP_append_cons_of_forall_mem ha.2 _ hspace,
    List.splitOnP_append_cons_of_forall_mem hb.2 _ hspace, List.splitOnP_eq_singleton hc.2]
  simp [ha.1, hb.1, hc.1]

/-- No piece between separators has a separator in it. -/
theorem forall_mem_splitOnP {α : Type} {p : α → Bool} {xs piece : List α}
    (h : piece ∈ xs.splitOnP p) : ∀ x ∈ piece, p x = false := by
  induction xs generalizing piece with
  | nil =>
    rw [List.splitOnP_nil, List.mem_singleton] at h
    simp [h]
  | cons y rest ih =>
    rw [List.splitOnP_cons_eq_if_modifyHead] at h
    by_cases hy : p y = true
    · rw [if_pos hy, List.mem_cons] at h
      rcases h with rfl | h
      · simp
      · exact ih h
    · rw [if_neg hy] at h
      cases hpieces : rest.splitOnP p with
      | nil => exact absurd hpieces (List.splitOnP_ne_nil _ _)
      | cons first others =>
        rw [hpieces, List.modifyHead_cons, List.mem_cons] at h
        rcases h with rfl | h
        · intro x hx
          rcases List.mem_cons.1 hx with rfl | hx
          · simpa using hy
          · exact ih (hpieces ▸ List.mem_cons_self ..) x hx
        · exact ih (hpieces ▸ List.mem_cons_of_mem _ h)

theorem isWord_of_mem_words {cs word : List Char} (h : word ∈ words cs) : IsWord word := by
  obtain ⟨hmem, hne⟩ := List.mem_filter.1 h
  exact ⟨by simpa using hne, forall_mem_splitOnP hmem⟩

/-- Lines that are written one after the other are read as these lines. -/
theorem lines_flatMap {ls : List (List Char)} (h : ∀ line ∈ ls, '\n' ∉ line) :
    lines (ls.flatMap (· ++ ['\n'])) = ls := by
  have hsplit : (ls.flatMap (· ++ ['\n'])).splitOnP (· == '\n') = ls ++ [[]] := by
    induction ls with
    | nil => rfl
    | cons line rest ih =>
      rw [List.forall_mem_cons] at h
      have hline : ∀ c ∈ line, (c == '\n') = false := by
        intro c hc
        simpa using ne_of_mem_of_not_mem hc h.1
      rw [List.flatMap_cons, List.append_assoc, List.singleton_append,
        List.splitOnP_append_cons_of_forall_mem hline _ (by simp), ih h.2, List.cons_append]
  simp [lines, hsplit]

/-! Numbers. -/

theorem toNat_of_isDigit {c : Char} (h : c.isDigit = true) : 48 ≤ c.toNat ∧ c.toNat ≤ 57 := by
  simpa [Char.isDigit, UInt32.le_iff_toNat_le] using h

theorem isBlank_of_isDigit {c : Char} (h : c.isDigit = true) : isBlank c = false := by
  have hdigit := toNat_of_isDigit h
  simp only [isBlank, Ranges.contains, blankRanges, List.any_cons, List.any_nil, Bool.or_false,
    Bool.or_eq_false_iff, Bool.and_eq_false_iff, decide_eq_false_iff_not]
  omega

theorem isDigit_of_mem_repr {n : Nat} {c : Char} (h : c ∈ (Nat.repr n).toList) :
    c.isDigit = true := by
  rw [Nat.toList_repr] at h
  exact Nat.isDigit_of_mem_toDigits (by omega) (by omega) h

theorem repr_ne_nil (n : Nat) : (Nat.repr n).toList ≠ [] := by
  rw [Nat.toList_repr]
  exact Nat.toDigits_ne_nil

theorem isWord_repr (n : Nat) : IsWord (Nat.repr n).toList :=
  ⟨repr_ne_nil n, fun _ hc => isBlank_of_isDigit (isDigit_of_mem_repr hc)⟩

theorem digitsValue?_repr (n : Nat) : digitsValue? (Nat.repr n).toList = some n := by
  have hdigits : (Nat.repr n).toList.all Char.isDigit = true :=
    List.all_eq_true.2 fun _ hc => isDigit_of_mem_repr hc
  rw [digitsValue?, if_pos ⟨repr_ne_nil n, hdigits⟩, Nat.toList_repr,
    Nat.ofDigitChars_ten_toDigits]

/-- A number that is shown does not begin with a sign. -/
theorem exists_digit_cons_repr (n : Nat) :
    ∃ d rest, (Nat.repr n).toList = d :: rest ∧ d ≠ '+' ∧ d ≠ '-' := by
  obtain ⟨d, rest, hcons⟩ := List.exists_cons_of_ne_nil (repr_ne_nil n)
  have hd : d.isDigit = true := isDigit_of_mem_repr (hcons ▸ List.mem_cons_self ..)
  refine ⟨d, rest, hcons, ?_, ?_⟩
  · rintro rfl
    exact absurd hd (by decide)
  · rintro rfl
    exact absurd hd (by decide)

/-- A count is read back from its decimal form. -/
theorem readCount?_repr {n : Nat} (h : InCountRange n) :
    readCount? (Nat.repr n).toList = some n := by
  obtain ⟨d, rest, hcons, hplus, -⟩ := exists_digit_cons_repr n
  have hvalue := digitsValue?_repr n
  rw [hcons] at hvalue ⊢
  simp [readCount?, hplus, hvalue, h]

theorem inCountRange_of_readCount? {cs : List Char} {n : Nat} (h : readCount? cs = some n) :
    InCountRange n := by
  simpa using (Option.filter_eq_some_iff.1 h).2

theorem showInt_natAbs (n : Int) :
    (showInt n).toList = if n < 0 then '-' :: (Nat.repr n.natAbs).toList
      else (Nat.repr n.natAbs).toList := by
  unfold showInt
  split
  · simp
  · rfl

/-- An integer is read back from its decimal form. -/
theorem readInt?_showInt {n : Int} (h : InIntRange n) : readInt? (showInt n).toList = some n := by
  have hvalue := digitsValue?_repr n.natAbs
  rw [showInt_natAbs]
  by_cases hneg : n < 0
  · have hn : -(n.natAbs : Int) = n := by omega
    rw [if_pos hneg]
    simp only [readInt?, hvalue]
    simpa [h] using hn
  · obtain ⟨d, rest, hcons, hplus, hminus⟩ := exists_digit_cons_repr n.natAbs
    have hn : (n.natAbs : Int) = n := by omega
    rw [if_neg hneg]
    rw [hcons] at hvalue ⊢
    simp [readInt?, hplus, hminus, hvalue, hn, h]

theorem inIntRange_of_readInt? {cs : List Char} {n : Int} (h : readInt? cs = some n) :
    InIntRange n := by
  simpa using (Option.filter_eq_some_iff.1 h).2

theorem isWord_showInt (n : Int) : IsWord (showInt n).toList := by
  have hdigits := isWord_repr n.natAbs
  rw [showInt_natAbs]
  split
  · refine ⟨by simp, ?_⟩
    intro c hc
    rcases List.mem_cons.1 hc with rfl | hc
    · decide
    · exact hdigits.2 c hc
  · exact hdigits

/-! Quoted text. -/

theorem unescape_escape_append (c : Char) (rest : List Char) :
    unescape (escape c ++ rest) = (unescape rest).map (c :: ·) := by
  rw [escape]
  cases hletter : escapeLetter c with
  | some letter =>
    simp only [List.cons_append, List.nil_append]
    rw [unescape, unescapeLetter_of_escapeLetter hletter]
  | none =>
    have hc : c ≠ '\\' := by
      rintro rfl
      cases hletter
    simp only [List.cons_append, List.nil_append]
    rw [unescape]
    · intro hslash
      exact absurd hslash hc
    · intro letter rest' hslash
      exact absurd hslash hc

theorem unescape_flatMap_escape (cs : List Char) : unescape (cs.flatMap escape) = .ok cs := by
  induction cs with
  | nil => rfl
  | cons c rest ih =>
    rw [List.flatMap_cons, unescape_escape_append, ih]
    rfl

theorem toList_quote (s : String) :
    (quote s).toList = '"' :: (s.toList.flatMap escape ++ ['"']) := by
  simp [quote]

/-- A string is read back from its quoted form. -/
theorem unquote_quote (s : String) : unquote (quote s).toList = .ok s := by
  have hinner : betweenQuotes (quote s).toList = some (s.toList.flatMap escape) := by
    simp [toList_quote, betweenQuotes]
  rw [unquote, hinner]
  simp only [unescape_flatMap_escape, Except.map, String.ofList_toList]

theorem newline_not_mem_escape (c : Char) : '\n' ∉ escape c := by
  rw [escape]
  split
  · rename_i letter hletter
    unfold escapeLetter at hletter
    split at hletter <;> cases hletter <;> decide
  · rename_i hletter
    intro hmem
    cases List.mem_singleton.1 hmem
    cases hletter

/-- A quoted string stands on one line, with no blank at its ends. -/
theorem isPiece_quote (s : String) : IsPiece (quote s).toList := by
  rw [toList_quote]
  refine ⟨⟨'"', rfl, by decide⟩, ⟨'"', ?_, by decide⟩, ?_⟩
  · rw [← List.cons_append, List.getLast?_concat]
  · intro hmem
    simp only [List.mem_cons, List.mem_append, List.mem_flatMap, List.not_mem_nil, or_false] at hmem
    rcases hmem with hquote | ⟨c, -, hc⟩ | hquote
    · cases hquote
    · exact newline_not_mem_escape c hc
    · cases hquote

end StackLang.Text

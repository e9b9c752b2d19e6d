import StackLang.Proofs.PrintedTokens

/-!
Two readers of double-quoted text. The one of programs goes forward to the first quote that is not
escaped; the one of written code takes the quotes off both ends and undoes the escapes between them.
What the first reads as a whole the second reads as the same string. The second accepts more: a
quote and a line feed may stand bare between the quotes, and this is the only difference. Text that
was quoted has neither, so both readers give back what it was made from.
-/
namespace StackLang.Token

open Text

/-- The characters that stand for themselves, those of the escapes left out. -/
def bare : List Char → List Char
  | '\\' :: _ :: rest => bare rest
  | c :: rest => c :: bare rest
  | [] => []

/-- Nothing between the quotes ends the string, or its line, too early. -/
def Unbroken (body : List Char) : Prop := '"' ∉ bare body ∧ '\n' ∉ bare body

instance (body : List Char) : Decidable (Unbroken body) := inferInstanceAs (Decidable (_ ∧ _))

theorem bare_cons {c : Char} (h : c ≠ '\\') (rest : List Char) :
    bare (c :: rest) = c :: bare rest := by
  rw [bare]
  exact fun _ _ hc _ => h hc

theorem unbroken_cons_iff {c : Char} (h : c ≠ '\\') (rest : List Char) :
    Unbroken (c :: rest) ↔ (c ≠ '"' ∧ c ≠ '\n') ∧ Unbroken rest := by
  simp only [Unbroken, bare_cons h, List.mem_cons, not_or, ne_eq, eq_comm (a := c)]
  exact and_and_and_comm

theorem exists_of_map_eq_ok {ε α β : Type} {x : Except ε α} {f : α → β} {b : β}
    (h : x.map f = .ok b) : ∃ a, x = .ok a ∧ f a = b := by
  cases x with
  | error e => cases h
  | ok a => exact ⟨a, rfl, Except.ok.inj h⟩

section

variable {body content cs rest : List Char}

/-- Both readers undo the escapes alike. -/
theorem Quotes.unescape_eq (h : Quotes body content) : unescape body = .ok content := by
  induction h with
  | nil => rfl
  | plain _ hslash _ _ ih =>
    rw [unescape]
    · rw [ih]
      rfl
    · exact fun hc _ => hslash hc
    · exact fun _ _ hc _ => hslash hc
  | escaped hletter _ ih =>
    rw [unescape, hletter]
    simp only [ih]
    rfl

theorem Quotes.unbroken (h : Quotes body content) : Unbroken body := by
  induction h with
  | nil => exact ⟨List.not_mem_nil, List.not_mem_nil⟩
  | plain hquote hslash hline _ ih => exact (unbroken_cons_iff hslash _).2 ⟨⟨hquote, hline⟩, ih⟩
  | escaped _ _ ih => exact ih

theorem quotes_of_unescape (h : unescape body = .ok content) (hbody : Unbroken body) :
    Quotes body content := by
  fun_induction unescape body generalizing content with
  | case1 =>
    cases h
    exact .nil
  | case2 => cases h
  | case3 letter rest c hletter ih =>
    obtain ⟨more, hmore, rfl⟩ := exists_of_map_eq_ok h
    exact .escaped hletter (ih hmore hbody)
  | case4 => cases h
  | case5 c rest hend hescape ih =>
    have hslash : c ≠ '\\' := by
      intro hc
      cases rest with
      | nil => exact hend hc rfl
      | cons letter tail => exact hescape letter tail hc rfl
    obtain ⟨⟨hquote, hline⟩, hrest⟩ := (unbroken_cons_iff hslash _).1 hbody
    obtain ⟨more, hmore, rfl⟩ := exists_of_map_eq_ok h
    exact .plain hquote hslash hline (ih hmore hrest)

/-- A run of characters quotes another just if it is unescaped to that one and nothing in it would
end the string. -/
theorem quotes_iff : Quotes body content ↔ unescape body = .ok content ∧ Unbroken body :=
  ⟨fun h => ⟨h.unescape_eq, h.unbroken⟩, fun h => quotes_of_unescape h.1 h.2⟩

theorem betweenQuotes_cons_eq_some_iff :
    betweenQuotes ('"' :: cs) = some body ↔ cs = body ++ ['"'] := by
  rw [betweenQuotes]
  constructor
  · intro h
    split at h
    · rename_i hlast
      cases h
      obtain ⟨body, rfl⟩ := List.getLast?_eq_some_iff.1 hlast
      rw [List.dropLast_concat]
    · cases h
  · rintro rfl
    rw [List.getLast?_concat, if_pos rfl, List.dropLast_concat]

/-- Written code: the quotes at both ends are taken off first. -/
theorem unquote_cons_eq_ok_iff {x : String} :
    unquote ('"' :: cs) = .ok x ↔ ∃ body, cs = body ++ ['"'] ∧ unescape body = .ok x.toList := by
  rw [unquote]
  constructor
  · intro h
    cases hbody : betweenQuotes ('"' :: cs) with
    | none =>
      rw [hbody] at h
      cases h
    | some body =>
      rw [hbody] at h
      obtain ⟨content, hcontent, rfl⟩ := exists_of_map_eq_ok h
      rw [String.toList_ofList]
      exact ⟨body, betweenQuotes_cons_eq_some_iff.1 hbody, hcontent⟩
  · rintro ⟨body, hbody, hcontent⟩
    simp only [betweenQuotes_cons_eq_some_iff.2 hbody, hcontent, Except.map, String.ofList_toList]

/-- Programs: the string ends with the first quote that is not escaped. -/
theorem readString_eq_ok_iff {p : Position} {x : String} :
    (∃ q, readString p (p.next '"') [] (cs ++ rest) = .ok (.literal (.str x), q, rest)) ↔
      ∃ body, cs = body ++ ['"'] ∧ Quotes body x.toList := by
  constructor
  · rintro ⟨q, hread⟩
    obtain ⟨body, more, htext, hquotes, htoken, -⟩ := quotes_of_readString hread
    rw [List.append_cons, List.append_cancel_right_eq] at htext
    cases htoken
    refine ⟨body, htext, ?_⟩
    rwa [List.reverse_nil, List.nil_append, String.toList_ofList]
  · rintro ⟨body, rfl, hquotes⟩
    refine ⟨((p.next '"').after body).next '"', ?_⟩
    rw [← List.append_cons, readString_of_quotes hquotes, List.reverse_nil, List.nil_append,
      String.ofList_toList]

end

/-- Where a text begins with a quote, the reader of programs takes exactly this text for a string if
and only if the reader of written code does so and nothing bare breaks it; the two strings are the
same. What was quoted is read back by both, and the reader of programs takes all of it, whatever
stands behind. -/
theorem readString_iff_unquote (p : Position) :
    (∀ cs rest x,
      (∃ q, readString p (p.next '"') [] (cs ++ rest) = .ok (.literal (.str x), q, rest)) ↔
        unquote ('"' :: cs) = .ok x ∧ Unbroken cs.dropLast) ∧
    ∀ x : String, unquote (quote x).toList = .ok x ∧
      ∃ cs, (quote x).toList = '"' :: cs ∧ ∀ rest,
        ∃ q, readString p (p.next '"') [] (cs ++ rest) = .ok (.literal (.str x), q, rest) := by
  constructor
  · intro cs rest x
    rw [readString_eq_ok_iff, unquote_cons_eq_ok_iff]
    constructor
    · rintro ⟨body, rfl, hquotes⟩
      obtain ⟨hcontent, hbody⟩ := quotes_iff.1 hquotes
      exact ⟨⟨body, rfl, hcontent⟩, by rwa [List.dropLast_concat]⟩
    · rintro ⟨⟨body, rfl, hcontent⟩, hbody⟩
      rw [List.dropLast_concat] at hbody
      exact ⟨body, rfl, quotes_iff.2 ⟨hcontent, hbody⟩⟩
  · intro x
    refine ⟨unquote_quote x, _, toList_quote x, ?_⟩
    intro rest
    exact readString_eq_ok_iff.2 ⟨_, rfl, quotes_escape x.toList⟩

/-- A quote is bare after an even run of backslashes and escaped after an odd one. -/
example : ¬Unbroken "\\\\\"".toList ∧ Unbroken "\\\\\\\"".toList := by decide

end StackLang.Token

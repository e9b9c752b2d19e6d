import Mathlib.Algebra.Group.Nat.Defs
import Mathlib.Data.List.TakeWhile
import StackLang.Machine.Step
import StackLang.Proofs.TextPieces

/-!
The texts that spell an integer, said without the reader: blanks, at most one sign, one or more
digits that count by their places, and blanks again. The machine converts exactly these, as far as
the language has the integer, and refuses every other text with that text as it is. An integer that
was made a text is converted back, whatever blanks were put around it.
-/
namespace StackLang

namespace Text

/-- One or more decimal digits and their value, each digit counting by its place. -/
inductive Digits : List Char → Nat → Prop
  | last {d : Nat} : d < 10 → Digits [d.digitChar] d
  | cons {d n : Nat} {ds : List Char} : d < 10 → Digits ds n →
    Digits (d.digitChar :: ds) (d * 10 ^ ds.length + n)

/-- Digits with at most one sign in front, and the integer that they spell. -/
inductive Numeral : List Char → Int → Prop
  | unsigned {ds : List Char} {n : Nat} : Digits ds n → Numeral ds n
  | plus {ds : List Char} {n : Nat} : Digits ds n → Numeral ('+' :: ds) n
  | minus {ds : List Char} {n : Nat} : Digits ds n → Numeral ('-' :: ds) (-n)

/-- The text is a numeral of the integer with nothing but blanks around it. -/
def SpellsInt (cs : List Char) (n : Int) : Prop :=
  ∃ before numeral after, cs = before ++ (numeral ++ after) ∧ before.all isBlank = true ∧
    after.all isBlank = true ∧ Numeral numeral n

section

variable {cs ds : List Char}

/-! Digits. -/

theorem exists_digitChar {c : Char} (h : c.isDigit = true) : ∃ d < 10, c = Nat.digitChar d := by
  have hc := toNat_of_isDigit h
  have hlt : c.toNat - 48 < 10 := by omega
  refine ⟨c.toNat - 48, hlt, ?_⟩
  rw [← Char.toNat_inj, Nat.toNat_digitChar_of_lt_ten hlt]
  omega

/-- Digits that follow move a number to higher places. -/
theorem ofDigitChars_eq (ds : List Char) (n : Nat) :
    Nat.ofDigitChars 10 ds n = n * 10 ^ ds.length + Nat.ofDigitChars 10 ds 0 := by
  induction ds generalizing n with
  | nil => simp
  | cons c ds ih =>
    rw [Nat.ofDigitChars_cons, Nat.ofDigitChars_cons, ih, ih (10 * 0 + _), List.length_cons,
      pow_succ, Nat.add_mul, Nat.mul_zero, Nat.zero_add, Nat.add_assoc, Nat.mul_comm 10 n,
      Nat.mul_assoc, Nat.mul_comm 10]

theorem ofDigitChars_digitChar_cons {d : Nat} (hd : d < 10) (ds : List Char) :
    Nat.ofDigitChars 10 (d.digitChar :: ds) 0 =
      d * 10 ^ ds.length + Nat.ofDigitChars 10 ds 0 := by
  have hvalue : 10 * 0 + (d.digitChar.toNat - '0'.toNat) = d := by
    rw [Nat.toNat_digitChar_of_lt_ten hd]
    change 10 * 0 + (48 + d - 48) = d
    omega
  rw [Nat.ofDigitChars_cons, hvalue, ofDigitChars_eq]

theorem digitsValue?_eq_some_iff {n : Nat} :
    digitsValue? cs = some n ↔
      cs ≠ [] ∧ (∀ c ∈ cs, c.isDigit = true) ∧ Nat.ofDigitChars 10 cs 0 = n := by
  simp [digitsValue?, and_assoc]

theorem Digits.digitsValue? {n : Nat} (h : Digits ds n) : digitsValue? ds = some n := by
  induction h with
  | @last d hd =>
    refine digitsValue?_eq_some_iff.2 ⟨by simp, ?_, ?_⟩
    · simp [Nat.isDigit_digitChar, hd]
    · simpa using ofDigitChars_digitChar_cons hd []
  | @cons d n ds hd _ ih =>
    obtain ⟨-, hdigits, rfl⟩ := digitsValue?_eq_some_iff.1 ih
    refine digitsValue?_eq_some_iff.2 ⟨by simp, ?_, ofDigitChars_digitChar_cons hd ds⟩
    simp only [List.forall_mem_cons, Nat.isDigit_digitChar, hd, decide_true, true_and]
    exact hdigits

theorem digits_of_digitsValue? {n : Nat} (h : digitsValue? ds = some n) : Digits ds n := by
  obtain ⟨hne, hdigits, rfl⟩ := digitsValue?_eq_some_iff.1 h
  clear h
  induction ds with
  | nil => exact absurd rfl hne
  | cons c ds ih =>
    rw [List.forall_mem_cons] at hdigits
    obtain ⟨d, hd, rfl⟩ := exists_digitChar hdigits.1
    rw [ofDigitChars_digitChar_cons hd]
    cases ds with
    | nil =>
      rw [List.length_nil, pow_zero, Nat.mul_one]
      exact .last hd
    | cons c' ds' => exact .cons hd (ih (by simp) hdigits.2)

/-- The number of a word of digits by place value is the one that is read. -/
theorem digits_iff {n : Nat} : Digits ds n ↔ digitsValue? ds = some n :=
  ⟨Digits.digitsValue?, digits_of_digitsValue?⟩

/-! Numerals. -/

theorem Digits.isDigit {n : Nat} (h : Digits ds n) : ∀ c ∈ ds, c.isDigit = true :=
  (digitsValue?_eq_some_iff.1 h.digitsValue?).2.1

theorem Digits.isWord {n : Nat} (h : Digits ds n) : IsWord ds :=
  ⟨(digitsValue?_eq_some_iff.1 h.digitsValue?).1, fun c hc => isBlank_of_isDigit (h.isDigit c hc)⟩

theorem Numeral.isWord {n : Int} (h : Numeral cs n) : IsWord cs := by
  cases h with
  | unsigned hdigits => exact hdigits.isWord
  | plus hdigits => exact ⟨by simp, List.forall_mem_cons.2 ⟨by decide, hdigits.isWord.2⟩⟩
  | minus hdigits => exact ⟨by simp, List.forall_mem_cons.2 ⟨by decide, hdigits.isWord.2⟩⟩

/-- The reader accepts the numerals of the integers that the language has. -/
theorem readInt?_eq_some_iff {n : Int} : readInt? cs = some n ↔ Numeral cs n ∧ InIntRange n := by
  unfold readInt?
  rw [Option.filter_eq_some_iff, decide_eq_true_eq, and_congr_left_iff]
  intro _
  constructor
  · intro h
    split at h
    · obtain ⟨k, hk, rfl⟩ := Option.map_eq_some_iff.1 h
      exact .plus (digits_iff.2 hk)
    · obtain ⟨_, hint, rfl⟩ := Option.map_eq_some_iff.1 h
      obtain ⟨k, hk, hpure⟩ := Option.bind_eq_some_iff.1 hint
      cases hpure
      exact .minus (digits_iff.2 hk)
    · obtain ⟨k, hk, rfl⟩ := Option.map_eq_some_iff.1 h
      exact .unsigned (digits_iff.2 hk)
  · intro h
    cases h with
    | plus hdigits => exact Option.map_eq_some_iff.2 ⟨_, hdigits.digitsValue?, rfl⟩
    | minus hdigits =>
      refine Option.map_eq_some_iff.2 ⟨_, ?_, rfl⟩
      exact Option.bind_eq_some_iff.2 ⟨_, hdigits.digitsValue?, rfl⟩
    | unsigned hdigits =>
      -- A digit in front is not a sign.
      split
      · exact absurd (hdigits.isDigit '+' (by simp)) (by decide)
      · exact absurd (hdigits.isDigit '-' (by simp)) (by decide)
      · exact Option.map_eq_some_iff.2 ⟨_, hdigits.digitsValue?, rfl⟩

/-! Blanks around a text. -/

theorem trimEnd_append {blanks : List Char} (h : blanks.all isBlank = true) (cs : List Char) :
    trimEnd (cs ++ blanks) = trimEnd cs := by
  have hrev : ∀ c ∈ blanks.reverse, isBlank c = true := by
    simpa using h
  rw [trimEnd, trimEnd, List.reverse_append, List.dropWhile_append_of_pos hrev]

/-- Blanks at the end are dropped, also where all in front of them is dropped too. -/
theorem trim_append_blanks {blanks : List Char} (h : blanks.all isBlank = true) (cs : List Char) :
    trim (cs ++ blanks) = trim cs := by
  rw [trim, trim, List.dropWhile_append]
  split
  · rename_i hempty
    have hblanks : blanks.dropWhile isBlank = [] :=
      List.dropWhile_eq_nil_iff.2 (List.all_eq_true.1 h)
    rw [hblanks, List.isEmpty_iff.1 hempty]
  · exact trimEnd_append h _

/-- Only blanks are cut off. -/
theorem exists_trim (cs : List Char) :
    ∃ before after, cs = before ++ (trim cs ++ after) ∧ before.all isBlank = true ∧
      after.all isBlank = true := by
  have hback : ∀ ds : List Char, ds = trimEnd ds ++ (ds.reverse.takeWhile isBlank).reverse := by
    intro ds
    rw [trimEnd, ← List.reverse_append, List.takeWhile_append_dropWhile, List.reverse_reverse]
  refine ⟨cs.takeWhile isBlank, ((cs.dropWhile isBlank).reverse.takeWhile isBlank).reverse,
    ?_, List.all_takeWhile, ?_⟩
  · rw [trim, ← hback, List.takeWhile_append_dropWhile]
  · rw [List.all_reverse]
    exact List.all_takeWhile

end

end Text

open Text

/-- A text is converted just if it spells an integer of the language, and then to this one. -/
theorem Native.parseInt?_eq_some_iff {text : String} {n : Int} :
    Native.parseInt? text = some n ↔ SpellsInt text.toList n ∧ InIntRange n := by
  rw [Native.parseInt?, readInt?_eq_some_iff, and_congr_left_iff]
  intro _
  constructor
  · intro h
    obtain ⟨before, after, htext, hbefore, hafter⟩ := exists_trim text.toList
    exact ⟨before, _, after, htext, hbefore, hafter, h⟩
  · rintro ⟨before, numeral, after, htext, hbefore, hafter, h⟩
    rwa [htext, trim_append hbefore, trim_append_blanks hafter, h.isWord.isPiece.trim_eq]

/-- What is shown of an integer spells it, with any blanks around. -/
theorem Text.spellsInt_showInt {n : Int} (hn : InIntRange n) {before after : List Char}
    (hbefore : before.all isBlank = true) (hafter : after.all isBlank = true) :
    SpellsInt (before ++ ((showInt n).toList ++ after)) n :=
  ⟨before, _, after, rfl, hbefore, hafter, (readInt?_eq_some_iff.1 (readInt?_showInt hn)).1⟩

/-- The machine converts a text to an integer just if the text spells this integer, and the language
has it; else it refuses the text, and says which it was. Every integer of the language is shown as
a text that is converted to this integer again, with any blanks around it. -/
theorem State.callNative_strToInt_iff (s : State) :
    (∀ text n, s.callNative .strToInt (.str text) = .next (s.push (.int n)) ↔
      SpellsInt text.toList n ∧ InIntRange n) ∧
    (∀ text, s.callNative .strToInt (.str text) = .fault (.conversion text) s ↔
      ¬∃ n, SpellsInt text.toList n ∧ InIntRange n) ∧
    ∀ n before after, InIntRange n → before.toList.all isBlank = true →
      after.toList.all isBlank = true →
      ∃ shown, s.callNative .intToStr (.int n) = .next (s.push (.str shown)) ∧
        s.callNative .strToInt (.str (before ++ shown ++ after)) = .next (s.push (.int n)) := by
  have hnext : ∀ {text n}, s.callNative .strToInt (.str text) = .next (s.push (.int n)) ↔
      Native.parseInt? text = some n := by
    intro text n
    rw [State.callNative]
    cases Native.parseInt? text <;> simp [State.push, Stack.push]
  refine ⟨?_, ?_, ?_⟩
  · intro text n
    rw [hnext, Native.parseInt?_eq_some_iff]
  · intro text
    simp only [← Native.parseInt?_eq_some_iff]
    rw [State.callNative]
    cases Native.parseInt? text <;> simp
  · intro n before after hn hbefore hafter
    refine ⟨showInt n, rfl, ?_⟩
    rw [hnext, Native.parseInt?_eq_some_iff, String.toList_append, String.toList_append,
      List.append_assoc]
    exact ⟨spellsInt_showInt hn hbefore hafter, hn⟩

/-- The least integer, between blanks that are not ASCII. -/
theorem State.callNative_strToInt_iff_least :
    InIntRange (-0x8000000000000000) ∧ "\u3000\t".toList.all isBlank = true ∧
      "\u0085".toList.all isBlank = true ∧
      ∃ shown, (State.fresh 0).callNative .intToStr (.int (-0x8000000000000000)) =
          .next ((State.fresh 0).push (.str shown)) ∧
        (State.fresh 0).callNative .strToInt (.str ("\u3000\t" ++ shown ++ "\u0085")) =
          .next ((State.fresh 0).push (.int (-0x8000000000000000))) := by
  have hrange : InIntRange (-0x8000000000000000) := by decide
  have hbefore : "\u3000\t".toList.all isBlank = true := by decide
  have hafter : "\u0085".toList.all isBlank = true := by decide
  exact ⟨hrange, hbefore, hafter,
    (State.callNative_strToInt_iff (.fresh 0)).2.2 _ _ _ hrange hbefore hafter⟩

end StackLang

import StackLang.Code.Text
import StackLang.Proofs.Resolved
import StackLang.Proofs.TextPieces

/-!
Tables that survive being written as text. A table is read back as it was if its numbers are in
range, its names are words and its frames have room for the parameters, and only then: reading
gives no other tables.
-/
namespace StackLang

open Text

def Instr.InRange : Instr → Prop
  | .push (.int n) => InIntRange n
  | .load (.frame i) | .load (.global i) | .store (.frame i) | .store (.global i) => InCountRange i
  | .jump target | .jumpIf target => InCountRange target
  | .native i => InCountRange i
  | _ => True

structure FunctionCode.InRange (f : FunctionCode) : Prop where
  params : InCountRange f.paramCount
  locals : InCountRange f.localCount
  code : ∀ i ∈ f.code.toList, i.InRange

/-- All counts and indices of the table have 64 bits, and all integers 64 bits with a sign. -/
structure Table.InRange (t : Table) : Prop where
  globals : InCountRange t.globalCount
  count : InCountRange t.functions.length
  functions : ∀ f ∈ t.functions, f.InRange

/-- A name that stands for itself in a line of words: it is not empty and has no blank in it. -/
def IsName (name : String) : Prop := IsWord name.toList

structure FunctionCode.Readable (f : FunctionCode) : Prop where
  name : IsName f.name
  calls : ∀ target, .call target ∈ f.code.toList → IsName target
  frame : f.paramCount ≤ f.localCount

def Table.Readable (t : Table) : Prop := ∀ f ∈ t.functions, f.Readable

theorem readCount_repr {n : Nat} (h : InCountRange n) : readCount (Nat.repr n).toList = .ok n := by
  rw [readCount, readCount?_repr h]

theorem readCount_inRange {cs : List Char} {n : Nat} (h : readCount cs = .ok n) :
    InCountRange n := by
  rw [readCount] at h
  split at h
  · rename_i m hm
    cases h
    exact inCountRange_of_readCount? hm
  · cases h

/-! Instructions. -/

namespace Instr

def Written (i : Instr) : Prop := i.InRange ∧ ∀ target, i = .call target → IsName target

/-- A mnemonic is a word, and does not look like the end of a function. -/
theorem isWord_mnemonic (i : Instr) :
    IsWord i.mnemonic.toList ∧ i.mnemonic.toList.head? ≠ some ':' := by
  cases i with
  | push value => cases value <;> simp only [mnemonic] <;> decide
  | load slot => cases slot <;> simp only [mnemonic] <;> decide
  | store slot => cases slot <;> simp only [mnemonic] <;> decide
  | unary op => cases op <;> decide
  | binary op => cases op <;> decide
  | _ =>
    simp only [mnemonic]
    decide

theorem isPiece_operand {i : Instr} {operand : String} (h : i.Written)
    (hoperand : i.operand? = some operand) : IsPiece operand.toList := by
  cases i with
  | push value =>
    cases value with
    | int n =>
      cases hoperand
      exact (isWord_showInt n).isPiece
    | bool b =>
      cases hoperand
      have hword : IsWord (Value.bool b).display.toList := by cases b <;> decide
      exact hword.isPiece
    | str s =>
      cases hoperand
      exact isPiece_quote s
    | nothing => cases hoperand
  | load slot =>
    cases slot <;> cases hoperand <;> exact (isWord_repr _).isPiece
  | store slot =>
    cases slot <;> cases hoperand <;> exact (isWord_repr _).isPiece
  | jump target =>
    cases hoperand
    exact (isWord_repr target).isPiece
  | jumpIf target =>
    cases hoperand
    exact (isWord_repr target).isPiece
  | native index =>
    cases hoperand
    exact (isWord_repr index).isPiece
  | call function =>
    cases hoperand
    exact IsWord.isPiece (h.2 operand rfl)
  | _ => cases hoperand

theorem ofText_append_space {mnemonic operand : List Char} (h : IsWord mnemonic)
    (h' : IsPiece operand) :
    ofText (mnemonic ++ ' ' :: operand) = ofParts (String.ofList mnemonic) (some operand) := by
  rw [ofText, List.takeWhile_append_of_pos h.ne_space, List.dropWhile_append_of_pos h.ne_space]
  simp [h'.trim_eq]

theorem ofText_word {mnemonic : List Char} (h : IsWord mnemonic) :
    ofText mnemonic = ofParts (String.ofList mnemonic) none := by
  have htake := @List.takeWhile_append_of_pos _ _ _ [] h.ne_space
  have hdrop := @List.dropWhile_append_of_pos _ _ _ [] h.ne_space
  rw [List.append_nil, List.takeWhile_nil, List.append_nil] at htake
  rw [List.append_nil, List.dropWhile_nil] at hdrop
  rw [ofText, htake, hdrop]

theorem required_some {mnemonic : String} {operand : List Char} (h : operand ≠ []) :
    required mnemonic (some operand) = .ok operand := by
  cases operand with
  | nil => exact absurd rfl h
  | cons c cs => rfl

theorem required_ne_nil {mnemonic : String} {operand : Option (List Char)} {cs : List Char}
    (h : required mnemonic operand = .ok cs) : cs ≠ [] := by
  unfold required at h
  split at h
  · cases h
    simp
  · cases h

theorem ofParts_index {mnemonic : String} {i : Nat} (h : InCountRange i) (make : Nat → Instr) :
    (do return make (← readCount (← required mnemonic (some (Nat.repr i).toList)))) =
      (.ok (make i) : Except TextFault Instr) := by
  rw [required_some (repr_ne_nil i), ok_bind, readCount_repr h]
  rfl

theorem ofParts_lint (operand : Option (List Char)) :
    ofParts "lint" operand = (do
      match readInt? (← required "lint" operand) with
      | some n => return .push (.int n)
      | none => .error .badInteger) := rfl

theorem ofParts_lstr (operand : Option (List Char)) :
    ofParts "lstr" operand = (do
      return .push (.str (← readQuoted (← required "lstr" operand)))) := rfl

theorem ofParts_call (operand : Option (List Char)) :
    ofParts "call" operand = (do
      let name ← required "call" operand
      if name.any isBlank then .error .blankInName else return .call (String.ofList name)) := rfl

/-- An instruction is read back from its mnemonic and its operand. -/
theorem ofParts_mnemonic {i : Instr} (h : i.Written) :
    ofParts i.mnemonic (i.operand?.map (·.toList)) = .ok i := by
  cases i with
  | push value =>
    cases value with
    | int n =>
      simp only [mnemonic, operand?, Option.map_some, ofParts_lint,
        required_some (isWord_showInt n).1, ok_bind, readInt?_showInt h.1, pure_eq_ok]
    | bool b =>
      cases b <;> rfl
    | str s =>
      simp only [mnemonic, operand?, Option.map_some, ofParts_lstr,
        required_some (isPiece_quote s).ne_nil, ok_bind, readQuoted, unquote_quote, pure_eq_ok]
    | nothing => rfl
  | load slot =>
    cases slot with
    | frame i => exact ofParts_index h.1 (.load ∘ .frame)
    | global i => exact ofParts_index h.1 (.load ∘ .global)
  | store slot =>
    cases slot with
    | frame i => exact ofParts_index h.1 (.store ∘ .frame)
    | global i => exact ofParts_index h.1 (.store ∘ .global)
  | unary op => cases op <;> rfl
  | binary op => cases op <;> rfl
  | pop => rfl
  | jump target => exact ofParts_index h.1 .jump
  | jumpIf target => exact ofParts_index h.1 .jumpIf
  | call function =>
    have hname : IsWord function.toList := h.2 function rfl
    have hblank : function.toList.any isBlank = false :=
      List.any_eq_false.2 (by simpa using hname.2)
    simp only [mnemonic, operand?, Option.map_some, ofParts_call, required_some hname.1, ok_bind,
      hblank, Bool.false_eq_true, if_false, String.ofList_toList, pure_eq_ok]
  | native index => exact ofParts_index h.1 .native
  | ret => rfl

theorem text_of_some {i : Instr} {operand : String} (h : i.operand? = some operand) :
    i.text.toList = i.mnemonic.toList ++ ' ' :: operand.toList := by
  simp [text, h]

theorem text_of_none {i : Instr} (h : i.operand? = none) : i.text = i.mnemonic := by
  simp [text, h]

theorem isPiece_text {i : Instr} (h : i.Written) : IsPiece i.text.toList := by
  have hword := i.isWord_mnemonic.1.isPiece
  cases hoperand : i.operand? with
  | some operand =>
    rw [text_of_some hoperand]
    exact hword.append_space (isPiece_operand h hoperand)
  | none =>
    rw [text_of_none hoperand]
    exact hword

theorem head?_text_ne (i : Instr) : i.text.toList.head? ≠ some ':' := by
  obtain ⟨hword, hcolon⟩ := i.isWord_mnemonic
  cases hoperand : i.operand? with
  | some operand =>
    obtain ⟨c, hc, -⟩ := hword.isPiece.head
    rw [text_of_some hoperand, List.head?_append, hc, Option.some_or]
    rwa [hc] at hcolon
  | none =>
    rw [text_of_none hoperand]
    exact hcolon

/-- An instruction is read back from its line. -/
theorem ofText_text {i : Instr} (h : i.Written) : ofText i.text.toList = .ok i := by
  have hparts := ofParts_mnemonic h
  have hword := i.isWord_mnemonic.1
  cases hoperand : i.operand? with
  | some operand =>
    rw [hoperand, Option.map_some] at hparts
    rw [text_of_some hoperand, ofText_append_space hword (isPiece_operand h hoperand),
      String.ofList_toList]
    exact hparts
  | none =>
    rw [hoperand, Option.map_none] at hparts
    rw [text_of_none hoperand, ofText_word hword, String.ofList_toList]
    exact hparts

theorem written_of_index {mnemonic : String} {operand : Option (List Char)} {make : Nat → Instr}
    {i : Instr} (h : (do return make (← readCount (← required mnemonic operand))) = Except.ok i)
    (hmake : ∀ n, InCountRange n → (make n).Written) : i.Written := by
  simp only [bind_eq_ok_iff, pure_eq_ok, Except.ok.injEq] at h
  obtain ⟨cs, -, n, hn, rfl⟩ := h
  exact hmake n (readCount_inRange hn)

/-- The mnemonics that are read without an operand are those that are written without one. -/
theorem plain?_eq_some_iff {mnemonic : String} {i : Instr} :
    plain? mnemonic = some i ↔ i.mnemonic = mnemonic ∧ i.operand? = none := by
  constructor
  · intro h
    unfold plain? at h
    split at h <;> cases h <;> exact ⟨rfl, rfl⟩
  · rintro ⟨rfl, hoperand⟩
    cases i with
    | push value => cases value <;> first | rfl | cases hoperand
    | load slot => cases slot <;> cases hoperand
    | store slot => cases slot <;> cases hoperand
    | unary op => cases op <;> rfl
    | binary op => cases op <;> rfl
    | pop => rfl
    | ret => rfl
    | _ => cases hoperand

theorem written_of_operand?_eq_none {i : Instr} (h : i.operand? = none) : i.Written := by
  cases i with
  | push value => cases value <;> first | exact ⟨trivial, nofun⟩ | cases h
  | load slot => cases slot <;> cases h
  | store slot => cases slot <;> cases h
  | unary op => exact ⟨trivial, nofun⟩
  | binary op => exact ⟨trivial, nofun⟩
  | pop => exact ⟨trivial, nofun⟩
  | ret => exact ⟨trivial, nofun⟩
  | _ => cases h

theorem ofParts_written {mnemonic : String} {operand : Option (List Char)} {i : Instr}
    (h : ofParts mnemonic operand = .ok i) : i.Written := by
  unfold ofParts at h
  split at h
  -- The instructions with an index are all alike.
  any_goals exact written_of_index h fun _ hn => ⟨hn, nofun⟩
  · obtain ⟨cs, -, hint⟩ := bind_eq_ok_iff.1 h
    split at hint
    · rename_i n hn
      cases hint
      exact ⟨inIntRange_of_readInt? hn, nofun⟩
    · cases hint
  · obtain ⟨cs, -, hbool⟩ := bind_eq_ok_iff.1 h
    cases hbool
    exact ⟨trivial, nofun⟩
  · obtain ⟨cs, -, hstr⟩ := bind_eq_ok_iff.1 h
    obtain ⟨s, -, hdone⟩ := bind_eq_ok_iff.1 hstr
    cases hdone
    exact ⟨trivial, nofun⟩
  · obtain ⟨name, hname, hcall⟩ := bind_eq_ok_iff.1 h
    split at hcall
    · cases hcall
    · rename_i hblank
      cases hcall
      refine ⟨trivial, ?_⟩
      rintro target ⟨rfl⟩
      rw [IsName, String.toList_ofList]
      exact ⟨required_ne_nil hname, by simpa using hblank⟩
  · split at h
    · cases h
    · cases h
    · rename_i hplain
      cases h
      exact written_of_operand?_eq_none (plain?_eq_some_iff.1 hplain).2

theorem ofText_written {line : List Char} {i : Instr} (h : ofText line = .ok i) : i.Written := by
  rw [ofText] at h
  split at h
  · exact ofParts_written h
  · exact ofParts_written h

end Instr

/-! Lines. -/

def contents (ls : List (List Char)) : List (List Char) :=
  (ls.map trim).filter fun line => !line.isEmpty

theorem contents_append (ls ms : List (List Char)) :
    contents (ls ++ ms) = contents ls ++ contents ms := by
  simp [contents]

theorem contents_cons {line content : List Char} (h : trim line = content) (hne : content ≠ [])
    (ls : List (List Char)) : contents (line :: ls) = content :: contents ls := by
  simp [contents, h, hne]

theorem contents_nil_cons (ls : List (List Char)) : contents ([] :: ls) = contents ls := rfl

theorem contents_flatMap {α : Type} {f g : α → List (List Char)} {l : List α}
    (h : ∀ a ∈ l, contents (f a) = g a) : contents (l.flatMap f) = l.flatMap g := by
  induction l with
  | nil => rfl
  | cons a rest ih =>
    rw [List.forall_mem_cons] at h
    rw [List.flatMap_cons, List.flatMap_cons, contents_append, h.1, ih h.2]

/-- The numbers of the lines do not matter for what stands in them. -/
theorem texts_contentLines (cs : List Char) :
    (contentLines cs).map (·.text) = contents (lines cs) := by
  have hfrom : ∀ (ls : List (List Char)) (k : Nat),
      (((ls.zipIdx k).map fun pair => (⟨pair.2 + 1, trim pair.1⟩ : Line)).filter
        fun line => !line.text.isEmpty).map (·.text) = contents ls := by
    intro ls
    induction ls with
    | nil => exact fun _ => rfl
    | cons line rest ih =>
      intro k
      have hrest := ih (k + 1)
      simp only [contents, List.zipIdx_cons, List.map_cons, List.filter_cons] at hrest ⊢
      split
      · rw [List.map_cons, hrest]
      · exact hrest
  exact hfrom (lines cs) 0

namespace FunctionCode

def header (f : FunctionCode) : List Char :=
  f.name.toList ++ ' ' :: ((Nat.repr f.paramCount).toList ++ ' ' :: (Nat.repr f.localCount).toList)

def ending (f : FunctionCode) : List Char := ':' :: f.name.toList

def writtenLines (f : FunctionCode) : List (List Char) :=
  [] :: f.header :: (f.code.toList.map fun i => List.replicate 4 ' ' ++ i.text.toList) ++ [f.ending]

def contentTexts (f : FunctionCode) : List (List Char) :=
  f.header :: f.code.toList.map (·.text.toList) ++ [f.ending]

def Written (f : FunctionCode) : Prop := f.InRange ∧ f.Readable

variable {f : FunctionCode}

theorem Written.instr {i : Instr} (h : f.Written) (hi : i ∈ f.code.toList) : i.Written := by
  refine ⟨h.1.code i hi, ?_⟩
  rintro target rfl
  exact h.2.calls target hi

theorem isPiece_header (h : f.Written) : IsPiece f.header :=
  (IsWord.isPiece h.2.name).append_space
    ((isWord_repr f.paramCount).isPiece.append_space (isWord_repr f.localCount).isPiece)

theorem isPiece_ending (h : f.Written) : IsPiece f.ending := by
  have hname : IsWord f.name.toList := h.2.name
  have hword : IsWord f.ending := by
    refine ⟨by simp [ending], ?_⟩
    intro c hc
    rcases List.mem_cons.1 hc with rfl | hc
    · decide
    · exact hname.2 c hc
  exact hword.isPiece

theorem toList_text (f : FunctionCode) : f.text.toList = f.writtenLines.flatMap (· ++ ['\n']) := by
  -- An equation for the definition would take seconds to make.
  delta FunctionCode.text
  simp [writtenLines, header, ending, List.flatMap_map]

theorem newline_not_mem (h : f.Written) : ∀ line ∈ f.writtenLines, '\n' ∉ line := by
  intro line hline
  simp only [writtenLines, List.mem_cons, List.mem_append, List.mem_map, List.not_mem_nil,
    or_false] at hline
  rcases hline with (rfl | rfl | ⟨i, hi, rfl⟩) | rfl
  · simp
  · exact (isPiece_header h).oneLine
  · simpa using (Instr.isPiece_text (h.instr hi)).oneLine
  · exact (isPiece_ending h).oneLine

theorem contents_writtenLines (h : f.Written) : contents f.writtenLines = f.contentTexts := by
  have hcode : ∀ code : List Instr, (∀ i ∈ code, i.Written) →
      contents (code.map fun i => List.replicate 4 ' ' ++ i.text.toList) =
        code.map (·.text.toList) := by
    intro code hwritten
    induction code with
    | nil => rfl
    | cons i rest ih =>
      rw [List.forall_mem_cons] at hwritten
      have hpiece := Instr.isPiece_text hwritten.1
      have htrim : trim (List.replicate 4 ' ' ++ i.text.toList) = i.text.toList := by
        rw [trim_append (by decide), hpiece.trim_eq]
      rw [List.map_cons, contents_cons htrim hpiece.ne_nil, ih hwritten.2, List.map_cons]
  have hheader := isPiece_header h
  have hending := isPiece_ending h
  rw [writtenLines, contentTexts, contents_append, contents_nil_cons,
    contents_cons hheader.trim_eq hheader.ne_nil, hcode _ fun i hi => h.instr hi,
    contents_cons hending.trim_eq hending.ne_nil]
  rfl

end FunctionCode

def Table.writtenLines (t : Table) : List (List Char) :=
  (Nat.repr t.globalCount).toList :: (Nat.repr t.functions.length).toList ::
    t.functions.flatMap FunctionCode.writtenLines

theorem Table.toList_text (t : Table) : t.text.toList = t.writtenLines.flatMap (· ++ ['\n']) := by
  simp [Table.text, writtenLines, List.flatMap_map, FunctionCode.toList_text, List.flatMap_assoc]

/-- What the reader finds in the text of a table. -/
theorem Table.texts_contentLines (t : Table) (h : ∀ f ∈ t.functions, f.Written) :
    (contentLines t.text.toList).map (·.text) =
      (Nat.repr t.globalCount).toList :: (Nat.repr t.functions.length).toList ::
        t.functions.flatMap FunctionCode.contentTexts := by
  have hglobals := (isWord_repr t.globalCount).isPiece
  have hcount := (isWord_repr t.functions.length).isPiece
  have honeLine : ∀ line ∈ t.writtenLines, '\n' ∉ line := by
    rw [writtenLines, List.forall_mem_cons, List.forall_mem_cons]
    refine ⟨hglobals.oneLine, hcount.oneLine, ?_⟩
    intro line hline
    obtain ⟨f, hf, hmem⟩ := List.mem_flatMap.1 hline
    exact FunctionCode.newline_not_mem (h f hf) line hmem
  rw [StackLang.texts_contentLines, Table.toList_text, lines_flatMap honeLine, writtenLines,
    contents_cons hglobals.trim_eq hglobals.ne_nil, contents_cons hcount.trim_eq hcount.ne_nil,
    contents_flatMap fun f hf => FunctionCode.contents_writtenLines (h f hf)]

/-! Reading back. -/

/-- The reader takes the instructions and the end of a function off the lines. -/
theorem readInstrs_texts {name : List Char} {n : Nat} {code : List Instr} {ls : List Line}
    {rest : List (List Char)} (done : List Instr) (h : ∀ i ∈ code, i.Written)
    (hls : ls.map (·.text) = code.map (·.text.toList) ++ (':' :: name) :: rest) :
    ∃ ls', ls'.map (·.text) = rest ∧
      readInstrs name n done ls = .ok (done.reverse ++ code, ls') := by
  -- On the instructions that are left; those already read wait in `done`.
  induction code generalizing ls done with
  | nil =>
    obtain ⟨line, ls', rfl, hline, hls'⟩ := List.map_eq_cons_iff.1 hls
    obtain ⟨number, text⟩ := line
    cases hline
    exact ⟨ls', hls', by simp [readInstrs]⟩
  | cons i code ih =>
    rw [List.forall_mem_cons] at h
    obtain ⟨line, tail, rfl, hline, htail⟩ := List.map_eq_cons_iff.1 hls
    obtain ⟨number, text⟩ := line
    obtain rfl : text = i.text.toList := hline
    obtain ⟨ls', hls', hread⟩ := ih (i :: done) h.2 htail
    refine ⟨ls', hls', ?_⟩
    have hcolon : ∀ found, i.text.toList ≠ ':' :: found := by
      intro found heq
      exact i.head?_text_ne (by rw [heq, List.head?_cons])
    rw [readInstrs, Instr.ofText_text h.1]
    · simpa using hread
    · exact hcolon

theorem FunctionCode.readHeader_header {f : FunctionCode} (h : f.Written) :
    readHeader f.header = .ok (f.name.toList, f.paramCount, f.localCount) := by
  have hframe : ¬f.localCount < f.paramCount := Nat.not_lt.2 h.2.frame
  rw [readHeader, header, words_three h.2.name (isWord_repr _) (isWord_repr _)]
  simp only [readCount_repr h.1.params, readCount_repr h.1.locals, ok_bind, if_neg hframe]
  rfl

/-- A function is read back from its lines, and the lines behind it are left. -/
theorem FunctionCode.ofLines_texts {f : FunctionCode} {n : Nat} {ls : List Line}
    {rest : List (List Char)} (h : f.Written) (hls : ls.map (·.text) = f.contentTexts ++ rest) :
    ∃ ls', ls'.map (·.text) = rest ∧ ofLines n ls = .ok (f, ls') := by
  rw [contentTexts, List.cons_append, List.cons_append] at hls
  obtain ⟨line, tail, rfl, hline, htail⟩ := List.map_eq_cons_iff.1 hls
  rw [List.append_assoc] at htail
  obtain ⟨ls', hls', hread⟩ := readInstrs_texts (n := n) [] (fun i hi => h.instr hi) htail
  refine ⟨ls', hls', ?_⟩
  simp only [ofLines, hline, readHeader_header h, hread, ok_bind, List.reverse_nil, List.nil_append,
    String.ofList_toList, Array.toArray_toList, pure_eq_ok]

theorem FunctionCode.manyOfLines_texts {fs : List FunctionCode} {n : Nat} {ls : List Line}
    (h : ∀ f ∈ fs, f.Written) (hls : ls.map (·.text) = fs.flatMap contentTexts) :
    manyOfLines n fs.length ls = .ok (fs, []) := by
  induction fs generalizing ls with
  | nil =>
    rw [List.flatMap_nil, List.map_eq_nil_iff] at hls
    rw [hls]
    rfl
  | cons f rest ih =>
    rw [List.forall_mem_cons] at h
    rw [List.flatMap_cons] at hls
    obtain ⟨ls', hls', hfirst⟩ := ofLines_texts (n := n) h.1 hls
    simp only [List.length_cons, manyOfLines, hfirst, ok_bind, ih h.2 hls', pure_eq_ok]

/-- A table is read back from its text. -/
theorem Table.ofText_text {t : Table} (hrange : t.InRange) (hreadable : t.Readable) :
    Table.ofText t.text = .ok t := by
  have hwritten : ∀ f ∈ t.functions, f.Written :=
    fun f hf => ⟨hrange.functions f hf, hreadable f hf⟩
  obtain ⟨line, ls, hlines, hline, hls⟩ := List.map_eq_cons_iff.1 (t.texts_contentLines hwritten)
  obtain ⟨line', ls', rfl, hline', hls'⟩ := List.map_eq_cons_iff.1 hls
  rw [Table.ofText]
  simp only [hlines, readCountLine, hline, readCount_repr hrange.globals, ok_bind, hline',
    readCount_repr hrange.count, FunctionCode.manyOfLines_texts hwritten hls']
  rfl

/-! What is read can be written. -/

theorem readInstrs_written {name : List Char} {n : Nat} {done code : List Instr}
    {ls rest : List Line} (h : readInstrs name n done ls = .ok (code, rest))
    (hdone : ∀ i ∈ done, i.Written) : ∀ i ∈ code, i.Written := by
  fun_induction readInstrs name n done ls with
  | case1 => cases h
  | case2 done number rest' =>
    cases h
    simpa using hdone
  | case3 => cases h
  | case4 done number text rest' hcolon i hi ih =>
    apply ih h
    rw [List.forall_mem_cons]
    exact ⟨Instr.ofText_written hi, hdone⟩
  | case5 => cases h

namespace FunctionCode

theorem readHeader_ok {text name : List Char} {params locals : Nat}
    (h : readHeader text = .ok (name, params, locals)) :
    IsWord name ∧ InCountRange params ∧ InCountRange locals ∧ params ≤ locals := by
  rw [readHeader] at h
  split at h
  · rename_i first second third hwords
    simp only [bind_eq_ok_iff] at h
    obtain ⟨p, hp, l, hl, hdone⟩ := h
    split at hdone
    · cases hdone
    · rename_i hframe
      cases hdone
      refine ⟨isWord_of_mem_words (hwords ▸ List.mem_cons_self ..), readCount_inRange hp,
        readCount_inRange hl, Nat.not_lt.1 hframe⟩
  · cases h

/-- Every function that was read can be written so that it is read back. -/
theorem ofLines_written {n : Nat} {ls rest : List Line} {f : FunctionCode}
    (h : ofLines n ls = .ok (f, rest)) : f.Written := by
  cases ls with
  | nil => cases h
  | cons header ls =>
    simp only [ofLines] at h
    split at h
    · cases h
    · rename_i name params locals hheader
      obtain ⟨hname, hparams, hlocals, hframe⟩ := readHeader_ok hheader
      obtain ⟨⟨code, rest'⟩, hcode, hdone⟩ := bind_eq_ok_iff.1 h
      cases hdone
      have hwritten := readInstrs_written hcode (by simp)
      refine ⟨⟨hparams, hlocals, ?_⟩, ?_, ?_, hframe⟩
      · intro i hi
        exact (hwritten i hi).1
      · rw [IsName, String.toList_ofList]
        exact hname
      · intro target htarget
        exact (hwritten _ htarget).2 target rfl

theorem manyOfLines_written {n count : Nat} {ls rest : List Line} {fs : List FunctionCode}
    (h : manyOfLines n count ls = .ok (fs, rest)) : fs.length = count ∧ ∀ f ∈ fs, f.Written := by
  induction count generalizing ls fs with
  | zero =>
    cases h
    simp
  | succ count ih =>
    simp only [manyOfLines, bind_eq_ok_iff, Prod.exists] at h
    obtain ⟨first, ls', hfirst, others, rest', hothers, hdone⟩ := h
    cases hdone
    obtain ⟨hlength, hwritten⟩ := ih hothers
    rw [List.length_cons, hlength, List.forall_mem_cons]
    exact ⟨rfl, ofLines_written hfirst, hwritten⟩

end FunctionCode

theorem readCountLine_inRange {what : CountLine} {n count : Nat} {ls rest : List Line}
    (h : readCountLine what n ls = .ok (count, rest)) : InCountRange count := by
  cases ls with
  | nil => cases h
  | cons line ls =>
    simp only [readCountLine] at h
    split at h
    · rename_i m hm
      cases h
      exact readCount_inRange hm
    · cases h

/-- A table that was read has numbers that fit, and names that are words. -/
theorem Table.ofText_ok {s : String} {t : Table} (h : Table.ofText s = .ok t) :
    t.InRange ∧ t.Readable := by
  simp only [Table.ofText, bind_eq_ok_iff, Prod.exists] at h
  obtain ⟨globals, ls₁, hglobals, count, ls₂, hcount, fs, ls₃, hfs, hdone⟩ := h
  split at hdone
  · cases hdone
    obtain ⟨hlength, hwritten⟩ := FunctionCode.manyOfLines_written hfs
    refine ⟨⟨readCountLine_inRange hglobals, ?_, fun f hf => (hwritten f hf).1⟩,
      fun f hf => (hwritten f hf).2⟩
    rw [hlength]
    exact readCountLine_inRange hcount
  · cases hdone

/-- A table is read back as it was written just if its numbers fit, its names are words and its
frames hold the parameters. Reading gives only such tables, so writing and reading again changes
nothing. -/
theorem Table.ofText_text_iff :
    (∀ t : Table, Table.ofText t.text = .ok t ↔ t.InRange ∧ t.Readable) ∧
      ∀ (s : String) (t : Table), Table.ofText s = .ok t →
        t.InRange ∧ t.Readable ∧ Table.ofText t.text = .ok t := by
  constructor
  · intro t
    constructor
    · exact Table.ofText_ok
    · rintro ⟨hrange, hreadable⟩
      exact Table.ofText_text hrange hreadable
  · intro s t h
    obtain ⟨hrange, hreadable⟩ := Table.ofText_ok h
    exact ⟨hrange, hreadable, Table.ofText_text hrange hreadable⟩

/-- A name with a colon, a string with a line feed, a quote and a backslash, the largest numbers. -/
def strangeTable : Table where
  globalCount := 0xFFFFFFFFFFFFFFFF
  functions :=
    [⟨":f", 1, 2, #[.push (.str "\n \"\\\r"), .push (.int (-0x8000000000000000)),
      .call ":f", .binary .sub, .ret]⟩]

def strangeText : String :=
  "18446744073709551615\n +1\n:f 01  2\n\n lstr \"\\n \"\\\\\\r\"\n" ++
    "\tlint   -9223372036854775808\ncall :f\nsubtract\nret\n::f"

/-- A text that no table is written as: a signed count, leading zeros, more blanks than one and an
empty line. It is read all the same. -/
theorem Table.ofText_text_iff_strangeTable :
    Table.ofText strangeText = .ok strangeTable ∧ strangeTable.InRange ∧ strangeTable.Readable ∧
      Table.ofText strangeTable.text = .ok strangeTable := by
  have hread : Table.ofText strangeText = .ok strangeTable := by
    have hsome : (Table.ofText strangeText).toOption = some strangeTable := by decide +kernel
    cases hresult : Table.ofText strangeText with
    | error fault => simp [hresult, Except.toOption] at hsome
    | ok t => simpa [hresult, Except.toOption] using hsome
  exact ⟨hread, Table.ofText_text_iff.2 strangeText strangeTable hread⟩

end StackLang

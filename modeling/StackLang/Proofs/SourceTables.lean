import StackLang.Proofs.BalancedCode
import StackLang.Proofs.BinaryRoundTrip
import StackLang.Proofs.ScannedTokens
import StackLang.Proofs.TreeWords
import StackLang.Source

/-!
The tables of accepted texts can be written to a file, in either form, and read back. Literals and
names come from the tokens of the text. Indices lie below the counts of the table and jumps inside
the code, as the check of a table finds, and no count is larger than the number of tokens.
-/
namespace StackLang

open Text OpenScope

/-- The stages that a text has gone through. -/
theorem Table.ofSource_stages {source : String} {t : Table} (h : Table.ofSource source = .ok t) :
    ∃ tokens items r, Token.scan source = .ok tokens ∧
      SpellsWithin maxNesting (.items items) (sentence tokens) ∧
      (Program.ofItems items).resolve = .ok r ∧ (Program.ofItems items).code r = .ok t := by
  unfold Table.ofSource at h
  obtain ⟨p, hp, hcompile⟩ := bind_eq_ok_iff.1 h
  unfold Program.ofSource at hp
  unfold Program.compile at hcompile
  split at hp
  · cases hp
  · rename_i tokens hscan
    split at hp
    · cases hp
    · rename_i program hparsed
      cases hp
      obtain ⟨items, hspells, rfl⟩ := Program.spells_of_ofTokens hparsed
      split at hcompile
      · cases hcompile
      · rename_i r hresolve
        split at hcompile
        · cases hcompile
        · rename_i found hcode
          cases hcompile
          exact ⟨tokens, items, r, hscan, hspells, hresolve, hcode⟩

section

variable {size : Nat} {ts : List Token} (hts : SpelledWithin size ts) (hsize : InCountRange size)

include hts hsize

/-- A checked instruction whose literals and names are tokens of the text. -/
theorem Instr.inRange_of_drawn {t : Table} {f : FunctionCode} {i : Instr}
    (hdrawn : i.DrawnFrom ts) (hoperand : i.operandFault? t f = none)
    (hlocals : InCountRange f.localCount) (hglobals : InCountRange t.globalCount)
    (hcode : InCountRange f.code.size) : i.InRange ∧ i.TextFits := by
  cases i with
  | push v =>
    cases v with
    | int n =>
      rcases hdrawn with hnone | hmem
      · cases hnone
      · exact ⟨hts.spelled _ hmem, trivial⟩
    | str s =>
      rcases hdrawn with hnone | hmem
      · cases hnone
      · have hbytes : (encodeUtf8 s).length + 2 ≤ size := hts.bytes_le _ hmem
        exact ⟨trivial, Nat.lt_of_le_of_lt (by omega) hsize⟩
    | _ => exact ⟨trivial, trivial⟩
  | load slot =>
    have hfits := Instr.load_operand_iff.1 hoperand
    cases slot with
    | frame i => exact ⟨Nat.lt_trans hfits hlocals, trivial⟩
    | global i => exact ⟨Nat.lt_trans hfits hglobals, trivial⟩
  | store slot =>
    have hfits := Instr.store_operand_iff.1 hoperand
    cases slot with
    | frame i => exact ⟨Nat.lt_trans hfits hlocals, trivial⟩
    | global i => exact ⟨Nat.lt_trans hfits hglobals, trivial⟩
  | jump target =>
    have hlt := Instr.jumpTarget_lt hoperand rfl
    exact ⟨Nat.lt_trans hlt hcode, trivial⟩
  | jumpIf target =>
    have hlt := Instr.jumpTarget_lt hoperand rfl
    exact ⟨Nat.lt_trans hlt hcode, trivial⟩
  | native index =>
    have hknown : Native.ofIndex? index ≠ none := by simpa [Instr.operandFault?] using hoperand
    obtain ⟨native, hnative⟩ := Option.ne_none_iff_exists'.1 hknown
    have hindex := (List.getElem?_eq_some_iff.1 hnative).1
    exact ⟨Nat.lt_trans hindex (by decide), trivial⟩
  | call function =>
    have hbytes : (encodeUtf8 function).length ≤ size := hts.bytes_le _ hdrawn
    exact ⟨trivial, Nat.lt_of_le_of_lt hbytes hsize⟩
  | _ => exact ⟨trivial, trivial⟩

/-- A function of the program, whose words are in the text. -/
theorem FunctionDecl.writable_layout {p : Program} {r : Resolutions} {f : FunctionDecl}
    (hf : f ∈ p.functions) (hwords : f.words.Sublist ts) (hresolved : p.Resolved r)
    (hnoted : p.NotedBy r) (hglobals : InCountRange (p.layout r).globalCount) :
    (f.layout r).InRange ∧ (f.layout r).Sized ∧ (f.layout r).Readable := by
  have hlength := Nat.le_trans hwords.length_le hts.length_le
  have hname : .ident f.name ∈ ts := hwords.subset List.mem_cons_self
  have hlocals : InCountRange (f.layout r).localCount := by
    obtain ⟨frame, hframe, -, scopes, block, hplace, hlive⟩ := hnoted.frame f hf
    have hle := hplace.live_le_words
    have hcount : (f.layout r).localCount = frame := by simp [FunctionDecl.layout, hframe]
    rw [hcount]
    exact Nat.lt_of_le_of_lt (by omega) hsize
  have hcode : InCountRange (f.layout r).code.size := by
    have hle := f.length_le_words
    have hcount : (f.layout r).code.size = f.length := by
      simp [FunctionDecl.layout, FunctionDecl.bodyLayout, Stmt.length_layoutAll,
        FunctionDecl.length]
    rw [hcount]
    exact Nat.lt_of_le_of_lt (by omega) hsize
  have hchecked := (hresolved.function f hf).balanced.checked
  have hinstr : ∀ i ∈ (f.layout r).code.toList, i.InRange ∧ i.TextFits := by
    intro i hi
    obtain ⟨pos, hpos⟩ := List.mem_iff_getElem?.1 hi
    exact Instr.inRange_of_drawn hts hsize ((f.layout_drawn r i hi).mono hwords.subset)
      (hchecked.instr hpos).operand hlocals hglobals hcode
  have hnameBytes : (encodeUtf8 f.name).length ≤ size := hts.bytes_le _ hname
  refine ⟨⟨?_, hlocals, fun i hi => (hinstr i hi).1⟩,
    ⟨Nat.lt_of_le_of_lt hnameBytes hsize, hcode, fun i hi => (hinstr i hi).2⟩,
    ⟨hts.spelled _ hname, ?_, hchecked.params_le⟩⟩
  · exact Nat.lt_of_le_of_lt hchecked.params_le hlocals
  · intro target htarget
    exact hts.spelled _ (hwords.subset (f.layout_drawn r _ htarget))

end

/-- The table of an accepted text can be stored in both forms, if the size of the text itself is a
number of 64 bits. -/
theorem Table.ofSource_storable {source : String} {t : Table} (h : Table.ofSource source = .ok t)
    (hsize : InCountRange (encodeUtf8 source).length) : t.Storable ∧ t.Readable := by
  obtain ⟨tokens, items, r, hscan, ⟨d, -, hspells⟩, hresolve, hcode⟩ := Table.ofSource_stages h
  have hts := spelledWithin_of_scan hscan
  have hwords : (items.flatMap Item.words).Sublist (sentence tokens) := hspells.words_sublist
  have hlength := Nat.le_trans hwords.length_le hts.length_le
  obtain ⟨hresolved, rfl⟩ := Program.ofItems_layout hresolve hcode
  have hnoted := (Program.ofItems_numbered items).notedBy hresolve
  have hglobals : InCountRange ((Program.ofItems items).layout r).globalCount := by
    have hle := Program.length_globalNames_le items
    show r.globalCount < _
    rw [hnoted.globalCount]
    exact Nat.lt_of_le_of_lt (by omega) hsize
  have hcount : InCountRange ((Program.ofItems items).layout r).functions.length := by
    have hle := Program.length_functions_le items
    show ((Program.ofItems items).functions.map _).length < _
    rw [List.length_map]
    exact Nat.lt_of_le_of_lt (by omega) hsize
  have hfunction : ∀ f ∈ ((Program.ofItems items).layout r).functions,
      f.InRange ∧ f.Sized ∧ f.Readable := by
    intro f hf
    obtain ⟨decl, hdecl, rfl⟩ := List.mem_map.1 hf
    exact FunctionDecl.writable_layout hts hsize hdecl ((Program.words_sublist hdecl).trans hwords)
      hresolved hnoted hglobals
  exact ⟨⟨⟨hglobals, hcount, fun f hf => (hfunction f hf).1⟩, fun f hf => (hfunction f hf).2.1⟩,
    fun f hf => (hfunction f hf).2.2⟩

end StackLang

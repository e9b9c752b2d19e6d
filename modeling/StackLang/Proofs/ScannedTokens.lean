import Mathlib.Algebra.GroupWithZero.Nat
import StackLang.Proofs.ParseSoundness
import StackLang.Proofs.TextRoundTrip
import StackLang.Text.Utf8
import StackLang.Token.Scan

/-!
What the tokens of a text can be. Identifiers are words without blanks, integers are in range, and
all tokens together take no more bytes than the text, since each of them is cut out of it.
-/
namespace StackLang

open Text

def charBytes (cs : List Char) : Nat := (cs.map Char.utf8Size).sum

theorem charBytes_cons (c : Char) (cs : List Char) :
    charBytes (c :: cs) = c.utf8Size + charBytes cs := by
  rw [charBytes, List.map_cons, List.sum_cons, charBytes]

theorem charBytes_append (cs ds : List Char) :
    charBytes (cs ++ ds) = charBytes cs + charBytes ds := by
  rw [charBytes, List.map_append, List.sum_append, charBytes, charBytes]

theorem charBytes_reverse (cs : List Char) : charBytes cs.reverse = charBytes cs := by
  rw [charBytes, List.map_reverse, List.sum_reverse, charBytes]

theorem charBytes_pos {cs : List Char} (h : cs ≠ []) : 0 < charBytes cs := by
  obtain ⟨c, rest, rfl⟩ := List.exists_cons_of_ne_nil h
  have hc := c.utf8Size_pos
  rw [charBytes_cons]
  omega

theorem length_encodeUtf8_ofList (cs : List Char) :
    (encodeUtf8 (String.ofList cs)).length = charBytes cs := by
  induction cs with
  | nil => rfl
  | cons c rest ih =>
    rw [charBytes_cons, ← ih]
    simp [encodeUtf8, List.utf8Encode]

theorem length_encodeUtf8 (s : String) : (encodeUtf8 s).length = charBytes s.toList := by
  rw [← length_encodeUtf8_ofList, String.ofList_toList]

namespace Token

/-- The fewest bytes of a text that the token can stand for. -/
def bytes : Token → Nat
  | .ident name => (encodeUtf8 name).length
  | .literal (.str s) => (encodeUtf8 s).length + 2
  | .eof => 0
  | _ => 1

def Spelled : Token → Prop
  | .ident name => IsName name
  | .literal (.int n) => InIntRange n
  | _ => True

/-- A token has at least one byte of the text. -/
theorem bytes_pos {t : Token} (h : t.Spelled) (ht : t ≠ .eof) : 0 < t.bytes := by
  cases t with
  | ident name =>
    have hname : name.toList ≠ [] := h.1
    rw [bytes, length_encodeUtf8]
    exact charBytes_pos hname
  | literal value => cases value <;> simp [bytes]
  | eof => exact absurd rfl ht
  | _ => exact Nat.one_pos

structure CutFrom (cs : List Char) (t : Token) (rest : List Char) : Prop where
  spelled : t.Spelled
  bytes_le : t.bytes + charBytes rest ≤ charBytes cs

theorem toNat_of_isWordChar {c : Char} (h : isWordChar c = true) :
    0x30 ≤ c.toNat ∧ c.toNat ≤ 0x7A := by
  unfold isWordChar Char.isAlphanum Char.isAlpha Char.isUpper Char.isLower Char.isDigit at h
  simp only [Bool.or_eq_true, Bool.and_eq_true, decide_eq_true_eq, beq_iff_eq, ge_iff_le,
    UInt32.le_iff_toNat_le] at h
  rcases h with ((⟨h, h'⟩ | ⟨h, h'⟩) | ⟨h, h'⟩) | rfl
  · exact ⟨Nat.le_trans (by decide) h, Nat.le_trans h' (by decide)⟩
  · exact ⟨Nat.le_trans (by decide) h, h'⟩
  · exact ⟨h, Nat.le_trans h' (by decide)⟩
  · decide

theorem isBlank_of_isWordChar {c : Char} (h : isWordChar c = true) : isBlank c = false := by
  obtain ⟨hlow, hhigh⟩ := toNat_of_isWordChar h
  rw [Bool.eq_false_iff]
  intro hblank
  obtain ⟨range, hrange, hle, hge⟩ := (Ranges.contains_iff _ c).1 hblank
  simp only [blankRanges, List.mem_cons, List.not_mem_nil, or_false] at hrange
  rcases hrange with rfl | rfl | rfl | rfl | rfl | rfl | rfl | rfl | rfl | rfl <;>
    simp only at hle hge <;> omega

theorem charBytes_readString {start here : Position} {content cs : List Char} {token : Token}
    {q : Position} {rest : List Char}
    (h : readString start here content cs = .ok (token, q, rest)) :
    ∃ s, token = .literal (.str s) ∧
      (encodeUtf8 s).length + 1 + charBytes rest ≤ charBytes content + charBytes cs := by
  fun_induction readString start here content cs with
  | case1 | case2 | case4 | case6 => cases h
  | case3 here content letter tail c hc ih =>
    obtain ⟨s, rfl, hle⟩ := ih h
    have hsize : c.utf8Size = 1 := by
      unfold unescapeLetter at hc
      split at hc <;> cases hc <;> rfl
    have hslash : '\\'.utf8Size = 1 := rfl
    refine ⟨s, rfl, ?_⟩
    simp only [charBytes_cons] at hle ⊢
    omega
  | case5 here content tail =>
    cases h
    refine ⟨_, rfl, ?_⟩
    have hquote : '"'.utf8Size = 1 := rfl
    rw [length_encodeUtf8_ofList, charBytes_reverse, charBytes_cons]
    omega
  | case7 here content c tail _ _ _ _ ih =>
    obtain ⟨s, rfl, hle⟩ := ih h
    refine ⟨s, rfl, ?_⟩
    simp only [charBytes_cons] at hle ⊢
    omega

theorem charBytes_dropWhile_le (f : Char → Bool) (cs : List Char) :
    charBytes (cs.dropWhile f) ≤ charBytes cs := by
  have hcs := charBytes_append (cs.takeWhile f) (cs.dropWhile f)
  rw [List.takeWhile_append_dropWhile] at hcs
  omega

theorem cutFrom_readNumber {p q : Position} {c : Char} {cs rest : List Char} {token : Token}
    (hc : c.isDigit = true) (h : readNumber p (c :: cs) = .ok (token, q, rest)) :
    CutFrom (c :: cs) token rest := by
  unfold readNumber at h
  simp only [List.dropWhile_cons_of_pos hc] at h
  split at h
  · cases h
  · split at h
    · rename_i n hn
      cases h
      refine ⟨inIntRange_of_readInt? hn, ?_⟩
      have hle := charBytes_dropWhile_le Char.isDigit cs
      have hpos := c.utf8Size_pos
      rw [charBytes_cons]
      show 1 + _ ≤ _
      omega
    · cases h

def reserved : List Token :=
  [.literal (.bool true), .literal (.bool false), .literal .nothing, .keyword .ifWord,
   .keyword .elseWord, .keyword .whileWord, .keyword .returnWord, .keyword .breakWord,
   .keyword .continueWord, .keyword .declWord]

/-- A word that is read as a reserved one is spelled like it. -/
theorem ofWord_cases (word : String) :
    ofWord word = .ident word ∨ ofWord word ∈ reserved ∧ (ofWord word).spelling = word := by
  unfold ofWord
  split <;> first | exact Or.inl rfl | exact Or.inr (by decide)

theorem cutFrom_readWord (p : Position) {c : Char} {cs : List Char} (hc : isWordChar c = true) :
    CutFrom (c :: cs) (readWord p (c :: cs)).1 (readWord p (c :: cs)).2.2 := by
  have hcs := charBytes_append ((c :: cs).takeWhile isWordChar) ((c :: cs).dropWhile isWordChar)
  rw [List.takeWhile_append_dropWhile] at hcs
  have hne : (c :: cs).takeWhile isWordChar ≠ [] := by
    rw [List.takeWhile_cons_of_pos hc]
    exact List.cons_ne_nil _ _
  have hpos := charBytes_pos hne
  have hreserved : ∀ t ∈ reserved, t.Spelled ∧ t.bytes = 1 := by
    simp [reserved, Spelled, bytes]
  unfold readWord
  dsimp only
  rcases ofWord_cases (String.ofList ((c :: cs).takeWhile isWordChar)) with hword | ⟨hword, -⟩
  · rw [hword]
    refine ⟨⟨?_, ?_⟩, ?_⟩
    · rwa [String.toList_ofList]
    · intro d hd
      rw [String.toList_ofList] at hd
      exact isBlank_of_isWordChar (List.all_eq_true.1 List.all_takeWhile d hd)
    · rw [bytes, length_encodeUtf8_ofList]
      omega
  · obtain ⟨hspelled, hone⟩ := hreserved _ hword
    exact ⟨hspelled, by omega⟩

theorem isWordChar_of_isWordStart {c : Char} (h : isWordStart c = true) : isWordChar c = true := by
  simp only [isWordStart, isWordChar, Char.isAlphanum, Bool.or_eq_true] at h ⊢
  rcases h with h | h
  · exact Or.inl (Or.inl h)
  · exact Or.inr h

def punctuation : List Token :=
  [.operator .eq, .operator .ne, .operator .le, .operator .ge, .operator .and, .operator .or,
   .assign, .bang, .operator .lt, .operator .gt, .operator .add, .operator .sub, .operator .mul,
   .operator .div, .comma, .semicolon, .lparen, .rparen, .lbrace, .rbrace]

/-- The characters taken for a symbol are its spelling. -/
theorem spelling_of_punctuationAt? {text : List Char} {t : Token} {width : Nat}
    (h : punctuationAt? text = some (t, width)) :
    t ∈ punctuation ∧ t.spelling.toList <+: text ∧ t.spelling.toList.length = width := by
  unfold punctuationAt? at h
  split at h <;> cases h <;>
    exact ⟨by decide, by simp [spelling, BinaryOp.symbol], rfl⟩

theorem cutFrom_punctuationAt? {c : Char} {cs : List Char} {token : Token} {width : Nat}
    (h : punctuationAt? (c :: cs) = some (token, width)) :
    CutFrom (c :: cs) token ((c :: cs).drop width) := by
  have hall : ∀ t ∈ punctuation, t.Spelled ∧ t.bytes = 1 := by
    simp [punctuation, Spelled, bytes]
  have hwidth := width_pos_of_punctuationAt? h
  obtain ⟨hspelled, hone⟩ := hall token (spelling_of_punctuationAt? h).1
  refine ⟨hspelled, ?_⟩
  obtain ⟨n, rfl⟩ : ∃ n, width = n + 1 := ⟨width - 1, by omega⟩
  have hcs := charBytes_append (cs.take n) (cs.drop n)
  rw [List.take_append_drop] at hcs
  have hpos := c.utf8Size_pos
  rw [List.drop_succ_cons, charBytes_cons]
  omega

/-- A token is cut from the text it was read from: its spelling fits into what was taken. -/
theorem cutFrom_readToken {p q : Position} {c : Char} {cs rest : List Char} {token : Token}
    (h : readToken p c cs = .ok (token, q, rest)) : CutFrom (c :: cs) token rest := by
  unfold readToken at h
  split at h
  · obtain ⟨s, rfl, hle⟩ := charBytes_readString h
    have hpos := c.utf8Size_pos
    refine ⟨trivial, ?_⟩
    rw [charBytes_cons, bytes]
    simp only [charBytes, List.map_nil, List.sum_nil] at hle ⊢
    omega
  · split at h
    · rename_i hdigit
      exact cutFrom_readNumber hdigit h
    · split at h
      · rename_i hstart
        cases h
        exact cutFrom_readWord p (isWordChar_of_isWordStart hstart)
      · split at h
        · rename_i hfound
          cases h
          exact cutFrom_punctuationAt? hfound
        · cases h

theorem charBytes_skipTrivia_le (inComment : Bool) (p : Position) (cs : List Char) :
    charBytes (skipTrivia inComment p cs).2 ≤ charBytes cs := by
  induction cs generalizing inComment p with
  | nil => exact Nat.le_refl _
  | cons c rest ih =>
    have hrest : ∀ b q, charBytes (skipTrivia b q rest).2 ≤ charBytes (c :: rest) := by
      intro b q
      have hle := ih b q
      rw [charBytes_cons]
      omega
    unfold skipTrivia
    split
    · exact hrest _ _
    · split
      · exact hrest _ _
      · split
        · exact hrest _ _
        · exact Nat.le_refl _

/-- The tokens that are read, and the bytes that they take together with those read before. -/
theorem scanFrom_spelled {p : Position} {cs : List Char} {done tokens : List Placed}
    (h : scanFrom p cs done = .ok tokens) (hdone : ∀ t ∈ done, t.token.Spelled) :
    (∀ t ∈ tokens, t.token.Spelled) ∧
      (tokens.map (·.token.bytes)).sum ≤ (done.map (·.token.bytes)).sum + charBytes cs := by
  fun_induction scanFrom p cs done with
  | case1 p cs done q hskip =>
    cases h
    refine ⟨?_, ?_⟩
    · intro t ht
      rcases List.mem_cons.1 (List.mem_reverse.1 ht) with rfl | ht
      · trivial
      · exact hdone t ht
    · rw [List.map_reverse, List.sum_reverse, List.map_cons, List.sum_cons, bytes]
      omega
  | case2 p cs done q c rest hskip e hread => cases h
  | case3 p cs done q c rest hskip token r left hread ih =>
    have hcut := cutFrom_readToken hread
    have hskipped := charBytes_skipTrivia_le false p cs
    rw [hskip] at hskipped
    have hnext : ∀ t ∈ (⟨token, q⟩ : Placed) :: done, t.token.Spelled := by
      intro t ht
      rcases List.mem_cons.1 ht with rfl | ht
      · exact hcut.spelled
      · exact hdone t ht
    obtain ⟨hall, hsum⟩ := ih h hnext
    refine ⟨hall, ?_⟩
    have hle := hcut.bytes_le
    rw [List.map_cons, List.sum_cons] at hsum
    dsimp only at hskipped hsum
    omega

end Token

/-- All that is known of the tokens before the end of a text of so many bytes. -/
structure SpelledWithin (size : Nat) (ts : List Token) : Prop where
  length_le : ts.length ≤ size
  spelled : ∀ t ∈ ts, t.Spelled
  bytes_le : ∀ t ∈ ts, t.bytes ≤ size

/-- There are no more tokens than bytes. -/
theorem length_le_sum_bytes {ts : List Token} (h : ∀ t ∈ ts, t.Spelled) (heof : .eof ∉ ts) :
    ts.length ≤ (ts.map Token.bytes).sum := by
  induction ts with
  | nil => exact Nat.le_refl _
  | cons t rest ih =>
    rw [List.forall_mem_cons] at h
    have hpos := Token.bytes_pos h.1 (List.ne_of_not_mem_cons heof).symm
    have hrest := ih h.2 (List.not_mem_of_not_mem_cons heof)
    rw [List.length_cons, List.map_cons, List.sum_cons]
    omega

/-- The tokens of a text, written out, have no more bytes than the text. -/
theorem spelledWithin_of_scan {source : String} {tokens : List Placed}
    (h : Token.scan source = .ok tokens) :
    SpelledWithin (encodeUtf8 source).length (sentence tokens) := by
  obtain ⟨hspelled, hsum⟩ := Token.scanFrom_spelled h (by simp)
  obtain ⟨rest, htokens, -⟩ := sentence_append_rest tokens
  have hmem : ∀ t ∈ sentence tokens, t.Spelled := by
    intro t ht
    have hin : t ∈ tokens.map (·.token) := by
      rw [htokens]
      exact List.mem_append_left rest ht
    obtain ⟨placed, hplaced, rfl⟩ := List.mem_map.1 hin
    exact hspelled placed hplaced
  have hbytes : ((sentence tokens).map Token.bytes).sum ≤ (encodeUtf8 source).length := by
    have hmap : tokens.map (·.token.bytes) = (tokens.map (·.token)).map Token.bytes := by
      rw [List.map_map]
      rfl
    rw [hmap, htokens, List.map_append, List.sum_append] at hsum
    rw [length_encodeUtf8]
    simp only [List.map_nil, List.sum_nil] at hsum
    omega
  have heof : .eof ∉ sentence tokens := by
    intro hin
    simpa using List.all_eq_true.1 List.all_takeWhile Token.eof hin
  refine ⟨Nat.le_trans (length_le_sum_bytes hmem heof) hbytes, hmem, ?_⟩
  intro t ht
  obtain ⟨before, after, hsplit⟩ := List.append_of_mem ht
  rw [hsplit, List.map_append, List.sum_append, List.map_cons, List.sum_cons] at hbytes
  omega

end StackLang

import StackLang.Proofs.Grammar
import StackLang.Proofs.Readers

/-!
What is read is spelled by the grammar. Each reader of the parser, given some room for nesting,
takes tokens that spell its result by a derivation no deeper than the room. The readers of
expressions and of statements go down with the room, so the proofs are inductions on it.
-/
namespace StackLang

namespace Parser

open Parsed

/-- The levels that are left are one level of operators and the tighter ones. -/
theorem levels_drop {k : Nat} (h : k < operandLevel) :
    ∃ level, levels.drop k = level :: levels.drop (k + 1) ∧ ∀ op, op ∈ level ↔ op.level = k := by
  have hlength : k < levels.length := h
  refine ⟨levels[k], List.drop_eq_getElem_cons hlength, ?_⟩
  intro op
  have hall : ∀ k (h : k < levels.length), op ∈ levels[k] ↔ op.level = k := by
    cases op <;> decide
  exact hall k hlength

theorem operatorOf_eq_some {level : List BinaryOp} {t : Option Token} {op : BinaryOp}
    (h : operatorOf level t = some op) : t = some (.operator op) ∧ op ∈ level := by
  unfold operatorOf at h
  split at h
  · split at h
    · rename_i hmem
      cases h
      exact ⟨rfl, hmem⟩
    · cases h
  · cases h

/-- A reader gives only what the grammar has for the tokens, with so much room for nesting. -/
def Sound {α : Type} (room : Nat) (phrase : α → Phrase) (p : Parser α) : Prop :=
  ∀ c, (p c).Reads c fun ts a => SpellsWithin room (phrase a) ts

variable {budget room : Nat}

theorem sound_tooDeep {α : Type} (phrase : α → Phrase) : Sound room phrase tooDeep :=
  fun _ => trivial

/-! Expressions. -/

theorem sound_leftAssoc {k : Nat} {level : List BinaryOp} {operand : Parser Expr}
    (hk : k < operandLevel) (hlevel : ∀ op ∈ level, op.level = k)
    (h : Sound room (.joined (k + 1)) operand) :
    Sound room (.joined k) (leftAssoc budget level operand) := by
  intro c
  rw [leftAssoc_eq]
  apply reads_bind (h c)
  rintro ts first next ⟨d, hd, hfirst⟩
  apply reads_foldWhile (I := fun ts e => SpellsWithin room (.joined k e) ts)
  · intro left c
    unfold joinNext
    rw [peek_bind]
    cases hop : operatorOf level c.peek? with
    | none => exact reads_pure rfl c
    | some op =>
      obtain ⟨hpeek, hmem⟩ := operatorOf_eq_some hop
      apply reads_advance hpeek
      apply reads_bind (h c.advance)
      rintro ts' right after ⟨d', hd', hright⟩
      refine reads_pure ?_ after
      rintro done ⟨d, hd, hleft⟩
      obtain rfl := hlevel op hmem
      rw [List.append_nil]
      exact ⟨max d d', by omega, .binary op hleft hright⟩
  · exact ⟨d, hd, .tighter hk hfirst⟩

/-- What is parsed at a level is spelled by the tokens it has taken, down to the operands. -/
theorem sound_climb {operand : Parser Expr} (h : Sound room (.joined operandLevel) operand)
    {n k : Nat} (hk : n + k = operandLevel) :
    Sound room (.joined k) (climb budget operand (levels.drop k)) := by
  -- On the number of levels that are left, so the tightest comes first.
  induction n generalizing k with
  | zero =>
    obtain rfl : k = operandLevel := by omega
    exact h
  | succ n ih =>
    have hlt : k < operandLevel := by omega
    obtain ⟨level, hdrop, hlevel⟩ := levels_drop hlt
    rw [hdrop]
    exact sound_leftAssoc hlt (fun op hop => (hlevel op).1 hop) (ih (by omega))

theorem sound_whole {operand : Parser Expr} (h : Sound room (.joined operandLevel) operand) :
    Sound (room + 1) .whole (climb budget operand levels) := by
  intro c
  refine (sound_climb (k := 0) h rfl c).imp ?_
  rintro ts e ⟨d, hd, hspells⟩
  exact ⟨d + 1, by omega, .whole hspells⟩

theorem reads_args {whole : Parser Expr} (h : Sound room .whole whole) (f : String) (c : Cursor) :
    (parenthesized budget whole c).Reads c fun ts args =>
      SpellsWithin room (.joined operandLevel (.call f args)) (.ident f :: ts) := by
  have hinner : (parenthesized budget whole c).Reads c fun ts args => ∃ inner,
      ts = .lparen :: (inner ++ [.rparen]) ∧ SpellsWithin room
        (.joined operandLevel (.call f args)) (.ident f :: .lparen :: (inner ++ [.rparen])) := by
    apply reads_parenthesized ⟨0, Nat.zero_le _, .callNone f⟩
    apply reads_commaList (Q := fun ts es => SpellsWithin room (.furtherArgs es) ts)
      ⟨0, Nat.zero_le _, .noArg⟩ ?_ h h
    · rintro ts e ts' es ⟨d, hd, hfirst⟩ ⟨d', hd', hmore⟩
      rw [List.append_assoc]
      exact ⟨max d d', by omega, .call f hfirst hmore⟩
    · rintro ts e ts' es ⟨d, hd, hfirst⟩ ⟨d', hd', hmore⟩
      exact ⟨max d d', by omega, .nextArg hfirst hmore⟩
  refine hinner.imp ?_
  rintro _ args ⟨inner, rfl, hspells⟩
  exact hspells

/-- Both signs take a level of nesting for their operand. -/
theorem reads_sign {signed : Parser Expr} {t : Token} {op : UnaryOp} {c : Cursor}
    (hop : t = .operator .sub ∧ op = .neg ∨ t = .bang ∧ op = .not) (hpeek : c.peek? = some t)
    (hsigned : ∀ c, (signed c).Reads c fun ts e =>
      ∃ d, d + 1 ≤ room ∧ Spells (.joined operandLevel e) d ts) :
    ((do advance; return .unary op (← signed) : Parser Expr) c).Reads c fun ts e =>
      SpellsWithin room (.joined operandLevel e) ts := by
  apply reads_advance hpeek
  apply reads_bind (hsigned c.advance)
  rintro ts e next ⟨d, hd, hspells⟩
  refine reads_pure ?_ next
  rw [List.append_nil]
  rcases hop with ⟨rfl, rfl⟩ | ⟨rfl, rfl⟩
  · exact ⟨d + 1, hd, .neg hspells⟩
  · exact ⟨d + 1, hd, .not hspells⟩

theorem sound_operandWith {signed whole : Parser Expr}
    (hsigned : ∀ c, (signed c).Reads c fun ts e =>
      ∃ d, d + 1 ≤ room ∧ Spells (.joined operandLevel e) d ts)
    (hwhole : Sound room .whole whole) :
    Sound room (.joined operandLevel) (operandWith budget signed whole) := by
  intro c
  unfold operandWith
  rw [peek_bind]
  cases hpeek : c.peek? with
  | none => trivial
  | some t =>
    cases t with
    | literal v =>
      refine reads_advance hpeek (reads_pure ?_ _)
      exact ⟨0, Nat.zero_le _, .literal v⟩
    | bang => exact reads_sign (.inr ⟨rfl, rfl⟩) hpeek hsigned
    | operator op =>
      cases op with
      | sub => exact reads_sign (.inl ⟨rfl, rfl⟩) hpeek hsigned
      | _ => trivial
    | ident f =>
      apply reads_advance hpeek
      rw [peek_bind]
      by_cases hcall : c.advance.peek? = some .lparen
      · rw [if_pos hcall]
        apply reads_bind (reads_args hwhole f c.advance)
        intro ts args next hspells
        refine reads_pure ?_ next
        rwa [List.append_nil]
      · rw [if_neg hcall]
        refine reads_pure ?_ c.advance
        exact ⟨0, Nat.zero_le _, .var f⟩
    | lparen =>
      apply reads_advance hpeek
      apply reads_bind (hwhole c.advance)
      rintro ts e next ⟨d, hd, hspells⟩
      refine reads_closing ?_ next
      refine ⟨d, hd, ?_⟩
      simpa using Spells.parens hspells
    | _ => trivial

/-- What is parsed as an operand is spelled by the tokens it has taken. -/
theorem sound_operand (room : Nat) : Sound room (.joined operandLevel) (operand budget room) := by
  induction room with
  | zero => exact sound_operandWith (fun _ => trivial) (sound_tooDeep .whole)
  | succ room ih =>
    refine sound_operandWith (fun c => (ih c).imp ?_) (sound_whole ih)
    rintro ts e ⟨d, hd, hspells⟩
    exact ⟨d, by omega, hspells⟩

/-- What is parsed as an expression is spelled by the tokens it has taken. -/
theorem sound_expression (room : Nat) : Sound room .whole (expression budget room) := by
  cases room with
  | zero => exact sound_tooDeep .whole
  | succ room => exact sound_whole (sound_operand room)

/-! Statements. -/

theorem reads_names (budget : Nat) (role role' : NameRole) (c : Cursor) :
    (commaList budget (name role) (name role') c).Reads c fun ts names =>
      names ≠ [] ∧ ts = Token.ofNames names := by
  apply reads_commaList
    (Q := fun ts names => ts = names.flatMap fun next => [.comma, .ident next])
    rfl ?_ (reads_name role') (reads_name role)
  · rintro _ name _ further rfl rfl
    exact ⟨by simp, rfl⟩
  · rintro _ name _ further rfl rfl
    rfl

theorem reads_declaration (budget : Nat) (c : Cursor) :
    (declaration budget c).Reads c fun ts names =>
      names ≠ [] ∧ ts = .keyword .declWord :: (Token.ofNames names ++ [.semicolon]) := by
  apply reads_bind (reads_expect _ c)
  rintro _ _ next rfl
  apply reads_bind (reads_names budget _ _ next)
  rintro _ names after ⟨hne, rfl⟩
  exact reads_closing ⟨hne, by simp⟩ after

theorem reads_condition {expr : Parser Expr} (h : Sound room .whole expr) (c : Cursor) :
    (condition expr c).Reads c fun ts cond => ∃ d ≤ room, ∃ inner,
      ts = .lparen :: (inner ++ [.rparen]) ∧ Spells (.whole cond) d inner := by
  apply reads_bind (reads_expect _ c)
  rintro _ _ next rfl
  apply reads_bind (h next)
  rintro inner cond after ⟨d, hd, hspells⟩
  exact reads_closing ⟨d, hd, inner, by simp, hspells⟩ after

theorem reads_nextStatement {statement : Parser Stmt} (h : Sound room .statement statement)
    (c : Cursor) :
    (nextStatement statement c).Reads c
      (Precedes fun ts body => SpellsWithin room (.statements body) ts) := by
  unfold nextStatement
  by_cases hclose : c.peek? = some .rbrace
  · rw [if_pos hclose]
    exact ⟨[], rfl, rfl⟩
  · rw [if_neg hclose]
    by_cases hend : c.atEnd = true
    · rw [if_pos hend]
      trivial
    · rw [if_neg hend]
      refine reads_map some (h c) ?_
      rintro ts s ⟨d, hd, hs⟩ ts' body ⟨d', hd', hbody⟩
      exact ⟨max d d', by omega, .nextStatement hs hbody⟩

theorem sound_braces {statement : Parser Stmt} (h : Sound room .statement statement) :
    Sound (room + 1) .block (braces budget statement) := by
  intro c
  rw [braces_eq]
  apply reads_bind (reads_expect _ c)
  rintro _ _ next rfl
  have hnone : SpellsWithin room (.statements []) [] := ⟨0, Nat.zero_le _, .noStatement⟩
  apply reads_bind (reads_many hnone (reads_nextStatement h) budget next)
  rintro ts body after ⟨d, hd, hspells⟩
  refine reads_closing ?_ after
  refine ⟨d + 1, by omega, ?_⟩
  simpa using Spells.block hspells

/-- What is read where a token stands begins with the token, unless nothing is read. -/
theorem reads_head {α : Type} {c : Cursor} {t : Token} {P : List Token → α → Prop} {r : Parsed α}
    (h : r.Reads c P) (hpeek : c.peek? = some t) :
    r.Reads c fun ts a => P ts a ∧ (ts ≠ [] → ts.head? = some t) := by
  cases r with
  | failed e next => trivial
  | ok a next =>
    obtain ⟨ts, hts, hP⟩ := h
    refine ⟨ts, hts, hP, ?_⟩
    intro hne
    obtain ⟨t', rest, rfl⟩ := List.exists_cons_of_ne_nil hne
    rw [Cursor.peek?_eq, hts] at hpeek
    exact hpeek

theorem sound_elseBody {block : Parser (List Stmt)} {further : Parser Stmt}
    (hblock : Sound room .block block)
    (hfurther : ∀ c, (further c).Reads c fun ts s =>
      ∃ d, d + 1 ≤ room ∧ Spells (.statement s) d ts) :
    Sound room .otherwise (elseBody block further) := by
  intro c
  unfold elseBody
  rw [peek_bind]
  by_cases helse : c.peek? = some (.keyword .elseWord)
  · rw [if_pos helse]
    apply reads_advance helse
    rw [peek_bind]
    by_cases hif : c.advance.peek? = some (.keyword .ifWord)
    · rw [if_pos hif]
      apply reads_bind (reads_head (hfurther c.advance) hif)
      rintro ts s next ⟨⟨d, hd, hspells⟩, hhead⟩
      refine reads_pure ?_ next
      rw [List.append_nil]
      obtain ⟨cond, thenBody, elseBody, rfl⟩ := hspells.isBranch hhead
      exact ⟨d + 1, hd, .elseIf hspells⟩
    · rw [if_neg hif]
      refine (hblock c.advance).imp ?_
      rintro ts body ⟨d, hd, hspells⟩
      exact ⟨d, hd, .elseBlock hspells⟩
  · rw [if_neg helse]
    refine reads_pure ?_ c
    exact ⟨0, Nat.zero_le _, .noElse⟩

theorem reads_returned {expr : Parser Expr} (h : Sound room .whole expr) (c : Cursor) :
    (returned expr c).Reads c fun ts value => SpellsWithin room (.statement (.ret value))
      (.keyword .returnWord :: (ts ++ [.semicolon])) := by
  unfold returned
  rw [peek_bind]
  by_cases hnone : c.peek? = some .semicolon
  · rw [if_pos hnone]
    refine reads_pure ?_ c
    exact ⟨0, Nat.zero_le _, .retNothing⟩
  · rw [if_neg hnone]
    apply reads_bind (h c)
    rintro ts value next ⟨d, hd, hspells⟩
    refine reads_pure ?_ next
    rw [List.append_nil]
    exact ⟨d, hd, .ret hspells⟩

theorem sound_statementWith {expr : Parser Expr} {block : Parser (List Stmt)}
    {further : Parser Stmt} (hexpr : Sound room .whole expr) (hblock : Sound room .block block)
    (hfurther : ∀ c, (further c).Reads c fun ts s =>
      ∃ d, d + 1 ≤ room ∧ Spells (.statement s) d ts) :
    Sound room .statement (statementWith budget expr block further) := by
  have heval : Sound room .statement (do
      let e ← expr
      expect .semicolon
      return .eval e) := by
    intro c
    apply reads_bind (hexpr c)
    rintro ts e next ⟨d, hd, hspells⟩
    exact reads_closing ⟨d, hd, .eval hspells⟩ next
  intro c
  unfold statementWith
  split
  · refine reads_map _ (reads_declaration budget c) ?_
    rintro _ names ⟨hne, rfl⟩
    exact ⟨0, Nat.zero_le _, .declare hne⟩
  · rename_i hpeek
    apply reads_advance hpeek
    apply reads_bind (reads_condition hexpr c.advance)
    rintro _ cond next ⟨d, hd, inner, rfl, hcond⟩
    apply reads_bind (hblock next)
    rintro ts' thenBody after ⟨d', hd', hthen⟩
    apply reads_bind (sound_elseBody hblock hfurther after)
    rintro ts'' elseBody last ⟨d'', hd'', helse⟩
    refine reads_pure ?_ last
    refine ⟨max d (max d' d''), by omega, ?_⟩
    simpa using Spells.branch hcond hthen helse
  · rename_i hpeek
    apply reads_advance hpeek
    apply reads_bind (reads_condition hexpr c.advance)
    rintro _ cond next ⟨d, hd, inner, rfl, hcond⟩
    apply reads_bind (hblock next)
    rintro ts' body last ⟨d', hd', hbody⟩
    refine reads_pure ?_ last
    refine ⟨max d d', by omega, ?_⟩
    simpa using Spells.loop hcond hbody
  · rename_i hpeek
    apply reads_advance hpeek
    apply reads_bind (reads_returned hexpr c.advance)
    intro ts value next hspells
    exact reads_closing hspells next
  · rename_i hpeek
    apply reads_advance hpeek
    exact reads_closing ⟨0, Nat.zero_le _, .leave⟩ c.advance
  · rename_i hpeek
    apply reads_advance hpeek
    exact reads_closing ⟨0, Nat.zero_le _, .again⟩ c.advance
  · split
    · rename_i name hpeek hnext
      apply reads_advance hpeek
      rw [← Cursor.peek?_advance] at hnext
      apply reads_advance hnext
      apply reads_bind (hexpr c.advance.advance)
      rintro ts value next ⟨d, hd, hspells⟩
      exact reads_closing ⟨d, hd, .assign name hspells⟩ next
    · exact heval c

/-- What is parsed as a statement is spelled by the tokens it has taken. -/
theorem sound_statement (room : Nat) : Sound room .statement (statement budget room) := by
  induction room with
  | zero => exact sound_statementWith (sound_expression 0) (sound_tooDeep .block) fun _ => trivial
  | succ room ih =>
    refine sound_statementWith (sound_expression (room + 1)) (sound_braces ih) fun c =>
      (ih c).imp ?_
    rintro ts s ⟨d, hd, hspells⟩
    exact ⟨d, by omega, hspells⟩

theorem sound_block (room : Nat) : Sound room .block (block budget room) := by
  cases room with
  | zero => exact sound_tooDeep .block
  | succ room => exact sound_braces (sound_statement room)

/-! Items. -/

theorem reads_params (budget : Nat) (c : Cursor) :
    (parenthesized budget (name .parameter) c).Reads c fun ts params =>
      ts = .lparen :: (Token.ofNames params ++ [.rparen]) := by
  have hnames := reads_parenthesized (P := fun ts names => ts = Token.ofNames names) rfl
    (fun c => (reads_names budget .parameter .parameter c).imp fun _ _ h => h.2) c
  refine hnames.imp ?_
  rintro _ params ⟨_, rfl, rfl⟩
  rfl

theorem reads_function (budget : Nat) (c : Cursor) :
    (function budget c).Reads c fun ts f => ∃ d ≤ maxNesting, ∃ ts',
      ts = .ident f.name :: .lparen :: (Token.ofNames f.params ++ .rparen :: ts') ∧
        Spells (.block f.body) d ts' := by
  apply reads_bind (reads_name _ c)
  rintro _ name next rfl
  apply reads_bind (reads_params budget next)
  rintro _ params after rfl
  apply reads_bind (sound_block maxNesting after)
  rintro ts' body last ⟨d, hd, hbody⟩
  refine reads_pure ?_ last
  exact ⟨d, hd, ts', by simp, hbody⟩

/-- An item is spelled by the tokens it has taken, and takes at least one. -/
theorem reads_item (budget : Nat) (c : Cursor) :
    (item budget c).Reads c fun ts found =>
      Precedes (fun ts items => SpellsWithin maxNesting (.items items) ts) ts found ∧
        Progresses c ts found := by
  unfold item
  by_cases hend : c.atEnd = true
  · rw [if_pos hend]
    exact ⟨[], rfl, rfl, rfl, hend⟩
  · rw [if_neg hend]
    split
    · refine reads_map _ (reads_declaration budget c) ?_
      rintro _ names ⟨hne, rfl⟩
      refine ⟨?_, by simp [Progresses]⟩
      rintro ts' items ⟨d, hd, hitems⟩
      refine ⟨d, hd, ?_⟩
      simpa using Spells.globals hne hitems
    · refine reads_map _ (reads_function budget c) ?_
      rintro _ f ⟨d, hd, ts, rfl, hbody⟩
      refine ⟨?_, by simp [Progresses]⟩
      rintro ts' items ⟨d', hd', hitems⟩
      refine ⟨max d d', by omega, ?_⟩
      simpa using Spells.function f.name f.params hbody hitems
    · trivial

end Parser

/-- The tokens before the first end token, without their places. -/
def sentence (tokens : List Placed) : List Token :=
  (tokens.map (·.token)).takeWhile (· ≠ .eof)

/-- What stands after the sentence: nothing, or an end token and anything. -/
theorem sentence_append_rest (tokens : List Placed) :
    ∃ rest, tokens.map (·.token) = sentence tokens ++ rest ∧
      (rest = [] ∨ rest.head? = some .eof) := by
  refine ⟨(tokens.map (·.token)).dropWhile (· ≠ .eof), List.takeWhile_append_dropWhile.symm, ?_⟩
  have hhead := List.head?_dropWhile_not (· ≠ Token.eof) (tokens.map (·.token))
  cases hrest : (tokens.map (·.token)).dropWhile (· ≠ .eof) with
  | nil => exact Or.inl rfl
  | cons t rest =>
    rw [hrest] at hhead
    exact Or.inr (congrArg some (by simpa using hhead))

theorem sentence_eq {tokens : List Placed} {ts : List Token} {next : Cursor}
    (h : tokens.map (·.token) = ts ++ next.tokens) (hts : .eof ∉ ts) (hend : next.atEnd = true) :
    sentence tokens = ts := by
  have hall : ∀ t ∈ ts, decide (t ≠ .eof) = true := by
    intro t ht
    simpa using ne_of_mem_of_not_mem ht hts
  rw [sentence, h, List.takeWhile_append_of_pos hall]
  rcases next.atEnd_iff.1 hend with hnil | heof
  · simp [hnil]
  · obtain ⟨rest, hrest⟩ := List.head?_eq_some_iff.1 heof
    simp [hrest]

theorem Item.spells_of_parseAll {tokens : List Placed} {items : List Item} {next : Cursor}
    (h : Item.parseAll (.ofTokens tokens) = .ok items next) :
    SpellsWithin maxNesting (.items items) (sentence tokens) := by
  let budget := (Cursor.ofTokens tokens).rest.length + 1
  have hnone : SpellsWithin maxNesting (.items []) [] := ⟨0, Nat.zero_le _, .noItem⟩
  have hread := Parser.reads_many hnone
    (fun c => (Parser.reads_item budget c).imp fun _ _ h => h.1) budget (.ofTokens tokens)
  have hend : next.atEnd = true := by
    apply Parser.atEnd_of_many
      (fun c => (Parser.reads_item budget c).imp fun _ _ h => h.2) ?_ h
    rw [Cursor.tokens, List.length_map]
    omega
  have hparsed : Parser.many budget (Parser.item budget) (.ofTokens tokens) = .ok items next := h
  rw [hparsed] at hread
  obtain ⟨ts, hts, d, hd, hspells⟩ := hread
  have heof : .eof ∉ ts := fun hmem => hspells.allows .eof hmem rfl
  have hsentence : sentence tokens = ts := sentence_eq hts heof hend
  rw [hsentence]
  exact ⟨d, hd, hspells⟩

/-- A program that is parsed is spelled by its tokens, within the nesting limit. -/
theorem Program.spells_of_ofTokens {tokens : List Placed} {p : Program}
    (h : Program.ofTokens tokens = .ok p) :
    ∃ items, SpellsWithin maxNesting (.items items) (sentence tokens) ∧
      p = Program.ofItems items := by
  unfold Program.ofTokens at h
  split at h
  · rename_i items next hparsed
    cases h
    exact ⟨items, Item.spells_of_parseAll hparsed, rfl⟩
  · cases h

end StackLang

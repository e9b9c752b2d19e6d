import StackLang.Tree.Parse

/-!
What readers do to the tokens in front of them. A reader that succeeds takes some tokens off the
front, and two kinds of rules say which: `Reads` tells what the tokens that were taken are like, and
`Gives` tells what comes out when the tokens are known. Each combinator of readers has a rule of
both kinds; the positions of tokens play no part.
-/
namespace StackLang

namespace Cursor

def tokens (c : Cursor) : List Token := c.rest.map (·.token)

theorem peek?_eq (c : Cursor) : c.peek? = c.tokens.head? := by
  simp [peek?, tokens]

theorem peekNext?_eq (c : Cursor) : c.peekNext? = c.tokens.tail.head? := by
  simp [peekNext?, tokens]

theorem tokens_advance (c : Cursor) : c.advance.tokens = c.tokens.tail := by
  unfold advance tokens
  split <;> simp_all

theorem peek?_of_tokens {c : Cursor} {t : Token} {rest : List Token} (h : c.tokens = t :: rest) :
    c.peek? = some t := by
  rw [peek?_eq, h, List.head?_cons]

theorem tokens_advance_of {c : Cursor} {t : Token} {rest : List Token} (h : c.tokens = t :: rest) :
    c.advance.tokens = rest := by
  rw [tokens_advance, h, List.tail_cons]

theorem peek?_advance (c : Cursor) : c.advance.peek? = c.peekNext? := by
  rw [peek?_eq, tokens_advance, peekNext?_eq]

theorem tokens_of_peek? {c : Cursor} {t : Token} (h : c.peek? = some t) :
    c.tokens = t :: c.advance.tokens := by
  rw [peek?_eq, List.head?_eq_some_iff] at h
  obtain ⟨rest, hrest⟩ := h
  rw [tokens_advance, hrest, List.tail_cons]

theorem atEnd_iff (c : Cursor) :
    c.atEnd = true ↔ c.tokens = [] ∨ c.tokens.head? = some .eof := by
  unfold atEnd
  rw [peek?_eq]
  cases htokens : c.tokens with
  | nil => simp
  | cons t rest => cases t <;> simp

end Cursor

namespace Parsed

variable {α : Type}

/-- If this is a value, then tokens were taken that the value stands for. -/
def Reads (c : Cursor) (P : List Token → α → Prop) : Parsed α → Prop
  | .ok a next => ∃ ts, c.tokens = ts ++ next.tokens ∧ P ts a
  | .failed _ _ => True

/-- This is the given value, with the given tokens left. -/
def Gives (a : α) (rest : List Token) : Parsed α → Prop
  | .ok a' next => a' = a ∧ next.tokens = rest
  | .failed _ _ => False

theorem Reads.imp {c : Cursor} {P Q : List Token → α → Prop} {r : Parsed α} (h : r.Reads c P)
    (himp : ∀ ts a, P ts a → Q ts a) : r.Reads c Q := by
  cases r with
  | ok a next =>
    obtain ⟨ts, hts, hP⟩ := h
    exact ⟨ts, hts, himp ts a hP⟩
  | failed e next => trivial

theorem Gives.eq_ok {a : α} {rest : List Token} {r : Parsed α} (h : r.Gives a rest) :
    ∃ next, r = .ok a next ∧ next.tokens = rest := by
  cases r with
  | ok a' next =>
    obtain ⟨rfl, hnext⟩ := h
    exact ⟨next, rfl, hnext⟩
  | failed e next => exact absurd h id

end Parsed

namespace Parser

open Parsed

variable {α β : Type}

theorem peek_bind (f : Option Token → Parser β) (c : Cursor) : (peek >>= f) c = f c.peek? c := rfl

theorem advance_bind (f : Unit → Parser β) (c : Cursor) : (advance >>= f) c = f () c.advance := rfl

theorem bind_of_ok {p : Parser α} {f : α → Parser β} {c next : Cursor} {a : α}
    (h : p c = .ok a next) : (p >>= f) c = f a next := by
  show (match p c with | .ok a next => f a next | .failed e next => .failed e next) = _
  rw [h]

theorem bind_of_failed {p : Parser α} {f : α → Parser β} {c next : Cursor} {e : ParseError}
    (h : p c = .failed e next) : (p >>= f) c = .failed e next := by
  show (match p c with | .ok a next => f a next | .failed e next => .failed e next) = _
  rw [h]

def joinNext (level : List BinaryOp) (operand : Parser Expr) (left : Expr) :
    Parser (Option Expr) := do
  match operatorOf level (← peek) with
  | some op =>
    advance
    let right ← operand
    return some (.binary op left right)
  | none => return none

theorem leftAssoc_eq (budget : Nat) (level : List BinaryOp) (operand : Parser Expr) :
    leftAssoc budget level operand = (do
      let first ← operand
      foldWhile (joinNext level operand) budget first) := rfl

def commaNext (next : Parser β) : Parser (Option β) := do
  if (← peek) = some .comma then
    advance
    return some (← next)
  else return none

theorem commaList_eq (budget : Nat) (first next : Parser β) :
    commaList budget first next = (do
      let head ← first
      let tail ← many budget (commaNext next)
      return head :: tail) := rfl

def nextStatement (statement : Parser Stmt) : Parser (Option Stmt) := fun c =>
  if c.peek? = some .rbrace then .ok none c
  else if c.atEnd then fail (fun _ => .unclosedBlock) c
  else (some <$> statement) c

theorem braces_eq (budget : Nat) (statement : Parser Stmt) :
    braces budget statement = (do
      expect .lbrace
      let body ← many budget (nextStatement statement)
      expect .rbrace
      return body) := rfl

/-! What was read. -/

theorem reads_pure {P : List Token → α → Prop} {a : α} (h : P [] a) (c : Cursor) :
    ((pure a : Parser α) c).Reads c P :=
  ⟨[], rfl, h⟩

/-- What two readers read stands one after the other. -/
theorem reads_bind {p : Parser α} {f : α → Parser β} {c : Cursor} {P : List Token → α → Prop}
    {Q : List Token → β → Prop} (h : (p c).Reads c P)
    (h' : ∀ ts a next, P ts a → (f a next).Reads next fun ts' b => Q (ts ++ ts') b) :
    ((p >>= f) c).Reads c Q := by
  cases hp : p c with
  | ok a next =>
    rw [hp] at h
    obtain ⟨ts, hts, hP⟩ := h
    have hrest := h' ts a next hP
    rw [bind_of_ok hp]
    cases hf : f a next with
    | ok b last =>
      rw [hf] at hrest
      obtain ⟨ts', hts', hQ⟩ := hrest
      exact ⟨ts ++ ts', by rw [hts, hts', List.append_assoc], hQ⟩
    | failed e last => trivial
  | failed e next =>
    rw [bind_of_failed hp]
    trivial

theorem reads_map {p : Parser α} {c : Cursor} {P : List Token → α → Prop} (f : α → β)
    {Q : List Token → β → Prop} (h : (p c).Reads c P) (hmap : ∀ ts a, P ts a → Q ts (f a)) :
    ((f <$> p) c).Reads c Q := by
  apply reads_bind h
  intro ts a next hP
  refine reads_pure ?_ next
  rw [List.append_nil]
  exact hmap ts a hP

/-- The token that was seen is read by going on. -/
theorem reads_advance {f : Unit → Parser β} {c : Cursor} {t : Token} {Q : List Token → β → Prop}
    (h : c.peek? = some t)
    (h' : (f () c.advance).Reads c.advance fun ts b => Q (t :: ts) b) :
    ((advance >>= f) c).Reads c Q := by
  rw [advance_bind]
  cases hf : f () c.advance with
  | ok b next =>
    rw [hf] at h'
    obtain ⟨ts, hts, hQ⟩ := h'
    exact ⟨t :: ts, by rw [Cursor.tokens_of_peek? h, hts, List.cons_append], hQ⟩
  | failed e next => trivial

theorem reads_expect (t : Token) (c : Cursor) : (expect t c).Reads c fun ts _ => ts = [t] := by
  unfold expect
  rw [peek_bind]
  by_cases h : c.peek? = some t
  · rw [if_pos h]
    exact ⟨[t], Cursor.tokens_of_peek? h, rfl⟩
  · rw [if_neg h]
    trivial

/-- The last token of a phrase. -/
theorem reads_closing {t : Token} {a : α} {P : List Token → α → Prop} (h : P [t] a) (c : Cursor) :
    ((do expect t; return a : Parser α) c).Reads c P := by
  apply reads_bind (reads_expect t c)
  rintro _ _ last rfl
  exact reads_pure h last

theorem reads_name (role : NameRole) (c : Cursor) :
    (name role c).Reads c fun ts name => ts = [.ident name] := by
  unfold name
  rw [peek_bind]
  cases h : c.peek? with
  | none => trivial
  | some t =>
    cases t with
    | ident found =>
      refine reads_advance h (reads_pure ?_ _)
      rfl
    | _ => trivial

/-- A step of a loop keeps what holds of all tokens read so far, and the last one reads nothing. -/
def Prolongs (I : List Token → α → Prop) (a : α) (ts : List Token) : Option α → Prop
  | some a' => ∀ done, I done a → I (done ++ ts) a'
  | none => ts = []

/-- A loop has read what its turns have, and keeps what each turn of it keeps. -/
theorem reads_foldWhile {step : α → Parser (Option α)} {I : List Token → α → Prop}
    (hstep : ∀ a c, (step a c).Reads c (Prolongs I a))
    (budget : Nat) {a : α} {done : List Token} (h : I done a) (c : Cursor) :
    (foldWhile step budget a c).Reads c fun ts a' => I (done ++ ts) a' := by
  induction budget generalizing a done c with
  | zero => exact reads_pure (by rwa [List.append_nil]) c
  | succ budget ih =>
    have hhere := hstep a c
    unfold foldWhile
    cases hs : step a c with
    | failed e next => trivial
    | ok found next =>
      rw [hs] at hhere
      obtain ⟨ts, hts, hfound⟩ := hhere
      cases found with
      | none =>
        obtain rfl : ts = [] := hfound
        refine ⟨[], hts, ?_⟩
        show I (done ++ []) a
        rwa [List.append_nil]
      | some a' =>
        have hlater := ih (hfound done h) next
        show (foldWhile step budget a' next).Reads c _
        cases hrest : foldWhile step budget a' next with
        | failed e last => trivial
        | ok b last =>
          rw [hrest] at hlater
          obtain ⟨ts', hts', hI⟩ := hlater
          refine ⟨ts ++ ts', by rw [hts, hts', List.append_assoc], ?_⟩
          show I (done ++ (ts ++ ts')) b
          rwa [← List.append_assoc]

/-- An item can stand in front of all that a list can be, and without an item nothing is read. -/
def Precedes (P : List Token → List β → Prop) (ts : List Token) : Option β → Prop
  | some b => ∀ ts' bs, P ts' bs → P (ts ++ ts') (b :: bs)
  | none => ts = []

/-- A list is read if each of its items is read in front of what has been read behind it. -/
theorem reads_many {item : Parser (Option β)} {P : List Token → List β → Prop} (hnil : P [] [])
    (hitem : ∀ c, (item c).Reads c (Precedes P)) (budget : Nat) (c : Cursor) :
    (many budget item c).Reads c P := by
  -- What was collected so far can stand in front of whatever comes later.
  let I : List Token → List β → Prop := fun ts done =>
    ∀ ts' bs, P ts' bs → P (ts ++ ts') (done.reverse ++ bs)
  have hloop : (foldWhile (fun done => do return (← item).map (· :: done)) budget [] c).Reads c
      fun ts done => I ([] ++ ts) done := by
    apply reads_foldWhile
    · intro done c
      apply reads_bind (hitem c)
      intro ts found next hfound
      cases found with
      | none =>
        refine reads_pure ?_ next
        rwa [List.append_nil]
      | some b =>
        refine reads_pure ?_ next
        intro before hI ts' bs hP
        rw [List.append_nil, List.append_assoc]
        simpa using hI _ _ (hfound ts' bs hP)
    · intro ts' bs hP
      exact hP
  apply reads_bind hloop
  intro ts done next hI
  refine reads_pure ?_ next
  simpa using hI [] [] hnil

/-- Further items, each after a comma. -/
theorem reads_further {next : Parser β} {P : List Token → β → Prop}
    {Q : List Token → List β → Prop} (hnil : Q [] [])
    (hcons : ∀ ts b ts' bs, P ts b → Q ts' bs → Q (.comma :: (ts ++ ts')) (b :: bs))
    (hnext : ∀ c, (next c).Reads c P) (budget : Nat) (c : Cursor) :
    (many budget (commaNext next) c).Reads c Q := by
  apply reads_many hnil
  intro c
  unfold commaNext
  rw [peek_bind]
  by_cases h : c.peek? = some .comma
  · rw [if_pos h]
    apply reads_advance h
    apply reads_bind (hnext c.advance)
    intro ts b after hP
    refine reads_pure ?_ after
    intro ts' bs hQ
    rw [List.append_nil]
    exact hcons ts b ts' bs hP hQ
  · rw [if_neg h]
    refine reads_pure ?_ c
    rfl

theorem reads_commaList {first next : Parser β} {P P' : List Token → β → Prop}
    {Q R : List Token → List β → Prop} (hnil : Q [] [])
    (hcons : ∀ ts b ts' bs, P ts b → Q ts' bs → Q (.comma :: (ts ++ ts')) (b :: bs))
    (hnext : ∀ c, (next c).Reads c P) (hfirst : ∀ c, (first c).Reads c P')
    (hall : ∀ ts b ts' bs, P' ts b → Q ts' bs → R (ts ++ ts') (b :: bs)) (budget : Nat)
    (c : Cursor) : (commaList budget first next c).Reads c R := by
  rw [commaList_eq]
  apply reads_bind (hfirst c)
  intro ts b after hP'
  apply reads_bind (reads_further hnil hcons hnext budget after)
  intro ts' bs last hQ
  refine reads_pure ?_ last
  rw [List.append_nil]
  exact hall ts b ts' bs hP' hQ

theorem reads_parenthesized {item : Parser β} {P : List Token → List β → Prop} {budget : Nat}
    (hnone : P [] []) (hsome : ∀ c, (commaList budget item item c).Reads c P) (c : Cursor) :
    (parenthesized budget item c).Reads c fun ts items =>
      ∃ inner, ts = .lparen :: (inner ++ [.rparen]) ∧ P inner items := by
  apply reads_bind (reads_expect .lparen c)
  rintro _ _ next rfl
  rw [peek_bind]
  have hclose : ∀ inner items after, P inner items →
      ((do expect .rparen; return items : Parser (List β)) after).Reads after fun ts items =>
        ∃ inner', [Token.lparen] ++ (inner ++ ts) = .lparen :: (inner' ++ [.rparen]) ∧
          P inner' items := by
    intro inner items after hP
    exact reads_closing ⟨inner, by simp, hP⟩ after
  by_cases h : next.peek? = some .rparen
  · rw [if_pos h]
    exact hclose [] [] next hnone
  · rw [if_neg h]
    exact reads_bind (hsome next) hclose

def Progresses (c : Cursor) (ts : List Token) : Option β → Prop
  | some _ => ts ≠ []
  | none => ts = [] ∧ c.atEnd = true

/-- A loop of such items, with enough turns left, goes on to the end. -/
theorem atEnd_of_many {item : Parser (Option β)} (hitem : ∀ c, (item c).Reads c (Progresses c))
    {budget : Nat} {c next : Cursor} {bs : List β} (hbudget : c.tokens.length < budget)
    (h : many budget item c = .ok bs next) : next.atEnd = true := by
  have hloop : ∀ (budget : Nat) (done : List β) (c : Cursor) (all : List β) (last : Cursor),
      c.tokens.length < budget →
      foldWhile (fun done => do return (← item).map (· :: done)) budget done c = .ok all last →
      last.atEnd = true := by
    intro budget
    induction budget with
    | zero => exact fun _ c _ _ h => absurd h (Nat.not_lt_zero _)
    | succ budget ih =>
      intro done c all last hbudget hfold
      have hread := hitem c
      unfold foldWhile at hfold
      cases hrun : item c with
      | failed e after => simp [bind_of_failed hrun] at hfold
      | ok found after =>
        rw [hrun] at hread
        rw [bind_of_ok hrun] at hfold
        obtain ⟨ts, hts, hfound⟩ := hread
        cases found with
        | none =>
          obtain ⟨rfl, hend⟩ := hfound
          obtain ⟨-, rfl⟩ := Parsed.ok.inj hfold
          rw [Cursor.atEnd_iff] at hend ⊢
          rwa [hts] at hend
        | some b =>
          have hpos : 0 < ts.length := List.length_pos_iff.2 hfound
          have hlength := congrArg List.length hts
          rw [List.length_append] at hlength
          exact ih (b :: done) after all last (by omega) hfold
  unfold many at h
  cases hfold : foldWhile (fun done => do return (← item).map (· :: done)) budget [] c with
  | failed e after =>
    rw [bind_of_failed hfold] at h
    cases h
  | ok done after =>
    rw [bind_of_ok hfold] at h
    cases h
    exact hloop budget [] c done next hbudget hfold

/-! What comes out. -/

theorem gives_pure {a : α} {c : Cursor} {rest : List Token} (h : c.tokens = rest) :
    ((pure a : Parser α) c).Gives a rest := ⟨rfl, h⟩

theorem gives_bind {p : Parser α} {f : α → Parser β} {c : Cursor} {a : α} {b : β}
    {mid rest : List Token} (h : (p c).Gives a mid)
    (h' : ∀ next, next.tokens = mid → (f a next).Gives b rest) : ((p >>= f) c).Gives b rest := by
  obtain ⟨next, hp, hnext⟩ := h.eq_ok
  rw [bind_of_ok hp]
  exact h' next hnext

theorem gives_map {p : Parser α} {c : Cursor} {a : α} {rest : List Token} (f : α → β)
    (h : (p c).Gives a rest) : ((f <$> p) c).Gives (f a) rest :=
  gives_bind h fun _ hnext => gives_pure hnext

theorem gives_advance {f : Unit → Parser β} {c : Cursor} {t : Token} {b : β}
    {mid rest : List Token} (h : c.tokens = t :: mid)
    (h' : ∀ next, next.tokens = mid → (f () next).Gives b rest) :
    ((advance >>= f) c).Gives b rest :=
  h' c.advance (Cursor.tokens_advance_of h)

theorem gives_expect {t : Token} {c : Cursor} {rest : List Token} (h : c.tokens = t :: rest) :
    (expect t c).Gives () rest := by
  unfold expect
  rw [peek_bind, if_pos (Cursor.peek?_of_tokens h)]
  exact ⟨rfl, Cursor.tokens_advance_of h⟩

theorem gives_closing {t : Token} {a : α} {c : Cursor} {rest : List Token}
    (h : c.tokens = t :: rest) : ((do expect t; return a : Parser α) c).Gives a rest :=
  gives_bind (gives_expect h) fun _ hlast => gives_pure hlast

theorem gives_name (role : NameRole) {name : String} {c : Cursor} {rest : List Token}
    (h : c.tokens = .ident name :: rest) : (Parser.name role c).Gives name rest := by
  unfold Parser.name
  rw [peek_bind, Cursor.peek?_of_tokens h]
  exact gives_advance h fun next hnext => gives_pure hnext

def Collects (item : Parser (Option β)) (turns : Nat) (bs : List β) (c : Cursor)
    (rest : List Token) : Prop :=
  ∀ budget ≥ turns, ∀ done,
    (foldWhile (fun done => do return (← item).map (· :: done)) budget done c).Gives
      (bs.reverse ++ done) rest

theorem Collects.nil {item : Parser (Option β)} {c : Cursor} {rest : List Token}
    (htokens : c.tokens = rest) (h : (item c).Gives none rest) : Collects item 0 [] c rest := by
  intro budget hbudget done
  cases budget with
  | zero => exact gives_pure htokens
  | succ budget =>
    obtain ⟨next, hitem, hnext⟩ := h.eq_ok
    unfold foldWhile
    rw [bind_of_ok hitem]
    exact ⟨rfl, hnext⟩

theorem Collects.cons {item : Parser (Option β)} {c : Cursor} {mid rest : List Token}
    {turns : Nat} {b : β} {bs : List β} (h : (item c).Gives (some b) mid)
    (h' : ∀ next, next.tokens = mid → Collects item turns bs next rest) :
    Collects item (turns + 1) (b :: bs) c rest := by
  intro budget hbudget done
  obtain ⟨next, hitem, hnext⟩ := h.eq_ok
  obtain ⟨budget, rfl⟩ : ∃ n, budget = n + 1 := ⟨budget - 1, by omega⟩
  have hlater := h' next hnext budget (by omega) (b :: done)
  unfold foldWhile
  rw [bind_of_ok hitem]
  rw [List.reverse_cons, List.append_assoc]
  exact hlater

theorem Collects.mono {item : Parser (Option β)} {c : Cursor} {rest : List Token}
    {turns turns' : Nat} {bs : List β} (h : Collects item turns bs c rest) (hle : turns ≤ turns') :
    Collects item turns' bs c rest := by
  intro budget hbudget
  exact h budget (by omega)

theorem Collects.many {item : Parser (Option β)} {c : Cursor} {rest : List Token} {turns : Nat}
    {bs : List β} (h : Collects item turns bs c rest) {budget : Nat} (hbudget : turns ≤ budget) :
    (many budget item c).Gives bs rest := by
  apply gives_bind (h budget hbudget [])
  intro next hnext
  rw [List.append_nil, List.reverse_reverse]
  exact gives_pure hnext

theorem Collects.noComma {next : Parser β} {c : Cursor} {rest : List Token} (h : c.tokens = rest)
    (hrest : rest.head? ≠ some .comma) : Collects (commaNext next) 0 [] c rest := by
  apply Collects.nil h
  unfold commaNext
  rw [peek_bind, if_neg (by rwa [Cursor.peek?_eq, h])]
  exact gives_pure h

theorem Collects.comma {next : Parser β} {c : Cursor} {start mid rest : List Token} {turns : Nat}
    {b : β} {bs : List β} (h : c.tokens = .comma :: start)
    (hnext : ∀ c', c'.tokens = start → (next c').Gives b mid)
    (hlater : ∀ c', c'.tokens = mid → Collects (commaNext next) turns bs c' rest) :
    Collects (commaNext next) (turns + 1) (b :: bs) c rest := by
  refine Collects.cons ?_ hlater
  unfold commaNext
  rw [peek_bind, if_pos (Cursor.peek?_of_tokens h)]
  apply gives_advance h
  intro c' hc'
  exact gives_bind (hnext c' hc') fun _ hlast => gives_pure hlast

theorem gives_commaList {first next : Parser β} {c : Cursor} {mid rest : List Token}
    {turns budget : Nat} {b : β} {bs : List β} (h : (first c).Gives b mid)
    (hfurther : ∀ c', c'.tokens = mid → Collects (commaNext next) turns bs c' rest)
    (hbudget : turns ≤ budget) : (commaList budget first next c).Gives (b :: bs) rest := by
  rw [commaList_eq]
  apply gives_bind h
  intro c' hc'
  apply gives_bind ((hfurther c' hc').many hbudget)
  intro last hlast
  exact gives_pure hlast

theorem gives_parenthesized_none {item : Parser β} {budget : Nat} {c : Cursor}
    {rest : List Token} (h : c.tokens = .lparen :: .rparen :: rest) :
    (parenthesized budget item c).Gives [] rest := by
  apply gives_bind (gives_expect h)
  intro next hnext
  rw [peek_bind, if_pos (Cursor.peek?_of_tokens hnext)]
  apply gives_bind (gives_pure hnext)
  intro after hafter
  exact gives_closing hafter

theorem gives_parenthesized {item : Parser β} {budget : Nat} {c : Cursor}
    {inner rest : List Token} {items : List β} (h : c.tokens = .lparen :: inner)
    (hinner : inner.head? ≠ some .rparen)
    (hitems : ∀ next, next.tokens = inner →
      (commaList budget item item next).Gives items (.rparen :: rest)) :
    (parenthesized budget item c).Gives items rest := by
  apply gives_bind (gives_expect h)
  intro next hnext
  rw [peek_bind, if_neg (by rwa [Cursor.peek?_eq, hnext])]
  apply gives_bind (hitems next hnext)
  intro after hafter
  exact gives_closing hafter

end Parser

end StackLang

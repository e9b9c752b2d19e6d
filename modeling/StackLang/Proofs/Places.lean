import StackLang.Proofs.Resolved

/-!
The places in the body of a function and the scopes that are open there, as a reader of the program
sees them: a place is reached by passing over a statement, which leaves its declarations behind, or
by going into a block of one, which opens a scope. What a name means at a place is its newest
declaration in the innermost scope that has one. The scopes that a walk over the body holds are
compared with these.
-/
namespace StackLang

open Scope

mutual

def Expr.parts : Expr → List Expr
  | .unary op operand => .unary op operand :: operand.parts
  | .binary op left right => .binary op left right :: (left.parts ++ right.parts)
  | .call function args => .call function args :: Expr.partsAll args
  | e => [e]

def Expr.partsAll : List Expr → List Expr
  | [] => []
  | e :: rest => e.parts ++ Expr.partsAll rest

end

namespace Stmt

/-- The expressions that a statement evaluates outside its blocks, with all expressions inside. -/
def parts : Stmt → List Expr
  | .assign _ _ value => value.parts
  | .ret (some value) => value.parts
  | .branch cond _ _ => cond.parts
  | .loop _ cond _ => cond.parts
  | .eval e => e.parts
  | _ => []

/-- The statement reads or assigns a variable outside its blocks, at the node of that number. -/
def Uses (s : Stmt) (id : Nat) (name : String) : Prop :=
  .var id name ∈ s.parts ∨ ∃ value, s = .assign id name value

def Jumps (s : Stmt) (id : Nat) : Prop := s = .leave id ∨ s = .again id

def blocks : Stmt → List (Option Nat × List Stmt)
  | .branch _ thenBody elseBody => [(none, thenBody), (none, elseBody)]
  | .loop id _ body => [(some id, body)]
  | _ => []

end Stmt

/-- A scope that is open at a place: its names so far, the oldest first, and the number of the loop
whose body it is, if it is one. -/
structure OpenScope where
  names : List String
  loop : Option Nat

def ScopeKind.loop? : ScopeKind → Option Nat
  | .loop id => some id
  | _ => none

namespace OpenScope

/-- The local variables that are live in the given scopes, the innermost scope being the first of
them. The oldest variable comes first. -/
def live : List OpenScope → List String
  | [] => []
  | scope :: outer => live outer ++ scope.names

def declare (names : List String) (scope : OpenScope) : OpenScope :=
  { scope with names := scope.names ++ names }

/-- The variable that a name means, if these scopes are open: the newest one of the innermost scope
that has one, and a global variable if no scope has one. A local variable has as many slots before
it as there were local variables when it was declared. -/
inductive Means (globals : List String) (name : String) : List OpenScope → Slot → Prop
  | declared {scope : OpenScope} {outer : List OpenScope} {before after : List String} :
    scope.names = before ++ name :: after → name ∉ after →
      Means globals name (scope :: outer) (.frame (live outer ++ before).length)
  | outside {scope : OpenScope} {outer : List OpenScope} {slot : Slot} :
    name ∉ scope.names → Means globals name outer slot → Means globals name (scope :: outer) slot
  | global {before after : List String} :
    globals = before ++ name :: after → name ∉ after →
      Means globals name [] (.global before.length)

def innermostLoop? (scopes : List OpenScope) : Option Nat := scopes.findSome? (·.loop)

theorem Means.mem {globals : List String} {name : String} {scopes : List OpenScope} {slot : Slot}
    (h : Means globals name scopes slot) : name ∈ live scopes ∨ name ∈ globals := by
  induction h with
  | declared heq _ =>
    left
    rw [live, heq]
    simp
  | outside _ _ ih =>
    rcases ih with hlive | hglobal
    · exact Or.inl (List.mem_append_left _ hlive)
    · exact Or.inr hglobal
  | global heq _ =>
    right
    rw [heq]
    simp

/-- There is only one last place of a name in a list. -/
theorem eq_of_last {before after before' after' : List String} {name : String}
    (h : before ++ name :: after = before' ++ name :: after') (hlast : name ∉ after)
    (hlast' : name ∉ after') : before = before' := by
  rcases List.append_eq_append_iff.1 h with ⟨more, rfl, hmore⟩ | ⟨more, rfl, hmore⟩
  · cases more with
    | nil => simp
    | cons x rest =>
      obtain ⟨-, rfl⟩ := List.cons.inj hmore
      simp at hlast
  · cases more with
    | nil => simp
    | cons x rest =>
      obtain ⟨-, rfl⟩ := List.cons.inj hmore
      simp at hlast'

/-- A name means one thing at a place. -/
theorem Means.unique {globals : List String} {name : String} {scopes : List OpenScope}
    {slot slot' : Slot} (h : Means globals name scopes slot)
    (h' : Means globals name scopes slot') : slot = slot' := by
  induction h with
  | declared heq hlast =>
    cases h' with
    | declared heq' hlast' => rw [eq_of_last (heq.symm.trans heq') hlast hlast']
    | outside hnone _ => exact absurd (by simp [heq]) hnone
  | outside hnone _ ih =>
    cases h' with
    | declared heq _ => exact absurd (by simp [heq]) hnone
    | outside _ hmeans => exact ih hmeans
  | global heq hlast =>
    cases h' with
    | global heq' hlast' => rw [eq_of_last (heq.symm.trans heq') hlast hlast']

end OpenScope

open OpenScope

/-- The places that are reached from the start of a block: the scopes that are open there, and the
statements of the innermost block that are still to come. -/
inductive Within (scopes : List OpenScope) (block : List Stmt) :
    List OpenScope → List Stmt → Prop
  | start : Within scopes block scopes block
  | next {scope : OpenScope} {outer : List OpenScope} {s : Stmt} {rest : List Stmt} :
    Within scopes block (scope :: outer) (s :: rest) →
      Within scopes block (scope.declare s.declared :: outer) rest
  | enter {around : List OpenScope} {s : Stmt} {rest : List Stmt} {b : Option Nat × List Stmt} :
    Within scopes block around (s :: rest) → b ∈ s.blocks →
      Within scopes block (⟨[], b.1⟩ :: around) b.2

/-- The places in the body of a function. Its parameters stand in one scope with what the body
itself declares. -/
def FunctionDecl.Place (f : FunctionDecl) : List OpenScope → List Stmt → Prop :=
  Within [⟨f.params, none⟩] f.body

namespace Within

variable {scopes scopes' : List OpenScope} {block block' : List Stmt}

theorem trans {scopes'' : List OpenScope} {block'' : List Stmt}
    (h : Within scopes block scopes' block') (h' : Within scopes' block' scopes'' block'') :
    Within scopes block scopes'' block'' := by
  induction h' with
  | start => exact h
  | next _ ih => exact .next ih
  | enter _ hblock ih => exact .enter ih hblock

theorem nil_iff : Within scopes [] scopes' block' ↔ scopes' = scopes ∧ block' = [] := by
  constructor
  · intro h
    induction h with
    | start => exact ⟨rfl, rfl⟩
    | next _ ih => cases ih.2
    | enter _ _ ih => cases ih.2
  · rintro ⟨rfl, rfl⟩
    exact .start

/-- A place is the start, or lies in a block of the first statement, or after that statement. -/
theorem cons_iff {scope : OpenScope} {outer : List OpenScope} {s : Stmt} {rest : List Stmt} :
    Within (scope :: outer) (s :: rest) scopes' block' ↔
      (scopes' = scope :: outer ∧ block' = s :: rest) ∨
      (∃ b ∈ s.blocks, Within (⟨[], b.1⟩ :: scope :: outer) b.2 scopes' block') ∨
      Within (scope.declare s.declared :: outer) rest scopes' block' := by
  constructor
  · intro h
    induction h with
    | start => exact Or.inl ⟨rfl, rfl⟩
    | next _ ih =>
      rcases ih with ⟨hscopes, hblock⟩ | ⟨b, hmem, hinside⟩ | hafter
      · cases hscopes
        cases hblock
        exact Or.inr (Or.inr .start)
      · exact Or.inr (Or.inl ⟨b, hmem, .next hinside⟩)
      · exact Or.inr (Or.inr (.next hafter))
    | enter _ hnew ih =>
      rcases ih with ⟨hscopes, hblock⟩ | ⟨b, hmem, hinside⟩ | hafter
      · cases hscopes
        cases hblock
        exact Or.inr (Or.inl ⟨_, hnew, .start⟩)
      · exact Or.inr (Or.inl ⟨b, hmem, .enter hinside hnew⟩)
      · exact Or.inr (Or.inr (.enter hafter hnew))
  · rintro (⟨rfl, rfl⟩ | ⟨b, hmem, hinside⟩ | hafter)
    · exact .start
    · exact (Within.enter .start hmem).trans hinside
    · exact (Within.next .start).trans hafter

end Within

def AllWithin (P : List OpenScope → List Stmt → Prop) (scopes : List OpenScope)
    (block : List Stmt) : Prop :=
  ∀ scopes' block', Within scopes block scopes' block' → P scopes' block'

namespace AllWithin

variable {P : List OpenScope → List Stmt → Prop} {scopes : List OpenScope}

theorem nil_iff : AllWithin P scopes [] ↔ P scopes [] := by
  constructor
  · intro h
    exact h _ _ .start
  · intro h scopes' block' hplace
    obtain ⟨rfl, rfl⟩ := Within.nil_iff.1 hplace
    exact h

/-- A property holds at all places of a block just if it holds at the first, in the blocks of the
first statement, and at the places behind that statement. -/
theorem cons_iff {scope : OpenScope} {outer : List OpenScope} {s : Stmt} {rest : List Stmt} :
    AllWithin P (scope :: outer) (s :: rest) ↔
      P (scope :: outer) (s :: rest) ∧
      (∀ b ∈ s.blocks, AllWithin P (⟨[], b.1⟩ :: scope :: outer) b.2) ∧
      AllWithin P (scope.declare s.declared :: outer) rest := by
  constructor
  · intro h
    refine ⟨h _ _ .start, ?_, ?_⟩
    · intro b hmem scopes' block' hplace
      exact h _ _ (Within.cons_iff.2 (Or.inr (Or.inl ⟨b, hmem, hplace⟩)))
    · intro scopes' block' hplace
      exact h _ _ (Within.cons_iff.2 (Or.inr (Or.inr hplace)))
  · rintro ⟨hstart, hinside, hafter⟩ scopes' block' hplace
    rcases Within.cons_iff.1 hplace with ⟨rfl, rfl⟩ | ⟨b, hmem, hin⟩ | hlater
    · exact hstart
    · exact hinside b hmem _ _ hin
    · exact hafter _ _ hlater

end AllWithin

namespace OpenScope

/-- The scopes that the walk holds are those open at the place. -/
def Held : List OpenScope → List Scope → Prop
  | [], [] => True
  | scope :: outer, frame :: frames =>
    frame.names = scope.names.reverse ∧ frame.base = (live outer).length ∧
      frame.kind.loop? = scope.loop ∧ Held outer frames
  | _, _ => False

end OpenScope

namespace Scope

/-- The newest of the names is meant, and there are as many slots before its own as older names. -/
theorem slotIn?_eq_some {base i : Nat} {name : String} {names : List String}
    (h : slotIn? base name names = some i) :
    ∃ newer older, names = newer ++ name :: older ∧ name ∉ newer ∧ i = base + older.length := by
  induction names with
  | nil => simp [slotIn?] at h
  | cons newest older ih =>
    rw [slotIn?] at h
    by_cases hname : newest = name
    · rw [if_pos hname] at h
      cases h
      exact ⟨[], older, by rw [hname]; rfl, by simp, rfl⟩
    · rw [if_neg hname] at h
      obtain ⟨newer, oldest, rfl, hnewer, hi⟩ := ih h
      refine ⟨newest :: newer, oldest, rfl, ?_, hi⟩
      intro hmem
      rcases List.mem_cons.1 hmem with heq | hold
      · exact hname heq.symm
      · exact hnewer hold

/-- The same for names that stand in the order of their declaration. -/
theorem slotIn?_reverse_eq_some {base i : Nat} {name : String} {names : List String}
    (h : slotIn? base name names.reverse = some i) :
    ∃ before after, names = before ++ name :: after ∧ name ∉ after ∧
      i = base + before.length := by
  obtain ⟨newer, older, heq, hnewer, hi⟩ := slotIn?_eq_some h
  refine ⟨older.reverse, newer.reverse, ?_, by simpa using hnewer, by simpa using hi⟩
  simpa using congrArg List.reverse heq

theorem slotIn?_eq_none_iff {base : Nat} {name : String} {names : List String} :
    slotIn? base name names = none ↔ name ∉ names := by
  induction names with
  | nil => simp [slotIn?]
  | cons newest older ih =>
    rw [slotIn?]
    by_cases hname : newest = name
    · simp [hname]
    · rw [if_neg hname, ih]
      simp [Ne.symm hname]

end Scope

namespace Program

theorem lookup?_nil (p : Program) (name : String) :
    (p.scopes []).lookup? name = (slotIn? 0 name p.globalNames.reverse).map .global := rfl

theorem lookup?_cons (p : Program) (frame : Scope) (frames : List Scope) (name : String) :
    (p.scopes (frame :: frames)).lookup? name =
      match frame.lookup? name with
      | some i => some (.frame i)
      | none => (p.scopes frames).lookup? name := by
  simp only [Scopes.lookup?, Program.scopes, List.findSome?_cons]
  cases frame.lookup? name <;> rfl

end Program

namespace OpenScope.Held

variable {p : Program} {scopes : List OpenScope} {frames : List Scope}

theorem exists_cons {scope : OpenScope} {outer : List OpenScope}
    (h : Held (scope :: outer) frames) :
    ∃ frame frames', frames = frame :: frames' ∧ frame.names = scope.names.reverse ∧
      frame.base = (live outer).length ∧ frame.kind.loop? = scope.loop ∧ Held outer frames' := by
  cases frames with
  | nil => exact h.elim
  | cons frame frames' => exact ⟨frame, frames', rfl, h⟩

theorem eq_nil (h : Held [] frames) : frames = [] := by
  cases frames with
  | nil => rfl
  | cons frame frames' => exact h.elim

/-- The next free slot is the number of variables that are live. -/
theorem nextIn (h : Held scopes frames) : nextIn frames = (live scopes).length := by
  cases scopes with
  | nil =>
    obtain rfl := h.eq_nil
    rfl
  | cons scope outer =>
    obtain ⟨frame, frames', rfl, hnames, hbase, -⟩ := h.exists_cons
    rw [Scope.nextIn, next, hnames, hbase, live, List.length_append, List.length_reverse]

theorem openIn (kind : ScopeKind) (h : Held scopes frames) :
    Held (⟨[], kind.loop?⟩ :: scopes) (openIn kind frames) := ⟨rfl, h.nextIn, rfl, h⟩

theorem declareIn {scope : OpenScope} {outer : List OpenScope} (names : List String)
    (h : Held (scope :: outer) frames) :
    Held (scope.declare names :: outer) (declareIn names frames) := by
  obtain ⟨frame, frames', rfl, hnames, hbase, hloop, houter⟩ := h.exists_cons
  refine ⟨?_, hbase, hloop, houter⟩
  simp [declare, hnames]

theorem nearestLoop? (h : Held scopes frames) :
    (p.scopes frames).nearestLoop? = innermostLoop? scopes := by
  induction scopes generalizing frames with
  | nil =>
    obtain rfl := h.eq_nil
    rfl
  | cons scope outer ih =>
    obtain ⟨frame, frames', rfl, -, -, hloop, houter⟩ := h.exists_cons
    have hrest := ih houter
    simp only [Scopes.nearestLoop?, Program.scopes, innermostLoop?] at hrest ⊢
    rw [List.findSome?_cons, List.findSome?_cons, ← hloop, ← hrest]
    cases frame.kind <;> rfl

/-- What the walk finds for a name is what the name means. -/
theorem means {name : String} {slot : Slot} (h : Held scopes frames)
    (hfind : (p.scopes frames).lookup? name = some slot) :
    Means p.globalNames name scopes slot := by
  induction scopes generalizing frames with
  | nil =>
    obtain rfl := h.eq_nil
    rw [Program.lookup?_nil, Option.map_eq_some_iff] at hfind
    obtain ⟨i, hi, rfl⟩ := hfind
    obtain ⟨before, after, heq, hlast, rfl⟩ := slotIn?_reverse_eq_some hi
    rw [Nat.zero_add]
    exact .global heq hlast
  | cons scope outer ih =>
    obtain ⟨frame, frames', rfl, hnames, hbase, -, houter⟩ := h.exists_cons
    rw [Program.lookup?_cons, Scope.lookup?, hnames, hbase] at hfind
    cases hscope : slotIn? (live outer).length name scope.names.reverse with
    | some i =>
      rw [hscope] at hfind
      cases hfind
      obtain ⟨before, after, heq, hlast, rfl⟩ := slotIn?_reverse_eq_some hscope
      rw [← List.length_append]
      exact .declared heq hlast
    | none =>
      rw [hscope] at hfind
      refine .outside ?_ (ih houter hfind)
      simpa using slotIn?_eq_none_iff.1 hscope

/-- The walk finds nothing for a name only where it has no declaration. -/
theorem not_mem_of_lookup? {name : String} (h : Held scopes frames)
    (hfind : (p.scopes frames).lookup? name = none) :
    name ∉ live scopes ∧ name ∉ p.globalNames := by
  induction scopes generalizing frames with
  | nil =>
    obtain rfl := h.eq_nil
    rw [Program.lookup?_nil, Option.map_eq_none_iff, slotIn?_eq_none_iff] at hfind
    exact ⟨by simp [live], by simpa using hfind⟩
  | cons scope outer ih =>
    obtain ⟨frame, frames', rfl, hnames, hbase, -, houter⟩ := h.exists_cons
    rw [Program.lookup?_cons, Scope.lookup?, hnames, hbase] at hfind
    cases hscope : slotIn? (live outer).length name scope.names.reverse with
    | some i =>
      rw [hscope] at hfind
      cases hfind
    | none =>
      rw [hscope] at hfind
      have hnew : name ∉ scope.names := by simpa using slotIn?_eq_none_iff.1 hscope
      obtain ⟨houtside, hglobal⟩ := ih houter hfind
      exact ⟨by simp [live, houtside, hnew], hglobal⟩

/-- A name is found just if it is live or global. -/
theorem lookup?_isSome_iff {name : String} (h : Held scopes frames) :
    (∃ slot, (p.scopes frames).lookup? name = some slot) ↔
      name ∈ live scopes ∨ name ∈ p.globalNames := by
  cases hfind : (p.scopes frames).lookup? name with
  | some slot => simpa using (h.means hfind).mem
  | none =>
    obtain ⟨hlive, hglobal⟩ := h.not_mem_of_lookup? hfind
    simp [hlive, hglobal]

end OpenScope.Held

end StackLang

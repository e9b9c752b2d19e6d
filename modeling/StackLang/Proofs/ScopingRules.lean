import StackLang.Proofs.Places
import StackLang.Proofs.ResolutionWalk

/-!
The rules of scoping, said of the places in a program, and the walk that resolves names: the walk
ends without an error just if the rules are obeyed at all places.
-/
namespace StackLang

open Scope OpenScope Resolutions

/-- A call by that name and with that many arguments is one of a native function or of a function of
the program. -/
def Program.Callable (p : Program) (name : String) (count : Nat) : Prop :=
  (∃ native : Native, native.name = name ∧ native.arity = count) ∨
    ∃ f ∈ p.functions, f.name = name ∧ f.params.length = count

/-- What the rules ask of an expression where these scopes are open, the expressions inside it
aside. -/
def Expr.Obeys (p : Program) (scopes : List OpenScope) : Expr → Prop
  | .var _ name => name ∈ live scopes ∨ name ∈ p.globalNames
  | .call function args => p.Callable function args.length
  | _ => True

/-- What the rules ask of a statement where these scopes are open, its blocks aside. -/
structure Stmt.Obeys (p : Program) (scopes : List OpenScope) (s : Stmt) : Prop where
  uses : ∀ id name, s.Uses id name → name ∈ live scopes ∨ name ∈ p.globalNames
  jumps : ∀ id, s.Jumps id → ∃ scope ∈ scopes, scope.loop ≠ none
  calls : ∀ function args, .call function args ∈ s.parts → p.Callable function args.length

/-- What the rules ask at a place: the innermost scope declares no name twice, over all of its
block, and the next statement obeys. -/
structure Program.ObeyedAt (p : Program) (scopes : List OpenScope) (block : List Stmt) : Prop where
  names : ∀ scope ∈ scopes.head?, (scope.names ++ block.flatMap Stmt.declared).Nodup
  next : ∀ s ∈ block.head?, s.Obeys p scopes

theorem exists_bind_eq_ok_iff {ε α β : Type} {x : Except ε α} {f : α → Except ε β} :
    (∃ b, (x >>= f) = .ok b) ↔ ∃ a, x = .ok a ∧ ∃ b, f a = .ok b := by
  simp only [bind_eq_ok_iff]
  constructor
  · rintro ⟨b, a, hx, hf⟩
    exact ⟨a, hx, b, hf⟩
  · rintro ⟨a, hx, b, hf⟩
    exact ⟨b, a, hx, hf⟩

namespace OpenScope

@[simp]
theorem declare_nil (scope : OpenScope) : scope.declare [] = scope := by
  simp [declare]

@[simp]
theorem names_declare (names : List String) (scope : OpenScope) :
    (scope.declare names).names = scope.names ++ names := rfl

theorem innermostLoop?_isSome_iff {scopes : List OpenScope} :
    (∃ target, innermostLoop? scopes = some target) ↔ ∃ scope ∈ scopes, scope.loop ≠ none := by
  constructor
  · rintro ⟨target, htarget⟩
    obtain ⟨scope, hmem, hloop⟩ := List.exists_of_findSome?_eq_some htarget
    exact ⟨scope, hmem, by rw [hloop]; simp⟩
  · rintro ⟨scope, hmem, hloop⟩
    cases hfind : innermostLoop? scopes with
    | some target => exact ⟨target, rfl⟩
    | none => exact absurd (List.findSome?_eq_none_iff.1 hfind scope hmem) hloop

end OpenScope

structure Scopes.At (p : Program) (opened : List OpenScope) (scopes : Scopes) : Prop where
  inside : scopes.Inside p
  held : Held opened scopes.frames

namespace Scopes.At

variable {p : Program} {opened outer : List OpenScope} {scope : OpenScope} {scopes scopes' : Scopes}

theorem push (kind : ScopeKind) (h : scopes.At p opened) :
    (scopes.push kind).At p (⟨[], kind.loop?⟩ :: opened) :=
  ⟨h.inside.push kind, h.held.openIn kind⟩

theorem declares {names : List String} (h : scopes.At p (scope :: outer))
    (hd : scopes.Declares p names scopes') : scopes'.At p (scope.declare names :: outer) := by
  refine ⟨hd.inside, ?_⟩
  rw [hd.frames]
  exact h.held.declareIn names

/-- Closing a block gives back the place before it. -/
theorem close {kind : ScopeKind} {names : List String} (h : scopes.At p opened)
    (hd : (scopes.push kind).Declares p names scopes') : scopes'.pop.At p opened := by
  have hsame := h.inside.pop hd
  refine ⟨hsame.inside, ?_⟩
  rw [hsame.frames, declareIn_nil]
  exact h.held

/-- A variable is resolved just if it is live or global. -/
theorem resolveVar_ok_iff (r : Resolutions) (id : Nat) (name : String) (h : scopes.At p opened) :
    (∃ r', resolveVar scopes r id name = .ok r') ↔ name ∈ live opened ∨ name ∈ p.globalNames := by
  rw [← h.held.lookup?_isSome_iff, ← h.inside.lookup?]
  constructor
  · rintro ⟨r', hr⟩
    obtain ⟨slot, hslot, -⟩ := resolveVar_ok hr
    exact ⟨slot, hslot⟩
  · rintro ⟨slot, hslot⟩
    exact ⟨r.setSlot id slot, by rw [resolveVar, hslot]⟩

theorem resolveJump_ok_iff (r : Resolutions) (id : Nat) (jump : LoopJump)
    (h : scopes.At p opened) :
    (∃ r', resolveJump scopes r id jump = .ok r') ↔ ∃ scope ∈ opened, scope.loop ≠ none := by
  have hnear : scopes.nearestLoop? = innermostLoop? opened := h.held.nearestLoop? (p := p)
  rw [← innermostLoop?_isSome_iff, ← hnear]
  constructor
  · rintro ⟨r', hr⟩
    obtain ⟨target, htarget, -⟩ := resolveJump_ok hr
    exact ⟨target, htarget⟩
  · rintro ⟨target, htarget⟩
    exact ⟨r.setLoop id target, by rw [resolveJump, htarget]⟩

theorem declare?_eq_none_iff (name : String) (h : scopes.At p (scope :: outer)) :
    scopes.declare? name = none ↔ name ∈ scope.names := by
  obtain ⟨global, frames, water⟩ := scopes
  have hheld : Held (scope :: outer) frames := h.held
  obtain ⟨frame, frames', rfl, hnames, -⟩ := hheld.exists_cons
  simp [Scopes.declare?, Scope.declare?, hnames]

/-- Names can be declared if the innermost scope has none of them yet, and none comes twice. -/
theorem declareAll_ok_iff (kind : NameKind) (names : List String) (h : scopes.At p (scope :: outer))
    (hnodup : scope.names.Nodup) :
    (∃ scopes', scopes.declareAll kind names = .ok scopes') ↔ (scope.names ++ names).Nodup := by
  induction names generalizing scopes scope with
  | nil => simpa [Scopes.declareAll] using hnodup
  | cons name rest ih =>
    have hnone := h.declare?_eq_none_iff name
    cases hfind : scopes.declare? name with
    | none =>
      have hmem := hnone.1 hfind
      simp only [Scopes.declareAll, hfind]
      constructor
      · rintro ⟨scopes', hbad⟩
        cases hbad
      · intro hbad
        exact absurd List.mem_cons_self ((List.nodup_append.1 hbad).2.2 name hmem name · rfl)
    | some result =>
      have hmem : name ∉ scope.names := by
        intro hmem
        rw [hnone.2 hmem] at hfind
        cases hfind
      have hnodup' : (scope.declare [name]).names.Nodup := by
        rw [names_declare, List.nodup_append_comm]
        exact List.nodup_cons.2 ⟨hmem, hnodup⟩
      simp only [Scopes.declareAll, hfind]
      rw [ih (h.declares (h.inside.declare? hfind)) hnodup']
      simp

end Scopes.At

/-- A function starts with one scope and no names. -/
theorem Scopes.at_enterFunction {p : Program} {scopes : Scopes}
    (hglobal : scopes.global = p.globalScope) : scopes.enterFunction.At p [⟨[], none⟩] where
  inside := ⟨hglobal, by simp [Scopes.enterFunction], ⟨rfl, trivial⟩, Nat.le_refl 0⟩
  held := ⟨rfl, rfl, rfl, trivial⟩

def Program.Knows (p : Program) : Prop :=
  ∀ name count, p.Callable name count ↔
    ∃ signature, p.globalScope.function? name = some signature ∧ signature.arity = count

section

variable {p : Program} {opened : List OpenScope} {scopes : Scopes}

mutual

/-- An expression is resolved just if every part of it obeys the rules of scoping. -/
theorem Expr.resolve_ok_iff {r : Resolutions} (e : Expr) (hp : p.Knows) (h : scopes.At p opened) :
    (∃ r', e.resolve scopes r = .ok r') ↔ ∀ part ∈ e.parts, part.Obeys p opened := by
  cases e with
  | literal v => simp [Expr.resolve, Expr.parts, Expr.Obeys]
  | var id name =>
    rw [Expr.resolve, h.resolveVar_ok_iff]
    simp [Expr.parts, Expr.Obeys]
  | unary op operand =>
    rw [Expr.resolve, Expr.resolve_ok_iff operand hp h]
    simp [Expr.parts, Expr.Obeys]
  | binary op left right =>
    have hleft := fun r => Expr.resolve_ok_iff (r := r) left hp h
    have hright := fun r => Expr.resolve_ok_iff (r := r) right hp h
    rw [Expr.resolve, exists_bind_eq_ok_iff, Expr.parts, List.forall_mem_cons,
      List.forall_mem_append]
    simp only [hright, exists_and_right, hleft, Expr.Obeys, true_and]
  | call function args =>
    have hargs := Expr.resolveAll_ok_iff (r := r) args hp h
    rw [Expr.resolve, h.inside.global, Expr.parts, List.forall_mem_cons, ← hargs, Expr.Obeys,
      hp function args.length]
    cases hfind : p.globalScope.function? function with
    | none => simp
    | some signature =>
      by_cases harity : signature.arity = args.length
      · simp [harity]
      · simp [harity]

theorem Expr.resolveAll_ok_iff {r : Resolutions} (es : List Expr) (hp : p.Knows)
    (h : scopes.At p opened) :
    (∃ r', Expr.resolveAll scopes r es = .ok r') ↔
      ∀ part ∈ Expr.partsAll es, part.Obeys p opened := by
  cases es with
  | nil => simp [Expr.resolveAll, Expr.partsAll]
  | cons e rest =>
    have hfirst := fun r => Expr.resolve_ok_iff (r := r) e hp h
    have hrest := fun r => Expr.resolveAll_ok_iff (r := r) rest hp h
    rw [Expr.resolveAll, exists_bind_eq_ok_iff, Expr.partsAll, List.forall_mem_append]
    simp only [hrest, exists_and_right, hfirst]

end

/-- A statement obeys if the expressions it evaluates do, and if the variable it assigns, or the
loop it jumps to, is there. -/
theorem Stmt.obeys_iff {s : Stmt} :
    s.Obeys p opened ↔ (∀ part ∈ s.parts, part.Obeys p opened) ∧
      (∀ id name value, s = .assign id name value → name ∈ live opened ∨ name ∈ p.globalNames) ∧
      ∀ id, s.Jumps id → ∃ scope ∈ opened, scope.loop ≠ none := by
  constructor
  · intro h
    refine ⟨?_, ?_, h.jumps⟩
    · intro part hpart
      cases part with
      | var id name => exact h.uses id name (Or.inl hpart)
      | call function args => exact h.calls function args hpart
      | literal v => exact trivial
      | unary op operand => exact trivial
      | binary op left right => exact trivial
    · intro id name value hassign
      exact h.uses id name (Or.inr ⟨value, hassign⟩)
  · rintro ⟨hparts, hassign, hjumps⟩
    refine ⟨?_, hjumps, ?_⟩
    · rintro id name (hvar | ⟨value, rfl⟩)
      · exact hparts _ hvar
      · exact hassign id name value rfl
    · intro function args hcall
      exact hparts _ hcall

mutual

/-- A statement is resolved just if it declares no name twice and the rules are obeyed in it. -/
theorem Stmt.resolve_ok_iff {scopes : Scopes} {scope : OpenScope} {outer : List OpenScope}
    {r : Resolutions} (s : Stmt) (hp : p.Knows) (h : scopes.At p (scope :: outer))
    (hnodup : scope.names.Nodup) :
    (∃ out, s.resolve scopes r = .ok out) ↔
      (scope.names ++ s.declared).Nodup ∧ s.Obeys p (scope :: outer) ∧
        ∀ b ∈ s.blocks, AllWithin p.ObeyedAt (⟨[], b.1⟩ :: scope :: outer) b.2 := by
  rw [Stmt.obeys_iff]
  cases s with
  | declare names =>
    have hnames := h.declareAll_ok_iff .variable names hnodup
    rw [Stmt.resolve, exists_bind_eq_ok_iff]
    simp [Stmt.declared, Stmt.parts, Stmt.Jumps, Stmt.blocks, hnames]
  | assign id name value =>
    have hvalue := Expr.resolve_ok_iff (r := r) value hp h
    have hvar := fun r => h.resolveVar_ok_iff r id name
    rw [Stmt.resolve, exists_bind_eq_ok_iff]
    simp [Stmt.declared, Stmt.parts, Stmt.Jumps, Stmt.blocks, exists_bind_eq_ok_iff, hnodup,
      hvalue, hvar]
  | ret value =>
    cases value with
    | none => simp [Stmt.resolve, Stmt.declared, Stmt.parts, Stmt.Jumps, Stmt.blocks, hnodup]
    | some value =>
      have hvalue := Expr.resolve_ok_iff (r := r) value hp h
      rw [Stmt.resolve, exists_bind_eq_ok_iff]
      simp [Stmt.declared, Stmt.parts, Stmt.Jumps, Stmt.blocks, hnodup, hvalue]
  | leave id =>
    have hjump := h.resolveJump_ok_iff r id .leave
    rw [Stmt.resolve, exists_bind_eq_ok_iff]
    simp [Stmt.declared, Stmt.parts, Stmt.Jumps, Stmt.blocks, hnodup, hjump]
  | again id =>
    have hjump := h.resolveJump_ok_iff r id .again
    rw [Stmt.resolve, exists_bind_eq_ok_iff]
    simp [Stmt.declared, Stmt.parts, Stmt.Jumps, Stmt.blocks, hnodup, hjump]
  | branch cond thenBody elseBody =>
    have hpush := h.push .block
    simp only [Stmt.declared, List.append_nil, hnodup, Stmt.parts, Stmt.Jumps, Stmt.blocks,
      List.forall_mem_cons, reduceCtorEq, or_false, IsEmpty.forall_iff, implies_true, and_true,
      true_and, List.not_mem_nil, ← Expr.resolve_ok_iff (r := r) cond hp h, Stmt.resolve]
    constructor
    · rintro ⟨out, hok⟩
      simp only [bind_eq_ok_iff, Prod.exists] at hok
      obtain ⟨r₁, h₁, t, r₂, h₂, u, r₃, h₃, -⟩ := hok
      have hclosed := h.close (Stmt.resolveAll_declares thenBody hpush.inside h₂)
      exact ⟨⟨r₁, h₁⟩, (Stmt.resolveAll_ok_iff thenBody hp hpush .nil).1 ⟨_, h₂⟩,
        (Stmt.resolveAll_ok_iff elseBody hp (hclosed.push .block) .nil).1 ⟨_, h₃⟩⟩
    · rintro ⟨⟨r₁, h₁⟩, hthen, helse⟩
      obtain ⟨⟨t, r₂⟩, h₂⟩ := (Stmt.resolveAll_ok_iff (r := r₁) thenBody hp hpush .nil).2 hthen
      have hclosed := h.close (Stmt.resolveAll_declares thenBody hpush.inside h₂)
      obtain ⟨⟨u, r₃⟩, h₃⟩ :=
        (Stmt.resolveAll_ok_iff (r := r₂) elseBody hp (hclosed.push .block) .nil).2 helse
      exact ⟨(u.pop, r₃), by simp [h₁, h₂, h₃]⟩
  | loop id cond body =>
    have hpush := h.push (.loop id)
    simp only [Stmt.declared, List.append_nil, hnodup, Stmt.parts, Stmt.Jumps, Stmt.blocks,
      List.forall_mem_cons, reduceCtorEq, or_false, IsEmpty.forall_iff, implies_true, and_true,
      true_and, List.not_mem_nil, ← Expr.resolve_ok_iff (r := r) cond hp h, Stmt.resolve]
    constructor
    · rintro ⟨out, hok⟩
      simp only [bind_eq_ok_iff, Prod.exists] at hok
      obtain ⟨r₁, h₁, t, r₂, h₂, -⟩ := hok
      exact ⟨⟨r₁, h₁⟩, (Stmt.resolveAll_ok_iff body hp hpush .nil).1 ⟨_, h₂⟩⟩
    · rintro ⟨⟨r₁, h₁⟩, hbody⟩
      obtain ⟨⟨t, r₂⟩, h₂⟩ := (Stmt.resolveAll_ok_iff (r := r₁) body hp hpush .nil).2 hbody
      exact ⟨(t.pop, r₂), by simp [h₁, h₂]⟩
  | eval e =>
    have hvalue := Expr.resolve_ok_iff (r := r) e hp h
    rw [Stmt.resolve, exists_bind_eq_ok_iff]
    simp [Stmt.declared, Stmt.parts, Stmt.Jumps, Stmt.blocks, hnodup, hvalue]

/-- A block is resolved just if the rules are obeyed at all its places. -/
theorem Stmt.resolveAll_ok_iff {scopes : Scopes} {scope : OpenScope} {outer : List OpenScope}
    {r : Resolutions} (ss : List Stmt) (hp : p.Knows) (h : scopes.At p (scope :: outer))
    (hnodup : scope.names.Nodup) :
    (∃ out, Stmt.resolveAll scopes r ss = .ok out) ↔ AllWithin p.ObeyedAt (scope :: outer) ss := by
  cases ss with
  | nil =>
    rw [AllWithin.nil_iff]
    constructor
    · intro _
      exact ⟨by simpa using hnodup, by simp⟩
    · intro _
      exact ⟨_, rfl⟩
  | cons s rest =>
    rw [Stmt.resolveAll, exists_bind_eq_ok_iff, AllWithin.cons_iff]
    constructor
    · rintro ⟨⟨t, r₁⟩, hfirst, hrest⟩
      obtain ⟨hnames, hobeys, hblocks⟩ := (Stmt.resolve_ok_iff s hp h hnodup).1 ⟨_, hfirst⟩
      have ht := h.declares (Stmt.resolve_declares s h.inside hfirst)
      have hafter := (Stmt.resolveAll_ok_iff rest hp ht hnames).1 hrest
      refine ⟨⟨?_, by simpa using hobeys⟩, hblocks, hafter⟩
      have hall := (hafter _ _ .start).names
      simpa using hall
    · rintro ⟨hstart, hblocks, hafter⟩
      have hall : (scope.names ++ (s.declared ++ rest.flatMap Stmt.declared)).Nodup := by
        simpa using hstart.names
      rw [← List.append_assoc] at hall
      have hnames := hall.of_append_left
      obtain ⟨⟨t, r₁⟩, hfirst⟩ := (Stmt.resolve_ok_iff (r := r) s hp h hnodup).2
        ⟨hnames, hstart.next s (by simp), hblocks⟩
      have ht := h.declares (Stmt.resolve_declares s h.inside hfirst)
      exact ⟨_, hfirst, (Stmt.resolveAll_ok_iff rest hp ht hnames).2 hafter⟩

end

end

/-- The parts of a walk over a function: its parameters, its body at the place after them, and the
note of the mark that was reached. -/
theorem FunctionDecl.resolve_walk {p : Program} {scopes scopes' : Scopes} {r r' : Resolutions}
    {f : FunctionDecl} (hglobal : scopes.global = p.globalScope)
    (h : f.resolve scopes r = .ok (scopes', r')) :
    ∃ s₀ s₁ r₁, scopes.enterFunction.declareAll .parameter f.params = .ok s₀ ∧
      s₀.At p [⟨f.params, none⟩] ∧ Stmt.resolveAll s₀ r f.body = .ok (s₁, r₁) ∧
      scopes'.global = p.globalScope ∧ r' = r₁.setFrameSize f.name s₁.highWater := by
  simp only [FunctionDecl.resolve, bind_eq_ok_iff, Prod.exists] at h
  obtain ⟨s₀, hparams, s₁, r₁, hbody, hdone⟩ := h
  cases hdone
  have hstart := Scopes.at_enterFunction hglobal
  have h₀ := hstart.declares (hstart.inside.declareAll hparams)
  have hend := Stmt.resolveAll_declares f.body h₀.inside hbody
  exact ⟨s₀, s₁, r₁, hparams, h₀, hbody, hend.inside.global, rfl⟩

/-- A function is resolved just if the rules are obeyed at all places of its body. -/
theorem FunctionDecl.resolve_ok_iff {p : Program} {scopes : Scopes} {r : Resolutions}
    {f : FunctionDecl} (hp : p.Knows) (hglobal : scopes.global = p.globalScope) :
    (∃ out, f.resolve scopes r = .ok out) ↔ AllWithin p.ObeyedAt [⟨f.params, none⟩] f.body := by
  have hstart := Scopes.at_enterFunction hglobal
  have hparams := hstart.declareAll_ok_iff .parameter f.params .nil
  constructor
  · rintro ⟨⟨scopes', r'⟩, h⟩
    obtain ⟨s₀, s₁, r₁, h₀, hat, h₁, -, -⟩ := FunctionDecl.resolve_walk hglobal h
    have hnodup : f.params.Nodup := hparams.1 ⟨s₀, h₀⟩
    exact (Stmt.resolveAll_ok_iff f.body hp hat hnodup).1 ⟨_, h₁⟩
  · intro h
    have hall : (f.params ++ f.body.flatMap Stmt.declared).Nodup :=
      (h _ _ .start).names _ rfl
    obtain ⟨s₀, h₀⟩ := hparams.2 hall.of_append_left
    have hat := hstart.declares (hstart.inside.declareAll h₀)
    obtain ⟨⟨s₁, r₁⟩, h₁⟩ :=
      (Stmt.resolveAll_ok_iff (r := r) f.body hp hat hall.of_append_left).2 h
    exact ⟨(s₁.exitFunction, r₁.setFrameSize f.name s₁.highWater),
      by simp [FunctionDecl.resolve, h₀, h₁]⟩

theorem FunctionDecl.resolveAll_ok_iff {p : Program} {scopes : Scopes} {r : Resolutions}
    {fs : List FunctionDecl} (hp : p.Knows) (hglobal : scopes.global = p.globalScope) :
    (∃ r', FunctionDecl.resolveAll scopes r fs = .ok r') ↔
      ∀ f ∈ fs, AllWithin p.ObeyedAt [⟨f.params, none⟩] f.body := by
  induction fs generalizing scopes r with
  | nil => simp [FunctionDecl.resolveAll]
  | cons f rest ih =>
    rw [FunctionDecl.resolveAll, exists_bind_eq_ok_iff, List.forall_mem_cons]
    constructor
    · rintro ⟨⟨scopes', r'⟩, hfirst, hrest⟩
      obtain ⟨-, -, -, -, -, -, hglobal', -⟩ := FunctionDecl.resolve_walk hglobal hfirst
      exact ⟨(FunctionDecl.resolve_ok_iff hp hglobal).1 ⟨_, hfirst⟩, (ih hglobal').1 hrest⟩
    · rintro ⟨hfirst, hrest⟩
      obtain ⟨⟨scopes', r'⟩, hok⟩ := (FunctionDecl.resolve_ok_iff (r := r) hp hglobal).2 hfirst
      obtain ⟨-, -, -, -, -, -, hglobal', -⟩ := FunctionDecl.resolve_walk hglobal hok
      exact ⟨_, hok, (ih hglobal').2 hrest⟩

/-! The names outside the functions. -/

/-- The global variables can be declared just if no two share a name. -/
theorem Scopes.declareAll_initial_eq_ok_iff {names : List String} {s : Scopes} :
    Scopes.initial.declareAll .variable names = .ok s ↔
      names.Nodup ∧ s = { Scopes.initial with global.vars.names := names.reverse } := by
  -- The names already declared vary along the induction.
  have hfrom : ∀ t : Scopes, t.frames = [] → (names.reverse ++ t.global.vars.names).Nodup →
      t.declareAll .variable names =
        .ok { t with global.vars.names := names.reverse ++ t.global.vars.names } := by
    induction names with
    | nil => exact fun t _ _ => rfl
    | cons name rest ih =>
      rintro ⟨⟨vars, functions⟩, frames, water⟩ rfl h
      rw [List.reverse_cons, List.append_assoc, List.singleton_append] at h
      have hnew := List.nodup_cons.1 h.of_append_right
      simp only [Scopes.declareAll, Scopes.declare?, GlobalScope.declareVar?, Scope.declare?,
        hnew.1, if_false, Option.map_some]
      rw [ih _ rfl h]
      simp
  constructor
  · intro h
    obtain ⟨hnodup, rfl⟩ := Scopes.declareAll_global rfl List.nodup_nil h
    simpa [Scopes.initial, GlobalScope.withNatives, Scope.empty] using hnodup
  · rintro ⟨hnodup, rfl⟩
    rw [hfrom _ rfl (by simpa [Scopes.initial, GlobalScope.withNatives, Scope.empty] using hnodup)]
    simp [Scopes.initial, GlobalScope.withNatives, Scope.empty]

/-- The functions can be declared just if no two share a name and none is declared already. -/
theorem Scopes.declareFunctions_eq_ok_iff {s s' : Scopes} {fs : List FunctionDecl} :
    s.declareFunctions fs = .ok s' ↔
      (fs.map (·.name)).Nodup ∧ (∀ f ∈ fs, s.global.function? f.name = none) ∧
        s' = { s with global.functions :=
          (fs.map fun f => (f.name, ⟨f.params.length, none⟩)).reverse ++ s.global.functions } := by
  constructor
  · exact Scopes.declareFunctions_ok
  · rintro ⟨hnodup, hnew, rfl⟩
    induction fs generalizing s with
    | nil => rfl
    | cons f rest ih =>
      rw [List.map_cons, List.nodup_cons] at hnodup
      have hf := hnew f (List.mem_cons_self ..)
      simp only [Scopes.declareFunctions, GlobalScope.declareFunction?, hf, Option.isSome_none,
        Bool.false_eq_true, if_false]
      rw [ih hnodup.2 ?_]
      · simp
      · intro g hg
        have hne : g.name ≠ f.name := by
          intro hname
          exact hnodup.1 (hname ▸ List.mem_map_of_mem hg)
        have hother : (g.name == f.name) = false := by simpa using hne
        rw [GlobalScope.function?, List.lookup_cons, hother]
        exact hnew g (List.mem_cons_of_mem f hg)

theorem GlobalScope.function?_withNatives_eq_none_iff {name : String} :
    GlobalScope.withNatives.function? name = none ↔ ∀ native : Native, name ≠ native.name := by
  rw [GlobalScope.function?, GlobalScope.withNatives, List.lookup_eq_none_iff]
  constructor
  · intro h native hname
    have hmem : native ∈ Native.all := by cases native <;> simp [Native.all]
    have hne := h _ (List.mem_map_of_mem hmem)
    simp [hname] at hne
  · intro h entry hentry
    obtain ⟨native, -, rfl⟩ := List.mem_map.1 hentry
    simpa using h native

namespace Program

variable {p : Program}

/-- The functions of the program as the scope lists them, the last one first. -/
def signatures (p : Program) : List (String × Signature) :=
  (p.functions.map fun f => (f.name, ⟨f.params.length, none⟩)).reverse

/-- A function of the program is found before a native one. -/
theorem function?_globalScope (p : Program) (name : String) :
    p.globalScope.function? name =
      (p.signatures.lookup name).or (GlobalScope.withNatives.function? name) :=
  List.lookup_append

theorem mem_signatures_iff {name : String} {signature : Signature} :
    (name, signature) ∈ p.signatures ↔
      ∃ f ∈ p.functions, f.name = name ∧ ⟨f.params.length, none⟩ = signature := by
  simp [signatures]

theorem lookup_signatures_eq_none {name : String} (h : ∀ f ∈ p.functions, f.name ≠ name) :
    p.signatures.lookup name = none := by
  rw [List.lookup_eq_none_iff]
  rintro ⟨other, signature⟩ hentry
  obtain ⟨f, hf, rfl, -⟩ := mem_signatures_iff.1 hentry
  simpa using (h f hf).symm

theorem lookup_signatures (hnodup : (p.functions.map (·.name)).Nodup) {f : FunctionDecl}
    (hf : f ∈ p.functions) : p.signatures.lookup f.name = some ⟨f.params.length, none⟩ := by
  cases hfind : p.signatures.lookup f.name with
  | none =>
    have hmem := mem_signatures_iff.2 ⟨f, hf, rfl, rfl⟩
    have hne := List.lookup_eq_none_iff.1 hfind _ hmem
    simp at hne
  | some signature =>
    obtain ⟨g, hg, hname, rfl⟩ := mem_signatures_iff.1 (mem_of_lookup_eq_some hfind)
    have hfound := find?_of_nodup hnodup hf
    rw [← hname, find?_of_nodup hnodup hg] at hfound
    cases hfound
    rfl

/-- With different names for all functions, a call means what the scope says. -/
theorem knows (hnodup : (p.functions.map (·.name)).Nodup)
    (hnative : ∀ f ∈ p.functions, ∀ native : Native, f.name ≠ native.name) : p.Knows := by
  intro name count
  constructor
  · rintro (⟨native, rfl, rfl⟩ | ⟨f, hf, rfl, rfl⟩)
    · refine ⟨⟨native.arity, some native⟩, ?_, rfl⟩
      rw [function?_globalScope, lookup_signatures_eq_none fun f hf => hnative f hf native,
        Option.none_or]
      cases native <;> rfl
    · refine ⟨⟨f.params.length, none⟩, ?_, rfl⟩
      rw [function?_globalScope, lookup_signatures hnodup hf, Option.some_or]
  · rintro ⟨signature, hsignature, rfl⟩
    rw [function?_globalScope] at hsignature
    rcases Option.or_eq_some_iff.1 hsignature with huser | ⟨-, hprovided⟩
    · obtain ⟨f, hf, hname, rfl⟩ := mem_signatures_iff.1 (mem_of_lookup_eq_some huser)
      exact Or.inr ⟨f, hf, hname, rfl⟩
    · obtain ⟨native, -, hentry⟩ := List.mem_map.1 (mem_of_lookup_eq_some hprovided)
      obtain ⟨rfl, rfl⟩ := Prod.mk.inj hentry
      exact Or.inl ⟨native, rfl, rfl⟩

/-- The parts of the walk over a program: once the names outside the functions are declared, the
functions are walked one after the other. -/
theorem resolve_eq_ok_iff {r : Resolutions} :
    p.resolve = .ok r ↔ p.globalNames.Nodup ∧ (p.functions.map (·.name)).Nodup ∧
      (∀ f ∈ p.functions, ∀ native : Native, f.name ≠ native.name) ∧
      FunctionDecl.resolveAll (p.scopes []) (.empty p.globalNames.length) p.functions = .ok r := by
  simp only [← GlobalScope.function?_withNatives_eq_none_iff, resolve, bind_eq_ok_iff,
    Scopes.declareAll_initial_eq_ok_iff, Scopes.declareFunctions_eq_ok_iff]
  have hcount : GlobalScope.varCount ⟨⟨.global, 0, p.globalNames.reverse⟩,
      GlobalScope.withNatives.functions⟩ = p.globalNames.length := by
    simp [GlobalScope.varCount, Scope.next]
  constructor
  · rintro ⟨-, ⟨hglobals, rfl⟩, -, ⟨hnodup, hnew, rfl⟩, hall⟩
    rw [← hcount]
    exact ⟨hglobals, hnodup, hnew, hall⟩
  · rintro ⟨hglobals, hnodup, hnew, hall⟩
    rw [← hcount] at hall
    exact ⟨_, ⟨hglobals, rfl⟩, _, ⟨hnodup, hnew, rfl⟩, hall⟩

end Program

end StackLang

import Mathlib.Data.List.Forall2
import StackLang.Proofs.Layout
import StackLang.Proofs.WellScoped

/-!
Other numbers for the same tree. One counter numbers the nodes of a whole program, so the numbers in
a function depend on all functions before it. Nothing else does: the rules of scoping are obeyed
under any numbers or under none, as many variables are live at once, and the code is the same.
-/
namespace StackLang

open Scope OpenScope

def FunctionDecl.numberFrom (n : Nat) (f : FunctionDecl) : FunctionDecl :=
  { f with body := (Stmt.numberAll n f.body).1 }

mutual

/-- Numbering changes no length. -/
@[simp]
theorem Expr.length_number (n : Nat) (e : Expr) : (e.number n).1.length = e.length := by
  cases e with
  | literal v => rfl
  | var id name => rfl
  | unary op operand => simp only [Expr.number, Expr.length, Expr.length_number n operand]
  | binary op left right =>
    simp only [Expr.number, Expr.length, Expr.length_number _ left, Expr.length_number _ right]
  | call function args => simp only [Expr.number, Expr.length, Expr.lengthAll_numberAll n args]

@[simp]
theorem Expr.lengthAll_numberAll (n : Nat) (es : List Expr) :
    Expr.lengthAll (Expr.numberAll n es).1 = Expr.lengthAll es := by
  cases es with
  | nil => rfl
  | cons e rest =>
    simp only [Expr.numberAll, Expr.lengthAll, Expr.length_number n e,
      Expr.lengthAll_numberAll _ rest]

end

mutual

@[simp]
theorem Stmt.length_number (n : Nat) (s : Stmt) : (s.number n).1.length = s.length := by
  cases s with
  | declare names => rfl
  | assign id name value => simp only [Stmt.number, Stmt.length, Expr.length_number]
  | ret value =>
    cases value with
    | none => rfl
    | some value => simp only [Stmt.number, Stmt.length, Expr.length_number]
  | leave id => rfl
  | again id => rfl
  | branch cond thenBody elseBody =>
    simp only [Stmt.number, Stmt.length, Expr.length_number, Stmt.lengthAll_numberAll _ thenBody,
      Stmt.lengthAll_numberAll _ elseBody]
  | loop id cond body =>
    simp only [Stmt.number, Stmt.length, Expr.length_number, Stmt.lengthAll_numberAll _ body]
  | eval e => simp only [Stmt.number, Stmt.length, Expr.length_number]

@[simp]
theorem Stmt.lengthAll_numberAll (n : Nat) (ss : List Stmt) :
    Stmt.lengthAll (Stmt.numberAll n ss).1 = Stmt.lengthAll ss := by
  cases ss with
  | nil => rfl
  | cons s rest =>
    simp only [Stmt.numberAll, Stmt.lengthAll, Stmt.length_number n s,
      Stmt.lengthAll_numberAll _ rest]

end

theorem Expr.length_numberAll (n : Nat) (es : List Expr) :
    (Expr.numberAll n es).1.length = es.length := by
  induction es generalizing n with
  | nil => rfl
  | cons e rest ih => simp only [Expr.numberAll, List.length_cons, ih]

@[simp]
theorem Stmt.declared_number (n : Nat) (s : Stmt) : (s.number n).1.declared = s.declared := by
  cases s with
  | ret value => cases value <;> rfl
  | _ => rfl

theorem Stmt.flatMap_declared_numberAll (n : Nat) (ss : List Stmt) :
    (Stmt.numberAll n ss).1.flatMap Stmt.declared = ss.flatMap Stmt.declared := by
  induction ss generalizing n with
  | nil => rfl
  | cons s rest ih => simp only [Stmt.numberAll, List.flatMap_cons, Stmt.declared_number, ih]

/-! The rules of scoping under other numbers. Of an open scope, only the number of its loop can
differ. -/

/-- The scopes have the same names, and either both are bodies of loops or none is. -/
structure OpenScope.Alike (a b : OpenScope) : Prop where
  names : a.names = b.names
  loop : a.loop = none ↔ b.loop = none

theorem OpenScope.live_eq_of_alike {opened opened' : List OpenScope}
    (h : List.Forall₂ OpenScope.Alike opened opened') : live opened = live opened' := by
  induction h with
  | nil => rfl
  | cons hscope _ ih => rw [live, live, ih, hscope.names]

theorem OpenScope.exists_loop_iff {opened opened' : List OpenScope}
    (h : List.Forall₂ OpenScope.Alike opened opened') :
    (∃ scope ∈ opened, scope.loop ≠ none) ↔ ∃ scope ∈ opened', scope.loop ≠ none := by
  induction h with
  | nil => simp
  | cons hscope _ ih => simp only [List.mem_cons, exists_eq_or_imp, ne_eq, hscope.loop, ih]

/-- What `Q` says of a place is what `P` says of it once the nodes are numbered, from wherever the
numbers start. -/
def NumberFree (P Q : List OpenScope → List Stmt → Prop) : Prop :=
  ∀ opened opened' n block, List.Forall₂ OpenScope.Alike opened opened' →
    (P opened (Stmt.numberAll n block).1 ↔ Q opened' block)

section

variable {P Q : List OpenScope → List Stmt → Prop}

mutual

theorem Stmt.blocks_number_iff (hPQ : NumberFree P Q) {opened opened' : List OpenScope} (n : Nat)
    (s : Stmt) (h : List.Forall₂ OpenScope.Alike opened opened') :
    (∀ b ∈ (s.number n).1.blocks, AllWithin P (⟨[], b.1⟩ :: opened) b.2) ↔
      ∀ b ∈ s.blocks, AllWithin Q (⟨[], b.1⟩ :: opened') b.2 := by
  cases s with
  | branch cond thenBody elseBody =>
    have hscope : OpenScope.Alike ⟨[], none⟩ ⟨[], none⟩ := ⟨rfl, Iff.rfl⟩
    simp [Stmt.number, Stmt.blocks, AllWithin.numberAll_iff hPQ _ thenBody hscope h,
      AllWithin.numberAll_iff hPQ _ elseBody hscope h]
  | loop id cond body =>
    have hscope : OpenScope.Alike ⟨[], some n⟩ ⟨[], some id⟩ := ⟨rfl, by simp⟩
    simp [Stmt.number, Stmt.blocks, AllWithin.numberAll_iff hPQ _ body hscope h]
  | ret value => cases value <;> simp [Stmt.number, Stmt.blocks]
  | _ => simp [Stmt.number, Stmt.blocks]

/-- A property that does not depend on numbers holds at the places of a block just if it holds after
numbering. -/
theorem AllWithin.numberAll_iff (hPQ : NumberFree P Q) {outer outer' : List OpenScope}
    {scope scope' : OpenScope} (n : Nat) (ss : List Stmt) (hscope : scope.Alike scope')
    (h : List.Forall₂ OpenScope.Alike outer outer') :
    AllWithin P (scope :: outer) (Stmt.numberAll n ss).1 ↔ AllWithin Q (scope' :: outer') ss := by
  have hstart := hPQ _ _ n ss (.cons hscope h)
  cases ss with
  | nil =>
    simp only [Stmt.numberAll, AllWithin.nil_iff] at hstart ⊢
    exact hstart
  | cons s rest =>
    have hdeclared : (scope.declare s.declared).Alike (scope'.declare s.declared) :=
      ⟨by simp only [names_declare, hscope.names], hscope.loop⟩
    simp only [Stmt.numberAll, AllWithin.cons_iff] at hstart ⊢
    rw [hstart, Stmt.blocks_number_iff hPQ n s (.cons hscope h), Stmt.declared_number,
      AllWithin.numberAll_iff hPQ _ rest hdeclared h]

end

/-- What holds at all places of a function holds there under any numbers. -/
theorem FunctionDecl.allWithin_numberFrom_iff (hPQ : NumberFree P Q) (n : Nat) (f : FunctionDecl) :
    AllWithin P [⟨f.params, none⟩] (f.numberFrom n).body ↔
      AllWithin Q [⟨f.params, none⟩] f.body :=
  AllWithin.numberAll_iff hPQ n f.body ⟨rfl, Iff.rfl⟩ .nil

end

theorem liveAtMost_numberFree (m : Nat) : NumberFree (LiveAtMost m) (LiveAtMost m) := by
  intro opened opened' n block h
  rw [LiveAtMost, LiveAtMost, live_eq_of_alike h]

structure Program.Agrees (p p' : Program) : Prop where
  globals : p.globalNames = p'.globalNames
  callable : ∀ name count, p.Callable name count ↔ p'.Callable name count

theorem Program.Agrees.refl (p : Program) : p.Agrees p := ⟨rfl, fun _ _ => Iff.rfl⟩

section

variable {p p' : Program} {opened opened' : List OpenScope}

mutual

theorem Expr.obeys_number_iff (hp : p.Agrees p') (hlive : live opened = live opened') (n : Nat)
    (e : Expr) :
    (∀ part ∈ (e.number n).1.parts, part.Obeys p opened) ↔
      ∀ part ∈ e.parts, part.Obeys p' opened' := by
  cases e with
  | literal v => simp [Expr.number, Expr.parts, Expr.Obeys]
  | var id name => simp [Expr.number, Expr.parts, Expr.Obeys, hp.globals, hlive]
  | unary op operand =>
    simp only [Expr.number, Expr.parts, List.forall_mem_cons,
      Expr.obeys_number_iff hp hlive n operand]
    exact Iff.rfl
  | binary op left right =>
    simp only [Expr.number, Expr.parts, List.forall_mem_cons, List.forall_mem_append,
      Expr.obeys_number_iff hp hlive _ left, Expr.obeys_number_iff hp hlive _ right]
    exact Iff.rfl
  | call function args =>
    have hcall : p.Callable function (Expr.numberAll n args).1.length ↔
        p'.Callable function args.length := by
      rw [Expr.length_numberAll, hp.callable]
    simp only [Expr.number, Expr.parts, List.forall_mem_cons,
      Expr.obeysAll_numberAll_iff hp hlive n args]
    exact and_congr_left fun _ => hcall

theorem Expr.obeysAll_numberAll_iff (hp : p.Agrees p') (hlive : live opened = live opened')
    (n : Nat) (es : List Expr) :
    (∀ part ∈ Expr.partsAll (Expr.numberAll n es).1, part.Obeys p opened) ↔
      ∀ part ∈ Expr.partsAll es, part.Obeys p' opened' := by
  cases es with
  | nil => simp [Expr.numberAll, Expr.partsAll]
  | cons e rest =>
    simp only [Expr.numberAll, Expr.partsAll, List.forall_mem_append,
      Expr.obeys_number_iff hp hlive n e, Expr.obeysAll_numberAll_iff hp hlive _ rest]

end

/-- A statement obeys the rules just if it does so after numbering. -/
theorem Stmt.obeys_number_iff (hp : p.Agrees p')
    (h : List.Forall₂ OpenScope.Alike opened opened') (n : Nat) (s : Stmt) :
    (s.number n).1.Obeys p opened ↔ s.Obeys p' opened' := by
  have hlive := live_eq_of_alike h
  simp only [Stmt.obeys_iff, exists_loop_iff h, hlive, hp.globals]
  cases s with
  | declare names => simp [Stmt.number, Stmt.parts, Stmt.Jumps]
  | assign id name value =>
    simp [Stmt.number, Stmt.parts, Stmt.Jumps, Expr.obeys_number_iff hp hlive]
  | ret value =>
    cases value with
    | none => simp [Stmt.number, Stmt.parts, Stmt.Jumps]
    | some value => simp [Stmt.number, Stmt.parts, Stmt.Jumps, Expr.obeys_number_iff hp hlive]
  | leave id => simp [Stmt.number, Stmt.parts, Stmt.Jumps]
  | again id => simp [Stmt.number, Stmt.parts, Stmt.Jumps]
  | branch cond thenBody elseBody =>
    simp [Stmt.number, Stmt.parts, Stmt.Jumps, Expr.obeys_number_iff hp hlive]
  | loop id cond body =>
    simp [Stmt.number, Stmt.parts, Stmt.Jumps, Expr.obeys_number_iff hp hlive]
  | eval e => simp [Stmt.number, Stmt.parts, Stmt.Jumps, Expr.obeys_number_iff hp hlive]

/-- The rules of scoping do not depend on numbers. -/
theorem Program.Agrees.numberFree (hp : p.Agrees p') : NumberFree p.ObeyedAt p'.ObeyedAt := by
  intro opened opened' n block h
  have hnames : (∀ scope ∈ opened.head?,
        (scope.names ++ (Stmt.numberAll n block).1.flatMap Stmt.declared).Nodup) ↔
      ∀ scope ∈ opened'.head?, (scope.names ++ block.flatMap Stmt.declared).Nodup := by
    rw [Stmt.flatMap_declared_numberAll]
    cases h with
    | nil => exact Iff.rfl
    | cons hscope _ => simp [hscope.names]
  have hnext : (∀ s ∈ (Stmt.numberAll n block).1.head?, s.Obeys p opened) ↔
      ∀ s ∈ block.head?, s.Obeys p' opened' := by
    cases block with
    | nil => simp [Stmt.numberAll]
    | cons s rest => simp [Stmt.numberAll, Stmt.obeys_number_iff hp h]
  constructor
  · intro hobeyed
    exact ⟨hnames.1 hobeyed.names, hnext.1 hobeyed.next⟩
  · intro hobeyed
    exact ⟨hnames.2 hobeyed.names, hnext.2 hobeyed.next⟩

end

/-! The code under other numbers. -/

structure Scope.Alike (a b : Scope) : Prop where
  base : a.base = b.base
  names : a.names = b.names

section

variable {frames frames' : List Scope}

theorem Scope.alike_openIn (kind kind' : ScopeKind)
    (h : List.Forall₂ Scope.Alike frames frames') :
    List.Forall₂ Scope.Alike (openIn kind frames) (openIn kind' frames') := by
  refine .cons ⟨?_, rfl⟩ h
  cases h with
  | nil => rfl
  | cons hscope _ => simp only [Scope.empty, nextIn, next, hscope.base, hscope.names]

theorem Scope.alike_declareIn (names : List String)
    (h : List.Forall₂ Scope.Alike frames frames') :
    List.Forall₂ Scope.Alike (declareIn names frames) (declareIn names frames') := by
  cases h with
  | nil => exact .nil
  | cons hscope houter => exact .cons ⟨hscope.base, by simp only [hscope.names]⟩ houter

variable {p p' : Program}

theorem Program.lookup?_eq_of_alike (hp : p.globalNames = p'.globalNames)
    (h : List.Forall₂ Scope.Alike frames frames') (name : String) :
    (p.scopes frames).lookup? name = (p'.scopes frames').lookup? name := by
  induction h with
  | nil => rw [lookup?_nil, lookup?_nil, hp]
  | cons hscope _ ih =>
    rw [lookup?_cons, lookup?_cons, Scope.lookup?, Scope.lookup?, hscope.base, hscope.names, ih]

variable {r r' : Resolutions} {size size' : Nat}

theorem Program.Denotes.slotAt_eq {id id' : Nat} {name : String}
    (h : p.Denotes r size frames id name) (h' : p'.Denotes r' size' frames' id' name)
    (hp : p.globalNames = p'.globalNames) (hf : List.Forall₂ Scope.Alike frames frames') :
    r.slotAt id = r'.slotAt id' := by
  obtain ⟨slot, hfind, hslot, -⟩ := h
  obtain ⟨slot', hfind', hslot', -⟩ := h'
  rw [Program.lookup?_eq_of_alike hp hf, hfind'] at hfind
  cases hfind
  rw [Resolutions.slotAt, Resolutions.slotAt, hslot, hslot']

mutual

/-- The code of an expression does not depend on where its numbers start. -/
theorem Expr.layout_number (hp : p.globalNames = p'.globalNames)
    (hf : List.Forall₂ Scope.Alike frames frames') {n n' : Nat} (e : Expr)
    (h : (e.number n).1.Resolved p r size frames)
    (h' : (e.number n').1.Resolved p' r' size' frames') :
    (e.number n).1.layout r = (e.number n').1.layout r' := by
  cases e with
  | literal v => rfl
  | var id name =>
    simp only [Expr.number, Expr.Resolved] at h h'
    simp only [Expr.number, Expr.layout, h.slotAt_eq h' hp hf]
  | unary op operand =>
    simp only [Expr.number, Expr.Resolved] at h h'
    simp only [Expr.number, Expr.layout, Expr.layout_number hp hf operand h h']
  | binary op left right =>
    simp only [Expr.number, Expr.Resolved] at h h'
    simp only [Expr.number, Expr.layout, Expr.layout_number hp hf left h.1 h'.1,
      Expr.layout_number hp hf right h.2 h'.2]
  | call function args =>
    simp only [Expr.number, Expr.Resolved] at h h'
    simp only [Expr.number, Expr.layout, Expr.layoutReversed_numberAll hp hf args h.2 h'.2]

theorem Expr.layoutReversed_numberAll (hp : p.globalNames = p'.globalNames)
    (hf : List.Forall₂ Scope.Alike frames frames') {n n' : Nat} (es : List Expr)
    (h : Expr.ResolvedAll p r size frames (Expr.numberAll n es).1)
    (h' : Expr.ResolvedAll p' r' size' frames' (Expr.numberAll n' es).1) :
    Expr.layoutReversed r (Expr.numberAll n es).1 =
      Expr.layoutReversed r' (Expr.numberAll n' es).1 := by
  cases es with
  | nil => rfl
  | cons e rest =>
    simp only [Expr.numberAll, Expr.ResolvedAll] at h h'
    simp only [Expr.numberAll, Expr.layoutReversed, Expr.layout_number hp hf e h.1 h'.1,
      Expr.layoutReversed_numberAll hp hf rest h.2 h'.2]

end

end

section

variable {p p' : Program} {r r' : Resolutions} {size size' : Nat}

mutual

/-- The code of a statement does not depend on where its numbers start. -/
theorem Stmt.layout_number (hp : p.globalNames = p'.globalNames) {frames frames' : List Scope}
    (hf : List.Forall₂ Scope.Alike frames frames') (loop : LoopLabels) (start : Nat) {n n' : Nat}
    (s : Stmt) (h : (s.number n).1.Resolved p r size frames)
    (h' : (s.number n').1.Resolved p' r' size' frames') :
    (s.number n).1.layout r loop start = (s.number n').1.layout r' loop start := by
  cases s with
  | declare names => rfl
  | assign id name value =>
    simp only [Stmt.number, Stmt.Resolved] at h h'
    simp only [Stmt.number, Stmt.layout, Expr.layout_number hp hf value h.1 h'.1,
      h.2.slotAt_eq h'.2 hp hf]
  | ret value =>
    cases value with
    | none => rfl
    | some value =>
      simp only [Stmt.number, Stmt.Resolved] at h h'
      simp only [Stmt.number, Stmt.layout, Expr.layout_number hp hf value h h']
  | leave id => rfl
  | again id => rfl
  | branch cond thenBody elseBody =>
    simp only [Stmt.number, Stmt.Resolved] at h h'
    obtain ⟨hcond, hthen, helse⟩ := h
    obtain ⟨hcond', hthen', helse'⟩ := h'
    have hblock := Scope.alike_openIn .block .block hf
    simp only [Stmt.number, Stmt.layout, Expr.length_number, Stmt.lengthAll_numberAll,
      Expr.layout_number hp hf cond hcond hcond',
      Stmt.layoutAll_number hp hblock loop _ thenBody hthen hthen',
      Stmt.layoutAll_number hp hblock loop _ elseBody helse helse']
  | loop id cond body =>
    simp only [Stmt.number, Stmt.Resolved] at h h'
    simp only [Stmt.number, Stmt.layout, Expr.length_number, Stmt.lengthAll_numberAll,
      Expr.layout_number hp hf cond h.1 h'.1,
      Stmt.layoutAll_number hp (Scope.alike_openIn _ _ hf) _ _ body h.2 h'.2]
  | eval e =>
    simp only [Stmt.number, Stmt.Resolved] at h h'
    simp only [Stmt.number, Stmt.layout, Expr.layout_number hp hf e h h']

theorem Stmt.layoutAll_number (hp : p.globalNames = p'.globalNames) {frames frames' : List Scope}
    (hf : List.Forall₂ Scope.Alike frames frames') (loop : LoopLabels) (start : Nat) {n n' : Nat}
    (ss : List Stmt) (h : Stmt.ResolvedAll p r size frames (Stmt.numberAll n ss).1)
    (h' : Stmt.ResolvedAll p' r' size' frames' (Stmt.numberAll n' ss).1) :
    Stmt.layoutAll r loop start (Stmt.numberAll n ss).1 =
      Stmt.layoutAll r' loop start (Stmt.numberAll n' ss).1 := by
  cases ss with
  | nil => rfl
  | cons s rest =>
    simp only [Stmt.numberAll, Stmt.ResolvedAll, Stmt.declared_number] at h h'
    simp only [Stmt.numberAll, Stmt.layoutAll, Stmt.length_number,
      Stmt.layout_number hp hf loop start s h.1 h'.1,
      Stmt.layoutAll_number hp (Scope.alike_declareIn s.declared hf) loop _ rest h.2 h'.2]

end

/-- The code of a function does not depend on the numbers, if its frames have the same size. -/
theorem FunctionDecl.layout_numberFrom {f : FunctionDecl} {n n' : Nat}
    (hp : p.globalNames = p'.globalNames) (h : (f.numberFrom n).Resolved p r)
    (h' : (f.numberFrom n').Resolved p' r')
    (hsize : r.frameSize? f.name = r'.frameSize? f.name) :
    (f.numberFrom n).layout r = (f.numberFrom n').layout r' := by
  obtain ⟨size, -, -, hbody⟩ := h
  obtain ⟨size', -, -, hbody'⟩ := h'
  have hf : List.Forall₂ Scope.Alike (f.numberFrom n).frames (f.numberFrom n').frames :=
    Scope.alike_declareIn f.params (.cons ⟨rfl, rfl⟩ .nil)
  have hcode := Stmt.layoutAll_number hp hf ⟨0, 0⟩ 0 f.body hbody hbody'
  simp only [FunctionDecl.layout, FunctionDecl.bodyLayout, FunctionDecl.numberFrom, hsize, hcode]

end

end StackLang

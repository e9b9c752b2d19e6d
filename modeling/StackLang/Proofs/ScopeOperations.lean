import Mathlib.Data.List.Nodup
import StackLang.Proofs.Places

/-!
The scopes under any use. Whatever is declared, opened and closed, in whatever order, the slots of
the open scopes count up from zero without gap or repetition, and so do those of the global
variables. This rests on one fact that no single operation shows: a scope gives no slot away while
another is open inside it, so that the inner one goes on where the outer one stopped.
-/
namespace StackLang

open Scope

namespace Scope

def slots (s : Scope) : List Nat := s.names.filterMap s.lookup?

def add (s : Scope) (name : String) : Scope := { s with names := name :: s.names }

theorem lookup?_add_self (s : Scope) (name : String) : (s.add name).lookup? name = some s.next := by
  simp [add, lookup?, slotIn?, next]

theorem lookup?_add_of_ne (s : Scope) {name other : String} (h : other ≠ name) :
    (s.add name).lookup? other = s.lookup? other := by
  simp [add, lookup?, slotIn?, h.symm]

/-- The slots of a scope count down from its newest name to its base. -/
theorem filterMap_slotIn? {base : Nat} {names : List String} (h : names.Nodup) :
    names.filterMap (slotIn? base · names) = (List.range' base names.length).reverse := by
  induction names with
  | nil => rfl
  | cons newest older ih =>
    rw [List.nodup_cons] at h
    have hnewest : slotIn? base newest (newest :: older) = some (base + older.length) := by
      rw [slotIn?, if_pos rfl]
    have holder : older.filterMap (slotIn? base · (newest :: older)) =
        older.filterMap (slotIn? base · older) := by
      apply List.filterMap_congr
      intro name hname
      rw [slotIn?, if_neg (ne_of_mem_of_not_mem hname h.1).symm]
    rw [List.filterMap_cons, holder, ih h.2, List.length_cons, List.range'_concat,
      List.reverse_append, Nat.one_mul]
    simp only [hnewest]
    rfl

/-- Read from the newest name of the innermost scope on, the slots count down to zero. -/
theorem flatMap_slots_eq {frames : List Scope} (hc : Chained frames)
    (hnodup : ∀ scope ∈ frames, scope.names.Nodup) :
    frames.flatMap slots = (List.range (nextIn frames)).reverse := by
  induction frames with
  | nil => rfl
  | cons scope outer ih =>
    rw [List.forall_mem_cons] at hnodup
    have hbase : scope.base = nextIn outer := hc.1
    have hrange := @List.range'_append_1 0 scope.base scope.names.length
    rw [Nat.zero_add, ← List.range_eq_range', ← List.range_eq_range'] at hrange
    rw [List.flatMap_cons, ih hc.2 hnodup.2, ← hbase, nextIn, next, ← hrange, List.reverse_append]
    congr 1
    exact filterMap_slotIn? hnodup.1

end Scope

namespace Scopes

/-- All that can be done with the scopes from outside. -/
inductive Operation
  | declare (name : String)
  | lookup (name : String)
  | enterFunction
  | exitFunction
  | push (kind : ScopeKind)
  | pop
  | declareVar (name : String)
  | declareFunction (name : String) (arity : Nat)

/-- The scopes after an operation. A declaration that is refused leaves them as they are. -/
def perform (s : Scopes) : Operation → Scopes
  | .declare name => ((s.declare? name).map (·.2)).getD s
  | .lookup _ => s
  | .enterFunction => s.enterFunction
  | .exitFunction => s.exitFunction
  | .push kind => s.push kind
  | .pop => s.pop
  | .declareVar name => ((s.global.declareVar? name).map fun r => { s with global := r.2 }).getD s
  | .declareFunction name arity =>
    ((s.global.declareFunction? name arity).map fun global => { s with global }).getD s

def performAll (s : Scopes) (ops : List Operation) : Scopes := ops.foldl perform s

@[simp]
theorem performAll_nil (s : Scopes) : s.performAll [] = s := rfl

@[simp]
theorem performAll_cons (s : Scopes) (op : Operation) (ops : List Operation) :
    s.performAll (op :: ops) = (s.perform op).performAll ops := rfl

theorem performAll_append (s : Scopes) (ops more : List Operation) :
    s.performAll (ops ++ more) = (s.performAll ops).performAll more := by
  simp [performAll]

/-- The slots of all open scopes. Those of the global variables are counted apart. -/
def frameSlots (s : Scopes) : List Nat := s.frames.flatMap Scope.slots

def innermost (s : Scopes) : Scope := s.frames.headD s.global.vars

theorem nextSlot_eq (s : Scopes) : s.nextSlot = nextIn s.frames := by
  unfold nextSlot
  cases s.frames <;> rfl

def freshSlot (s : Scopes) : Slot :=
  match s.frames with
  | [] => .global s.global.varCount
  | scope :: _ => .frame scope.next

def add (s : Scopes) (name : String) : Scopes :=
  match s.frames with
  | [] => { s with global := { s.global with vars := s.global.vars.add name } }
  | scope :: outer =>
    { s with frames := scope.add name :: outer, highWater := max s.highWater (scope.next + 1) }

/-- A name is declared just if the innermost scope does not have it yet. -/
theorem declare?_eq (s : Scopes) (name : String) :
    s.declare? name =
      if name ∈ s.innermost.names then none else some (s.freshSlot, s.add name) := by
  obtain ⟨global, frames, water⟩ := s
  cases frames with
  | nil =>
    show ((if name ∈ global.vars.names then none else _ : Option (Nat × Scope)).map _).map _ =
      if name ∈ global.vars.names then none else _
    split <;> rfl
  | cons scope outer =>
    show (if name ∈ scope.names then none else _ : Option (Nat × Scope)).map _ =
      if name ∈ scope.names then none else _
    split <;> rfl

structure Stacked (s : Scopes) : Prop where
  chained : Chained s.frames
  nodup : ∀ scope ∈ s.frames, scope.names.Nodup
  marked : nextIn s.frames ≤ s.highWater
  global_base : s.global.vars.base = 0
  global_nodup : s.global.vars.names.Nodup

namespace Stacked

variable {s : Scopes}

theorem initial : initial.Stacked where
  chained := trivial
  nodup := by simp [Scopes.initial]
  marked := Nat.le_refl _
  global_base := rfl
  global_nodup := List.nodup_nil

/-- One more global variable. -/
theorem addGlobal {name : String} (hs : s.Stacked) (hname : name ∉ s.global.vars.names) :
    Stacked { s with global := { s.global with vars := s.global.vars.add name } } where
  chained := hs.chained
  nodup := hs.nodup
  marked := hs.marked
  global_base := hs.global_base
  global_nodup := List.nodup_cons.2 ⟨hname, hs.global_nodup⟩

theorem add {name : String} (hs : s.Stacked) (hname : name ∉ s.innermost.names) :
    (s.add name).Stacked := by
  obtain ⟨global, frames, water⟩ := s
  cases frames with
  | nil => exact hs.addGlobal hname
  | cons scope outer =>
    have hnodup := List.forall_mem_cons.1 hs.nodup
    refine ⟨hs.chained, ?_, Nat.le_max_right _ _, hs.global_base, hs.global_nodup⟩
    exact List.forall_mem_cons.2 ⟨List.nodup_cons.2 ⟨hname, hnodup.1⟩, hnodup.2⟩

theorem pop (hs : s.Stacked) : s.pop.Stacked := by
  obtain ⟨global, frames, water⟩ := s
  cases frames with
  | nil => exact hs
  | cons scope outer =>
    refine ⟨hs.chained.2, (List.forall_mem_cons.1 hs.nodup).2, ?_, hs.global_base, hs.global_nodup⟩
    have hbase : scope.base = nextIn outer := hs.chained.1
    have hmark : scope.base + scope.names.length ≤ water := hs.marked
    show nextIn outer ≤ water
    omega

/-- One operation. -/
theorem perform (op : Operation) (hs : s.Stacked) : (s.perform op).Stacked := by
  cases op with
  | declare name =>
    rw [Scopes.perform, declare?_eq]
    by_cases hname : name ∈ s.innermost.names
    · rw [if_pos hname]
      exact hs
    · rw [if_neg hname]
      exact hs.add hname
  | lookup name => exact hs
  | enterFunction =>
    refine ⟨⟨rfl, trivial⟩, ?_, Nat.le_refl _, hs.global_base, hs.global_nodup⟩
    simp [Scopes.perform, Scopes.enterFunction, Scope.empty]
  | exitFunction =>
    exact ⟨trivial, List.forall_mem_nil _, Nat.zero_le _, hs.global_base, hs.global_nodup⟩
  | push kind =>
    refine ⟨⟨s.nextSlot_eq, hs.chained⟩, ?_, ?_, hs.global_base, hs.global_nodup⟩
    · exact List.forall_mem_cons.2 ⟨List.nodup_nil, hs.nodup⟩
    · have hmark : s.nextSlot ≤ s.highWater := s.nextSlot_eq ▸ hs.marked
      exact hmark
  | pop => exact hs.pop
  | declareVar name =>
    rw [Scopes.perform, GlobalScope.declareVar?, Scope.declare?]
    by_cases hname : name ∈ s.global.vars.names
    · rw [if_pos hname]
      exact hs
    · rw [if_neg hname]
      exact hs.addGlobal hname
  | declareFunction name arity =>
    rw [Scopes.perform, GlobalScope.declareFunction?]
    split
    · exact hs
    · exact ⟨hs.chained, hs.nodup, hs.marked, hs.global_base, hs.global_nodup⟩

/-- Any number of operations. -/
theorem performAll (ops : List Operation) (hs : s.Stacked) : (s.performAll ops).Stacked := by
  induction ops generalizing s with
  | nil => exact hs
  | cons op rest ih => exact ih (hs.perform op)

/-- The slots of the open scopes of a function are those below the next one, each once, the newest
first. -/
theorem frameSlots_eq (hs : s.Stacked) : s.frameSlots = (List.range s.nextSlot).reverse := by
  rw [nextSlot_eq]
  exact flatMap_slots_eq hs.chained hs.nodup

theorem globalSlots_eq (hs : s.Stacked) :
    s.global.vars.slots = (List.range s.global.varCount).reverse := by
  have hchained : Chained [s.global.vars] := ⟨hs.global_base, trivial⟩
  have hnodup : ∀ scope ∈ [s.global.vars], scope.names.Nodup :=
    List.forall_mem_singleton.2 hs.global_nodup
  have hslots := flatMap_slots_eq hchained hnodup
  rwa [List.flatMap_singleton] at hslots

end Stacked

/-! What a name means. -/

/-- A name means a frame slot just if some scope has it there and no inner scope has the name. -/
theorem lookup?_eq_frame_iff (s : Scopes) (name : String) (k : Nat) :
    s.lookup? name = some (.frame k) ↔
      ∃ inner scope outer, s.frames = inner ++ scope :: outer ∧ scope.lookup? name = some k ∧
        ∀ t ∈ inner, name ∉ t.names := by
  have hinner : ∀ inner : List Scope,
      (∀ t ∈ inner, t.lookup? name = none) ↔ ∀ t ∈ inner, name ∉ t.names := by
    simp only [Scope.lookup?, slotIn?_eq_none_iff, implies_true]
  simp only [← hinner, ← List.findSome?_eq_some_iff]
  unfold lookup?
  cases s.frames.findSome? (·.lookup? name) <;> simp

/-- A name means a global slot just if no scope has it and it is a global variable there. -/
theorem lookup?_eq_global_iff (s : Scopes) (name : String) (k : Nat) :
    s.lookup? name = some (.global k) ↔
      (∀ t ∈ s.frames, name ∉ t.names) ∧ s.global.vars.lookup? name = some k := by
  have hnone : s.frames.findSome? (·.lookup? name) = none ↔ ∀ t ∈ s.frames, name ∉ t.names := by
    simp only [List.findSome?_eq_none_iff, Scope.lookup?, slotIn?_eq_none_iff]
  rw [← hnone]
  unfold lookup?
  cases s.frames.findSome? (·.lookup? name) <;> simp

theorem lookup?_add_self (s : Scopes) (name : String) :
    (s.add name).lookup? name = some s.freshSlot := by
  obtain ⟨global, frames, water⟩ := s
  cases frames with
  | nil => simp [add, lookup?, freshSlot, Scope.lookup?_add_self, GlobalScope.varCount]
  | cons scope outer => simp [add, lookup?, freshSlot, Scope.lookup?_add_self]

theorem lookup?_add_of_ne (s : Scopes) {name other : String} (h : other ≠ name) :
    (s.add name).lookup? other = s.lookup? other := by
  obtain ⟨global, frames, water⟩ := s
  cases frames with
  | nil => simp [add, lookup?, Scope.lookup?_add_of_ne _ h]
  | cons scope outer => simp [add, lookup?, List.findSome?_cons, Scope.lookup?_add_of_ne _ h]

/-! What a scope leaves behind when it is closed. -/

/-- Names are declared and looked up, and every scope that is opened is closed again. -/
inductive Nested : List Operation → Prop
  | nil : Nested []
  | declare (name : String) {rest : List Operation} :
    Nested rest → Nested (.declare name :: rest)
  | lookup (name : String) {rest : List Operation} :
    Nested rest → Nested (.lookup name :: rest)
  | scope (kind : ScopeKind) {inside rest : List Operation} :
    Nested inside → Nested rest → Nested (.push kind :: (inside ++ .pop :: rest))

/-- Only the innermost scope is touched. -/
theorem Nested.outer_eq {ops : List Operation} (h : Nested ops) {s : Scopes} {scope : Scope}
    {outer : List Scope} (hs : s.frames = scope :: outer) :
    (s.performAll ops).frames.tail = outer ∧ (s.performAll ops).frames ≠ [] ∧
      (s.performAll ops).global = s.global := by
  induction h generalizing s scope outer with
  | nil => simp [hs]
  | declare name _ ih =>
    obtain ⟨global, frames, water⟩ := s
    cases hs
    rw [performAll_cons, perform, declare?_eq]
    split
    · exact ih rfl
    · exact ih rfl
  | lookup name _ ih => exact ih hs
  | @scope kind inside rest _ _ ihInside ihRest =>
    have hpushed : (s.perform (.push kind)).frames = .empty kind s.nextSlot :: scope :: outer := by
      rw [perform, push, hs]
    obtain ⟨htail, -, hglobal⟩ := ihInside hpushed
    have hpopped : (((s.perform (.push kind)).performAll inside).perform .pop).frames =
        scope :: outer := htail
    obtain ⟨htail', hne, hglobal'⟩ := ihRest hpopped
    rw [performAll_cons, performAll_append, performAll_cons]
    exact ⟨htail', hne, hglobal'.trans hglobal⟩

/-- The scopes are as they were before the push, but for the mark. -/
theorem Nested.closed_eq {inside : List Operation} (h : Nested inside) (s : Scopes)
    (kind : ScopeKind) :
    (s.performAll (.push kind :: (inside ++ [.pop]))).frames = s.frames ∧
      (s.performAll (.push kind :: (inside ++ [.pop]))).global = s.global := by
  obtain ⟨htail, -, hglobal⟩ := h.outer_eq (s := s.perform (.push kind)) rfl
  rw [performAll_cons, performAll_append, performAll_cons, performAll_nil]
  exact ⟨htail, hglobal⟩

theorem lookup?_congr {s s' : Scopes} (hframes : s'.frames = s.frames)
    (hglobal : s'.global = s.global) (name : String) : s'.lookup? name = s.lookup? name := by
  rw [lookup?, lookup?, hframes, hglobal]

/-- Which slot a declared name gets depends on the open scopes only, not on the high-water mark. -/
theorem map_declare?_congr {s s' : Scopes} (hframes : s'.frames = s.frames)
    (hglobal : s'.global = s.global) (name : String) :
    (s'.declare? name).map (·.1) = (s.declare? name).map (·.1) := by
  rw [declare?_eq, declare?_eq, innermost, innermost, freshSlot, freshSlot, hframes, hglobal]
  split <;> rfl

/-- After any use, the slots of the open scopes and those of the global variables each count up from
zero, and no two names that can be seen together share one. A name means what the innermost scope
that has it says. A scope that was opened and closed again has left no trace in what names mean or
in the slots that come next. -/
theorem slots_of_any_use (ops : List Operation) :
    let s := initial.performAll ops
    (s.frameSlots.Nodup ∧ (∀ k, k ∈ s.frameSlots ↔ k < s.nextSlot) ∧
      ∀ k ∈ s.frameSlots, k < s.highWater) ∧
    (s.global.vars.slots.Nodup ∧ ∀ k, k ∈ s.global.vars.slots ↔ k < s.global.varCount) ∧
    (∀ name k, s.lookup? name = some (.frame k) ↔
      ∃ inner scope outer, s.frames = inner ++ scope :: outer ∧ scope.lookup? name = some k ∧
        ∀ t ∈ inner, name ∉ t.names) ∧
    (∀ name k, s.lookup? name = some (.global k) ↔
      (∀ t ∈ s.frames, name ∉ t.names) ∧ s.global.vars.lookup? name = some k) ∧
    (∀ name, s.declare? name = none ↔ name ∈ s.innermost.names) ∧
    (∀ name slot s', s.declare? name = some (slot, s') →
      s'.lookup? name = some slot ∧ ∀ other, other ≠ name → s'.lookup? other = s.lookup? other) ∧
    ∀ kind inside, Nested inside →
      let s' := s.performAll (.push kind :: (inside ++ [.pop]))
      ∀ name, s'.lookup? name = s.lookup? name ∧
        (s'.declare? name).map (·.1) = (s.declare? name).map (·.1) := by
  intro s
  have hs : s.Stacked := Stacked.initial.performAll ops
  have hmark : s.nextSlot ≤ s.highWater := s.nextSlot_eq ▸ hs.marked
  refine ⟨⟨?_, ?_, ?_⟩, ⟨?_, ?_⟩, s.lookup?_eq_frame_iff, s.lookup?_eq_global_iff, ?_, ?_, ?_⟩
  · rw [hs.frameSlots_eq, List.nodup_reverse]
    exact List.nodup_range
  · simp [hs.frameSlots_eq]
  · intro k hk
    rw [hs.frameSlots_eq, List.mem_reverse, List.mem_range] at hk
    omega
  · rw [hs.globalSlots_eq, List.nodup_reverse]
    exact List.nodup_range
  · simp [hs.globalSlots_eq]
  · simp [declare?_eq]
  · intro name slot s' hd
    rw [declare?_eq] at hd
    split at hd
    · cases hd
    · cases hd
      exact ⟨s.lookup?_add_self name, fun other hne => s.lookup?_add_of_ne hne⟩
  · intro kind inside hinside s' name
    obtain ⟨hframes, hglobal⟩ := hinside.closed_eq s kind
    exact ⟨lookup?_congr hframes hglobal name, map_declare?_congr hframes hglobal name⟩

/-- A scope is opened outside of any function, and more scopes are closed than were opened. -/
def strayScopes : List Operation :=
  [.declare "x", .push .block, .declare "x", .pop, .pop, .declareFunction "f" 2, .declare "y",
   .enterFunction, .declare "p", .push (.loop 7), .declare "x"]

def hidingNames : List Operation :=
  [.declare "y", .push .block, .declare "x", .declare "x", .lookup "p", .pop, .declare "z"]

/-- Inside the scope, both names mean other variables. -/
theorem slots_of_any_use_strayScopes :
    let s := initial.performAll strayScopes
    let s' := s.performAll (.push .block :: (hidingNames ++ [.pop]))
    Nested hidingNames ∧ s.frameSlots = [1, 0] ∧ s.highWater = 2 ∧ s'.highWater = 4 ∧
      s'.lookup? "x" = some (.frame 1) ∧ s'.lookup? "y" = some (.global 1) ∧
      (s'.declare? "y").map (·.1) = some (.frame 2) := by
  intro s s'
  have hnested : Nested hidingNames :=
    .declare _ (.scope _ (.declare _ (.declare _ (.lookup _ .nil))) (.declare _ .nil))
  obtain ⟨-, -, -, -, -, -, hclosed⟩ := slots_of_any_use strayScopes
  have hsame := hclosed .block hidingNames hnested
  refine ⟨hnested, by decide, by decide, by decide, ?_, ?_, ?_⟩
  · exact (hsame "x").1.trans (by decide)
  · exact (hsame "y").1.trans (by decide)
  · exact (hsame "y").2.trans (by decide)

end Scopes

end StackLang

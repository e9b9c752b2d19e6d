import StackLang.Resolution
import StackLang.Proofs.Numbering

/-!
What it means that the names of a program are resolved. A walk over the tree notes the meaning of
each name under the number of its node; here the same meaning is stated of the finished notes, part
by part, with the scopes that are open there. Later proofs use these statements and no longer the
walk. The notes of one part survive the rest of the walk since its numbers are its own.
-/
namespace StackLang

@[simp]
theorem ok_bind {ε α β : Type} (a : α) (f : α → Except ε β) :
    ((.ok a : Except ε α) >>= f) = f a := rfl

@[simp]
theorem pure_eq_ok {ε α : Type} (a : α) : (pure a : Except ε α) = .ok a := rfl

theorem bind_eq_ok_iff {ε α β : Type} {x : Except ε α} {f : α → Except ε β} {b : β} :
    (x >>= f) = .ok b ↔ ∃ a, x = .ok a ∧ f a = .ok b := by
  cases x with
  | error e => simp [bind, Except.bind]
  | ok a => simp [bind, Except.bind]

/-- Among things with different names, each is found by its own name. -/
theorem find?_of_nodup {α : Type} {name : α → String} {l : List α} (hnodup : (l.map name).Nodup)
    {a : α} (ha : a ∈ l) : l.find? (name · = name a) = some a := by
  induction l with
  | nil => cases ha
  | cons b rest ih =>
    rw [List.map_cons, List.nodup_cons] at hnodup
    rcases List.mem_cons.1 ha with rfl | hrest
    · simp
    · have hne : name b ≠ name a := by
        intro hname
        exact hnodup.1 (hname ▸ List.mem_map_of_mem hrest)
      rw [List.find?_cons_of_neg (by simpa using hne)]
      exact ih hnodup.2 hrest

namespace Scope

def nextIn : List Scope → Nat
  | [] => 0
  | scope :: _ => scope.next

def openIn (kind : ScopeKind) (frames : List Scope) : List Scope :=
  .empty kind (nextIn frames) :: frames

def declareIn (names : List String) : List Scope → List Scope
  | [] => []
  | scope :: outer => { scope with names := names.reverse ++ scope.names } :: outer

/-- Each scope starts where the one around it stands. -/
def Chained : List Scope → Prop
  | [] => True
  | scope :: outer => scope.base = nextIn outer ∧ Chained outer

@[simp]
theorem declareIn_nil (frames : List Scope) : declareIn [] frames = frames := by
  cases frames <;> rfl

theorem declareIn_declareIn (names more : List String) (frames : List Scope) :
    declareIn more (declareIn names frames) = declareIn (names ++ more) frames := by
  cases frames <;> simp [declareIn]

theorem nextIn_declareIn (names : List String) (scope : Scope) (outer : List Scope) :
    nextIn (declareIn names (scope :: outer)) = nextIn (scope :: outer) + names.length := by
  simp only [declareIn, nextIn, next, List.length_append, List.length_reverse]
  omega

theorem chained_declareIn {names : List String} {frames : List Scope} (h : Chained frames) :
    Chained (declareIn names frames) := by
  cases frames with
  | nil => exact h
  | cons scope outer => exact h

theorem chained_openIn {frames : List Scope} (kind : ScopeKind) (h : Chained frames) :
    Chained (openIn kind frames) := ⟨rfl, h⟩

theorem slotIn?_lt {base i : Nat} {name : String} {names : List String}
    (h : slotIn? base name names = some i) : base ≤ i ∧ i < base + names.length := by
  induction names with
  | nil => simp [slotIn?] at h
  | cons newest older ih =>
    simp only [slotIn?] at h
    simp only [List.length_cons]
    split at h
    · cases h
      omega
    · have := ih h
      omega

/-- The slots of all open scopes lie below the next free one. -/
theorem findSome?_lookup?_lt {frames : List Scope} {name : String} {i : Nat} (hc : Chained frames)
    (h : frames.findSome? (·.lookup? name) = some i) : i < nextIn frames := by
  induction frames with
  | nil => simp at h
  | cons scope outer ih =>
    rw [List.findSome?_cons] at h
    have hbase : scope.base = nextIn outer := hc.1
    cases hscope : scope.lookup? name with
    | some j =>
      rw [hscope] at h
      cases h
      exact (slotIn?_lt hscope).2
    | none =>
      rw [hscope] at h
      have hi := ih hc.2 h
      simp only [nextIn, next]
      omega

end Scope

open Scope

def Slot.Fits (frameSize globalCount : Nat) : Slot → Prop
  | .frame i => i < frameSize
  | .global i => i < globalCount

namespace Program

def find? (p : Program) (name : String) : Option FunctionDecl :=
  p.functions.find? (·.name = name)

def arity? (p : Program) (name : String) : Option Nat :=
  match Native.ofName? name with
  | some native => some native.arity
  | none => (p.find? name).map (·.params.length)

/-- The global scope once all variables and functions are declared. -/
def globalScope (p : Program) : GlobalScope where
  vars := ⟨.global, 0, p.globalNames.reverse⟩
  functions := (p.functions.map fun f => (f.name, ⟨f.params.length, none⟩)).reverse ++
    GlobalScope.withNatives.functions

def scopes (p : Program) (frames : List Scope) : Scopes := ⟨p.globalScope, frames, 0⟩

/-- The name means a variable here, and its slot is noted under the number. -/
def Denotes (p : Program) (r : Resolutions) (size : Nat) (frames : List Scope) (id : Nat)
    (name : String) : Prop :=
  ∃ slot, (p.scopes frames).lookup? name = some slot ∧ r.slot? id = some slot ∧
    slot.Fits size r.globalCount

/-- There is a loop around this place, and it is noted under the number. -/
def JumpsTo (p : Program) (r : Resolutions) (frames : List Scope) (id : Nat) : Prop :=
  ∃ target, (p.scopes frames).nearestLoop? = some target ∧ r.loopOf? id = some target

end Program

section

variable (p : Program) (r : Resolutions) (size : Nat)

mutual

def Expr.Resolved (frames : List Scope) : Expr → Prop
  | .literal _ => True
  | .var id name => p.Denotes r size frames id name
  | .unary _ operand => operand.Resolved frames
  | .binary _ left right => left.Resolved frames ∧ right.Resolved frames
  | .call function args => p.arity? function = some args.length ∧ Expr.ResolvedAll frames args

def Expr.ResolvedAll (frames : List Scope) : List Expr → Prop
  | [] => True
  | e :: rest => e.Resolved frames ∧ Expr.ResolvedAll frames rest

end

def Stmt.declared : Stmt → List String
  | .declare names => names
  | _ => []

mutual

def Stmt.Resolved (frames : List Scope) : Stmt → Prop
  | .declare _ => True
  | .assign id name value => value.Resolved p r size frames ∧ p.Denotes r size frames id name
  | .ret none => True
  | .ret (some value) => value.Resolved p r size frames
  | .leave id => p.JumpsTo r frames id
  | .again id => p.JumpsTo r frames id
  | .branch cond thenBody elseBody =>
    cond.Resolved p r size frames ∧ Stmt.ResolvedAll (openIn .block frames) thenBody ∧
      Stmt.ResolvedAll (openIn .block frames) elseBody
  | .loop id cond body =>
    cond.Resolved p r size frames ∧ Stmt.ResolvedAll (openIn (.loop id) frames) body
  | .eval e => e.Resolved p r size frames

def Stmt.ResolvedAll (frames : List Scope) : List Stmt → Prop
  | [] => True
  | s :: rest => s.Resolved frames ∧ Stmt.ResolvedAll (declareIn s.declared frames) rest

end

end

def FunctionDecl.frames (f : FunctionDecl) : List Scope :=
  declareIn f.params [.empty .function 0]

def FunctionDecl.Resolved (p : Program) (r : Resolutions) (f : FunctionDecl) : Prop :=
  ∃ size, r.frameSize? f.name = some size ∧ f.params.length ≤ size ∧
    Stmt.ResolvedAll p r size f.frames f.body

structure Program.Resolved (p : Program) (r : Resolutions) : Prop where
  globals_nodup : p.globalNames.Nodup
  functions_nodup : (p.functions.map (·.name)).Nodup
  globalCount : r.globalCount = p.globalNames.length
  function : ∀ f ∈ p.functions, f.Resolved p r

end StackLang

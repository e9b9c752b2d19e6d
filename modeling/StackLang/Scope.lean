import StackLang.Native

/-!
Nested scopes of names. The names of a scope take consecutive slots from its base on, and a scope
opened inside another starts where that one stands, so a name never shares a slot with one that is
still visible. Scopes that follow each other may use the same slots again.
-/
namespace StackLang

/-- Where a variable lives: among the globals, or in the frame of the running function. -/
inductive Slot
  | global (index : Nat)
  | frame (index : Nat)
  deriving DecidableEq

inductive ScopeKind
  | global
  | function
  | block
  | loop (id : Nat)
  deriving DecidableEq

/-- The names of a scope, the newest first, and the slot of the oldest. -/
structure Scope where
  kind : ScopeKind
  base : Nat
  names : List String

namespace Scope

def empty (kind : ScopeKind) (base : Nat) : Scope := ⟨kind, base, []⟩

def next (s : Scope) : Nat := s.base + s.names.length

/-- The slot of a name among names that start at the given slot. -/
def slotIn? (base : Nat) (name : String) : List String → Option Nat
  | [] => none
  | newest :: older =>
    if newest = name then some (base + older.length) else slotIn? base name older

def lookup? (s : Scope) (name : String) : Option Nat := slotIn? s.base name s.names

def declare? (s : Scope) (name : String) : Option (Nat × Scope) :=
  if name ∈ s.names then none else some (s.next, { s with names := name :: s.names })

end Scope

/-- What a call of a function needs: the number of arguments, and which native it is, if any. -/
structure Signature where
  arity : Nat
  native : Option Native

structure GlobalScope where
  vars : Scope
  functions : List (String × Signature)

namespace GlobalScope

def withNatives : GlobalScope where
  vars := .empty .global 0
  functions := Native.all.map fun n => (n.name, ⟨n.arity, some n⟩)

def function? (g : GlobalScope) (name : String) : Option Signature := g.functions.lookup name

def varCount (g : GlobalScope) : Nat := g.vars.next

def declareVar? (g : GlobalScope) (name : String) : Option (Nat × GlobalScope) :=
  (g.vars.declare? name).map fun (slot, vars) => (slot, { g with vars })

def declareFunction? (g : GlobalScope) (name : String) (arity : Nat) : Option GlobalScope :=
  if (g.function? name).isSome then none
  else some { g with functions := (name, ⟨arity, none⟩) :: g.functions }

end GlobalScope

/-- The global scope and the open scopes of one function, the innermost first. The high-water mark
is the number of slots that the function has needed so far. -/
structure Scopes where
  global : GlobalScope
  frames : List Scope
  highWater : Nat

namespace Scopes

def initial : Scopes := ⟨.withNatives, [], 0⟩

def enterFunction (s : Scopes) : Scopes :=
  { s with frames := [.empty .function 0], highWater := 0 }

/-- Closes all scopes of the function. Its frame needs as many slots as the mark says. -/
def exitFunction (s : Scopes) : Scopes := { s with frames := [] }

def nextSlot (s : Scopes) : Nat :=
  match s.frames with
  | [] => 0
  | scope :: _ => scope.next

def push (s : Scopes) (kind : ScopeKind) : Scopes :=
  { s with frames := .empty kind s.nextSlot :: s.frames }

def pop (s : Scopes) : Scopes := { s with frames := s.frames.tail }

/-- Declares a name in the innermost scope, or as a global outside any function. -/
def declare? (s : Scopes) (name : String) : Option (Slot × Scopes) :=
  match s.frames with
  | [] => (s.global.declareVar? name).map fun (i, global) => (.global i, { s with global })
  | scope :: outer =>
    (scope.declare? name).map fun (i, scope) =>
      (.frame i, { s with frames := scope :: outer, highWater := max s.highWater (i + 1) })

/-- The variable of that name in the innermost scope that has one, the globals last. -/
def lookup? (s : Scopes) (name : String) : Option Slot :=
  match s.frames.findSome? (·.lookup? name) with
  | some i => some (.frame i)
  | none => (s.global.vars.lookup? name).map .global

def nearestLoop? (s : Scopes) : Option Nat :=
  s.frames.findSome? fun scope =>
    match scope.kind with
    | .loop id => some id
    | _ => none

end Scopes

end StackLang

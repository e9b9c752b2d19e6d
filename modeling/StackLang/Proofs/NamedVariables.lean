import StackLang.Proofs.Evaluation

/-!
Variables held by name, scope by scope, and how they agree with variables in slots. A declaration
adds a variable that has no value yet; a name means the newest such variable of the innermost scope
that has one. All open scopes use different slots, so setting one variable in its slot leaves the
others as they are; and a variable without a value says nothing about its slot, which may hold what
an earlier scope has left there.
-/
namespace StackLang

open Scope

/-- The variables of a scope, the newest first. One that was declared and not assigned yet has no
value. -/
abbrev Vars := List (String × Option Value)

namespace Vars

def set? (name : String) (v : Value) : Vars → Option Vars
  | [] => none
  | (first, old) :: older =>
    if first = name then some ((first, some v) :: older)
    else (set? name v older).map ((first, old) :: ·)

def setIn? (name : String) (v : Value) : List Vars → Option (List Vars)
  | [] => none
  | vars :: outer =>
    match set? name v vars with
    | some vars => some (vars :: outer)
    | none => (setIn? name v outer).map (vars :: ·)

def declare (names : List String) : List Vars → List Vars
  | [] => []
  | vars :: outer => ((names.map fun name => (name, none)).reverse ++ vars) :: outer

end Vars

/-- Variables by name. Parameters have values from the start, and so have global variables, which
are meant by a name that no scope has. -/
def nameStore : Store (List Vars) (List (String × Value)) where
  enter f args := [(f.params.zip (args.map some)).reverse]
  read _ name scopes globals :=
    match scopes.findSome? (·.lookup name) with
    | some value => value
    | none => globals.lookup name
  write _ name v scopes globals :=
    match Vars.setIn? name v scopes with
    | some scopes => some (scopes, globals)
    | none =>
      if name ∈ globals.map (·.1) then
        some (scopes, globals.map fun g => if g.1 = name then (g.1, v) else g)
      else none
  declare := Vars.declare
  openScope scopes := [] :: scopes
  closeScope scopes := scopes.tail

/-- The variables of a scope that starts at slot `base` have their values there. -/
def VarsHold (locals : Array Value) (base : Nat) : Vars → Prop
  | [] => True
  | (_, value) :: older =>
    (∀ v, value = some v → locals[base + older.length]? = some v) ∧ VarsHold locals base older

/-- Scopes have the same names on both sides, and the values stand in their slots. -/
def ScopesHold (locals : Array Value) : List Scope → List Vars → Prop
  | [], [] => True
  | scope :: outer, vars :: rest =>
    vars.map (·.1) = scope.names ∧ VarsHold locals scope.base vars ∧ ScopesHold locals outer rest
  | _, _ => False

namespace VarsHold

variable {locals : Array Value} {base : Nat} {vars : Vars}

theorem lookup {name : String} {i : Nat} (hv : VarsHold locals base vars)
    (hi : slotIn? base name (vars.map (·.1)) = some i) :
    ∃ value, vars.lookup name = some value ∧ ∀ v, value = some v → locals[i]? = some v := by
  induction vars with
  | nil => simp [slotIn?] at hi
  | cons first older ih =>
    obtain ⟨newest, value⟩ := first
    simp only [List.map_cons, slotIn?, List.length_map] at hi
    by_cases hname : newest = name
    · rw [if_pos hname] at hi
      cases hi
      refine ⟨value, ?_, hv.1⟩
      simp [hname]
    · rw [if_neg hname] at hi
      obtain ⟨value', hlookup, hvalue⟩ := ih hv.2 hi
      refine ⟨value', ?_, hvalue⟩
      have hne : (name == newest) = false := by simpa using Ne.symm hname
      simp [List.lookup_cons, hne, hlookup]

/-- A slot outside the scope can be set. -/
theorem set_outside {i : Nat} (v : Value) (hv : VarsHold locals base vars)
    (hi : i < base ∨ base + vars.length ≤ i) : VarsHold (locals.setIfInBounds i v) base vars := by
  induction vars with
  | nil => trivial
  | cons first older ih =>
    obtain ⟨newest, value⟩ := first
    rw [List.length_cons] at hi
    refine ⟨?_, ih hv.2 (by omega)⟩
    intro v' hvalue
    have hne : i ≠ base + older.length := by omega
    rw [Array.getElem?_setIfInBounds_ne hne]
    exact hv.1 v' hvalue

/-- Setting a variable of the scope sets its slot. -/
theorem set_inside {name : String} {i : Nat} (v : Value) (hv : VarsHold locals base vars)
    (hi : slotIn? base name (vars.map (·.1)) = some i) (hlt : i < locals.size) :
    ∃ vars', Vars.set? name v vars = some vars' ∧ vars'.map (·.1) = vars.map (·.1) ∧
      VarsHold (locals.setIfInBounds i v) base vars' := by
  induction vars with
  | nil => simp [slotIn?] at hi
  | cons first older ih =>
    obtain ⟨newest, value⟩ := first
    simp only [List.map_cons, slotIn?, List.length_map] at hi
    by_cases hname : newest = name
    · rw [if_pos hname] at hi
      cases hi
      refine ⟨(newest, some v) :: older, by rw [Vars.set?, if_pos hname], rfl, ?_, ?_⟩
      · intro v' hvalue
        cases hvalue
        exact Array.getElem?_setIfInBounds_self_of_lt hlt
      · exact set_outside v hv.2 (Or.inr (Nat.le_refl _))
    · rw [if_neg hname] at hi
      obtain ⟨vars', hset, hnames, hvars'⟩ := ih hv.2 hi
      refine ⟨(newest, value) :: vars', by simp [Vars.set?, hname, hset], by simp [hnames], ?_,
        hvars'⟩
      -- The slot that was set belongs to an older variable.
      have hbound := slotIn?_lt hi
      rw [List.length_map] at hbound
      have hlength : vars'.length = older.length := by
        have hmap := congrArg List.length hnames
        simpa using hmap
      intro v' hvalue
      have hne : i ≠ base + older.length := by omega
      rw [hlength, Array.getElem?_setIfInBounds_ne hne]
      exact hv.1 v' hvalue

end VarsHold

theorem Vars.lookup_eq_none {base : Nat} {name : String} {vars : Vars}
    (hi : slotIn? base name (vars.map (·.1)) = none) :
    vars.lookup name = none ∧ ∀ v, Vars.set? name v vars = none := by
  induction vars with
  | nil => exact ⟨rfl, fun _ => rfl⟩
  | cons first older ih =>
    obtain ⟨newest, value⟩ := first
    simp only [List.map_cons, slotIn?] at hi
    by_cases hname : newest = name
    · simp [hname] at hi
    · rw [if_neg hname] at hi
      obtain ⟨hlookup, hset⟩ := ih hi
      have hne : (name == newest) = false := by simpa using Ne.symm hname
      exact ⟨by simp [List.lookup_cons, hne, hlookup], fun v => by simp [Vars.set?, hname, hset v]⟩

namespace ScopesHold

variable {locals : Array Value} {frames : List Scope} {scopes : List Vars}

/-- A name that means a slot of the frame means the variable there. -/
theorem lookup {name : String} {i : Nat} (hs : ScopesHold locals frames scopes)
    (hi : frames.findSome? (·.lookup? name) = some i) :
    ∃ value, scopes.findSome? (·.lookup name) = some value ∧
      ∀ v, value = some v → locals[i]? = some v := by
  induction frames generalizing scopes with
  | nil => simp at hi
  | cons scope outer ih =>
    cases scopes with
    | nil => exact hs.elim
    | cons vars rest =>
      obtain ⟨hnames, hvars, hrest⟩ := hs
      rw [List.findSome?_cons] at hi ⊢
      cases hscope : scope.lookup? name with
      | some j =>
        rw [hscope] at hi
        cases hi
        rw [Scope.lookup?, ← hnames] at hscope
        obtain ⟨value, hlookup, hvalue⟩ := hvars.lookup hscope
        rw [hlookup]
        exact ⟨value, rfl, hvalue⟩
      | none =>
        rw [hscope] at hi
        rw [Scope.lookup?, ← hnames] at hscope
        rw [(Vars.lookup_eq_none hscope).1]
        exact ih hrest hi

theorem lookup_eq_none {name : String} (hs : ScopesHold locals frames scopes)
    (hi : frames.findSome? (·.lookup? name) = none) :
    scopes.findSome? (·.lookup name) = none ∧ ∀ v, Vars.setIn? name v scopes = none := by
  induction frames generalizing scopes with
  | nil =>
    cases scopes with
    | nil => exact ⟨rfl, fun _ => rfl⟩
    | cons vars rest => exact hs.elim
  | cons scope outer ih =>
    cases scopes with
    | nil => exact hs.elim
    | cons vars rest =>
      obtain ⟨hnames, -, hrest⟩ := hs
      rw [List.findSome?_cons] at hi ⊢
      cases hscope : scope.lookup? name with
      | some j =>
        rw [hscope] at hi
        cases hi
      | none =>
        rw [hscope] at hi
        rw [Scope.lookup?, ← hnames] at hscope
        obtain ⟨hlookup, hset⟩ := Vars.lookup_eq_none hscope
        obtain ⟨hlookup', hset'⟩ := ih hrest hi
        rw [hlookup]
        exact ⟨hlookup', fun v => by simp [Vars.setIn?, hset v, hset' v]⟩

/-- A slot above all open scopes can be set. -/
theorem set_above {i : Nat} (v : Value) (hs : ScopesHold locals frames scopes)
    (hc : Chained frames) (hi : nextIn frames ≤ i) :
    ScopesHold (locals.setIfInBounds i v) frames scopes := by
  induction frames generalizing scopes with
  | nil =>
    cases scopes with
    | nil => trivial
    | cons vars rest => exact hs.elim
  | cons scope outer ih =>
    cases scopes with
    | nil => exact hs.elim
    | cons vars rest =>
      obtain ⟨hnames, hvars, hrest⟩ := hs
      have hlength : vars.length = scope.names.length := by simp [← hnames]
      have hbase : scope.base = nextIn outer := hc.1
      simp only [nextIn, next] at hi
      exact ⟨hnames, hvars.set_outside v (Or.inr (by omega)), ih hrest hc.2 (by omega)⟩

/-- Setting the variable that a name means sets its slot, and no other variable. -/
theorem set {name : String} {i : Nat} (v : Value) (hs : ScopesHold locals frames scopes)
    (hc : Chained frames) (hi : frames.findSome? (·.lookup? name) = some i)
    (hlt : i < locals.size) :
    ∃ scopes', Vars.setIn? name v scopes = some scopes' ∧
      ScopesHold (locals.setIfInBounds i v) frames scopes' := by
  induction frames generalizing scopes with
  | nil => simp at hi
  | cons scope outer ih =>
    cases scopes with
    | nil => exact hs.elim
    | cons vars rest =>
      obtain ⟨hnames, hvars, hrest⟩ := hs
      have hbase : scope.base = nextIn outer := hc.1
      rw [List.findSome?_cons] at hi
      cases hscope : scope.lookup? name with
      | some j =>
        rw [hscope] at hi
        cases hi
        have hbound := slotIn?_lt hscope
        rw [Scope.lookup?, ← hnames] at hscope
        obtain ⟨vars', hset, hnames', hvars'⟩ := hvars.set_inside v hscope hlt
        refine ⟨vars' :: rest, by simp [Vars.setIn?, hset], hnames'.trans hnames, hvars', ?_⟩
        exact hrest.set_above v hc.2 (by omega)
      | none =>
        rw [hscope] at hi
        rw [Scope.lookup?, ← hnames] at hscope
        obtain ⟨rest', hset, hrest'⟩ := ih hrest hc.2 hi
        have hbound := findSome?_lookup?_lt hc.2 hi
        refine ⟨vars :: rest', ?_, hnames, hvars.set_outside v (Or.inl (by omega)), hrest'⟩
        simp [Vars.setIn?, (Vars.lookup_eq_none hscope).2 v, hset]

/-- New variables have no value, so nothing is asked of their slots. -/
theorem declare (names : List String) (hs : ScopesHold locals frames scopes) :
    ScopesHold locals (declareIn names frames) (Vars.declare names scopes) := by
  cases frames with
  | nil =>
    cases scopes with
    | nil => trivial
    | cons vars rest => exact hs.elim
  | cons scope outer =>
    cases scopes with
    | nil => exact hs.elim
    | cons vars rest =>
      obtain ⟨hnames, hvars, hrest⟩ := hs
      refine ⟨?_, ?_, hrest⟩
      · have hadded : (names.map fun name => (name, (none : Option Value))).map (·.1) = names := by
          rw [List.map_map]
          exact List.map_id names
        rw [List.map_append, List.map_reverse, hadded, hnames]
      · have hall : ∀ added : Vars, (∀ x ∈ added, x.2 = none) →
            VarsHold locals scope.base (added ++ vars) := by
          intro added hnone
          induction added with
          | nil => exact hvars
          | cons first added ih =>
            refine ⟨?_, ih fun x hx => hnone x (by simp [hx])⟩
            intro v hv
            rw [hnone first (by simp)] at hv
            cases hv
        apply hall
        intro x hx
        simp only [List.mem_reverse, List.mem_map] at hx
        obtain ⟨name, -, rfl⟩ := hx
        rfl

end ScopesHold

/-- The parameters of a call, in its first slots. -/
theorem VarsHold.params {locals : Array Value} (params : List String) (args : List Value)
    (hargs : ∀ (k : Nat) (v : Value), args[k]? = some v → locals[k]? = some v) :
    VarsHold locals 0 (params.zip (args.map some)).reverse := by
  have hall : ∀ l : Vars, (∀ (k : Nat) (name : String) (v : Value),
      l.reverse[k]? = some (name, some v) → locals[k]? = some v) → VarsHold locals 0 l := by
    intro l hl
    induction l with
    | nil => trivial
    | cons first older ih =>
      obtain ⟨name, value⟩ := first
      refine ⟨?_, ih fun k name' v hk => hl k name' v ?_⟩
      · rintro v rfl
        exact hl _ name v (by simp)
      · have hlt := (List.getElem?_eq_some_iff.1 hk).1
        rw [List.reverse_cons, List.getElem?_append_left hlt, hk]
  apply hall
  intro k name v hk
  rw [List.reverse_reverse, List.getElem?_zip_eq_some] at hk
  apply hargs
  simpa using hk.2

structure SharedHold {σ : Type} (p : Program) (named : Shared (List (String × Value)) σ)
    (slots : Shared (Array Value) σ) : Prop where
  names : named.globals.map (·.1) = p.globalNames
  values : (named.globals.map (·.2)).toArray = slots.globals
  world : named.world = slots.world

theorem slotIn?_get {base i : Nat} {name : String} {names : List String}
    (hi : slotIn? base name names = some i) : names.reverse[i - base]? = some name := by
  induction names with
  | nil => simp [slotIn?] at hi
  | cons newest older ih =>
    simp only [slotIn?] at hi
    rw [List.reverse_cons]
    by_cases hname : newest = name
    · rw [if_pos hname] at hi
      cases hi
      simp [hname]
    · rw [if_neg hname] at hi
      have hbound := slotIn?_lt hi
      rw [List.getElem?_append_left (by rw [List.length_reverse]; omega)]
      exact ih hi

section

variable {l : List (String × Value)} {i : Nat} {name : String} {old : Value}

theorem lookup_of_getElem? (hnodup : (l.map (·.1)).Nodup) (hi : l[i]? = some (name, old)) :
    l.lookup name = some old := by
  induction l generalizing i with
  | nil => simp at hi
  | cons first rest ih =>
    obtain ⟨first, value⟩ := first
    rw [List.map_cons, List.nodup_cons] at hnodup
    cases i with
    | zero =>
      simp only [List.getElem?_cons_zero, Option.some.injEq, Prod.mk.injEq] at hi
      simp [hi]
    | succ i =>
      rw [List.getElem?_cons_succ] at hi
      have hmem : name ∈ rest.map (·.1) := List.mem_map_of_mem (List.mem_of_getElem? hi)
      have hne : (name == first) = false := by
        rw [beq_eq_false_iff_ne]
        rintro rfl
        exact hnodup.1 hmem
      simp [List.lookup_cons, hne, ih hnodup.2 hi]

theorem map_eq_set_of_getElem? (v : Value) (hnodup : (l.map (·.1)).Nodup)
    (hi : l[i]? = some (name, old)) :
    (l.map fun g => if g.1 = name then (g.1, v) else g) = l.set i (name, v) := by
  induction l generalizing i with
  | nil => simp at hi
  | cons first rest ih =>
    obtain ⟨first, value⟩ := first
    rw [List.map_cons, List.nodup_cons] at hnodup
    cases i with
    | zero =>
      simp only [List.getElem?_cons_zero, Option.some.injEq, Prod.mk.injEq] at hi
      have hrest : ∀ g ∈ rest, (if g.1 = name then (g.1, v) else g) = g := by
        intro g hg
        rw [if_neg]
        intro hname
        apply hnodup.1
        rw [hi.1, ← hname]
        exact List.mem_map.2 ⟨g, hg, rfl⟩
      rw [List.map_cons, if_pos hi.1, List.set_cons_zero, List.map_congr_left hrest, List.map_id',
        hi.1]
    | succ i =>
      rw [List.getElem?_cons_succ] at hi
      have hmem : name ∈ rest.map (·.1) := List.mem_map_of_mem (List.mem_of_getElem? hi)
      have hne : first ≠ name := by
        rintro rfl
        exact hnodup.1 hmem
      rw [List.map_cons, if_neg hne, List.set_cons_succ, ih hnodup.2 hi]

end

namespace SharedHold

variable {σ : Type} {p : Program} {named : Shared (List (String × Value)) σ}
  {slots : Shared (Array Value) σ} {name : String} {i : Nat}

/-- The name of a global variable means the variable in its slot. -/
theorem get (hs : SharedHold p named slots) (hi : p.globalScope.vars.lookup? name = some i) :
    ∃ v, named.globals[i]? = some (name, v) ∧ slots.globals[i]? = some v := by
  have hname : p.globalNames[i]? = some name := by
    have hget := slotIn?_get hi
    simpa [Program.globalScope] using hget
  rw [← hs.names, List.getElem?_map, Option.map_eq_some_iff] at hname
  obtain ⟨⟨name', v⟩, hget, rfl⟩ := hname
  refine ⟨v, hget, ?_⟩
  rw [← hs.values, List.getElem?_toArray, List.getElem?_map, hget]
  rfl

theorem lookup (hs : SharedHold p named slots) (hnodup : p.globalNames.Nodup)
    (hi : p.globalScope.vars.lookup? name = some i) :
    named.globals.lookup name = slots.globals[i]? := by
  obtain ⟨v, hnamed, hslots⟩ := hs.get hi
  rw [hslots]
  exact lookup_of_getElem? (hs.names ▸ hnodup) hnamed

theorem set (v : Value) (hs : SharedHold p named slots) (hnodup : p.globalNames.Nodup)
    (hi : p.globalScope.vars.lookup? name = some i) :
    name ∈ named.globals.map (·.1) ∧ SharedHold p
      { named with globals := named.globals.map fun g => if g.1 = name then (g.1, v) else g }
      { slots with globals := slots.globals.setIfInBounds i v } := by
  obtain ⟨old, hnamed, -⟩ := hs.get hi
  have hset := map_eq_set_of_getElem? v (hs.names ▸ hnodup) hnamed
  refine ⟨List.mem_map_of_mem (List.mem_of_getElem? hnamed), ?_, ?_, hs.world⟩
  · rw [← hs.names, List.map_map]
    refine List.map_congr_left fun g _ => ?_
    by_cases hg : g.1 = name
    · simp [hg]
    · simp [hg]
  · simp only [hset, ← hs.values, List.map_set, List.setIfInBounds_toArray]

end SharedHold

end StackLang

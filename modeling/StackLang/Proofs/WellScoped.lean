import StackLang.Proofs.ScopingRules

/-!
The programs whose names are accepted, and the notes made for them. A program is accepted just if
it obeys the rules of scoping. The notes give each use of a variable the slot of the declaration
that it means and each jump the innermost loop around it. The frame of a function is as large as
the largest number of local variables that are live at one place of its body.
-/
namespace StackLang

open Scope OpenScope

structure Program.WellScoped (p : Program) : Prop where
  globals : p.globalNames.Nodup
  functions : (p.functions.map (·.name)).Nodup
  natives : ∀ f ∈ p.functions, ∀ native : Native, f.name ≠ native.name
  places : ∀ f ∈ p.functions, ∀ scopes block, f.Place scopes block → p.ObeyedAt scopes block

/-- What the notes say of each place: the one slot that the name of a variable means there, and the
innermost loop around a jump. The frames are large enough for all variables that are live together,
and not larger. -/
structure Program.NotedBy (p : Program) (r : Resolutions) : Prop where
  globalCount : r.globalCount = p.globalNames.length
  frame : ∀ f ∈ p.functions, ∃ size, r.frameSize? f.name = some size ∧
    (∀ scopes block, f.Place scopes block → (live scopes).length ≤ size) ∧
    ∃ scopes block, f.Place scopes block ∧ (live scopes).length = size
  slot : ∀ f ∈ p.functions, ∀ scopes s rest, f.Place scopes (s :: rest) →
    ∀ id name, s.Uses id name →
      ∃ slot, r.slot? id = some slot ∧
        ∀ meant, Means p.globalNames name scopes meant ↔ meant = slot
  loop : ∀ f ∈ p.functions, ∀ scopes s rest, f.Place scopes (s :: rest) →
    ∀ id, s.Jumps id →
      ∃ target, innermostLoop? scopes = some target ∧ r.loopOf? id = some target

/-- The walk that resolves names ends without an error just if the program is well scoped. -/
theorem Program.resolve_ok_iff (p : Program) : (∃ r, p.resolve = .ok r) ↔ p.WellScoped := by
  simp only [Program.resolve_eq_ok_iff, exists_and_left]
  constructor
  · rintro ⟨hglobals, hfunctions, hnatives, hall⟩
    have hp := Program.knows hfunctions hnatives
    exact ⟨hglobals, hfunctions, hnatives, (FunctionDecl.resolveAll_ok_iff hp rfl).1 hall⟩
  · intro h
    have hp := Program.knows h.functions h.natives
    exact ⟨h.globals, h.functions, h.natives, (FunctionDecl.resolveAll_ok_iff hp rfl).2 h.places⟩

/-! The size of a frame is the largest number of variables that are live at one place. -/

def LiveAtMost (m : Nat) (scopes : List OpenScope) (_ : List Stmt) : Prop :=
  (live scopes).length ≤ m

theorem OpenScope.length_live_declare (names : List String) (scope : OpenScope)
    (outer : List OpenScope) :
    (live (scope.declare names :: outer)).length =
      (live (scope :: outer)).length + names.length := by
  simp only [live, names_declare, List.length_append]
  omega

namespace Scopes

@[simp]
theorem highWater_push (s : Scopes) (kind : ScopeKind) :
    (s.push kind).highWater = s.highWater := rfl

@[simp]
theorem highWater_pop (s : Scopes) : s.pop.highWater = s.highWater := rfl

end Scopes

namespace Scopes.At

variable {p : Program} {opened outer : List OpenScope} {scope : OpenScope} {scopes scopes' : Scopes}

theorem live_le_mark (h : scopes.At p opened) : (live opened).length ≤ scopes.highWater := by
  rw [← h.held.nextIn]
  exact h.inside.marked

theorem declare?_mark {name : String} {slot : Slot} (h : scopes.At p opened)
    (hd : scopes.declare? name = some (slot, scopes')) :
    scopes'.highWater = max scopes.highWater ((live opened).length + 1) := by
  have hnext := h.held.nextIn
  obtain ⟨global, frames, water⟩ := scopes
  cases frames with
  | nil => exact absurd rfl h.inside.frames
  | cons frame frames =>
    simp only [Scopes.declare?, Scope.declare?, Option.map_eq_some_iff, Prod.exists,
      Prod.mk.injEq] at hd
    obtain ⟨i, frame', hframe, -, rfl⟩ := hd
    split at hframe
    · cases hframe
    · cases hframe
      rw [← hnext]
      rfl

/-- Declaring names raises the high-water mark to the number of live variables, if it is lower. -/
theorem declareAll_mark {kind : NameKind} {names : List String} (h : scopes.At p (scope :: outer))
    (hd : scopes.declareAll kind names = .ok scopes') :
    scopes'.highWater = max scopes.highWater (live (scope.declare names :: outer)).length := by
  induction names generalizing scopes scope with
  | nil =>
    cases hd
    have hmark := h.live_le_mark
    rw [declare_nil]
    omega
  | cons name rest ih =>
    simp only [Scopes.declareAll] at hd
    cases hname : scopes.declare? name with
    | none => simp [hname] at hd
    | some result =>
      simp only [hname] at hd
      have hfirst := h.declare?_mark hname
      rw [ih (h.declares (h.inside.declare? hname)) hd, hfirst]
      simp only [length_live_declare, List.length_cons, List.length_nil]
      omega

end Scopes.At

/-- A statement without blocks or declarations leaves the scopes alone. -/
theorem Stmt.resolve_scopes_eq {scopes scopes' : Scopes} {r r' : Resolutions} {s : Stmt}
    (hblocks : s.blocks = []) (hdeclared : s.declared = [])
    (h : s.resolve scopes r = .ok (scopes', r')) : scopes' = scopes := by
  cases s with
  | branch cond thenBody elseBody => cases hblocks
  | loop id cond body => cases hblocks
  | declare names =>
    obtain rfl : names = [] := hdeclared
    cases h
    rfl
  | ret value =>
    cases value with
    | none =>
      cases h
      rfl
    | some value =>
      obtain ⟨_, -, hdone⟩ := bind_eq_ok_iff.1 h
      cases hdone
      rfl
  | assign id name value =>
    obtain ⟨_, -, hvar⟩ := bind_eq_ok_iff.1 h
    obtain ⟨_, -, hdone⟩ := bind_eq_ok_iff.1 hvar
    cases hdone
    rfl
  | _ =>
    obtain ⟨_, -, hdone⟩ := bind_eq_ok_iff.1 h
    cases hdone
    rfl

section

variable {p : Program} {m : Nat}

mutual

/-- The high-water mark after a statement is within a bound just if it was before, and the variables
that are live in the statement are. -/
theorem Stmt.resolve_mark {scopes scopes' : Scopes} {scope : OpenScope} {outer : List OpenScope}
    {r r' : Resolutions} (s : Stmt) (h : scopes.At p (scope :: outer))
    (hs : s.resolve scopes r = .ok (scopes', r')) :
    scopes'.highWater ≤ m ↔ scopes.highWater ≤ m ∧
      (live (scope.declare s.declared :: outer)).length ≤ m ∧
      ∀ b ∈ s.blocks, AllWithin (LiveAtMost m) (⟨[], b.1⟩ :: scope :: outer) b.2 := by
  have hmark := h.live_le_mark
  cases s with
  | declare names =>
    simp only [Stmt.resolve, bind_eq_ok_iff] at hs
    obtain ⟨found, hnames, hfound⟩ := hs
    cases hfound
    rw [h.declareAll_mark hnames, Nat.max_le]
    simp [Stmt.declared, Stmt.blocks]
  | branch cond thenBody elseBody =>
    simp only [Stmt.resolve, bind_eq_ok_iff, Prod.exists] at hs
    obtain ⟨_, -, t, _, hthen, u, _, helse, hdone⟩ := hs
    cases hdone
    have hpush := h.push .block
    have hpush' := (h.close (Stmt.resolveAll_declares thenBody hpush.inside hthen)).push .block
    have hinThen := Stmt.resolveAll_mark thenBody hpush hthen
    have hinElse := Stmt.resolveAll_mark elseBody hpush' helse
    rw [Scopes.highWater_push] at hinThen
    rw [Scopes.highWater_push, Scopes.highWater_pop, hinThen] at hinElse
    simp only [Scopes.highWater_pop, hinElse, Stmt.declared, declare_nil, Stmt.blocks]
    rw [List.forall_mem_cons, List.forall_mem_singleton]
    constructor
    · rintro ⟨⟨hwater, hfirst⟩, hsecond⟩
      exact ⟨hwater, Nat.le_trans hmark hwater, hfirst, hsecond⟩
    · rintro ⟨hwater, -, hfirst, hsecond⟩
      exact ⟨⟨hwater, hfirst⟩, hsecond⟩
  | loop id cond body =>
    simp only [Stmt.resolve, bind_eq_ok_iff, Prod.exists] at hs
    obtain ⟨_, -, t, _, hbody, hdone⟩ := hs
    cases hdone
    have hin := Stmt.resolveAll_mark body (h.push (.loop id)) hbody
    rw [Scopes.highWater_push] at hin
    simp only [Scopes.highWater_pop, hin, Stmt.declared, declare_nil, Stmt.blocks,
      List.forall_mem_singleton]
    constructor
    · rintro ⟨hwater, hinside⟩
      exact ⟨hwater, Nat.le_trans hmark hwater, hinside⟩
    · rintro ⟨hwater, -, hinside⟩
      exact ⟨hwater, hinside⟩
  | _ =>
    cases Stmt.resolve_scopes_eq rfl rfl hs
    simp [Stmt.declared, Stmt.blocks]
    omega

theorem Stmt.resolveAll_mark {scopes scopes' : Scopes} {scope : OpenScope} {outer : List OpenScope}
    {r r' : Resolutions} (ss : List Stmt) (h : scopes.At p (scope :: outer))
    (hs : Stmt.resolveAll scopes r ss = .ok (scopes', r')) :
    scopes'.highWater ≤ m ↔
      scopes.highWater ≤ m ∧ AllWithin (LiveAtMost m) (scope :: outer) ss := by
  have hmark := h.live_le_mark
  cases ss with
  | nil =>
    cases hs
    rw [AllWithin.nil_iff, LiveAtMost]
    omega
  | cons s rest =>
    simp only [Stmt.resolveAll, bind_eq_ok_iff, Prod.exists] at hs
    obtain ⟨t, r₁, hfirst, hrest⟩ := hs
    have ht := h.declares (Stmt.resolve_declares s h.inside hfirst)
    rw [Stmt.resolveAll_mark rest ht hrest, Stmt.resolve_mark s h hfirst, AllWithin.cons_iff]
    constructor
    · rintro ⟨⟨hwater, -, hblocks⟩, hafter⟩
      exact ⟨hwater, Nat.le_trans hmark hwater, hblocks, hafter⟩
    · rintro ⟨hwater, -, hblocks, hafter⟩
      exact ⟨⟨hwater, hafter _ _ .start, hblocks⟩, hafter⟩

end

end

/-- The size that is noted for a function: it is below a bound just if the number of live variables
is below it at all places. -/
theorem FunctionDecl.resolve_size {p : Program} {scopes scopes' : Scopes} {r r' : Resolutions}
    {f : FunctionDecl} (hglobal : scopes.global = p.globalScope)
    (h : f.resolve scopes r = .ok (scopes', r')) :
    ∃ (r₁ : Resolutions) (size : Nat), r' = r₁.setFrameSize f.name size ∧
      ∀ m, size ≤ m ↔ AllWithin (LiveAtMost m) [⟨f.params, none⟩] f.body := by
  obtain ⟨s₀, s₁, r₁, h₀, hat, h₁, -, hr⟩ := FunctionDecl.resolve_walk hglobal h
  refine ⟨r₁, s₁.highWater, hr, ?_⟩
  intro m
  have hstart := (Scopes.at_enterFunction hglobal).declareAll_mark h₀
  have hparams : s₀.highWater = (live [⟨f.params, none⟩]).length := by
    simpa [Scopes.enterFunction, OpenScope.declare] using hstart
  rw [Stmt.resolveAll_mark f.body hat h₁, hparams]
  constructor
  · exact And.right
  · intro hall
    exact ⟨hall _ _ .start, hall⟩

/-- The size that is noted for a function is the largest number of variables that are live at a
place of it. -/
theorem FunctionDecl.resolveAll_size {p : Program} {scopes : Scopes} {r r' : Resolutions}
    {n n' : Nat} {fs : List FunctionDecl} (hglobal : scopes.global = p.globalScope)
    (hnodup : (fs.map (·.name)).Nodup) (hn : FunctionDecl.NumberedAll n fs n')
    (h : FunctionDecl.resolveAll scopes r fs = .ok r') :
    ∀ f ∈ fs, ∃ size, r'.frameSize? f.name = some size ∧
      ∀ m, size ≤ m ↔ AllWithin (LiveAtMost m) [⟨f.params, none⟩] f.body := by
  induction fs generalizing scopes r n with
  | nil => simp
  | cons f rest ih =>
    obtain ⟨k, hbody, hrest⟩ := hn
    rw [List.map_cons, List.nodup_cons] at hnodup
    simp only [FunctionDecl.resolveAll, bind_eq_ok_iff, Prod.exists] at h
    obtain ⟨t, r₁, hfirst, hlater⟩ := h
    obtain ⟨-, -, -, -, -, -, hglobal', -⟩ := FunctionDecl.resolve_walk hglobal hfirst
    intro g hg
    rcases List.mem_cons.1 hg with rfl | hg
    · obtain ⟨r₀, size, rfl, hsize⟩ := FunctionDecl.resolve_size hglobal hfirst
      obtain ⟨-, -, hkeeps⟩ := FunctionDecl.resolveAll_keeps hglobal' hrest hlater
      refine ⟨size, ?_, hsize⟩
      rw [hkeeps g.name hnodup.1]
      simp
    · exact ih hglobal' hnodup.2 hrest hlater g hg

/-- A number with that property is the largest number of live variables, and is reached. -/
theorem FunctionDecl.exists_live_eq {f : FunctionDecl} {size : Nat}
    (h : ∀ m, size ≤ m ↔ AllWithin (LiveAtMost m) [⟨f.params, none⟩] f.body) :
    ∃ scopes block, f.Place scopes block ∧ (live scopes).length = size := by
  -- Otherwise one slot less would do at all places.
  by_contra hnone
  have hless : ∀ scopes block, f.Place scopes block → (live scopes).length < size := by
    intro scopes block hplace
    have hle : (live scopes).length ≤ size := (h size).1 (Nat.le_refl size) _ _ hplace
    have hne : (live scopes).length ≠ size := fun heq => hnone ⟨scopes, block, hplace, heq⟩
    omega
  have hpos := hless _ _ .start
  have hbad : size ≤ size - 1 := by
    rw [h]
    intro scopes block hplace
    exact Nat.le_sub_one_of_lt (hless _ _ hplace)
  omega

/-! The notes at each place. -/

section

variable {p : Program} {r : Resolutions} {size : Nat}

mutual

theorem Expr.Resolved.denotes {frames : List Scope} {id : Nat} {name : String} {e : Expr}
    (h : e.Resolved p r size frames) (hpart : .var id name ∈ e.parts) :
    p.Denotes r size frames id name := by
  cases e with
  | literal v => simp [Expr.parts] at hpart
  | var id' name' =>
    simp only [Expr.parts, List.mem_singleton, Expr.var.injEq] at hpart
    obtain ⟨rfl, rfl⟩ := hpart
    exact h
  | unary op operand =>
    simp only [Expr.parts, List.mem_cons, reduceCtorEq, false_or] at hpart
    exact Expr.Resolved.denotes (e := operand) h hpart
  | binary op left right =>
    simp only [Expr.parts, List.mem_cons, reduceCtorEq, false_or, List.mem_append] at hpart
    rcases hpart with hleft | hright
    · exact h.1.denotes hleft
    · exact h.2.denotes hright
  | call function args =>
    simp only [Expr.parts, List.mem_cons, reduceCtorEq, false_or] at hpart
    exact Expr.ResolvedAll.denotes h.2 hpart

theorem Expr.ResolvedAll.denotes {frames : List Scope} {id : Nat} {name : String} {es : List Expr}
    (h : Expr.ResolvedAll p r size frames es) (hpart : .var id name ∈ Expr.partsAll es) :
    p.Denotes r size frames id name := by
  cases es with
  | nil => simp [Expr.partsAll] at hpart
  | cons e rest =>
    rcases List.mem_append.1 hpart with hfirst | hrest
    · exact h.1.denotes hfirst
    · exact Expr.ResolvedAll.denotes h.2 hrest

end

namespace Stmt.Resolved

variable {frames : List Scope} {s : Stmt}

theorem denotes {id : Nat} {name : String} (h : s.Resolved p r size frames)
    (huses : s.Uses id name) : p.Denotes r size frames id name := by
  rcases huses with hpart | ⟨value, rfl⟩
  · cases s with
    | assign id' name' value => exact h.1.denotes hpart
    | ret value =>
      cases value with
      | none => cases hpart
      | some value => exact Expr.Resolved.denotes (e := value) h hpart
    | branch cond thenBody elseBody => exact h.1.denotes hpart
    | loop id' cond body => exact h.1.denotes hpart
    | eval e => exact Expr.Resolved.denotes (e := e) h hpart
    | _ => cases hpart
  · exact h.2

theorem jumpsTo {id : Nat} (h : s.Resolved p r size frames) (hjumps : s.Jumps id) :
    p.JumpsTo r frames id := by
  rcases hjumps with rfl | rfl
  · exact h
  · exact h

/-- A block is resolved in a scope of its own. -/
theorem block {b : Option Nat × List Stmt} (h : s.Resolved p r size frames) (hb : b ∈ s.blocks) :
    ∃ kind : ScopeKind, kind.loop? = b.1 ∧ Stmt.ResolvedAll p r size (openIn kind frames) b.2 := by
  cases s with
  | branch cond thenBody elseBody =>
    simp only [Stmt.blocks, List.mem_cons, List.not_mem_nil, or_false] at hb
    rcases hb with rfl | rfl
    · exact ⟨.block, rfl, h.2.1⟩
    · exact ⟨.block, rfl, h.2.2⟩
  | loop id cond body =>
    simp only [Stmt.blocks, List.mem_singleton] at hb
    subst hb
    exact ⟨.loop id, rfl, h.2⟩
  | _ => cases hb

end Stmt.Resolved

/-- What is resolved from the start of a block on is resolved at all of its places. -/
theorem Within.resolved {opened opened' : List OpenScope} {frames : List Scope}
    {block block' : List Stmt} (h : Within opened block opened' block') (hheld : Held opened frames)
    (hresolved : Stmt.ResolvedAll p r size frames block) :
    ∃ frames', Held opened' frames' ∧ Stmt.ResolvedAll p r size frames' block' := by
  induction h with
  | start => exact ⟨frames, hheld, hresolved⟩
  | next _ ih =>
    obtain ⟨frames', hheld', -, hrest⟩ := ih
    exact ⟨_, hheld'.declareIn _, hrest⟩
  | enter _ hb ih =>
    obtain ⟨frames', hheld', hs, -⟩ := ih
    obtain ⟨kind, hkind, hblock⟩ := hs.block hb
    refine ⟨_, ?_, hblock⟩
    rw [← hkind]
    exact hheld'.openIn kind

theorem FunctionDecl.held_frames (f : FunctionDecl) : Held [⟨f.params, none⟩] f.frames :=
  ⟨by simp [Scope.empty], rfl, rfl, trivial⟩

end

/-- What the walk has noted is what the names of the program mean. -/
theorem Program.Numbered.notedBy {p : Program} {r : Resolutions} (hn : p.Numbered)
    (h : p.resolve = .ok r) : p.NotedBy r := by
  have hresolved := hn.resolved h
  obtain ⟨n, hn⟩ := hn
  obtain ⟨-, hnodup, -, hall⟩ := Program.resolve_eq_ok_iff.1 h
  have hplace : ∀ f ∈ p.functions, ∀ scopes s rest, f.Place scopes (s :: rest) →
      ∃ size frames, Held scopes frames ∧ s.Resolved p r size frames := by
    intro f hf scopes s rest hplace
    obtain ⟨size, -, -, hbody⟩ := hresolved.function f hf
    obtain ⟨frames, hheld, hs, -⟩ := hplace.resolved f.held_frames hbody
    exact ⟨size, frames, hheld, hs⟩
  refine ⟨hresolved.globalCount, ?_, ?_, ?_⟩
  · intro f hf
    obtain ⟨size, hnote, hsize⟩ := FunctionDecl.resolveAll_size rfl hnodup hn hall f hf
    exact ⟨size, hnote, (hsize size).1 (Nat.le_refl size), FunctionDecl.exists_live_eq hsize⟩
  · intro f hf scopes s rest hat id name huses
    obtain ⟨size, frames, hheld, hs⟩ := hplace f hf scopes s rest hat
    obtain ⟨slot, hfind, hnote, -⟩ := hs.denotes huses
    have hmeans := hheld.means hfind
    refine ⟨slot, hnote, ?_⟩
    intro meant
    constructor
    · intro h
      exact h.unique hmeans
    · rintro rfl
      exact hmeans
  · intro f hf scopes s rest hat id hjumps
    obtain ⟨size, frames, hheld, hs⟩ := hplace f hf scopes s rest hat
    obtain ⟨target, hnear, hnote⟩ := hs.jumpsTo hjumps
    exact ⟨target, hheld.nearestLoop? ▸ hnear, hnote⟩

/-- The names of a program are accepted just if it obeys the rules of scoping, and what is then
noted for them is what they mean. -/
theorem Program.resolve_ok_iff_wellScoped (items : List Item) :
    ((∃ r, (Program.ofItems items).resolve = .ok r) ↔ (Program.ofItems items).WellScoped) ∧
      ∀ r, (Program.ofItems items).resolve = .ok r → (Program.ofItems items).NotedBy r := by
  refine ⟨Program.resolve_ok_iff _, ?_⟩
  intro r h
  exact (Program.ofItems_numbered items).notedBy h

/-- The global variable is hidden after the first statement, and the parameter in the loop. -/
def hiddenNames : List Item :=
  [.globals ["x"],
  .function ⟨"f", ["a"],
    [.assign 0 "x" (.literal (.int 1)), .declare ["x"],
    .loop 0 (.var 0 "a") [.declare ["a"], .assign 0 "x" (.var 0 "a"), .again 0]]⟩]

/-- A local variable that hides a global one, and a variable of a loop that hides a parameter. -/
theorem Program.resolve_ok_iff_wellScoped_hiddenNames :
    (Program.ofItems hiddenNames).WellScoped ∧
      ∃ r, (Program.ofItems hiddenNames).resolve = .ok r ∧
        (Program.ofItems hiddenNames).NotedBy r ∧ r.slot? 0 = some (.global 0) ∧
        r.slot? 3 = some (.frame 1) ∧ r.slot? 4 = some (.frame 2) ∧ r.loopOf? 5 = some 1 ∧
        r.frameSize? "f" = some 3 := by
  have hresolve : (Program.ofItems hiddenNames).resolve = .ok _ := rfl
  obtain ⟨haccepted, hnoted⟩ := Program.resolve_ok_iff_wellScoped hiddenNames
  exact ⟨haccepted.1 ⟨_, hresolve⟩, _, hresolve, hnoted _ hresolve, rfl, rfl, rfl, rfl, rfl⟩

end StackLang

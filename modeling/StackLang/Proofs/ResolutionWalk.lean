import Mathlib.Data.List.Nodup
import StackLang.Proofs.Notes
import StackLang.Proofs.OpenScopes

/-!
If the walk that resolves names ends without an error, the names of the program are resolved by the
notes it leaves. The finished notes are compared with those that a part left: they agree under the
numbers of that part.
-/
namespace StackLang

open Scope Resolutions

section

variable {p : Program} {R : Resolutions} {size : Nat}

structure Resolutions.Finishes (p : Program) (R : Resolutions) : Prop where
  globalCount : R.globalCount = p.globalNames.length
  arity : ∀ name signature, p.globalScope.function? name = some signature →
    p.arity? name = some signature.arity

/-- A name that has been looked up denotes the slot that was noted for it. -/
theorem Scopes.Inside.denotes {scopes : Scopes} {id : Nat} {name : String} {slot : Slot}
    (hp : R.Finishes p) (hs : scopes.Inside p) (hsize : scopes.highWater ≤ size)
    (hslot : scopes.lookup? name = some slot) (hR : R.slot? id = some slot) :
    p.Denotes R size scopes.frames id name := by
  refine ⟨slot, ?_, hR, ?_⟩
  · rw [← hs.lookup?]
    exact hslot
  · rw [hp.globalCount]
    exact hs.fits hsize hslot

mutual

/-- An expression that the walk has passed is resolved by all notes that keep those made for it. -/
theorem Expr.resolve_resolved {scopes : Scopes} {r r' : Resolutions} {n n' : Nat} (e : Expr)
    (hp : R.Finishes p) (hs : scopes.Inside p) (hsize : scopes.highWater ≤ size)
    (hn : e.Numbered n n') (h : e.resolve scopes r = .ok r') (hR : R.AgreesOn r' n n') :
    e.Resolved p R size scopes.frames := by
  cases e with
  | literal v => simp [Expr.Resolved]
  | var id name =>
    simp only [Expr.Numbered] at hn
    obtain ⟨rfl, rfl⟩ := hn
    simp only [Expr.resolve] at h
    obtain ⟨slot, hslot, rfl⟩ := resolveVar_ok h
    have hid := hR.slot id (Nat.le_refl id) (Nat.lt_succ_self id)
    simp only [slot?_setSlot, if_true] at hid
    simpa only [Expr.Resolved] using hs.denotes hp hsize hslot hid
  | unary op operand =>
    simp only [Expr.Numbered] at hn
    simp only [Expr.Resolved]
    exact Expr.resolve_resolved operand hp hs hsize hn h hR
  | binary op left right =>
    simp only [Expr.Numbered] at hn
    obtain ⟨k, hleft, hright⟩ := hn
    simp only [Expr.resolve, bind_eq_ok_iff] at h
    obtain ⟨r₁, h₁, h₂⟩ := h
    have e₂ := Expr.resolve_extends right hright h₂
    simp only [Expr.Resolved]
    constructor
    · exact Expr.resolve_resolved left hp hs hsize hleft h₁
        (hR.first e₂ hright.le)
    · exact Expr.resolve_resolved right hp hs hsize hright h₂
        (hR.narrow hleft.le (Nat.le_refl n'))
  | call function args =>
    simp only [Expr.Numbered] at hn
    simp only [Expr.resolve] at h
    split at h
    · cases h
    · rename_i signature hfind
      split at h
      · rename_i harity
        rw [hs.global] at hfind
        simp only [Expr.Resolved]
        refine ⟨?_, Expr.resolveAll_resolved args hp hs hsize hn h hR⟩
        rw [← harity]
        exact hp.arity function signature hfind
      · cases h

theorem Expr.resolveAll_resolved {scopes : Scopes} {r r' : Resolutions} {n n' : Nat}
    (es : List Expr) (hp : R.Finishes p) (hs : scopes.Inside p) (hsize : scopes.highWater ≤ size)
    (hn : Expr.NumberedAll n es n') (h : Expr.resolveAll scopes r es = .ok r')
    (hR : R.AgreesOn r' n n') : Expr.ResolvedAll p R size scopes.frames es := by
  cases es with
  | nil => simp [Expr.ResolvedAll]
  | cons e rest =>
    simp only [Expr.NumberedAll] at hn
    obtain ⟨k, he, hrest⟩ := hn
    simp only [Expr.resolveAll, bind_eq_ok_iff] at h
    obtain ⟨r₁, h₁, h₂⟩ := h
    have e₂ := Expr.resolveAll_extends rest hrest h₂
    simp only [Expr.ResolvedAll]
    constructor
    · exact Expr.resolve_resolved e hp hs hsize he h₁
        (hR.first e₂ hrest.le)
    · exact Expr.resolveAll_resolved rest hp hs hsize hrest h₂
        (hR.narrow he.le (Nat.le_refl n'))

end

theorem Scopes.jumpsTo {scopes : Scopes} {r r' : Resolutions} {id : Nat} {jump : LoopJump}
    (h : resolveJump scopes r id jump = .ok r') (hR : R.AgreesOn r' id (id + 1)) :
    p.JumpsTo R scopes.frames id := by
  obtain ⟨target, htarget, rfl⟩ := resolveJump_ok h
  have hid := hR.loop id (Nat.le_refl id) (Nat.lt_succ_self id)
  simp only [loopOf?_setLoop, if_true] at hid
  exact ⟨target, htarget, hid⟩

mutual

/-- A statement that the walk has passed is resolved by all notes that keep those made for it. -/
theorem Stmt.resolve_resolved {scopes scopes' : Scopes} {r r' : Resolutions} {n n' : Nat}
    (s : Stmt) (hp : R.Finishes p) (hs : scopes.Inside p) (hsize : scopes'.highWater ≤ size)
    (hn : s.Numbered n n') (h : s.resolve scopes r = .ok (scopes', r'))
    (hR : R.AgreesOn r' n n') : s.Resolved p R size scopes.frames := by
  have hmark : scopes.highWater ≤ size := Nat.le_trans (Stmt.resolve_declares s hs h).mark hsize
  cases s with
  | declare names => simp [Stmt.Resolved]
  | assign id name value =>
    simp only [Stmt.Numbered] at hn
    obtain ⟨rfl, hvalue⟩ := hn
    simp only [Stmt.resolve, bind_eq_ok_iff] at h
    obtain ⟨r₁, h₁, r₂, h₂, hdone⟩ := h
    cases hdone
    obtain ⟨slot, hslot, rfl⟩ := resolveVar_ok h₂
    have hid := hR.slot id (Nat.le_refl id) hvalue.le
    simp only [slot?_setSlot, if_true] at hid
    simp only [Stmt.Resolved]
    refine ⟨?_, hs.denotes hp hmark hslot hid⟩
    exact Expr.resolve_resolved value hp hs hmark hvalue h₁
      ((hR.narrow (Nat.le_succ id) (Nat.le_refl n')).before (extends_setSlot r₁ id slot)
        (Or.inr (Nat.le_refl (id + 1))))
  | ret value =>
    cases value with
    | none => simp [Stmt.Resolved]
    | some value =>
      simp only [Stmt.Numbered] at hn
      simp only [Stmt.resolve, bind_eq_ok_iff] at h
      obtain ⟨r₁, h₁, hdone⟩ := h
      cases hdone
      simp only [Stmt.Resolved]
      exact Expr.resolve_resolved value hp hs hmark hn h₁ hR
  | leave id =>
    simp only [Stmt.Numbered] at hn
    obtain ⟨rfl, rfl⟩ := hn
    simp only [Stmt.resolve, bind_eq_ok_iff] at h
    obtain ⟨r₁, h₁, hdone⟩ := h
    cases hdone
    simpa only [Stmt.Resolved] using Scopes.jumpsTo h₁ hR
  | again id =>
    simp only [Stmt.Numbered] at hn
    obtain ⟨rfl, rfl⟩ := hn
    simp only [Stmt.resolve, bind_eq_ok_iff] at h
    obtain ⟨r₁, h₁, hdone⟩ := h
    cases hdone
    simpa only [Stmt.Resolved] using Scopes.jumpsTo h₁ hR
  | branch cond thenBody elseBody =>
    simp only [Stmt.Numbered] at hn
    obtain ⟨k, l, hcond, hthen, helse⟩ := hn
    simp only [Stmt.resolve, bind_eq_ok_iff, Prod.exists] at h
    obtain ⟨r₁, h₁, t, r₂, h₂, u, r₃, h₃, hdone⟩ := h
    cases hdone
    have e₂ := Stmt.resolveAll_extends thenBody hthen h₂
    have e₃ := Stmt.resolveAll_extends elseBody helse h₃
    have d₂ := hs.pop (Stmt.resolveAll_declares thenBody (hs.push .block) h₂)
    have d₃ := Stmt.resolveAll_declares elseBody (d₂.inside.push .block) h₃
    have hR₂ : R.AgreesOn r₂ n l := hR.first e₃ helse.le
    have hframes : t.pop.frames = scopes.frames := by rw [d₂.frames, declareIn_nil]
    simp only [Stmt.Resolved]
    refine ⟨?_, ?_, ?_⟩
    · exact Expr.resolve_resolved cond hp hs hmark hcond h₁
        (hR₂.first e₂ hthen.le)
    · have ht : t.highWater ≤ size := Nat.le_trans d₃.mark hsize
      exact Stmt.resolveAll_resolved thenBody hp (hs.push .block) ht hthen h₂
        (hR₂.narrow hcond.le (Nat.le_refl l))
    · have hu : u.highWater ≤ size := hsize
      have helse' := Stmt.resolveAll_resolved elseBody hp (d₂.inside.push .block) hu helse h₃
        (hR.narrow (Nat.le_trans hcond.le hthen.le) (Nat.le_refl n'))
      have hpush : (t.pop.push .block).frames = openIn .block scopes.frames := by
        rw [← hframes]
        rfl
      rwa [hpush] at helse'
  | loop id cond body =>
    simp only [Stmt.Numbered] at hn
    obtain ⟨rfl, k, hcond, hbody⟩ := hn
    simp only [Stmt.resolve, bind_eq_ok_iff, Prod.exists] at h
    obtain ⟨r₁, h₁, t, r₂, h₂, hdone⟩ := h
    cases hdone
    have e₂ := Stmt.resolveAll_extends body hbody h₂
    simp only [Stmt.Resolved]
    constructor
    · exact Expr.resolve_resolved cond hp hs hmark hcond h₁
        ((hR.first e₂ hbody.le).narrow (Nat.le_succ id) (Nat.le_refl k))
    · have ht : t.highWater ≤ size := hsize
      exact Stmt.resolveAll_resolved body hp (hs.push (.loop id)) ht hbody h₂
        (hR.narrow (Nat.le_trans (Nat.le_succ id) hcond.le) (Nat.le_refl n'))
  | eval e =>
    simp only [Stmt.Numbered] at hn
    simp only [Stmt.resolve, bind_eq_ok_iff] at h
    obtain ⟨r₁, h₁, hdone⟩ := h
    cases hdone
    simp only [Stmt.Resolved]
    exact Expr.resolve_resolved e hp hs hmark hn h₁ hR

theorem Stmt.resolveAll_resolved {scopes scopes' : Scopes} {r r' : Resolutions} {n n' : Nat}
    (ss : List Stmt) (hp : R.Finishes p) (hs : scopes.Inside p)
    (hsize : scopes'.highWater ≤ size) (hn : Stmt.NumberedAll n ss n')
    (h : Stmt.resolveAll scopes r ss = .ok (scopes', r')) (hR : R.AgreesOn r' n n') :
    Stmt.ResolvedAll p R size scopes.frames ss := by
  cases ss with
  | nil => simp [Stmt.ResolvedAll]
  | cons s rest =>
    simp only [Stmt.NumberedAll] at hn
    obtain ⟨k, hfirst, hrest⟩ := hn
    simp only [Stmt.resolveAll, bind_eq_ok_iff, Prod.exists] at h
    obtain ⟨t, r₁, h₁, h₂⟩ := h
    have d₁ := Stmt.resolve_declares s hs h₁
    have d₂ := Stmt.resolveAll_declares rest d₁.inside h₂
    have e₂ := Stmt.resolveAll_extends rest hrest h₂
    simp only [Stmt.ResolvedAll]
    constructor
    · exact Stmt.resolve_resolved s hp hs (Nat.le_trans d₂.mark hsize) hfirst h₁
        (hR.first e₂ hrest.le)
    · rw [← d₁.frames]
      exact Stmt.resolveAll_resolved rest hp d₁.inside hsize hrest h₂
        (hR.narrow hfirst.le (Nat.le_refl n'))

end

end

/-- Outside any function, names become global variables, and none of them twice. -/
theorem Scopes.declareAll_global {s s' : Scopes} {kind : NameKind} {names : List String}
    (hframes : s.frames = []) (hnodup : s.global.vars.names.Nodup)
    (h : s.declareAll kind names = .ok s') :
    (names.reverse ++ s.global.vars.names).Nodup ∧
      s' = { s with global.vars.names := names.reverse ++ s.global.vars.names } := by
  induction names generalizing s with
  | nil =>
    cases h
    exact ⟨hnodup, rfl⟩
  | cons name rest ih =>
    obtain ⟨⟨vars, functions⟩, frames, water⟩ := s
    subst hframes
    simp only [Scopes.declareAll, Scopes.declare?, GlobalScope.declareVar?, Scope.declare?] at h
    by_cases hmem : name ∈ vars.names
    · simp [hmem] at h
    · simp only [hmem, if_false, Option.map_some] at h
      have hrest := ih rfl (List.nodup_cons.2 ⟨hmem, hnodup⟩) h
      simpa using hrest

/-- Functions get names that no other function has, a native one neither. -/
theorem Scopes.declareFunctions_ok {s s' : Scopes} {fs : List FunctionDecl}
    (h : s.declareFunctions fs = .ok s') :
    (fs.map (·.name)).Nodup ∧ (∀ f ∈ fs, s.global.function? f.name = none) ∧
      s' = { s with global.functions :=
        (fs.map fun f => (f.name, ⟨f.params.length, none⟩)).reverse ++ s.global.functions } := by
  induction fs generalizing s with
  | nil =>
    cases h
    exact ⟨List.nodup_nil, by simp, rfl⟩
  | cons f rest ih =>
    simp only [Scopes.declareFunctions, GlobalScope.declareFunction?] at h
    cases hfind : s.global.function? f.name with
    | some signature => simp [hfind] at h
    | none =>
      simp only [hfind, Option.isSome_none, Bool.false_eq_true, if_false] at h
      obtain ⟨hnodup, hnew, rfl⟩ := ih h
      have hother : ∀ g ∈ rest, g.name ≠ f.name ∧ s.global.function? g.name = none := by
        intro g hg
        have hg' := hnew g hg
        simp only [GlobalScope.function?, List.lookup_cons] at hg'
        cases hsame : g.name == f.name with
        | true => simp [hsame] at hg'
        | false =>
          rw [hsame] at hg'
          exact ⟨by simpa using hsame, hg'⟩
      refine ⟨?_, ?_, by simp⟩
      · rw [List.map_cons, List.nodup_cons]
        refine ⟨?_, hnodup⟩
        intro hmem
        obtain ⟨g, hg, hname⟩ := List.mem_map.1 hmem
        exact (hother g hg).1 hname
      · intro g hg
        rcases List.mem_cons.1 hg with rfl | hg
        · exact hfind
        · exact (hother g hg).2

namespace Program

theorem mem_of_lookup_eq_some {α β : Type} [BEq α] [LawfulBEq α] {l : List (α × β)} {a : α}
    {b : β} (h : l.lookup a = some b) : (a, b) ∈ l := by
  obtain ⟨l₁, l₂, rfl, -⟩ := List.lookup_eq_some_iff.1 h
  simp

/-- A call by a name takes as many arguments as the scope says. -/
theorem arity?_of_function? {p : Program} (hnodup : (p.functions.map (·.name)).Nodup)
    (hnative : ∀ f ∈ p.functions, Native.ofName? f.name = none) {name : String}
    {signature : Signature} (h : p.globalScope.function? name = some signature) :
    p.arity? name = some signature.arity := by
  simp only [GlobalScope.function?, globalScope, List.lookup_append] at h
  rcases Option.or_eq_some_iff.1 h with huser | ⟨-, hnat⟩
  · have hmem := mem_of_lookup_eq_some huser
    simp only [List.mem_reverse, List.mem_map, Prod.mk.injEq] at hmem
    obtain ⟨f, hf, rfl, rfl⟩ := hmem
    have hfind : p.find? f.name = some f := find?_of_nodup hnodup hf
    simp [arity?, hnative f hf, hfind]
  · have hmem := mem_of_lookup_eq_some hnat
    simp only [GlobalScope.withNatives, List.mem_map, Prod.mk.injEq] at hmem
    obtain ⟨native, -, rfl, rfl⟩ := hmem
    have hname : Native.ofName? native.name = some native := by cases native <;> rfl
    simp [arity?, hname]

end Program

section

variable {p : Program}

/-- The body of one function, resolved in a frame of its own. -/
theorem FunctionDecl.resolve_ok {scopes scopes' : Scopes} {r r' : Resolutions} {n n' : Nat}
    {f : FunctionDecl} (hglobal : scopes.global = p.globalScope)
    (hn : Stmt.NumberedAll n f.body n') (h : f.resolve scopes r = .ok (scopes', r')) :
    scopes'.global = p.globalScope ∧ ∃ r₁ size, r.Extends r₁ n n' ∧
      r' = r₁.setFrameSize f.name size ∧ f.params.length ≤ size ∧
      ∀ R : Resolutions, R.Finishes p → R.AgreesOn r₁ n n' →
        Stmt.ResolvedAll p R size f.frames f.body := by
  simp only [FunctionDecl.resolve, bind_eq_ok_iff, Prod.exists] at h
  obtain ⟨s₀, hparams, s₁, r₁, hbody, hdone⟩ := h
  cases hdone
  have hstart : scopes.enterFunction.Inside p :=
    ⟨hglobal, by simp [Scopes.enterFunction], ⟨rfl, trivial⟩, Nat.le_refl 0⟩
  have d₀ := hstart.declareAll hparams
  have d₁ := Stmt.resolveAll_declares f.body d₀.inside hbody
  have hframes : s₀.frames = f.frames := d₀.frames
  refine ⟨d₁.inside.global, r₁, s₁.highWater, Stmt.resolveAll_extends f.body hn hbody, rfl, ?_, ?_⟩
  · have hmark := d₀.inside.marked
    rw [hframes, FunctionDecl.frames, nextIn_declareIn] at hmark
    have hraise := d₁.mark
    simp only [nextIn, next, Scope.empty, List.length_nil] at hmark
    omega
  · intro R hp hR
    rw [← hframes]
    exact Stmt.resolveAll_resolved f.body hp d₀.inside (Nat.le_refl _) hn hbody hR

/-- Later functions leave the notes of earlier ones alone. -/
theorem FunctionDecl.resolveAll_keeps {scopes : Scopes} {r r' : Resolutions} {n n' : Nat}
    {fs : List FunctionDecl} (hglobal : scopes.global = p.globalScope)
    (hn : FunctionDecl.NumberedAll n fs n') (h : FunctionDecl.resolveAll scopes r fs = .ok r') :
    r'.AgreesOn r 0 n ∧ r'.globalCount = r.globalCount ∧
      ∀ name, name ∉ fs.map (·.name) → r'.frameSize? name = r.frameSize? name := by
  induction fs generalizing scopes r n with
  | nil =>
    cases h
    exact ⟨⟨fun _ _ _ => rfl, fun _ _ _ => rfl⟩, rfl, fun _ _ => rfl⟩
  | cons f rest ih =>
    obtain ⟨k, hbody, hrest⟩ := hn
    simp only [FunctionDecl.resolveAll, bind_eq_ok_iff, Prod.exists] at h
    obtain ⟨t, r₁, h₁, h₂⟩ := h
    obtain ⟨hglobal', r₀, size, he, rfl, -, -⟩ := FunctionDecl.resolve_ok hglobal hbody h₁
    obtain ⟨hagree, hcount, hsizes⟩ := ih hglobal' hrest h₂
    refine ⟨⟨?_, ?_⟩, ?_, ?_⟩
    · intro id h0 hid
      exact (hagree.slot id h0 (Nat.lt_of_lt_of_le hid hbody.le)).trans (he.slot id (Or.inl hid))
    · intro id h0 hid
      exact (hagree.loop id h0 (Nat.lt_of_lt_of_le hid hbody.le)).trans (he.loop id (Or.inl hid))
    · exact hcount.trans he.globalCount
    · intro name hname
      simp only [List.map_cons, List.mem_cons, not_or] at hname
      have hne : f.name ≠ name := Ne.symm hname.1
      rw [hsizes name hname.2, frameSize?_setFrameSize]
      simp [hne, frameSize?, he.frames]

/-- Functions that the walk has passed are resolved, each with the size that was noted for it. -/
theorem FunctionDecl.resolveAll_resolved {scopes : Scopes} {r r' : Resolutions} {n n' : Nat}
    {fs : List FunctionDecl} (hglobal : scopes.global = p.globalScope)
    (hnodup : (fs.map (·.name)).Nodup) (hn : FunctionDecl.NumberedAll n fs n')
    (h : FunctionDecl.resolveAll scopes r fs = .ok r') (hp : r'.Finishes p) :
    ∀ f ∈ fs, f.Resolved p r' := by
  induction fs generalizing scopes r n with
  | nil => simp
  | cons f rest ih =>
    obtain ⟨k, hbody, hrest⟩ := hn
    rw [List.map_cons, List.nodup_cons] at hnodup
    simp only [FunctionDecl.resolveAll, bind_eq_ok_iff, Prod.exists] at h
    obtain ⟨t, r₁, h₁, h₂⟩ := h
    obtain ⟨hglobal', r₀, size, -, rfl, hparams, hresolved⟩ :=
      FunctionDecl.resolve_ok hglobal hbody h₁
    obtain ⟨hagree, -, hsizes⟩ := FunctionDecl.resolveAll_keeps hglobal' hrest h₂
    intro g hg
    rcases List.mem_cons.1 hg with rfl | hg
    · refine ⟨size, ?_, hparams, ?_⟩
      · rw [hsizes g.name hnodup.1]
        simp
      · have hR : r'.AgreesOn (r₀.setFrameSize g.name size) n k :=
          hagree.narrow (Nat.zero_le n) (Nat.le_refl k)
        exact hresolved r' hp ⟨hR.slot, hR.loop⟩
    · exact ih hglobal' hnodup.2 hrest h₂ g hg

end

/-- A program that is accepted has its names resolved by the notes. -/
theorem Program.Numbered.resolved {p : Program} {r : Resolutions} (hn : p.Numbered)
    (h : p.resolve = .ok r) : p.Resolved r := by
  obtain ⟨n, hn⟩ := hn
  simp only [Program.resolve, bind_eq_ok_iff] at h
  obtain ⟨s₁, hglobals, s₂, hfunctions, hall⟩ := h
  obtain ⟨hglobalsNodup, rfl⟩ := Scopes.declareAll_global rfl List.nodup_nil hglobals
  obtain ⟨hnodup, hnew, rfl⟩ := Scopes.declareFunctions_ok hfunctions
  have hnative : ∀ f ∈ p.functions, Native.ofName? f.name = none := by
    intro f hf
    have hnone : GlobalScope.withNatives.function? f.name = none := hnew f hf
    simp only [GlobalScope.function?, GlobalScope.withNatives, List.lookup_eq_none_iff,
      List.mem_map] at hnone
    simp only [Native.ofName?, List.find?_eq_none]
    intro native hmem hname
    have hne := hnone _ ⟨native, hmem, rfl⟩
    simp only [decide_eq_true_eq] at hname
    simp [hname] at hne
  obtain ⟨-, hcount, -⟩ := FunctionDecl.resolveAll_keeps (p := p) (by
    simp [Program.globalScope, Scopes.initial, GlobalScope.withNatives, Scope.empty]) hn hall
  have hcount' : r.globalCount = p.globalNames.length := by
    simpa [Resolutions.empty, GlobalScope.varCount, Scope.next, Scopes.initial,
      GlobalScope.withNatives, Scope.empty] using hcount
  refine ⟨?_, hnodup, hcount', ?_⟩
  · simpa [Scopes.initial, GlobalScope.withNatives, Scope.empty] using hglobalsNodup
  · refine FunctionDecl.resolveAll_resolved ?_ hnodup hn hall ⟨hcount', ?_⟩
    · simp [Program.globalScope, Scopes.initial, GlobalScope.withNatives, Scope.empty]
    · intro name signature
      exact Program.arity?_of_function? hnodup hnative

end StackLang

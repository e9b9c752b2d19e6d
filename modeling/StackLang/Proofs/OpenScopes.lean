import StackLang.Proofs.Resolved

/-!
The open scopes along the walk that resolves names. Each statement leaves them as it found them but
for the names it declares, whatever it opened and closed in between; the high-water mark only rises
and always covers the slots of all open scopes.
-/
namespace StackLang

open Scope

namespace Scopes

variable {p : Program}

/-- The scopes are those of a place in a body, and the high-water mark covers all open ones. -/
structure Inside (p : Program) (s : Scopes) : Prop where
  global : s.global = p.globalScope
  frames : s.frames ≠ []
  chained : Chained s.frames
  marked : nextIn s.frames ≤ s.highWater

/-- What a part of a body does to the scopes: it declares names, and may raise the mark. -/
structure Declares (p : Program) (s : Scopes) (names : List String) (s' : Scopes) : Prop where
  inside : s'.Inside p
  frames : s'.frames = declareIn names s.frames
  mark : s.highWater ≤ s'.highWater

theorem Inside.declares_nil {s : Scopes} (hs : s.Inside p) : s.Declares p [] s :=
  ⟨hs, (declareIn_nil _).symm, Nat.le_refl _⟩

theorem Declares.trans {s t u : Scopes} {names more : List String} (h : s.Declares p names t)
    (h' : t.Declares p more u) : s.Declares p (names ++ more) u where
  inside := h'.inside
  frames := by
    rw [h'.frames, h.frames]
    cases s.frames with
    | nil => rfl
    | cons scope outer => simp [declareIn]
  mark := Nat.le_trans h.mark h'.mark

theorem Inside.declare? {s s' : Scopes} {name : String} {slot : Slot} (hs : s.Inside p)
    (h : s.declare? name = some (slot, s')) : s.Declares p [name] s' := by
  obtain ⟨global, frames, water⟩ := s
  cases frames with
  | nil => exact absurd rfl hs.frames
  | cons scope outer =>
    simp only [Scopes.declare?, Option.map_eq_some_iff, Prod.exists, Prod.mk.injEq] at h
    obtain ⟨i, scope', hscope, -, rfl⟩ := h
    simp only [Scope.declare?] at hscope
    split at hscope
    · cases hscope
    · simp only [Option.some.injEq, Prod.mk.injEq] at hscope
      obtain ⟨rfl, rfl⟩ := hscope
      have hmark : scope.next ≤ water := hs.marked
      have hnext : nextIn ({ scope with names := name :: scope.names } :: outer) =
          scope.next + 1 := by
        simp only [nextIn, next, List.length_cons]
        omega
      refine ⟨⟨hs.global, by simp, hs.chained, ?_⟩, rfl, Nat.le_max_left _ _⟩
      rw [hnext]
      exact Nat.le_max_right _ _

theorem Inside.declareAll {s s' : Scopes} {kind : NameKind} {names : List String}
    (hs : s.Inside p) (h : s.declareAll kind names = .ok s') : s.Declares p names s' := by
  induction names generalizing s with
  | nil =>
    cases h
    exact hs.declares_nil
  | cons name rest ih =>
    simp only [Scopes.declareAll] at h
    cases hname : s.declare? name with
    | none => simp [hname] at h
    | some result =>
      simp only [hname] at h
      have hfirst := hs.declare? hname
      exact hfirst.trans (ih hfirst.inside h)

theorem Inside.push {s : Scopes} (kind : ScopeKind) (hs : s.Inside p) :
    (s.push kind).Inside p where
  global := hs.global
  frames := by simp [Scopes.push]
  chained := chained_openIn kind hs.chained
  marked := hs.marked

/-- Closing a scope gives back the scopes from before it was opened. -/
theorem Inside.pop {s s' : Scopes} {kind : ScopeKind} {names : List String} (hs : s.Inside p)
    (h : (s.push kind).Declares p names s') : s.Declares p [] s'.pop := by
  have hframes : s'.pop.frames = s.frames := by
    simp only [Scopes.pop, h.frames]
    rfl
  refine ⟨⟨h.inside.global, ?_, ?_, ?_⟩, ?_, h.mark⟩
  · rw [hframes]
    exact hs.frames
  · rw [hframes]
    exact hs.chained
  · rw [hframes]
    exact Nat.le_trans hs.marked h.mark
  · rw [hframes, declareIn_nil]

theorem Inside.lookup? {s : Scopes} (hs : s.Inside p) (name : String) :
    s.lookup? name = (p.scopes s.frames).lookup? name := by
  simp [Scopes.lookup?, Program.scopes, hs.global]

/-- A slot that is found exists, if the frame is as large as the mark says. -/
theorem Inside.fits {s : Scopes} {name : String} {slot : Slot} {size : Nat} (hs : s.Inside p)
    (hsize : s.highWater ≤ size) (h : s.lookup? name = some slot) :
    slot.Fits size p.globalNames.length := by
  simp only [Scopes.lookup?] at h
  cases hfind : s.frames.findSome? (·.lookup? name) with
  | some i =>
    rw [hfind] at h
    cases h
    have hi := findSome?_lookup?_lt hs.chained hfind
    have hmark := hs.marked
    simp only [Slot.Fits]
    omega
  | none =>
    rw [hfind] at h
    simp only [hs.global, Option.map_eq_some_iff] at h
    obtain ⟨i, hi, rfl⟩ := h
    have hlt := (slotIn?_lt hi).2
    simpa [Program.globalScope, Slot.Fits] using hlt

end Scopes

section

variable {p : Program}

mutual

/-- When a statement has been resolved, the open scopes are those from before, with what it declares
in the innermost one. -/
theorem Stmt.resolve_declares {scopes scopes' : Scopes} {r r' : Resolutions} (s : Stmt)
    (hs : scopes.Inside p) (h : s.resolve scopes r = .ok (scopes', r')) :
    scopes.Declares p s.declared scopes' := by
  cases s with
  | declare names =>
    simp only [Stmt.resolve, bind_eq_ok_iff] at h
    obtain ⟨found, hnames, hfound⟩ := h
    cases hfound
    exact hs.declareAll hnames
  | assign id name value =>
    simp only [Stmt.resolve, bind_eq_ok_iff] at h
    obtain ⟨_, -, _, -, hdone⟩ := h
    cases hdone
    exact hs.declares_nil
  | ret value =>
    cases value with
    | none =>
      cases h
      exact hs.declares_nil
    | some value =>
      simp only [Stmt.resolve, bind_eq_ok_iff] at h
      obtain ⟨_, -, hdone⟩ := h
      cases hdone
      exact hs.declares_nil
  | leave id =>
    simp only [Stmt.resolve, bind_eq_ok_iff] at h
    obtain ⟨_, -, hdone⟩ := h
    cases hdone
    exact hs.declares_nil
  | again id =>
    simp only [Stmt.resolve, bind_eq_ok_iff] at h
    obtain ⟨_, -, hdone⟩ := h
    cases hdone
    exact hs.declares_nil
  | branch cond thenBody elseBody =>
    simp only [Stmt.resolve, bind_eq_ok_iff, Prod.exists] at h
    obtain ⟨_, -, t, _, hthen, u, _, helse, hdone⟩ := h
    cases hdone
    have h1 := hs.pop (Stmt.resolveAll_declares thenBody (hs.push .block) hthen)
    have h2 := h1.inside.pop (Stmt.resolveAll_declares elseBody (h1.inside.push .block) helse)
    exact h1.trans h2
  | loop id cond body =>
    simp only [Stmt.resolve, bind_eq_ok_iff, Prod.exists] at h
    obtain ⟨_, -, t, _, hbody, hdone⟩ := h
    cases hdone
    exact hs.pop (Stmt.resolveAll_declares body (hs.push (.loop id)) hbody)
  | eval e =>
    simp only [Stmt.resolve, bind_eq_ok_iff] at h
    obtain ⟨_, -, hdone⟩ := h
    cases hdone
    exact hs.declares_nil

theorem Stmt.resolveAll_declares {scopes scopes' : Scopes} {r r' : Resolutions} (ss : List Stmt)
    (hs : scopes.Inside p) (h : Stmt.resolveAll scopes r ss = .ok (scopes', r')) :
    scopes.Declares p (ss.flatMap Stmt.declared) scopes' := by
  cases ss with
  | nil =>
    cases h
    exact hs.declares_nil
  | cons s rest =>
    simp only [Stmt.resolveAll, bind_eq_ok_iff, Prod.exists] at h
    obtain ⟨t, _, hfirst, hrest⟩ := h
    have h1 := Stmt.resolve_declares s hs hfirst
    exact h1.trans (Stmt.resolveAll_declares rest h1.inside hrest)

end

end

end StackLang

import Std.Data.TreeMap.Lemmas
import StackLang.Proofs.Resolved

/-!
The notes along the walk that resolves names. Each part of a numbered tree adds notes under its own
numbers and leaves all others alone, so what a part has noted is still there when the walk is over.
-/
namespace StackLang

namespace Resolutions

@[simp]
theorem slot?_setSlot (r : Resolutions) (id i : Nat) (slot : Slot) :
    (r.setSlot id slot).slot? i = if id = i then some slot else r.slot? i := by
  simp [slot?, setSlot, Std.TreeMap.getElem?_insert]

@[simp]
theorem loopOf?_setLoop (r : Resolutions) (id i target : Nat) :
    (r.setLoop id target).loopOf? i = if id = i then some target else r.loopOf? i := by
  simp [loopOf?, setLoop, Std.TreeMap.getElem?_insert]

@[simp]
theorem frameSize?_setFrameSize (r : Resolutions) (name f : String) (size : Nat) :
    (r.setFrameSize name size).frameSize? f =
      if name = f then some size else r.frameSize? f := by
  simp [frameSize?, setFrameSize, Std.TreeMap.getElem?_insert]

/-- The notes are the same but for those under the numbers from `n` up to `n'`. -/
structure Extends (r r' : Resolutions) (n n' : Nat) : Prop where
  slot : ∀ id, id < n ∨ n' ≤ id → r'.slot? id = r.slot? id
  loop : ∀ id, id < n ∨ n' ≤ id → r'.loopOf? id = r.loopOf? id
  frames : r'.frames = r.frames
  globalCount : r'.globalCount = r.globalCount

structure AgreesOn (r r' : Resolutions) (n n' : Nat) : Prop where
  slot : ∀ id, n ≤ id → id < n' → r.slot? id = r'.slot? id
  loop : ∀ id, n ≤ id → id < n' → r.loopOf? id = r'.loopOf? id

theorem Extends.refl (r : Resolutions) (n n' : Nat) : r.Extends r n n' :=
  ⟨fun _ _ => rfl, fun _ _ => rfl, rfl, rfl⟩

theorem Extends.widen {r r' : Resolutions} {n n' m m' : Nat} (h : r.Extends r' n n')
    (hm : m ≤ n) (hm' : n' ≤ m') : r.Extends r' m m' where
  slot id hid := h.slot id (by omega)
  loop id hid := h.loop id (by omega)
  frames := h.frames
  globalCount := h.globalCount

theorem Extends.trans {r r' r'' : Resolutions} {n n' : Nat} (h : r.Extends r' n n')
    (h' : r'.Extends r'' n n') : r.Extends r'' n n' where
  slot id hid := (h'.slot id hid).trans (h.slot id hid)
  loop id hid := (h'.loop id hid).trans (h.loop id hid)
  frames := h'.frames.trans h.frames
  globalCount := h'.globalCount.trans h.globalCount

/-- A part with the numbers up to `k`, then one with the numbers from there on. -/
theorem Extends.seq {r r' r'' : Resolutions} {n k n' : Nat} (h : r.Extends r' n k)
    (h' : r'.Extends r'' k n') (hk : n ≤ k) (hk' : k ≤ n') : r.Extends r'' n n' :=
  (h.widen (Nat.le_refl n) hk').trans (h'.widen hk (Nat.le_refl n'))

theorem extends_setSlot (r : Resolutions) (n : Nat) (slot : Slot) :
    r.Extends (r.setSlot n slot) n (n + 1) where
  slot id hid := by
    have hne : n ≠ id := by omega
    simp [hne]
  loop id hid := rfl
  frames := rfl
  globalCount := rfl

theorem extends_setLoop (r : Resolutions) (n target : Nat) :
    r.Extends (r.setLoop n target) n (n + 1) where
  slot id hid := rfl
  loop id hid := by
    have hne : n ≠ id := by omega
    simp [hne]
  frames := rfl
  globalCount := rfl

theorem AgreesOn.narrow {r r' : Resolutions} {n n' m m' : Nat} (h : r.AgreesOn r' n n')
    (hm : n ≤ m) (hm' : m' ≤ n') : r.AgreesOn r' m m' where
  slot id h1 h2 := h.slot id (by omega) (by omega)
  loop id h1 h2 := h.loop id (by omega) (by omega)

/-- What was noted before is still there after other numbers were noted. -/
theorem AgreesOn.before {r r' r'' : Resolutions} {n n' m m' : Nat} (h : r.AgreesOn r'' m m')
    (he : r'.Extends r'' n n') (hm : m' ≤ n ∨ n' ≤ m) : r.AgreesOn r' m m' where
  slot id h1 h2 := (h.slot id h1 h2).trans (he.slot id (by omega))
  loop id h1 h2 := (h.loop id h1 h2).trans (he.loop id (by omega))

/-- The notes of a first part are still there after those of the part that follows it. -/
theorem AgreesOn.first {r r' r'' : Resolutions} {n k n' : Nat} (h : r.AgreesOn r'' n n')
    (he : r'.Extends r'' k n') (hk : k ≤ n') : r.AgreesOn r' n k :=
  (h.narrow (Nat.le_refl n) hk).before he (Or.inl (Nat.le_refl k))

theorem resolveVar_ok {scopes : Scopes} {r r' : Resolutions} {id : Nat} {name : String}
    (h : resolveVar scopes r id name = .ok r') :
    ∃ slot, scopes.lookup? name = some slot ∧ r' = r.setSlot id slot := by
  simp only [resolveVar] at h
  cases hfind : scopes.lookup? name with
  | none => simp [hfind] at h
  | some slot =>
    simp only [hfind, Except.ok.injEq] at h
    exact ⟨slot, rfl, h.symm⟩

theorem resolveJump_ok {scopes : Scopes} {r r' : Resolutions} {id : Nat} {jump : LoopJump}
    (h : resolveJump scopes r id jump = .ok r') :
    ∃ target, scopes.nearestLoop? = some target ∧ r' = r.setLoop id target := by
  simp only [resolveJump] at h
  cases hfind : scopes.nearestLoop? with
  | none => simp [hfind] at h
  | some target =>
    simp only [hfind, Except.ok.injEq] at h
    exact ⟨target, rfl, h.symm⟩

end Resolutions

open Resolutions

mutual

/-- Resolving an expression notes slots under the numbers of that expression only. -/
theorem Expr.resolve_extends {scopes : Scopes} {r r' : Resolutions} {n n' : Nat} (e : Expr)
    (hn : e.Numbered n n') (h : e.resolve scopes r = .ok r') : r.Extends r' n n' := by
  cases e with
  | literal v =>
    cases h
    exact Extends.refl r n n'
  | var id name =>
    simp only [Expr.Numbered] at hn
    obtain ⟨rfl, rfl⟩ := hn
    simp only [Expr.resolve] at h
    obtain ⟨slot, -, rfl⟩ := resolveVar_ok h
    exact extends_setSlot r id slot
  | unary op operand =>
    simp only [Expr.Numbered] at hn
    exact Expr.resolve_extends operand hn h
  | binary op left right =>
    simp only [Expr.Numbered] at hn
    obtain ⟨k, hleft, hright⟩ := hn
    simp only [Expr.resolve, bind_eq_ok_iff] at h
    obtain ⟨r₁, h₁, h₂⟩ := h
    have e₁ := Expr.resolve_extends left hleft h₁
    have e₂ := Expr.resolve_extends right hright h₂
    exact e₁.seq e₂ hleft.le hright.le
  | call function args =>
    simp only [Expr.Numbered] at hn
    simp only [Expr.resolve] at h
    split at h
    · cases h
    · split at h
      · exact Expr.resolveAll_extends args hn h
      · cases h

theorem Expr.resolveAll_extends {scopes : Scopes} {r r' : Resolutions} {n n' : Nat}
    (es : List Expr) (hn : Expr.NumberedAll n es n')
    (h : Expr.resolveAll scopes r es = .ok r') : r.Extends r' n n' := by
  cases es with
  | nil =>
    cases h
    exact Extends.refl r n n'
  | cons e rest =>
    simp only [Expr.NumberedAll] at hn
    obtain ⟨k, he, hrest⟩ := hn
    simp only [Expr.resolveAll, bind_eq_ok_iff] at h
    obtain ⟨r₁, h₁, h₂⟩ := h
    have e₁ := Expr.resolve_extends e he h₁
    have e₂ := Expr.resolveAll_extends rest hrest h₂
    exact e₁.seq e₂ he.le hrest.le

end

mutual

/-- Resolving a statement makes notes under the numbers of that statement only. -/
theorem Stmt.resolve_extends {scopes scopes' : Scopes} {r r' : Resolutions} {n n' : Nat}
    (s : Stmt) (hn : s.Numbered n n') (h : s.resolve scopes r = .ok (scopes', r')) :
    r.Extends r' n n' := by
  cases s with
  | declare names =>
    simp only [Stmt.resolve, bind_eq_ok_iff] at h
    obtain ⟨_, -, hdone⟩ := h
    cases hdone
    exact Extends.refl r n n'
  | assign id name value =>
    simp only [Stmt.Numbered] at hn
    obtain ⟨rfl, hvalue⟩ := hn
    simp only [Stmt.resolve, bind_eq_ok_iff] at h
    obtain ⟨r₁, h₁, r₂, h₂, hdone⟩ := h
    cases hdone
    obtain ⟨slot, -, rfl⟩ := resolveVar_ok h₂
    have e₁ := Expr.resolve_extends value hvalue h₁
    have e₂ := extends_setSlot r₁ id slot
    exact (e₁.widen (by omega) (Nat.le_refl n')).trans (e₂.widen (Nat.le_refl id) hvalue.le)
  | ret value =>
    cases value with
    | none =>
      cases h
      exact Extends.refl r n n'
    | some value =>
      simp only [Stmt.Numbered] at hn
      simp only [Stmt.resolve, bind_eq_ok_iff] at h
      obtain ⟨r₁, h₁, hdone⟩ := h
      cases hdone
      exact Expr.resolve_extends value hn h₁
  | leave id =>
    simp only [Stmt.Numbered] at hn
    obtain ⟨rfl, rfl⟩ := hn
    simp only [Stmt.resolve, bind_eq_ok_iff] at h
    obtain ⟨r₁, h₁, hdone⟩ := h
    cases hdone
    obtain ⟨target, -, rfl⟩ := resolveJump_ok h₁
    exact extends_setLoop r id target
  | again id =>
    simp only [Stmt.Numbered] at hn
    obtain ⟨rfl, rfl⟩ := hn
    simp only [Stmt.resolve, bind_eq_ok_iff] at h
    obtain ⟨r₁, h₁, hdone⟩ := h
    cases hdone
    obtain ⟨target, -, rfl⟩ := resolveJump_ok h₁
    exact extends_setLoop r id target
  | branch cond thenBody elseBody =>
    simp only [Stmt.Numbered] at hn
    obtain ⟨k, l, hcond, hthen, helse⟩ := hn
    simp only [Stmt.resolve, bind_eq_ok_iff, Prod.exists] at h
    obtain ⟨r₁, h₁, t, r₂, h₂, u, r₃, h₃, hdone⟩ := h
    cases hdone
    have e₁ := Expr.resolve_extends cond hcond h₁
    have e₂ := Stmt.resolveAll_extends thenBody hthen h₂
    have e₃ := Stmt.resolveAll_extends elseBody helse h₃
    exact (e₁.seq e₂ hcond.le hthen.le).seq e₃ (Nat.le_trans hcond.le hthen.le) helse.le
  | loop id cond body =>
    simp only [Stmt.Numbered] at hn
    obtain ⟨rfl, k, hcond, hbody⟩ := hn
    simp only [Stmt.resolve, bind_eq_ok_iff, Prod.exists] at h
    obtain ⟨r₁, h₁, t, r₂, h₂, hdone⟩ := h
    cases hdone
    have e₁ := Expr.resolve_extends cond hcond h₁
    have e₂ := Stmt.resolveAll_extends body hbody h₂
    exact (e₁.seq e₂ hcond.le hbody.le).widen (Nat.le_succ id) (Nat.le_refl n')
  | eval e =>
    simp only [Stmt.Numbered] at hn
    simp only [Stmt.resolve, bind_eq_ok_iff] at h
    obtain ⟨r₁, h₁, hdone⟩ := h
    cases hdone
    exact Expr.resolve_extends e hn h₁

theorem Stmt.resolveAll_extends {scopes scopes' : Scopes} {r r' : Resolutions} {n n' : Nat}
    (ss : List Stmt) (hn : Stmt.NumberedAll n ss n')
    (h : Stmt.resolveAll scopes r ss = .ok (scopes', r')) : r.Extends r' n n' := by
  cases ss with
  | nil =>
    cases h
    exact Extends.refl r n n'
  | cons s rest =>
    simp only [Stmt.NumberedAll] at hn
    obtain ⟨k, hs, hrest⟩ := hn
    simp only [Stmt.resolveAll, bind_eq_ok_iff, Prod.exists] at h
    obtain ⟨t, r₁, h₁, h₂⟩ := h
    have e₁ := Stmt.resolve_extends s hs h₁
    have e₂ := Stmt.resolveAll_extends rest hrest h₂
    exact e₁.seq e₂ hs.le hrest.le

end

end StackLang

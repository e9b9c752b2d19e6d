import StackLang.Code.Check

/-!
Pieces of code and where they stand. A piece stands in a longer code at a position; a property of
instructions holds all along a piece if it holds of each instruction at its position. The height of
the operand stack before a position is what a scan of all instructions before it computes, jumps
not followed.
-/
namespace StackLang

/-- The piece stands in the code at the position. -/
def CodeAt (code : List Instr) (start : Nat) (piece : List Instr) : Prop :=
  ∃ before after, code = before ++ piece ++ after ∧ before.length = start

namespace CodeAt

variable {code piece left right : List Instr} {start : Nat}

theorem append_left (h : CodeAt code start (left ++ right)) : CodeAt code start left := by
  obtain ⟨before, after, hcode, hstart⟩ := h
  exact ⟨before, right ++ after, by simp [hcode], hstart⟩

theorem append_right (h : CodeAt code start (left ++ right)) :
    CodeAt code (start + left.length) right := by
  obtain ⟨before, after, hcode, hstart⟩ := h
  exact ⟨before ++ left, after, by simp [hcode], by simp [hstart]⟩

theorem get {i : Instr} {rest : List Instr} (h : CodeAt code start (i :: rest)) :
    code[start]? = some i := by
  obtain ⟨before, after, rfl, rfl⟩ := h
  simp

theorem tail {i : Instr} {rest : List Instr} (h : CodeAt code start (i :: rest)) :
    CodeAt code (start + 1) rest := by
  have hcons : i :: rest = [i] ++ rest := rfl
  rw [hcons] at h
  exact h.append_right

theorem length_le (h : CodeAt code start piece) : start + piece.length ≤ code.length := by
  obtain ⟨before, after, rfl, rfl⟩ := h
  simp only [List.length_append]
  omega

theorem take_start (h : CodeAt code start piece) :
    code.take (start + piece.length) = code.take start ++ piece := by
  obtain ⟨before, after, rfl, rfl⟩ := h
  have hsplit : before.length + piece.length = (before ++ piece).length := by simp
  rw [hsplit, List.take_left', List.append_assoc, List.take_left']
  · rfl
  · rfl

end CodeAt

def AllAt (P : Nat → Instr → Prop) : Nat → List Instr → Prop
  | _, [] => True
  | pos, i :: rest => P pos i ∧ AllAt P (pos + 1) rest

namespace AllAt

variable {P : Nat → Instr → Prop}

/-- A property holds along two pieces just if it holds along each of them. -/
theorem append_iff {start : Nat} {left right : List Instr} :
    AllAt P start (left ++ right) ↔
      AllAt P start left ∧ AllAt P (start + left.length) right := by
  induction left generalizing start with
  | nil => simp [AllAt]
  | cons i rest ih =>
    simp only [List.cons_append, AllAt, ih, List.length_cons, and_assoc]
    rw [Nat.add_right_comm start 1, Nat.add_assoc start]

theorem get {start k : Nat} {piece : List Instr} {i : Instr} (h : AllAt P start piece)
    (hi : piece[k]? = some i) : P (start + k) i := by
  induction piece generalizing start k with
  | nil => simp at hi
  | cons first rest ih =>
    obtain ⟨hfirst, hrest⟩ := h
    cases k with
    | zero =>
      simp only [List.getElem?_cons_zero, Option.some.injEq] at hi
      rw [← hi]
      exact hfirst
    | succ k =>
      have hk := ih hrest (by simpa using hi)
      rwa [Nat.add_right_comm, Nat.add_assoc] at hk

theorem imp {Q : Nat → Instr → Prop} {start : Nat} {piece : List Instr} (h : AllAt P start piece)
    (himp : ∀ pos i, P pos i → Q pos i) : AllAt Q start piece := by
  induction piece generalizing start with
  | nil => exact trivial
  | cons i rest ih => exact ⟨himp start i h.1, ih h.2⟩

end AllAt

/-- The height of the stack after a scan of some instructions. -/
def heightAfter (t : Table) (height : Nat) (code : List Instr) : Nat :=
  code.foldl (fun h i => h - i.pops t + i.pushes) height

def heightAt (t : Table) (code : List Instr) (pos : Nat) : Nat := heightAfter t 0 (code.take pos)

section

variable (t : Table)

@[simp]
theorem heightAfter_nil (h : Nat) : heightAfter t h [] = h := rfl

@[simp]
theorem heightAfter_cons (h : Nat) (i : Instr) (rest : List Instr) :
    heightAfter t h (i :: rest) = heightAfter t (h - i.pops t + i.pushes) rest := rfl

@[simp]
theorem heightAfter_append (h : Nat) (left right : List Instr) :
    heightAfter t h (left ++ right) = heightAfter t (heightAfter t h left) right := by
  simp [heightAfter]

@[simp]
theorem heightAt_zero (code : List Instr) : heightAt t code 0 = 0 := rfl

variable {t}

/-- The height behind a piece is what the piece makes of the height in front of it. -/
theorem CodeAt.heightAt_add {code piece : List Instr} {start : Nat} (h : CodeAt code start piece) :
    heightAt t code (start + piece.length) = heightAfter t (heightAt t code start) piece := by
  rw [heightAt, h.take_start, heightAfter_append, heightAt]

theorem heightAt_succ {code : List Instr} {pos : Nat} {i : Instr} (h : code[pos]? = some i) :
    heightAt t code (pos + 1) = heightAt t code pos - i.pops t + i.pushes := by
  rw [heightAt, List.take_add_one, h, heightAfter_append, heightAt]
  rfl

end

end StackLang

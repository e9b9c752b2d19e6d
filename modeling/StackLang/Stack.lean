/-!
Stacks that know their size. The items of a stack, the top one first, are its view.
-/
namespace StackLang

structure Stack (α : Type) where
  items : List α
  size : Nat
  size_eq : size = items.length

namespace Stack

variable {α : Type}

def empty : Stack α := ⟨[], 0, rfl⟩

def push (s : Stack α) (a : α) : Stack α := ⟨a :: s.items, s.size + 1, by simp [s.size_eq]⟩

def pop? (s : Stack α) : Option (α × Stack α) :=
  match s with
  | ⟨[], _, _⟩ => none
  | ⟨a :: rest, n, h⟩ => some (a, ⟨rest, n - 1, by simp [h]⟩)

/-- The given number of items, the top one first, and what is left below them. -/
def popMany? : Nat → Stack α → Option (List α × Stack α)
  | 0, s => some ([], s)
  | n + 1, s =>
    match s.pop? with
    | none => none
    | some (a, s) =>
      match popMany? n s with
      | none => none
      | some (rest, s) => some (a :: rest, s)

theorem ext_items {s t : Stack α} (h : s.items = t.items) : s = t := by
  obtain ⟨xs, n, hn⟩ := s
  obtain ⟨ys, m, hm⟩ := t
  subst h hn hm
  rfl

@[simp]
theorem items_empty : (empty : Stack α).items = [] := rfl

@[simp]
theorem items_push (s : Stack α) (a : α) : (s.push a).items = a :: s.items := rfl

@[simp]
theorem size_push (s : Stack α) (a : α) : (s.push a).size = s.size + 1 := rfl

@[simp]
theorem pop?_push (s : Stack α) (a : α) : (s.push a).pop? = some (a, s) := rfl

theorem pop?_eq_some_iff (s rest : Stack α) (a : α) :
    s.pop? = some (a, rest) ↔ s = rest.push a := by
  constructor
  · intro h
    obtain ⟨xs, n, hn⟩ := s
    cases xs with
    | nil => simp [pop?] at h
    | cons b tail =>
      simp only [pop?, Option.some.injEq, Prod.mk.injEq] at h
      obtain ⟨rfl, rfl⟩ := h
      exact ext_items rfl
  · rintro rfl
    exact pop?_push rest a

end Stack

end StackLang

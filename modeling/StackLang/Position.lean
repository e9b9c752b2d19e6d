/-!
Places in a text, by line and column. Both count from one, a column counts characters, and a line
feed starts the next line.
-/
namespace StackLang

structure Position where
  line : Nat
  col : Nat
  deriving DecidableEq

namespace Position

def start : Position := ⟨1, 1⟩

def next (p : Position) (c : Char) : Position :=
  if c = '\n' then ⟨p.line + 1, 1⟩ else ⟨p.line, p.col + 1⟩

def after (p : Position) (cs : List Char) : Position := cs.foldl next p

def display (p : Position) : String := Nat.repr p.line ++ ":" ++ Nat.repr p.col

@[simp]
theorem after_nil (p : Position) : p.after [] = p := rfl

@[simp]
theorem after_cons (p : Position) (c : Char) (cs : List Char) :
    p.after (c :: cs) = (p.next c).after cs := rfl

theorem after_append (p : Position) (cs ds : List Char) :
    p.after (cs ++ ds) = (p.after cs).after ds := by
  simp [after]

end Position

end StackLang

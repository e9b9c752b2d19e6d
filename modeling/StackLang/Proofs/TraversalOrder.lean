import StackLang.Tree.Numbering

/-!
The numbers of a program, listed in the order in which a reader meets the nodes. One counter runs
through all functions, so the list is that of the numbers from zero on: no node is left out, and no
two share a number. Apart from the numbers the trees stay what they are, and what is numbered
already gets the same numbers again.
-/
namespace StackLang

/-! The numbers in the order of reading, a node before its parts. -/

mutual

def Expr.ids : Expr → List Nat
  | .literal _ => []
  | .var id _ => [id]
  | .unary _ operand => operand.ids
  | .binary _ left right => left.ids ++ right.ids
  | .call _ args => Expr.idsAll args

def Expr.idsAll : List Expr → List Nat
  | [] => []
  | e :: rest => e.ids ++ Expr.idsAll rest

end

mutual

def Stmt.ids : Stmt → List Nat
  | .declare _ => []
  | .assign id _ value => id :: value.ids
  | .ret none => []
  | .ret (some value) => value.ids
  | .leave id => [id]
  | .again id => [id]
  | .branch cond thenBody elseBody => cond.ids ++ Stmt.idsAll thenBody ++ Stmt.idsAll elseBody
  | .loop id cond body => id :: (cond.ids ++ Stmt.idsAll body)
  | .eval e => e.ids

def Stmt.idsAll : List Stmt → List Nat
  | [] => []
  | s :: rest => s.ids ++ Stmt.idsAll rest

end

def FunctionDecl.idsAll (fs : List FunctionDecl) : List Nat :=
  fs.flatMap fun f => Stmt.idsAll f.body

/-! The trees without their numbers. -/

mutual

def Expr.unnumbered : Expr → Expr
  | .literal v => .literal v
  | .var _ name => .var 0 name
  | .unary op operand => .unary op operand.unnumbered
  | .binary op left right => .binary op left.unnumbered right.unnumbered
  | .call f args => .call f (Expr.unnumberedAll args)

def Expr.unnumberedAll : List Expr → List Expr
  | [] => []
  | e :: rest => e.unnumbered :: Expr.unnumberedAll rest

end

mutual

def Stmt.unnumbered : Stmt → Stmt
  | .declare names => .declare names
  | .assign _ name value => .assign 0 name value.unnumbered
  | .ret none => .ret none
  | .ret (some value) => .ret (some value.unnumbered)
  | .leave _ => .leave 0
  | .again _ => .again 0
  | .branch cond thenBody elseBody =>
    .branch cond.unnumbered (Stmt.unnumberedAll thenBody) (Stmt.unnumberedAll elseBody)
  | .loop _ cond body => .loop 0 cond.unnumbered (Stmt.unnumberedAll body)
  | .eval e => .eval e.unnumbered

def Stmt.unnumberedAll : List Stmt → List Stmt
  | [] => []
  | s :: rest => s.unnumbered :: Stmt.unnumberedAll rest

end

def FunctionDecl.unnumbered (f : FunctionDecl) : FunctionDecl :=
  { f with body := Stmt.unnumberedAll f.body }

/-- What numbering a part from `n` on does to its list of numbers: as many as there were, but now
those from `n` up to the next free one. -/
structure CountsUp (n : Nat) (before after : List Nat) (next : Nat) : Prop where
  ids : after = List.range' n before.length
  next : next = n + before.length

namespace CountsUp

variable {n k next : Nat} {before after before' after' : List Nat}

theorem nil (n : Nat) : CountsUp n [] [] n := ⟨rfl, rfl⟩

theorem cons (id : Nat) (h : CountsUp (n + 1) before after next) :
    CountsUp n (id :: before) (n :: after) next where
  ids := by rw [h.ids, List.length_cons, List.range'_succ]
  next := by
    have hnext := h.next
    rw [List.length_cons]
    omega

theorem append (h : CountsUp n before after k) (h' : CountsUp k before' after' next) :
    CountsUp n (before ++ before') (after ++ after') next where
  ids := by rw [h.ids, h'.ids, h.next, List.length_append, List.range'_append_1]
  next := by
    have hk := h.next
    have hnext := h'.next
    rw [List.length_append]
    omega

end CountsUp

mutual

/-- The numbers of an expression count up from where they start. -/
theorem Expr.countsUp (n : Nat) (e : Expr) :
    CountsUp n e.ids (e.number n).1.ids (e.number n).2 := by
  cases e with
  | literal v => exact .nil n
  | var id name => exact .cons id (.nil (n + 1))
  | unary op operand => exact Expr.countsUp n operand
  | binary op left right => exact (Expr.countsUp n left).append (Expr.countsUp _ right)
  | call f args => exact Expr.countsUpAll n args

theorem Expr.countsUpAll (n : Nat) (es : List Expr) :
    CountsUp n (Expr.idsAll es) (Expr.idsAll (Expr.numberAll n es).1) (Expr.numberAll n es).2 := by
  cases es with
  | nil => exact .nil n
  | cons e rest => exact (Expr.countsUp n e).append (Expr.countsUpAll _ rest)

end

mutual

/-- The numbers of a statement count up from where they start. -/
theorem Stmt.countsUp (n : Nat) (s : Stmt) :
    CountsUp n s.ids (s.number n).1.ids (s.number n).2 := by
  cases s with
  | declare names => exact .nil n
  | assign id name value => exact .cons id (Expr.countsUp (n + 1) value)
  | ret value =>
    cases value with
    | none => exact .nil n
    | some value => exact Expr.countsUp n value
  | leave id => exact .cons id (.nil (n + 1))
  | again id => exact .cons id (.nil (n + 1))
  | branch cond thenBody elseBody =>
    exact ((Expr.countsUp n cond).append (Stmt.countsUpAll _ thenBody)).append
      (Stmt.countsUpAll _ elseBody)
  | loop id cond body =>
    exact .cons id ((Expr.countsUp (n + 1) cond).append (Stmt.countsUpAll _ body))
  | eval e => exact Expr.countsUp n e

theorem Stmt.countsUpAll (n : Nat) (ss : List Stmt) :
    CountsUp n (Stmt.idsAll ss) (Stmt.idsAll (Stmt.numberAll n ss).1) (Stmt.numberAll n ss).2 := by
  cases ss with
  | nil => exact .nil n
  | cons s rest => exact (Stmt.countsUp n s).append (Stmt.countsUpAll _ rest)

end

theorem FunctionDecl.countsUpAll (n : Nat) (fs : List FunctionDecl) :
    CountsUp n (FunctionDecl.idsAll fs) (FunctionDecl.idsAll (FunctionDecl.numberAll n fs).1)
      (FunctionDecl.numberAll n fs).2 := by
  induction fs generalizing n with
  | nil => exact .nil n
  | cons f rest ih => exact (Stmt.countsUpAll n f.body).append (ih _)

/-! Numbering changes nothing but the numbers. -/

mutual

theorem Expr.unnumbered_number (n : Nat) (e : Expr) : (e.number n).1.unnumbered = e.unnumbered := by
  cases e with
  | literal v => rfl
  | var id name => rfl
  | unary op operand =>
    simp only [Expr.number, Expr.unnumbered, Expr.unnumbered_number n operand]
  | binary op left right =>
    simp only [Expr.number, Expr.unnumbered, Expr.unnumbered_number _ left,
      Expr.unnumbered_number _ right]
  | call f args => simp only [Expr.number, Expr.unnumbered, Expr.unnumberedAll_numberAll n args]

theorem Expr.unnumberedAll_numberAll (n : Nat) (es : List Expr) :
    Expr.unnumberedAll (Expr.numberAll n es).1 = Expr.unnumberedAll es := by
  cases es with
  | nil => rfl
  | cons e rest =>
    simp only [Expr.numberAll, Expr.unnumberedAll, Expr.unnumbered_number n e,
      Expr.unnumberedAll_numberAll _ rest]

end

mutual

theorem Stmt.unnumbered_number (n : Nat) (s : Stmt) : (s.number n).1.unnumbered = s.unnumbered := by
  cases s with
  | declare names => rfl
  | assign id name value => simp only [Stmt.number, Stmt.unnumbered, Expr.unnumbered_number]
  | ret value =>
    cases value with
    | none => rfl
    | some value => simp only [Stmt.number, Stmt.unnumbered, Expr.unnumbered_number]
  | leave id => rfl
  | again id => rfl
  | branch cond thenBody elseBody =>
    simp only [Stmt.number, Stmt.unnumbered, Expr.unnumbered_number,
      Stmt.unnumberedAll_numberAll _ thenBody, Stmt.unnumberedAll_numberAll _ elseBody]
  | loop id cond body =>
    simp only [Stmt.number, Stmt.unnumbered, Expr.unnumbered_number,
      Stmt.unnumberedAll_numberAll _ body]
  | eval e => simp only [Stmt.number, Stmt.unnumbered, Expr.unnumbered_number]

theorem Stmt.unnumberedAll_numberAll (n : Nat) (ss : List Stmt) :
    Stmt.unnumberedAll (Stmt.numberAll n ss).1 = Stmt.unnumberedAll ss := by
  cases ss with
  | nil => rfl
  | cons s rest =>
    simp only [Stmt.numberAll, Stmt.unnumberedAll, Stmt.unnumbered_number n s,
      Stmt.unnumberedAll_numberAll _ rest]

end

theorem FunctionDecl.map_unnumbered_numberAll (n : Nat) (fs : List FunctionDecl) :
    (FunctionDecl.numberAll n fs).1.map FunctionDecl.unnumbered =
      fs.map FunctionDecl.unnumbered := by
  induction fs generalizing n with
  | nil => rfl
  | cons f rest ih =>
    simp only [FunctionDecl.numberAll, List.map_cons, FunctionDecl.unnumbered,
      Stmt.unnumberedAll_numberAll, ih]

/-! The numbers that stand in a tree before have no influence on those it gets. -/

mutual

theorem Expr.number_unnumbered (n : Nat) (e : Expr) : e.unnumbered.number n = e.number n := by
  cases e with
  | literal v => rfl
  | var id name => rfl
  | unary op operand => simp only [Expr.unnumbered, Expr.number, Expr.number_unnumbered n operand]
  | binary op left right =>
    simp only [Expr.unnumbered, Expr.number, Expr.number_unnumbered n left,
      Expr.number_unnumbered _ right]
  | call f args => simp only [Expr.unnumbered, Expr.number, Expr.numberAll_unnumberedAll n args]

theorem Expr.numberAll_unnumberedAll (n : Nat) (es : List Expr) :
    Expr.numberAll n (Expr.unnumberedAll es) = Expr.numberAll n es := by
  cases es with
  | nil => rfl
  | cons e rest =>
    simp only [Expr.unnumberedAll, Expr.numberAll, Expr.number_unnumbered n e,
      Expr.numberAll_unnumberedAll _ rest]

end

mutual

theorem Stmt.number_unnumbered (n : Nat) (s : Stmt) : s.unnumbered.number n = s.number n := by
  cases s with
  | declare names => rfl
  | assign id name value => simp only [Stmt.unnumbered, Stmt.number, Expr.number_unnumbered]
  | ret value =>
    cases value with
    | none => rfl
    | some value => simp only [Stmt.unnumbered, Stmt.number, Expr.number_unnumbered]
  | leave id => rfl
  | again id => rfl
  | branch cond thenBody elseBody =>
    simp only [Stmt.unnumbered, Stmt.number, Expr.number_unnumbered,
      Stmt.numberAll_unnumberedAll _ thenBody, Stmt.numberAll_unnumberedAll _ elseBody]
  | loop id cond body =>
    simp only [Stmt.unnumbered, Stmt.number, Expr.number_unnumbered,
      Stmt.numberAll_unnumberedAll _ body]
  | eval e => simp only [Stmt.unnumbered, Stmt.number, Expr.number_unnumbered]

theorem Stmt.numberAll_unnumberedAll (n : Nat) (ss : List Stmt) :
    Stmt.numberAll n (Stmt.unnumberedAll ss) = Stmt.numberAll n ss := by
  cases ss with
  | nil => rfl
  | cons s rest =>
    simp only [Stmt.unnumberedAll, Stmt.numberAll, Stmt.number_unnumbered n s,
      Stmt.numberAll_unnumberedAll _ rest]

end

theorem FunctionDecl.numberAll_map_unnumbered (n : Nat) (fs : List FunctionDecl) :
    FunctionDecl.numberAll n (fs.map FunctionDecl.unnumbered) = FunctionDecl.numberAll n fs := by
  induction fs generalizing n with
  | nil => rfl
  | cons f rest ih =>
    simp only [List.map_cons, FunctionDecl.numberAll, FunctionDecl.unnumbered,
      Stmt.numberAll_unnumberedAll, ih]

/-- What is numbered already gets the same numbers again. -/
theorem FunctionDecl.numberAll_numberAll (n : Nat) (fs : List FunctionDecl) :
    FunctionDecl.numberAll n (FunctionDecl.numberAll n fs).1 = FunctionDecl.numberAll n fs := by
  rw [← FunctionDecl.numberAll_map_unnumbered, FunctionDecl.map_unnumbered_numberAll,
    FunctionDecl.numberAll_map_unnumbered]

/-- The numbers of a program are those from zero on, each once, in the order of reading. Nothing
else in the items is changed, and items that are taken from a program make the same one again. -/
theorem Program.ofItems_ids_eq_range (items : List Item) :
    let p := Program.ofItems items
    let fs := items.filterMap Item.function?
    FunctionDecl.idsAll p.functions = List.range (FunctionDecl.idsAll fs).length ∧
    p.globals = items.filterMap Item.globals? ∧
    p.functions.map FunctionDecl.unnumbered = fs.map FunctionDecl.unnumbered ∧
    ∀ items', items'.filterMap Item.globals? = p.globals →
      items'.filterMap Item.function? = p.functions → Program.ofItems items' = p := by
  intro p fs
  have hcounts := FunctionDecl.countsUpAll 0 fs
  refine ⟨?_, rfl, FunctionDecl.map_unnumbered_numberAll 0 fs, ?_⟩
  · rw [List.range_eq_range']
    exact hcounts.ids
  · intro items' hglobals hfunctions
    rw [Program.ofItems, hglobals, hfunctions]
    simp only [p, Program.ofItems, FunctionDecl.numberAll_numberAll]

def searching : FunctionDecl :=
  ⟨"search", ["x"],
    [.branch (.var 9 "x")
      [.loop 9 (.binary .lt (.var 9 "x") (.call "f" [.var 9 "y", .literal .nothing, .var 9 "x"]))
        [.assign 9 "x" (.unary .neg (.var 9 "x")), .leave 9]]
      [.declare ["z"], .again 9],
    .ret (some (.var 9 "x"))]⟩

/-- The program, its functions in front of its variables. -/
theorem Program.ofItems_ids_eq_range_searching :
    let p := Program.ofItems [.function searching, .globals ["y"], .function searching]
    FunctionDecl.idsAll p.functions = List.range 20 ∧ p.globals = [["y"]] ∧
      Program.ofItems (p.functions.map .function ++ [.globals ["y"]]) = p := by
  intro p
  obtain ⟨hids, hglobals, -, hagain⟩ :=
    Program.ofItems_ids_eq_range [.function searching, .globals ["y"], .function searching]
  exact ⟨hids, hglobals, hagain _ rfl rfl⟩

end StackLang

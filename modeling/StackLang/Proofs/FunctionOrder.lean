import StackLang.Proofs.Renumbering

/-!
The order of the functions does not matter. Two lists of items that differ only in the order of
their functions, and in how these stand between the global variables, make two programs of which
both are accepted or none is. The code of each function is the same in both, although all numbers
of its nodes may differ, and the tables list the functions in the order of their items.
-/
namespace StackLang

open Scope OpenScope

/-- The same global variables in the same order and the same functions in any order. -/
structure Item.Reordered (items items' : List Item) : Prop where
  globals : items.filterMap Item.globals? = items'.filterMap Item.globals?
  functions : (items.filterMap Item.function?).Perm (items'.filterMap Item.function?)

namespace FunctionDecl

theorem mem_numberAll {n : Nat} {fs : List FunctionDecl} {g : FunctionDecl}
    (hg : g ∈ (numberAll n fs).1) : ∃ f ∈ fs, ∃ k, g = f.numberFrom k := by
  induction fs generalizing n with
  | nil => cases hg
  | cons f rest ih =>
    rcases List.mem_cons.1 hg with rfl | hrest
    · exact ⟨f, List.mem_cons_self, n, rfl⟩
    · obtain ⟨f', hf', k, hk⟩ := ih hrest
      exact ⟨f', List.mem_cons_of_mem _ hf', k, hk⟩

theorem exists_mem_numberAll {f : FunctionDecl} {fs : List FunctionDecl} (hf : f ∈ fs) (n : Nat) :
    ∃ k, f.numberFrom k ∈ (numberAll n fs).1 := by
  induction fs generalizing n with
  | nil => cases hf
  | cons g rest ih =>
    rcases List.mem_cons.1 hf with rfl | hrest
    · exact ⟨n, List.mem_cons_self⟩
    · obtain ⟨k, hk⟩ := ih hrest (Stmt.numberAll n g.body).2
      exact ⟨k, List.mem_cons_of_mem _ hk⟩

/-- What does not depend on the numbers can be read off the functions as they were. -/
theorem map_numberAll {α : Type} {F G : FunctionDecl → α} (n : Nat) (fs : List FunctionDecl)
    (h : ∀ f ∈ fs, ∀ k, f.numberFrom k ∈ (numberAll n fs).1 → F (f.numberFrom k) = G f) :
    (numberAll n fs).1.map F = fs.map G := by
  induction fs generalizing n with
  | nil => rfl
  | cons f rest ih =>
    rw [numberAll, List.map_cons, List.map_cons]
    congr 1
    · exact h f List.mem_cons_self n List.mem_cons_self
    · apply ih
      intro f' hf' k hk
      exact h f' (List.mem_cons_of_mem _ hf') k (List.mem_cons_of_mem _ hk)

end FunctionDecl

namespace Item.Reordered

variable {items items' : List Item}

theorem symm (h : Reordered items items') : Reordered items' items :=
  ⟨h.globals.symm, h.functions.symm⟩

theorem globalNames_eq (h : Reordered items items') :
    (Program.ofItems items).globalNames = (Program.ofItems items').globalNames := by
  rw [Program.globalNames, Program.globalNames, Program.ofItems, Program.ofItems, h.globals]

/-- Each function of one program stands in the other one under other numbers. -/
theorem exists_numberFrom (h : Reordered items items') {g : FunctionDecl}
    (hg : g ∈ (Program.ofItems items).functions) :
    ∃ (f : FunctionDecl) (k k' : Nat), g = f.numberFrom k ∧
      f.numberFrom k' ∈ (Program.ofItems items').functions := by
  obtain ⟨f, hf, k, hk⟩ := FunctionDecl.mem_numberAll hg
  obtain ⟨k', hk'⟩ := FunctionDecl.exists_mem_numberAll (h.functions.mem_iff.1 hf) 0
  exact ⟨f, k, k', hk, hk'⟩

/-- What can be called does not depend on the order of the items. -/
theorem callable (h : Reordered items items') {name : String} {count : Nat}
    (hcall : (Program.ofItems items).Callable name count) :
    (Program.ofItems items').Callable name count := by
  rcases hcall with hnative | ⟨g, hg, rfl, rfl⟩
  · exact Or.inl hnative
  · obtain ⟨f, k, k', rfl, hf⟩ := h.exists_numberFrom hg
    exact Or.inr ⟨f.numberFrom k', hf, rfl, rfl⟩

theorem agrees (h : Reordered items items') :
    (Program.ofItems items).Agrees (Program.ofItems items') :=
  ⟨h.globalNames_eq, fun _ _ => ⟨h.callable, h.symm.callable⟩⟩

theorem map_name_perm (h : Reordered items items') :
    ((Program.ofItems items).functions.map (·.name)).Perm
      ((Program.ofItems items').functions.map (·.name)) := by
  have hnames : ∀ fs, (FunctionDecl.numberAll 0 fs).1.map (·.name) = fs.map (·.name) :=
    fun fs => FunctionDecl.map_numberAll 0 fs fun _ _ _ _ => rfl
  rw [Program.ofItems, Program.ofItems, hnames, hnames]
  exact h.functions.map _

/-- If one order of the items is well scoped, so is every other. -/
theorem wellScoped (h : Reordered items items') (hscoped : (Program.ofItems items).WellScoped) :
    (Program.ofItems items').WellScoped := by
  refine ⟨h.globalNames_eq ▸ hscoped.globals, h.map_name_perm.nodup_iff.1 hscoped.functions, ?_, ?_⟩
  · intro g hg
    obtain ⟨f, k, k', rfl, hf⟩ := h.symm.exists_numberFrom hg
    exact hscoped.natives (f.numberFrom k') hf
  · intro g hg
    obtain ⟨f, k, k', rfl, hf⟩ := h.symm.exists_numberFrom hg
    -- The rules hold of the function without numbers, and so under those of the other program.
    have hplain := (f.allWithin_numberFrom_iff h.agrees.numberFree k').1 (hscoped.places _ hf)
    exact (f.allWithin_numberFrom_iff (Program.Agrees.refl _).numberFree k).2 hplain

end Item.Reordered

/-- The size of the frame is the largest number of variables that are live at one place, and no
numbers are needed to say so. -/
theorem Program.ofItems_frameSize? {items : List Item} {r : Resolutions}
    (hr : (Program.ofItems items).resolve = .ok r) {f : FunctionDecl} {k : Nat}
    (hf : f.numberFrom k ∈ (Program.ofItems items).functions) :
    ∃ size, r.frameSize? f.name = some size ∧
      ∀ m, size ≤ m ↔ AllWithin (LiveAtMost m) [⟨f.params, none⟩] f.body := by
  obtain ⟨n, hn⟩ := Program.ofItems_numbered items
  obtain ⟨-, hnodup, -, hall⟩ := Program.resolve_eq_ok_iff.1 hr
  obtain ⟨size, hnote, hsize⟩ := FunctionDecl.resolveAll_size rfl hnodup hn hall _ hf
  refine ⟨size, hnote, ?_⟩
  intro m
  rw [hsize, ← f.allWithin_numberFrom_iff (liveAtMost_numberFree m) k]
  rfl

/-- A function has the same code in both programs. -/
theorem Item.Reordered.layout_eq {items items' : List Item} (h : Reordered items items')
    {r r' : Resolutions} (hr : (Program.ofItems items).resolve = .ok r)
    (hr' : (Program.ofItems items').resolve = .ok r') {f : FunctionDecl} {k k' : Nat}
    (hf : f.numberFrom k ∈ (Program.ofItems items).functions)
    (hf' : f.numberFrom k' ∈ (Program.ofItems items').functions) :
    (f.numberFrom k).layout r = (f.numberFrom k').layout r' := by
  have hresolved := (Program.ofItems_numbered items).resolved hr
  have hresolved' := (Program.ofItems_numbered items').resolved hr'
  obtain ⟨size, hnote, hsize⟩ := Program.ofItems_frameSize? hr hf
  obtain ⟨size', hnote', hsize'⟩ := Program.ofItems_frameSize? hr' hf'
  have heq : size = size' := by
    have hle := (hsize size').2 ((hsize' size').1 (Nat.le_refl _))
    have hge := (hsize' size).2 ((hsize size).1 (Nat.le_refl _))
    omega
  apply FunctionDecl.layout_numberFrom h.globalNames_eq (hresolved.function _ hf)
    (hresolved'.function _ hf')
  rw [hnote, hnote', heq]

def Program.entryOf (p : Program) (r : Resolutions) (f : FunctionDecl) : FunctionCode :=
  ((p.find? f.name).getD f).layout r

/-- The code of a function is found by its name, wherever the function stands. -/
theorem Program.Resolved.entryOf_eq {p : Program} {r : Resolutions} (h : p.Resolved r)
    {f : FunctionDecl} {k : Nat} (hf : f.numberFrom k ∈ p.functions) :
    p.entryOf r f = (f.numberFrom k).layout r := by
  have hfind : p.find? f.name = some (f.numberFrom k) := find?_of_nodup h.functions_nodup hf
  rw [Program.entryOf, hfind, Option.getD_some]

/-- The order of the functions decides neither whether a program is accepted nor the code of a
function. It is only the order in which the table lists them. -/
theorem Program.code_of_reordered {items items' : List Item} (h : Item.Reordered items items') :
    ((∃ r, (Program.ofItems items).resolve = .ok r) ↔
      ∃ r', (Program.ofItems items').resolve = .ok r') ∧
    ∀ r r', (Program.ofItems items).resolve = .ok r → (Program.ofItems items').resolve = .ok r' →
      ∃ t t' : Table, (Program.ofItems items).code r = .ok t ∧
        (Program.ofItems items').code r' = .ok t' ∧ t.globalCount = t'.globalCount ∧
        ∃ entry : FunctionDecl → FunctionCode,
          (∀ f ∈ items.filterMap Item.function?, (entry f).name = f.name) ∧
          t.functions = (items.filterMap Item.function?).map entry ∧
          t'.functions = (items'.filterMap Item.function?).map entry := by
  constructor
  · rw [Program.resolve_ok_iff, Program.resolve_ok_iff]
    exact ⟨h.wellScoped, h.symm.wellScoped⟩
  · intro r r' hr hr'
    have hnumbered := Program.ofItems_numbered items
    have hnumbered' := Program.ofItems_numbered items'
    have hresolved := hnumbered.resolved hr
    have hresolved' := hnumbered'.resolved hr'
    refine ⟨_, _, hresolved.code_eq hnumbered, hresolved'.code_eq hnumbered', ?_, ?_⟩
    · rw [Program.layout, Program.layout, hresolved.globalCount, hresolved'.globalCount,
        h.globalNames_eq]
    · refine ⟨(Program.ofItems items).entryOf r, ?_, ?_, ?_⟩
      · intro f hf
        obtain ⟨k, hk⟩ := FunctionDecl.exists_mem_numberAll hf 0
        rw [hresolved.entryOf_eq hk]
        rfl
      · apply FunctionDecl.map_numberAll
        intro f _ k hk
        exact (hresolved.entryOf_eq hk).symm
      · apply FunctionDecl.map_numberAll
        intro f hf k' hk'
        obtain ⟨k, hk⟩ := FunctionDecl.exists_mem_numberAll (h.functions.mem_iff.2 hf) 0
        rw [hresolved.entryOf_eq hk]
        exact (h.layout_eq hr hr' hk hk').symm

def ping : FunctionDecl :=
  ⟨"ping", ["n"],
    [.declare ["i"],
    .loop 0 (.var 0 "n") [.declare ["j"], .assign 0 "j" (.call "pong" [.var 0 "i"]), .leave 0],
    .ret (some (.var 0 "g"))]⟩

def pong : FunctionDecl :=
  ⟨"pong", ["n"], [.assign 0 "h" (.var 0 "n"), .ret (some (.call "ping" [.var 0 "h"]))]⟩

def pingFirst : List Item := [.globals ["g"], .function ping, .globals ["h"], .function pong]

def pongFirst : List Item := [.function pong, .globals ["g"], .globals ["h"], .function ping]

/-- The functions call each other. The loop has number 0 in the first program and number 3 in the
second one. -/
theorem Program.code_of_reordered_pingFirst :
    Item.Reordered pingFirst pongFirst ∧
      ∃ r r' t t', (Program.ofItems pingFirst).resolve = .ok r ∧
        (Program.ofItems pongFirst).resolve = .ok r' ∧
        r.loopOf? 4 = some 0 ∧ r'.loopOf? 7 = some 3 ∧
        (Program.ofItems pingFirst).code r = .ok t ∧ (Program.ofItems pongFirst).code r' = .ok t' ∧
        t.globalCount = t'.globalCount ∧ t'.functions = t.functions.reverse := by
  have hreordered : Item.Reordered pingFirst pongFirst := ⟨rfl, .swap pong ping []⟩
  obtain ⟨r, hr, hloop⟩ : ∃ r, (Program.ofItems pingFirst).resolve = .ok r ∧
      r.loopOf? 4 = some 0 := ⟨_, rfl, rfl⟩
  obtain ⟨r', hr', hloop'⟩ : ∃ r', (Program.ofItems pongFirst).resolve = .ok r' ∧
      r'.loopOf? 7 = some 3 := ⟨_, rfl, rfl⟩
  obtain ⟨t, t', ht, ht', hcount, entry, -, hfunctions, hfunctions'⟩ :=
    (Program.code_of_reordered hreordered).2 r r' hr hr'
  refine ⟨hreordered, r, r', t, t', hr, hr', hloop, hloop', ht, ht', hcount, ?_⟩
  rw [hfunctions, hfunctions']
  rfl

end StackLang

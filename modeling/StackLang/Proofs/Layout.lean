import StackLang.Code.Generate
import StackLang.Proofs.ResolutionWalk

/-!
The code of a resolved program as a plain function of its tree. Generating code can fail, and finds
the labels of a loop by its number among all loops met so far; for a resolved program neither
matters. A statement is laid out between the labels of the loop around it, and what the generator
gives is this layout. Its length is the one known beforehand.
-/
namespace StackLang

open Scope

def Resolutions.slotAt (r : Resolutions) (id : Nat) : Slot := (r.slot? id).getD (.frame 0)

section

variable (r : Resolutions)

mutual

def Expr.layout : Expr → List Instr
  | .literal v => [.push v]
  | .var id _ => [.load (r.slotAt id)]
  | .unary op operand => operand.layout ++ [.unary op]
  | .binary op left right => left.layout ++ right.layout ++ [.binary op]
  | .call function args => Expr.layoutReversed args ++ [callInstr function]

def Expr.layoutReversed : List Expr → List Instr
  | [] => []
  | e :: rest => Expr.layoutReversed rest ++ e.layout

end

mutual

/-- The code of a statement that starts at position `start`, inside the loop with the given
labels. -/
def Stmt.layout (loop : LoopLabels) (start : Nat) : Stmt → List Instr
  | .declare _ => []
  | .assign id _ value => value.layout r ++ [.store (r.slotAt id)]
  | .ret none => [.push .nothing, .ret]
  | .ret (some value) => value.layout r ++ [.ret]
  | .leave _ => [.jump loop.exit]
  | .again _ => [.jump loop.check]
  | .branch cond thenBody elseBody =>
    let elseStart := start + cond.length + 1
    let thenStart := elseStart + Stmt.lengthAll elseBody + 1
    cond.layout r ++ [.jumpIf thenStart] ++ Stmt.layoutAll loop elseStart elseBody ++
      [.jump (thenStart + Stmt.lengthAll thenBody)] ++ Stmt.layoutAll loop thenStart thenBody
  | .loop _ cond body =>
    let check := start + 1 + Stmt.lengthAll body
    let exit := check + cond.length + 1
    [.jump check] ++ Stmt.layoutAll ⟨check, exit⟩ (start + 1) body ++ cond.layout r ++
      [.jumpIf (start + 1)]
  | .eval e => e.layout r ++ [.pop]

def Stmt.layoutAll (loop : LoopLabels) (start : Nat) : List Stmt → List Instr
  | [] => []
  | s :: rest => s.layout loop start ++ Stmt.layoutAll loop (start + s.length) rest

end

/-- The code of a body. No loop is around it, so the labels given there are never used. -/
def FunctionDecl.bodyLayout (f : FunctionDecl) : List Instr := Stmt.layoutAll r ⟨0, 0⟩ 0 f.body

def FunctionDecl.layout (f : FunctionDecl) : FunctionCode where
  name := f.name
  paramCount := f.params.length
  localCount := (r.frameSize? f.name).getD 0
  code := (f.bodyLayout r ++ [Instr.push .nothing, Instr.ret]).toArray

def Program.layout (p : Program) : Table := ⟨r.globalCount, p.functions.map (·.layout r)⟩

mutual

theorem Expr.length_layout (e : Expr) : (e.layout r).length = e.length := by
  cases e with
  | literal v => rfl
  | var id name => rfl
  | unary op operand => simp [Expr.layout, Expr.length, Expr.length_layout operand]
  | binary op left right =>
    simp [Expr.layout, Expr.length, Expr.length_layout left, Expr.length_layout right]
    omega
  | call function args => simp [Expr.layout, Expr.length, Expr.length_layoutReversed args]

theorem Expr.length_layoutReversed (es : List Expr) :
    (Expr.layoutReversed r es).length = Expr.lengthAll es := by
  cases es with
  | nil => rfl
  | cons e rest =>
    simp [Expr.layoutReversed, Expr.lengthAll, Expr.length_layout e,
      Expr.length_layoutReversed rest]
    omega

end

mutual

theorem Stmt.length_layout (loop : LoopLabels) (start : Nat) (s : Stmt) :
    (s.layout r loop start).length = s.length := by
  cases s with
  | declare names => rfl
  | assign id name value => simp [Stmt.layout, Stmt.length, Expr.length_layout]
  | ret value =>
    cases value with
    | none => rfl
    | some value => simp [Stmt.layout, Stmt.length, Expr.length_layout]
  | leave id => rfl
  | again id => rfl
  | branch cond thenBody elseBody =>
    simp [Stmt.layout, Stmt.length, Expr.length_layout, Stmt.length_layoutAll loop _ thenBody,
      Stmt.length_layoutAll loop _ elseBody]
    omega
  | loop id cond body =>
    simp [Stmt.layout, Stmt.length, Expr.length_layout, Stmt.length_layoutAll _ _ body]
    omega
  | eval e => simp [Stmt.layout, Stmt.length, Expr.length_layout]

theorem Stmt.length_layoutAll (loop : LoopLabels) (start : Nat) (ss : List Stmt) :
    (Stmt.layoutAll r loop start ss).length = Stmt.lengthAll ss := by
  cases ss with
  | nil => rfl
  | cons s rest =>
    simp [Stmt.layoutAll, Stmt.lengthAll, Stmt.length_layout loop start s,
      Stmt.length_layoutAll loop _ rest]

end

end

@[simp]
theorem Scopes.nearestLoop?_declareIn (p : Program) (names : List String) (frames : List Scope) :
    (p.scopes (declareIn names frames)).nearestLoop? = (p.scopes frames).nearestLoop? := by
  cases frames with
  | nil => rfl
  | cons scope outer => simp [Scopes.nearestLoop?, Program.scopes, declareIn, List.findSome?_cons]

@[simp]
theorem Scopes.nearestLoop?_block (p : Program) (frames : List Scope) :
    (p.scopes (openIn .block frames)).nearestLoop? = (p.scopes frames).nearestLoop? := by
  simp [Scopes.nearestLoop?, Program.scopes, openIn, Scope.empty]

@[simp]
theorem Scopes.nearestLoop?_loop (p : Program) (id : Nat) (frames : List Scope) :
    (p.scopes (openIn (.loop id) frames)).nearestLoop? = some id := by
  simp [Scopes.nearestLoop?, Program.scopes, openIn, Scope.empty]

section

variable {p : Program} {r : Resolutions} {size : Nat}

theorem Program.Denotes.slot_eq {frames : List Scope} {id : Nat} {name : String}
    (h : p.Denotes r size frames id name) : r.slot id name = .ok (r.slotAt id) := by
  obtain ⟨slot, -, hslot, -⟩ := h
  simp [Resolutions.slot, Resolutions.slotAt, hslot]

mutual

/-- The code that is generated for a resolved expression is its layout. -/
theorem Expr.code_eq {frames : List Scope} (e : Expr) (h : e.Resolved p r size frames) :
    e.code r = .ok (e.layout r) := by
  cases e with
  | literal v => rfl
  | var id name =>
    simp only [Expr.Resolved] at h
    simp [Expr.code, Expr.layout, h.slot_eq]
  | unary op operand =>
    simp only [Expr.Resolved] at h
    simp [Expr.code, Expr.layout, Expr.code_eq operand h]
  | binary op left right =>
    simp only [Expr.Resolved] at h
    simp [Expr.code, Expr.layout, Expr.code_eq left h.1, Expr.code_eq right h.2]
  | call function args =>
    simp only [Expr.Resolved] at h
    simp [Expr.code, Expr.layout, Expr.codeReversed_eq args h.2]

theorem Expr.codeReversed_eq {frames : List Scope} (es : List Expr)
    (h : Expr.ResolvedAll p r size frames es) :
    Expr.codeReversed r es = .ok (Expr.layoutReversed r es) := by
  cases es with
  | nil => rfl
  | cons e rest =>
    simp only [Expr.ResolvedAll] at h
    simp [Expr.codeReversed, Expr.layoutReversed, Expr.code_eq e h.1,
      Expr.codeReversed_eq rest h.2]

end

/-- The labels of the loop around a place can be found by its number, which is below `n`. -/
def Knows (p : Program) (known : Labels) (frames : List Scope) (loop : LoopLabels) (n : Nat) :
    Prop :=
  ∀ target, (p.scopes frames).nearestLoop? = some target →
    target < n ∧ known.lookup target = some loop

theorem Knows.labels_eq {known : Labels} {frames : List Scope} {loop : LoopLabels} {id n : Nat}
    (hk : Knows p known frames loop n) (h : p.JumpsTo r frames id) (jump : LoopJump) :
    r.labels known id jump = .ok loop := by
  obtain ⟨target, hnear, hnoted⟩ := h
  simp [Resolutions.labels, hnoted, (hk target hnear).2]

/-- Loops that were met since do not hide the one around. -/
theorem Knows.later {known known' : Labels} {frames : List Scope} {loop : LoopLabels}
    {n m k : Nat} (hk : Knows p known frames loop n)
    (h : ∀ id, id < m → known'.lookup id = known.lookup id) (hm : n ≤ m) (hnk : n ≤ k) :
    Knows p known' frames loop k := by
  intro target hnear
  obtain ⟨hlt, hlookup⟩ := hk target hnear
  refine ⟨Nat.lt_of_lt_of_le hlt hnk, ?_⟩
  rw [h target (Nat.lt_of_lt_of_le hlt hm)]
  exact hlookup

theorem Knows.block {known : Labels} {frames : List Scope} {loop : LoopLabels} {n : Nat}
    (hk : Knows p known frames loop n) : Knows p known (openIn .block frames) loop n := by
  intro target hnear
  rw [Scopes.nearestLoop?_block] at hnear
  exact hk target hnear

mutual

/-- The code that is generated for a resolved statement is its layout, and no label of an outer loop
is lost over it. -/
theorem Stmt.code_eq {frames : List Scope} {loop : LoopLabels} {known : Labels} {n n' : Nat}
    (start : Nat) (s : Stmt) (hn : s.Numbered n n') (h : s.Resolved p r size frames)
    (hk : Knows p known frames loop n) :
    ∃ known', s.code r start known = .ok (s.layout r loop start, known') ∧
      ∀ id, id < n → known'.lookup id = known.lookup id := by
  cases s with
  | declare names => exact ⟨known, rfl, fun _ _ => rfl⟩
  | assign id name value =>
    simp only [Stmt.Resolved] at h
    refine ⟨known, ?_, fun _ _ => rfl⟩
    simp [Stmt.code, Stmt.layout, Expr.code_eq value h.1, h.2.slot_eq]
  | ret value =>
    refine ⟨known, ?_, fun _ _ => rfl⟩
    cases value with
    | none => rfl
    | some value =>
      simp only [Stmt.Resolved] at h
      simp [Stmt.code, Stmt.layout, Expr.code_eq value h]
  | leave id =>
    simp only [Stmt.Resolved] at h
    refine ⟨known, ?_, fun _ _ => rfl⟩
    simp [Stmt.code, Stmt.layout, hk.labels_eq h]
  | again id =>
    simp only [Stmt.Resolved] at h
    refine ⟨known, ?_, fun _ _ => rfl⟩
    simp [Stmt.code, Stmt.layout, hk.labels_eq h]
  | branch cond thenBody elseBody =>
    simp only [Stmt.Numbered] at hn
    obtain ⟨k, l, hcond, hthen, helse⟩ := hn
    simp only [Stmt.Resolved] at h
    obtain ⟨rcond, rthen, relse⟩ := h
    have hkl := Nat.le_trans hcond.le hthen.le
    have kelse : Knows p known (openIn .block frames) loop l :=
      (hk.later (fun _ _ => rfl) (Nat.le_refl n) hkl).block
    obtain ⟨k₁, e₁, old₁⟩ := Stmt.codeAll_eq (start + cond.length + 1) elseBody helse relse kelse
    have kthen : Knows p k₁ (openIn .block frames) loop k :=
      (hk.later old₁ hkl hcond.le).block
    obtain ⟨k₂, e₂, old₂⟩ := Stmt.codeAll_eq
      (start + cond.length + 1 + Stmt.lengthAll elseBody + 1) thenBody hthen rthen kthen
    refine ⟨k₂, ?_, ?_⟩
    · simp [Stmt.code, Stmt.layout, Expr.code_eq cond rcond, Expr.length_layout,
        Stmt.length_layoutAll, e₁, e₂]
    · intro id hid
      rw [old₂ id (Nat.lt_of_lt_of_le hid hcond.le), old₁ id (Nat.lt_of_lt_of_le hid hkl)]
  | loop id cond body =>
    simp only [Stmt.Numbered] at hn
    obtain ⟨rfl, k, hcond, hbody⟩ := hn
    simp only [Stmt.Resolved] at h
    obtain ⟨rcond, rbody⟩ := h
    let labels : LoopLabels :=
      ⟨start + 1 + Stmt.lengthAll body, start + 1 + Stmt.lengthAll body + cond.length + 1⟩
    have kbody : Knows p ((id, labels) :: known) (openIn (.loop id) frames) labels k := by
      intro target hnear
      rw [Scopes.nearestLoop?_loop] at hnear
      cases hnear
      exact ⟨hcond.le, by simp⟩
    obtain ⟨k₁, e₁, old₁⟩ := Stmt.codeAll_eq (start + 1) body hbody rbody kbody
    refine ⟨k₁, ?_, ?_⟩
    · simp [Stmt.code, Stmt.layout, Expr.code_eq cond rcond, e₁, labels]
    · intro i hi
      have hik : i < k := Nat.lt_trans hi hcond.le
      have hne : (i == id) = false := by simp; omega
      rw [old₁ i hik, List.lookup_cons, hne]
  | eval e =>
    simp only [Stmt.Resolved] at h
    refine ⟨known, ?_, fun _ _ => rfl⟩
    simp [Stmt.code, Stmt.layout, Expr.code_eq e h]

theorem Stmt.codeAll_eq {frames : List Scope} {loop : LoopLabels} {known : Labels} {n n' : Nat}
    (start : Nat) (ss : List Stmt) (hn : Stmt.NumberedAll n ss n')
    (h : Stmt.ResolvedAll p r size frames ss) (hk : Knows p known frames loop n) :
    ∃ known', Stmt.codeAll r start known ss = .ok (Stmt.layoutAll r loop start ss, known') ∧
      ∀ id, id < n → known'.lookup id = known.lookup id := by
  cases ss with
  | nil => exact ⟨known, rfl, fun _ _ => rfl⟩
  | cons s rest =>
    simp only [Stmt.NumberedAll] at hn
    obtain ⟨k, hs, hrest⟩ := hn
    simp only [Stmt.ResolvedAll] at h
    obtain ⟨k₁, e₁, old₁⟩ := Stmt.code_eq start s hs h.1 hk
    have hk₁ : Knows p k₁ (declareIn s.declared frames) loop k := by
      intro target hnear
      rw [Scopes.nearestLoop?_declareIn] at hnear
      exact hk.later old₁ (Nat.le_refl n) hs.le target hnear
    obtain ⟨k₂, e₂, old₂⟩ := Stmt.codeAll_eq (start + s.length) rest hrest h.2 hk₁
    refine ⟨k₂, ?_, ?_⟩
    · simp [Stmt.codeAll, Stmt.layoutAll, Stmt.length_layout, e₁, e₂]
    · intro id hid
      rw [old₂ id (Nat.lt_of_lt_of_le hid hs.le), old₁ id hid]

end

/-- No loop is around a body. -/
theorem FunctionDecl.nearestLoop?_frames (p : Program) (f : FunctionDecl) :
    (p.scopes f.frames).nearestLoop? = none := by
  rw [FunctionDecl.frames, Scopes.nearestLoop?_declareIn]
  rfl

/-- The code that is generated for a resolved function is its layout. -/
theorem FunctionDecl.code_eq {f : FunctionDecl} {n n' : Nat} (h : f.Resolved p r)
    (hn : Stmt.NumberedAll n f.body n') : f.code r = .ok (f.layout r) := by
  obtain ⟨size, hsize, -, hbody⟩ := h
  have hk : Knows p [] f.frames ⟨0, 0⟩ n := by
    intro target hnear
    rw [f.nearestLoop?_frames p] at hnear
    cases hnear
  obtain ⟨known, hcode, -⟩ := Stmt.codeAll_eq 0 f.body hn hbody hk
  have hlength : (Stmt.layoutAll r ⟨0, 0⟩ 0 f.body).length + 2 = f.length := by
    rw [Stmt.length_layoutAll, FunctionDecl.length]
  simp [FunctionDecl.code, FunctionDecl.layout, FunctionDecl.bodyLayout, hsize, hcode, hlength]

theorem FunctionDecl.codeAll_eq {fs : List FunctionDecl} {n n' : Nat}
    (h : ∀ f ∈ fs, f.Resolved p r) (hn : FunctionDecl.NumberedAll n fs n') :
    FunctionDecl.codeAll r fs = .ok (fs.map (·.layout r)) := by
  induction fs generalizing n with
  | nil => rfl
  | cons f rest ih =>
    obtain ⟨k, hbody, hrest⟩ := hn
    have hf := FunctionDecl.code_eq (h f (List.mem_cons_self ..)) hbody
    have hall := ih (fun g hg => h g (List.mem_cons_of_mem f hg)) hrest
    simp [FunctionDecl.codeAll, hf, hall]

/-- Generating code for a resolved program succeeds and gives its layout. -/
theorem Program.Resolved.code_eq (h : p.Resolved r) (hn : p.Numbered) :
    p.code r = .ok (p.layout r) := by
  obtain ⟨n, hn⟩ := hn
  simp [Program.code, Program.layout, FunctionDecl.codeAll_eq h.function hn]

end

/-- What is generated for a program with resolved names is its layout. -/
theorem Program.ofItems_layout {items : List Item} {r : Resolutions} {t : Table}
    (hr : (Program.ofItems items).resolve = .ok r)
    (hc : (Program.ofItems items).code r = .ok t) :
    (Program.ofItems items).Resolved r ∧ t = (Program.ofItems items).layout r := by
  have hnumbered := Program.ofItems_numbered items
  have hresolved := hnumbered.resolved hr
  refine ⟨hresolved, ?_⟩
  rw [hresolved.code_eq hnumbered] at hc
  cases hc
  rfl

/-- Generating code for a program with resolved names does not fail. The table has the functions of
the program in their order, each with its name and the number of its parameters, and the frame of
each has room for these. -/
theorem Program.code_ok_of_resolve {items : List Item} {r : Resolutions}
    (hr : (Program.ofItems items).resolve = .ok r) :
    ∃ t, (Program.ofItems items).code r = .ok t ∧
      t.functions.map (fun f => (f.name, f.paramCount)) =
        (Program.ofItems items).functions.map (fun d => (d.name, d.params.length)) ∧
      ∀ f ∈ t.functions, f.paramCount ≤ f.localCount := by
  have hnumbered := Program.ofItems_numbered items
  have hresolved := hnumbered.resolved hr
  refine ⟨_, hresolved.code_eq hnumbered, ?_, ?_⟩
  · simp [Program.layout, FunctionDecl.layout, Function.comp_def]
  · intro f hf
    obtain ⟨d, hd, rfl⟩ := List.mem_map.1 hf
    obtain ⟨size, hsize, hparams, -⟩ := hresolved.function d hd
    simpa [FunctionDecl.layout, hsize] using hparams

/-- A function that is called before it is declared, and a loop that is left from a branch:
`main() { while (f(1, 2)) { if (TRUE) { break; } } } f(a, b) { decl c; c = a; return c; }`. -/
def forwardCall : List Item :=
  [.function ⟨"main", [],
    [.loop 0 (.call "f" [.literal (.int 1), .literal (.int 2)])
      [.branch (.literal (.bool true)) [.leave 0] []]]⟩,
  .function ⟨"f", ["a", "b"],
    [.declare ["c"], .assign 0 "c" (.var 0 "a"), .ret (some (.var 0 "c"))]⟩]

/-- A call of a function that is declared later, in the condition of a loop that is left at once. -/
theorem Program.code_ok_of_resolve_forwardCall :
    ∃ r t, (Program.ofItems forwardCall).resolve = .ok r ∧
      (Program.ofItems forwardCall).code r = .ok t ∧
      t.functions.map (fun f => (f.name, f.paramCount)) = [("main", 0), ("f", 2)] ∧
      ∀ f ∈ t.functions, f.paramCount ≤ f.localCount := by
  have hresolve : (Program.ofItems forwardCall).resolve = .ok _ := rfl
  obtain ⟨t, hcode, hnames, hframes⟩ := Program.code_ok_of_resolve hresolve
  exact ⟨_, t, hresolve, hcode, hnames, hframes⟩

end StackLang

import Mathlib.Data.List.Forall2
import StackLang.Proofs.CodeLength
import StackLang.Proofs.Segments

/-!
Where the parts of a function stand in the code that is generated for it, whatever the notes on
names say: at the positions that the labels and jumps assume, and no jump leaves its function. The
notes may come from another program; a statement that leaves a loop may then go to any loop met
before it in its function.
-/
namespace StackLang

/-! Where jumps go. -/

def TargetsWithin (bound : Nat) (code : List Instr) : Prop :=
  ∀ i ∈ code, ∀ target, i.jumpTarget? = some target → target ≤ bound

def LabelsWithin (bound : Nat) (known : Labels) : Prop :=
  ∀ entry ∈ known, entry.2.check ≤ bound ∧ entry.2.exit ≤ bound

namespace TargetsWithin

variable {bound : Nat}

theorem nil : TargetsWithin bound [] := by
  intro i hi
  cases hi

theorem append {left right : List Instr} (hleft : TargetsWithin bound left)
    (hright : TargetsWithin bound right) : TargetsWithin bound (left ++ right) := by
  intro i hi
  rcases List.mem_append.1 hi with h | h
  · exact hleft i h
  · exact hright i h

theorem singleton {i : Instr} (h : ∀ target, i.jumpTarget? = some target → target ≤ bound) :
    TargetsWithin bound [i] := by
  intro j hj
  obtain rfl := List.mem_singleton.1 hj
  exact h

theorem plain {i : Instr} (h : i.jumpTarget? = none) : TargetsWithin bound [i] := by
  apply singleton
  intro target htarget
  rw [h] at htarget
  cases htarget

theorem returnNothing : TargetsWithin bound [.push .nothing, .ret] :=
  append (plain rfl : TargetsWithin bound [.push .nothing]) (plain rfl)

end TargetsWithin

section

variable {r : Resolutions} {bound : Nat}

theorem LabelsWithin.labels {known : Labels} {id : Nat} {jump : LoopJump} {labels : LoopLabels}
    (hk : LabelsWithin bound known) (h : r.labels known id jump = .ok labels) :
    labels.check ≤ bound ∧ labels.exit ≤ bound := by
  unfold Resolutions.labels at h
  split at h
  · rename_i found hfound
    cases h
    obtain ⟨target, -, hlookup⟩ := Option.bind_eq_some_iff.1 hfound
    obtain ⟨newer, older, rfl, -⟩ := List.lookup_eq_some_iff.1 hlookup
    exact hk (target, labels) (by simp)
  · cases h

mutual

theorem Expr.code_within {c : List Instr} (e : Expr) (h : e.code r = .ok c) :
    TargetsWithin bound c := by
  cases e with
  | literal v =>
    cases h
    exact .plain rfl
  | var id name =>
    simp only [Expr.code, bind_eq_ok_iff] at h
    obtain ⟨slot, -, hc⟩ := h
    cases hc
    exact .plain rfl
  | unary op operand =>
    simp only [Expr.code, bind_eq_ok_iff] at h
    obtain ⟨c₁, h₁, hc⟩ := h
    cases hc
    exact (Expr.code_within operand h₁).append (.plain rfl)
  | binary op left right =>
    simp only [Expr.code, bind_eq_ok_iff] at h
    obtain ⟨c₁, h₁, c₂, h₂, hc⟩ := h
    cases hc
    exact ((Expr.code_within left h₁).append (Expr.code_within right h₂)).append (.plain rfl)
  | call function args =>
    simp only [Expr.code, bind_eq_ok_iff] at h
    obtain ⟨c₁, h₁, hc⟩ := h
    cases hc
    have hcall : (callInstr function).jumpTarget? = none := by
      unfold callInstr
      split <;> rfl
    exact (Expr.codeReversed_within args h₁).append (.plain hcall)

theorem Expr.codeReversed_within {c : List Instr} (es : List Expr)
    (h : Expr.codeReversed r es = .ok c) : TargetsWithin bound c := by
  cases es with
  | nil =>
    cases h
    exact .nil
  | cons e rest =>
    simp only [Expr.codeReversed, bind_eq_ok_iff] at h
    obtain ⟨c₁, h₁, c₂, h₂, hc⟩ := h
    cases hc
    exact (Expr.codeReversed_within rest h₁).append (Expr.code_within e h₂)

end

mutual

/-- The jumps of a statement go to its own code, right behind it, or to loops met before. -/
theorem Stmt.code_within {start : Nat} {known known' : Labels} {c : List Instr} (s : Stmt)
    (h : s.code r start known = .ok (c, known')) (hend : start + s.length ≤ bound)
    (hk : LabelsWithin bound known) : TargetsWithin bound c ∧ LabelsWithin bound known' := by
  cases s with
  | declare names =>
    cases h
    exact ⟨.nil, hk⟩
  | assign id name value =>
    simp only [Stmt.code, bind_eq_ok_iff] at h
    obtain ⟨c₁, h₁, slot, -, hc⟩ := h
    cases hc
    exact ⟨(Expr.code_within value h₁).append (.plain rfl), hk⟩
  | ret value =>
    cases value with
    | none =>
      cases h
      exact ⟨.returnNothing, hk⟩
    | some value =>
      simp only [Stmt.code, bind_eq_ok_iff] at h
      obtain ⟨c₁, h₁, hc⟩ := h
      cases hc
      exact ⟨(Expr.code_within value h₁).append (.plain rfl), hk⟩
  | leave id =>
    simp only [Stmt.code, bind_eq_ok_iff] at h
    obtain ⟨labels, hlabels, hc⟩ := h
    cases hc
    refine ⟨.singleton ?_, hk⟩
    intro target htarget
    cases htarget
    exact (hk.labels hlabels).2
  | again id =>
    simp only [Stmt.code, bind_eq_ok_iff] at h
    obtain ⟨labels, hlabels, hc⟩ := h
    cases hc
    refine ⟨.singleton ?_, hk⟩
    intro target htarget
    cases htarget
    exact (hk.labels hlabels).1
  | branch cond thenBody elseBody =>
    simp only [Stmt.code, bind_eq_ok_iff, Prod.exists] at h
    obtain ⟨c₁, h₁, c₂, k₂, h₂, c₃, k₃, h₃, hc⟩ := h
    cases hc
    simp only [Stmt.length] at hend
    have hlength := Expr.length_code cond h₁
    have hlength₂ := Stmt.length_codeAll elseBody h₂
    obtain ⟨helse, hk₂⟩ := Stmt.codeAll_within elseBody h₂ (by omega) hk
    obtain ⟨hthen, hk₃⟩ := Stmt.codeAll_within thenBody h₃ (by omega) hk₂
    refine ⟨(((Expr.code_within cond h₁).append (.singleton ?_)).append helse).append
      (.singleton ?_) |>.append hthen, hk₃⟩
    · intro target htarget
      cases htarget
      omega
    · intro target htarget
      cases htarget
      omega
  | loop id cond body =>
    simp only [Stmt.code, bind_eq_ok_iff, Prod.exists] at h
    obtain ⟨c₁, k₁, h₁, c₂, h₂, hc⟩ := h
    cases hc
    simp only [Stmt.length] at hend
    have hinner : LabelsWithin bound ((id, ⟨start + 1 + Stmt.lengthAll body,
        start + 1 + Stmt.lengthAll body + cond.length + 1⟩) :: known) := by
      intro entry hentry
      rcases List.mem_cons.1 hentry with rfl | hold
      · exact ⟨by dsimp only; omega, by dsimp only; omega⟩
      · exact hk entry hold
    obtain ⟨hbody, hk₁⟩ := Stmt.codeAll_within body h₁ (by omega) hinner
    refine ⟨((TargetsWithin.singleton ?_).append hbody |>.append
      (Expr.code_within cond h₂)).append (.singleton ?_), hk₁⟩
    · intro target htarget
      cases htarget
      omega
    · intro target htarget
      cases htarget
      omega
  | eval e =>
    simp only [Stmt.code, bind_eq_ok_iff] at h
    obtain ⟨c₁, h₁, hc⟩ := h
    cases hc
    exact ⟨(Expr.code_within e h₁).append (.plain rfl), hk⟩

theorem Stmt.codeAll_within {start : Nat} {known known' : Labels} {c : List Instr}
    (ss : List Stmt) (h : Stmt.codeAll r start known ss = .ok (c, known'))
    (hend : start + Stmt.lengthAll ss ≤ bound) (hk : LabelsWithin bound known) :
    TargetsWithin bound c ∧ LabelsWithin bound known' := by
  cases ss with
  | nil =>
    cases h
    exact ⟨.nil, hk⟩
  | cons s rest =>
    simp only [Stmt.codeAll, bind_eq_ok_iff, Prod.exists] at h
    obtain ⟨c₁, k₁, h₁, c₂, k₂, h₂, hc⟩ := h
    cases hc
    simp only [Stmt.lengthAll] at hend
    have hlength := Stmt.length_code s h₁
    obtain ⟨hfirst, hk₁⟩ := Stmt.code_within s h₁ (by omega) hk
    obtain ⟨hrest, hk₂⟩ := Stmt.codeAll_within rest h₂ (by omega) hk₁
    exact ⟨hfirst.append hrest, hk₂⟩

end

end

/-! Where the parts of a function stand. -/

/-- The blocks of a function, that is its body and the bodies of its branches and loops, each with
the position that the lengths before it give. -/
inductive FunctionDecl.HasBlock (d : FunctionDecl) : Nat → List Stmt → Prop
  | body : d.HasBlock 0 d.body
  | thenBody {start : Nat} {before after thenBody elseBody : List Stmt} {cond : Expr} :
    d.HasBlock start (before ++ .branch cond thenBody elseBody :: after) →
      d.HasBlock (start + Stmt.lengthAll before + cond.length + 1 + Stmt.lengthAll elseBody + 1)
        thenBody
  | elseBody {start : Nat} {before after thenBody elseBody : List Stmt} {cond : Expr} :
    d.HasBlock start (before ++ .branch cond thenBody elseBody :: after) →
      d.HasBlock (start + Stmt.lengthAll before + cond.length + 1) elseBody
  | loopBody {start id : Nat} {before after body : List Stmt} {cond : Expr} :
    d.HasBlock start (before ++ .loop id cond body :: after) →
      d.HasBlock (start + Stmt.lengthAll before + 1) body

def EmittedExpr (r : Resolutions) (code : List Instr) (pos : Nat) (e : Expr) : Prop :=
  ∃ c, e.code r = .ok c ∧ CodeAt code pos c

def EmittedWith (r : Resolutions) (code : List Instr) (known : Labels) (pos : Nat)
    (ss : List Stmt) : Prop :=
  ∃ c known', Stmt.codeAll r pos known ss = .ok (c, known') ∧ CodeAt code pos c

def EmittedBlock (r : Resolutions) (code : List Instr) (pos : Nat) (ss : List Stmt) : Prop :=
  ∃ known, EmittedWith r code known pos ss

structure BranchEmitted (r : Resolutions) (code : List Instr) (pos : Nat) (cond : Expr)
    (thenBody elseBody after : List Stmt) (thenStart exit : Nat) : Prop where
  then_eq : thenStart = pos + cond.length + 1 + Stmt.lengthAll elseBody + 1
  exit_eq : exit = thenStart + Stmt.lengthAll thenBody
  condCode : EmittedExpr r code pos cond
  test : CodeAt code (pos + cond.length) [.jumpIf thenStart]
  elseCode : EmittedBlock r code (pos + cond.length + 1) elseBody
  skip : CodeAt code (pos + cond.length + 1 + Stmt.lengthAll elseBody) [.jump exit]
  thenCode : EmittedBlock r code thenStart thenBody
  next : EmittedBlock r code exit after

structure LoopEmitted (r : Resolutions) (code : List Instr) (pos id : Nat) (cond : Expr)
    (body after : List Stmt) (labels : LoopLabels) : Prop where
  check_eq : labels.check = pos + 1 + Stmt.lengthAll body
  exit_eq : labels.exit = labels.check + cond.length + 1
  enter : CodeAt code pos [.jump labels.check]
  bodyCode : ∃ known, EmittedWith r code ((id, labels) :: known) (pos + 1) body
  condCode : EmittedExpr r code labels.check cond
  back : CodeAt code (labels.check + cond.length) [.jumpIf (pos + 1)]
  next : EmittedBlock r code labels.exit after

namespace EmittedBlock

variable {r : Resolutions} {code : List Instr} {start : Nat} {before after : List Stmt}

/-- A statement inside a block, and what follows it there. -/
theorem stmt {s : Stmt} (h : EmittedBlock r code start (before ++ s :: after)) :
    (∃ known c known', s.code r (start + Stmt.lengthAll before) known = .ok (c, known') ∧
      CodeAt code (start + Stmt.lengthAll before) c) ∧
      EmittedBlock r code (start + Stmt.lengthAll before + s.length) after := by
  obtain ⟨known, c, known', hcode, hat⟩ := h
  obtain ⟨c₁, k₁, c₂, h₁, h₂, rfl⟩ := Stmt.codeAll_append_ok hcode
  simp only [Stmt.codeAll, bind_eq_ok_iff, Prod.exists] at h₂
  obtain ⟨c₃, k₃, h₃, c₄, k₄, h₄, hc⟩ := h₂
  cases hc
  rw [Stmt.length_codeAll before h₁] at h₃ h₄
  have hrest := hat.append_right
  rw [Stmt.length_codeAll before h₁] at hrest
  have hafter := hrest.append_right
  rw [Stmt.length_code s h₃] at h₄ hafter
  exact ⟨⟨k₁, c₃, k₃, h₃, hrest.append_left⟩, k₃, c₄, _, h₄, hafter⟩

/-- The code of a branch, wherever it stands in a block. -/
theorem branch {cond : Expr} {thenBody elseBody : List Stmt}
    (h : EmittedBlock r code start (before ++ .branch cond thenBody elseBody :: after)) :
    ∃ thenStart exit, BranchEmitted r code (start + Stmt.lengthAll before) cond thenBody elseBody
      after thenStart exit := by
  obtain ⟨⟨known, c, known', hcode, hat⟩, hnext⟩ := h.stmt
  simp only [Stmt.code, bind_eq_ok_iff, Prod.exists] at hcode
  obtain ⟨c₁, h₁, c₂, k₂, h₂, c₃, k₃, h₃, hc⟩ := hcode
  cases hc
  have hcond := Expr.length_code cond h₁
  have helse := Stmt.length_codeAll elseBody h₂
  rw [hcond] at h₂ h₃
  rw [helse] at h₃
  have htest := hat.append_left.append_left.append_left.append_right
  have helseAt := hat.append_left.append_left.append_right
  have hskip := hat.append_left.append_right
  have hthenAt := hat.append_right
  simp only [List.length_append, List.length_singleton, hcond, helse, ← Nat.add_assoc]
    at htest helseAt hskip hthenAt
  refine ⟨_, _, rfl, rfl, ⟨c₁, h₁, hat.append_left.append_left.append_left.append_left⟩, htest,
    ⟨known, c₂, k₂, h₂, helseAt⟩, hskip, ⟨k₂, c₃, _, h₃, hthenAt⟩, ?_⟩
  have hexit : start + Stmt.lengthAll before + cond.length + 1 + Stmt.lengthAll elseBody + 1 +
      Stmt.lengthAll thenBody =
        start + Stmt.lengthAll before + (Stmt.branch cond thenBody elseBody).length := by
    simp only [Stmt.length]
    omega
  rw [hexit]
  exact hnext

/-- The code of a loop, wherever it stands in a block. -/
theorem loop {id : Nat} {cond : Expr} {body : List Stmt}
    (h : EmittedBlock r code start (before ++ .loop id cond body :: after)) :
    ∃ labels, LoopEmitted r code (start + Stmt.lengthAll before) id cond body after labels := by
  obtain ⟨⟨known, c, known', hcode, hat⟩, hnext⟩ := h.stmt
  simp only [Stmt.code, bind_eq_ok_iff, Prod.exists] at hcode
  obtain ⟨c₁, k₁, h₁, c₂, h₂, hc⟩ := hcode
  cases hc
  have hbody := Stmt.length_codeAll body h₁
  have hcond := Expr.length_code cond h₂
  have hbodyAt := hat.append_left.append_left.append_right
  have hcondAt := hat.append_left.append_right
  have hback := hat.append_right
  simp only [List.length_append, List.length_singleton, hbody, hcond, ← Nat.add_assoc]
    at hbodyAt hcondAt hback
  refine ⟨⟨_, _⟩, rfl, rfl, hat.append_left.append_left.append_left, ⟨known, c₁, _, h₁, hbodyAt⟩,
    ⟨c₂, h₂, hcondAt⟩, hback, ?_⟩
  have hexit : start + Stmt.lengthAll before + 1 + Stmt.lengthAll body + cond.length + 1 =
      start + Stmt.lengthAll before + (Stmt.loop id cond body).length := by
    simp only [Stmt.length]
    omega
  dsimp only
  rw [hexit]
  exact hnext

end EmittedBlock

/-- If the code of the body stands at the start, that of every block stands at its position. -/
theorem FunctionDecl.HasBlock.emitted {d : FunctionDecl} {r : Resolutions} {code : List Instr}
    {start : Nat} {ss : List Stmt} (h : d.HasBlock start ss)
    (hbody : EmittedBlock r code 0 d.body) : EmittedBlock r code start ss := by
  induction h with
  | body => exact hbody
  | thenBody _ ih =>
    obtain ⟨thenStart, exit, b⟩ := ih.branch
    have hthen := b.thenCode
    rwa [b.then_eq] at hthen
  | elseBody _ ih =>
    obtain ⟨thenStart, exit, b⟩ := ih.branch
    exact b.elseCode
  | loopBody _ ih =>
    obtain ⟨labels, b⟩ := ih.loop
    obtain ⟨known, hcode⟩ := b.bodyCode
    exact ⟨_, hcode⟩

/-- The code of a function has the length known beforehand, its jumps stay inside, and each part of
its tree stands where the labels say. -/
structure FunctionDecl.Emitted (r : Resolutions) (d : FunctionDecl) (f : FunctionCode) : Prop where
  size : f.code.size = d.length
  targets : ∀ i ∈ f.code.toList, ∀ target, i.jumpTarget? = some target → target < f.code.size
  blocks : ∀ start ss, d.HasBlock start ss → EmittedBlock r f.code.toList start ss
  branches : ∀ start before cond thenBody elseBody after,
    d.HasBlock start (before ++ .branch cond thenBody elseBody :: after) →
      ∃ thenStart exit, BranchEmitted r f.code.toList (start + Stmt.lengthAll before) cond thenBody
        elseBody after thenStart exit
  loops : ∀ start before id cond body after,
    d.HasBlock start (before ++ .loop id cond body :: after) →
      ∃ labels,
        LoopEmitted r f.code.toList (start + Stmt.lengthAll before) id cond body after labels

/-- The code that is generated for a function has its parts where its labels say they are. -/
theorem FunctionDecl.emitted_of_code {r : Resolutions} {d : FunctionDecl} {f : FunctionCode}
    (h : d.code r = .ok f) : d.Emitted r f := by
  obtain ⟨size, body, known, -, hbody, rfl⟩ := FunctionDecl.code_ok h
  have hlength := Stmt.length_codeAll d.body hbody
  have hstands : EmittedBlock r (body ++ [.push .nothing, .ret]) 0 d.body :=
    ⟨[], body, known, hbody, [], [.push .nothing, .ret], by simp, rfl⟩
  have hsize : (body ++ [Instr.push .nothing, Instr.ret]).toArray.size = d.length := by
    simp [FunctionDecl.length, hlength]
  have hblocks : ∀ start ss, d.HasBlock start ss →
      EmittedBlock r (body ++ [.push .nothing, .ret]) start ss :=
    fun _ _ hblock => hblock.emitted hstands
  refine ⟨hsize, ?_, hblocks, ?_, ?_⟩
  · intro i hi target htarget
    have hbound : 0 + Stmt.lengthAll d.body ≤ Stmt.lengthAll d.body := by omega
    have hwithin := (Stmt.codeAll_within d.body hbody hbound (by intro entry h; cases h)).1
    have hle := hwithin.append .returnNothing i hi target htarget
    rw [hsize, FunctionDecl.length]
    omega
  · intro start before cond thenBody elseBody after hblock
    exact (hblocks _ _ hblock).branch
  · intro start before id cond body after hblock
    exact (hblocks _ _ hblock).loop

theorem FunctionDecl.emitted_of_codeAll {r : Resolutions} {ds : List FunctionDecl}
    {fs : List FunctionCode} (h : FunctionDecl.codeAll r ds = .ok fs) :
    List.Forall₂ (FunctionDecl.Emitted r) ds fs := by
  induction ds generalizing fs with
  | nil =>
    cases h
    exact .nil
  | cons d rest ih =>
    simp only [FunctionDecl.codeAll, bind_eq_ok_iff] at h
    obtain ⟨f, hf, fs', hrest, hdone⟩ := h
    cases hdone
    exact .cons (FunctionDecl.emitted_of_code hf) (ih hrest)

theorem FunctionDecl.codeAll_onlyUnresolved (r : Resolutions) (ds : List FunctionDecl) :
    OnlyUnresolved (FunctionDecl.codeAll r ds) := by
  induction ds with
  | nil => exact .ok _
  | cons d rest ih =>
    rw [FunctionDecl.codeAll]
    exact (d.code_onlyUnresolved r).bind fun _ => ih.bind fun _ => .ok _

/-- Whatever the notes say, the lengths never disagree. Code that is generated, from any position
and with any loops known, has the length known beforehand; the code of a block is that of its first
statements, unchanged, and that of the others, which start where the first ones end. So a function
that gets code gets as many instructions as its length says, none of its jumps goes beyond them, and
the conditions and bodies of its branches and loops, and what follows these, stand where the jumps
and labels say. -/
theorem Program.code_as_long_as_known (p : Program) (r : Resolutions) :
    (∀ name expected emitted, p.code r ≠ .error (.lengthMismatch name expected emitted)) ∧
      (∀ e c, Expr.code r e = .ok c → c.length = e.length) ∧
      (∀ s start known c known', Stmt.code r start known s = .ok (c, known') →
        c.length = s.length) ∧
      (∀ before after start known c known',
        Stmt.codeAll r start known (before ++ after) = .ok (c, known') →
        c.length = Stmt.lengthAll (before ++ after) ∧
          ∃ c₁ known₁ c₂, Stmt.codeAll r start known before = .ok (c₁, known₁) ∧
            Stmt.codeAll r (start + c₁.length) known₁ after = .ok (c₂, known') ∧ c = c₁ ++ c₂) ∧
      ∀ t, p.code r = .ok t → List.Forall₂ (FunctionDecl.Emitted r) p.functions t.functions := by
  refine ⟨?_, fun e _ => e.length_code, fun s _ _ _ _ => s.length_code, ?_, ?_⟩
  · intro name expected emitted h
    have honly : OnlyUnresolved (p.code r) :=
      (FunctionDecl.codeAll_onlyUnresolved r p.functions).bind fun _ => .ok _
    obtain ⟨unresolved, herror⟩ := honly _ h
    cases herror
  · intro before after start known c known' h
    exact ⟨Stmt.length_codeAll _ h, Stmt.codeAll_append_ok h⟩
  · intro t h
    simp only [Program.code, bind_eq_ok_iff] at h
    obtain ⟨fs, hfs, hdone⟩ := h
    cases hdone
    exact FunctionDecl.emitted_of_codeAll hfs

/-- Two loops, one after the other: `main() { while (FALSE) { } while (TRUE) { break; } }`. -/
def loopPair : List Item :=
  [.function ⟨"main", [],
    [.loop 0 (.literal (.bool false)) [], .loop 0 (.literal (.bool true)) [.leave 0]]⟩]

/-- Notes of another program, by which the statement in the second loop leaves the first one. -/
def strangeNotes : Resolutions := ((Resolutions.empty 0).setLoop 2 0).setFrameSize "main" 0

/-- With these notes the second loop goes back behind the first one, to its own start at position 3.
Its parts still stand where its labels say: the condition at position 5, what follows at 7. -/
theorem Program.code_as_long_as_known_strangeNotes :
    ∃ t f, (Program.ofItems loopPair).code strangeNotes = .ok t ∧ t.functions = [f] ∧
      f.code.size = 9 ∧ f.code.toList[4]? = some (.jump 3) ∧ 3 < f.code.size ∧
      ∃ labels, LoopEmitted strangeNotes f.code.toList 3 1 (.literal (.bool true)) [.leave 2] []
        labels ∧ labels.check = 5 ∧ labels.exit = 7 := by
  refine ⟨_, _, rfl, rfl, rfl, rfl, ?_, ?_⟩
  all_goals
    obtain ⟨-, -, -, -, htable⟩ :=
      Program.code_as_long_as_known (Program.ofItems loopPair) strangeNotes
    obtain ⟨hemitted, -⟩ := List.forall₂_cons.1 (htable _ rfl)
  · exact hemitted.targets (.jump 3) (List.mem_of_getElem? (i := 4) rfl) 3 rfl
  · obtain ⟨labels, hloop⟩ := hemitted.loops 0 [.loop 0 (.literal (.bool false)) []] 1 _ _ []
      .body
    exact ⟨labels, hloop, hloop.check_eq, by rw [hloop.exit_eq, hloop.check_eq]; rfl⟩

end StackLang

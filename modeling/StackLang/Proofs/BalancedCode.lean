import StackLang.Proofs.CheckedCode
import StackLang.Proofs.Heights

/-!
The code of a resolved program is balanced, instruction by instruction, and so passes the check that
a machine makes before it runs. Statements begin where the stack holds no value of the function.
-/
namespace StackLang

open Scope

section

variable {p : Program} {r : Resolutions} {f : FunctionCode} {frames : List Scope} {start : Nat}

theorem Program.Denotes.slotAt_fits {size id : Nat} {name : String}
    (h : p.Denotes r size frames id name) :
    (r.slotAt id).Fits size (p.layout r).globalCount := by
  obtain ⟨slot, -, hslot, hfits⟩ := h
  simpa [Resolutions.slotAt, hslot, Program.layout] using hfits

mutual

/-- Each instruction in the code of a resolved expression finds its operands and its values. -/
theorem Expr.balanced {start : Nat} (e : Expr) (he : e.Resolved p r f.localCount frames)
    (hc : CodeAt f.code.toList start (e.layout r)) :
    AllAt (Instr.Balanced (p.layout r) f) start (e.layout r) := by
  cases e with
  | literal v => exact ⟨.of_plain rfl (Nat.zero_le _) rfl (by simp), trivial⟩
  | var id name =>
    simp only [Expr.Resolved] at he
    have hfits := Instr.load_operand_iff.2 he.slotAt_fits
    exact ⟨.of_plain hfits (Nat.zero_le _) rfl (by simp), trivial⟩
  | unary op operand =>
    simp only [Expr.Resolved] at he
    obtain ⟨hoperand, -⟩ := hc.unary
    have hheight := hoperand.heightAt_expr he
    rw [Expr.layout, AllAt.append_iff, Expr.length_layout]
    refine ⟨Expr.balanced operand he hoperand, .of_plain rfl ?_ rfl (by simp), trivial⟩
    simp only [Instr.pops]
    omega
  | binary op left right =>
    simp only [Expr.Resolved] at he
    obtain ⟨hleft, hright, -⟩ := hc.binary
    have h₁ := hleft.heightAt_expr he.1
    have h₂ := hright.heightAt_expr he.2
    rw [Expr.layout, AllAt.append_iff, AllAt.append_iff, List.length_append, Expr.length_layout,
      Expr.length_layout, ← Nat.add_assoc]
    refine ⟨⟨Expr.balanced left he.1 hleft, Expr.balanced right he.2 hright⟩,
      .of_plain rfl ?_ rfl (by simp), trivial⟩
    simp only [Instr.pops]
    omega
  | call function args =>
    simp only [Expr.Resolved] at he
    obtain ⟨hargs, -⟩ := hc.call
    have hheight := hargs.heightAt_args he.2
    obtain ⟨hpops, -, hoperand, hjump, hret⟩ := callInstr_of_arity? r f he.1
    rw [Expr.layout, AllAt.append_iff, Expr.length_layoutReversed]
    refine ⟨Expr.balancedReversed args he.2 hargs, .of_plain hoperand ?_ hjump hret, trivial⟩
    omega

theorem Expr.balancedReversed {start : Nat} (es : List Expr)
    (hes : Expr.ResolvedAll p r f.localCount frames es)
    (hc : CodeAt f.code.toList start (Expr.layoutReversed r es)) :
    AllAt (Instr.Balanced (p.layout r) f) start (Expr.layoutReversed r es) := by
  cases es with
  | nil => exact trivial
  | cons e rest =>
    simp only [Expr.ResolvedAll] at hes
    obtain ⟨hrest, hfirst⟩ := hc.args_cons
    rw [Expr.layoutReversed, AllAt.append_iff, Expr.length_layoutReversed]
    exact ⟨Expr.balancedReversed rest hes.2 hrest, Expr.balanced e hes.1 hfirst⟩

end

/-- A value, then an instruction that takes it and is no jump. -/
theorem Expr.balanced_then {value : Expr} {i : Instr}
    (hvalue : value.Resolved p r f.localCount frames)
    (hc : CodeAt f.code.toList start (value.layout r ++ [i]))
    (hi : heightAt (p.layout r) f.code.toList (start + value.length) =
        heightAt (p.layout r) f.code.toList start + 1 →
      i.Balanced (p.layout r) f (start + value.length)) :
    AllAt (Instr.Balanced (p.layout r) f) start (value.layout r ++ [i]) := by
  rw [AllAt.append_iff, Expr.length_layout]
  exact ⟨Expr.balanced value hvalue hc.value_then.1,
    hi (hc.value_then.1.heightAt_expr hvalue), trivial⟩

def LabelsLand (p : Program) (r : Resolutions) (f : FunctionCode) (frames : List Scope)
    (loop : LoopLabels) : Prop :=
  (p.scopes frames).nearestLoop? ≠ none →
    f.Lands (p.layout r) loop.check ∧ f.Lands (p.layout r) loop.exit

theorem CodeAt.balanced_jump {target : Nat} (hc : CodeAt f.code.toList start [.jump target])
    (h0 : heightAt (p.layout r) f.code.toList start = 0) (htarget : f.Lands (p.layout r) target) :
    (Instr.jump target).Balanced (p.layout r) f start := by
  refine .of_jump (Or.inl rfl) htarget (Nat.zero_le _) ?_
  rw [heightAt_succ hc.get, h0]
  rfl

theorem CodeAt.balanced_jumpIf {target : Nat} (hc : CodeAt f.code.toList start [.jumpIf target])
    (h1 : heightAt (p.layout r) f.code.toList start = 1) (htarget : f.Lands (p.layout r) target) :
    (Instr.jumpIf target).Balanced (p.layout r) f start := by
  refine .of_jump (Or.inr rfl) htarget ?_ ?_
  · simp only [Instr.pops]
    omega
  · rw [heightAt_succ hc.get, h1]
    rfl

mutual

/-- Each instruction in the code of a resolved statement finds its operands and its values, if the
statement starts with none on the stack and the jumps out of it land where there is none. -/
theorem Stmt.balanced {frames : List Scope} {loop : LoopLabels} {start : Nat} (s : Stmt)
    (hs : s.Resolved p r f.localCount frames)
    (hc : CodeAt f.code.toList start (s.layout r loop start))
    (h0 : heightAt (p.layout r) f.code.toList start = 0)
    (hend : start + s.length < f.code.toList.length) (hloop : LabelsLand p r f frames loop) :
    AllAt (Instr.Balanced (p.layout r) f) start (s.layout r loop start) := by
  cases s with
  | declare names => exact trivial
  | assign id name value =>
    simp only [Stmt.Resolved] at hs
    rw [Stmt.layout] at hc ⊢
    refine Expr.balanced_then hs.1 hc fun hheight => ?_
    refine .of_plain (Instr.store_operand_iff.2 hs.2.slotAt_fits) ?_ rfl (by simp)
    simp only [Instr.pops]
    omega
  | ret value =>
    cases value with
    | none =>
      rw [Stmt.layout] at hc ⊢
      have h1 := heightAt_succ (t := p.layout r) hc.get
      rw [h0] at h1
      refine ⟨.of_plain rfl (Nat.zero_le _) rfl (by simp), ⟨rfl, ?_, by simp [Instr.jumpTarget?],
        fun _ => h1⟩, trivial⟩
      rw [h1]
      exact Nat.le_refl 1
    | some value =>
      simp only [Stmt.Resolved] at hs
      rw [Stmt.layout] at hc ⊢
      refine Expr.balanced_then hs hc fun hheight => ?_
      refine ⟨rfl, ?_, by simp [Instr.jumpTarget?], fun _ => ?_⟩
      · simp only [Instr.pops]
        omega
      · omega
  | leave id =>
    simp only [Stmt.Resolved] at hs
    obtain ⟨target, hnear, -⟩ := hs
    rw [Stmt.layout] at hc ⊢
    exact ⟨hc.balanced_jump h0 (hloop (by simp [hnear])).2, trivial⟩
  | again id =>
    simp only [Stmt.Resolved] at hs
    obtain ⟨target, hnear, -⟩ := hs
    rw [Stmt.layout] at hc ⊢
    exact ⟨hc.balanced_jump h0 (hloop (by simp [hnear])).1, trivial⟩
  | branch cond thenBody elseBody =>
    obtain ⟨elseStart, thenStart, b⟩ := hc.branch
    obtain ⟨htest, helse0, hskip0, hthen0, hend0⟩ := b.heights hs h0
    simp only [Stmt.Resolved] at hs
    obtain ⟨hcond, hthen, helse⟩ := hs
    have hlength : thenStart + Stmt.lengthAll thenBody < f.code.toList.length := by
      simp only [Stmt.length] at hend
      have := b.else_eq
      have := b.then_eq
      omega
    have hblock : LabelsLand p r f (openIn .block frames) loop := by
      intro hnear
      rw [Scopes.nearestLoop?_block] at hnear
      exact hloop hnear
    have e₁ := Stmt.balancedAll elseBody helse b.elseCode helse0
      (by have := b.then_eq; omega) hblock
    have e₂ := Stmt.balancedAll thenBody hthen b.thenCode hthen0 hlength hblock
    have hjumpIf := b.test.balanced_jumpIf htest ⟨by omega, hthen0⟩
    have hjump := b.skip.balanced_jump hskip0 ⟨hlength, hend0⟩
    exact (AllAt.branch_iff b.else_eq b.then_eq).2
      ⟨Expr.balanced cond hcond b.condCode, hjumpIf, e₁, hjump, e₂⟩
  | loop id cond body =>
    obtain ⟨labels, b⟩ := hc.loop
    obtain ⟨hbody0, hcheck0, htest, hexit0⟩ := b.heights hs h0
    simp only [Stmt.Resolved] at hs
    obtain ⟨hcond, hbody⟩ := hs
    have hcheckEq := b.check_eq
    have hexitEq := b.exit_eq
    have hlength : labels.exit < f.code.toList.length := by
      simp only [Stmt.length] at hend
      omega
    have hcheckLands : f.Lands (p.layout r) labels.check := ⟨by omega, hcheck0⟩
    have e₁ := Stmt.balancedAll body hbody b.bodyCode hbody0 (by omega)
      (fun _ => ⟨hcheckLands, hlength, hexit0⟩)
    have hjump := b.enter.balanced_jump h0 hcheckLands
    have hjumpIf := b.back.balanced_jumpIf htest ⟨by omega, hbody0⟩
    exact (AllAt.loop_iff hcheckEq hexitEq).2
      ⟨hjump, e₁, Expr.balanced cond hcond b.condCode, hjumpIf⟩
  | eval e =>
    simp only [Stmt.Resolved] at hs
    rw [Stmt.layout] at hc ⊢
    refine Expr.balanced_then hs hc fun hheight => ?_
    refine .of_plain rfl ?_ rfl (by simp)
    simp only [Instr.pops]
    omega

theorem Stmt.balancedAll {frames : List Scope} {loop : LoopLabels} {start : Nat}
    (ss : List Stmt) (hss : Stmt.ResolvedAll p r f.localCount frames ss)
    (hc : CodeAt f.code.toList start (Stmt.layoutAll r loop start ss))
    (h0 : heightAt (p.layout r) f.code.toList start = 0)
    (hend : start + Stmt.lengthAll ss < f.code.toList.length)
    (hloop : LabelsLand p r f frames loop) :
    AllAt (Instr.Balanced (p.layout r) f) start (Stmt.layoutAll r loop start ss) := by
  cases ss with
  | nil => exact trivial
  | cons s rest =>
    simp only [Stmt.ResolvedAll] at hss
    simp only [Stmt.lengthAll] at hend
    obtain ⟨hfirst, hrest⟩ := hc.stmts_cons
    have hrest0 : heightAt (p.layout r) f.code.toList (start + s.length) = 0 := by
      rw [hfirst.heightAt_stmt hss.1, h0]
    have hloop' : LabelsLand p r f (declareIn s.declared frames) loop := by
      intro hnear
      rw [Scopes.nearestLoop?_declareIn] at hnear
      exact hloop hnear
    rw [Stmt.layoutAll, AllAt.append_iff, Stmt.length_layout]
    exact ⟨Stmt.balanced s hss.1 hfirst h0 (by omega) hloop,
      Stmt.balancedAll rest hss.2 hrest hrest0 (by omega) hloop'⟩

end

end

mutual

def Stmt.placed (start : Nat) : Stmt → List (Nat × Stmt)
  | .branch cond thenBody elseBody =>
    let elseStart := start + cond.length + 1
    let thenStart := elseStart + Stmt.lengthAll elseBody + 1
    (start, .branch cond thenBody elseBody) ::
      (Stmt.placedAll elseStart elseBody ++ Stmt.placedAll thenStart thenBody)
  | .loop id cond body => (start, .loop id cond body) :: Stmt.placedAll (start + 1) body
  | s => [(start, s)]

def Stmt.placedAll (start : Nat) : List Stmt → List (Nat × Stmt)
  | [] => []
  | s :: rest => s.placed start ++ Stmt.placedAll (start + s.length) rest

end

def FunctionDecl.placed (f : FunctionDecl) : List (Nat × Stmt) := Stmt.placedAll 0 f.body

/-- What holds where the code of a statement begins: its names are resolved, its code stands there,
and the function has no value on the stack. -/
def Stmt.Begins (p : Program) (r : Resolutions) (size : Nat) (code : List Instr) (pos : Nat)
    (s : Stmt) : Prop :=
  (∃ frames, s.Resolved p r size frames) ∧ (∃ loop, CodeAt code pos (s.layout r loop pos)) ∧
    heightAt (p.layout r) code pos = 0

section

variable {p : Program} {r : Resolutions} {size : Nat} {code : List Instr}

mutual

theorem Stmt.begins_of_placed {frames : List Scope} {loop : LoopLabels} {start : Nat} (s : Stmt)
    (hs : s.Resolved p r size frames) (hc : CodeAt code start (s.layout r loop start))
    (h0 : heightAt (p.layout r) code start = 0) :
    ∀ x ∈ s.placed start, x.2.Begins p r size code x.1 := by
  have hself : s.Begins p r size code start := ⟨⟨frames, hs⟩, ⟨loop, hc⟩, h0⟩
  cases s with
  | branch cond thenBody elseBody =>
    obtain ⟨elseStart, thenStart, b⟩ := hc.branch
    obtain ⟨-, helse0, -, hthen0, -⟩ := b.heights hs h0
    simp only [Stmt.Resolved] at hs
    have helse := Stmt.begins_of_placedAll elseBody hs.2.2 b.elseCode helse0
    have hthen := Stmt.begins_of_placedAll thenBody hs.2.1 b.thenCode hthen0
    intro x hx
    simp only [Stmt.placed, ← b.else_eq, ← b.then_eq, List.mem_cons, List.mem_append] at hx
    rcases hx with rfl | hx | hx
    · exact hself
    · exact helse x hx
    · exact hthen x hx
  | loop id cond body =>
    obtain ⟨labels, b⟩ := hc.loop
    obtain ⟨hbody0, -⟩ := b.heights hs h0
    simp only [Stmt.Resolved] at hs
    have hbody := Stmt.begins_of_placedAll body hs.2 b.bodyCode hbody0
    intro x hx
    simp only [Stmt.placed, List.mem_cons] at hx
    rcases hx with rfl | hx
    · exact hself
    · exact hbody x hx
  | declare names => simpa [Stmt.placed] using hself
  | assign id name value => simpa [Stmt.placed] using hself
  | ret value => simpa [Stmt.placed] using hself
  | leave id => simpa [Stmt.placed] using hself
  | again id => simpa [Stmt.placed] using hself
  | eval e => simpa [Stmt.placed] using hself

theorem Stmt.begins_of_placedAll {frames : List Scope} {loop : LoopLabels} {start : Nat}
    (ss : List Stmt) (hss : Stmt.ResolvedAll p r size frames ss)
    (hc : CodeAt code start (Stmt.layoutAll r loop start ss))
    (h0 : heightAt (p.layout r) code start = 0) :
    ∀ x ∈ Stmt.placedAll start ss, x.2.Begins p r size code x.1 := by
  cases ss with
  | nil => simp [Stmt.placedAll]
  | cons s rest =>
    simp only [Stmt.ResolvedAll] at hss
    obtain ⟨hfirst, hrest⟩ := hc.stmts_cons
    have hrest0 : heightAt (p.layout r) code (start + s.length) = 0 := by
      rw [hfirst.heightAt_stmt hss.1, h0]
    intro x hx
    rcases List.mem_append.1 hx with hx | hx
    · exact Stmt.begins_of_placed s hss.1 hfirst h0 x hx
    · exact Stmt.begins_of_placedAll rest hss.2 hrest hrest0 x hx

end

/-- Every statement of a function has its code where it is placed, and starts with no value of its
call on the stack. -/
theorem FunctionDecl.Resolved.begins {f : FunctionDecl} (h : f.Resolved p r) {pos : Nat} {s : Stmt}
    (hs : (pos, s) ∈ f.placed) :
    s.Begins p r (f.layout r).localCount (f.layout r).code.toList pos := by
  obtain ⟨size, hsize, -, hbody⟩ := h
  have hlocal : (f.layout r).localCount = size := by simp [FunctionDecl.layout, hsize]
  rw [hlocal]
  exact Stmt.begins_of_placedAll f.body hbody (f.codeAt_layout r).1 rfl (pos, s) hs

end

structure FunctionCode.Balanced (t : Table) (f : FunctionCode) : Prop where
  params_le : f.paramCount ≤ f.localCount
  ends : (f.code.back?.map Instr.endsCode) = some true
  code : AllAt (Instr.Balanced t f) 0 f.code.toList

structure Table.Balanced (t : Table) : Prop where
  callee : ∀ name, t.callee? name = t.find? name
  function : ∀ f ∈ t.functions, f.Balanced t

/-- The code of a resolved function is balanced: on every way through it, each instruction finds as
many values as it takes. -/
theorem FunctionDecl.Resolved.balanced {p : Program} {r : Resolutions} {f : FunctionDecl}
    (h : f.Resolved p r) : (f.layout r).Balanced (p.layout r) := by
  obtain ⟨size, hsize, hparams, hbody⟩ := h
  have hlocal : (f.layout r).localCount = size := by simp [FunctionDecl.layout, hsize]
  obtain ⟨hcode, hlast⟩ := f.codeAt_layout r
  have hend : Stmt.lengthAll f.body + 2 ≤ (f.layout r).code.toList.length := hlast.length_le
  rw [← hlocal] at hbody hparams
  have hlabels : LabelsLand p r (f.layout r) f.frames ⟨0, 0⟩ := by
    intro hnear
    exact absurd (f.nearestLoop?_frames p) hnear
  have hbalanced := Stmt.balancedAll f.body hbody hcode rfl (by omega) hlabels
  have h0 : heightAt (p.layout r) (f.layout r).code.toList (Stmt.lengthAll f.body) = 0 := by
    have hheight := hcode.heightAt_stmts hbody
    rwa [Nat.zero_add] at hheight
  have h1 : heightAt (p.layout r) (f.layout r).code.toList (Stmt.lengthAll f.body + 1) = 1 := by
    rw [heightAt_succ hlast.get, h0]
    rfl
  refine ⟨hparams, by simp [FunctionDecl.layout, Instr.endsCode], ?_⟩
  have hsplit : (f.layout r).code.toList = f.bodyLayout r ++ [.push .nothing, .ret] := rfl
  rw [hsplit, AllAt.append_iff, FunctionDecl.bodyLayout, Stmt.length_layoutAll, Nat.zero_add]
  refine ⟨hbalanced, .of_plain rfl (Nat.zero_le _) rfl (by simp), ⟨rfl, ?_, ?_, ?_⟩, trivial⟩
  · rw [h1]
    exact Nat.le_refl 1
  · simp [Instr.jumpTarget?]
  · intro _
    exact h1

/-- The code of a resolved program is balanced, function by function. -/
theorem Program.Resolved.balanced {p : Program} {r : Resolutions} (h : p.Resolved r) :
    (p.layout r).Balanced := by
  have hnames : (p.layout r).functions.map (·.name) = p.functions.map (·.name) := by
    simp [Program.layout, FunctionDecl.layout]
  refine ⟨Table.callee?_eq_find? (hnames ▸ h.functions_nodup), ?_⟩
  intro f hf
  obtain ⟨d, hd, rfl⟩ := List.mem_map.1 hf
  exact (h.function d hd).balanced

/-- The name of a function in the table tells which function of the program it is. -/
theorem Program.Resolved.eq_layout_of_name {p : Program} {r : Resolutions} (h : p.Resolved r)
    {d : FunctionDecl} (hd : d ∈ p.functions) {f : FunctionCode} (hf : f ∈ (p.layout r).functions)
    (hname : f.name = d.name) : f = d.layout r := by
  obtain ⟨d', hd', rfl⟩ := List.mem_map.1 hf
  have hd'name : d'.name = d.name := hname
  have hfind := find?_of_nodup h.functions_nodup hd
  have hfind' := find?_of_nodup h.functions_nodup hd'
  rw [hd'name, hfind] at hfind'
  cases hfind'
  rfl

namespace FunctionCode.Balanced

variable {t : Table} {f : FunctionCode}

theorem instr (hf : f.Balanced t) {pos : Nat} {i : Instr} (hi : f.code.toList[pos]? = some i) :
    i.Balanced t f pos := by
  have h := hf.code.get hi
  rwa [Nat.zero_add] at h

theorem checked (hf : f.Balanced t) : f.Checked t where
  params_le := hf.params_le
  ends := hf.ends
  code := hf.code.imp fun _ _ hi => ⟨hi.operand, hi.pops⟩

end FunctionCode.Balanced

/-- Balanced code passes the check that is made before a run. -/
theorem Table.Balanced.check {t : Table} (h : t.Balanced) : t.check = .ok () :=
  Table.check_eq_ok_iff.2 fun f hf => (h.function f hf).checked

/-- Compiled code passes the check. Where a jump stands, and where it goes to, the scan has no value
on the stack: all jumps go from between two statements to between two statements. -/
theorem Program.code_passes_check {items : List Item} {r : Resolutions} {t : Table}
    (hr : (Program.ofItems items).resolve = .ok r) (hc : (Program.ofItems items).code r = .ok t) :
    t.check = .ok () ∧
      ∀ f ∈ t.functions, ∀ pos i target, f.code.toList[pos]? = some i →
        i.jumpTarget? = some target →
        target < f.code.toList.length ∧ heightAt t f.code.toList target = 0 ∧
          heightAt t f.code.toList target = heightAt t f.code.toList (pos + 1) := by
  obtain ⟨hresolved, rfl⟩ := Program.ofItems_layout hr hc
  have ht := hresolved.balanced
  refine ⟨ht.check, ?_⟩
  intro f hf pos i target hi htarget
  obtain ⟨⟨hlt, hzero⟩, hafter⟩ := ((ht.function f hf).instr hi).jumps target htarget
  exact ⟨hlt, hzero, hzero.trans hafter.symm⟩

/-- A loop that is left and continued from inside, with code after it that is never reached:
`main() { decl x; x = 3; while (x) { x = x - 1; if (x == 1) { break; } continue; x = 0; } }`. -/
def leftLoop : List Item :=
  [.function ⟨"main", [],
    [.declare ["x"], .assign 0 "x" (.literal (.int 3)),
      .loop 0 (.var 0 "x")
        [.assign 0 "x" (.binary .sub (.var 0 "x") (.literal (.int 1))),
          .branch (.binary .eq (.var 0 "x") (.literal (.int 1))) [.leave 0] [],
          .again 0, .assign 0 "x" (.literal (.int 0))]]⟩]

/-- The jump out of the loop stands at position 12 and goes behind the loop. -/
theorem Program.code_passes_check_leftLoop :
    ∃ r t f, (Program.ofItems leftLoop).resolve = .ok r ∧
      (Program.ofItems leftLoop).code r = .ok t ∧ t.functions = [f] ∧ t.check = .ok () ∧
      f.code.toList[12]? = some (.jump 18) ∧ heightAt t f.code.toList 18 = 0 ∧
      heightAt t f.code.toList 18 = heightAt t f.code.toList 13 := by
  have hresolve : (Program.ofItems leftLoop).resolve = .ok _ := rfl
  have hchecked := Program.code_passes_check hresolve rfl
  refine ⟨_, _, _, rfl, rfl, rfl, hchecked.1, rfl, ?_⟩
  exact (hchecked.2 _ (.head _) 12 _ 18 rfl rfl).2

end StackLang

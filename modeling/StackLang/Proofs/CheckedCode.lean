import StackLang.Machine.Step
import StackLang.Proofs.Resolved
import StackLang.Proofs.Segments

/-!
What the check of a table makes sure of. The scan carries a height from instruction to instruction,
which at each position is `heightAt`, the height of the stack there. So a function passes the check
exactly if its frame holds its parameters, its code ends with a jump or a return, and each
instruction has its operand and finds at its position the values that it takes.
-/
namespace StackLang

structure Instr.Checked (t : Table) (f : FunctionCode) (pos : Nat) (i : Instr) : Prop where
  operand : i.operandFault? t f = none
  pops : i.pops t ≤ heightAt t f.code.toList pos

structure FunctionCode.Checked (t : Table) (f : FunctionCode) : Prop where
  params_le : f.paramCount ≤ f.localCount
  ends : (f.code.back?.map Instr.endsCode) = some true
  code : AllAt (Instr.Checked t f) 0 f.code.toList

section

variable {t : Table} {f : FunctionCode}

theorem Instr.load_operand_iff {slot : Slot} :
    (Instr.load slot).operandFault? t f = none ↔ slot.Fits f.localCount t.globalCount := by
  cases slot <;> simp [Instr.operandFault?, Slot.Fits]

theorem Instr.store_operand_iff {slot : Slot} :
    (Instr.store slot).operandFault? t f = none ↔ slot.Fits f.localCount t.globalCount := by
  cases slot <;> simp [Instr.operandFault?, Slot.Fits]

theorem Instr.jumpTarget_lt {i : Instr} {target : Nat} (hoperand : i.operandFault? t f = none)
    (htarget : i.jumpTarget? = some target) : target < f.code.toList.length := by
  rw [Array.length_toList]
  cases i with
  | jump goal =>
    cases htarget
    simpa [Instr.operandFault?] using hoperand
  | jumpIf goal =>
    cases htarget
    simpa [Instr.operandFault?] using hoperand
  | _ => cases htarget

/-- The scan from a position on, which comes there with the height of the stack at the position,
passes exactly if all instructions from there on are as they should be. -/
theorem FunctionCode.checkFrom_eq_ok_iff {pos : Nat} {rest : List Instr}
    (hc : CodeAt f.code.toList pos rest) :
    f.checkFrom t pos (heightAt t f.code.toList pos) rest = .ok () ↔
      AllAt (Instr.Checked t f) pos rest := by
  induction rest generalizing pos with
  | nil => simp [checkFrom, AllAt]
  | cons i rest ih =>
    have hnext := ih hc.tail
    rw [heightAt_succ hc.get] at hnext
    rw [checkFrom, AllAt, ← hnext]
    constructor
    · intro h
      split at h
      · cases h
      · rename_i hoperand
        split at h
        · cases h
        · rename_i hpops
          exact ⟨⟨hoperand, Nat.le_of_not_lt hpops⟩, h⟩
    · rintro ⟨⟨hoperand, hpops⟩, hrest⟩
      rw [hoperand]
      simp only [if_neg (Nat.not_lt.2 hpops)]
      exact hrest

/-- The check passes on a function just if all holds of it that a run relies on. -/
theorem FunctionCode.check_eq_ok_iff : f.check t = .ok () ↔ f.Checked t := by
  have hwhole : CodeAt f.code.toList 0 f.code.toList := ⟨[], [], by simp, rfl⟩
  have hscan := FunctionCode.checkFrom_eq_ok_iff (t := t) hwhole
  rw [heightAt_zero] at hscan
  unfold FunctionCode.check
  constructor
  · intro h
    split at h
    · cases h
    · rename_i hparams
      split at h
      · rename_i hends
        exact ⟨Nat.le_of_not_lt hparams, hends, hscan.1 h⟩
      · cases h
  · intro h
    rw [if_neg (Nat.not_lt.2 h.params_le), if_pos h.ends]
    exact hscan.2 h.code

/-- A table passes the check exactly if each of its functions does. -/
theorem Table.check_eq_ok_iff : t.check = .ok () ↔ ∀ f ∈ t.functions, f.Checked t := by
  have hall : ∀ fs : List FunctionCode,
      t.checkAll fs = .ok () ↔ ∀ f ∈ fs, f.Checked t := by
    intro fs
    induction fs with
    | nil => simp [Table.checkAll]
    | cons f rest ih =>
      rw [Table.checkAll, bind_eq_ok_iff, List.forall_mem_cons, ← ih,
        ← FunctionCode.check_eq_ok_iff]
      constructor
      · rintro ⟨_, hf, hrest⟩
        exact ⟨hf, hrest⟩
      · rintro ⟨hf, hrest⟩
        exact ⟨(), hf, hrest⟩
  exact hall t.functions

namespace FunctionCode.Checked

theorem instr (hf : f.Checked t) {pos : Nat} {i : Instr} (hi : f.code.toList[pos]? = some i) :
    i.Checked t f pos := by
  have h := hf.code.get hi
  rwa [Nat.zero_add] at h

/-- Control does not run past the end: only a jump or a return stands there. -/
theorem next_lt (hf : f.Checked t) {pos : Nat} {i : Instr} (hi : f.code.toList[pos]? = some i)
    (hends : i.endsCode = false) : pos + 1 < f.code.toList.length := by
  have hlt : pos < f.code.toList.length := (List.getElem?_eq_some_iff.1 hi).1
  by_cases hlast : pos + 1 < f.code.toList.length
  · exact hlast
  · have hpos : f.code.size - 1 = pos := by
      rw [Array.length_toList] at hlt hlast
      omega
    have hback : f.code.back? = some i := by
      rw [Array.back?, hpos, ← Array.getElem?_toList]
      exact hi
    have hend := hf.ends
    rw [hback] at hend
    simp [hends] at hend

theorem code_pos (hf : f.Checked t) : 0 < f.code.toList.length := by
  have hends := hf.ends
  rw [Array.back?] at hends
  rw [Array.length_toList]
  by_cases hzero : f.code.size = 0
  · simp [hzero] at hends
  · omega

end FunctionCode.Checked

end

/-- A function is entered by a name exactly if one is found by it. -/
theorem Table.isSome_callee? (t : Table) (name : String) :
    (t.callee? name).isSome = (t.find? name).isSome := by
  rw [Bool.eq_iff_iff]
  unfold Table.callee? Table.find?
  simp only [List.find?_isSome, List.mem_reverse]

theorem Table.callee?_mem {t : Table} {name : String} {f : FunctionCode}
    (hf : t.callee? name = some f) : f ∈ t.functions ∧ f.name = name := by
  refine ⟨List.mem_reverse.1 (List.mem_of_find?_eq_some hf), ?_⟩
  simpa using List.find?_some hf

theorem Table.find?_mem {t : Table} {name : String} {f : FunctionCode}
    (hf : t.find? name = some f) : f ∈ t.functions ∧ f.name = name := by
  refine ⟨List.mem_of_find?_eq_some hf, ?_⟩
  simpa using List.find?_some hf

/-- If only one function has the name, it does not matter from which end they are searched. -/
theorem Table.callee?_eq_find?_of_unique {t : Table} {name : String}
    (hunique : ∀ f ∈ t.functions, ∀ g ∈ t.functions, f.name = name → g.name = name → f = g) :
    t.callee? name = t.find? name := by
  have hsome := t.isSome_callee? name
  cases hfind : t.find? name with
  | none =>
    rw [hfind] at hsome
    simpa using hsome
  | some f =>
    rw [hfind] at hsome
    obtain ⟨g, hg⟩ := Option.isSome_iff_exists.1 hsome
    obtain ⟨hfmem, hfname⟩ := Table.find?_mem hfind
    obtain ⟨hgmem, hgname⟩ := Table.callee?_mem hg
    rw [hg, hunique f hfmem g hgmem hfname hgname]

/-- If no two functions share a name, it makes no difference whether the first or the last of a name
is taken. -/
theorem Table.callee?_eq_find? {t : Table} (hnodup : (t.functions.map (·.name)).Nodup)
    (name : String) : t.callee? name = t.find? name := by
  apply Table.callee?_eq_find?_of_unique
  intro f hf g hg hfname hgname
  have hfindf := find?_of_nodup hnodup hf
  have hfindg := find?_of_nodup hnodup hg
  rw [hfname] at hfindf
  rw [hgname, hfindf] at hfindg
  exact Option.some.inj hfindg

end StackLang

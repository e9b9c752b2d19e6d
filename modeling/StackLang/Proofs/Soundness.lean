import StackLang.Proofs.BalancedCode
import StackLang.Proofs.CheckedRuns

/-!
A machine that runs balanced code never gets into trouble of its own making. The invariant ties the
height of the operand stack, which all calls share, to the positions of all frames: the innermost
call has as many values there as the scan of its code says, and each call around it has one fewer
than it will have once the value it waits for is there.
-/
namespace StackLang

structure SoundParts (t : Table) (values : List Value) (globals : Array Value) (frame : Frame)
    (callers : List Frame) : Prop where
  top : frame.Sound t
  waits : ∀ caller ∈ callers, caller.Sound t ∧ 1 ≤ caller.height t
  globals : globals.size = t.globalCount
  height : values.length = frame.height t + Frame.waiting t callers

def State.Sound (t : Table) (s : State) : Prop :=
  ∃ frame callers, s.frames.items = frame :: callers ∧
    SoundParts t s.stack.items s.globals frame callers

def Turn.Sound {σ : Type} (t : Table) : Turn σ → Prop
  | .running s _ => s.Sound t
  | .halted (.ok _) s _ => s.stack.items = [] ∧ s.frames.items = []
  | .halted (.error cause) _ _ => ∀ f, cause ≠ .internal f

section

variable {t : Table}

theorem SoundParts.inPlace {values : List Value} {globals : Array Value} {frame : Frame}
    {callers : List Frame} (h : SoundParts t values globals frame callers) :
    InPlace t globals (frame :: callers) where
  active := ⟨frame, callers, rfl⟩
  sound := List.forall_mem_cons.2 ⟨h.top, fun caller hcaller => (h.waits caller hcaller).1⟩
  globals := h.globals

theorem State.sound_of_inPlace {s : State} (hp : InPlace t s.globals s.frames.items)
    (hwaits : ∀ caller ∈ s.frames.items.tail, 1 ≤ caller.height t)
    (hheight : s.stack.items.length = Frame.demand t s.frames.items) : s.Sound t := by
  obtain ⟨frame, callers, hframes⟩ := hp.active
  rw [hframes] at hp hwaits hheight
  refine ⟨frame, callers, hframes, hp.sound frame (by simp), ?_, hp.globals, hheight⟩
  intro caller hcaller
  exact ⟨hp.sound caller (by simp [hcaller]), hwaits caller hcaller⟩

theorem Table.Balanced.checked (ht : t.Balanced) : ∀ f ∈ t.functions, f.Checked t :=
  fun f hf => (ht.function f hf).checked

end

section

variable {σ : Type} {h : Handler σ} {t : Table} {limits : Limits}

/-- One turn keeps the invariant. -/
theorem State.Sound.turn (ht : t.Balanced) {s : State} (hs : s.Sound t) (w : σ) :
    (s.turn h t limits w).Sound t := by
  obtain ⟨frame, callers, hframes, hparts⟩ := hs
  have hp := hparts.inPlace
  have hheight := hparts.height
  have hwaits : ∀ caller ∈ callers, 1 ≤ caller.height t :=
    fun caller hcaller => (hparts.waits caller hcaller).2
  obtain ⟨i, hi⟩ := hp.instr
  have hf := ht.function _ hparts.top.function
  have hpops : i.pops t ≤ frame.height t := (hf.instr hi).pops
  have htakes := Instr.takes_eq_pops ht.callee i
  have hex := State.turn_executed h t limits w hframes hi
  cases hturn : s.turn h t limits w with
  | running s' w' =>
    rw [hturn] at hex
    refine State.sound_of_inPlace (hex.inPlace ht.checked hp hi) (hex.waits hwaits hi) ?_
    obtain ⟨left, kept, hbalance, hleft⟩ := hex.demand hwaits hpops htakes hi
    -- Nothing is left behind: jumps go between statements, and a return finds one value.
    have hsame : left = kept := by
      rcases hleft with hsame | ⟨target, htarget, rfl, rfl⟩ | ⟨rfl, rfl, rfl⟩
      · exact hsame
      · obtain ⟨⟨-, hzero⟩, hafter⟩ := (hf.instr hi).jumps target htarget
        rw [hzero, hafter]
      · exact ((hf.instr hi).returns rfl).symm
    rw [Frame.demand] at hbalance
    omega
  | halted result s' w' =>
    rw [hturn] at hex
    cases result with
    | ok v =>
      cases hex with
      | finishes v rest hvalues hcallers =>
        have hone : frame.height t = 1 := (hf.instr hi).returns rfl
        rw [hvalues, hcallers, hone, List.length_cons, Frame.waiting_nil] at hheight
        have hrest : rest.length = 0 := by omega
        exact ⟨List.length_eq_zero_iff.1 hrest, rfl⟩
    | error cause =>
      rintro fault rfl
      have hfew := (hex.internal_eq_underflow (hp.hasOperand hf.checked hi)).2
      omega

/-- A run keeps the invariant from its start. -/
theorem Table.Balanced.run_sound (ht : t.Balanced) (h : Handler σ) (limits : Limits) (w : σ)
    (n : Nat) : (t.run h limits w n).Sound t := by
  apply Table.run_invariant
  · rcases Table.start_cases ht.check w with ⟨-, hstart⟩ | ⟨main, hmain, hstart⟩
    · rw [hstart]
      exact ⟨rfl, rfl⟩
    · rw [hstart]
      exact State.sound_of_inPlace (Table.inPlace_ofMain ht.checked hmain) (by simp) rfl
  · intro s w' hs
    exact State.Sound.turn ht hs w'

/-- In a run of balanced code, the stack holds what the open calls have left there, and no more. -/
theorem Table.Balanced.parts (ht : t.Balanced) {w w' : σ} {n : Nat} {s : State} {frame : Frame}
    {callers : List Frame} (hn : t.run h limits w n = .running s w')
    (hframes : s.frames.items = frame :: callers) :
    SoundParts t s.stack.items s.globals frame callers := by
  have hsound := ht.run_sound h limits w n
  rw [hn] at hsound
  obtain ⟨frame', callers', hframes', hparts⟩ := hsound
  cases hframes.symm.trans hframes'
  exact hparts

end

end StackLang

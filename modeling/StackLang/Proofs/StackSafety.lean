import StackLang.Proofs.Calls
import StackLang.Proofs.Soundness

/-!
Compiled programs are safe. No run of one stops with a fault of the machine itself; whenever a
statement begins, the operand stack is as high as it was when the function was entered; and a run
that returns a value leaves nothing behind.
-/
namespace StackLang

section

variable {σ : Type} {h : Handler σ} {t : Table} {limits : Limits} {w : σ}

/-- Between two statements, the innermost call has no value on the stack, as when it was entered. -/
theorem Table.EnteredAt.stack_size (ht : t.Balanced) {j n : Nat} {s : State} {w' : σ}
    {frame : Frame} {callers : List Frame} (hentered : t.EnteredAt h limits w j n)
    (hn : t.run h limits w n = .running s w') (hframes : s.frames.items = frame :: callers)
    (hzero : frame.height t = 0) :
    (t.run h limits w j).state.stack.size = s.stack.size := by
  obtain ⟨s₀, w₀, hj⟩ := Table.run_running hentered.le hn
  obtain ⟨entry, hentry, -⟩ := hentered.entry_frame hn hframes
  have hpc := (hentered.entry hn hentry).1
  have hentryZero : entry.height t = 0 := by
    rw [Frame.height, hpc, heightAt_zero]
  rw [Table.framesAt_running hj] at hentry
  have hthen := (ht.parts hj hentry).height
  have hnow := (ht.parts hn hframes).height
  rw [hj, Turn.state, s₀.stack.size_eq, s.stack.size_eq, hthen, hnow, hentryZero, hzero]

end

/-- No run of a compiled program fails by a fault of the machine itself. When control is where a
statement of the innermost call begins, the stack is as high as when that call was entered. A run
that returns a value leaves neither values nor calls behind. -/
theorem Program.run_stack_safe {items : List Item} {r : Resolutions} {t : Table}
    (hr : (Program.ofItems items).resolve = .ok r) (hc : (Program.ofItems items).code r = .ok t)
    {σ : Type} (h : Handler σ) (limits : Limits) (w : σ) (n : Nat) :
    (∀ fault s w', t.run h limits w n ≠ .halted (.error (.internal fault)) s w') ∧
      (∀ f ∈ (Program.ofItems items).functions, ∀ s w' frame callers stmt,
        t.run h limits w n = .running s w' → s.frames.items = frame :: callers →
        frame.function.name = f.name → (frame.pc, stmt) ∈ f.placed →
        (∃ j, t.EnteredAt h limits w j n) ∧
          ∀ j, t.EnteredAt h limits w j n →
            (t.run h limits w j).state.stack.size = s.stack.size) ∧
      ∀ v s w', t.run h limits w n = .halted (.ok v) s w' →
        s.stack.items = [] ∧ s.frames.items = [] := by
  obtain ⟨hresolved, rfl⟩ := Program.ofItems_layout hr hc
  have ht := hresolved.balanced
  have hsound := ht.run_sound h limits w n
  refine ⟨?_, ?_, ?_⟩
  · intro fault s w' hn
    rw [hn] at hsound
    exact hsound fault rfl
  · intro f hf s w' frame callers stmt hn hframes hname hstmt
    have hparts := ht.parts hn hframes
    have hfunction : frame.function = f.layout r :=
      hresolved.eq_layout_of_name hf hparts.top.function hname
    have hzero : frame.height ((Program.ofItems items).layout r) = 0 := by
      rw [Frame.height, hfunction]
      exact ((hresolved.function f hf).begins hstmt).2.2
    exact ⟨Table.exists_entry hn hframes, fun j hj => hj.stack_size ht hn hframes hzero⟩
  · intro v s w' hn
    rw [hn] at hsound
    exact hsound

/-- A call made while an operand of the caller is on the stack:
`f(n) { decl x; x = n; return x; } main() { return 1 + f(2); }`. -/
def nestedCall : List Item :=
  [.function ⟨"f", ["n"],
    [.declare ["x"], .assign 0 "x" (.var 0 "n"), .ret (some (.var 0 "x"))]⟩,
  .function ⟨"main", [],
    [.ret (some (.binary .add (.literal (.int 1)) (.call "f" [.literal (.int 2)])))]⟩]

/-- After five turns the second statement of `f` begins, with one value of `main` below it. -/
theorem Program.run_stack_safe_nestedCall :
    ∃ r t s w', (Program.ofItems nestedCall).resolve = .ok r ∧
      (Program.ofItems nestedCall).code r = .ok t ∧
      t.run Recording.handler .standard (.ofInputs [] none none) 5 = .running s w' ∧
      s.frames.items.map (·.function.name) = ["f", "main"] ∧ s.stack.items = [.int 1] ∧
      (∃ j, t.EnteredAt Recording.handler .standard (.ofInputs [] none none) j 5) ∧
      ∀ j, t.EnteredAt Recording.handler .standard (.ofInputs [] none none) j 5 →
        (t.run Recording.handler .standard (.ofInputs [] none none) j).state.stack.size =
          s.stack.size := by
  refine ⟨_, _, _, _, rfl, rfl, rfl, rfl, rfl, ?_⟩
  have hresolve : (Program.ofItems nestedCall).resolve = .ok _ := rfl
  exact (Program.run_stack_safe hresolve rfl Recording.handler .standard _ 5).2.1
    _ (.head _) _ _ _ _ _ rfl rfl rfl (.tail _ (.tail _ (.head _)))

end StackLang

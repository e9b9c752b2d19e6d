import StackLang.Proofs.Simulation
import StackLang.Proofs.Soundness

/-!
The compiler is correct: if a run stays within its limits, the machine comes to an outcome exactly
if the evaluator of the tree does, and to the same one. So they diverge together too. One half
follows from the simulation; the other half does as well, since a run that has halted leaves no
turns for an evaluation that takes more fuel than that.
-/
namespace StackLang

section

variable {σ : Type} {h : Handler σ} {t : Table} {limits : Limits} {w : σ}

def Table.WithinLimits (h : Handler σ) (t : Table) (limits : Limits) (w : σ) : Prop :=
  ∀ n fault s w', t.run h limits w n ≠ .halted (.error (.limit fault)) s w'

theorem Turn.outcome?_eq_some {turn : Turn σ} {o : Outcome (Array Value) σ}
    (ho : turn.outcome? = some o) : ∃ s w', turn = .halted o.result s w' := by
  cases turn with
  | running s w => cases ho
  | halted result s w =>
    cases ho
    exact ⟨s, w, rfl⟩

/-- Once a run has an outcome, it keeps it. -/
theorem Table.outcome?_of_le {m n : Nat} (hle : m ≤ n) {o : Outcome (Array Value) σ}
    (ho : (t.run h limits w m).outcome? = some o) : (t.run h limits w n).outcome? = some o := by
  obtain ⟨s, w', hm⟩ := Turn.outcome?_eq_some ho
  have hn : t.run h limits w n = .halted o.result s w' := Turn.advance_of_halted hle hm
  rw [hn, ← hm]
  exact ho

/-- A run comes to one outcome only, however many turns it is given. -/
theorem Table.outcome?_unique {m n : Nat} {o o' : Outcome (Array Value) σ}
    (hm : (t.run h limits w m).outcome? = some o)
    (hn : (t.run h limits w n).outcome? = some o') : o = o' := by
  rcases Nat.le_total m n with hle | hle
  · have ho := Table.outcome?_of_le hle hm
    rw [hn] at ho
    exact (Option.some.inj ho).symm
  · have ho := Table.outcome?_of_le hle hn
    rw [hm] at ho
    exact Option.some.inj ho

/-- A run that halts by itself breaks no limit. -/
theorem Table.withinLimits_of_outcome {n : Nat} {o : Outcome (Array Value) σ}
    (hn : (t.run h limits w n).outcome? = some o) (ho : ∀ fault, o.result ≠ .error (.limit fault)) :
    t.WithinLimits h limits w := by
  intro m fault s w' hm
  have hm' : (t.run h limits w m).outcome? =
      some ⟨.error (.limit fault), s.callStack, s.globals, w'⟩ := by
    rw [hm]
    rfl
  have heq := Table.outcome?_unique hn hm'
  exact ho fault (congrArg Outcome.result heq)

/-- A run of balanced code within its limits is never given up, at whatever turn. -/
theorem Table.WithinLimits.not_gaveUp (hlimits : t.WithinLimits h limits w) (ht : t.Balanced)
    (n : Nat) : ¬ (t.run h limits w n).GaveUp := by
  intro hup
  have hsound := ht.run_sound h limits w n
  unfold Turn.GaveUp at hup
  split at hup
  · rename_i fault s w' hn
    exact hlimits n fault s w' hn
  · rename_i fault s w' hn
    rw [hn] at hsound
    exact hsound fault rfl
  · exact hup

end

section

variable {σ : Type} {h : Handler σ} {p : Program} {r : Resolutions} {limits : Limits} {w : σ}

def Program.evaluateSlots (p : Program) (r : Resolutions) (h : Handler σ) (w : σ) (fuel : Nat) :
    Result (Shared (Array Value) σ) Value :=
  p.evaluate r.store h (Array.replicate r.globalCount .nothing) w fuel

/-- The machine starts as the evaluator does: no variable of `main` is set. -/
theorem FunctionDecl.Resolved.at_start {main : FunctionDecl} (hmain : main.Resolved p r)
    (hp : p.Resolved r) (hfind : p.find? "main" = some main) (w : σ) :
    At (main.layout r) [] 0 []
      { globals := Array.replicate r.globalCount .nothing, world := w,
        locals := r.store.enter main (main.params.map fun _ => .nothing) }
      ((p.layout r).start w) := by
  obtain ⟨size, hsize, hparams, -⟩ := hmain
  have hlocals : r.store.enter main (main.params.map fun _ => .nothing) =
      Array.replicate size .nothing := by
    have hsum : main.params.length + (size - main.params.length) = size := by omega
    simp only [Resolutions.store, hsize, Option.getD_some, List.map_const',
      List.replicate_append_replicate]
    rw [hsum, List.toArray_replicate]
  have htable : (p.layout r).find? "main" = some (main.layout r) := by
    rw [Program.find?_layout, hfind]
    rfl
  refine ⟨0, ?_⟩
  rw [Table.start, htable]
  simp only [hp.balanced.check]
  rw [hlocals]
  have hcount : (main.layout r).localCount = size := by simp [FunctionDecl.layout, hsize]
  rw [← hcount]
  rfl

/-- The machine follows the evaluation of the whole program. -/
theorem Program.Resolved.evaluate_follows (hp : p.Resolved r) (h : Handler σ) (limits : Limits)
    (w : σ) (fuel : Nat) :
    Follows h (p.layout r) limits id [] (fuel - 1) ((p.layout r).start w)
      (p.evaluateSlots r h w fuel) fun v shared next =>
        next.outcome? = some ⟨.ok v, [], shared.globals, shared.world⟩ := by
  unfold Program.evaluateSlots Program.evaluate
  cases hfind : p.find? "main" with
  | none =>
    refine .done ?_
    rw [Table.start, Program.find?_layout, hfind]
    rfl
  | some main =>
    have hmain := hp.function main (List.mem_of_find?_eq_some hfind)
    have hat := hmain.at_start hp hfind w
    cases fuel with
    | zero =>
      obtain ⟨steps, hstart⟩ := hat
      refine ⟨0, Or.inr ⟨Nat.le_refl 0, ?_⟩⟩
      rw [hstart]
      rfl
    | succ fuel =>
      have hbody := hmain.follows (hp.callsFollow h limits fuel) hat
      refine Follows.inCall hbody fun flow m next ⟨pc, hret, hnext⟩ => ?_
      refine Follows.turn (P := fun next' => next'.outcome? =
        some ⟨.ok flow.result, [], m.globals, m.world⟩) (hnext.finish hret) fun next' hnext' => ?_
      exact .done hnext'

/-- What the evaluator comes to, the machine comes to. -/
theorem Program.Resolved.run_of_evaluate (hp : p.Resolved r)
    (hlimits : (p.layout r).WithinLimits h limits w) {fuel : Nat} {o : Outcome (Array Value) σ}
    (ho : (p.evaluateSlots r h w fuel).outcome? = some o) :
    ∃ n, ((p.layout r).run h limits w n).outcome? = some o := by
  obtain ⟨n, hup | hn⟩ := hp.evaluate_follows h limits w fuel
  · exact absurd hup (hlimits.not_gaveUp hp.balanced n)
  · refine ⟨n, ?_⟩
    cases hresult : p.evaluateSlots r h w fuel with
    | done v shared =>
      rw [hresult] at hn ho
      cases ho
      exact hn
    | failed fault calls shared =>
      rw [hresult] at hn ho
      cases ho
      exact hn
    | stuck =>
      rw [hresult] at ho
      cases ho
    | unfinished =>
      rw [hresult] at ho
      cases ho

/-- What the machine comes to after some turns, the evaluator comes to with more fuel than that. -/
theorem Program.Resolved.evaluate_of_run (hp : p.Resolved r)
    (hlimits : (p.layout r).WithinLimits h limits w) {n : Nat} {o : Outcome (Array Value) σ}
    (ho : ((p.layout r).run h limits w n).outcome? = some o) :
    (p.evaluateSlots r h w (n + 2)).outcome? = some o := by
  obtain ⟨k, hup | hk⟩ := hp.evaluate_follows h limits w (n + 2)
  · exact absurd hup (hlimits.not_gaveUp hp.balanced k)
  · cases hresult : p.evaluateSlots r h w (n + 2) with
    | done v shared =>
      rw [hresult] at hk
      exact congrArg some (Table.outcome?_unique hk ho)
    | failed fault calls shared =>
      rw [hresult] at hk
      exact congrArg some (Table.outcome?_unique hk ho)
    | stuck =>
      rw [hresult] at hk
      exact hk.elim
    | unfinished =>
      rw [hresult] at hk
      have hle : n ≤ k := by
        have hneed := hk.1
        omega
      have hrun : ((p.layout r).run h limits w k).outcome? = none := hk.2
      rw [Table.outcome?_of_le hle ho] at hrun
      cases hrun

end

/-- A compiled program and the evaluator of its tree come to the same outcomes: the same value or
fault, with the same calls open, the same global variables, and the same dealings with the world. -/
theorem Program.evaluate_iff_run {items : List Item} {r : Resolutions} {t : Table}
    (hr : (Program.ofItems items).resolve = .ok r) (hc : (Program.ofItems items).code r = .ok t)
    {σ : Type} (h : Handler σ) (limits : Limits) (w : σ) (hlimits : t.WithinLimits h limits w)
    (o : Outcome (Array Value) σ) :
    (∃ fuel, ((Program.ofItems items).evaluateSlots r h w fuel).outcome? = some o) ↔
      ∃ n, (t.run h limits w n).outcome? = some o := by
  obtain ⟨hresolved, rfl⟩ := Program.ofItems_layout hr hc
  constructor
  · rintro ⟨fuel, ho⟩
    exact hresolved.run_of_evaluate hlimits ho
  · rintro ⟨n, ho⟩
    exact ⟨n + 2, hresolved.evaluate_of_run hlimits ho⟩

/-- A loop that is continued and left from inside a branch, and a fault in a call:
`decl last; f(n) { while (TRUE) { if (n) { n = n - 1; last = n; continue; } break; } print("end");
return 1 / n; } main() { return f(2); }`. -/
def countdown : List Item :=
  [.globals ["last"],
  .function ⟨"f", ["n"],
    [.loop 0 (.literal (.bool true))
      [.branch (.var 0 "n")
        [.assign 0 "n" (.binary .sub (.var 0 "n") (.literal (.int 1))),
          .assign 0 "last" (.var 0 "n"), .again 0] [],
        .leave 0],
      .eval (.call "print" [.literal (.str "end")]),
      .ret (some (.binary .div (.literal (.int 1)) (.var 0 "n")))]⟩,
  .function ⟨"main", [], [.ret (some (.call "f" [.literal (.int 2)]))]⟩]

/-- It ends with a division by zero in the call of `f`, after both rounds and the output. -/
theorem Program.evaluate_iff_run_countdown :
    ∃ r t, (Program.ofItems countdown).resolve = .ok r ∧
      (Program.ofItems countdown).code r = .ok t ∧
      t.WithinLimits Recording.handler .standard (.ofInputs [] none none) ∧
      ∃ fuel, ((Program.ofItems countdown).evaluateSlots r Recording.handler
        (.ofInputs [] none none) fuel).outcome? =
          some ⟨.error (.operand .divisionByZero), ["main", "f"], #[.int 0],
            ⟨[], #[], #["end"], none, none⟩⟩ := by
  obtain ⟨r, t, hr, hc, hrun⟩ : ∃ r t, (Program.ofItems countdown).resolve = .ok r ∧
      (Program.ofItems countdown).code r = .ok t ∧
      (t.run Recording.handler .standard (.ofInputs [] none none) 60).outcome? =
        some ⟨.error (.operand .divisionByZero), ["main", "f"], #[.int 0],
          ⟨[], #[], #["end"], none, none⟩⟩ := ⟨_, _, rfl, rfl, rfl⟩
  have hlimits := Table.withinLimits_of_outcome hrun (by intro fault hf; cases hf)
  exact ⟨r, t, hr, hc, hlimits,
    (Program.evaluate_iff_run hr hc Recording.handler .standard _ hlimits _).2 ⟨60, hrun⟩⟩

end StackLang

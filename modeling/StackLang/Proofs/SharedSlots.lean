import StackLang.Proofs.Accesses
import StackLang.Proofs.Soundness

/-!
What a local variable holds when it is read before it is set. Variables of different blocks of a
function may have the same slot, and nothing is cleared when a block is entered: a slot is empty
when the call begins, and from then on holds what was last stored there, whichever variable that
was.
-/
namespace StackLang

/-- The value that was last stored from turn `j` up to turn `n`, where `stores m v` says that turn
`m` stores `v`; or `nothing`, if no turn stored anything. -/
def LastStored (stores : Nat → Value → Prop) (j n : Nat) (v : Value) : Prop :=
  (v = .nothing ∧ ∀ m, j ≤ m → m < n → ∀ u, ¬stores m u) ∨
    ∃ m, j ≤ m ∧ m < n ∧ stores m v ∧ ∀ m', m < m' → m' < n → ∀ u, ¬stores m' u

namespace LastStored

variable {stores : Nat → Value → Prop} {j n : Nat} {v : Value}

theorem start (j : Nat) : LastStored stores j j .nothing :=
  Or.inl ⟨rfl, fun _ hj hn => absurd hn (Nat.not_lt.2 hj)⟩

theorem keep (h : LastStored stores j n v) (hn : ∀ u, ¬stores n u) :
    LastStored stores j (n + 1) v := by
  rcases h with ⟨hv, hnone⟩ | ⟨m, hjm, hmn, hm, hlater⟩
  · refine Or.inl ⟨hv, ?_⟩
    intro m hjm hmn
    by_cases hlast : m = n
    · rw [hlast]
      exact hn
    · exact hnone m hjm (by omega)
  · refine Or.inr ⟨m, hjm, by omega, hm, ?_⟩
    intro m' hm' hn'
    by_cases hlast : m' = n
    · rw [hlast]
      exact hn
    · exact hlater m' hm' (by omega)

theorem store (hj : j ≤ n) (hn : stores n v) : LastStored stores j (n + 1) v := by
  refine Or.inr ⟨n, hj, Nat.lt_succ_self n, hn, ?_⟩
  intro m hm hm'
  omega

end LastStored

section

variable {σ : Type} (h : Handler σ) (t : Table) (limits : Limits) (w : σ)

/-- After `m` turns, the call that is the innermost one after `n` turns is about to end an
assignment of `v` to a variable in slot `k`. The depth tells the call from the ones it makes. -/
def Table.AssignsAt (r : Resolutions) (f : FunctionDecl) (n k m : Nat) (v : Value) : Prop :=
  ∃ s w', t.run h limits w m = .running s w' ∧
    (t.framesAt h limits w m).length = (t.framesAt h limits w n).length ∧ s.Assigns r f k v

variable {h t limits w}

/-- A new call holds no value in the slots after its parameters. -/
theorem Table.EnteredAt.entry_local {j n k : Nat} {s : State} {w' : σ} {frame : Frame}
    {callers : List Frame} (hentered : t.EnteredAt h limits w j n)
    (hn : t.run h limits w n = .running s w') (hj : t.framesAt h limits w j = frame :: callers)
    (hparam : frame.function.paramCount ≤ k) (hk : k < frame.function.localCount) :
    frame.locals[k]? = some .nothing := by
  obtain ⟨-, hmain | ⟨args, hargs, hlocals⟩⟩ := hentered.entry hn hj
  · rw [hmain, Frame.ofMain, Array.getElem?_replicate]
    exact if_pos hk
  · rw [hlocals, FunctionCode.locals, List.getElem?_toArray, List.getElem?_append_right (by omega),
      List.getElem?_replicate]
    exact if_pos (by omega)

end

section

variable {p : Program} {r : Resolutions} {f : FunctionDecl} {σ : Type} {h : Handler σ}
  {limits : Limits} {w w' : σ} {j n k m : Nat} {s : State} {frame : Frame}
  {above callers : List Frame}

/-- One turn keeps a slot at what was last stored there. -/
theorem FunctionDecl.Resolved.lastStored_turn (hf : f.Resolved p r) (hjm : j ≤ m)
    (hdepth : ((p.layout r).framesAt h limits w n).length = callers.length + 1)
    (hm : (p.layout r).run h limits w m = .running s w')
    (hsplit : s.frames.items = above ++ frame :: callers) (hfunction : frame.function = f.layout r)
    {v : Value} (hv : frame.locals[k]? = some v)
    (hlast : LastStored ((p.layout r).AssignsAt h limits w r f n k) j m v) :
    ∃ v', (frame.after (if above.isEmpty then s.stores? else none))[k]? = some v' ∧
      LastStored ((p.layout r).AssignsAt h limits w r f n k) j (m + 1) v' := by
  cases above with
  | cons top above =>
    refine ⟨v, hv, hlast.keep ?_⟩
    rintro u ⟨s', w'', -, hdeep, -⟩
    rw [Table.framesAt_running hm, hsplit, hdepth, List.length_append, List.length_cons,
      List.length_cons] at hdeep
    omega
  | nil =>
    rw [List.isEmpty_nil, if_pos rfl]
    have hiff : ∀ u, (p.layout r).AssignsAt h limits w r f n k m u ↔ s.stores? = some (k, u) := by
      intro u
      rw [hf.stores?_eq_some_iff hsplit hfunction]
      constructor
      · rintro ⟨s', w'', hm', -, hassigns⟩
        cases hm.symm.trans hm'
        exact hassigns
      · intro hassigns
        refine ⟨s, w', hm, ?_, hassigns⟩
        rw [Table.framesAt_running hm, hsplit, hdepth]
        rfl
    by_cases hstores : ∃ u, s.stores? = some (k, u)
    · obtain ⟨u, hu⟩ := hstores
      have hsize : k < frame.locals.size := (Array.getElem?_eq_some_iff.1 hv).1
      refine ⟨u, ?_, .store hjm ((hiff u).2 hu)⟩
      rw [hu, Frame.after, Array.getElem?_setIfInBounds_self_of_lt hsize]
    · refine ⟨v, ?_, hlast.keep fun u hu => hstores ⟨u, (hiff u).1 hu⟩⟩
      cases hother : s.stores? with
      | none => exact hv
      | some stored =>
        have hne : stored.1 ≠ k := by
          intro heq
          exact hstores ⟨stored.2, by rw [hother, ← heq]⟩
        rw [Frame.after, Array.getElem?_setIfInBounds_ne hne, hv]

/-- A slot of the innermost call that is none of its parameters holds what the call last stored
there. -/
theorem FunctionDecl.Resolved.lastStored_local (hf : f.Resolved p r)
    (hentered : (p.layout r).EnteredAt h limits w j n)
    (hn : (p.layout r).run h limits w n = .running s w')
    (hframes : s.frames.items = frame :: callers) (hfunction : frame.function = f.layout r)
    (hparam : f.params.length ≤ k) (hk : k < (f.layout r).localCount) :
    ∃ v, frame.locals[k]? = some v ∧
      LastStored ((p.layout r).AssignsAt h limits w r f n k) j n v := by
  obtain ⟨entry, hentry, hsame⟩ := hentered.entry_frame hn hframes
  rw [hfunction] at hsame
  have hdepth : ((p.layout r).framesAt h limits w n).length = callers.length + 1 := by
    rw [Table.framesAt_running hn, hframes, List.length_cons]
  have hempty : entry.locals[k]? = some .nothing := by
    apply hentered.entry_local hn hentry
    · rw [hsame]
      exact hparam
    · rw [hsame]
      exact hk
  have hrun := hentered.invariant
    (P := fun m frame₁ => frame₁.function = f.layout r ∧ ∃ v, frame₁.locals[k]? = some v ∧
      LastStored ((p.layout r).AssignsAt h limits w r f n k) j m v)
    hn hentry ⟨hsame, .nothing, hempty, .start j⟩
  obtain ⟨frame', hframes', -, hlast⟩ := hrun (by
    intro m s₁ w₁ above frame₁ frame₂ hjm _ hm hsplit ⟨hf₁, v, hv, hlast⟩ hf₂ hlocals
    rw [hlocals]
    exact ⟨hf₂.trans hf₁, hf.lastStored_turn hjm hdepth hm hsplit hf₁ hv hlast⟩)
  rw [hframes] at hframes'
  cases hframes'
  exact hlast

end

/-- A turn at a load breaks a limit or pushes what is in the slot. -/
theorem State.turn_load {σ : Type} (h : Handler σ) (t : Table) (limits : Limits) (w : σ) {s : State}
    {frame : Frame} {callers : List Frame} {k : Nat} {v : Value}
    (hframes : s.frames.items = frame :: callers)
    (hload : frame.function.code.toList[frame.pc]? = some (.load (.frame k)))
    (hv : frame.locals[k]? = some v) :
    (∃ fault s', s.turn h t limits w = .halted (.error (.limit fault)) s' w) ∨
      ∃ s', s.turn h t limits w = .running s' w ∧ s'.stack.items = v :: s.stack.items := by
  have hs : s = .of s.stack.items s.globals (frame :: callers) s.steps := by
    rw [← hframes]
    exact s.eq_of
  rw [hs]
  rcases State.turn_of h t limits w hload with hlimit | hexec
  · exact Or.inl hlimit
  · rw [State.execute, State.load_of, Slot.read, hv] at hexec
    exact Or.inr ⟨_, hexec, rfl⟩

/-- When a variable that the running function declares is read (its parameters have the first
slots), a limit is broken or the value pushed is the one last stored in its slot since the function
was called, by an assignment to any variable that has this slot; it is `nothing` if there was no
such assignment. -/
theorem Program.run_reads_last_stored {items : List Item} {r : Resolutions} {t : Table}
    (hr : (Program.ofItems items).resolve = .ok r) (hc : (Program.ofItems items).code r = .ok t)
    {σ : Type} (h : Handler σ) (limits : Limits) (w : σ) (n : Nat) {f : FunctionDecl}
    (hf : f ∈ (Program.ofItems items).functions) {s : State} {w' : σ} {frame : Frame}
    {callers : List Frame} (hn : t.run h limits w n = .running s w')
    (hframes : s.frames.items = frame :: callers) (hname : frame.function.name = f.name)
    {id k : Nat} {name : String} (hread : (frame.pc, .var id name) ∈ f.expressions)
    (hslot : r.slot? id = some (.frame k)) (hlocal : f.params.length ≤ k) :
    (∃ j, t.EnteredAt h limits w j n) ∧
      ((∃ fault s', t.run h limits w (n + 1) = .halted (.error (.limit fault)) s' w') ∨
        ∃ s' v, t.run h limits w (n + 1) = .running s' w' ∧ s'.stack.items = v :: s.stack.items ∧
          ∀ j, t.EnteredAt h limits w j n →
            LastStored (t.AssignsAt h limits w r f n k) j n v) := by
  obtain ⟨hresolved, rfl⟩ := Program.ofItems_layout hr hc
  have ht := hresolved.balanced
  have htop := (ht.parts hn hframes).top
  have hfunction := hresolved.eq_layout_of_name hf htop.function hname
  have hfr := hresolved.function f hf
  have hload : frame.function.code.toList[frame.pc]? = some (.load (.frame k)) := by
    rw [hfunction]
    exact hfr.load_of_var hread hslot
  have hk : k < frame.function.localCount :=
    Instr.load_operand_iff.1 ((ht.function _ htop.function).instr hload).operand
  have hentry := Table.exists_entry hn hframes
  refine ⟨hentry, ?_⟩
  obtain ⟨v, hv⟩ : ∃ v, frame.locals[k]? = some v :=
    ⟨_, Array.getElem?_eq_getElem (by rw [htop.locals]; exact hk)⟩
  rw [Table.run_succ, hn, Turn.advance_running, Turn.advance_zero]
  rcases State.turn_load h _ limits w' hframes hload hv with hlimit | ⟨s', hturn, hstack⟩
  · exact Or.inl hlimit
  · refine Or.inr ⟨s', v, hturn, hstack, ?_⟩
    intro j hj
    rw [hfunction] at hk
    obtain ⟨v', hv', hlast⟩ := hfr.lastStored_local hj hn hframes hfunction hlocal hk
    cases hv.symm.trans hv'
    exact hlast

/-- Two variables one after the other, in the same slot:
`main() { if (TRUE) { decl a; a = 1; } decl b; return b; }`. -/
def successors : List Item :=
  [.function ⟨"main", [],
    [.branch (.literal (.bool true)) [.declare ["a"], .assign 0 "a" (.literal (.int 1))] [],
      .declare ["b"], .ret (some (.var 0 "b"))]⟩]

/-- After four turns `b` is about to be read. -/
theorem Program.run_reads_last_stored_successors :
    ∃ f r t s w' frame, (Program.ofItems successors).functions = [f] ∧
      (Program.ofItems successors).resolve = .ok r ∧
      (Program.ofItems successors).code r = .ok t ∧
      t.run Recording.handler .standard (.ofInputs [] none none) 4 = .running s w' ∧
      s.frames.items = [frame] ∧ frame.function.name = f.name ∧
      (frame.pc, .var 1 "b") ∈ f.expressions ∧ r.slot? 1 = some (.frame 0) ∧
      (∃ j, t.EnteredAt Recording.handler .standard (.ofInputs [] none none) j 4) ∧
      ((∃ fault s', t.run Recording.handler .standard (.ofInputs [] none none) 5 =
          .halted (.error (.limit fault)) s' w') ∨
        ∃ s' v, t.run Recording.handler .standard (.ofInputs [] none none) 5 = .running s' w' ∧
          s'.stack.items = v :: s.stack.items ∧
          ∀ j, t.EnteredAt Recording.handler .standard (.ofInputs [] none none) j 4 →
            LastStored (t.AssignsAt Recording.handler .standard (.ofInputs [] none none) r f 4 0)
              j 4 v) := by
  refine ⟨_, _, _, _, _, _, rfl, rfl, rfl, rfl, rfl, rfl, .tail _ (.tail _ (.head _)), rfl, ?_⟩
  have hresolve : (Program.ofItems successors).resolve = .ok _ := rfl
  exact Program.run_reads_last_stored hresolve rfl Recording.handler .standard _ 4 (.head _) rfl rfl
    rfl (.tail _ (.tail _ (.head _))) rfl (Nat.le_refl 0)

/-- A variable need not read as `nothing` before it is set: nothing is ever assigned to `b`, but
reading it gives what was assigned to `a`. -/
theorem Program.unassigned_reads_int :
    ∃ f r t s s' w' frame, (Program.ofItems successors).functions = [f] ∧
      (∀ start id value, (start, Stmt.assign id "b" value) ∉ f.placed) ∧
      (Program.ofItems successors).resolve = .ok r ∧
      (Program.ofItems successors).code r = .ok t ∧
      t.run Recording.handler .standard (.ofInputs [] none none) 4 = .running s w' ∧
      s.frames.items = [frame] ∧ (frame.pc, .var 1 "b") ∈ f.expressions ∧
      r.slot? 1 = some (.frame 0) ∧ f.params = [] ∧
      t.run Recording.handler .standard (.ofInputs [] none none) 5 = .running s' w' ∧
      s'.stack.items = .int 1 :: s.stack.items := by
  refine ⟨_, _, _, _, _, _, _, rfl, ?_, rfl, rfl, rfl, rfl, .tail _ (.tail _ (.head _)), rfl, rfl,
    rfl, rfl⟩
  intro start id value hassign
  simp [FunctionDecl.placed, Stmt.numberAll, Stmt.number, Stmt.placedAll, Stmt.placed] at hassign

end StackLang

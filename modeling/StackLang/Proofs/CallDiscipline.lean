import StackLang.Proofs.CallTargets
import StackLang.Proofs.StackSafety

/-!
What a call leaves behind. All calls share one stack and a return does not look at its height, but
in balanced code no instruction takes a value that was there when the innermost call was entered. So
these values stay where they are until that call returns, whatever it does, and then there is one
value more: the one that it returns. The calls around it go on as they were.
-/
namespace StackLang

theorem Frame.waiting_append (t : Table) (above callers : List Frame) :
    Frame.waiting t (above ++ callers) = Frame.waiting t above + Frame.waiting t callers := by
  induction above with
  | nil => simp
  | cons frame above ih =>
    simp only [List.cons_append, Frame.waiting_cons, ih]
    omega

section

variable {σ : Type} {h : Handler σ} {t : Table} {limits : Limits} {w : σ}

/-- Values that an instruction does not reach stay below what it puts on the stack. -/
theorem Executed.keeps_below {values below : List Value} {globals : Array Value} {frame : Frame}
    {callers : List Frame} {i : Instr} {s' : State} {w' : σ} (hbelow : below <:+ values)
    (hroom : below.length + i.takes t ≤ values.length)
    (hex : Executed t values globals frame callers i (.running s' w')) :
    below <:+ s'.stack.items := by
  cases hex with
  | goesOn taken pushed rest hcall hpc hvalues htaken hpushed hset =>
    have hlength : below.length ≤ rest.length := by
      rw [hvalues, List.length_append, htaken] at hroom
      omega
    rw [hvalues] at hbelow
    have hrest := List.suffix_of_suffix_length_le hbelow (List.suffix_append taken rest) hlength
    exact hrest.trans (List.suffix_append pushed rest)
  | enters function f args rest hf hvalues hargs =>
    have hlength : below.length ≤ rest.length := by
      rw [hvalues, List.length_append, hargs, Instr.takes, hf] at hroom
      simp only [Option.map_some, Option.getD_some] at hroom
      omega
    rw [hvalues] at hbelow
    exact List.suffix_of_suffix_length_le hbelow (List.suffix_append args rest) hlength
  | returns v rest caller outer hvalues hcallers =>
    rw [hvalues] at hbelow
    exact hbelow

/-- In balanced code, an instruction reaches only values of the innermost call. -/
theorem Table.Balanced.keeps_below (ht : t.Balanced) {s s' : State} {w₁ w₂ : σ} {n : Nat}
    {above callers : List Frame} {frame : Frame} {below : List Value}
    (hn : t.run h limits w n = .running s w₁) (hturn : s.turn h t limits w₁ = .running s' w₂)
    (hsplit : s.frames.items = above ++ frame :: callers) (hbelow : below <:+ s.stack.items)
    (hlength : below.length = Frame.waiting t callers) : below <:+ s'.stack.items := by
  obtain ⟨top, outer, hframes, hwaiting⟩ : ∃ top outer, s.frames.items = top :: outer ∧
      Frame.waiting t callers ≤ Frame.waiting t outer := by
    cases above with
    | nil => exact ⟨frame, callers, hsplit, Nat.le_refl _⟩
    | cons top above =>
      refine ⟨top, above ++ frame :: callers, hsplit, ?_⟩
      rw [Frame.waiting_append, Frame.waiting_cons]
      omega
  have hparts := ht.parts hn hframes
  have hheight := hparts.height
  obtain ⟨i, hi⟩ := hparts.inPlace.instr
  have hpops : i.pops t ≤ top.height t :=
    ((ht.function _ hparts.top.function).instr hi).pops
  have hex := State.turn_executed h t limits w₁ hframes hi
  rw [hturn] at hex
  refine hex.keeps_below hbelow ?_
  rw [Instr.takes_eq_pops ht.callee i]
  omega

/-- The values that were on the stack when the innermost call was entered are still there, and the
calls around it are the same. -/
theorem Table.EnteredAt.keeps_below (ht : t.Balanced) {j n : Nat} {s₀ s : State} {w₀ w' : σ}
    {entered : Frame} {callers : List Frame} (hentered : t.EnteredAt h limits w j n)
    (hj : t.run h limits w j = .running s₀ w₀) (hframes : s₀.frames.items = entered :: callers)
    (hn : t.run h limits w n = .running s w') :
    s₀.stack.items.length = Frame.waiting t callers ∧
      ∃ frame, s.frames.items = frame :: callers ∧ s₀.stack.items <:+ s.stack.items := by
  have hframesAt : t.framesAt h limits w j = entered :: callers :=
    (Table.framesAt_running hj).trans hframes
  have hlength : s₀.stack.items.length = Frame.waiting t callers := by
    have hheight := (ht.parts hj hframes).height
    rw [Frame.height, (hentered.entry hn hframesAt).1, heightAt_zero, Nat.zero_add] at hheight
    exact hheight
  refine ⟨hlength, ?_⟩
  have hkept : ∃ frame, s.frames.items = frame :: callers ∧
      s₀.stack.items <:+ (t.run h limits w n).state.stack.items := by
    apply hentered.invariant (P := fun k _ =>
      s₀.stack.items <:+ (t.run h limits w k).state.stack.items) hn hframesAt
    · rw [hj]
      exact List.suffix_rfl
    · intro k s₁ w₁ above frame₁ frame₂ _ hk hrun hsplit hbelow _ _
      obtain ⟨_, _, s₂, w₂, hbefore, hafter, hturn⟩ := Table.run_turn hk hn
      rw [hrun] at hbefore
      cases hbefore
      rw [hrun] at hbelow
      rw [hafter]
      exact ht.keeps_below hrun hturn hsplit hbelow hlength
  rw [hn] at hkept
  exact hkept

/-- A return to another call breaks a limit, or leaves the value on the stack and the calls around
as they are. -/
theorem State.turn_ret {s : State} {w : σ} {frame caller : Frame} {outer : List Frame} {v : Value}
    {rest : List Value} (hframes : s.frames.items = frame :: caller :: outer)
    (hret : frame.function.code.toList[frame.pc]? = some .ret)
    (hvalues : s.stack.items = v :: rest) :
    (∃ fault s', s.turn h t limits w = .halted (.error (.limit fault)) s' w) ∨
      s.turn h t limits w =
        .running (.of (v :: rest) s.globals (caller :: outer) (s.steps + 1)) w := by
  rw [s.eq_of, hframes, hvalues]
  exact State.turn_of h t limits w hret

end

/-- The first variables of a new call are its arguments, and the others are not set. -/
theorem FunctionCode.toList_locals {t : Table} {f : FunctionCode} (hf : f.Checked t)
    {args : List Value} (hargs : args.length = f.paramCount) :
    (f.locals args).toList =
      args ++ List.replicate ((f.locals args).size - args.length) .nothing := by
  rw [hf.size_locals hargs, hargs]
  rfl

/-- Calls of a compiled program. A call takes as many values from the stack as the function has
parameters, the first argument being on top; these are the first variables of the new call, and its
others are not set. When this call comes to a return, nothing but the value it returns is above what
was left on the stack when it was entered, and if no limit is broken the machine goes on with just
these values, and with the calls around it as they were, the caller being past the call. -/
theorem Program.run_call_returns {items : List Item} {r : Resolutions} {t : Table}
    (hr : (Program.ofItems items).resolve = .ok r) (hc : (Program.ofItems items).code r = .ok t)
    {σ : Type} (h : Handler σ) (limits : Limits) (w : σ) {k : Nat} {s s' : State} {w₁ w₂ : σ}
    {frame : Frame} {callers : List Frame} {name : String}
    (hk : t.run h limits w k = .running s w₁) (hframes : s.frames.items = frame :: callers)
    (hcall : frame.function.code.toList[frame.pc]? = some (.call name))
    (hnext : t.run h limits w (k + 1) = .running s' w₂) :
    ∃ f ∈ (Program.ofItems items).functions, ∃ args rest entered,
      f.name = name ∧ args.length = f.params.length ∧
      s.stack.items = args ++ rest ∧ s'.stack.items = rest ∧
      s'.frames.items = entered :: { frame with pc := frame.pc + 1 } :: callers ∧
      entered.function = f.layout r ∧ entered.pc = 0 ∧
      entered.locals.size = (f.layout r).localCount ∧
      entered.locals.toList =
        args ++ List.replicate (entered.locals.size - args.length) .nothing ∧
      ∀ n u w₃ top outer, t.EnteredAt h limits w (k + 1) n → t.run h limits w n = .running u w₃ →
        u.frames.items = top :: outer → top.function.code.toList[top.pc]? = some .ret →
        ∃ v, u.stack.items = v :: rest ∧
          ((∃ fault u' w₄, t.run h limits w (n + 1) = .halted (.error (.limit fault)) u' w₄) ∨
            ∃ u' w₄, t.run h limits w (n + 1) = .running u' w₄ ∧ u'.stack.items = v :: rest ∧
              u'.frames.items = { frame with pc := frame.pc + 1 } :: callers) := by
  obtain ⟨hresolved, rfl⟩ := Program.ofItems_layout hr hc
  have ht := hresolved.balanced
  have hturn := hnext
  rw [Table.run_succ, hk, Turn.advance_running, Turn.advance_zero] at hturn
  obtain ⟨last, args, hlast, hargs, hvalues, hentered⟩ := State.turn_call hframes hcall hturn
  obtain ⟨hmem, hname⟩ := Table.callee?_mem hlast
  obtain ⟨f, hf, rfl⟩ := List.mem_map.1 hmem
  have hchecked := (ht.function _ hmem).checked
  refine ⟨f, hf, args, _, _, hname, hargs, hvalues, rfl, hentered, rfl, rfl,
    hchecked.size_locals hargs, FunctionCode.toList_locals hchecked hargs, ?_⟩
  intro n u w₃ top outer hat hn htop hret
  obtain ⟨hlength, frame', hframes', hbelow⟩ := hat.keeps_below ht hnext hentered hn
  rw [htop] at hframes'
  cases hframes'
  -- A return finds one value of its call, so the others are those from before the call.
  obtain ⟨own, hown⟩ := hbelow
  have hparts := ht.parts hn htop
  have hone : top.height _ = 1 := ((ht.function _ hparts.top.function).instr hret).returns rfl
  have hheight := hparts.height
  rw [← hown, List.length_append, hone, hlength] at hheight
  obtain ⟨v, rfl⟩ := List.length_eq_one_iff.1 (by omega : own.length = 1)
  refine ⟨v, hown.symm, ?_⟩
  rw [Table.run_succ, hn, Turn.advance_running, Turn.advance_zero]
  rcases State.turn_ret htop hret hown.symm with ⟨fault, u', hlimit⟩ | hreturn
  · exact Or.inl ⟨fault, u', w₃, hlimit⟩
  · exact Or.inr ⟨_, w₃, hreturn, rfl, rfl⟩

/-- A call that makes another one, with an operand of the caller below its arguments:
`g(c) { decl x; return c; } f(a, b) { return a - g(b); } main() { return 10 - f(1, 2); }`. -/
def callInCall : List Item :=
  [.function ⟨"g", ["c"], [.declare ["x"], .ret (some (.var 0 "c"))]⟩,
  .function ⟨"f", ["a", "b"],
    [.ret (some (.binary .sub (.var 0 "a") (.call "g" [.var 0 "b"])))]⟩,
  .function ⟨"main", [],
    [.ret (some (.binary .sub (.literal (.int 10))
      (.call "f" [.literal (.int 1), .literal (.int 2)])))]⟩]

def callInCallTable : Table :=
  ⟨0, [⟨"g", 1, 2, #[.load (.frame 0), .ret, .push .nothing, .ret]⟩,
    ⟨"f", 2, 2, #[.load (.frame 0), .load (.frame 1), .call "g", .binary .sub, .ret,
      .push .nothing, .ret]⟩,
    ⟨"main", 0, 0, #[.push (.int 10), .push (.int 2), .push (.int 1), .call "f", .binary .sub, .ret,
      .push .nothing, .ret]⟩]⟩

/-- The fourth turn calls `f`, and the seventh `g`. After ten turns `f` comes to its return, and the
next one leaves its value above the operand of `main`. -/
theorem Program.run_call_returns_callInCall :
    callInCallTable.EnteredAt Recording.handler .standard (.ofInputs [] none none) 4 10 ∧
      ∃ u w₁ u' w₂ v,
        callInCallTable.run Recording.handler .standard (.ofInputs [] none none) 10 =
          .running u w₁ ∧ u.stack.items = [v, .int 10] ∧
        callInCallTable.run Recording.handler .standard (.ofInputs [] none none) 11 =
          .running u' w₂ ∧ u'.stack.items = [v, .int 10] := by
  have hentered : callInCallTable.EnteredAt Recording.handler .standard (.ofInputs [] none none)
      4 10 := by
    refine ⟨by decide, rfl, ?_, ?_⟩
    · intro k hlow hhigh
      have hk : k = 4 ∨ k = 5 ∨ k = 6 ∨ k = 7 ∨ k = 8 ∨ k = 9 ∨ k = 10 := by omega
      rcases hk with rfl | rfl | rfl | rfl | rfl | rfl | rfl <;> decide
    · intro k hk
      obtain rfl : k = 3 := by omega
      decide
  refine ⟨hentered, ?_⟩
  have hresolve : (Program.ofItems callInCall).resolve = .ok _ := rfl
  have hcall := Program.run_call_returns (t := callInCallTable) hresolve rfl Recording.handler
    .standard (.ofInputs [] none none) (k := 3) rfl rfl rfl rfl
  obtain ⟨f, hf, args, rest, entered, hname, hargs, hvalues, hrest, hframes, hfunction, hpc, hsize,
    hlocals, hreturns⟩ := hcall
  obtain rfl : [.int 10] = rest := hrest
  obtain ⟨v, hone, hnext⟩ := hreturns 10 _ _ _ _ hentered rfl rfl rfl
  rcases hnext with ⟨fault, u', w', hlimit⟩ | ⟨u', w', hrun, hstack, hframes⟩
  · cases hlimit
  · exact ⟨_, _, u', w', v, rfl, hone, hrun, hstack⟩

end StackLang

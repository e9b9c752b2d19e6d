import StackLang.Proofs.BalancedCode
import StackLang.Proofs.Following

/-!
The machine follows the evaluator that holds variables in slots. Expressions leave their value on
the stack; a statement leaves the stack as it was, with control after it, at a label of the loop
around it, or at a return. Calls are followed by induction on the fuel, the bodies of functions by
induction on the tree.
-/
namespace StackLang

open Scope

section

variable {σ : Type} {h : Handler σ} {p : Program} {r : Resolutions} {limits : Limits}

/-- With the given fuel, calls are followed from the instruction that makes them. -/
def CallsFollow (h : Handler σ) (p : Program) (r : Resolutions) (limits : Limits) (fuel : Nat) :
    Prop :=
  ∀ {name : String} {d : FunctionDecl} {args rest : List Value} {f : FunctionCode}
    {callers : List Frame} {pc : Nat} {m : SlotMemory σ} {turn : Turn σ},
    p.find? name = some d → args.length = d.params.length →
    f.code.toList[pc]? = some (.call name) → At f callers pc (args ++ rest) m turn →
    Follows h (p.layout r) limits Memory.toShared (openCalls callers f) fuel turn
      (Eval.fromCall (p.call r.store h fuel d args) m)
      fun v m' => At f callers (pc + 1) (v :: rest) m'

section

variable {size fuel : Nat} {frames : List Scope} {f : FunctionCode} {callers : List Frame}

mutual

/-- The code of an expression leaves its value on the stack. -/
theorem Expr.follows {pc : Nat} {values : List Value} {m : SlotMemory σ} {turn : Turn σ}
    (hcalls : CallsFollow h p r limits fuel) (e : Expr) (he : e.Resolved p r size frames)
    (hc : CodeAt f.code.toList pc (e.layout r)) (hat : At f callers pc values m turn) :
    Follows h (p.layout r) limits Memory.toShared (openCalls callers f) fuel turn
      (e.eval r.store h p (p.call r.store h fuel) m)
      fun v m' => At f callers (pc + e.length) (v :: values) m' := by
  cases e with
  | literal v =>
    rw [Expr.eval, Expr.length]
    refine Follows.turn (hat.push hc.get) fun next hnext => ?_
    exact .done hnext
  | var id name =>
    simp only [Expr.Resolved] at he
    obtain ⟨slot, -, hslot, -⟩ := he
    have hload : f.code.toList[pc]? = some (.load slot) := by
      rw [hc.get, Resolutions.slotAt, hslot]
      rfl
    rw [Expr.eval, Expr.length]
    exact hat.read name hslot hload
  | unary op operand =>
    simp only [Expr.Resolved] at he
    obtain ⟨hoperand, hop⟩ := hc.unary
    rw [Expr.eval, Expr.length]
    refine (Expr.follows hcalls operand he hoperand hat).bind fun v m' next hnext => ?_
    exact hnext.operator hop.get fun _ => rfl
  | binary op left right =>
    simp only [Expr.Resolved] at he
    obtain ⟨hleft, hright, hop⟩ := hc.binary
    rw [Expr.eval, Expr.length]
    refine (Expr.follows hcalls left he.1 hleft hat).bind fun a m₁ next₁ hnext₁ => ?_
    refine (Expr.follows hcalls right he.2 hright hnext₁).bind fun b m₂ next₂ hnext₂ => ?_
    rw [← Nat.add_assoc, ← Nat.add_assoc]
    exact hnext₂.operator hop.get fun _ => rfl
  | call function args =>
    simp only [Expr.Resolved] at he
    obtain ⟨harity, hargs⟩ := he
    obtain ⟨hargsCode, hcall⟩ := hc.call
    rw [Expr.eval, Expr.length]
    refine (Expr.follows_args hcalls args hargs hargsCode hat).bind
      fun vs m' next ⟨hlength, hnext⟩ => ?_
    have hinstr := hcall.get
    unfold callInstr at hinstr
    unfold Program.arity? at harity
    cases hnative : Native.ofName? function with
    | some native =>
      rw [hnative] at hinstr harity
      have hone : args.length = 1 := (Option.some.inj harity).symm
      obtain ⟨v, rfl⟩ : ∃ v, vs = [v] := List.length_eq_one_iff.1 (hlength.trans hone)
      exact hnext.native hinstr (Native.ofIndex?_index native)
    | none =>
      rw [hnative] at hinstr harity
      obtain ⟨d, hfind, hparams⟩ := Option.map_eq_some_iff.1 harity
      simp only [hfind]
      exact hcalls hfind (hlength.trans hparams.symm) hinstr hnext

/-- The code of arguments leaves their values on the stack, the first one on top. -/
theorem Expr.follows_args {pc : Nat} {values : List Value} {m : SlotMemory σ} {turn : Turn σ}
    (hcalls : CallsFollow h p r limits fuel) (es : List Expr)
    (hes : Expr.ResolvedAll p r size frames es)
    (hc : CodeAt f.code.toList pc (Expr.layoutReversed r es))
    (hat : At f callers pc values m turn) :
    Follows h (p.layout r) limits Memory.toShared (openCalls callers f) fuel turn
      (Expr.evalArgs r.store h p (p.call r.store h fuel) es m)
      fun vs m' next => vs.length = es.length ∧
        At f callers (pc + Expr.lengthAll es) (vs ++ values) m' next := by
  cases es with
  | nil =>
    rw [Expr.evalArgs]
    exact .done ⟨rfl, hat⟩
  | cons e rest =>
    simp only [Expr.ResolvedAll] at hes
    obtain ⟨hrest, hfirst⟩ := hc.args_cons
    rw [Expr.evalArgs, Expr.lengthAll]
    refine (Expr.follows_args hcalls rest hes.2 hrest hat).bind
      fun vs m₁ next₁ ⟨hlength, hnext₁⟩ => ?_
    refine (Expr.follows hcalls e hes.1 hfirst hnext₁).bind fun v m₂ next₂ hnext₂ => ?_
    refine .done ⟨by simp [hlength], ?_⟩
    rw [Nat.add_comm e.length, ← Nat.add_assoc]
    exact hnext₂

end

/-- Where control is after a statement that ended so, inside the loop with these labels if there is
one: after it, at one of the labels, or at a return. -/
def FlowAt (f : FunctionCode) (callers : List Frame) (loop : LoopLabels) (inLoop : Prop)
    (after : Nat) (values : List Value) : Flow → SlotMemory σ → Turn σ → Prop
  | .next, m, turn => At f callers after values m turn
  | .leave, m, turn => inLoop ∧ At f callers loop.exit values m turn
  | .again, m, turn => inLoop ∧ At f callers loop.check values m turn
  | .ret v, m, turn => ∃ pc, f.code.toList[pc]? = some .ret ∧ At f callers pc (v :: values) m turn

/-- A piece of code that goes on to its end jumps on from there; one that does not is left as it
is. -/
theorem FlowAt.jump_over {loop : LoopLabels} {inLoop : Prop} {after target : Nat}
    {values : List Value} {flow : Flow} {m : SlotMemory σ} {turn : Turn σ}
    (hflow : FlowAt f callers loop inLoop after values flow m turn)
    (hskip : f.code.toList[after]? = some (.jump target)) :
    Follows h t limits Memory.toShared (openCalls callers f) fuel turn (.done flow m)
      (FlowAt f callers loop inLoop target values) := by
  cases flow with
  | next =>
    refine Follows.turn (At.jump hflow hskip) fun next hnext => ?_
    exact .done hnext
  | leave => exact .done hflow
  | again => exact .done hflow
  | ret v => exact .done hflow

theorem Eval.block_slots (body : Eval (SlotMemory σ) Flow) (m : SlotMemory σ) :
    Eval.block r.store body m = body m := by
  rw [Eval.block_eq]
  have hopen : ({ m with locals := r.store.openScope m.locals } : SlotMemory σ) = m := rfl
  rw [hopen]
  cases body m <;> rfl

/-- The rounds of a loop, from its condition on. Each round takes at least the turn that jumps back,
so as many rounds as there is fuel take as many turns. -/
theorem Eval.rounds_follow {t : Table} {cond : Eval (SlotMemory σ) Value}
    {body : Eval (SlotMemory σ) Flow} {labels loop : LoopLabels} {inner outer : Prop}
    {top back : Nat} {values : List Value}
    (hback : f.code.toList[back]? = some (.jumpIf top)) (hexit : labels.exit = back + 1)
    (hcond : ∀ {m : SlotMemory σ} {turn : Turn σ}, At f callers labels.check values m turn →
      Follows h t limits Memory.toShared (openCalls callers f) fuel turn (cond m)
        fun v m' => At f callers back (v :: values) m')
    (hbody : ∀ {m : SlotMemory σ} {turn : Turn σ}, At f callers top values m turn →
      Follows h t limits Memory.toShared (openCalls callers f) fuel turn (body m)
        (FlowAt f callers labels inner labels.check values))
    (n : Nat) (hn : n ≤ fuel) {m : SlotMemory σ} {turn : Turn σ}
    (hat : At f callers labels.check values m turn) :
    Follows h t limits Memory.toShared (openCalls callers f) n turn (Eval.rounds cond body n m)
      (FlowAt f callers loop outer labels.exit values) := by
  induction n generalizing m turn with
  | zero =>
    obtain ⟨steps, rfl⟩ := hat
    exact ⟨0, Or.inr ⟨Nat.le_refl 0, rfl⟩⟩
  | succ n ih =>
    have hn' : n ≤ fuel := by omega
    rw [Eval.rounds]
    refine ((hcond hat).mono hn).bind fun v m₁ next₁ hnext₁ => ?_
    refine Follows.step (hnext₁.jumpIf hback) fun next₂ hnext₂ => ?_
    by_cases hv : v.truthy
    · rw [if_pos hv] at hnext₂ ⊢
      refine ((hbody hnext₂).mono hn').bind fun flow m₂ next₃ hnext₃ => ?_
      cases flow with
      | next => exact ih hn' hnext₃
      | again => exact ih hn' hnext₃.2
      | leave => exact .done hnext₃.2
      | ret v => exact .done hnext₃
    · rw [if_neg hv] at hnext₂ ⊢
      rw [hexit]
      exact .done hnext₂

def InLoop (p : Program) (frames : List Scope) : Prop := (p.scopes frames).nearestLoop? ≠ none

mutual

/-- The code of a statement leaves the stack as it was. -/
theorem Stmt.follows {frames : List Scope} {loop : LoopLabels} {pc : Nat} {values : List Value}
    {m : SlotMemory σ} {turn : Turn σ} (hcalls : CallsFollow h p r limits fuel) (s : Stmt)
    (hs : s.Resolved p r size frames) (hc : CodeAt f.code.toList pc (s.layout r loop pc))
    (hat : At f callers pc values m turn) :
    Follows h (p.layout r) limits Memory.toShared (openCalls callers f) fuel turn
      (s.exec r.store h p (p.call r.store h fuel) fuel m)
      (FlowAt f callers loop (InLoop p frames) (pc + s.length) values) := by
  cases s with
  | declare names =>
    rw [Stmt.exec, Stmt.length]
    exact .done hat
  | assign id name value =>
    simp only [Stmt.Resolved] at hs
    rw [Stmt.layout] at hc
    obtain ⟨hvalue, hstore⟩ := hc.value_then
    obtain ⟨slot, -, hslot, -⟩ := hs.2
    have hinstr : f.code.toList[pc + value.length]? = some (.store slot) := by
      rw [hstore.get, Resolutions.slotAt, hslot]
      rfl
    rw [Stmt.exec, Stmt.length]
    refine (Expr.follows hcalls value hs.1 hvalue hat).bind fun v m₁ next₁ hnext₁ => ?_
    refine (hnext₁.write name hslot hinstr).bind fun _ m₂ next₂ hnext₂ => ?_
    exact .done hnext₂
  | ret value =>
    cases value with
    | none =>
      rw [Stmt.layout] at hc
      rw [Stmt.exec]
      refine Follows.turn (hat.push hc.get) fun next hnext => ?_
      exact .done ⟨pc + 1, hc.tail.get, hnext⟩
    | some value =>
      simp only [Stmt.Resolved] at hs
      rw [Stmt.layout] at hc
      obtain ⟨hvalue, hret⟩ := hc.value_then
      rw [Stmt.exec]
      refine (Expr.follows hcalls value hs hvalue hat).bind fun v m' next hnext => ?_
      exact .done ⟨pc + value.length, hret.get, hnext⟩
  | leave id =>
    simp only [Stmt.Resolved] at hs
    obtain ⟨target, hnear, -⟩ := hs
    rw [Stmt.layout] at hc
    rw [Stmt.exec]
    refine Follows.turn (hat.jump hc.get) fun next hnext => ?_
    exact .done ⟨by simp [InLoop, hnear], hnext⟩
  | again id =>
    simp only [Stmt.Resolved] at hs
    obtain ⟨target, hnear, -⟩ := hs
    rw [Stmt.layout] at hc
    rw [Stmt.exec]
    refine Follows.turn (hat.jump hc.get) fun next hnext => ?_
    exact .done ⟨by simp [InLoop, hnear], hnext⟩
  | branch cond thenBody elseBody =>
    simp only [Stmt.Resolved] at hs
    obtain ⟨hcond, hthen, helse⟩ := hs
    obtain ⟨elseStart, thenStart, b⟩ := hc.branch
    have hend : pc + (Stmt.branch cond thenBody elseBody).length =
        thenStart + Stmt.lengthAll thenBody := by
      rw [b.then_eq, b.else_eq, Stmt.length]
      omega
    have hloop : InLoop p (openIn .block frames) = InLoop p frames := by
      rw [InLoop, Scopes.nearestLoop?_block, InLoop]
    rw [Stmt.exec, hend]
    refine (Expr.follows hcalls cond hcond b.condCode hat).bind fun v m₁ next₁ hnext₁ => ?_
    refine Follows.turn (hnext₁.jumpIf b.test.get) fun next₂ hnext₂ => ?_
    by_cases hv : v.truthy
    · rw [if_pos hv] at hnext₂ ⊢
      rw [Eval.block_slots, ← hloop]
      exact Stmt.follows_all hcalls thenBody hthen b.thenCode hnext₂
    · rw [if_neg hv, ← b.else_eq] at hnext₂
      rw [if_neg hv, Eval.block_slots, ← hloop]
      -- Only a side that goes on to its end jumps over the other one.
      refine (Stmt.follows_all hcalls elseBody helse b.elseCode hnext₂).conclude
        fun flow m₂ next₃ hnext₃ => ?_
      exact hnext₃.jump_over b.skip.get
  | loop id cond body =>
    simp only [Stmt.Resolved] at hs
    obtain ⟨hcond, hbody⟩ := hs
    obtain ⟨labels, b⟩ := hc.loop
    have hend : pc + (Stmt.loop id cond body).length = labels.exit := by
      rw [b.exit_eq, b.check_eq, Stmt.length]
      omega
    have hround : ∀ {m₁ : SlotMemory σ} {turn₁ : Turn σ}, At f callers (pc + 1) values m₁ turn₁ →
        Follows h (p.layout r) limits Memory.toShared (openCalls callers f) fuel turn₁
          (Eval.block r.store (Stmt.execAll r.store h p (p.call r.store h fuel) fuel body) m₁)
          (FlowAt f callers labels (InLoop p (openIn (.loop id) frames)) labels.check values) := by
      intro m₁ turn₁ hat₁
      rw [Eval.block_slots, b.check_eq]
      exact Stmt.follows_all hcalls body hbody b.bodyCode hat₁
    rw [Stmt.exec, hend]
    refine Follows.turn (hat.jump b.enter.get) fun next hnext => ?_
    refine Eval.rounds_follow b.back.get b.exit_eq ?_ hround fuel (Nat.le_refl fuel) hnext
    intro m₁ turn₁ hat₁
    exact Expr.follows hcalls cond hcond b.condCode hat₁
  | eval e =>
    simp only [Stmt.Resolved] at hs
    rw [Stmt.layout] at hc
    obtain ⟨hvalue, hpop⟩ := hc.value_then
    rw [Stmt.exec, Stmt.length]
    refine (Expr.follows hcalls e hs hvalue hat).bind fun v m₁ next₁ hnext₁ => ?_
    refine Follows.turn (hnext₁.pop hpop.get) fun next₂ hnext₂ => ?_
    exact .done hnext₂

/-- A block is followed statement by statement, up to the one that leaves it. -/
theorem Stmt.follows_all {frames : List Scope} {loop : LoopLabels} {pc : Nat} {values : List Value}
    {m : SlotMemory σ} {turn : Turn σ} (hcalls : CallsFollow h p r limits fuel) (ss : List Stmt)
    (hss : Stmt.ResolvedAll p r size frames ss)
    (hc : CodeAt f.code.toList pc (Stmt.layoutAll r loop pc ss))
    (hat : At f callers pc values m turn) :
    Follows h (p.layout r) limits Memory.toShared (openCalls callers f) fuel turn
      (Stmt.execAll r.store h p (p.call r.store h fuel) fuel ss m)
      (FlowAt f callers loop (InLoop p frames) (pc + Stmt.lengthAll ss) values) := by
  cases ss with
  | nil =>
    rw [Stmt.execAll, Stmt.lengthAll]
    exact .done hat
  | cons s rest =>
    simp only [Stmt.ResolvedAll] at hss
    obtain ⟨hfirst, hrest⟩ := hc.stmts_cons
    have hloop : InLoop p (declareIn s.declared frames) = InLoop p frames := by
      rw [InLoop, Scopes.nearestLoop?_declareIn, InLoop]
    rw [Stmt.execAll, Stmt.lengthAll]
    refine (Stmt.follows hcalls s hss.1 hfirst hat).bind fun flow m₁ next₁ hnext₁ => ?_
    cases flow with
    | next =>
      rw [← Nat.add_assoc, ← hloop]
      exact Stmt.follows_all hcalls rest hss.2 hrest hnext₁
    | leave => exact .done hnext₁
    | again => exact .done hnext₁
    | ret v => exact .done hnext₁

end

end

/-- The body of a function is followed from its first instruction to a return with its value. -/
theorem FunctionDecl.Resolved.follows {d : FunctionDecl} (hd : d.Resolved p r) {fuel : Nat}
    (hcalls : CallsFollow h p r limits fuel) {callers : List Frame} {values : List Value}
    {m : SlotMemory σ} {turn : Turn σ} (hat : At (d.layout r) callers 0 values m turn) :
    Follows h (p.layout r) limits Memory.toShared (openCalls callers (d.layout r)) fuel turn
      (Stmt.execAll r.store h p (p.call r.store h fuel) fuel d.body m)
      fun flow m' next => ∃ pc, (d.layout r).code.toList[pc]? = some .ret ∧
        At (d.layout r) callers pc (flow.result :: values) m' next := by
  obtain ⟨size, -, -, hbody⟩ := hd
  obtain ⟨hcode, hend⟩ := d.codeAt_layout r
  refine (Stmt.follows_all hcalls d.body hbody hcode hat).conclude fun flow m' next hnext => ?_
  have hnone : ¬ InLoop p d.frames := fun hloop => hloop (d.nearestLoop?_frames p)
  cases flow with
  | next =>
    have hnext : At (d.layout r) callers (Stmt.lengthAll d.body) values m' next := by
      rw [← Nat.zero_add (Stmt.lengthAll d.body)]
      exact hnext
    refine Follows.turn (hnext.push hend.get) fun next' hnext' => ?_
    exact .done ⟨_, hend.tail.get, hnext'⟩
  | leave => exact absurd hnext.1 hnone
  | again => exact absurd hnext.1 hnone
  | ret v => exact .done hnext

/-- All calls are followed. The turn that enters a function pays for the unit of fuel that the call
takes. -/
theorem Program.Resolved.callsFollow (hp : p.Resolved r) (h : Handler σ) (limits : Limits)
    (fuel : Nat) : CallsFollow h p r limits fuel := by
  induction fuel with
  | zero =>
    intro name d args rest f callers pc m turn _ _ _ hat
    obtain ⟨steps, rfl⟩ := hat
    exact ⟨0, Or.inr ⟨Nat.le_refl 0, rfl⟩⟩
  | succ fuel ih =>
    intro name d args rest f callers pc m turn hfind hargs hi hat
    have hd := hp.function d (List.mem_of_find?_eq_some hfind)
    have hg : (p.layout r).callee? name = some (d.layout r) := by
      rw [hp.balanced.callee, Program.find?_layout, hfind]
      rfl
    refine Follows.step (hat.call hi hg hargs) fun next hnext => ?_
    have hbody := hd.follows ih hnext
    rw [openCalls_cons] at hbody
    have hcall : Follows h (p.layout r) limits id (openCalls callers f) fuel next
        (p.call r.store h (fuel + 1) d args m.toShared) fun v shared next' =>
          At f callers (pc + 1) (v :: rest) { shared with locals := m.locals } next' := by
      refine Follows.inCall hbody fun flow m' next' ⟨pcRet, hret, hnext'⟩ => ?_
      refine Follows.turn (hnext'.ret hret) fun next'' hnext'' => ?_
      exact .done hnext''
    refine hcall.fromCall.conclude fun v m' next' ⟨hnext', hlocals⟩ => ?_
    rw [← hlocals] at hnext'
    exact .done hnext'

end

end StackLang

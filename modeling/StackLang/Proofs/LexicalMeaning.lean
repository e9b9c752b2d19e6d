import StackLang.Proofs.CompilerCorrectness
import StackLang.Proofs.NamedVariables

/-!
Slots keep the lexical meaning of names. If the evaluator by name comes to its end without reading a
variable that has no value, the evaluator by slots comes to the same end with the same fuel, and so
does the machine. Both evaluators share their rules, so only variables have to be compared.
-/
namespace StackLang

open Scope

section

variable {σ : Type} {μ₁ μ₂ α β : Type}

/-- If the first evaluation came to its end, the second one came to the same end, with memories that
are related. After a failure only what calls share is compared. -/
def Refines (rel : α → μ₁ → μ₂ → Prop) (failure : μ₁ → μ₂ → Prop) :
    Result μ₁ α → Result μ₂ α → Prop
  | .done a m₁, result => ∃ m₂, result = .done a m₂ ∧ rel a m₁ m₂
  | .failed fault calls m₁, result => ∃ m₂, result = .failed fault calls m₂ ∧ failure m₁ m₂
  | .stuck, _ | .unfinished, _ => True

namespace Refines

variable {failure : μ₁ → μ₂ → Prop}

theorem done {rel : α → μ₁ → μ₂ → Prop} {a : α} {m₁ : μ₁} {m₂ : μ₂} (h : rel a m₁ m₂) :
    Refines rel failure (.done a m₁) (.done a m₂) := ⟨m₂, rfl, h⟩

/-- What refines may be continued by what refines. -/
theorem bind {rel : α → μ₁ → μ₂ → Prop} {rel' : β → μ₁ → μ₂ → Prop} {x₁ : Eval μ₁ α}
    {x₂ : Eval μ₂ α} {f₁ : α → Eval μ₁ β} {f₂ : α → Eval μ₂ β} {m₁ : μ₁} {m₂ : μ₂}
    (hx : Refines rel failure (x₁ m₁) (x₂ m₂))
    (hf : ∀ a m₁' m₂', rel a m₁' m₂' → Refines rel' failure (f₁ a m₁') (f₂ a m₂')) :
    Refines rel' failure ((x₁ >>= f₁) m₁) ((x₂ >>= f₂) m₂) := by
  have hbind₁ : (x₁ >>= f₁) m₁ = Eval.bind x₁ f₁ m₁ := rfl
  have hbind₂ : (x₂ >>= f₂) m₂ = Eval.bind x₂ f₂ m₂ := rfl
  rw [hbind₁, hbind₂, Eval.bind, Eval.bind]
  cases hresult : x₁ m₁ with
  | done a m₁' =>
    rw [hresult] at hx
    obtain ⟨m₂', hx₂, hrel⟩ := hx
    rw [hx₂]
    exact hf a m₁' m₂' hrel
  | failed fault calls m₁' =>
    rw [hresult] at hx
    obtain ⟨m₂', hx₂, hfail⟩ := hx
    rw [hx₂]
    exact ⟨m₂', rfl, hfail⟩
  | stuck => trivial
  | unfinished => trivial

theorem mono {rel rel' : α → μ₁ → μ₂ → Prop} {result₁ : Result μ₁ α} {result₂ : Result μ₂ α}
    (hx : Refines rel failure result₁ result₂) (hrel : ∀ a m₁ m₂, rel a m₁ m₂ → rel' a m₁ m₂) :
    Refines rel' failure result₁ result₂ := by
  cases result₁ with
  | done a m₁ =>
    obtain ⟨m₂, hresult, hm⟩ := hx
    exact ⟨m₂, hresult, hrel a m₁ m₂ hm⟩
  | failed fault calls m₁ => exact hx
  | stuck => trivial
  | unfinished => trivial

end Refines

abbrev NameMemory (σ : Type) := Memory (List Vars) (List (String × Value)) σ

/-- The memories of the two evaluators at a place with these scopes, in a function with a frame of
this size. -/
structure Agree (p : Program) (size : Nat) (frames : List Scope) (m₁ : NameMemory σ)
    (m₂ : SlotMemory σ) : Prop where
  chained : Chained frames
  scopes : ScopesHold m₂.locals frames m₁.locals
  size : m₂.locals.size = size
  shared : SharedHold p m₁.toShared m₂.toShared

abbrev AgreeShared (p : Program) (m₁ : NameMemory σ) (m₂ : SlotMemory σ) : Prop :=
  SharedHold p m₁.toShared m₂.toShared

namespace Agree

variable {p : Program} {r : Resolutions} {size id : Nat} {frames : List Scope} {name : String}
  {m₁ : NameMemory σ} {m₂ : SlotMemory σ}

/-- A variable has the same value by its name as by its slot, if it has one by name. -/
theorem read (ha : Agree p size frames m₁ m₂) (hp : p.Resolved r)
    (hname : p.Denotes r size frames id name) :
    Refines (fun _ => Agree p size frames) (AgreeShared p) (Eval.read nameStore id name m₁)
      (Eval.read r.store id name m₂) := by
  obtain ⟨slot, hlookup, hslot, -⟩ := hname
  have hread₂ : r.store.read id name m₂.locals m₂.globals = slot.read m₂.locals m₂.globals := by
    simp [Resolutions.store, hslot]
  rw [Eval.read, Eval.read, hread₂]
  unfold Scopes.lookup? at hlookup
  cases hframe : frames.findSome? (·.lookup? name) with
  | some i =>
    simp only [Program.scopes, hframe, Option.some.injEq] at hlookup
    subst hlookup
    obtain ⟨value, hvalue, hholds⟩ := ha.scopes.lookup hframe
    have hread₁ : nameStore.read id name m₁.locals m₁.globals = value := by
      simp [nameStore, hvalue]
    rw [hread₁]
    cases value with
    | none => trivial
    | some v =>
      simp only [Slot.read, hholds v rfl]
      exact .done ha
  | none =>
    simp only [Program.scopes, hframe, Option.map_eq_some_iff] at hlookup
    obtain ⟨i, hi, rfl⟩ := hlookup
    have hread₁ : nameStore.read id name m₁.locals m₁.globals = m₂.globals[i]? := by
      simp only [nameStore, (ha.scopes.lookup_eq_none hframe).1]
      exact ha.shared.lookup hp.globals_nodup hi
    rw [hread₁, Slot.read]
    cases m₂.globals[i]? with
    | none => trivial
    | some v => exact .done ha

/-- A variable that is assigned by name and by slot leaves memories that agree. -/
theorem write (ha : Agree p size frames m₁ m₂) (hp : p.Resolved r)
    (hname : p.Denotes r size frames id name) (v : Value) :
    Refines (fun _ => Agree p size frames) (AgreeShared p) (Eval.write nameStore id name v m₁)
      (Eval.write r.store id name v m₂) := by
  obtain ⟨slot, hlookup, hslot, hfits⟩ := hname
  have hwrite₂ : r.store.write id name v m₂.locals m₂.globals =
      slot.write m₂.locals m₂.globals v := by
    simp [Resolutions.store, hslot]
  rw [Eval.write, Eval.write, hwrite₂]
  unfold Scopes.lookup? at hlookup
  cases hframe : frames.findSome? (·.lookup? name) with
  | some i =>
    simp only [Program.scopes, hframe, Option.some.injEq] at hlookup
    subst hlookup
    have hlt : i < m₂.locals.size := by
      rw [ha.size]
      exact hfits
    obtain ⟨scopes', hset, hscopes'⟩ := ha.scopes.set v ha.chained hframe hlt
    simp only [nameStore, hset, Slot.write, if_pos hlt]
    refine .done ⟨ha.chained, hscopes', ?_, ha.shared⟩
    rw [Array.size_setIfInBounds]
    exact ha.size
  | none =>
    simp only [Program.scopes, hframe, Option.map_eq_some_iff] at hlookup
    obtain ⟨i, hi, rfl⟩ := hlookup
    obtain ⟨old, -, hget⟩ := ha.shared.get hi
    have hlt : i < m₂.globals.size := (Array.getElem?_eq_some_iff.1 hget).1
    obtain ⟨hmem, hshared⟩ := ha.shared.set v hp.globals_nodup hi
    simp only [nameStore, (ha.scopes.lookup_eq_none hframe).2 v, if_pos hmem, Slot.write,
      if_pos hlt]
    exact .done ⟨ha.chained, ha.scopes, ha.size, hshared⟩

theorem native (ha : Agree p size frames m₁ m₂) (h : Handler σ) (n : Native) (args : List Value) :
    Refines (fun _ => Agree p size frames) (AgreeShared p) (Eval.native h n args m₁)
      (Eval.native h n args m₂) := by
  match args with
  | [] => trivial
  | [v] =>
    rw [Eval.native_one, Eval.native_one, ha.shared.world]
    rcases n.answer h v m₂.world with ⟨answer | answer, w'⟩
    · exact ⟨_, rfl, ha.shared.names, ha.shared.values, rfl⟩
    · exact .done ⟨ha.chained, ha.scopes, ha.size, ha.shared.names, ha.shared.values, rfl⟩
  | _ :: _ :: _ => trivial

theorem ofOperator (ha : Agree p size frames m₁ m₂) (result : Except OperandFault Value) :
    Refines (fun _ => Agree p size frames) (AgreeShared p) (Eval.ofOperator result m₁)
      (Eval.ofOperator result m₂) := by
  cases result with
  | ok v => exact .done ha
  | error fault => exact ⟨m₂, rfl, ha.shared⟩

theorem fromCall (ha : Agree p size frames m₁ m₂)
    {x₁ : Eval (Shared (List (String × Value)) σ) Value} {x₂ : Eval (Shared (Array Value) σ) Value}
    (hx : Refines (fun _ => SharedHold p) (SharedHold p) (x₁ m₁.toShared) (x₂ m₂.toShared)) :
    Refines (fun _ => Agree p size frames) (AgreeShared p) (Eval.fromCall x₁ m₁)
      (Eval.fromCall x₂ m₂) := by
  unfold Eval.fromCall
  cases hresult : x₁ m₁.toShared with
  | done v shared =>
    rw [hresult] at hx
    obtain ⟨shared₂, hx₂, hshared⟩ := hx
    rw [hx₂]
    exact .done ⟨ha.chained, ha.scopes, ha.size, hshared⟩
  | failed fault calls shared =>
    rw [hresult] at hx
    obtain ⟨shared₂, hx₂, hshared⟩ := hx
    rw [hx₂]
    exact ⟨_, rfl, hshared⟩
  | stuck => trivial
  | unfinished => trivial

theorem openScope (kind : ScopeKind) (ha : Agree p size frames m₁ m₂) :
    Agree p size (openIn kind frames) { m₁ with locals := nameStore.openScope m₁.locals } m₂ where
  chained := chained_openIn kind ha.chained
  scopes := ⟨rfl, trivial, ha.scopes⟩
  size := ha.size
  shared := ha.shared

theorem closeScope {scope : Scope} (ha : Agree p size (scope :: frames) m₁ m₂) :
    Agree p size frames { m₁ with locals := nameStore.closeScope m₁.locals } m₂ := by
  refine ⟨ha.chained.2, ?_, ha.size, ha.shared⟩
  have hscopes := ha.scopes
  cases hlocals : m₁.locals with
  | nil =>
    rw [hlocals] at hscopes
    exact hscopes.elim
  | cons vars rest =>
    rw [hlocals] at hscopes
    exact hscopes.2.2

/-- A block opens a scope, and closes it with all that was declared in it. -/
theorem block (kind : ScopeKind) (ha : Agree p size frames m₁ m₂)
    {body₁ : Eval (NameMemory σ) Flow} {body₂ : Eval (SlotMemory σ) Flow}
    (hbody : ∀ {m₁ : NameMemory σ} {m₂ : SlotMemory σ}, Agree p size (openIn kind frames) m₁ m₂ →
      Refines (fun _ m₁ m₂ => ∃ names, Agree p size (declareIn names (openIn kind frames)) m₁ m₂)
        (AgreeShared p) (body₁ m₁) (body₂ m₂)) :
    Refines (fun _ => Agree p size frames) (AgreeShared p) (Eval.block nameStore body₁ m₁)
      (Eval.block r.store body₂ m₂) := by
  have hinside := hbody (ha.openScope kind)
  rw [Eval.block_slots, Eval.block_eq]
  cases hresult : body₁ { m₁ with locals := nameStore.openScope m₁.locals } with
  | done flow m₁' =>
    rw [hresult] at hinside
    obtain ⟨m₂', hbody₂, names, hagree⟩ := hinside
    exact ⟨m₂', hbody₂, hagree.closeScope⟩
  | failed fault calls m₁' =>
    rw [hresult] at hinside
    exact hinside
  | stuck => trivial
  | unfinished => trivial

/-- The rounds of a loop. -/
theorem rounds {cond₁ : Eval (NameMemory σ) Value} {cond₂ : Eval (SlotMemory σ) Value}
    {body₁ : Eval (NameMemory σ) Flow} {body₂ : Eval (SlotMemory σ) Flow}
    (hcond : ∀ {m₁ : NameMemory σ} {m₂ : SlotMemory σ}, Agree p size frames m₁ m₂ →
      Refines (fun _ => Agree p size frames) (AgreeShared p) (cond₁ m₁) (cond₂ m₂))
    (hbody : ∀ {m₁ : NameMemory σ} {m₂ : SlotMemory σ}, Agree p size frames m₁ m₂ →
      Refines (fun _ => Agree p size frames) (AgreeShared p) (body₁ m₁) (body₂ m₂))
    (n : Nat) (ha : Agree p size frames m₁ m₂) :
    Refines (fun _ => Agree p size frames) (AgreeShared p) (Eval.rounds cond₁ body₁ n m₁)
      (Eval.rounds cond₂ body₂ n m₂) := by
  induction n generalizing m₁ m₂ with
  | zero => trivial
  | succ n ih =>
    rw [Eval.rounds, Eval.rounds]
    refine (hcond ha).bind fun v m₁' m₂' hv => ?_
    by_cases htruthy : v.truthy
    · simp only [if_pos htruthy]
      refine (hbody hv).bind fun flow m₁'' m₂'' hflow => ?_
      cases flow with
      | next => exact ih hflow
      | again => exact ih hflow
      | leave => exact .done hflow
      | ret v => exact .done hflow
    · simp only [if_neg htruthy]
      exact .done hv

end Agree

end

section

variable {σ : Type} {h : Handler σ} {p : Program} {r : Resolutions}

def CallsRefine (h : Handler σ) (p : Program) (r : Resolutions) (fuel : Nat) : Prop :=
  ∀ {name : String} {d : FunctionDecl} {args : List Value}
    {shared₁ : Shared (List (String × Value)) σ} {shared₂ : Shared (Array Value) σ},
    p.find? name = some d → args.length = d.params.length → SharedHold p shared₁ shared₂ →
    Refines (fun _ => SharedHold p) (SharedHold p) (p.call nameStore h fuel d args shared₁)
      (p.call r.store h fuel d args shared₂)

variable {size fuel : Nat}

mutual

/-- An expression evaluates by slots as it does by names. -/
theorem Expr.refines {frames : List Scope} {m₁ : NameMemory σ} {m₂ : SlotMemory σ}
    (hp : p.Resolved r) (hcalls : CallsRefine h p r fuel) (e : Expr)
    (he : e.Resolved p r size frames) (ha : Agree p size frames m₁ m₂) :
    Refines (fun _ => Agree p size frames) (AgreeShared p)
      (e.eval nameStore h p (p.call nameStore h fuel) m₁)
      (e.eval r.store h p (p.call r.store h fuel) m₂) := by
  cases e with
  | literal v =>
    rw [Expr.eval, Expr.eval]
    exact .done ha
  | var id name =>
    simp only [Expr.Resolved] at he
    rw [Expr.eval, Expr.eval]
    exact ha.read hp he
  | unary op operand =>
    simp only [Expr.Resolved] at he
    rw [Expr.eval, Expr.eval]
    refine (Expr.refines hp hcalls operand he ha).bind fun v m₁' m₂' hv => ?_
    exact hv.ofOperator _
  | binary op left right =>
    simp only [Expr.Resolved] at he
    rw [Expr.eval, Expr.eval]
    refine (Expr.refines hp hcalls left he.1 ha).bind fun a m₁' m₂' hleft => ?_
    refine (Expr.refines hp hcalls right he.2 hleft).bind fun b m₁'' m₂'' hright => ?_
    exact hright.ofOperator _
  | call function args =>
    simp only [Expr.Resolved] at he
    obtain ⟨harity, hargs⟩ := he
    rw [Expr.eval, Expr.eval]
    refine (Expr.refines_args hp hcalls args hargs ha).bind fun vs m₁' m₂' ⟨hlength, hvs⟩ => ?_
    unfold Program.arity? at harity
    cases hnative : Native.ofName? function with
    | some native => exact hvs.native h native vs
    | none =>
      rw [hnative] at harity
      obtain ⟨d, hfind, hparams⟩ := Option.map_eq_some_iff.1 harity
      simp only [hfind]
      exact hvs.fromCall (hcalls hfind (hlength.trans hparams.symm) hvs.shared)

theorem Expr.refines_args {frames : List Scope} {m₁ : NameMemory σ} {m₂ : SlotMemory σ}
    (hp : p.Resolved r) (hcalls : CallsRefine h p r fuel) (es : List Expr)
    (hes : Expr.ResolvedAll p r size frames es) (ha : Agree p size frames m₁ m₂) :
    Refines (fun vs m₁ m₂ => vs.length = es.length ∧ Agree p size frames m₁ m₂) (AgreeShared p)
      (Expr.evalArgs nameStore h p (p.call nameStore h fuel) es m₁)
      (Expr.evalArgs r.store h p (p.call r.store h fuel) es m₂) := by
  cases es with
  | nil =>
    rw [Expr.evalArgs, Expr.evalArgs]
    exact .done ⟨rfl, ha⟩
  | cons e rest =>
    simp only [Expr.ResolvedAll] at hes
    rw [Expr.evalArgs, Expr.evalArgs]
    refine (Expr.refines_args hp hcalls rest hes.2 ha).bind fun vs m₁' m₂' ⟨hlength, hrest⟩ => ?_
    refine (Expr.refines hp hcalls e hes.1 hrest).bind fun v m₁'' m₂'' hv => ?_
    exact .done ⟨by simp [hlength], hv⟩

end

mutual

/-- A statement evaluates by slots as it does by names, and declares the same variables in both. -/
theorem Stmt.refines {frames : List Scope} {m₁ : NameMemory σ} {m₂ : SlotMemory σ}
    (hp : p.Resolved r) (hcalls : CallsRefine h p r fuel) (s : Stmt)
    (hs : s.Resolved p r size frames) (ha : Agree p size frames m₁ m₂) :
    Refines (fun _ => Agree p size (declareIn s.declared frames)) (AgreeShared p)
      (s.exec nameStore h p (p.call nameStore h fuel) fuel m₁)
      (s.exec r.store h p (p.call r.store h fuel) fuel m₂) := by
  cases s with
  | declare names =>
    rw [Stmt.exec, Stmt.exec]
    exact .done ⟨chained_declareIn ha.chained, ha.scopes.declare names, ha.size, ha.shared⟩
  | assign id name value =>
    simp only [Stmt.Resolved] at hs
    rw [Stmt.exec, Stmt.exec]
    simp only [Stmt.declared, declareIn_nil]
    refine (Expr.refines hp hcalls value hs.1 ha).bind fun v m₁' m₂' hv => ?_
    refine (hv.write hp hs.2 v).bind fun _ m₁'' m₂'' hset => ?_
    exact .done hset
  | ret value =>
    cases value with
    | none =>
      rw [Stmt.exec, Stmt.exec]
      simp only [Stmt.declared, declareIn_nil]
      exact .done ha
    | some value =>
      simp only [Stmt.Resolved] at hs
      rw [Stmt.exec, Stmt.exec]
      simp only [Stmt.declared, declareIn_nil]
      refine (Expr.refines hp hcalls value hs ha).bind fun v m₁' m₂' hv => ?_
      exact .done hv
  | leave id =>
    rw [Stmt.exec, Stmt.exec]
    simp only [Stmt.declared, declareIn_nil]
    exact .done ha
  | again id =>
    rw [Stmt.exec, Stmt.exec]
    simp only [Stmt.declared, declareIn_nil]
    exact .done ha
  | branch cond thenBody elseBody =>
    simp only [Stmt.Resolved] at hs
    obtain ⟨hcond, hthen, helse⟩ := hs
    rw [Stmt.exec, Stmt.exec]
    simp only [Stmt.declared, declareIn_nil]
    refine (Expr.refines hp hcalls cond hcond ha).bind fun v m₁' m₂' hv => ?_
    by_cases htruthy : v.truthy
    · simp only [if_pos htruthy]
      exact hv.block .block fun hopen => Stmt.refines_all hp hcalls thenBody hthen hopen
    · simp only [if_neg htruthy]
      exact hv.block .block fun hopen => Stmt.refines_all hp hcalls elseBody helse hopen
  | loop id cond body =>
    simp only [Stmt.Resolved] at hs
    obtain ⟨hcond, hbody⟩ := hs
    rw [Stmt.exec, Stmt.exec]
    simp only [Stmt.declared, declareIn_nil]
    refine Agree.rounds ?_ ?_ fuel ha
    · intro m₁' m₂' hround
      exact Expr.refines hp hcalls cond hcond hround
    · intro m₁' m₂' hround
      exact hround.block (.loop id) fun hopen => Stmt.refines_all hp hcalls body hbody hopen
  | eval e =>
    simp only [Stmt.Resolved] at hs
    rw [Stmt.exec, Stmt.exec]
    simp only [Stmt.declared, declareIn_nil]
    refine (Expr.refines hp hcalls e hs ha).bind fun v m₁' m₂' hv => ?_
    exact .done hv

/-- Statements in sequence. One that jumps leaves behind what was declared before it. -/
theorem Stmt.refines_all {frames : List Scope} {m₁ : NameMemory σ} {m₂ : SlotMemory σ}
    (hp : p.Resolved r) (hcalls : CallsRefine h p r fuel) (ss : List Stmt)
    (hss : Stmt.ResolvedAll p r size frames ss) (ha : Agree p size frames m₁ m₂) :
    Refines (fun _ m₁ m₂ => ∃ names, Agree p size (declareIn names frames) m₁ m₂) (AgreeShared p)
      (Stmt.execAll nameStore h p (p.call nameStore h fuel) fuel ss m₁)
      (Stmt.execAll r.store h p (p.call r.store h fuel) fuel ss m₂) := by
  cases ss with
  | nil =>
    rw [Stmt.execAll, Stmt.execAll]
    refine .done ⟨[], ?_⟩
    rw [declareIn_nil]
    exact ha
  | cons s rest =>
    simp only [Stmt.ResolvedAll] at hss
    rw [Stmt.execAll, Stmt.execAll]
    refine (Stmt.refines hp hcalls s hss.1 ha).bind fun flow m₁' m₂' hs => ?_
    cases flow with
    | next =>
      have hrest := Stmt.refines_all hp hcalls rest hss.2 hs
      simp only [declareIn_declareIn] at hrest
      exact hrest.mono fun _ _ _ ⟨names, hnames⟩ => ⟨_, hnames⟩
    | leave => exact .done ⟨_, hs⟩
    | again => exact .done ⟨_, hs⟩
    | ret v => exact .done ⟨_, hs⟩

end

/-- A call starts with its parameters in its first slots. -/
theorem FunctionDecl.Resolved.agree {d : FunctionDecl} (hd : d.Resolved p r) {args : List Value}
    (hargs : args.length = d.params.length) {shared₁ : Shared (List (String × Value)) σ}
    {shared₂ : Shared (Array Value) σ} (hshared : SharedHold p shared₁ shared₂) :
    ∃ size, Stmt.ResolvedAll p r size d.frames d.body ∧
      Agree p size d.frames { shared₁ with locals := nameStore.enter d args }
        { shared₂ with locals := r.store.enter d args } := by
  obtain ⟨size, hsize, hparams, hbody⟩ := hd
  have hlocals : r.store.enter d args =
      (args ++ List.replicate (size - d.params.length) Value.nothing).toArray := by
    simp [Resolutions.store, hsize]
  refine ⟨size, hbody, ?_, ?_, ?_, hshared⟩
  · exact chained_declareIn ⟨rfl, trivial⟩
  · refine ⟨?_, ?_, trivial⟩
    · simp only [List.map_reverse, Scope.empty, List.append_nil]
      rw [List.map_fst_zip (by simp [hargs])]
    · refine VarsHold.params d.params args fun k v hk => ?_
      have hlt := (List.getElem?_eq_some_iff.1 hk).1
      simp only [hlocals, List.getElem?_toArray]
      rw [List.getElem?_append_left hlt, hk]
  · simp only [hlocals, List.size_toArray, List.length_append, List.length_replicate]
    omega

/-- A call goes by slots as it does by names, whatever fuel it has. -/
theorem Program.Resolved.callsRefine (hp : p.Resolved r) (h : Handler σ) (fuel : Nat) :
    CallsRefine h p r fuel := by
  induction fuel with
  | zero =>
    intro name d args shared₁ shared₂ _ _ _
    trivial
  | succ fuel ih =>
    intro name d args shared₁ shared₂ hfind hargs hshared
    have hd := hp.function d (List.mem_of_find?_eq_some hfind)
    obtain ⟨size, hbody, hagree⟩ := hd.agree hargs hshared
    have hrefines := Stmt.refines_all hp ih d.body hbody hagree
    rw [Program.call, Program.call, Eval.inCall, Eval.inCall]
    cases hresult : Stmt.execAll nameStore h p (p.call nameStore h fuel) fuel d.body
        { shared₁ with locals := nameStore.enter d args } with
    | done flow m₁ =>
      rw [hresult] at hrefines
      obtain ⟨m₂, hslots, names, hdone⟩ := hrefines
      rw [hslots]
      exact .done hdone.shared
    | failed fault calls m₁ =>
      rw [hresult] at hrefines
      obtain ⟨m₂, hslots, hfailed⟩ := hrefines
      rw [hslots]
      exact ⟨_, rfl, hfailed⟩
    | stuck => trivial
    | unfinished => trivial

def Program.evaluateNames (p : Program) (h : Handler σ) (w : σ) (fuel : Nat) :
    Result (Shared (List (String × Value)) σ) Value :=
  p.evaluate nameStore h (p.globalNames.map fun name => (name, .nothing)) w fuel

/-- The evaluator by slots refines the one by name. -/
theorem Program.Resolved.evaluate_refines (hp : p.Resolved r) (h : Handler σ) (w : σ) (fuel : Nat) :
    Refines (fun _ => SharedHold p) (SharedHold p) (p.evaluateNames h w fuel)
      (p.evaluateSlots r h w fuel) := by
  have hshared : SharedHold p ⟨p.globalNames.map fun name => (name, Value.nothing), w⟩
      ⟨Array.replicate r.globalCount Value.nothing, w⟩ := by
    refine ⟨?_, ?_, rfl⟩
    · simp [Function.comp_def]
    · simp [Function.comp_def, hp.globalCount]
  unfold Program.evaluateNames Program.evaluateSlots Program.evaluate
  cases hfind : p.find? "main" with
  | none => exact .done hshared
  | some main => exact hp.callsRefine h fuel hfind (by simp) hshared

/-- If a program comes to an outcome by names, it comes to the same one by slots. -/
theorem Program.Resolved.evaluateSlots_of_names (hp : p.Resolved r) {w : σ}
    {o : Outcome (List (String × Value)) σ}
    (ho : (p.evaluateNames h w fuel).outcome? = some o) :
    o.globals.map (·.1) = p.globalNames ∧ (p.evaluateSlots r h w fuel).outcome? =
      some ⟨o.result, o.calls, (o.globals.map (·.2)).toArray, o.world⟩ := by
  have hrefines := hp.evaluate_refines h w fuel
  cases hresult : p.evaluateNames h w fuel with
  | done v shared =>
    rw [hresult] at hrefines ho
    obtain ⟨shared₂, hslots, hshared⟩ := hrefines
    cases ho
    refine ⟨hshared.names, ?_⟩
    rw [hslots, hshared.values, hshared.world]
    rfl
  | failed fault calls shared =>
    rw [hresult] at hrefines ho
    obtain ⟨shared₂, hslots, hshared⟩ := hrefines
    cases ho
    refine ⟨hshared.names, ?_⟩
    rw [hslots, hshared.values, hshared.world]
    rfl
  | stuck =>
    rw [hresult] at ho
    cases ho
  | unfinished =>
    rw [hresult] at ho
    cases ho

end

/-- If the evaluator by name comes to an outcome, so does the machine, within its limits: to the
same value or fault, with the same calls open, the same dealings with the world, and the same values
of the global variables, which stand in the order of their declaration. -/
theorem Program.run_of_evaluateNames {items : List Item} {r : Resolutions} {t : Table}
    (hr : (Program.ofItems items).resolve = .ok r) (hc : (Program.ofItems items).code r = .ok t)
    {σ : Type} (h : Handler σ) (limits : Limits) (w : σ) (hlimits : t.WithinLimits h limits w)
    {fuel : Nat} {o : Outcome (List (String × Value)) σ}
    (ho : ((Program.ofItems items).evaluateNames h w fuel).outcome? = some o) :
    o.globals.map (·.1) = (Program.ofItems items).globalNames ∧
      ∃ n, (t.run h limits w n).outcome? =
        some ⟨o.result, o.calls, (o.globals.map (·.2)).toArray, o.world⟩ := by
  obtain ⟨hresolved, rfl⟩ := Program.ofItems_layout hr hc
  obtain ⟨hnames, hslots⟩ := hresolved.evaluateSlots_of_names ho
  exact ⟨hnames, hresolved.run_of_evaluate hlimits hslots⟩

/-- A variable that takes the slot of an earlier one, and hides the global one meant before:
`decl g; main() { while (TRUE) { decl a; a = 6; g = a; break; } decl g; g = 7; return g; }`. -/
def hiddenGlobal : List Item :=
  [.globals ["g"],
  .function ⟨"main", [],
    [.loop 0 (.literal (.bool true))
      [.declare ["a"], .assign 0 "a" (.literal (.int 6)), .assign 0 "g" (.var 0 "a"), .leave 0],
      .declare ["g"], .assign 0 "g" (.literal (.int 7)), .ret (some (.var 0 "g"))]⟩]

/-- It returns the variable of its body, and leaves the global one as the loop has set it. -/
theorem Program.run_of_evaluateNames_hiddenGlobal :
    ∃ r t, (Program.ofItems hiddenGlobal).resolve = .ok r ∧
      (Program.ofItems hiddenGlobal).code r = .ok t ∧
      t.WithinLimits Recording.handler .standard (.ofInputs [] none none) ∧
      ((Program.ofItems hiddenGlobal).evaluateNames Recording.handler (.ofInputs [] none none)
        3).outcome? = some ⟨.ok (.int 7), [], [("g", .int 6)], .ofInputs [] none none⟩ ∧
      ∃ n, (t.run Recording.handler .standard (.ofInputs [] none none) n).outcome? =
        some ⟨.ok (.int 7), [], #[.int 6], .ofInputs [] none none⟩ := by
  obtain ⟨r, t, hr, hc, hrun⟩ : ∃ r t, (Program.ofItems hiddenGlobal).resolve = .ok r ∧
      (Program.ofItems hiddenGlobal).code r = .ok t ∧
      (t.run Recording.handler .standard (.ofInputs [] none none) 12).outcome? =
        some ⟨.ok (.int 7), [], #[.int 6], .ofInputs [] none none⟩ := ⟨_, _, rfl, rfl, rfl⟩
  have hlimits := Table.withinLimits_of_outcome hrun (by intro fault hf; cases hf)
  have hnames : ((Program.ofItems hiddenGlobal).evaluateNames Recording.handler
      (.ofInputs [] none none) 3).outcome? =
        some ⟨.ok (.int 7), [], [("g", .int 6)], .ofInputs [] none none⟩ := rfl
  exact ⟨r, t, hr, hc, hlimits, hnames,
    (Program.run_of_evaluateNames hr hc Recording.handler .standard _ hlimits hnames).2⟩

end StackLang

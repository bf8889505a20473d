import TraceTutor.Proofs.Script.Invariant
import TraceTutor.Proofs.Script.Literals
import TraceTutor.Proofs.Trace.Values

/-!
# Values of scripts

`Machine.AllValues` says of a property of values that it holds of everything a machine holds:
variables, frames, recorded bindings, and the literals of its functions. An action `Ensures` an
invariant and a property of its result; there is one rule for each way to build an action. By
induction over the evaluator, a property that operators keep holds of all values in the trace of a
run (`allValues_run`).
-/

namespace TraceTutor

variable {P : Value → Prop}

/-! ## Scopes -/

namespace Scope

variable {s : Scope}

theorem allValues_store {v : Slot} (h : s.locals.AllValues P) (hv : v.Holds P) (name : String) :
    (s.store name v).locals.AllValues P := by
  cases v with
  | none => exact h.erase name
  | some v => exact h.set (hv v rfl) name

theorem allValues_ofCall {params : List String} {args : List Slot}
    (hargs : ∀ arg ∈ args, arg.Holds P) : (ofCall params args).locals.AllValues P := by
  have hgo : ∀ (params : List String) (s : Scope) (args : List Slot), s.locals.AllValues P →
      (∀ arg ∈ args, arg.Holds P) → (ofCall.go s params args).locals.AllValues P := by
    intro params
    induction params with
    | nil => exact fun s args hs _ => hs
    | cons p ps ih =>
      intro s args hs hargs
      cases args with
      | nil => exact ih _ [] (allValues_store hs Slot.holds_none p) hargs
      | cons arg rest =>
        obtain ⟨harg, hrest⟩ := List.forall_mem_cons.1 hargs
        exact ih _ rest (allValues_store hs harg p) hrest
  exact hgo params .empty args (Bindings.allValues_empty P) hargs

theorem allValues_overlay {outer : Bindings} (h : s.locals.AllValues P)
    (houter : outer.AllValues P) : (s.overlay outer).AllValues P :=
  (houter.eraseAll s.unset).extend h

end Scope

/-! ## Machines -/

/-- The property holds of all values that a machine holds, the literals of its functions
included. -/
structure Machine.AllValues (P : Value → Prop) (m : Machine) : Prop where
  globals : m.globals.locals.AllValues P
  scopes : ∀ scope ∈ m.scopes, scope.locals.AllValues P
  recorder : m.recorder.AllValues P
  procedures : ∀ name p, m.procedures.get? name = some p →
    Script.MadeOf (Expr.LiteralsIn P) p.body

namespace Machine

variable {m m' : Machine}

theorem allValues_initial : AllValues P initial :=
  ⟨Bindings.allValues_empty P, nofun, .empty, nofun⟩

namespace AllValues

/-! ### Variables -/

/-- The scope of the innermost call, and those further out. -/
theorem of_scopes_eq (h : m.AllValues P) {scope : Scope} {outer : List Scope}
    (hscopes : m.scopes = scope :: outer) :
    scope.locals.AllValues P ∧ ∀ s ∈ outer, s.locals.AllValues P :=
  List.forall_mem_cons.1 fun s hs => h.scopes s (hscopes ▸ hs)

theorem scopeOf (h : m.AllValues P) (name : String) :
    (m.scopeOf name).locals.AllValues P := by
  unfold Machine.scopeOf
  split
  · exact h.globals
  next scope outer hscopes =>
    split
    · exact (h.of_scopes_eq hscopes).1
    · exact h.globals

theorem read? (h : m.AllValues P) {name : String} {v : Value} (hv : m.read? name = some v) : P v :=
  (h.scopeOf name).of_get? hv

theorem lookup (h : m.AllValues P) {name : String} {slot : Slot}
    (hslot : m.lookup name = .ok slot) : slot.Holds P := by
  unfold Machine.lookup at hslot
  split at hslot
  next v hv =>
    cases hslot
    exact Slot.holds_some.2 (h.read? hv)
  next =>
    split at hslot
    · cases hslot
      exact Slot.holds_none
    · split at hslot <;> cases hslot

theorem updateScopeOf (h : m.AllValues P) {change : Scope → Scope}
    (hchange : ∀ s : Scope, s.locals.AllValues P → (change s).locals.AllValues P)
    (name : String) : AllValues P (m.updateScopeOf name change) := by
  unfold Machine.updateScopeOf
  split
  · exact { h with globals := hchange _ h.globals }
  next scope outer hscopes =>
    obtain ⟨hscope, houter⟩ := h.of_scopes_eq hscopes
    split
    · exact { h with scopes := List.forall_mem_cons.2 ⟨hchange scope hscope, houter⟩ }
    · exact { h with globals := hchange _ h.globals }

theorem declare (h : m.AllValues P) {v : Slot} (hv : v.Holds P) (kind : DeclarationKind)
    (name : String) : AllValues P (m.declare kind name v) := by
  unfold Machine.declare
  split
  · exact { h with globals := Scope.allValues_store h.globals hv name }
  next scope outer hscopes =>
    obtain ⟨hscope, houter⟩ := h.of_scopes_eq hscopes
    exact { h with
      scopes := List.forall_mem_cons.2 ⟨Scope.allValues_store hscope hv name, houter⟩ }

theorem assign (h : m.AllValues P) {name : String} {v : Slot} (hv : v.Holds P)
    (hassign : m.assign name v = .ok m') : m'.AllValues P := by
  unfold Machine.assign at hassign
  split at hassign
  · cases hassign
  · cases hassign
    exact h.updateScopeOf (fun s hs => Scope.allValues_store hs hv name) name

theorem push (hP : Value.IsClosed P) (h : m.AllValues P) {name : String} {items : List Value}
    {length : Value} (hitems : ∀ v ∈ items, P v) (hpush : m.push name items = .ok (length, m')) :
    m'.AllValues P ∧ P length := by
  unfold Machine.push at hpush
  split at hpush
  · cases hpush
  next v hv =>
    split at hpush
    · cases hpush
    next array length' hresult =>
      cases hpush
      obtain ⟨harray, hlength⟩ := hP.push (h.read? hv) hitems hresult
      exact ⟨h.updateScopeOf (fun s hs => hs.set harray name) name, hlength⟩

theorem step (h : m.AllValues P) : AllValues P { m with steps := m.steps + 1 } :=
  ⟨h.globals, h.scopes, h.recorder, h.procedures⟩

theorem setLoopDepth (h : m.AllValues P) (loopDepth : Nat) :
    AllValues P { m with loopDepth := loopDepth } :=
  ⟨h.globals, h.scopes, h.recorder, h.procedures⟩

/-! ### Functions -/

theorem define (h : m.AllValues P) {p : Procedure}
    (hp : Script.MadeOf (Expr.LiteralsIn P) p.body) (name : String) :
    AllValues P (m.define name p) := by
  refine { h with procedures := fun key q hq => ?_ }
  rw [Machine.define, NameMap.get?_set] at hq
  split at hq
  · cases hq
    exact hp
  · exact h.procedures key q hq

theorem hoist (h : m.AllValues P) {body : List Stmt}
    (hbody : Script.MadeOf (Expr.LiteralsIn P) body) : AllValues P (m.hoist body) := by
  induction body generalizing m with
  | nil => exact h
  | cons s rest ih =>
    obtain ⟨-, hinner, hrest⟩ := Script.MadeOf.cons_iff.1 hbody
    cases s with
    | function l name params body => exact ih (h.define (p := ⟨params, body⟩) hinner name) hrest
    | _ => exact ih h hrest

theorem enterCall (h : m.AllValues P) {p : Procedure} {args : List Slot}
    (hp : Script.MadeOf (Expr.LiteralsIn P) p.body) (hargs : ∀ arg ∈ args, arg.Holds P)
    (name : String) (line : Nat) : AllValues P (m.enterCall name p args line) := by
  have hscope : (Scope.ofCall p.params args).locals.AllValues P := Scope.allValues_ofCall hargs
  refine hoist ?_ hp
  exact { h with
    scopes := List.forall_mem_cons.2 ⟨hscope, h.scopes⟩
    recorder := h.recorder.pushFrame hscope }

theorem leaveCall (h : m.AllValues P) (loopDepth : Nat) : AllValues P (m.leaveCall loopDepth) :=
  { h with
    scopes := fun scope hscope => h.scopes scope (List.mem_of_mem_tail hscope)
    recorder := h.recorder.popFrame }

/-! ### Recording -/

theorem visible (h : m.AllValues P) : m.visible.AllValues P := by
  unfold Machine.visible
  split
  · exact h.globals
  next scope outer hscopes =>
    exact Scope.allValues_overlay (h.of_scopes_eq hscopes).1 h.globals

theorem capture (h : m.AllValues P) (line : Nat) (note : String) :
    AllValues P (m.capture line note) :=
  { h with recorder := h.recorder.commit h.visible line none (some note) }

theorem log (h : m.AllValues P) (args : List Slot) : AllValues P (m.log args) :=
  { h with recorder := h.recorder.emit _ }

end AllValues

end Machine

/-! ## Actions -/

namespace Exec

variable {α β : Type} {Inv : Machine → Prop} {pre : α → Prop} {post : β → Prop}

/-- The action keeps an invariant, and whatever it yields has a property. -/
def Ensures (Inv : Machine → Prop) (post : α → Prop) (a : Exec α) : Prop :=
  ∀ m, Inv m → Inv (a m).machine ∧ ∀ x, (a m).result = .ok x → post x

namespace Ensures

theorem pure {x : α} (h : pre x) : Ensures Inv pre (Pure.pure x) := by
  refine fun m hm => ⟨hm, fun y hy => ?_⟩
  cases hy
  exact h

theorem pure_some {x : α} (h : pre x) :
    Ensures Inv (fun x? => ∀ x ∈ x?, pre x) (Pure.pure (some x)) :=
  pure fun _ hy => Option.some.inj hy ▸ h

theorem interrupt (i : Interrupt) : Ensures Inv pre (Exec.interrupt i) :=
  fun _ hm => ⟨hm, nofun⟩

theorem bind {a : Exec α} {f : α → Exec β} (ha : a.Ensures Inv pre)
    (hf : ∀ x, pre x → (f x).Ensures Inv post) : (a >>= f).Ensures Inv post := by
  intro m hm
  obtain ⟨hmachine, hresult⟩ := ha m hm
  cases h : a m with
  | mk result m' visits =>
    rw [h] at hmachine hresult
    cases result with
    | ok x =>
      rw [bind_of_ok h]
      exact hf x (hresult x rfl) m' hmachine
    | error i =>
      rw [bind_of_error h]
      exact ⟨hmachine, nofun⟩

/-- Nothing has to be known about what the first action yields. -/
theorem andThen {a : Exec α} {f : α → Exec β} (ha : a.Preserves Inv)
    (hf : ∀ x, (f x).Ensures Inv post) : (a >>= f).Ensures Inv post :=
  bind (fun m hm => ⟨ha m hm, fun _ _ => trivial⟩) fun x _ => hf x

theorem preserves {a : Exec α} (h : a.Ensures Inv pre) : a.Preserves Inv :=
  fun m hm => (h m hm).1

/-- Nothing has to be known about what the second action yields. -/
theorem preserves_bind {a : Exec α} {f : α → Exec β} (ha : a.Ensures Inv pre)
    (hf : ∀ x, pre x → (f x).Preserves Inv) : (a >>= f).Preserves Inv :=
  preserves (bind ha fun x hx m hm => ⟨hf x hx m hm, fun _ _ => trivial⟩)

theorem visit {a : Exec α} (h : a.Ensures Inv pre) : a.visit.Ensures Inv pre :=
  h

theorem fault (line : Nat) (cause : RuntimeCause) :
    (Exec.ofExcept line (.error cause)).Ensures Inv pre :=
  .interrupt _

theorem ofExcept {line : Nat} {x : Except RuntimeCause α} (h : ∀ v, x = .ok v → pre v) :
    (Exec.ofExcept line x).Ensures Inv pre := by
  cases x with
  | ok v => exact .pure (h v rfl)
  | error cause => exact .fault line cause

theorem update {line : Nat} {change : Machine → Except RuntimeCause (α × Machine)}
    (h : ∀ m x m', change m = .ok (x, m') → Inv m → Inv m' ∧ pre x) :
    (Exec.update line change).Ensures Inv pre := by
  intro m hm
  unfold Exec.update
  split
  next x m' hchange =>
    obtain ⟨hmachine, hx⟩ := h m x m' hchange hm
    refine ⟨hmachine, fun y hy => ?_⟩
    cases hy
    exact hx
  next => exact ⟨hm, nofun⟩

theorem within {a : Exec α} {enter : Machine → Machine} {leave : Machine → Machine → Machine}
    (h : a.Ensures Inv pre) (henter : ∀ m, Inv m → Inv (enter m))
    (hleave : ∀ m m', Inv m' → Inv (leave m m')) :
    (Exec.within enter leave a).Ensures Inv pre := by
  intro m hm
  obtain ⟨hmachine, hresult⟩ := h (enter m) (henter m hm)
  exact ⟨hleave m _ hmachine, hresult⟩

end Ensures

end Exec

/-- The property holds of the value that is returned, if one is. -/
def Flow.Holds (P : Value → Prop) : Flow → Prop
  | .ret v => v.Holds P
  | _ => True

namespace Script

open Exec Machine

/-- Calls keep a property of values: they yield a value that has it if their arguments do. -/
def CallAction.Ensures (P : Value → Prop) (call : CallAction) : Prop :=
  ∀ name args line, (∀ arg ∈ args, Slot.Holds P arg) →
    (call name args line).Ensures (AllValues P) (Slot.Holds P)

variable {call : CallAction}

/-! ## Expressions -/

theorem ensures_lookup (line : Nat) (name : String) :
    (Exec.lookup line name).Ensures (AllValues P) (Slot.Holds P) :=
  fun m hm => Ensures.ofExcept (fun _ hv => hm.lookup hv) m hm

theorem ensures_someOk {line : Nat} {x : Except RuntimeCause Value} (h : ∀ v, x = .ok v → P v) :
    (do return some (← Exec.ofExcept line x) : Exec Slot).Ensures (AllValues P) (Slot.Holds P) :=
  .bind (.ofExcept h) fun _ hv => .pure_some hv

theorem preserves_assign {v : Slot} (hv : v.Holds P) (line : Nat) (name : String) :
    (Exec.assign line name v).Preserves (AllValues P) := by
  refine .update fun m _ m' hm' hm => ?_
  obtain ⟨_, hassign, heq⟩ := except_map_eq_ok_iff.1 hm'
  cases heq
  exact hm.assign hv hassign

theorem ensures_push (hP : Value.IsClosed P) {items : List Value} (hitems : ∀ v ∈ items, P v)
    (line : Nat) (name : String) :
    (Exec.push line name items).Ensures (AllValues P) (Slot.Holds P) := by
  refine .update fun m slot m' hm' hm => ?_
  obtain ⟨⟨length, m''⟩, hpush, heq⟩ := except_map_eq_ok_iff.1 hm'
  cases heq
  obtain ⟨hmachine, hlength⟩ := hm.push hP hitems hpush
  exact ⟨hmachine, Slot.holds_some.2 hlength⟩

theorem ensures_invoke (hP : Value.IsClosed P) (hcall : CallAction.Ensures P call)
    {args : List Slot} (hargs : ∀ arg ∈ args, arg.Holds P) (callee : Callee)
    (line : Nat) : (invoke call callee args line).Ensures (AllValues P) (Slot.Holds P) := by
  cases callee with
  | function name => exact hcall name args line hargs
  | log => exact .andThen (fun m hm => hm.log args) fun _ => .pure Slot.holds_none
  | math name =>
    refine .ofExcept fun slot hslot => ?_
    split at hslot
    next v hv =>
      cases hslot
      exact Slot.holds_some.2 (hP.mathCall hv)
    next => cases hslot
  | push target => exact ensures_push hP (hP.map_orNull hargs) line target
  | member | computed => exact .fault line _

mutual

/-- Only literals, variables and containers pass values on; whatever an operator makes has the
property by itself. -/
theorem ensures_evaluate (hP : Value.IsClosed P) (hcall : CallAction.Ensures P call) (line : Nat) :
    ∀ e : Expr, e.LiteralsIn P →
      (evaluate call line e).Ensures (AllValues P) (Slot.Holds P)
  | .literal v, h => .visit (.pure_some h)
  | .name name, _ => .visit (ensures_lookup line name)
  | .array items, h => by
    unfold Script.evaluate
    refine .visit (.bind (ensures_evaluateAll hP hcall line items h) fun values hvalues => ?_)
    exact .pure_some (hP.array_iff.2 (hP.map_orNull hvalues))
  | .object fields, h => by
    unfold Script.evaluate
    refine .visit (.bind (ensures_evaluateFields hP hcall line fields h) fun values hvalues => ?_)
    exact .pure_some (hP.ofFields hvalues)
  | .unary op operand, h => by
    unfold Script.evaluate
    exact .visit (.bind (ensures_evaluate hP hcall line operand h) fun v _ =>
      .pure_some (hP.unary op v.orNull))
  | .binary op left right, h => by
    unfold Script.evaluate
    have hright := ensures_evaluate hP hcall line right h.2
    refine .visit (.bind (ensures_evaluate hP hcall line left h.1) fun l hl => ?_)
    split
    · split
      · exact hright
      · exact .pure hl
    · split
      · exact .pure hl
      · exact hright
    · exact .bind hright fun r _ => ensures_someOk fun v hv => hP.combine hv
  | .ternary condition yes no, h => by
    unfold Script.evaluate
    refine .visit (.bind (ensures_evaluate hP hcall line condition h.1) fun test _ => ?_)
    split
    · exact ensures_evaluate hP hcall line yes h.2.1
    · exact ensures_evaluate hP hcall line no h.2.2
  | .index target i, h => by
    unfold Script.evaluate
    refine .visit (.bind (ensures_evaluate hP hcall line target h.1) fun t ht => ?_)
    refine .bind (ensures_evaluate hP hcall line i h.2) fun j _ => ?_
    exact ensures_someOk fun v hv => hP.item (hP.orNull ht) hv
  | .member target property, h => by
    unfold Script.evaluate
    refine .visit (.bind (ensures_evaluate hP hcall line target h) fun t ht => ?_)
    exact ensures_someOk fun v hv => hP.property (hP.orNull ht) hv
  | .call callee args, h => by
    unfold Script.evaluate
    exact .visit (.bind (ensures_evaluateAll hP hcall line args h.2) fun values hvalues =>
      ensures_invoke hP hcall hvalues callee.callee line)

theorem ensures_evaluateAll (hP : Value.IsClosed P) (hcall : CallAction.Ensures P call)
    (line : Nat) : ∀ items : List Expr, Expr.ItemLiteralsIn P items →
      (evaluateAll call line items).Ensures (AllValues P) fun slots =>
        ∀ slot ∈ slots, slot.Holds P
  | [], _ => .pure nofun
  | e :: rest, h => .bind (ensures_evaluate hP hcall line e h.1) fun _ hv =>
    .bind (ensures_evaluateAll hP hcall line rest h.2) fun _ hvalues =>
      .pure (List.forall_mem_cons.2 ⟨hv, hvalues⟩)

theorem ensures_evaluateFields (hP : Value.IsClosed P) (hcall : CallAction.Ensures P call)
    (line : Nat) : ∀ fields : List (String × Expr), Expr.FieldLiteralsIn P fields →
      (evaluateFields call line fields).Ensures (AllValues P) fun fields =>
        ∀ field ∈ fields, P field.2
  | [], _ => .pure nofun
  | (key, e) :: rest, h => by
    unfold Script.evaluateFields
    refine .bind (ensures_evaluate hP hcall line e h.1) fun v hv => ?_
    refine .bind (ensures_evaluateFields hP hcall line rest h.2) fun fields hfields => ?_
    cases v with
    | none => exact .pure hfields
    | some v => exact .pure (List.forall_mem_cons.2 ⟨hv v rfl, hfields⟩)

end

theorem ensures_evaluateOr (hP : Value.IsClosed P) (hcall : CallAction.Ensures P call)
    {default : Slot} (hdefault : default.Holds P) (line : Nat) {e? : Option Expr}
    (he : ∀ e ∈ e?, e.LiteralsIn P) :
    (evaluateOr call line default e?).Ensures (AllValues P) (Slot.Holds P) := by
  cases e? with
  | none => exact .pure hdefault
  | some e => exact ensures_evaluate hP hcall line e (he e rfl)

/-! ## Simple statements and loops -/

theorem preserves_captureIf (shown : Bool) (line : Nat) (note? : Option String) :
    (captureIf shown line note?).Preserves (AllValues P) := by
  unfold captureIf
  split
  · exact fun m hm => hm.capture line _
  · exact fun m hm => hm

theorem preserves_declareVariable (hP : Value.IsClosed P) (hcall : CallAction.Ensures P call)
    (shown : Bool) (line : Nat) (kind : DeclarationKind) (name : String) {initial : Option Expr}
    (h : ∀ e ∈ initial, e.LiteralsIn P) :
    (declareVariable call shown line kind name initial).Preserves (AllValues P) := by
  cases initial with
  | none => exact fun m hm => hm.declare Slot.holds_none kind name
  | some e =>
    refine Ensures.preserves_bind (ensures_evaluate hP hcall line e (h e rfl)) fun v hv => ?_
    exact Preserves.bind (fun m hm => hm.declare hv kind name) fun _ =>
      preserves_captureIf shown line _

/-- The value has to have the property only where no operator is applied to it. -/
theorem preserves_assignVariable (hP : Value.IsClosed P) {v : Slot} {op : Option BinaryOp}
    (hv : op = none → v.Holds P) (line : Nat) (name : String) :
    (assignVariable line name v op).Preserves (AllValues P) := by
  cases op with
  | none => exact preserves_assign (hv rfl) line name
  | some op =>
    refine Preserves.bind (ensures_lookup line name).preserves fun old => ?_
    refine Ensures.preserves_bind (.ofExcept fun w hw => hP.combine hw) fun w hw => ?_
    exact preserves_assign (Slot.holds_some.2 hw) line name

theorem preserves_tick (budget : Nat) : (Exec.tick budget).Preserves (AllValues P) := by
  intro m hm
  unfold Exec.tick
  dsimp only
  split <;> exact hm.step

theorem ensures_started {α : Type} {post : α → Prop} {a : Exec α}
    (h : a.Ensures (AllValues P) post) (budget : Nat) :
    (Exec.visit (do Exec.tick budget; a)).Ensures (AllValues P) post :=
  .visit (.andThen (preserves_tick budget) fun _ => h)

theorem ensures_leave (line : Nat) (misplaced : Machine → Bool) (cause : RuntimeCause)
    (flow : Flow) (hflow : flow.Holds P) :
    (leave line misplaced cause flow).Ensures (AllValues P) (Flow.Holds P) := by
  refine .update fun m x m' h hm => ?_
  split at h
  · cases h
  · cases h
    exact ⟨hm, hflow⟩

theorem ensures_loopRound {test : Exec Slot} {update : Exec Unit} {body : Exec Flow}
    (htest : test.Preserves (AllValues P)) (hupdate : update.Preserves (AllValues P))
    (hbody : body.Ensures (AllValues P) (Flow.Holds P)) :
    (loopRound test update body).Ensures (AllValues P)
      fun flow? => ∀ flow ∈ flow?, flow.Holds P := by
  have hnormal : Flow.normal.Holds P := trivial
  refine .andThen htest fun v => ?_
  split
  · refine .bind hbody fun flow hflow => ?_
    cases flow with
    | stop => exact .pure_some hnormal
    | ret v => exact .pure_some hflow
    | normal | next => exact .andThen hupdate fun _ => .pure nofun
  · exact .pure_some hnormal

theorem ensures_rounds {round : Exec (Option Flow)}
    (h : round.Ensures (AllValues P) fun flow? => ∀ flow ∈ flow?, flow.Holds P)
    (budget fuel : Nat) :
    (rounds budget round fuel).Ensures (AllValues P) (Flow.Holds P) := by
  induction fuel with
  | zero => exact .interrupt _
  | succ fuel ih =>
    refine .bind (ensures_started h budget) fun flow? hflow => ?_
    cases flow? with
    | none => exact ih
    | some flow => exact .pure (hflow flow rfl)

theorem ensures_loop {round : Exec (Option Flow)}
    (h : round.Ensures (AllValues P) fun flow? => ∀ flow ∈ flow?, flow.Holds P) (budget : Nat) :
    (loop budget round).Ensures (AllValues P) (Flow.Holds P) :=
  .within (fun m hm => ensures_rounds h budget _ m hm) (fun _ hm => hm.setLoopDepth _)
    fun _ _ hm => hm.setLoopDepth _

/-! ## Statements -/

mutual

/-- A statement whose literals have the property leaves no other values behind. -/
theorem ensures_exec (hP : Value.IsClosed P) (hcall : CallAction.Ensures P call) (budget : Nat)
    (shown : Bool) : ∀ s : Stmt, MadeOf (Expr.LiteralsIn P) [s] →
      (exec budget call shown s).Ensures (AllValues P) (Flow.Holds P)
  | .declare l kind name initial, h => by
    unfold Script.exec
    have hinitial : ∀ e ∈ initial, e.LiteralsIn P := by
      simpa [Stmt.expressions] using (MadeOf.cons_iff.1 h).1.expressions
    refine ensures_started (.andThen ?_ fun _ => .pure trivial) budget
    exact preserves_declareVariable hP hcall shown _ kind name hinitial
  | .assign l target op e, h => by
    unfold Script.exec
    have he := (MadeOf.cons_iff.1 h).1.expressions e (List.mem_singleton_self e)
    refine ensures_started (.bind (ensures_evaluate hP hcall _ e he) fun v hv => ?_) budget
    exact .andThen (preserves_assignVariable hP (fun _ => hv) _ target) fun _ => .pure trivial
  | .update l target delta, _ => by
    unfold Script.exec
    have hadd : some BinaryOp.add = none → Slot.Holds P (some (.int delta)) := nofun
    refine ensures_started (.andThen ?_ fun _ => .pure trivial) budget
    exact preserves_assignVariable hP hadd _ target
  | .expression l e, h => by
    unfold Script.exec
    have he := (MadeOf.cons_iff.1 h).1.expressions e (List.mem_singleton_self e)
    have hvalue := ensures_evaluate hP hcall l.line e he
    refine ensures_started (.andThen hvalue.preserves fun _ => ?_) budget
    exact .andThen (preserves_captureIf shown _ _) fun _ => .pure trivial
  | .block l body, h => by
    unfold Script.exec
    exact ensures_started (ensures_execBlock hP hcall budget body (MadeOf.cons_iff.1 h).2.1) budget
  | .cond l condition yes no, h => by
    unfold Script.exec
    obtain ⟨hs, hinner, -⟩ := MadeOf.cons_iff.1 h
    obtain ⟨hyes, hno⟩ := List.forall_mem_append.1 hinner
    have hcondition := hs.expressions condition (List.mem_singleton_self condition)
    have htest := ensures_evaluate hP hcall l.line condition hcondition
    refine ensures_started (.andThen htest.preserves fun test => ?_) budget
    split
    · exact ensures_execBlock hP hcall budget yes hyes
    · exact ensures_execElse hP hcall budget no hno
  | .whileLoop l condition body, h => by
    unfold Script.exec
    obtain ⟨hs, hinner, -⟩ := MadeOf.cons_iff.1 h
    have hcondition := hs.expressions condition (List.mem_singleton_self condition)
    have htest := ensures_evaluate hP hcall l.line condition hcondition
    have hbody := ensures_execBlock hP hcall budget body hinner
    refine ensures_started (ensures_loop ?_ budget) budget
    exact ensures_loopRound htest.preserves (fun _ hm => hm) hbody
  | .forLoop l initial condition update body, h => by
    unfold Script.exec
    obtain ⟨hs, hinner, -⟩ := MadeOf.cons_iff.1 h
    obtain ⟨hinitial, hinner⟩ := List.forall_mem_append.1 hinner
    obtain ⟨hupdate, hbody⟩ := List.forall_mem_append.1 hinner
    have hcondition : ∀ e ∈ condition, e.LiteralsIn P := by
      simpa [Stmt.expressions] using hs.expressions
    have htest := ensures_evaluateOr hP hcall (Slot.holds_some.2 (hP.bool true)) l.line hcondition
    have hfirst := preserves_execClause hP hcall budget initial hinitial
    refine ensures_started (.andThen hfirst fun _ => ?_) budget
    refine ensures_loop ?_ budget
    exact ensures_loopRound htest.preserves (preserves_execClause hP hcall budget update hupdate)
      (ensures_execBlock hP hcall budget body hbody)
  | .function l name params body, h => by
    unfold Script.exec
    have hbody : MadeOf (Expr.LiteralsIn P) body := (MadeOf.cons_iff.1 h).2.1
    refine ensures_started (.andThen (fun m hm => ?_) fun _ => .pure trivial) budget
    unfold defineOnce Exec.modify
    dsimp only
    split
    · exact hm
    · exact hm.define hbody name
  | .ret l value, h => by
    unfold Script.exec
    have hvalue : ∀ e ∈ value, e.LiteralsIn P := by
      simpa [Stmt.expressions] using (MadeOf.cons_iff.1 h).1.expressions
    have hleave : (leave l.line (·.scopes.isEmpty) .strayReturn .normal).Ensures (AllValues P)
        (Flow.Holds P) := ensures_leave _ _ _ .normal trivial
    refine ensures_started (.andThen hleave.preserves fun _ => ?_) budget
    exact .bind (ensures_evaluateOr hP hcall Slot.holds_none _ hvalue) fun v hv => .pure hv
  | .stop l, _ => by
    unfold Script.exec
    exact ensures_started (ensures_leave _ _ _ .stop trivial) budget
  | .next l, _ => by
    unfold Script.exec
    exact ensures_started (ensures_leave _ _ _ .next trivial) budget

theorem preserves_execClause (hP : Value.IsClosed P) (hcall : CallAction.Ensures P call)
    (budget : Nat) : ∀ s : Option Stmt,
      (∀ x ∈ Stmt.clauseStatements s, x.MadeOf (Expr.LiteralsIn P)) →
        (execClause budget call s).Preserves (AllValues P)
  | none, _ => fun _ hm => hm
  | some s, h =>
    have hs : MadeOf (Expr.LiteralsIn P) [s] :=
      MadeOf.cons_iff.2 ⟨(List.forall_mem_cons.1 h).1, (List.forall_mem_cons.1 h).2, .nil⟩
    Preserves.bind (ensures_exec hP hcall budget false s hs).preserves fun _ _ hm => hm

theorem ensures_execBlock (hP : Value.IsClosed P) (hcall : CallAction.Ensures P call)
    (budget : Nat) : ∀ body : List Stmt, MadeOf (Expr.LiteralsIn P) body →
      (execBlock budget call body).Ensures (AllValues P) (Flow.Holds P)
  | [], _ => .pure trivial
  | s :: rest, h => by
    unfold Script.execBlock
    obtain ⟨hs, hinner, hrest⟩ := MadeOf.cons_iff.1 h
    have hfirst := ensures_exec hP hcall budget true s (MadeOf.cons_iff.2 ⟨hs, hinner, .nil⟩)
    refine .bind hfirst fun flow hflow => ?_
    cases flow with
    | normal => exact ensures_execBlock hP hcall budget rest hrest
    | stop | next | ret => exact .pure hflow

theorem ensures_execElse (hP : Value.IsClosed P) (hcall : CallAction.Ensures P call)
    (budget : Nat) : ∀ body : Option (List Stmt),
      (∀ x ∈ optionalStatements body, x.MadeOf (Expr.LiteralsIn P)) →
        (execElse budget call body).Ensures (AllValues P) (Flow.Holds P)
  | none, _ => .pure trivial
  | some body, h => ensures_execBlock hP hcall budget body h

end

/-! ## Calls -/

theorem ensures_find {α : Type} {post : α → Prop} {f : Procedure → Exec α}
    (hf : ∀ p : Procedure, MadeOf (Expr.LiteralsIn P) p.body →
      (f p).Ensures (AllValues P) post) (line : Nat) (name : String) :
    (find line name >>= f).Ensures (AllValues P) post := by
  refine .bind (.update fun m p m' h hm => ?_) hf
  obtain ⟨q, hq, heq⟩ := except_map_eq_ok_iff.1 h
  cases heq
  unfold findProcedure at hq
  split at hq
  next hget =>
    cases hq
    exact ⟨hm, hm.procedures name _ hget⟩
  next => cases hq

/-- By induction on the levels of calls that are left. -/
theorem ensures_callWithin (hP : Value.IsClosed P) (limits : Limits) (levels : Nat) (name : String)
    (args : List Slot) (line : Nat) (hargs : ∀ arg ∈ args, arg.Holds P) :
    (callWithin limits levels name args line).Ensures (AllValues P) (Slot.Holds P) := by
  induction levels generalizing name args line with
  | zero =>
    unfold callWithin
    exact .visit (ensures_find (fun _ _ => .fault line _) line name)
  | succ levels ih =>
    unfold callWithin
    refine .visit (ensures_find (fun p hp => ?_) line name)
    -- The calls of the body have one level less, which is where the induction hypothesis serves.
    have hbody := ensures_execBlock hP (fun name args line => ih name args line)
      limits.stepBudget p.body hp
    have hcalled : (inCall name p args line _).Ensures (AllValues P) (Flow.Holds P) :=
      .within hbody (fun m hm => hm.enterCall hp hargs name line) fun _ m hm => hm.leaveCall _
    refine .bind hcalled fun flow hflow => ?_
    cases flow with
    | ret v => exact .pure hflow
    | normal | stop | next => exact .pure Slot.holds_none

/-! ## Runs -/

theorem allValues_execute (hP : Value.IsClosed P) (limits : Limits) {program : Program}
    (h : MadeOf (Expr.LiteralsIn P) program) : (execute limits program).machine.AllValues P := by
  have hbody := ensures_execBlock hP (ensures_callWithin hP limits limits.callDepth)
    limits.stepBudget program h
  exact (hbody _ (allValues_initial.hoist h)).1

/-- A property that operators keep holds of all values in the trace of a run, however it ends. -/
theorem allValues_run (hP : Value.IsClosed P) (limits : Limits) (source : String) :
    (run limits source).trace.AllValues P := by
  unfold run
  split
  next => exact nofun
  next program hprogram =>
    have hmachine := allValues_execute hP limits (madeOf_literalsIn hP hprogram)
    unfold Outcome.toRun
    split
    · exact (hmachine.capture _ _).recorder.trace
    · exact hmachine.recorder.trace
    · exact hmachine.recorder.trace

end Script

end TraceTutor

import TraceTutor.Proofs.Script.Nesting

/-!
# Calls and the variables of their callers

A call works on the global variables and on its own. The variables of the calls around it do not
show in what it does, and it leaves them as they are (`callWithin_isolated`).

Inside of a call every action is `Secluded`: with more scopes below those of the machine it does the
same, and these scopes are still there afterwards. A body starts with one scope of its own, so all
others are below.
-/

namespace TraceTutor

/-! ## Machines with more scopes -/

namespace Machine

/-- The machine with more scopes around those of the active calls. -/
def atop (outer : List Scope) (m : Machine) : Machine :=
  { m with scopes := m.scopes ++ outer }

variable (outer : List Scope) {m : Machine}

theorem updateScopeOf_atop (h : m.scopes ≠ []) (name : String) (change : Scope → Scope) :
    (m.atop outer).updateScopeOf name change = (m.updateScopeOf name change).atop outer := by
  obtain ⟨globals, scopes, procedures, recorder, steps, loopDepth⟩ := m
  cases scopes with
  | nil => exact absurd rfl h
  | cons scope rest =>
    simp only [updateScopeOf, atop, List.cons_append]
    split <;> rfl

theorem isEmpty_scopes_atop (h : m.scopes ≠ []) :
    (m.atop outer).scopes.isEmpty = m.scopes.isEmpty := by
  rw [List.isEmpty_eq_false_iff.2 h]
  exact List.isEmpty_eq_false_iff.2 (List.append_ne_nil_of_left_ne_nil h outer)

theorem scopeOf_atop (h : m.scopes ≠ []) (name : String) :
    (m.atop outer).scopeOf name = m.scopeOf name := by
  obtain ⟨globals, scopes, procedures, recorder, steps, loopDepth⟩ := m
  cases scopes with
  | nil => exact absurd rfl h
  | cons scope rest => rfl

theorem isDeclared_atop (h : m.scopes ≠ []) (name : String) :
    (m.atop outer).isDeclared name = m.isDeclared name := by
  rw [isDeclared, isDeclared, scopeOf_atop outer h]

theorem read?_atop (h : m.scopes ≠ []) (name : String) :
    (m.atop outer).read? name = m.read? name := by
  rw [read?, read?, scopeOf_atop outer h]

theorem lookup_atop (h : m.scopes ≠ []) (name : String) :
    (m.atop outer).lookup name = m.lookup name := by
  rw [lookup, lookup, read?_atop outer h, isDeclared_atop outer h]
  rfl

theorem declare_atop (h : m.scopes ≠ []) (kind : DeclarationKind) (name : String)
    (initial : Slot) :
    (m.atop outer).declare kind name initial = (m.declare kind name initial).atop outer := by
  obtain ⟨globals, scopes, procedures, recorder, steps, loopDepth⟩ := m
  cases scopes with
  | nil => exact absurd rfl h
  | cons scope rest => rfl

theorem assign_atop (h : m.scopes ≠ []) (name : String) (v : Slot) :
    (m.atop outer).assign name v = (m.assign name v).map (·.atop outer) := by
  rw [assign, assign, scopeOf_atop outer h, updateScopeOf_atop outer h]
  split <;> rfl

theorem push_atop (h : m.scopes ≠ []) (name : String) (items : List Value) :
    (m.atop outer).push name items =
      (m.push name items).map fun pushed => (pushed.1, pushed.2.atop outer) := by
  unfold push
  rw [read?_atop outer h, isDeclared_atop outer h]
  cases m.read? name with
  | none => rfl
  | some v =>
    dsimp only
    cases v.push? items with
    | none => rfl
    | some pushed =>
      dsimp only
      rw [updateScopeOf_atop outer h]
      rfl

theorem hoist_atop (m : Machine) (body : List Stmt) :
    (m.atop outer).hoist body = (m.hoist body).atop outer :=
  hoist_comm (atop outer) (fun _ _ _ => rfl) m body

theorem enterCall_atop (m : Machine) (name : String) (p : Procedure) (args : List Slot)
    (line : Nat) :
    (m.atop outer).enterCall name p args line = (m.enterCall name p args line).atop outer := by
  unfold enterCall
  dsimp only
  rw [← hoist_atop]
  rfl

theorem leaveCall_atop (h : m.scopes ≠ []) (loopDepth : Nat) :
    (m.atop outer).leaveCall loopDepth = (m.leaveCall loopDepth).atop outer := by
  rw [leaveCall, atop, List.tail_append_of_ne_nil h]
  rfl

theorem capture_atop (h : m.scopes ≠ []) (line : Nat) (note : String) :
    (m.atop outer).capture line note = (m.capture line note).atop outer := by
  obtain ⟨globals, scopes, procedures, recorder, steps, loopDepth⟩ := m
  cases scopes with
  | nil => exact absurd rfl h
  | cons scope rest => rfl

end Machine

/-! ## Secluded actions -/

/-- The outcome with more scopes around those of the active calls. -/
def Outcome.atop {α : Type} (outer : List Scope) (o : Outcome α) : Outcome α :=
  { o with machine := o.machine.atop outer }

/-- The outcome with other scopes of the active calls. -/
def Outcome.withScopes {α : Type} (o : Outcome α) (scopes : List Scope) : Outcome α :=
  { o with machine := { o.machine with scopes } }

namespace Exec

variable {α β : Type}

/-- Inside of a call, the action does the same whatever scopes there are around its own, and leaves
them as they are. -/
structure Secluded (a : Exec α) : Prop where
  balanced : a.Balanced
  atop (m : Machine) (outer : List Scope) : m.scopes ≠ [] → a (m.atop outer) = (a m).atop outer

/-! ### Single changes -/

section

variable {outer : List Scope} {m : Machine}

theorem update_atop {line : Nat} {change : Machine → Except RuntimeCause (α × Machine)}
    (h : change (m.atop outer) = (change m).map fun (x, m) => (x, m.atop outer)) :
    Exec.update line change (m.atop outer) = (Exec.update line change m).atop outer := by
  unfold Exec.update
  rw [h]
  cases change m <;> rfl

theorem modify_atop {change : Machine → Machine}
    (h : change (m.atop outer) = (change m).atop outer) :
    Exec.modify change (m.atop outer) = (Exec.modify change m).atop outer := by
  unfold Exec.modify
  rw [h]
  rfl

theorem ofExcept_atop (line : Nat) (x : Except RuntimeCause α) :
    Exec.ofExcept line x (m.atop outer) = (Exec.ofExcept line x m).atop outer := by
  cases x <;> rfl

theorem capture_atop (hm : m.scopes ≠ []) (line : Nat) (note : String) :
    Script.captureNote line note (m.atop outer) = (Script.captureNote line note m).atop outer := by
  unfold Script.captureNote Exec.capture
  exact modify_atop (Machine.capture_atop outer hm line _)

theorem tick_atop (budget : Nat) :
    Exec.tick budget (m.atop outer) = (Exec.tick budget m).atop outer := by
  unfold Exec.tick
  by_cases h : budget < m.steps + 1 <;> simp [h, Machine.atop, Outcome.atop]

theorem leave_atop {line : Nat} {misplaced : Machine → Bool} (cause : RuntimeCause) (flow : Flow)
    (h : misplaced (m.atop outer) = misplaced m) :
    Script.leave line misplaced cause flow (m.atop outer) =
      (Script.leave line misplaced cause flow m).atop outer := by
  refine update_atop ?_
  rw [h]
  split <;> rfl

theorem find_atop (hm : m.scopes ≠ []) (line : Nat) (name : String) :
    Script.find line name (m.atop outer) = (Script.find line name m).atop outer := by
  have hfind : Script.findProcedure (m.atop outer) name = Script.findProcedure m name := by
    rw [Script.findProcedure, Script.findProcedure, Machine.isDeclared_atop outer hm]
    rfl
  refine update_atop ?_
  rw [hfind]
  cases Script.findProcedure m name <;> rfl

end

/-! ### Rules -/

namespace Secluded

theorem scopes_ne_nil {a : Exec α} (ha : a.Secluded) {m : Machine} (h : m.scopes ≠ []) :
    (a m).machine.scopes ≠ [] := by
  rw [← List.length_pos_iff, (ha.balanced m).scopes]
  exact List.length_pos_iff.2 h

theorem pure (x : α) : (Pure.pure x : Exec α).Secluded :=
  ⟨fun m => .refl m, fun _ _ _ => rfl⟩

theorem bind {a : Exec α} {f : α → Exec β} (ha : a.Secluded) (hf : ∀ x, (f x).Secluded) :
    (a >>= f).Secluded := by
  refine ⟨ha.balanced.bind fun x => (hf x).balanced, fun m outer hm => ?_⟩
  have hatop := ha.atop m outer hm
  have hscopes := ha.scopes_ne_nil hm
  cases h : a m with
  | mk result m' visits =>
    rw [h] at hatop hscopes
    cases result with
    | error i =>
      rw [bind_of_error h, bind_of_error hatop]
      rfl
    | ok x =>
      rw [bind_of_ok h, bind_of_ok hatop, (hf x).atop m' outer hscopes]
      rfl

theorem visit {a : Exec α} (ha : a.Secluded) : a.visit.Secluded := by
  refine ⟨ha.balanced, fun m outer hm => ?_⟩
  unfold Exec.visit
  rw [ha.atop m outer hm]
  rfl

theorem tick (budget : Nat) : (Exec.tick budget).Secluded :=
  ⟨.tick budget, fun _ _ _ => tick_atop budget⟩

theorem rounds {round : Exec (Option Flow)} (h : round.Secluded) (budget fuel : Nat) :
    (Script.rounds budget round fuel).Secluded := by
  induction fuel with
  | zero => exact ⟨fun m => .refl m, fun _ _ _ => rfl⟩
  | succ fuel ih =>
    refine ((tick budget).bind fun _ => h).visit.bind fun flow => ?_
    cases flow with
    | none => exact ih
    | some flow => exact pure flow

theorem loop {budget : Nat} {round : Exec (Option Flow)} (h : round.Secluded) :
    (Script.loop budget round).Secluded := by
  refine ⟨h.balanced.loop, fun m outer hm => ?_⟩
  have hrounds := (h.rounds budget (budget - m.steps + 1)).atop
    { m with loopDepth := m.loopDepth + 1 } outer hm
  exact congrArg (fun o : Outcome Flow =>
    { o with machine := { o.machine with loopDepth := o.machine.loopDepth - 1 } }) hrounds

theorem inCall {a : Exec α} (h : a.Secluded) (name : String) (p : Procedure) (args : List Slot)
    (line : Nat) : (Script.inCall name p args line a).Secluded := by
  refine ⟨h.balanced.inCall name p args line, fun m outer _ => ?_⟩
  have hentered : (m.enterCall name p args line).scopes ≠ [] := by simp [Machine.enterCall]
  unfold Script.inCall Exec.within
  dsimp only
  rw [Machine.enterCall_atop, h.atop _ outer hentered]
  exact congrArg (Outcome.mk _ · _) (Machine.leaveCall_atop outer (h.scopes_ne_nil hentered) _)

end Secluded

end Exec

namespace Script

open Exec

/-- All actions of the evaluator are secluded. -/
theorem isCongruence_secluded (b : Nat) :
    IsCongruence (fun {α} (_ a : Exec α) => a.Secluded) b b (fun _ => True) := by
  have hbalanced := isCongruence_balanced b b
  exact {
    rel_pure := .pure
    rel_bind := .bind
    rel_visit := .visit
    rel_tick := .tick b
    rel_ofExcept := fun x hline => ⟨hbalanced.rel_ofExcept x hline, fun _ _ _ => ofExcept_atop _ x⟩
    rel_lookup := fun name hline => ⟨hbalanced.rel_lookup name hline, fun m outer hm => by
      rw [Exec.lookup, Exec.lookup, Machine.lookup_atop outer hm]
      exact ofExcept_atop _ _⟩
    rel_assign := fun name v hline => ⟨hbalanced.rel_assign name v hline, fun m outer hm =>
      update_atop (by rw [Machine.assign_atop outer hm]; cases m.assign name v <;> rfl)⟩
    rel_declare := fun kind name v => ⟨hbalanced.rel_declare kind name v, fun m outer hm =>
      modify_atop (Machine.declare_atop outer hm kind name v)⟩
    rel_push := fun name items hline => ⟨hbalanced.rel_push name items hline, fun m outer hm =>
      update_atop (by rw [Machine.push_atop outer hm]; cases m.push name items <;> rfl)⟩
    rel_log := fun args => ⟨hbalanced.rel_log args, fun _ _ _ => modify_atop rfl⟩
    rel_captureNote := fun note hline => ⟨hbalanced.rel_captureNote note hline, fun m outer hm =>
      capture_atop hm _ note⟩
    rel_defineOnce := fun name hp => ⟨hbalanced.rel_defineOnce name hp, fun m outer _ =>
      modify_atop (by
        change (if m.procedures.contains name then _ else _) = _
        split <;> rfl)⟩
    rel_leaveCall := fun hline => ⟨hbalanced.rel_leaveCall hline, fun m outer hm =>
      leave_atop _ _ (Machine.isEmpty_scopes_atop outer hm)⟩
    rel_leaveLoop := fun cause flow hline => ⟨hbalanced.rel_leaveLoop cause flow hline,
      fun _ _ _ => leave_atop cause flow rfl⟩
    rel_loop := .loop
    rel_find := fun name _ hf =>
      Secluded.bind ⟨.of_preserves fun _ => IsInvariant.find _ name,
        fun _ _ hm => find_atop hm _ name⟩
        fun p => hf p (linesIn_of_forall (fun _ => trivial) _)
    rel_inCall := fun name args _ _ ha => ha.inCall name _ args _ }

/-! ## Calls -/

theorem map_of_scopes {α β : Type} {a : Exec α} {m m' : Machine} {scopes : List Scope}
    (h : a m' = (a m).withScopes scopes) (f : α → β) :
    (do return f (← a)) m' = Outcome.withScopes ((do return f (← a)) m) scopes := by
  cases ha : a m with
  | mk result m₁ visits =>
    rw [ha] at h
    cases result with
    | ok x =>
      rw [bind_of_ok ha, bind_of_ok h]
      rfl
    | error i =>
      rw [bind_of_error ha, bind_of_error h]
      rfl

/-- A body does in a call whatever it does in a call without callers, and the scopes of the callers
are those of before. -/
theorem inCall_of_scopes {α : Type} {a : Exec α} (h : a.Secluded) (name : String) (p : Procedure)
    (args : List Slot) (line : Nat) (m : Machine) (scopes : List Scope) :
    inCall name p args line a { m with scopes } =
      (inCall name p args line a { m with scopes := [] }).withScopes scopes := by
  let entered := { m with scopes := [] }.enterCall name p args line
  have hlength : entered.scopes.length = 1 := by simp [entered, Machine.enterCall]
  have hatop := h.atop entered scopes (List.length_pos_iff.1 (by omega))
  have hown := (h.balanced entered).scopes.trans hlength
  have henter : { m with scopes }.enterCall name p args line = entered.atop scopes :=
    Machine.enterCall_atop scopes { m with scopes := [] } name p args line
  unfold inCall Exec.within
  dsimp only
  rw [henter, hatop]
  -- One scope is left above those of the callers, which is that of the call.
  obtain ⟨own, hown⟩ := List.length_eq_one_iff.1 hown
  simp only [Outcome.atop, Outcome.withScopes, Machine.leaveCall, Machine.atop, hown]
  rfl

section

variable (limits : Limits) (levels : Nat) (name : String) (args : List Slot) (line : Nat)

theorem secluded_callWithin : (callWithin limits levels name args line).Secluded :=
  (isCongruence_secluded limits.stepBudget).callWithin rfl levels name args line trivial

theorem secluded_execBlock (body : List Stmt) :
    (execBlock limits.stepBudget (callWithin limits levels) body).Secluded :=
  @IsLocalCongruence.execBlock _ _ _ _ (callWithin limits levels) (callWithin limits levels)
    (isCongruence_secluded limits.stepBudget).toIsLocalCongruence
    (fun name args line _ => secluded_callWithin limits levels name args line) body
    (linesIn_of_forall (fun _ => trivial) body)

/-- A function does the same whatever the scopes of its callers are, and leaves them alone. -/
theorem callWithin_of_scopes {m : Machine} {p : Procedure} (hp : m.procedures.get? name = some p)
    (scopes : List Scope) :
    callWithin limits levels name args line { m with scopes } =
      (callWithin limits levels name args line { m with scopes := [] }).withScopes scopes := by
  have hfind (scopes : List Scope) :
      find line name { m with scopes } = ⟨.ok p, { m with scopes }, 0⟩ := find_of_get? hp
  cases levels with
  | zero =>
    unfold callWithin Exec.visit
    dsimp only
    rw [bind_of_ok (hfind scopes), bind_of_ok (hfind [])]
    rfl
  | succ levels =>
    have hbody := secluded_execBlock limits levels p.body
    unfold callWithin Exec.visit runBody
    dsimp only
    rw [bind_of_ok (hfind scopes), bind_of_ok (hfind []),
      map_of_scopes (inCall_of_scopes hbody name p args line m scopes)]
    rfl

/-- A name that is no function's changes nothing but ends the run. -/
theorem callWithin_of_none {m : Machine} (hp : m.procedures.get? name = none) :
    (callWithin limits levels name args line m).machine = m := by
  obtain ⟨cause, hfind⟩ : ∃ cause, find line name m = _ := find_of_none hp
  cases levels with
  | zero =>
    unfold callWithin Exec.visit
    dsimp only
    rw [bind_of_error hfind]
  | succ levels =>
    unfold callWithin Exec.visit
    dsimp only
    rw [bind_of_error hfind]

/-- A call leaves the variables of its callers alone. Were these others, it would record, write,
define and assign the same and take as many steps, and a function would yield the same. -/
theorem callWithin_isolated (m : Machine) :
    (callWithin limits levels name args line m).machine.scopes = m.scopes ∧
    ∀ scopes : List Scope,
      (callWithin limits levels name args line { m with scopes }).machine =
        { (callWithin limits levels name args line m).machine with scopes } ∧
      ∀ p, m.procedures.get? name = some p →
        (callWithin limits levels name args line { m with scopes }).result =
          (callWithin limits levels name args line m).result := by
  cases hp : m.procedures.get? name with
  | some p =>
    have hother := callWithin_of_scopes limits levels name args line hp
    have hself : callWithin limits levels name args line m = _ := hother m.scopes
    refine ⟨?_, fun scopes => ⟨?_, fun _ _ => ?_⟩⟩
    · rw [hself]
      rfl
    · rw [hother, hself]
      rfl
    · rw [hother, hself]
      rfl
  | none =>
    have hnone := callWithin_of_none limits levels name args line hp
    refine ⟨by rw [hnone], fun scopes => ⟨?_, fun p hp' => by cases hp'⟩⟩
    rw [hnone]
    exact callWithin_of_none limits levels name args line (m := { m with scopes }) hp

end

/-- A function that declares, assigns and pushes, writes what it sees, and calls itself. -/
def growProcedure : Procedure where
  params := ["x"]
  body :=
    [.declare ⟨2, 3⟩ .letKind "n" (some (.binary .add (.name "x") (.literal (.int 1)))),
      .expression ⟨3, 3⟩ (.call (.member (.name "xs") "push") [.name "n"]),
      .assign ⟨4, 3⟩ "x" (some .add) (.literal (.int 10)),
      .assign ⟨5, 3⟩ "total" none (.name "n"),
      .expression ⟨6, 3⟩ (.call (.member (.name "console") "log") [.name "n", .name "xs"]),
      .cond ⟨7, 3⟩ (.binary .lt (.name "n") (.literal (.int 3)))
        [.expression ⟨7, 14⟩ (.call (.name "grow") [.name "n"])] none,
      .ret ⟨8, 3⟩ (some (.name "x"))]

/-- A machine with that function and a global array. -/
def growMachine : Machine :=
  (Machine.initial.declare .constKind "xs" (some (.array []))).define "grow" growProcedure

/-- A caller that has variables of the same names, one of them constant and one unset. -/
def growCaller : Scope :=
  ((Scope.empty.declare .constKind "xs" (some (.int 7))).declare .letKind "n" none).declare
    .varKind "total" (some (.bool true))

theorem callWithin_isolated_grow :
    growMachine.procedures.get? "grow" = some growProcedure ∧
    (callWithin .standard 4 "grow" [some (.int 1)] 9 growMachine).machine.recorder.output =
      #["2 [2]", "3 [2,3]"] ∧
    (callWithin .standard 4 "grow" [some (.int 1)] 9
        { growMachine with scopes := [growCaller] }).machine =
      { (callWithin .standard 4 "grow" [some (.int 1)] 9 growMachine).machine with
        scopes := [growCaller] } ∧
    (callWithin .standard 4 "grow" [some (.int 1)] 9
        { growMachine with scopes := [growCaller] }).result =
      (callWithin .standard 4 "grow" [some (.int 1)] 9 growMachine).result := by
  have h := (callWithin_isolated .standard 4 "grow" [some (.int 1)] 9 growMachine).2 [growCaller]
  exact ⟨rfl, by decide +kernel, h.1, h.2 growProcedure rfl⟩

end Script

end TraceTutor

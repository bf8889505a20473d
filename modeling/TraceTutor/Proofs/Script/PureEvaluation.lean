import TraceTutor.Proofs.NameMap
import TraceTutor.Proofs.Script.Assignment
import TraceTutor.Script.StaticAnalysis

/-!
# Expressions without side effects

There are two evaluators of expressions: `Script.evaluate`, which is part of a run, and
`Script.evaluatePure?`, which the static analysis uses. On expressions that call nothing but members
of `Math` they agree (`evaluate_eq_evaluatePure?`): where the second one knows a value the first one
yields it, where it knows none the first one faults, and the first one leaves the machine as it was.

`Exec.Computes` says that an action is such a computation. The two evaluators are compared by
induction over expressions, with one rule for each way in which parts of an expression are put
together.
-/

namespace TraceTutor

/-! ## Which expressions -/

mutual

/-- The expression calls nothing but members of `Math`, and does not mention `undefined`. -/
def Expr.IsPure : Expr → Prop
  | .literal _ => True
  | .name n => n ≠ "undefined"
  | .array items => Expr.AllPure items
  | .object fields => Expr.FieldsPure fields
  | .unary _ operand => operand.IsPure
  | .binary _ left right => left.IsPure ∧ right.IsPure
  | .ternary condition yes no => condition.IsPure ∧ yes.IsPure ∧ no.IsPure
  | .index target i => target.IsPure ∧ i.IsPure
  | .member target _ => target.IsPure
  | .call callee args => (∃ name, callee = .member (.name "Math") name) ∧ Expr.AllPure args

def Expr.AllPure : List Expr → Prop
  | [] => True
  | e :: rest => e.IsPure ∧ Expr.AllPure rest

def Expr.FieldsPure : List (String × Expr) → Prop
  | [] => True
  | (_, e) :: rest => e.IsPure ∧ Expr.FieldsPure rest

end

/-- Every name reads as in some bindings, and no name that is in sight holds `undefined`. -/
structure Machine.Shows (m : Machine) (bindings : Bindings) : Prop where
  read_eq : ∀ name, m.read? name = bindings.get? name
  isSome_of_declared : ∀ name, m.isDeclared name = true → (m.read? name).isSome = true

namespace Exec

variable {α β : Type} {line : Nat} {m : Machine}

/-! ## Computations -/

/-- From a machine, the action yields a result without changing the machine, or faults at a line if
there is no result. -/
def Computes (line : Nat) (m : Machine) (action : Exec α) (result? : Option α) : Prop :=
  ∃ x : Except RuntimeCause α, x.toOption = result? ∧ EndAlike action (ofExcept line x) m

namespace Computes

variable {action : Exec α} {result? : Option α}

theorem machine_eq (h : Computes line m action result?) : (action m).machine = m := by
  obtain ⟨x, -, halike⟩ := h
  rw [halike.2]
  cases x <;> rfl

theorem result_eq_some_iff (h : Computes line m action result?) {y : α} :
    result? = some y ↔ (action m).result = .ok y := by
  obtain ⟨x, rfl, halike⟩ := h
  rw [halike.1]
  cases x with
  | ok x => simp [Except.toOption, ofExcept, Exec.pure]
  | error cause => simp [Except.toOption, ofExcept, interrupt]

theorem result_eq_none_iff (h : Computes line m action result?) :
    result? = none ↔ ∃ fault, (action m).result = .error (.fault fault) := by
  obtain ⟨x, rfl, halike⟩ := h
  rw [halike.1]
  cases x with
  | ok x => simp [Except.toOption, ofExcept, Exec.pure]
  | error cause => simp [Except.toOption, ofExcept, interrupt]

theorem ofExcept (x : Except RuntimeCause α) : Computes line m (Exec.ofExcept line x) x.toOption :=
  ⟨x, rfl, rfl, rfl⟩

theorem pure (x : α) : Computes line m (Pure.pure x) (some x) :=
  ofExcept (.ok x)

theorem visit (h : Computes line m action result?) : Computes line m action.visit result? := by
  obtain ⟨x, hx, halike⟩ := h
  exact ⟨x, hx, (EndAlike.visit action m).trans halike⟩

/-- A result is its own form. -/
theorem same (h : Computes line m action result?) :
    Computes line m action (result?.map id) := by
  rwa [Option.map_id_apply]

/-- One computation after another. The first one may yield its result in another form. -/
theorem bind {γ : Type} {form : γ → α} {f : α → Exec β} {g : γ → Option β} {value? : Option γ}
    (h : Computes line m action (value?.map form))
    (hf : ∀ v, Computes line m (f (form v)) (g v)) :
    Computes line m (action >>= f) (value? >>= g) := by
  obtain ⟨x, hx, halike⟩ := h
  have hbind : EndAlike (action >>= f) (Exec.ofExcept line x >>= f) m := halike.bind f
  cases value? with
  | none =>
    cases x with
    | ok x => cases hx
    | error cause => exact ⟨.error cause, rfl, hbind⟩
  | some v =>
    cases x with
    | ok x =>
      cases hx
      have hpure : Exec.ofExcept line (.ok (form v)) >>= f = f (form v) := Exec.pure_bind _ f
      rw [hpure] at hbind
      obtain ⟨y, hy, hnext⟩ := hf v
      exact ⟨y, hy, hbind.trans hnext⟩
    | error cause => cases hx

/-- What is made of a value may be made on either side. -/
theorem map {γ : Type} {form : γ → α} {f : α → β} {g : γ → β} {value? : Option γ}
    (h : Computes line m action (value?.map form)) (hf : ∀ v, f (form v) = g v) :
    Computes line m (action >>= fun x => Pure.pure (f x)) (value?.map g) := by
  have hbind := h.bind (f := fun x => Pure.pure (f x)) (g := fun v => some (g v)) fun v =>
    hf v ▸ pure (f (form v))
  rwa [Option.map_eq_bind]

theorem choice {condition : Prop} [Decidable condition] {action' : Exec α} {result?' : Option α}
    (h : Computes line m action result?) (h' : Computes line m action' result?') :
    Computes line m (if condition then action else action')
      (if condition then result? else result?') := by
  by_cases hcondition : condition
  · rwa [if_pos hcondition, if_pos hcondition]
  · rwa [if_neg hcondition, if_neg hcondition]

end Computes

/-- Reading a name yields what is bound to it, and faults if nothing is. -/
theorem computes_lookup {bindings : Bindings} (h : m.Shows bindings) {name : String}
    (hname : name ≠ "undefined") :
    Computes line m (Exec.lookup line name) ((bindings.get? name).map some) := by
  rw [← h.read_eq]
  have hset := h.isSome_of_declared name
  cases hread : m.read? name with
  | some v =>
    have hlookup : m.lookup name = .ok (some v) := by rw [Machine.lookup, hread]
    refine ⟨.ok (some v), rfl, ?_⟩
    rw [EndAlike, lookup_of_ok hlookup]
    exact ⟨rfl, rfl⟩
  | none =>
    have hundeclared : m.isDeclared name = false := by
      rw [hread] at hset
      simpa using hset
    obtain ⟨cause, hlookup⟩ : ∃ cause, m.lookup name = .error cause := by
      rw [Machine.lookup, hread, hundeclared, decide_eq_false hname]
      by_cases hfunction : (m.procedures.contains name || name = "Math" || name = "console") = true
      · exact ⟨_, if_pos hfunction⟩
      · exact ⟨_, if_neg hfunction⟩
    refine ⟨.error cause, rfl, ?_⟩
    rw [EndAlike, lookup_of_error hlookup]
    exact ⟨rfl, rfl⟩

end Exec

namespace Script

open Exec

variable {line : Nat} {m : Machine} {bindings : Bindings}

/-! ## The two evaluators -/

/-- Operands that are there are combined by the operator alone. -/
theorem combine_some (op : BinaryOp) (v w : Value) :
    (op.combine (some v) (some w)).toOption = op.apply? v w := by
  unfold BinaryOp.combine Slot.orNull
  split
  next h _ => cases h
  next h => cases h
  next op _ _ _ _ _ =>
    dsimp only
    cases op.apply? v w <;> rfl

/-- An access to a part of a value, or an operator, yields a value. -/
theorem computes_some (x : Except RuntimeCause Value) :
    Computes line m (Exec.ofExcept line x >>= fun v => return some v)
      (x.toOption.map some) := by
  exact (Computes.ofExcept x).same.map fun _ => rfl

theorem computes_invoke_math (call : CallAction) (name : String) (values : List Value) :
    Computes line m (invoke call (.math name) (values.map some) line)
      ((mathCall? name values).map some) := by
  have hargs : (values.map some).map Slot.orNull = values := by
    rw [List.map_map]
    exact List.map_id values
  unfold invoke
  dsimp only
  rw [hargs]
  cases mathCall? name values with
  | some v => exact ⟨_, rfl, rfl, rfl⟩
  | none => exact ⟨_, rfl, rfl, rfl⟩

mutual

theorem computes_evaluate (call : CallAction) (h : m.Shows bindings) :
    ∀ e : Expr, e.IsPure →
      Computes line m (evaluate call line e) ((evaluatePure? bindings e).map some)
  | .literal v, _ => by
    unfold evaluate evaluatePure?
    exact (Computes.pure (some v)).visit
  | .name name, hpure => by
    unfold Expr.IsPure at hpure
    unfold evaluate evaluatePure?
    rw [if_neg hpure]
    exact (computes_lookup h hpure).visit
  | .array items, hpure => by
    unfold evaluate evaluatePure?
    rw [Option.map_map]
    refine ((computes_evaluateAll call h items hpure).map fun values => ?_).visit
    rw [List.map_map]
    exact congrArg (fun values => some (Value.array values)) (List.map_id values)
  | .object fields, hpure => by
    unfold evaluate evaluatePure?
    rw [Option.map_map]
    exact ((computes_evaluateFields call h fields hpure).same.map fun _ => rfl).visit
  | .unary op operand, hpure => by
    unfold evaluate evaluatePure?
    rw [Option.map_map]
    exact ((computes_evaluate call h operand hpure).map fun _ => rfl).visit
  | .binary op left right, hpure => by
    unfold evaluate evaluatePure?
    rw [Option.bind_eq_bind, Option.map_bind]
    refine ((computes_evaluate call h left hpure.1).bind fun l => ?_).visit
    have hright := computes_evaluate call h right hpure.2
    -- Only the two logical operators may leave their right operand alone.
    have hboth : Computes line m
        (evaluate call line right >>= fun r =>
          Exec.ofExcept line (op.combine (some l) r) >>= fun v => return some v)
        (((evaluatePure? bindings right).bind fun r => op.apply? l r).map some) := by
      rw [Option.map_bind]
      refine hright.bind fun r => ?_
      rw [Function.comp_apply, ← combine_some]
      exact computes_some _
    cases op with
    | and =>
      rw [Function.comp_apply, apply_ite (Option.map some)]
      exact hright.choice (.pure (some l))
    | or =>
      rw [Function.comp_apply, apply_ite (Option.map some)]
      exact .choice (.pure (some l)) hright
    | _ => exact hboth
  | .ternary condition yes no, hpure => by
    unfold evaluate evaluatePure?
    rw [Option.bind_eq_bind, Option.map_bind]
    refine ((computes_evaluate call h condition hpure.1).bind fun test => ?_).visit
    rw [Function.comp_apply, apply_ite (Option.map some)]
    exact (computes_evaluate call h yes hpure.2.1).choice (computes_evaluate call h no hpure.2.2)
  | .index target index, hpure => by
    unfold evaluate evaluatePure?
    rw [Option.bind_eq_bind, Option.map_bind]
    refine ((computes_evaluate call h target hpure.1).bind fun t => ?_).visit
    rw [Function.comp_apply, Option.map_bind]
    exact (computes_evaluate call h index hpure.2).bind fun i => computes_some _
  | .member target property, hpure => by
    unfold evaluate evaluatePure?
    rw [Option.bind_eq_bind, Option.map_bind]
    exact ((computes_evaluate call h target hpure).bind fun t => computes_some _).visit
  | .call callee args, hpure => by
    obtain ⟨⟨name, rfl⟩, hargs⟩ := hpure
    have hcallee : (Expr.member (.name "Math") name).callee = .math name := rfl
    unfold evaluate evaluatePure?
    rw [hcallee, Option.bind_eq_bind, Option.map_bind]
    refine ((computes_evaluateAll call h args hargs).bind fun values => ?_).visit
    exact computes_invoke_math call name values

theorem computes_evaluateAll (call : CallAction) (h : m.Shows bindings) :
    ∀ items : List Expr, Expr.AllPure items →
      Computes line m (evaluateAll call line items)
        ((evaluatePureAll? bindings items).map (List.map some))
  | [], _ => by
    unfold evaluateAll evaluatePureAll?
    exact .pure []
  | e :: rest, hpure => by
    unfold evaluateAll evaluatePureAll?
    rw [Option.bind_eq_bind, Option.map_bind]
    refine (computes_evaluate call h e hpure.1).bind fun v => ?_
    rw [Function.comp_apply, Option.bind_eq_bind, Option.map_bind]
    exact (computes_evaluateAll call h rest hpure.2).bind fun vs => .pure (some v :: vs.map some)

theorem computes_evaluateFields (call : CallAction) (h : m.Shows bindings) :
    ∀ fields : List (String × Expr), Expr.FieldsPure fields →
      Computes line m (evaluateFields call line fields) (evaluatePureFields? bindings fields)
  | [], _ => by
    unfold evaluateFields evaluatePureFields?
    exact .pure []
  | (key, e) :: rest, hpure => by
    unfold evaluateFields evaluatePureFields?
    refine (computes_evaluate call h e hpure.1).bind fun v => ?_
    have hrest := computes_evaluateFields call h rest hpure.2
    exact hrest.same.bind fun fields => .pure ((key, v) :: fields)

end

/-- The evaluator of the static analysis agrees with that of a run. From a machine that shows the
bindings, it knows the value of an expression without side effects exactly if the evaluation yields
that value, and knows none exactly if the evaluation faults. The evaluation changes nothing. -/
theorem evaluate_eq_evaluatePure? (call : CallAction) (line : Nat) (e : Expr) (hpure : e.IsPure)
    (bindings : Bindings) (m : Machine) (h : m.Shows bindings) :
    (∀ v, evaluatePure? bindings e = some v ↔ (evaluate call line e m).result = .ok (some v)) ∧
    (evaluatePure? bindings e = none ↔
      ∃ fault, (evaluate call line e m).result = .error (.fault fault)) ∧
    (evaluate call line e m).machine = m := by
  have hcomputes : Computes line m (evaluate call line e) ((evaluatePure? bindings e).map some) :=
    computes_evaluate call h e hpure
  refine ⟨fun v => ?_, ?_, hcomputes.machine_eq⟩
  · rw [← hcomputes.result_eq_some_iff]
    simp
  · rw [← hcomputes.result_eq_none_iff]
    simp

/-- A machine inside a call, with a global variable and a local one. -/
def insideCall : Machine :=
  { Machine.initial with
    globals := { Scope.empty with locals := .ofList [("n", .int 2)] }
    scopes := [{ Scope.empty with locals := .ofList [("word", .string "abc")] }] }

/-- The bindings that are in sight there. -/
def insideBindings : Bindings :=
  .ofList [("n", .int 2), ("word", .string "abc")]

theorem read?_insideCall (name : String) :
    insideCall.read? name = insideBindings.get? name ∧
      insideCall.isDeclared name = (insideBindings.get? name).isSome := by
  by_cases hword : name = "word"
  · subst hword
    exact ⟨rfl, rfl⟩
  · by_cases hn : name = "n"
    · subst hn
      exact ⟨rfl, rfl⟩
    · simp [insideCall, insideBindings, Machine.read?, Machine.isDeclared, Machine.scopeOf,
        Machine.initial, Scope.declares, Scope.empty, NameMap.contains, NameMap.get?,
        NameMap.ofList, NameMap.setAll, NameMap.setEntry, NameMap.lookup_cons_ite, hword, hn]

/-- The expression `Math.max(n, 5) < n ? n.x : word[n]`. -/
def choiceExpr : Expr :=
  .ternary (.binary .lt (.call (.member (.name "Math") "max") [.name "n", .literal (.int 5)])
    (.name "n")) (.member (.name "n") "x") (.index (.name "word") (.name "n"))

theorem evaluate_choiceExpr : choiceExpr.IsPure ∧ insideCall.Shows insideBindings ∧
    ∃ v, evaluatePure? insideBindings choiceExpr = some v ∧ v.display = "c" ∧
      (evaluate (call ⟨0, 100, 8⟩) 1 choiceExpr insideCall).result = .ok (some v) ∧
      (evaluate (call ⟨0, 100, 8⟩) 1 choiceExpr insideCall).machine = insideCall := by
  have hpure : choiceExpr.IsPure := by simp [choiceExpr, Expr.IsPure, Expr.AllPure]
  have hshows : insideCall.Shows insideBindings :=
    ⟨fun name => (read?_insideCall name).1, fun name hdeclared => by
      rwa [(read?_insideCall name).1, ← (read?_insideCall name).2]⟩
  have hvalue : (evaluatePure? insideBindings choiceExpr).map Value.display = some "c" := by
    decide +kernel
  obtain ⟨v, hv, hdisplay⟩ := Option.map_eq_some_iff.1 hvalue
  obtain ⟨hsome, -, hmachine⟩ := evaluate_eq_evaluatePure? (call ⟨0, 100, 8⟩) 1 choiceExpr hpure
    insideBindings insideCall hshows
  exact ⟨hpure, hshows, v, hv, hdisplay, (hsome v).1 hv, hmachine⟩

end Script

end TraceTutor

import TraceTutor.Proofs.Script.Assignment
import TraceTutor.Proofs.Script.Flow

/-!
# Operands

Every expression evaluates its operands from left to right before anything else (`evaluate_eq`), and
so does every statement after its step (`exec_endAlike`). What remains depends on the values of the
operands alone.
-/

namespace TraceTutor

/-! ## What expressions evaluate -/

namespace Expr

/-- The expressions that are evaluated first, whatever their values are. -/
def operands : Expr → List Expr
  | .literal _ | .name _ => []
  | .array items => items
  | .object fields => fields.map Prod.snd
  | .unary _ operand => [operand]
  | .binary .and left _ | .binary .or left _ => [left]
  | .binary _ left right => [left, right]
  | .ternary condition _ _ => [condition]
  | .index target i => [target, i]
  | .member target _ => [target]
  | .call _ args => args

/-- The expression that gives the value, where the value of an operand decides about it. -/
def branch? : Expr → List Slot → Option Expr
  | .binary .and _ right, [l] => if l.isTruthy then some right else none
  | .binary .or _ right, [l] => if l.isTruthy then none else some right
  | .ternary _ yes no, [test] => some (if test.isTruthy then yes else no)
  | _, _ => none

/-- The fields of an object that are not `undefined`. -/
def definedFields : List String → List Slot → List (String × Value)
  | key :: keys, some v :: vs => (key, v) :: definedFields keys vs
  | _ :: keys, none :: vs => definedFields keys vs
  | _, _ => []

/-- The value that an expression makes of those of its operands. -/
def settle : Expr → List Slot → Except RuntimeCause Slot
  | .literal v, _ => .ok (some v)
  | .array _, vs => .ok (some (.array (vs.map Slot.orNull)))
  | .object fields, vs => .ok (some (.ofFields (definedFields (fields.map Prod.fst) vs)))
  | .unary op _, [v] => .ok (some (op.apply v.orNull))
  | .binary op _ _, [l, r] => (op.combine l r).map some
  | .binary _ _ _, [l] => .ok l
  | .index _ _, [t, i] => (t.orNull.item i.orNull).map some
  | .member _ property, [t] => (t.orNull.property property).map some
  | _, _ => .ok none

/-- What remains of an expression after its operands. -/
def conclude (call : CallAction) (line : Nat) (e : Expr) (vs : List Slot) : Exec Slot :=
  match e, e.branch? vs with
  | .name x, _ => Exec.lookup line x
  | .call f _, _ => Script.invoke call f.callee vs line
  | _, some x => Script.evaluate call line x
  | e, none => Exec.ofExcept line (e.settle vs)

theorem eq_name_of_callee {e : Expr} {f : String} (h : e.callee = .function f) : e = .name f := by
  unfold callee at h
  split at h
  · cases h
    rfl
  · split at h
    · cases h
    · split at h
      · cases h
      · split at h <;> cases h
  · cases h
  · cases h

end Expr

namespace Script

open Exec

variable (call : CallAction) (line : Nat)

theorem evaluateFields_eq (fields : List (String × Expr)) :
    evaluateFields call line fields = (do
      let vs ← evaluateAll call line (fields.map Prod.snd)
      return Expr.definedFields (fields.map Prod.fst) vs) := by
  induction fields with
  | nil => rw [evaluateFields, List.map_nil, List.map_nil, evaluateAll, pure_bind]; rfl
  | cons field rest ih =>
    obtain ⟨key, e⟩ := field
    simp only [evaluateFields, List.map_cons, evaluateAll, ih, bind_assoc, pure_bind]
    refine congrArg (evaluate call line e >>= ·) (funext fun v => ?_)
    cases v <;> rfl

theorem ofExcept_map_some {α : Type} (x : Except RuntimeCause α) :
    Exec.ofExcept line (x.map some) = (do return some (← Exec.ofExcept line x)) := by
  cases x <;> rfl

/-- An expression evaluates its operands, and then what remains of it. -/
theorem evaluate_eq (e : Expr) :
    evaluate call line e =
      .visit (evaluateAll call line e.operands >>= e.conclude call line) := by
  cases e with
  | literal | name =>
    rw [evaluate, Expr.operands, evaluateAll, pure_bind]
    rfl
  | array items =>
    rw [evaluate, Expr.operands]
    rfl
  | object fields =>
    rw [evaluate, Expr.operands, evaluateFields_eq]
    simp only [bind_assoc, pure_bind]
    rfl
  | unary op operand =>
    simp only [evaluate, Expr.operands, evaluateAll, bind_assoc, pure_bind]
    rfl
  | binary op left right =>
    cases op with
    | and | or =>
      simp only [evaluate, Expr.operands, evaluateAll, bind_assoc, pure_bind, Expr.conclude,
        Expr.branch?]
      refine congrArg (fun f => Exec.visit (evaluate call line left >>= f)) (funext fun l => ?_)
      cases l.isTruthy <;> rfl
    | _ =>
      simp only [evaluate, Expr.operands, evaluateAll, bind_assoc, pure_bind, ← ofExcept_map_some]
      rfl
  | ternary condition yes no =>
    simp only [evaluate, Expr.operands, evaluateAll, bind_assoc, pure_bind]
    refine congrArg (fun f => Exec.visit (evaluate call line condition >>= f))
      (funext fun test => ?_)
    simp only [Expr.conclude, Expr.branch?]
    cases test.isTruthy <;> rfl
  | index target i =>
    simp only [evaluate, Expr.operands, evaluateAll, bind_assoc, pure_bind, ← ofExcept_map_some]
    rfl
  | member target property =>
    simp only [evaluate, Expr.operands, evaluateAll, bind_assoc, pure_bind, ← ofExcept_map_some]
    rfl
  | call callee args =>
    rw [evaluate, Expr.operands]
    rfl

theorem conclude_of_branch {e x : Expr} {vs : List Slot} (h : e.branch? vs = some x) :
    e.conclude call line vs = evaluate call line x := by
  unfold Expr.conclude
  rw [h]
  cases e with
  | binary | ternary => rfl
  | _ => cases h

/-- Without a branch and a call, what remains of an expression changes nothing. -/
theorem machine_conclude {e : Expr} {vs : List Slot} (h : e.branch? vs = none)
    (hcall : ∀ f args, e ≠ .call f args) (m : Machine) :
    (e.conclude call line vs m).machine = m := by
  have hofExcept {α : Type} (x : Except RuntimeCause α) : (Exec.ofExcept line x m).machine = m := by
    cases x <;> rfl
  unfold Expr.conclude
  rw [h]
  cases e with
  | call f args => exact absurd rfl (hcall f args)
  | _ => exact hofExcept _

end Script

/-! ## What statements evaluate -/

/-- The expressions that a statement evaluates before it does anything else. Outside of calls, a
`return` is out of place and evaluates nothing. -/
def Stmt.operands (m : Machine) : Stmt → List Expr
  | .declare _ _ _ initial => initial.toList
  | .assign _ _ _ e => [e]
  | .expression _ e => [e]
  | .cond _ condition _ _ => [condition]
  | .ret _ value => if m.scopes.isEmpty then [] else value.toList
  | _ => []

namespace Script

open Exec

variable (limits : Limits) (levels : Nat)

/-- What remains of a statement after its operands. -/
def conclude (shown : Bool) (s : Stmt) (vs : List Slot) : Exec Flow :=
  let call := callWithin limits levels
  let budget := limits.stepBudget
  let line := s.location.line
  let first : Slot := vs.head?.join
  match s with
  | .declare _ kind x initial => do
    Exec.declare kind x first
    captureIf shown line (initial.map fun _ => s!"Variable {x} assigned")
    return .normal
  | .assign _ x op _ => do
    assignVariable line x first op
    return .normal
  | .update _ x delta => do
    assignVariable line x (some (.int delta)) (some .add)
    return .normal
  | .expression _ e => do
    captureIf shown line (callNote? e)
    return .normal
  | .block _ body => execBlock budget call body
  | .cond _ _ yes no =>
    if first.isTruthy then execBlock budget call yes else execElse budget call no
  | .whileLoop _ condition body =>
    loop budget
      (loopRound (evaluate call line condition) (return ()) (execBlock budget call body))
  | .forLoop _ initial condition update body => do
    execClause budget call initial
    loop budget (loopRound (evaluateOr call line (some (.bool true)) condition)
      (execClause budget call update) (execBlock budget call body))
  | .function _ name params body => do
    defineOnce name ⟨params, body⟩
    return .normal
  | .ret _ _ => do
    let _ ← leave line (·.scopes.isEmpty) .strayReturn .normal
    return .ret first
  | .stop _ => leave line (·.loopDepth == 0) .strayBreak .stop
  | .next _ => leave line (·.loopDepth == 0) .strayContinue .next

theorem captureIf_none (shown : Bool) (line : Nat) : captureIf shown line none = return () := by
  cases shown <;> rfl

theorem balanced_evaluateAll (line : Nat) (es : List Expr) :
    (evaluateAll (callWithin limits levels) line es).Balanced := by
  induction es with
  | nil =>
    rw [evaluateAll]
    exact balanced_pure []
  | cons e rest ih =>
    rw [evaluateAll]
    exact (balanced_evaluate limits levels line e).bind fun _ => ih.bind fun _ => balanced_pure _

theorem leave_of_inCall (line : Nat) {m : Machine} (h : m.scopes.isEmpty = false) :
    EndAlike (leave line (·.scopes.isEmpty) .strayReturn .normal) (return .normal) m := by
  have hleave : leave line (·.scopes.isEmpty) .strayReturn .normal m = ⟨.ok .normal, m, 0⟩ :=
    leave_of_placed h
  rw [EndAlike, hleave]
  exact ⟨rfl, rfl⟩

/-- Whether a `return` is in place may be found out before or after its value is evaluated. -/
theorem ret_endAlike (line : Nat) (value : Option Expr) (m : Machine) :
    EndAlike (do
      let _ ← leave line (·.scopes.isEmpty) .strayReturn .normal
      return Flow.ret (← evaluateOr (callWithin limits levels) line none value)) (do
      let vs ← evaluateAll (callWithin limits levels) line
        (if m.scopes.isEmpty then [] else value.toList)
      let _ ← leave line (·.scopes.isEmpty) .strayReturn .normal
      return Flow.ret vs.head?.join) m := by
  cases hempty : m.scopes.isEmpty with
  | true =>
    have hleave : leave line (·.scopes.isEmpty) .strayReturn .normal m =
        ⟨.error (.fault (.runtime .strayReturn line)), m, 0⟩ := leave_of_misplaced hempty
    rw [if_pos rfl, evaluateAll, pure_bind, EndAlike, bind_of_error hleave, bind_of_error hleave]
    exact ⟨rfl, rfl⟩
  | false =>
    have hvalue :
        (do return Flow.ret (← evaluateOr (callWithin limits levels) line none value)) = do
        let vs ← evaluateAll (callWithin limits levels) line value.toList
        return Flow.ret vs.head?.join := by
      cases value with
      | none => simp only [evaluateOr, Option.toList, evaluateAll, pure_bind]; rfl
      | some e => simp only [evaluateOr, Option.toList, evaluateAll, pure_bind, bind_assoc]; rfl
    have hplaced := (leave_of_inCall line hempty).bind fun _ => do
      return Flow.ret (← evaluateOr (callWithin limits levels) line none value)
    rw [pure_bind, hvalue] at hplaced
    rw [hvalue]
    rw [if_neg Bool.false_ne_true]
    refine hplaced.trans (.symm (.bind_right fun vs _ => ?_))
    have hscopes := (balanced_evaluateAll limits levels line value.toList m).scopes
    have hinside := leave_of_inCall line
      (m := (evaluateAll (callWithin limits levels) line value.toList m).machine)
      (by simpa [← List.length_eq_zero_iff, hscopes] using hempty)
    simpa only [pure_bind] using hinside.bind fun _ => return Flow.ret vs.head?.join

/-- A statement takes a step, evaluates its operands, and goes on with what remains of it. -/
theorem exec_endAlike (shown : Bool) (s : Stmt) (m : Machine) :
    EndAlike (exec limits.stepBudget (callWithin limits levels) shown s) (do
      Exec.tick limits.stepBudget
      let vs ← evaluateAll (callWithin limits levels) s.location.line (s.operands m)
      conclude limits levels shown s vs) m := by
  unfold exec
  refine (EndAlike.visit _ m).trans ?_
  cases s with
  | declare l kind x initial =>
    cases initial with
    | none =>
      simp only [declareVariable, Stmt.operands, Option.toList, evaluateAll, pure_bind, conclude,
        Option.map, captureIf_none]
      exact ⟨rfl, rfl⟩
    | some e =>
      simp only [declareVariable, Stmt.operands, Option.toList, evaluateAll, pure_bind, conclude,
        bind_assoc]
      exact ⟨rfl, rfl⟩
  | ret l value =>
    refine .bind_right fun _ _ => ?_
    have hscopes : (Exec.tick limits.stepBudget m).machine.scopes = m.scopes := by
      unfold Exec.tick
      dsimp only
      split <;> rfl
    rw [Stmt.operands, ← hscopes]
    exact ret_endAlike limits levels l.line value _
  | assign | update | expression | block | cond | whileLoop | forLoop | function | stop | next =>
    simp only [Stmt.operands, evaluateAll, pure_bind, bind_assoc, conclude]
    exact ⟨rfl, rfl⟩

variable {limits levels} {shown : Bool} {s : Stmt} {m : Machine}

/-- A statement whose operands have their values ends as what remains of it does. -/
theorem exec_of_operands {vs : List Slot} {m' : Machine} {visits : Nat}
    (hsteps : m.steps < limits.stepBudget)
    (h : evaluateAll (callWithin limits levels) s.location.line (s.operands m)
      { m with steps := m.steps + 1 } = ⟨.ok vs, m', visits⟩) :
    (exec limits.stepBudget (callWithin limits levels) shown s m).result =
        (conclude limits levels shown s vs m').result ∧
      (exec limits.stepBudget (callWithin limits levels) shown s m).machine =
        (conclude limits levels shown s vs m').machine := by
  have hexec := exec_endAlike limits levels shown s m
  rwa [EndAlike, bind_of_ok (tick_of_lt hsteps), bind_of_ok h] at hexec

/-- A statement that completed took a step and has values of its operands. -/
theorem exists_of_exec_ok {flow : Flow}
    (h : (exec limits.stepBudget (callWithin limits levels) shown s m).result = .ok flow) :
    ∃ vs m', m.SameNesting m' ∧
      (exec limits.stepBudget (callWithin limits levels) shown s m).machine =
        (conclude limits levels shown s vs m').machine := by
  obtain hsteps | hsteps := Nat.lt_or_ge m.steps limits.stepBudget
  · have hnesting := balanced_evaluateAll limits levels s.location.line (s.operands m)
      { m with steps := m.steps + 1 }
    cases hoperands : evaluateAll (callWithin limits levels) s.location.line (s.operands m)
        { m with steps := m.steps + 1 } with
    | mk result m' visits =>
      rw [hoperands] at hnesting
      cases result with
      | ok vs =>
        exact ⟨vs, m', ⟨hnesting.scopes, hnesting.loopDepth, hnesting.stack⟩,
          (exec_of_operands hsteps hoperands).2⟩
      | error i =>
        rw [(exec_endAlike limits levels shown s m).1, bind_of_ok (tick_of_lt hsteps),
          bind_of_error hoperands] at h
        cases h
  · rw [(exec_endAlike limits levels shown s m).1, bind_of_error (tick_of_le hsteps)] at h
    cases h

variable (limits levels)

/-! ## What is assigned -/

section

variable {line : Nat} {x : String} {v old : Slot} {op : BinaryOp} {m : Machine}

/-- A compound assignment combines what it read with its operand, and assigns that. -/
theorem assignVariable_of_lookup (hold : m.lookup x = .ok old) :
    EndAlike (assignVariable line x v (some op)) (do
      let w ← Exec.ofExcept line (op.combine old v)
      Exec.assign line x (some w)) m := by
  change EndAlike (Exec.lookup line x >>= fun old => Exec.ofExcept line (op.combine old v) >>=
    fun w => Exec.assign line x (some w)) _ m
  rw [EndAlike, bind_of_ok (lookup_of_ok hold)]
  exact ⟨rfl, rfl⟩

theorem assignVariable_of_combine {w : Value} (hold : m.lookup x = .ok old)
    (hw : op.combine old v = .ok w) :
    EndAlike (assignVariable line x v (some op)) (Exec.assign line x (some w)) m := by
  refine (assignVariable_of_lookup hold).trans ?_
  rw [hw, EndAlike, bind_of_ok (show Exec.ofExcept line (.ok w) m = ⟨.ok w, m, 0⟩ from rfl)]
  exact ⟨rfl, rfl⟩

theorem assignVariable_of_lookup_error {cause : RuntimeCause} (hold : m.lookup x = .error cause) :
    assignVariable line x v (some op) m = ⟨.error (.fault (.runtime cause line)), m, 0⟩ :=
  bind_of_error (lookup_of_error hold)

end

/-! ## What rounds evaluate -/

/-- The rounds of a loop. -/
def loopRounds (line : Nat) (condition : Option Expr) (update : Option Stmt) (body : List Stmt) :
    (fuel : Nat) → Exec Flow :=
  let call := callWithin limits levels
  rounds limits.stepBudget (loopRound (evaluateOr call line (some (.bool true)) condition)
    (execClause limits.stepBudget call update) (execBlock limits.stepBudget call body))

/-- What remains of the rounds of a loop after its body ended. -/
def roundsAfterBody (line : Nat) (condition : Option Expr) (update : Option Stmt) (body : List Stmt)
    (fuel : Nat) : Flow → Exec Flow
  | .stop => return .normal
  | .ret v => return .ret v
  | _ => do
    execClause limits.stepBudget (callWithin limits levels) update
    loopRounds limits levels line condition update body fuel

/-- What remains of the rounds of a loop after a test. A missing test is passed. -/
def concludeRounds (line : Nat) (condition : Option Expr) (update : Option Stmt) (body : List Stmt)
    (fuel : Nat) (vs : List Slot) : Exec Flow :=
  if Slot.isTruthy (vs.headD (some (.bool true))) then do
    let flow ← execBlock limits.stepBudget (callWithin limits levels) body
    roundsAfterBody limits levels line condition update body fuel flow
  else return .normal

theorem evaluateOr_eq (line : Nat) (default : Slot) (e : Option Expr) :
    evaluateOr (callWithin limits levels) line default e = (do
      let vs ← evaluateAll (callWithin limits levels) line e.toList
      return vs.headD default) := by
  cases e with
  | none => simp only [evaluateOr, Option.toList, evaluateAll, pure_bind]; rfl
  | some e =>
    simp only [evaluateOr, Option.toList, evaluateAll, pure_bind, bind_assoc, List.headD_cons,
      bind_pure]

/-- What remains of the rounds of a loop after one of them. -/
def roundsAfterRound (line : Nat) (condition : Option Expr) (update : Option Stmt)
    (body : List Stmt) (fuel : Nat) : Option Flow → Exec Flow
  | some flow => return flow
  | none => loopRounds limits levels line condition update body fuel

theorem loopRounds_succ (line : Nat) (condition : Option Expr) (update : Option Stmt)
    (body : List Stmt) (fuel : Nat) :
    loopRounds limits levels line condition update body (fuel + 1) =
      Exec.visit (Exec.tick limits.stepBudget >>= fun _ =>
        loopRound (evaluateOr (callWithin limits levels) line (some (.bool true)) condition)
          (execClause limits.stepBudget (callWithin limits levels) update)
          (execBlock limits.stepBudget (callWithin limits levels) body)) >>=
        roundsAfterRound limits levels line condition update body fuel :=
  rfl

/-- Rounds take a step, evaluate the test, and go on with what remains of them. -/
theorem loopRounds_endAlike (line : Nat) (condition : Option Expr) (update : Option Stmt)
    (body : List Stmt) (fuel : Nat) (m : Machine) :
    EndAlike (loopRounds limits levels line condition update body (fuel + 1)) (do
      Exec.tick limits.stepBudget
      let vs ← evaluateAll (callWithin limits levels) line condition.toList
      concludeRounds limits levels line condition update body fuel vs) m := by
  rw [loopRounds_succ]
  refine (EndAlike.bind (EndAlike.visit _ m) _).trans ?_
  simp only [loopRound, evaluateOr_eq, bind_assoc, pure_bind]
  refine .bind_right fun _ _ => .bind_right fun vs _ => ?_
  unfold concludeRounds
  cases Slot.isTruthy (vs.headD (some (.bool true))) with
  | false => exact ⟨rfl, rfl⟩
  | true =>
    simp only [if_true, bind_assoc]
    refine .bind_right fun flow _ => ?_
    cases flow with
    | normal | next => simp only [afterBody, bind_assoc, pure_bind]; exact ⟨rfl, rfl⟩
    | stop | ret => exact ⟨rfl, rfl⟩

end Script

end TraceTutor

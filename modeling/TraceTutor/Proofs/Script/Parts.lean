import TraceTutor.Proofs.Script.Operands

/-!
# The parts of a run

The run of a phrase of a program from some machine is a `Part`. It consists of the runs of smaller
phrases, one after another, which are its own parts (`Part.parts`), and of what it does itself
before, between and after them (`Part.gaps`). So a run of a program is a tree of parts; its states
are the machines at which a part starts or ends.
-/

namespace TraceTutor

/-! ## Parts -/

/-- What the evaluator works on at a time. -/
inductive Phrase where
  | expr (line : Nat) (e : Expr)
  /-- Expressions that are evaluated one after another. -/
  | exprs (line : Nat) (es : List Expr)
  | stmt (shown : Bool) (s : Stmt)
  /-- A clause in the head of a loop. -/
  | clause (s : Option Stmt)
  | body (body : List Stmt)
  /-- At most so many rounds of a loop. -/
  | rounds (line : Nat) (condition : Option Expr) (update : Option Stmt) (body : List Stmt)
    (fuel : Nat)

/-- The run of a phrase from a machine, where so many more calls may be nested. -/
structure Part where
  levels : Nat
  phrase : Phrase
  machine : Machine

namespace Machine

/-- The machine after one more step. -/
def ticked (m : Machine) : Machine :=
  { m with steps := m.steps + 1 }

/-- The machine inside of one more loop. -/
def inLoop (m : Machine) : Machine :=
  { m with loopDepth := m.loopDepth + 1 }

/-- The machine outside of the innermost loop. -/
def outOfLoop (m : Machine) : Machine :=
  { m with loopDepth := m.loopDepth - 1 }

end Machine

/-- The outcome without what the action yielded. -/
def Outcome.discard {α : Type} (o : Outcome α) : Outcome Unit :=
  { o with result := o.result.map fun _ => () }

namespace Part

open Script Exec

variable (limits : Limits)

/-- What the evaluator does for a part. -/
def outcome (p : Part) : Outcome Unit :=
  let call := callWithin limits p.levels
  match p.phrase with
  | .expr line e => (evaluate call line e p.machine).discard
  | .exprs line es => (evaluateAll call line es p.machine).discard
  | .stmt shown s => (exec limits.stepBudget call shown s p.machine).discard
  | .clause s => (execClause limits.stepBudget call s p.machine).discard
  | .body body => (execBlock limits.stepBudget call body p.machine).discard
  | .rounds line condition update body fuel =>
    (loopRounds limits p.levels line condition update body fuel p.machine).discard

/-- The machine at which a part ends. -/
def after (p : Part) : Machine :=
  (p.outcome limits).machine

/-- A part, followed by what depends on how it completes. -/
def andThen {α : Type} (q : Part) (a : Exec α) (rest : α → Machine → List Part) : List Part :=
  q :: match (a q.machine).result with
    | .ok x => rest x (a q.machine).machine
    | .error _ => []

/-- The body of the function that a call calls. -/
def called? (levels line : Nat) (e : Expr) (args : List Slot) (m : Machine) : Option Part :=
  match e, levels with
  | .call (.name f) _, levels + 1 =>
    (m.procedures.get? f).map fun procedure =>
      ⟨levels, .body procedure.body, m.enterCall f procedure args line⟩
  | _, _ => none

/-- The parts of an expression after its operands. -/
def exprRest (levels line : Nat) (e : Expr) (vs : List Slot) (m : Machine) : List Part :=
  match e.branch? vs with
  | some x => [⟨levels, .expr line x, m⟩]
  | none => (called? levels line e vs m).toList

/-- A loop that begins at a machine. -/
def loopFrom (levels line : Nat) (condition : Option Expr) (update : Option Stmt)
    (body : List Stmt) (m : Machine) : Part :=
  ⟨levels, .rounds line condition update body (limits.stepBudget - m.steps + 1), m.inLoop⟩

/-- The parts of a statement after its operands. -/
def stmtRest (levels : Nat) (s : Stmt) (vs : List Slot) (m : Machine) : List Part :=
  match s with
  | .block _ body => [⟨levels, .body body, m⟩]
  | .cond _ _ yes no =>
    if Slot.isTruthy vs.head?.join then [⟨levels, .body yes, m⟩]
    else (no.map (⟨levels, .body ·, m⟩)).toList
  | .whileLoop l condition body => [loopFrom limits levels l.line (some condition) none body m]
  | .forLoop l initial condition update body =>
    andThen ⟨levels, .clause initial, m⟩
      (execClause limits.stepBudget (callWithin limits levels) initial)
      fun _ m => [loopFrom limits levels l.line condition update body m]
  | _ => []

/-- The parts of a body after its first statement. -/
def bodyRest (levels : Nat) (rest : List Stmt) : Flow → Machine → List Part
  | .normal, m => [⟨levels, .body rest, m⟩]
  | _, _ => []

/-- The parts of the rounds of a loop after the body of the first one. -/
def nextRound (levels line : Nat) (condition : Option Expr) (update : Option Stmt)
    (body : List Stmt) (fuel : Nat) : Flow → Machine → List Part
  | .stop, _ | .ret _, _ => []
  | _, m =>
    andThen ⟨levels, .clause update, m⟩
      (execClause limits.stepBudget (callWithin limits levels) update)
      fun _ m => [⟨levels, .rounds line condition update body fuel, m⟩]

/-- The parts of the rounds of a loop after the first test. -/
def roundsRest (levels line : Nat) (condition : Option Expr) (update : Option Stmt)
    (body : List Stmt) (fuel : Nat) (vs : List Slot) (m : Machine) : List Part :=
  if Slot.isTruthy (vs.headD (some (.bool true))) then
    andThen ⟨levels, .body body, m⟩ (execBlock limits.stepBudget (callWithin limits levels) body)
      (nextRound limits levels line condition update body fuel)
  else []

/-- Expressions are evaluated, followed by what depends on their values. -/
def operandsAndThen (levels line : Nat) (es : List Expr) (m : Machine)
    (rest : List Slot → Machine → List Part) : List Part :=
  andThen ⟨levels, .exprs line es, m⟩ (evaluateAll (callWithin limits levels) line es) rest

/-- The parts of a part, in the order in which they run. -/
def parts (p : Part) : List Part :=
  let ⟨levels, phrase, m⟩ := p
  match phrase with
  | .expr line e => operandsAndThen limits levels line e.operands m (exprRest levels line e)
  | .exprs _ [] => []
  | .exprs line (e :: rest) =>
    andThen ⟨levels, .expr line e, m⟩ (evaluate (callWithin limits levels) line e)
      fun _ m => [⟨levels, .exprs line rest, m⟩]
  | .stmt _ s =>
    if limits.stepBudget ≤ m.steps then []
    else operandsAndThen limits levels s.location.line (s.operands m) m.ticked
      (stmtRest limits levels s)
  | .clause s => (s.map (⟨levels, .stmt false ·, m⟩)).toList
  | .body [] => []
  | .body (s :: rest) =>
    andThen ⟨levels, .stmt true s, m⟩ (exec limits.stepBudget (callWithin limits levels) true s)
      (bodyRest levels rest)
  | .rounds _ _ _ _ 0 => []
  | .rounds line condition update body (fuel + 1) =>
    if limits.stepBudget ≤ m.steps then []
    else operandsAndThen limits levels line condition.toList m.ticked
      (roundsRest limits levels line condition update body fuel)

/-! ### What a part does itself -/

/-- What leads out of a loop or of a call, or nothing at all. -/
inductive Exits : Machine → Machine → Prop
  | still (m : Machine) : Exits m m
  | loop (m : Machine) : Exits m m.outOfLoop
  | call (m : Machine) (loopDepth : Nat) : Exits m (m.leaveCall loopDepth)

end Part

/-- The variable that a statement assigns. -/
def Stmt.target? : Stmt → Option String
  | .assign _ x _ _ => some x
  | .update _ x _ => some x
  | _ => none

namespace Part

open Script Exec

variable (limits : Limits)

/-- What a part does itself between two of its parts. -/
inductive Own (p : Part) : Machine → Machine → Prop
  | exits {m m' : Machine} : Exits m m' → p.Own m m'
  | tick (m : Machine) : p.Own m m.ticked
  | enterLoop (m : Machine) : p.Own m m.inLoop
  | enterCall (m : Machine) (name : String) (procedure : Procedure) (args : List Slot)
      (line : Nat) : p.Own m (m.enterCall name procedure args line)
  | declare {shown : Bool} {l : Location} {kind : DeclarationKind} {x : String}
      {initial : Option Expr} {m : Machine} (v : Slot) :
      p.phrase = .stmt shown (.declare l kind x initial) →
      m.scopes.length = p.machine.scopes.length → p.Own m (m.declare kind x v)
  | declareShown {shown : Bool} {l : Location} {kind : DeclarationKind} {x : String}
      {initial : Option Expr} {m : Machine} (v : Slot) (line : Nat) (note : String) :
      p.phrase = .stmt shown (.declare l kind x initial) →
      m.scopes.length = p.machine.scopes.length →
      p.after limits = (m.declare kind x v).capture line note →
      p.Own m ((m.declare kind x v).capture line note)
  | assign {shown : Bool} {s : Stmt} {x : String} {v : Slot} {m m' : Machine} :
      p.phrase = .stmt shown s → s.target? = some x → m.assign x v = .ok m' → p.Own m m'
  | push {line : Nat} {f : Expr} {args : List Expr} {x : String} {items : List Value}
      {length : Value} {m m' : Machine} :
      p.phrase = .expr line (.call f args) → f.callee = .push x →
      m.push x items = .ok (length, m') → p.Own m m'
  | log (m : Machine) (args : List Slot) : p.Own m (m.log args)
  | capture {m : Machine} (line : Nat) (note : String) :
      p.after limits = m.capture line note → p.Own m (m.capture line note)
  | define (m : Machine) (name : String) (procedure : Procedure) :
      p.Own m (m.define name procedure)

/-- From a machine, parts run one after another, with what `own` allows before, between and after
them. If one of them is interrupted, it is the last one, and the whole is interrupted. -/
inductive Composes (own : Machine → Machine → Prop) :
    Machine → List Part → Except Interrupt Unit → Machine → Prop
  | done {m m' : Machine} {result : Except Interrupt Unit} : own m m' → Composes own m [] result m'
  | cut {m m' : Machine} {q : Part} {i : Interrupt} : own m q.machine →
      (q.outcome limits).result = .error i → Exits (q.after limits) m' →
      Composes own m [q] (.error i) m'
  | part {m m' : Machine} {q : Part} {rest : List Part} {result : Except Interrupt Unit} :
      own m q.machine → (q.outcome limits).result = .ok () →
      Composes own (q.after limits) rest result m' → Composes own m (q :: rest) result m'

/-! ### Parts that run one after another -/

section

variable {limits} {p : Part}

theorem composes_andThen {α β : Type} {a : Exec α} {f : α → Exec β} {m : Machine} {q : Part}
    {rest : α → Machine → List Part} (hq : p.Own limits m q.machine)
    (ha : q.outcome limits = (a q.machine).discard)
    (hrest : ∀ x m' visits, a q.machine = ⟨.ok x, m', visits⟩ →
      Composes limits (p.Own limits) m' (rest x m') (f x m').discard.result (f x m').machine) :
    Composes limits (p.Own limits) m (q.andThen a rest) ((a >>= f) q.machine).discard.result
      ((a >>= f) q.machine).machine := by
  unfold andThen
  cases h : a q.machine with
  | mk result m' visits =>
    rw [h] at ha
    have hafter : q.after limits = m' := congrArg Outcome.machine ha
    have hresult : (q.outcome limits).result = result.map fun _ => () := congrArg Outcome.result ha
    cases result with
    | error i =>
      rw [bind_of_error h]
      exact .cut hq hresult (hafter ▸ .still _)
    | ok x =>
      rw [bind_of_ok h]
      exact .part hq hresult (hafter ▸ hrest x m' visits h)

theorem composes_single {m m' : Machine} {q : Part} {result : Except Interrupt Unit}
    (hq : p.Own limits m q.machine) (hresult : result = (q.outcome limits).result)
    (hexit : Exits (q.after limits) m') : Composes limits (p.Own limits) m [q] result m' := by
  subst hresult
  cases h : (q.outcome limits).result with
  | error i => exact .cut hq h hexit
  | ok x => exact .part hq h (.done (.exits hexit))

theorem composes_last {m : Machine} {q : Part} {o : Outcome Unit} (hq : p.Own limits m q.machine)
    (ho : o = q.outcome limits) : Composes limits (p.Own limits) m [q] o.result o.machine :=
  ho ▸ composes_single hq rfl (.still _)

/-! ### Expressions -/

/-- A call runs the body of its function and leaves it again, however it ends. -/
theorem callWithin_of_get? (limits : Limits) (levels line : Nat) (args : List Slot) {f : String}
    {m : Machine} {procedure : Procedure} (h : m.procedures.get? f = some procedure) :
    let body : Part := ⟨levels, .body procedure.body, m.enterCall f procedure args line⟩
    (callWithin limits (levels + 1) f args line m).discard.result = (body.outcome limits).result ∧
    (callWithin limits (levels + 1) f args line m).machine =
      (body.after limits).leaveCall m.loopDepth := by
  dsimp only [after, outcome]
  unfold callWithin Exec.visit runBody
  dsimp only
  rw [bind_of_ok (find_of_get? h)]
  cases hbody : execBlock limits.stepBudget (callWithin limits levels) procedure.body
      (m.enterCall f procedure args line) with
  | mk result m' visits =>
    have hcall : inCall f procedure args line
        (execBlock limits.stepBudget (callWithin limits levels) procedure.body) m =
          ⟨result, m'.leaveCall m.loopDepth, visits⟩ := by
      unfold inCall Exec.within
      dsimp only
      rw [hbody]
    cases result with
    | error i =>
      rw [bind_of_error hcall]
      exact ⟨rfl, rfl⟩
    | ok flow =>
      rw [bind_of_ok hcall]
      exact ⟨rfl, rfl⟩

/-- Without a function, or with too many calls around it, a call changes nothing. -/
theorem machine_callWithin_of_none {levels line : Nat} {f : String} {args : List Slot} {m : Machine}
    (h : levels = 0 ∨ m.procedures.get? f = none) :
    (callWithin limits levels f args line m).machine = m := by
  cases hf : m.procedures.get? f with
  | none =>
    obtain ⟨cause, hfind⟩ :
        ∃ cause, find line f m = ⟨.error (.fault (.runtime cause line)), m, 0⟩ := find_of_none hf
    cases levels <;>
    · unfold callWithin Exec.visit
      dsimp only
      rw [bind_of_error hfind]
  | some procedure =>
    obtain rfl := h.resolve_right (by simp [hf])
    unfold callWithin Exec.visit
    dsimp only
    rw [bind_of_ok (find_of_get? hf)]
    rfl

theorem composes_called (line : Nat) (f : String) (args : List Expr) (vs : List Slot)
    (m : Machine) :
    Composes limits (p.Own limits) m
      (called? p.levels line (.call (.name f) args) vs m).toList
      (callWithin limits p.levels f vs line m).discard.result
      (callWithin limits p.levels f vs line m).machine := by
  have hstill (h : p.levels = 0 ∨ m.procedures.get? f = none) :
      Composes limits (p.Own limits) m [] (callWithin limits p.levels f vs line m).discard.result
        (callWithin limits p.levels f vs line m).machine := by
    rw [machine_callWithin_of_none h]
    exact .done (.exits (.still m))
  unfold called?
  split
  next levels hcallee hlevels =>
    cases hcallee
    cases hf : m.procedures.get? f with
    | none => exact hstill (.inr hf)
    | some procedure =>
      obtain ⟨hresult, hafter⟩ := callWithin_of_get? limits levels line vs hf
      rw [hlevels, hafter]
      exact composes_single (.enterCall m f procedure vs line) hresult (.call _ _)
  next h =>
    refine hstill (.inl ?_)
    cases hlevels : p.levels with
    | zero => rfl
    | succ levels => exact absurd hlevels (h f args levels rfl)

/-- A callee that is no function of the program. -/
theorem composes_invoke {line : Nat} {f : Expr} {args : List Expr}
    (hp : p.phrase = .expr line (.call f args)) (hf : ∀ name, f.callee ≠ .function name)
    (vs : List Slot) (m : Machine) :
    Composes limits (p.Own limits) m []
      (invoke (callWithin limits p.levels) f.callee vs line m).discard.result
      (invoke (callWithin limits p.levels) f.callee vs line m).machine := by
  have hofExcept {α : Type} (x : Except RuntimeCause α) : (Exec.ofExcept line x m).machine = m := by
    cases x <;> rfl
  refine .done ?_
  cases hcallee : f.callee with
  | function name => exact absurd hcallee (hf name)
  | log => exact .log m vs
  | push x =>
    simp only [invoke, Exec.push, Exec.update]
    cases hpush : m.push x (vs.map Slot.orNull) with
    | error cause => exact .exits (.still m)
    | ok pushed => exact .push hp hcallee hpush
  | math name =>
    have hmachine : (invoke (callWithin limits p.levels) (.math name) vs line m).machine = m :=
      hofExcept _
    exact hmachine.symm ▸ .exits (.still m)
  | member path => exact .exits (.still m)
  | computed => exact .exits (.still m)

theorem called?_eq_none {levels line : Nat} {e : Expr} {vs : List Slot} {m : Machine}
    (h : ∀ f args, e ≠ .call (.name f) args) : called? levels line e vs m = none := by
  unfold called?
  split
  next f args levels => exact absurd rfl (h f args)
  next => rfl

theorem composes_exprRest {line : Nat} {e : Expr} (hp : p.phrase = .expr line e) (vs : List Slot)
    (m : Machine) :
    Composes limits (p.Own limits) m (exprRest p.levels line e vs m)
      (e.conclude (callWithin limits p.levels) line vs m).discard.result
      (e.conclude (callWithin limits p.levels) line vs m).machine := by
  unfold exprRest
  cases hbranch : e.branch? vs with
  | some x =>
    rw [conclude_of_branch _ _ hbranch]
    exact composes_single (.exits (.still m)) rfl (.still _)
  | none =>
    by_cases hcall : ∃ f args, e = .call f args
    · obtain ⟨f, args, rfl⟩ := hcall
      by_cases hname : ∃ name, f = .name name
      · obtain ⟨name, rfl⟩ := hname
        exact composes_called line name args vs m
      · rw [called?_eq_none fun name args h => hname ⟨name, by cases h; rfl⟩]
        refine composes_invoke hp (fun name h => hname ⟨name, ?_⟩) vs m
        exact Expr.eq_name_of_callee h
    · rw [called?_eq_none fun f args h => hcall ⟨_, args, h⟩,
        machine_conclude _ _ hbranch fun f args h => hcall ⟨f, args, h⟩]
      exact .done (.exits (.still m))

/-! ### Statements -/

theorem discard_bind_pure {α β : Type} (a : Exec α) (f : α → β) (m : Machine) :
    ((do return f (← a) : Exec β) m).discard = (a m).discard := by
  rw [bind_pure_eq, Outcome.discard, Outcome.discard]
  cases (a m).result <;> rfl

theorem machine_bind_pure {α β : Type} (a : Exec α) (f : α → β) (m : Machine) :
    ((do return f (← a) : Exec β) m).machine = (a m).machine :=
  congrArg Outcome.machine (bind_pure_eq a f m)

theorem captureIf_cases (shown : Bool) (line : Nat) (note? : Option String) (m : Machine) :
    (captureIf shown line note? m).machine = m ∨
      ∃ note, (captureIf shown line note? m).machine = m.capture line note := by
  cases shown with
  | false => exact .inl rfl
  | true =>
    cases note? with
    | none => exact .inl rfl
    | some note => exact .inr ⟨_, rfl⟩

theorem machine_leave (line : Nat) (misplaced : Machine → Bool) (cause : RuntimeCause) (flow : Flow)
    (m : Machine) : (leave line misplaced cause flow m).machine = m := by
  cases h : misplaced m with
  | true => rw [show _ = _ from leave_of_misplaced h]
  | false => rw [show _ = _ from leave_of_placed h]

theorem assign_cases (line : Nat) (x : String) (v : Slot) (m : Machine) :
    (Exec.assign line x v m).machine = m ∨
      m.assign x v = .ok (Exec.assign line x v m).machine := by
  cases h : m.assign x v with
  | error cause => simp [Exec.assign, Exec.update, h, Except.map]
  | ok m' => simp [Exec.assign, Exec.update, h, Except.map]

theorem assignVariable_cases (line : Nat) (x : String) (v : Slot) (op : Option BinaryOp)
    (m : Machine) :
    (assignVariable line x v op m).machine = m ∨
      ∃ w, m.assign x w = .ok (assignVariable line x v op m).machine := by
  cases op with
  | none => exact (assign_cases line x v m).imp_right fun h => ⟨v, h⟩
  | some op =>
    cases hold : m.lookup x with
    | error cause =>
      rw [assignVariable_of_lookup_error hold]
      exact .inl rfl
    | ok old =>
      rw [(assignVariable_of_lookup hold).2]
      cases op.combine old v with
      | error cause => exact .inl rfl
      | ok w => exact (assign_cases line x (some w) m).imp_right fun h => ⟨some w, h⟩

theorem conclude_declare_cases (levels : Nat) (shown : Bool) (l : Location) (kind : DeclarationKind)
    (x : String) (initial : Option Expr) (vs : List Slot) (m : Machine) :
    let o := Script.conclude limits levels shown (.declare l kind x initial) vs m
    o.machine = m.declare kind x vs.head?.join ∨
      ∃ note, o.machine = (m.declare kind x vs.head?.join).capture l.line note := by
  intro o
  have hmachine : o.machine =
      (captureIf shown l.line (initial.map fun _ => s!"Variable {x} assigned")
        (m.declare kind x vs.head?.join)).machine :=
    machine_bind_pure _ (fun _ => Flow.normal) _
  rw [hmachine]
  exact captureIf_cases _ _ _ _

theorem composes_loop (levels : Nat) {line : Nat} {condition : Option Expr} {update : Option Stmt}
    {body : List Stmt} (m : Machine) :
    let round := loopRound
      (evaluateOr (callWithin limits levels) line (some (.bool true)) condition)
      (execClause limits.stepBudget (callWithin limits levels) update)
      (execBlock limits.stepBudget (callWithin limits levels) body)
    Composes limits (p.Own limits) m [loopFrom limits levels line condition update body m]
      (loop limits.stepBudget round m).discard.result (loop limits.stepBudget round m).machine :=
  composes_single (.enterLoop m) rfl (.loop _)

theorem composes_stmtRest {shown : Bool} {s : Stmt} (hp : p.phrase = .stmt shown s)
    {vs : List Slot} {m : Machine} (hscopes : m.scopes.length = p.machine.scopes.length)
    (hafter : p.after limits = (Script.conclude limits p.levels shown s vs m).machine) :
    Composes limits (p.Own limits) m (stmtRest limits p.levels s vs m)
      (Script.conclude limits p.levels shown s vs m).discard.result
      (Script.conclude limits p.levels shown s vs m).machine := by
  have hstill : p.Own limits m m := .exits (.still m)
  cases s with
  | declare l kind x initial =>
    refine .done ?_
    obtain h | ⟨note, h⟩ := conclude_declare_cases p.levels shown l kind x initial vs m
    · rw [h]
      exact .declare _ hp hscopes
    · rw [h] at hafter ⊢
      exact .declareShown _ l.line note hp hscopes hafter
  | assign l x op e =>
    have hmachine : (Script.conclude limits p.levels shown (.assign l x op e) vs m).machine =
        (assignVariable l.line x vs.head?.join op m).machine :=
      machine_bind_pure _ (fun _ => Flow.normal) _
    rw [hmachine]
    refine .done ?_
    obtain h | ⟨w, h⟩ := assignVariable_cases l.line x vs.head?.join op m
    · exact h.symm ▸ hstill
    · exact .assign hp rfl h
  | update l x delta =>
    have hmachine : (Script.conclude limits p.levels shown (.update l x delta) vs m).machine =
        (assignVariable l.line x (some (.int delta)) (some .add) m).machine :=
      machine_bind_pure _ (fun _ => Flow.normal) _
    rw [hmachine]
    refine .done ?_
    obtain h | ⟨w, h⟩ := assignVariable_cases l.line x (some (.int delta)) (some .add) m
    · exact h.symm ▸ hstill
    · exact .assign hp rfl h
  | expression l e =>
    have hmachine : (Script.conclude limits p.levels shown (.expression l e) vs m).machine =
        (captureIf shown l.line (callNote? e) m).machine :=
      machine_bind_pure _ (fun _ => Flow.normal) _
    rw [hmachine] at hafter ⊢
    refine .done ?_
    obtain h | ⟨note, h⟩ := captureIf_cases shown l.line (callNote? e) m
    · exact h.symm ▸ hstill
    · exact h ▸ .capture l.line note (hafter.trans h)
  | block l body => exact composes_single hstill rfl (.still _)
  | cond l condition yes no =>
    unfold stmtRest Script.conclude
    dsimp only
    cases Slot.isTruthy vs.head?.join with
    | true => exact composes_single hstill rfl (.still _)
    | false =>
      cases no with
      | none => exact .done hstill
      | some no => exact composes_single hstill rfl (.still _)
  | whileLoop l condition body => exact composes_loop p.levels m
  | forLoop l initial condition update body =>
    exact composes_andThen hstill rfl fun _ m' _ _ => composes_loop p.levels m'
  | function l name params body =>
    refine .done ?_
    have hmachine :
        (Script.conclude limits p.levels shown (.function l name params body) vs m).machine =
        if m.procedures.contains name then m else m.define name ⟨params, body⟩ := rfl
    rw [hmachine]
    split
    · exact hstill
    · exact .define m name _
  | ret l value =>
    have hmachine : (Script.conclude limits p.levels shown (.ret l value) vs m).machine = m :=
      (machine_bind_pure _ (fun _ => Flow.ret vs.head?.join) _).trans (machine_leave ..)
    exact .done (hmachine.symm ▸ hstill)
  | stop l =>
    have hmachine : (Script.conclude limits p.levels shown (.stop l) vs m).machine = m :=
      machine_leave ..
    exact .done (hmachine.symm ▸ hstill)
  | next l =>
    have hmachine : (Script.conclude limits p.levels shown (.next l) vs m).machine = m :=
      machine_leave ..
    exact .done (hmachine.symm ▸ hstill)

/-! ### Loops and parts -/

theorem composes_roundsRest {line : Nat} {condition : Option Expr} {update : Option Stmt}
    {body : List Stmt} (levels fuel : Nat) (vs : List Slot) (m : Machine) :
    Composes limits (p.Own limits) m
      (roundsRest limits levels line condition update body fuel vs m)
      (concludeRounds limits levels line condition update body fuel vs m).discard.result
      (concludeRounds limits levels line condition update body fuel vs m).machine := by
  unfold roundsRest concludeRounds
  cases Slot.isTruthy (vs.headD (some (.bool true))) with
  | false => exact .done (.exits (.still m))
  | true =>
    refine composes_andThen (.exits (.still m)) rfl fun flow m' _ _ => ?_
    have hnext : Composes limits (p.Own limits) m'
        (andThen ⟨levels, .clause update, m'⟩
          (execClause limits.stepBudget (callWithin limits levels) update)
          fun _ m => [⟨levels, .rounds line condition update body fuel, m⟩])
        ((execClause limits.stepBudget (callWithin limits levels) update >>= fun _ =>
          loopRounds limits levels line condition update body fuel) m').discard.result
        ((execClause limits.stepBudget (callWithin limits levels) update >>= fun _ =>
          loopRounds limits levels line condition update body fuel) m').machine :=
      composes_andThen (.exits (.still m')) rfl fun _ m'' _ _ =>
        composes_single (.exits (.still m'')) rfl (.still _)
    cases flow with
    | stop | ret => exact .done (.exits (.still m'))
    | normal | next => exact hnext

/-- A step, unless there is none left, and then operands, followed by what depends on their
values. -/
theorem composes_step {α : Type} {a : Exec α} {f : List Slot → Exec α} {levels line : Nat}
    {es : List Expr} {m : Machine} {rest : List Slot → Machine → List Part}
    (ha : EndAlike a (do
      Exec.tick limits.stepBudget
      let vs ← evaluateAll (callWithin limits levels) line es
      f vs) m)
    (hrest : ∀ vs m', m.SameNesting m' → (a m).machine = (f vs m').machine →
      Composes limits (p.Own limits) m' (rest vs m') (f vs m').discard.result (f vs m').machine) :
    Composes limits (p.Own limits) m
      (if limits.stepBudget ≤ m.steps then []
        else operandsAndThen limits levels line es m.ticked rest)
      (a m).discard.result (a m).machine := by
  obtain ⟨hresult, hmachine⟩ := ha
  split
  next hsteps =>
    rw [bind_of_error (tick_of_le hsteps)] at hmachine
    exact .done (hmachine ▸ .tick m)
  next hsteps =>
    rw [bind_of_ok (tick_of_lt (Nat.not_le.1 hsteps))] at hresult hmachine
    have hdiscard : (a m).discard.result =
        ((evaluateAll (callWithin limits levels) line es >>= f) m.ticked).discard.result :=
      congrArg (Except.map fun _ => ()) hresult
    rw [hdiscard, hmachine]
    refine composes_andThen (.tick m) rfl fun vs m' visits h => hrest vs m' ?_ ?_
    · have hnesting := balanced_evaluateAll limits levels line es m.ticked
      rw [h] at hnesting
      exact ⟨hnesting.scopes, hnesting.loopDepth, hnesting.stack⟩
    · have hbind := congrArg Outcome.machine (bind_of_ok (f := f) h)
      exact hmachine.trans hbind

end

theorem composes_expr (levels line : Nat) (e : Expr) (m : Machine) :
    let p : Part := ⟨levels, .expr line e, m⟩
    Composes limits (p.Own limits) m (p.parts limits) (p.outcome limits).result
      (p.after limits) := by
  intro p
  have hparts : Composes limits (p.Own limits) m
      (operandsAndThen limits levels line e.operands m (exprRest levels line e))
      ((evaluateAll (callWithin limits levels) line e.operands >>=
        e.conclude (callWithin limits levels) line) m).discard.result
      ((evaluateAll (callWithin limits levels) line e.operands >>=
        e.conclude (callWithin limits levels) line) m).machine :=
    composes_andThen (.exits (.still m)) rfl fun vs m' _ _ => composes_exprRest rfl vs m'
  have houtcome : p.outcome limits =
      (Exec.visit (evaluateAll (callWithin limits levels) line e.operands >>=
        e.conclude (callWithin limits levels) line) m).discard :=
    congrArg (fun a => (a m).discard) (evaluate_eq _ line e)
  rw [after, houtcome]
  exact hparts

theorem composes_exprs (levels line : Nat) (es : List Expr) (m : Machine) :
    let p : Part := ⟨levels, .exprs line es, m⟩
    Composes limits (p.Own limits) m (p.parts limits) (p.outcome limits).result
      (p.after limits) := by
  intro p
  cases es with
  | nil => exact .done (.exits (.still m))
  | cons e rest =>
    let more (v : Slot) : Exec (List Slot) := do
      return v :: (← evaluateAll (callWithin limits levels) line rest)
    have houtcome : p.outcome limits =
        ((evaluate (callWithin limits levels) line e >>= more) m).discard :=
      congrArg (fun a => (a m).discard) (evaluateAll.eq_2 _ line e rest)
    have hparts : Composes limits (p.Own limits) m
        (andThen ⟨levels, .expr line e, m⟩ (evaluate (callWithin limits levels) line e)
          fun _ m => [⟨levels, .exprs line rest, m⟩])
        ((evaluate (callWithin limits levels) line e >>= more) m).discard.result
        ((evaluate (callWithin limits levels) line e >>= more) m).machine :=
      composes_andThen (.exits (.still m)) rfl fun v m' _ _ =>
        composes_last (.exits (.still m')) (discard_bind_pure _ (v :: ·) m')
    rw [after, houtcome]
    exact hparts

theorem composes_clause (levels : Nat) (s : Option Stmt) (m : Machine) :
    let p : Part := ⟨levels, .clause s, m⟩
    Composes limits (p.Own limits) m (p.parts limits) (p.outcome limits).result
      (p.after limits) := by
  intro p
  cases s with
  | none => exact .done (.exits (.still m))
  | some s =>
    exact composes_last (q := ⟨levels, .stmt false s, m⟩) (.exits (.still m)) (discard_bind_pure
      (exec limits.stepBudget (callWithin limits levels) false s) (fun _ => ()) m)

theorem composes_body (levels : Nat) (body : List Stmt) (m : Machine) :
    let p : Part := ⟨levels, .body body, m⟩
    Composes limits (p.Own limits) m (p.parts limits) (p.outcome limits).result
      (p.after limits) := by
  intro p
  cases body with
  | nil => exact .done (.exits (.still m))
  | cons s rest =>
    refine composes_andThen (.exits (.still m)) rfl fun flow m' _ _ => ?_
    cases flow with
    | normal => exact composes_single (.exits (.still m')) rfl (.still _)
    | stop | next | ret => exact .done (.exits (.still m'))

theorem composes_rounds (levels line : Nat) (condition : Option Expr) (update : Option Stmt)
    (body : List Stmt) (fuel : Nat) (m : Machine) :
    let p : Part := ⟨levels, .rounds line condition update body fuel, m⟩
    Composes limits (p.Own limits) m (p.parts limits) (p.outcome limits).result
      (p.after limits) := by
  intro p
  cases fuel with
  | zero => exact .done (.exits (.still m))
  | succ fuel =>
    exact composes_step (loopRounds_endAlike limits levels line condition update body fuel m)
      fun vs m' _ _ => composes_roundsRest levels fuel vs m'

/-- A part is made of its parts and of what it does itself. -/
theorem composes (p : Part) :
    Composes limits (p.Own limits) p.machine (p.parts limits) (p.outcome limits).result
      (p.after limits) := by
  obtain ⟨levels, phrase, m⟩ := p
  cases phrase with
  | expr line e => exact composes_expr limits levels line e m
  | exprs line es => exact composes_exprs limits levels line es m
  | stmt shown s =>
    exact composes_step (exec_endAlike limits levels shown s m)
      fun vs m' hnesting hafter => composes_stmtRest rfl hnesting.scopes hafter
  | clause s => exact composes_clause limits levels s m
  | body body => exact composes_body limits levels body m
  | rounds line condition update body fuel =>
    exact composes_rounds limits levels line condition update body fuel m

end Part

end TraceTutor

import TraceTutor.Proofs.NameMap
import TraceTutor.Proofs.Script.Invariant
import TraceTutor.Proofs.Script.Statements

/-!
# What parts of a program leave behind

Whatever runs while a program is executed is one of its statements, since the functions that it
defines have bodies of it. Two bounds follow by one induction over the evaluator, for every part of
the program (`Exec.Footprint`): the functions that are defined are those that statements of the
program declare, and each step pays for the nodes that are visited until the next one.
-/

namespace TraceTutor

/-! ## Nodes that are visited -/

mutual

/-- How many nodes the evaluation of an expression visits, besides the bodies of called functions. A
call of a function counts twice: as an expression and as a call. -/
def Expr.visits : Expr → Nat
  | .literal _ => 1
  | .name _ => 1
  | .array items => Expr.listVisits items + 1
  | .object fields => Expr.fieldVisits fields + 1
  | .unary _ operand => operand.visits + 1
  | .binary _ left right => left.visits + right.visits + 1
  | .ternary condition yes no => condition.visits + max yes.visits no.visits + 1
  | .index target i => target.visits + i.visits + 1
  | .member target _ => target.visits + 1
  | .call _ args => Expr.listVisits args + 2

def Expr.listVisits : List Expr → Nat
  | [] => 0
  | e :: rest => e.visits + Expr.listVisits rest

def Expr.fieldVisits : List (String × Expr) → Nat
  | [] => 0
  | (_, e) :: rest => e.visits + Expr.fieldVisits rest

end

/-- How many nodes an expression that may be left out makes visited. -/
def Expr.optionalVisits (e : Option Expr) : Nat :=
  e.elim 0 Expr.visits

/-- How many nodes are visited between a step of a statement and the next step. The rounds of a loop
are steps of the loop. -/
def Stmt.stepVisits : Stmt → Nat
  | .declare _ _ _ initial => Expr.optionalVisits initial + 1
  | .assign _ _ _ e => e.visits + 1
  | .expression _ e => e.visits + 1
  | .cond _ condition _ _ => condition.visits + 1
  | .whileLoop _ condition _ => condition.visits + 1
  | .forLoop _ _ condition _ _ => Expr.optionalVisits condition + 1
  | .ret _ value => Expr.optionalVisits value + 1
  | .update .. | .block .. | .function .. | .stop _ | .next _ => 1

theorem Stmt.one_le_stepVisits (s : Stmt) : 1 ≤ s.stepVisits := by
  cases s <;> simp only [stepVisits] <;> omega

namespace Script

/-- How many nodes are visited at most between one step of a program and the next. -/
def stepVisits (program : Program) : Nat :=
  ((statements program).map Stmt.stepVisits).foldr max 0

theorem le_stepVisits {program : Program} {s : Stmt} (hs : s ∈ statements program) :
    s.stepVisits ≤ stepVisits program := by
  unfold stepVisits
  generalize statements program = all at hs
  induction all with
  | nil => cases hs
  | cons t rest ih =>
    rw [List.map_cons, List.foldr_cons]
    rcases List.mem_cons.1 hs with rfl | hs
    · exact Nat.le_max_left _ _
    · exact Nat.le_trans (ih hs) (Nat.le_max_right _ _)

/-- A statement of the program declares the function. -/
def Declares (program : Program) (name : String) (p : Procedure) : Prop :=
  ∃ l, .function l name p.params p.body ∈ statements program

theorem Declares.statements_subset {program : Program} {name : String} {p : Procedure}
    (h : Declares program name p) : statements p.body ⊆ statements program := by
  obtain ⟨l, hmem⟩ := h
  exact inner_subset_of_mem program hmem

end Script

open Script

/-! ## Functions of a program -/

namespace Machine

variable {program : Program} {m m' m'' : Machine}

/-- The bodies of all functions consist of statements of the program. -/
def FunctionsIn (program : Program) (m : Machine) : Prop :=
  ∀ name p, m.procedures.get? name = some p → statements p.body ⊆ statements program

/-- From one machine to the other, functions were defined that the program declares. -/
def Defines (program : Program) (m m' : Machine) : Prop :=
  ∀ name, m'.procedures.get? name = m.procedures.get? name ∨
    ∃ p, Declares program name p ∧ m'.procedures.get? name = some p

namespace Defines

theorem of_eq (h : m'.procedures = m.procedures) : m.Defines program m' :=
  fun name => .inl (by rw [h])

theorem refl (program : Program) (m : Machine) : m.Defines program m :=
  of_eq rfl

theorem trans (h : m.Defines program m') (h' : m'.Defines program m'') :
    m.Defines program m'' := by
  intro name
  rcases h' name with hsame | hdeclared
  · rw [hsame]
    exact h name
  · exact .inr hdeclared

theorem functionsIn (h : m.Defines program m') (hm : m.FunctionsIn program) :
    m'.FunctionsIn program := by
  intro name p hp
  rcases h name with hsame | ⟨q, hq, hdefined⟩
  · exact hm name p (hsame ▸ hp)
  · cases hdefined.symm.trans hp
    exact hq.statements_subset

theorem define {name : String} {p : Procedure} (h : Declares program name p) :
    m.Defines program (m.define name p) := by
  intro key
  rw [Machine.define, NameMap.get?_set]
  by_cases hkey : key = name
  · subst hkey
    exact .inr ⟨p, h, if_pos rfl⟩
  · exact .inl (if_neg hkey)

theorem hoist {body : List Stmt} (h : statements body ⊆ statements program) :
    m.Defines program (m.hoist body) := by
  -- Only the statements at the top are hoisted, and the induction is on these.
  replace h := List.Subset.trans (subset_statements body) h
  induction body generalizing m with
  | nil => exact refl program m
  | cons s rest ih =>
    obtain ⟨hs, hrest⟩ := List.cons_subset.1 h
    cases s with
    | function l name params body => exact (define (p := ⟨params, body⟩) ⟨l, hs⟩).trans (ih hrest)
    | _ => exact ih hrest

theorem enterCall {p : Procedure} (hp : statements p.body ⊆ statements program) (name : String)
    (args : List Slot) (line : Nat) : m.Defines program (m.enterCall name p args line) :=
  fun key => hoist hp key

end Defines

@[simp] theorem steps_hoist (m : Machine) (body : List Stmt) : (m.hoist body).steps = m.steps :=
  hoist_induction (motive := fun m' => m'.steps = m.steps) body rfl fun _ _ _ h => h

@[simp] theorem steps_updateScopeOf (m : Machine) (name : String) (change : Scope → Scope) :
    (m.updateScopeOf name change).steps = m.steps := by
  unfold updateScopeOf
  split
  · rfl
  · split <;> rfl

@[simp] theorem steps_declare (m : Machine) (kind : DeclarationKind) (name : String)
    (initial : Slot) : (m.declare kind name initial).steps = m.steps := by
  unfold declare
  split <;> rfl

end Machine

/-! ## Footprints -/

/-- From the machine on, functions were defined that the program declares, and at most `n` nodes
were visited besides those that steps paid for. -/
structure Outcome.Accounted {α : Type} (program : Program) (n : Nat) (m : Machine)
    (o : Outcome α) : Prop where
  defines : m.Defines program o.machine
  visits : o.visits + stepVisits program * m.steps ≤ n + stepVisits program * o.machine.steps

namespace Exec

variable {α β : Type} {program : Program} {n n' : Nat}

/-- Where all functions are of the program, the action is accounted for with `n` nodes. -/
def Footprint (program : Program) (n : Nat) (a : Exec α) : Prop :=
  ∀ m : Machine, m.FunctionsIn program → (a m).Accounted program n m

namespace Footprint

theorem mono {a : Exec α} (h : a.Footprint program n) (hn : n ≤ n') : a.Footprint program n' :=
  fun m hm => ⟨(h m hm).defines, Nat.le_trans (h m hm).visits (Nat.add_le_add_right hn _)⟩

/-- An action that neither visits anything nor takes steps nor defines functions. -/
theorem of_idle {a : Exec α} (hvisits : ∀ m, (a m).visits = 0)
    (hprocedures : ∀ m, (a m).machine.procedures = m.procedures)
    (hsteps : ∀ m, (a m).machine.steps = m.steps) : a.Footprint program 0 :=
  fun m _ => ⟨.of_eq (hprocedures m), Nat.le_of_eq (by rw [hvisits, hsteps])⟩

theorem pure (x : α) : (Pure.pure x : Exec α).Footprint program 0 :=
  of_idle (fun _ => rfl) (fun _ => rfl) fun _ => rfl

theorem ofExcept (line : Nat) (x : Except RuntimeCause α) :
    (Exec.ofExcept line x).Footprint program 0 := by
  cases x with
  | ok x => exact .pure x
  | error cause => exact of_idle (fun _ => rfl) (fun _ => rfl) fun _ => rfl

theorem modify {change : Machine → Machine} (hprocedures : ∀ m, (change m).procedures = m.procedures)
    (hsteps : ∀ m, (change m).steps = m.steps) : (Exec.modify change).Footprint program 0 :=
  of_idle (fun _ => rfl) hprocedures hsteps

theorem update {line : Nat} {change : Machine → Except RuntimeCause (α × Machine)}
    (h : ∀ m x m', change m = .ok (x, m') → m'.procedures = m.procedures ∧ m'.steps = m.steps) :
    (Exec.update line change).Footprint program 0 := by
  intro m _
  unfold Exec.update
  split
  next x m' hchange =>
    obtain ⟨hprocedures, hsteps⟩ := h m x m' hchange
    exact ⟨.of_eq hprocedures, Nat.le_of_eq (by rw [hsteps])⟩
  next => exact ⟨.refl program m, Nat.le_refl _⟩

theorem bind {a : Exec α} {f : α → Exec β} (ha : a.Footprint program n)
    (hf : ∀ x, (f x).Footprint program n') : (a >>= f).Footprint program (n + n') := by
  intro m hm
  have hfirst := ha m hm
  cases h : a m with
  | mk result m' visits =>
    rw [h] at hfirst
    have hvisits := hfirst.visits
    dsimp only at hvisits
    cases result with
    | ok x =>
      rw [bind_of_ok h]
      have hsecond := hf x m' (hfirst.defines.functionsIn hm)
      have hvisits' := hsecond.visits
      exact ⟨hfirst.defines.trans hsecond.defines, by dsimp only; omega⟩
    | error i =>
      rw [bind_of_error h]
      exact ⟨hfirst.defines, by dsimp only; omega⟩

/-- The second part visits nothing that steps do not pay for. -/
theorem seq {a : Exec α} {f : α → Exec β} (ha : a.Footprint program n)
    (hf : ∀ x, (f x).Footprint program 0) : (a >>= f).Footprint program n :=
  ha.bind hf

/-- The first part visits nothing that steps do not pay for. -/
theorem after {a : Exec α} {f : α → Exec β} (ha : a.Footprint program 0)
    (hf : ∀ x, (f x).Footprint program n) : (a >>= f).Footprint program n :=
  (ha.bind hf).mono (Nat.le_of_eq (Nat.zero_add n))

theorem visit {a : Exec α} (h : a.Footprint program n) : a.visit.Footprint program (n + 1) := by
  intro m hm
  have hvisits := (h m hm).visits
  exact ⟨(h m hm).defines, by simp only [Exec.visit]; omega⟩

/-- A step pays for what is visited until the next one. -/
theorem started {a : Exec α} (h : a.Footprint program n) (budget : Nat)
    (hn : n + 1 ≤ stepVisits program) :
    (Exec.visit (do Exec.tick budget; a)).Footprint program 0 := by
  intro m hm
  have hpaid : stepVisits program * (m.steps + 1) =
      stepVisits program * m.steps + stepVisits program := Nat.mul_succ _ _
  unfold Exec.visit
  by_cases hlt : m.steps < budget
  · rw [bind_of_ok (tick_of_lt hlt)]
    have hrest := h { m with steps := m.steps + 1 } hm
    have hvisits := hrest.visits
    exact ⟨hrest.defines, by dsimp only at hvisits ⊢; omega⟩
  · -- A step over the budget counts as well, so it pays for the statement that it stops.
    rw [bind_of_error (tick_of_le (Nat.not_lt.1 hlt))]
    exact ⟨.of_eq rfl, by dsimp only; omega⟩

/-- Entering and leaving take no steps, and define only functions of the program. -/
theorem within {a : Exec α} {enter : Machine → Machine} {leave : Machine → Machine → Machine}
    (h : a.Footprint program n) (henter : ∀ m : Machine, m.Defines program (enter m))
    (hsteps : ∀ m, (enter m).steps = m.steps)
    (hleave : ∀ m m', (leave m m').procedures = m'.procedures)
    (hleaveSteps : ∀ m m', (leave m m').steps = m'.steps) :
    (Exec.within enter leave a).Footprint program n := by
  intro m hm
  have hinside := h (enter m) ((henter m).functionsIn hm)
  have hvisits := hinside.visits
  rw [hsteps] at hvisits
  exact ⟨((henter m).trans hinside.defines).trans (.of_eq (hleave m _)),
    by simpa only [Exec.within, hleaveSteps] using hvisits⟩

end Footprint

end Exec

namespace Script

open Exec

/-- All calls are accounted for with the node of the call. -/
def CallAction.Footprint (program : Program) (call : CallAction) : Prop :=
  ∀ name args line, (call name args line).Footprint program 1

variable {program : Program} {call : CallAction} {n : Nat}

/-! ### Expressions -/

theorem footprint_lookup (line : Nat) (name : String) :
    (Exec.lookup line name).Footprint program 0 :=
  fun m hm => Footprint.ofExcept line (m.lookup name) m hm

theorem footprint_assign (line : Nat) (name : String) (v : Slot) :
    (Exec.assign line name v).Footprint program 0 := by
  refine .update fun m x m' h => ?_
  obtain ⟨change, rfl⟩ := Machine.exists_of_map_assign h
  simp

theorem footprint_push (line : Nat) (name : String) (items : List Value) :
    (Exec.push line name items).Footprint program 0 := by
  refine .update fun m x m' h => ?_
  obtain ⟨change, rfl⟩ := Machine.exists_of_map_push h
  simp

theorem footprint_invoke (hcall : CallAction.Footprint program call) (callee : Callee)
    (args : List Slot) (line : Nat) : (invoke call callee args line).Footprint program 1 := by
  cases callee with
  | function name => exact hcall name args line
  | log =>
    have hlog : (Exec.log args).Footprint program 0 := .modify (fun _ => rfl) fun _ => rfl
    exact (hlog.seq fun _ => .pure none).mono (by omega)
  | math name => exact (Footprint.ofExcept line _).mono (by omega)
  | push target => exact (footprint_push line target _).mono (by omega)
  | member path => exact (Footprint.ofExcept line (.error (.notCallable path))).mono (by omega)
  | computed => exact (Footprint.ofExcept line (.error .computedCallee)).mono (by omega)

mutual

theorem footprint_evaluate (hcall : CallAction.Footprint program call) (line : Nat) :
    ∀ e : Expr, (evaluate call line e).Footprint program e.visits
  | .literal v => (Footprint.pure (some v)).visit
  | .name name => (footprint_lookup line name).visit
  | .array items => ((footprint_evaluateAll hcall line items).seq fun _ => .pure _).visit
  | .object fields => ((footprint_evaluateFields hcall line fields).seq fun _ => .pure _).visit
  | .unary op operand => ((footprint_evaluate hcall line operand).seq fun _ => .pure _).visit
  | .binary op left right => by
    unfold Script.evaluate
    have hright := footprint_evaluate hcall line right
    refine ((footprint_evaluate hcall line left).bind fun l => ?_).visit
    split
    · split
      · exact hright
      · exact (Footprint.pure l).mono (Nat.zero_le _)
    · split
      · exact (Footprint.pure l).mono (Nat.zero_le _)
      · exact hright
    · exact hright.seq fun r => (Footprint.ofExcept line _).seq fun _ => .pure _
  | .ternary condition yes no => by
    unfold Script.evaluate
    refine ((footprint_evaluate hcall line condition).bind fun test => ?_).visit
    split
    · exact (footprint_evaluate hcall line yes).mono (Nat.le_max_left _ _)
    · exact (footprint_evaluate hcall line no).mono (Nat.le_max_right _ _)
  | .index target i => by
    unfold Script.evaluate
    refine ((footprint_evaluate hcall line target).bind fun t => ?_).visit
    exact (footprint_evaluate hcall line i).seq fun _ =>
      (Footprint.ofExcept line _).seq fun _ => .pure _
  | .member target property => by
    unfold Script.evaluate
    refine ((footprint_evaluate hcall line target).seq fun t => ?_).visit
    exact (Footprint.ofExcept line _).seq fun _ => .pure _
  | .call callee args => by
    unfold Script.evaluate
    exact ((footprint_evaluateAll hcall line args).bind fun values =>
      footprint_invoke hcall callee.callee values line).visit

theorem footprint_evaluateAll (hcall : CallAction.Footprint program call) (line : Nat) :
    ∀ items : List Expr,
      (evaluateAll call line items).Footprint program (Expr.listVisits items)
  | [] => .pure []
  | e :: rest => (footprint_evaluate hcall line e).bind fun _ =>
    (footprint_evaluateAll hcall line rest).seq fun _ => .pure _

theorem footprint_evaluateFields (hcall : CallAction.Footprint program call) (line : Nat) :
    ∀ fields : List (String × Expr),
      (evaluateFields call line fields).Footprint program (Expr.fieldVisits fields)
  | [] => .pure []
  | (_, e) :: rest => (footprint_evaluate hcall line e).bind fun _ =>
    (footprint_evaluateFields hcall line rest).seq fun _ => .pure _

end

theorem footprint_evaluateOr (hcall : CallAction.Footprint program call) (line : Nat)
    (default : Slot) (e : Option Expr) :
    (evaluateOr call line default e).Footprint program (Expr.optionalVisits e) := by
  cases e with
  | none => exact .pure default
  | some e => exact footprint_evaluate hcall line e

/-! ### Simple statements and loops -/

theorem footprint_captureIf (shown : Bool) (line : Nat) (note? : Option String) :
    (captureIf shown line note?).Footprint program 0 := by
  unfold captureIf
  split
  · exact .modify (fun _ => rfl) fun _ => rfl
  · exact .pure ()

theorem footprint_assignVariable (line : Nat) (name : String) (v : Slot) (op : Option BinaryOp) :
    (assignVariable line name v op).Footprint program 0 := by
  cases op with
  | none => exact footprint_assign line name v
  | some op => exact (footprint_lookup line name).seq fun old =>
      (Footprint.ofExcept line _).seq fun v => footprint_assign line name _

theorem footprint_declareVariable (hcall : CallAction.Footprint program call) (shown : Bool)
    (line : Nat) (kind : DeclarationKind) (name : String) (initial : Option Expr) :
    (declareVariable call shown line kind name initial).Footprint program
      (Expr.optionalVisits initial) := by
  have hdeclare : ∀ v, (Exec.declare kind name v).Footprint program 0 := fun v =>
    .modify (fun m => Machine.procedures_declare m kind name v)
      fun m => Machine.steps_declare m kind name v
  cases initial with
  | none => exact hdeclare none
  | some e => exact (footprint_evaluate hcall line e).seq fun v =>
      (hdeclare v).seq fun _ => footprint_captureIf shown line _

theorem footprint_defineOnce {name : String} {p : Procedure} (h : Declares program name p) :
    (defineOnce name p).Footprint program 0 := by
  intro m _
  unfold defineOnce Exec.modify
  dsimp only
  split
  · exact ⟨.refl program m, Nat.le_refl _⟩
  · exact ⟨.define h, Nat.le_refl _⟩

theorem footprint_leave (line : Nat) (misplaced : Machine → Bool) (cause : RuntimeCause)
    (flow : Flow) : (leave line misplaced cause flow).Footprint program 0 := by
  refine .update fun m x m' h => ?_
  split at h
  · cases h
  · cases h
    exact ⟨rfl, rfl⟩

theorem footprint_loopRound {test : Exec Slot} {update : Exec Unit} {body : Exec Flow}
    (htest : test.Footprint program n) (hupdate : update.Footprint program 0)
    (hbody : body.Footprint program 0) : (loopRound test update body).Footprint program n := by
  refine htest.seq fun v => ?_
  split
  · refine hbody.seq fun flow => ?_
    cases flow with
    | stop | ret => exact .pure _
    | normal | next => exact hupdate.seq fun _ => .pure _
  · exact .pure _

theorem footprint_rounds {round : Exec (Option Flow)} (h : round.Footprint program n)
    (hn : n + 1 ≤ stepVisits program) (budget fuel : Nat) :
    (rounds budget round fuel).Footprint program 0 := by
  induction fuel with
  | zero => exact .of_idle (fun _ => rfl) (fun _ => rfl) fun _ => rfl
  | succ fuel ih =>
    refine (h.started budget hn).seq fun last => ?_
    cases last with
    | none => exact ih
    | some flow => exact .pure flow

theorem footprint_loop {round : Exec (Option Flow)} (h : round.Footprint program n)
    (hn : n + 1 ≤ stepVisits program) (budget : Nat) :
    (loop budget round).Footprint program 0 := by
  refine .within ?_ (fun _ => .of_eq rfl) (fun _ => rfl) (fun _ _ => rfl) fun _ _ => rfl
  exact fun m hm => footprint_rounds h hn budget _ m hm

/-! ### Statements -/

mutual

/-- The steps of a statement pay for all nodes that it visits. -/
theorem footprint_exec (hcall : CallAction.Footprint program call) (budget : Nat) (shown : Bool) :
    ∀ s : Stmt, s ∈ statements program → (exec budget call shown s).Footprint program 0
  | .declare l kind name initial, hs => by
    unfold Script.exec
    refine .started ?_ budget (le_stepVisits hs)
    exact (footprint_declareVariable hcall shown _ kind name initial).seq fun _ => .pure _
  | .assign l target op e, hs => by
    unfold Script.exec
    refine .started ?_ budget (le_stepVisits hs)
    exact (footprint_evaluate hcall _ e).seq fun v =>
      (footprint_assignVariable _ target v op).seq fun _ => .pure _
  | .update l target delta, hs => by
    unfold Script.exec
    refine .started ?_ budget (le_stepVisits hs)
    exact (footprint_assignVariable _ target _ _).seq fun _ => .pure _
  | .expression l e, hs => by
    unfold Script.exec
    refine .started ?_ budget (le_stepVisits hs)
    exact (footprint_evaluate hcall _ e).seq fun _ =>
      (footprint_captureIf shown _ _).seq fun _ => .pure _
  | .block l body, hs => by
    unfold Script.exec
    refine .started ?_ budget (le_stepVisits hs)
    exact footprint_execBlock hcall budget body (inner_subset_of_mem program hs)
  | .cond l condition yes no, hs => by
    unfold Script.exec
    have hinner := inner_subset_of_mem program hs
    refine .started ?_ budget (le_stepVisits hs)
    refine (footprint_evaluate hcall _ condition).seq fun test => ?_
    split
    · exact footprint_execBlock hcall budget yes (List.append_subset.1 hinner).1
    · exact footprint_execElse hcall budget no (List.append_subset.1 hinner).2
  | .whileLoop l condition body, hs => by
    unfold Script.exec
    -- The step of the loop pays for the loop itself, and the step of each round for its test.
    refine .started ?_ budget (Nat.le_trans (Stmt.one_le_stepVisits _) (le_stepVisits hs))
    refine footprint_loop ?_ (le_stepVisits hs) budget
    exact footprint_loopRound (footprint_evaluate hcall _ condition) (.pure ())
      (footprint_execBlock hcall budget body (inner_subset_of_mem program hs))
  | .forLoop l initial condition update body, hs => by
    unfold Script.exec
    obtain ⟨hinitial, hrest⟩ := List.append_subset.1 (inner_subset_of_mem program hs)
    obtain ⟨hupdate, hbody⟩ := List.append_subset.1 hrest
    refine .started ?_ budget (Nat.le_trans (Stmt.one_le_stepVisits _) (le_stepVisits hs))
    refine (footprint_execClause hcall budget initial hinitial).seq fun _ => ?_
    refine footprint_loop ?_ (le_stepVisits hs) budget
    exact footprint_loopRound (footprint_evaluateOr hcall _ _ condition)
      (footprint_execClause hcall budget update hupdate)
      (footprint_execBlock hcall budget body hbody)
  | .function l name params body, hs => by
    unfold Script.exec
    refine .started ?_ budget (le_stepVisits hs)
    exact (footprint_defineOnce ⟨l, hs⟩).seq fun _ => .pure _
  | .ret l value, hs => by
    unfold Script.exec
    refine .started ?_ budget (le_stepVisits hs)
    exact (footprint_leave _ _ _ _).after fun _ =>
      (footprint_evaluateOr hcall _ none value).seq fun _ => .pure _
  | .stop l, hs => by
    unfold Script.exec
    exact .started (footprint_leave _ _ _ _) budget (le_stepVisits hs)
  | .next l, hs => by
    unfold Script.exec
    exact .started (footprint_leave _ _ _ _) budget (le_stepVisits hs)

theorem footprint_execClause (hcall : CallAction.Footprint program call) (budget : Nat) :
    ∀ s : Option Stmt, Stmt.clauseStatements s ⊆ statements program →
      (execClause budget call s).Footprint program 0
  | none, _ => .pure ()
  | some s, hs =>
    (footprint_exec hcall budget false s (hs (List.mem_cons_self ..))).seq fun _ => .pure ()

theorem footprint_execBlock (hcall : CallAction.Footprint program call) (budget : Nat) :
    ∀ body : List Stmt, statements body ⊆ statements program →
      (execBlock budget call body).Footprint program 0
  | [], _ => .pure Flow.normal
  | s :: rest, hbody => by
    unfold Script.execBlock
    have hrest := (List.append_subset.1 (List.cons_subset.1 hbody).2).2
    refine (footprint_exec hcall budget true s (hbody (List.mem_cons_self ..))).seq fun flow => ?_
    cases flow with
    | normal => exact footprint_execBlock hcall budget rest hrest
    | stop | next | ret => exact .pure _

theorem footprint_execElse (hcall : CallAction.Footprint program call) (budget : Nat) :
    ∀ body : Option (List Stmt), optionalStatements body ⊆ statements program →
      (execElse budget call body).Footprint program 0
  | none, _ => .pure Flow.normal
  | some body, hbody => footprint_execBlock hcall budget body hbody

end

/-! ### Calls -/

theorem footprint_inCall {p : Procedure} (hp : statements p.body ⊆ statements program)
    {a : Exec Flow} (h : a.Footprint program n) (name : String) (args : List Slot) (line : Nat) :
    (inCall name p args line a).Footprint program n :=
  .within h (fun _ => .enterCall hp name args line) (fun _ => Machine.steps_hoist _ _)
    (fun _ _ => rfl) fun _ _ => rfl

theorem footprint_find {α : Type} {f : Procedure → Exec α}
    (hf : ∀ p : Procedure, statements p.body ⊆ statements program → (f p).Footprint program n)
    (line : Nat) (name : String) : (find line name >>= f).Footprint program n := by
  intro m hm
  cases hget : m.procedures.get? name with
  | some p =>
    rw [bind_of_ok (find_of_get? hget)]
    have hbody := hf p (hm name p hget) m hm
    exact ⟨hbody.defines, by simpa only [Nat.zero_add] using hbody.visits⟩
  | none =>
    obtain ⟨cause, herror⟩ := find_of_none hget
    rw [bind_of_error herror]
    exact ⟨.refl program m, by dsimp only; omega⟩

/-- The steps of the called function pay for all of a call but the call itself. -/
theorem footprint_callWithin (limits : Limits) (levels : Nat) (name : String) (args : List Slot)
    (line : Nat) : (callWithin limits levels name args line).Footprint program 1 := by
  induction levels generalizing name args line with
  | zero =>
    unfold callWithin
    exact (footprint_find (fun p _ => .ofExcept line _) line name).visit
  | succ levels ih =>
    unfold callWithin
    refine (footprint_find (fun p hp => ?_) line name).visit
    refine (footprint_inCall hp ?_ name args line).seq fun _ => .pure _
    exact footprint_execBlock ih limits.stepBudget p.body hp

end Script

end TraceTutor

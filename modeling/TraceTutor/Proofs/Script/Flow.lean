import TraceTutor.Proofs.Script.Clauses
import TraceTutor.Proofs.Script.Nesting

/-!
# How statements end

A statement may end in a way that leaves a loop only inside of a loop, and in one that leaves a call
only inside of a call (`Exec.Contained`). Loops and calls take such endings up, so a program always
ends normally, a body with `return` at most, and a loop as if it were outside of all loops
(`flow_contained`).

How a clause of a loop head ends does not matter to its loop. In a program that was parsed it always
ends normally, as clauses are simple statements (`simpleClauses_of_parseProgram`).
-/

namespace TraceTutor

/-- A `while` or a `for` loop. -/
def Stmt.IsLoop : Stmt → Prop
  | .whileLoop .. | .forLoop .. => True
  | _ => False

/-! ## Endings that are in place -/

/-- A statement may end in this way in the machine. -/
def Flow.AllowedIn (m : Machine) : Flow → Prop
  | .normal => True
  | .stop | .next => m.loopDepth ≠ 0
  | .ret _ => m.scopes ≠ []

namespace Flow.AllowedIn

variable {m m' : Machine} {flow : Flow}

theorem of_sameNesting (h : m.SameNesting m') (hflow : flow.AllowedIn m') : flow.AllowedIn m := by
  cases flow with
  | normal => trivial
  | stop | next => exact fun hdepth => hflow (h.loopDepth.trans hdepth)
  | ret v =>
    intro hscopes
    have hlength := h.scopes
    rw [hscopes, List.length_nil] at hlength
    exact hflow (List.length_eq_zero_iff.1 hlength)

theorem outside_of_sameNesting (h : m.SameNesting m')
    (hflow : flow.AllowedIn { m' with loopDepth := 0 }) :
    flow.AllowedIn { m with loopDepth := 0 } := by
  have houtside : Machine.SameNesting { m with loopDepth := 0 } { m' with loopDepth := 0 } :=
    ⟨h.scopes, rfl, h.stack⟩
  exact of_sameNesting houtside hflow

/-- Outside of all loops, nothing leaves a loop. -/
theorem eq_normal_or_ret (h : flow.AllowedIn m) (hdepth : m.loopDepth = 0) :
    flow = .normal ∨ ∃ v, flow = .ret v := by
  cases flow with
  | normal => exact .inl rfl
  | stop | next => exact absurd hdepth h
  | ret v => exact .inr ⟨v, rfl⟩

/-- Outside of all loops and calls, everything ends normally. -/
theorem eq_normal (h : flow.AllowedIn m) (hdepth : m.loopDepth = 0) (hscopes : m.scopes = []) :
    flow = .normal := by
  obtain rfl | ⟨v, rfl⟩ := h.eq_normal_or_ret hdepth
  · rfl
  · exact absurd hscopes h

/-- What is in place outside of all loops is in place within them. -/
theorem of_outside (h : flow.AllowedIn { m with loopDepth := 0 }) : flow.AllowedIn m := by
  cases flow with
  | normal => trivial
  | stop | next => exact absurd rfl h
  | ret v => exact h

end Flow.AllowedIn

namespace Exec

variable {α β : Type}

theorem balanced_pure (x : α) : (pure x : Exec α).Balanced :=
  fun m => .refl m

/-- A sequence that completes has a first part that does. -/
theorem exists_of_bind_ok {a : Exec α} {f : α → Exec β} {m : Machine} {y : β}
    (h : ((a >>= f) m).result = .ok y) :
    ∃ x, (a m).result = .ok x ∧ (f x (a m).machine).result = .ok y := by
  cases ha : a m with
  | mk result m' visits =>
    cases result with
    | ok x =>
      rw [bind_of_ok ha] at h
      exact ⟨x, rfl, h⟩
    | error i =>
      rw [bind_of_error ha] at h
      cases h

section

variable {line : Nat} {misplaced : Machine → Bool} {cause : RuntimeCause} {flow : Flow} {m : Machine}

theorem leave_of_misplaced (h : misplaced m = true) :
    Script.leave line misplaced cause flow m = ⟨.error (.fault (.runtime cause line)), m, 0⟩ := by
  simp [Script.leave, Exec.update, h]

theorem leave_of_placed (h : misplaced m = false) :
    Script.leave line misplaced cause flow m = ⟨.ok flow, m, 0⟩ := by
  simp [Script.leave, Exec.update, h]

end

/-- However the action ends, calls and loops are as before, and its way to end is in place. -/
structure Contained (a : Exec Flow) : Prop where
  balanced : a.Balanced
  allowed {m : Machine} {flow : Flow} : (a m).result = .ok flow → flow.AllowedIn m

namespace Contained

theorem normal : Contained (return .normal) := by
  refine ⟨balanced_pure _, fun h => ?_⟩
  cases h
  trivial

theorem visit {a : Exec Flow} (h : a.Contained) : a.visit.Contained :=
  ⟨h.balanced, h.allowed⟩

/-- An action before decides nothing about the ending. -/
theorem bind {a : Exec α} {f : α → Exec Flow} (ha : a.Balanced) (hf : ∀ x, (f x).Contained) :
    (a >>= f).Contained := by
  refine ⟨ha.bind fun x => (hf x).balanced, fun {m} flow h => ?_⟩
  obtain ⟨x, -, hrest⟩ := exists_of_bind_ok h
  exact .of_sameNesting (ha m) ((hf x).allowed hrest)

/-- A statement whose ending is normal goes on with the next one. -/
theorem seq {a rest : Exec Flow} (ha : a.Contained) (hrest : rest.Contained) :
    Contained (do
      match ← a with
      | .normal => rest
      | flow => return flow) := by
  refine ⟨ha.balanced.bind fun flow => ?_, fun {m} flow h => ?_⟩
  · cases flow with
    | normal => exact hrest.balanced
    | stop | next | ret => exact balanced_pure _
  · obtain ⟨first, hfirst, h⟩ := exists_of_bind_ok h
    cases first with
    | normal => exact .of_sameNesting (ha.balanced m) (hrest.allowed h)
    | stop | next | ret =>
      cases h
      exact ha.allowed hfirst

theorem leaveLoop (line : Nat) (cause : RuntimeCause) {flow : Flow}
    (hflow : ∀ m : Machine, m.loopDepth ≠ 0 → flow.AllowedIn m) :
    (Script.leave line (·.loopDepth == 0) cause flow).Contained := by
  refine ⟨.of_preserves fun _ => Script.IsInvariant.leave _ _ cause flow, fun {m} flow' h => ?_⟩
  by_cases hdepth : m.loopDepth = 0
  · rw [leave_of_misplaced (by simpa using hdepth)] at h
    cases h
  · rw [leave_of_placed (by simpa using hdepth)] at h
    cases h
    exact hflow m hdepth

theorem ret {a : Exec Slot} (ha : a.Balanced) (line : Nat) (cause : RuntimeCause) :
    Contained (do
      let _ ← Script.leave line (·.scopes.isEmpty) cause .normal
      return .ret (← a)) := by
  have hleave : (Script.leave line (·.scopes.isEmpty) cause .normal).Balanced :=
    .of_preserves fun _ => Script.IsInvariant.leave _ _ cause .normal
  refine ⟨hleave.bind fun _ => ha.bind fun _ => balanced_pure _, fun {m} flow h => ?_⟩
  obtain ⟨_, hplaced, h⟩ := exists_of_bind_ok h
  obtain ⟨v, -, h⟩ := exists_of_bind_ok h
  cases h
  intro hscopes
  rw [leave_of_misplaced (by simpa using hscopes)] at hplaced
  cases hplaced

end Contained

/-- If the action completes, it ends normally. -/
def EndsNormally (a : Exec Flow) : Prop :=
  ∀ (m : Machine) (flow : Flow), (a m).result = .ok flow → flow = .normal

namespace EndsNormally

theorem normal : EndsNormally (return .normal) := by
  intro m flow h
  cases h
  rfl

theorem visit {a : Exec Flow} (h : a.EndsNormally) : a.visit.EndsNormally :=
  fun m flow hresult => h m flow hresult

theorem bind {a : Exec α} {f : α → Exec Flow} (hf : ∀ x, (f x).EndsNormally) :
    (a >>= f).EndsNormally := by
  intro m flow h
  obtain ⟨x, -, hrest⟩ := exists_of_bind_ok h
  exact hf x _ flow hrest

end EndsNormally

/-! ### Loops -/

/-- If a round is the last one, its loop may end in this way outside of all loops. -/
structure EndsLoop (round : Exec (Option Flow)) : Prop where
  balanced : round.Balanced
  allowed {m : Machine} {flow : Flow} :
    (round m).result = .ok (some flow) → flow.AllowedIn { m with loopDepth := 0 }

theorem endsLoop_loopRound {test : Exec Slot} {update : Exec Unit} {body : Exec Flow}
    (htest : test.Balanced) (hupdate : update.Balanced) (hbody : body.Contained) :
    (Script.loopRound test update body).EndsLoop := by
  refine ⟨htest.bind fun v => ?_, fun {m} flow h => ?_⟩
  · split
    · refine hbody.balanced.bind fun ending => ?_
      cases ending with
      | stop | ret => exact balanced_pure _
      | normal | next => exact hupdate.bind fun _ => balanced_pure _
    · exact balanced_pure _
  obtain ⟨v, -, h⟩ := exists_of_bind_ok h
  split at h
  · obtain ⟨ending, hending, h⟩ := exists_of_bind_ok h
    have hallowed := hbody.allowed hending
    cases ending with
    | stop =>
      cases h
      trivial
    | ret v =>
      cases h
      exact fun hscopes => (Flow.AllowedIn.of_sameNesting (htest m) hallowed) hscopes
    | normal | next =>
      obtain ⟨_, _, h⟩ := exists_of_bind_ok h
      cases h
  · cases h
    trivial

namespace EndsLoop

variable {round : Exec (Option Flow)} {m : Machine} {flow : Flow}

theorem rounds (h : round.EndsLoop) {budget fuel : Nat}
    (hresult : (Script.rounds budget round fuel m).result = .ok flow) :
    flow.AllowedIn { m with loopDepth := 0 } := by
  induction fuel generalizing m with
  | zero => cases hresult
  | succ fuel ih =>
    obtain ⟨last, hlast, hrest⟩ := exists_of_bind_ok hresult
    obtain ⟨_, _, hround⟩ := exists_of_bind_ok (a := Exec.tick budget) hlast
    have hstarted := ((Balanced.tick budget).bind fun _ => h.balanced) m
    cases last with
    | some last =>
      cases hrest
      exact .outside_of_sameNesting (Balanced.tick budget m) (h.allowed hround)
    | none => exact .outside_of_sameNesting hstarted (ih hrest)

/-- A loop ends in a way that is in place outside of all loops. -/
theorem loop (h : round.EndsLoop) {budget : Nat}
    (hresult : (Script.loop budget round m).result = .ok flow) :
    flow.AllowedIn { m with loopDepth := 0 } :=
  h.rounds (m := { m with loopDepth := m.loopDepth + 1 }) hresult

theorem contained_loop (h : round.EndsLoop) (budget : Nat) :
    (Script.loop budget round).Contained :=
  ⟨h.balanced.loop, fun hresult => (h.loop hresult).of_outside⟩

end EndsLoop

end Exec

/-! ## Statements -/

namespace Script

open Exec

theorem balanced_captureIf (shown : Bool) (line : Nat) (note? : Option String) :
    (captureIf shown line note?).Balanced :=
  @IsLocalCongruence.captureIf _ 0 0 line _
    (isCongruence_balanced 0 0).toIsLocalCongruence shown note? trivial

theorem balanced_assignVariable (line : Nat) (name : String) (v : Slot) (op : Option BinaryOp) :
    (assignVariable line name v op).Balanced :=
  @IsLocalCongruence.assignVariable _ 0 0 line _
    (isCongruence_balanced 0 0).toIsLocalCongruence trivial name v op

theorem balanced_defineOnce (name : String) (p : Procedure) : (defineOnce name p).Balanced :=
  (isCongruence_balanced 0 0).rel_defineOnce name (linesIn_of_forall (fun _ => trivial) p.body)

section

variable {call : CallAction}

theorem balanced_evaluateOr (hcall : CallAction.Balanced call) (line : Nat) (default : Slot)
    (e : Option Expr) : (evaluateOr call line default e).Balanced := by
  cases e with
  | none => exact balanced_pure default
  | some e => exact balanced_evaluate_of_call hcall line e

theorem balanced_declareVariable (hcall : CallAction.Balanced call) (shown : Bool) (line : Nat)
    (kind : DeclarationKind) (name : String) (initial : Option Expr) :
    (declareVariable call shown line kind name initial).Balanced :=
  @IsLocalCongruence.declareVariable _ 0 0 line _ call call
    (isCongruence_balanced 0 0).toIsLocalCongruence trivial hcall.related shown kind name initial

mutual

/-- Every statement ends in a way that is in place. -/
theorem exec_contained (hcall : CallAction.Balanced call) (budget : Nat) (instrumented : Bool) :
    ∀ s : Stmt, (exec budget call instrumented s).Contained
  | .declare l kind name initial => by
    unfold Script.exec
    refine .visit (.bind (.tick budget) fun _ => ?_)
    exact .bind (balanced_declareVariable hcall instrumented _ kind name initial) fun _ => .normal
  | .assign l target op e => by
    unfold Script.exec
    refine .visit (.bind (.tick budget) fun _ => ?_)
    refine .bind (balanced_evaluate_of_call hcall _ e) fun v => ?_
    exact .bind (balanced_assignVariable _ target v op) fun _ => .normal
  | .update l target delta => by
    unfold Script.exec
    refine .visit (.bind (.tick budget) fun _ => ?_)
    exact .bind (balanced_assignVariable _ target _ _) fun _ => .normal
  | .expression l e => by
    unfold Script.exec
    refine .visit (.bind (.tick budget) fun _ => ?_)
    refine .bind (balanced_evaluate_of_call hcall _ e) fun _ => ?_
    exact .bind (balanced_captureIf instrumented _ _) fun _ => .normal
  | .block l body => by
    unfold Script.exec
    exact .visit (.bind (.tick budget) fun _ => execBlock_contained hcall budget body)
  | .cond l condition yes no => by
    unfold Script.exec
    refine .visit (.bind (.tick budget) fun _ => ?_)
    refine .bind (balanced_evaluate_of_call hcall _ condition) fun test => ?_
    split
    · exact execBlock_contained hcall budget yes
    · exact execElse_contained hcall budget no
  | .whileLoop l condition body => by
    unfold Script.exec
    have htest := balanced_evaluate_of_call hcall l.line condition
    have hbody := execBlock_contained hcall budget body
    have hround := endsLoop_loopRound htest (balanced_pure ()) hbody
    exact .visit (.bind (.tick budget) fun _ => hround.contained_loop budget)
  | .forLoop l initial condition update body => by
    unfold Script.exec
    have htest := balanced_evaluateOr hcall l.line (some (.bool true)) condition
    have hbody := execBlock_contained hcall budget body
    have hround := endsLoop_loopRound htest (execClause_balanced hcall budget update) hbody
    refine .visit (.bind (.tick budget) fun _ => ?_)
    exact .bind (execClause_balanced hcall budget initial) fun _ => hround.contained_loop budget
  | .function l name params body => by
    unfold Script.exec
    refine .visit (.bind (.tick budget) fun _ => ?_)
    exact .bind (balanced_defineOnce name ⟨params, body⟩) fun _ => .normal
  | .ret l value => by
    unfold Script.exec
    refine .visit (.bind (.tick budget) fun _ => ?_)
    exact .ret (balanced_evaluateOr hcall l.line none value) _ _
  | .stop l => by
    unfold Script.exec
    exact .visit (.bind (.tick budget) fun _ => .leaveLoop _ _ fun _ hdepth => hdepth)
  | .next l => by
    unfold Script.exec
    exact .visit (.bind (.tick budget) fun _ => .leaveLoop _ _ fun _ hdepth => hdepth)

theorem execClause_balanced (hcall : CallAction.Balanced call) (budget : Nat) :
    ∀ s : Option Stmt, (execClause budget call s).Balanced
  | none => balanced_pure ()
  | some s => (exec_contained hcall budget false s).balanced.bind fun _ => balanced_pure ()

theorem execBlock_contained (hcall : CallAction.Balanced call) (budget : Nat) :
    ∀ body : List Stmt, (execBlock budget call body).Contained
  | [] => .normal
  | s :: rest => by
    unfold Script.execBlock
    exact .seq (exec_contained hcall budget true s) (execBlock_contained hcall budget rest)

theorem execElse_contained (hcall : CallAction.Balanced call) (budget : Nat) :
    ∀ body : Option (List Stmt), (execElse budget call body).Contained
  | none => .normal
  | some body => execBlock_contained hcall budget body

end

end

/-- A simple statement goes on with the next one. -/
theorem endsNormally_of_isSimple (budget : Nat) (call : CallAction) (shown : Bool) {s : Stmt}
    (hs : s.IsSimple) : (exec budget call shown s).EndsNormally := by
  cases s with
  | declare | update =>
    unfold exec
    exact .visit (.bind fun _ => .bind fun _ => .normal)
  | assign | expression =>
    unfold exec
    exact .visit (.bind fun _ => .bind fun _ => .bind fun _ => .normal)
  | _ => exact hs.elim

/-! ## Programs -/

section

variable (limits : Limits) (levels : Nat)

/-- Outside of all calls and loops, statements end normally. -/
theorem eq_normal_of_outermost (body : List Stmt) {m : Machine} (hscopes : m.scopes = [])
    (hdepth : m.loopDepth = 0) {flow : Flow}
    (h : (execBlock limits.stepBudget (callWithin limits levels) body m).result = .ok flow) :
    flow = .normal :=
  have hcontained := execBlock_contained (balanced_callWithin limits levels) limits.stepBudget body
  (hcontained.allowed h).eq_normal hdepth hscopes

theorem eq_normal_of_execute (program : Program) {flow : Flow}
    (h : (execute limits program).result = .ok flow) : flow = .normal := by
  have hinitial := Machine.SameNesting.hoist .initial program
  exact eq_normal_of_outermost limits limits.callDepth program
    (List.length_eq_zero_iff.1 hinitial.scopes) hinitial.loopDepth h

/-- A body starts outside of all loops, wherever its call is made. -/
theorem eq_normal_or_ret_of_enterCall (name : String) (p : Procedure) (args : List Slot)
    (line : Nat) {m : Machine} {flow : Flow}
    (h : (execBlock limits.stepBudget (callWithin limits levels) p.body
      (m.enterCall name p args line)).result = .ok flow) :
    flow = .normal ∨ ∃ v, flow = .ret v :=
  have hcontained := execBlock_contained (balanced_callWithin limits levels) limits.stepBudget p.body
  (hcontained.allowed h).eq_normal_or_ret (Machine.SameNesting.hoist _ p.body).loopDepth

/-- A loop takes up all endings but `return`. -/
theorem eq_normal_or_ret_of_isLoop {shown : Bool} {s : Stmt} (hs : s.IsLoop) {m : Machine}
    {flow : Flow}
    (h : (exec limits.stepBudget (callWithin limits levels) shown s m).result = .ok flow) :
    flow = .normal ∨ ∃ v, flow = .ret v := by
  have hcall := balanced_callWithin limits levels
  cases s with
  | whileLoop l condition body =>
    have hround := endsLoop_loopRound (balanced_evaluate_of_call hcall l.line condition)
      (balanced_pure ()) (execBlock_contained hcall limits.stepBudget body)
    unfold exec at h
    obtain ⟨_, -, h⟩ := exists_of_bind_ok h
    exact (hround.loop h).eq_normal_or_ret rfl
  | forLoop l initial condition update body =>
    have hround := endsLoop_loopRound
      (balanced_evaluateOr hcall l.line (some (.bool true)) condition)
      (execClause_balanced hcall limits.stepBudget update)
      (execBlock_contained hcall limits.stepBudget body)
    unfold exec at h
    obtain ⟨_, -, h⟩ := exists_of_bind_ok h
    obtain ⟨_, -, h⟩ := exists_of_bind_ok h
    exact (hround.loop h).eq_normal_or_ret rfl
  | _ => exact hs.elim

/-- A statement out of place ends the run. -/
theorem exec_of_misplaced (budget : Nat) (call : CallAction) (shown : Bool) (l : Location)
    {m : Machine} (hsteps : m.steps < budget) :
    (m.loopDepth = 0 →
      (exec budget call shown (.stop l) m).result =
        .error (.fault (.runtime .strayBreak l.line)) ∧
      (exec budget call shown (.next l) m).result =
        .error (.fault (.runtime .strayContinue l.line))) ∧
    (m.scopes = [] → ∀ value, (exec budget call shown (.ret l value) m).result =
      .error (.fault (.runtime .strayReturn l.line))) := by
  refine ⟨fun hdepth => ⟨?_, ?_⟩, fun hscopes value => ?_⟩
  · unfold exec Exec.visit
    dsimp only
    rw [bind_of_ok (tick_of_lt hsteps), leave_of_misplaced (by simpa using hdepth)]
    rfl
  · unfold exec Exec.visit
    dsimp only
    rw [bind_of_ok (tick_of_lt hsteps), leave_of_misplaced (by simpa using hdepth)]
    rfl
  · unfold exec Exec.visit
    dsimp only
    rw [bind_of_ok (tick_of_lt hsteps),
      bind_of_error (leave_of_misplaced (by simpa using hscopes))]
    rfl

/-- Nothing but the end of a run leaves the construct that it belongs to. A program ends normally, a
body at most with `return` even if its call is made within a loop, and so does a loop; clauses of
loop heads end normally. What would leave a loop or a call that is not there is a fault. -/
theorem flow_contained :
    (∀ program flow, (execute limits program).result = .ok flow → flow = .normal) ∧
    (∀ body (m : Machine) flow, m.scopes = [] → m.loopDepth = 0 →
      (execBlock limits.stepBudget (callWithin limits levels) body m).result = .ok flow →
        flow = .normal) ∧
    (∀ (p : Procedure) name args line (m : Machine) flow,
      (execBlock limits.stepBudget (callWithin limits levels) p.body
        (m.enterCall name p args line)).result = .ok flow → flow = .normal ∨ ∃ v, flow = .ret v) ∧
    (∀ shown (s : Stmt) (m : Machine) flow, s.IsLoop →
      (exec limits.stepBudget (callWithin limits levels) shown s m).result = .ok flow →
        flow = .normal ∨ ∃ v, flow = .ret v) ∧
    (∀ source program, parseProgram source = .ok program →
      ∀ s ∈ statements program, ∀ c ∈ s.clauses, ∀ (m : Machine) flow,
        (exec limits.stepBudget (callWithin limits levels) false c m).result = .ok flow →
          flow = .normal) ∧
    ∀ shown (l : Location) (m : Machine), m.steps < limits.stepBudget →
      (m.loopDepth = 0 →
        (exec limits.stepBudget (callWithin limits levels) shown (.stop l) m).result =
          .error (.fault (.runtime .strayBreak l.line)) ∧
        (exec limits.stepBudget (callWithin limits levels) shown (.next l) m).result =
          .error (.fault (.runtime .strayContinue l.line))) ∧
      (m.scopes = [] → ∀ value,
        (exec limits.stepBudget (callWithin limits levels) shown (.ret l value) m).result =
          .error (.fault (.runtime .strayReturn l.line))) := by
  refine ⟨fun program flow h => ?_, fun body m flow hscopes hdepth h => ?_,
    fun p name args line m flow h => ?_, fun shown s m flow hs h => ?_,
    fun source program hprogram s hs c hc m flow h => ?_, fun shown l m hsteps => ?_⟩
  · exact eq_normal_of_execute limits program h
  · exact eq_normal_of_outermost limits levels body hscopes hdepth h
  · exact eq_normal_or_ret_of_enterCall limits levels name p args line h
  · exact eq_normal_or_ret_of_isLoop limits levels hs h
  · have hsimple := simpleClauses_of_parseProgram hprogram s hs c hc
    exact endsNormally_of_isSimple limits.stepBudget (callWithin limits levels) false hsimple m flow h
  · exact exec_of_misplaced limits.stepBudget (callWithin limits levels) shown l hsteps

end

/-- A script whose loops are left in every way, by statements of a function and of the program. -/
def leavingLoops : String :=
  "function pick(n) \x7b\n  for (let i = 0; i < 4; i++) \x7b\n    if (i === n) continue;\n" ++
    "    if (i > 2) break;\n    while (true) \x7b if (n > 1) return i; break; \x7d\n  \x7d\n\x7d\n" ++
    "let s = 0;\nfor (let k = 0; k < 4; k++) \x7b\n  if (k === 3) break;\n  pick(k);\n  s += k;\n\x7d\n"

theorem flow_contained_leavingLoops :
    ∃ program, parseProgram leavingLoops = .ok program ∧
      (execute .standard program).result.isOk = true ∧
      ((statements program).flatMap Stmt.clauses).length = 4 ∧
      (∀ flow, (execute .standard program).result = .ok flow → flow = .normal) ∧
      ∀ s ∈ statements program, ∀ c ∈ s.clauses, ∀ flow,
        (exec 10000 (callWithin .standard 8) false c .initial).result = .ok flow →
          flow = .normal := by
  have h := flow_contained .standard 8
  have hfacts : (parseProgram leavingLoops).toOption.map (fun program =>
      ((execute .standard program).result.isOk,
        ((statements program).flatMap Stmt.clauses).length)) = some (true, 4) := by
    decide +kernel
  obtain ⟨program, hprogram, hprogramFacts⟩ := except_exists_of_map_toOption hfacts
  obtain ⟨hcompletes, hclauses⟩ := Prod.mk.inj hprogramFacts
  exact ⟨program, hprogram, hcompletes, hclauses, h.1 program,
    fun s hs c hc => h.2.2.2.2.1 leavingLoops program hprogram s hs c hc .initial⟩

end Script

end TraceTutor

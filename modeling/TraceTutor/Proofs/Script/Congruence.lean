import TraceTutor.Script.Evaluator

/-!
# Relations between runs of programs

A statement about all runs of a program, or about two runs of it, is a relation between actions. It
holds of every program if it is a congruence: all actions of the evaluator are related to
themselves, and related parts make related actions. `IsCongruence.program` is the induction over
programs that shows this, once for all such relations. A relation that does not survive a call
unchanged, such as one that speaks of the depth of calls, may still be an `IsLocalCongruence`: it
holds of every body whose calls it holds of.

Two related runs may have different step budgets. The lines of statements are known to be among
some that `Fits` tells.
-/

namespace TraceTutor

/-! ## Lines of programs -/

mutual

/-- The statement and all statements within it stand at certain lines. -/
def Stmt.LinesIn (Fits : Nat → Prop) : Stmt → Prop
  | .declare l .. => Fits l.line
  | .assign l .. => Fits l.line
  | .update l .. => Fits l.line
  | .expression l .. => Fits l.line
  | .block l body => Fits l.line ∧ Script.LinesIn Fits body
  | .cond l _ yes no => Fits l.line ∧ Script.LinesIn Fits yes ∧ Script.OptionalLinesIn Fits no
  | .whileLoop l _ body => Fits l.line ∧ Script.LinesIn Fits body
  | .forLoop l initial _ update body => Fits l.line ∧ Stmt.OptionalLinesIn Fits initial ∧
      Stmt.OptionalLinesIn Fits update ∧ Script.LinesIn Fits body
  | .function l _ _ body => Fits l.line ∧ Script.LinesIn Fits body
  | .ret l .. => Fits l.line
  | .stop l => Fits l.line
  | .next l => Fits l.line

/-- A statement that may be left out stands at certain lines. -/
def Stmt.OptionalLinesIn (Fits : Nat → Prop) : Option Stmt → Prop
  | none => True
  | some s => s.LinesIn Fits

/-- All statements stand at certain lines. -/
def Script.LinesIn (Fits : Nat → Prop) : List Stmt → Prop
  | [] => True
  | s :: rest => s.LinesIn Fits ∧ Script.LinesIn Fits rest

/-- Statements that may be left out stand at certain lines. -/
def Script.OptionalLinesIn (Fits : Nat → Prop) : Option (List Stmt) → Prop
  | none => True
  | some body => Script.LinesIn Fits body

end

theorem Stmt.LinesIn.line {Fits : Nat → Prop} {s : Stmt} (h : s.LinesIn Fits) :
    Fits s.location.line := by
  cases s with
  | block | cond | whileLoop | forLoop | function => exact h.1
  | declare | assign | update | expression | ret | stop | next => exact h

theorem Stmt.optionalLinesIn_iff {Fits : Nat → Prop} {s : Option Stmt} :
    Stmt.OptionalLinesIn Fits s ↔ ∀ x ∈ s, x.LinesIn Fits := by
  cases s with
  | none => simp [Stmt.OptionalLinesIn]
  | some s => simp [Stmt.OptionalLinesIn]

mutual

theorem Stmt.linesIn_of_forall {Fits : Nat → Prop} (h : ∀ line, Fits line) :
    ∀ s : Stmt, s.LinesIn Fits
  | .declare .. => h _
  | .assign .. => h _
  | .update .. => h _
  | .expression .. => h _
  | .block _ body => ⟨h _, Script.linesIn_of_forall h body⟩
  | .cond _ _ yes no => ⟨h _, Script.linesIn_of_forall h yes, Script.optionalLinesIn_of_forall h no⟩
  | .whileLoop _ _ body => ⟨h _, Script.linesIn_of_forall h body⟩
  | .forLoop _ initial _ update body => ⟨h _, Stmt.optionalLinesIn_of_forall h initial,
      Stmt.optionalLinesIn_of_forall h update, Script.linesIn_of_forall h body⟩
  | .function _ _ _ body => ⟨h _, Script.linesIn_of_forall h body⟩
  | .ret .. => h _
  | .stop _ => h _
  | .next _ => h _

theorem Stmt.optionalLinesIn_of_forall {Fits : Nat → Prop} (h : ∀ line, Fits line) :
    ∀ s : Option Stmt, Stmt.OptionalLinesIn Fits s
  | none => trivial
  | some s => Stmt.linesIn_of_forall h s

theorem Script.linesIn_of_forall {Fits : Nat → Prop} (h : ∀ line, Fits line) :
    ∀ body : List Stmt, Script.LinesIn Fits body
  | [] => trivial
  | s :: rest => ⟨Stmt.linesIn_of_forall h s, Script.linesIn_of_forall h rest⟩

theorem Script.optionalLinesIn_of_forall {Fits : Nat → Prop} (h : ∀ line, Fits line) :
    ∀ body : Option (List Stmt), Script.OptionalLinesIn Fits body
  | none => trivial
  | some body => Script.linesIn_of_forall h body

end

/-! ## Congruences -/

namespace Script

/-- All actions of the evaluator within one body respect a relation. The first run has one step
budget, the second one another. -/
structure IsLocalCongruence (rel : ∀ {α : Type}, Exec α → Exec α → Prop) (b b' : Nat)
    (Fits : Nat → Prop) : Prop where
  rel_pure {α : Type} (x : α) : rel (pure x : Exec α) (pure x)
  rel_bind {α β : Type} {a a' : Exec α} {f f' : α → Exec β} :
    rel a a' → (∀ x, rel (f x) (f' x)) → rel (a >>= f) (a' >>= f')
  rel_visit {α : Type} {a a' : Exec α} : rel a a' → rel a.visit a'.visit
  rel_tick : rel (Exec.tick b) (Exec.tick b')
  rel_ofExcept {α : Type} {line : Nat} (x : Except RuntimeCause α) :
    Fits line → rel (Exec.ofExcept line x) (Exec.ofExcept line x)
  rel_lookup {line : Nat} (name : String) :
    Fits line → rel (Exec.lookup line name) (Exec.lookup line name)
  rel_assign {line : Nat} (name : String) (v : Slot) :
    Fits line → rel (Exec.assign line name v) (Exec.assign line name v)
  rel_declare (kind : DeclarationKind) (name : String) (v : Slot) :
    rel (Exec.declare kind name v) (Exec.declare kind name v)
  rel_push {line : Nat} (name : String) (items : List Value) :
    Fits line → rel (Exec.push line name items) (Exec.push line name items)
  rel_log (args : List Slot) : rel (Exec.log args) (Exec.log args)
  rel_captureNote {line : Nat} (note : String) :
    Fits line → rel (captureNote line note) (captureNote line note)
  rel_defineOnce {p : Procedure} (name : String) :
    LinesIn Fits p.body → rel (defineOnce name p) (defineOnce name p)
  rel_leaveCall {line : Nat} : Fits line →
    rel (leave line (·.scopes.isEmpty) .strayReturn .normal)
      (leave line (·.scopes.isEmpty) .strayReturn .normal)
  rel_leaveLoop {line : Nat} (cause : RuntimeCause) (flow : Flow) : Fits line →
    rel (leave line (·.loopDepth == 0) cause flow) (leave line (·.loopDepth == 0) cause flow)
  rel_loop {round round' : Exec (Option Flow)} :
    rel round round' → rel (loop b round) (loop b' round')

/-- All actions of the evaluator respect a relation, calls included. -/
structure IsCongruence (rel : ∀ {α : Type}, Exec α → Exec α → Prop) (b b' : Nat)
    (Fits : Nat → Prop) : Prop extends IsLocalCongruence @rel b b' Fits where
  rel_find {α : Type} {line : Nat} {f f' : Procedure → Exec α} (name : String) : Fits line →
    (∀ p : Procedure, LinesIn Fits p.body → rel (f p) (f' p)) →
      rel (find line name >>= f) (find line name >>= f')
  rel_inCall {α : Type} {line : Nat} {p : Procedure} {a a' : Exec α} (name : String)
    (args : List Slot) : Fits line → LinesIn Fits p.body → rel a a' →
      rel (inCall name p args line a) (inCall name p args line a')

/-- Calls from the lines that fit are related. -/
def CallAction.Related (rel : ∀ {α : Type}, Exec α → Exec α → Prop) (Fits : Nat → Prop)
    (call call' : CallAction) : Prop :=
  ∀ name args line, Fits line → rel (call name args line) (call' name args line)

namespace IsLocalCongruence

variable {rel : ∀ {α : Type}, Exec α → Exec α → Prop} {b b' line : Nat} {Fits : Nat → Prop}
  {call call' : CallAction}

/-! ### Expressions -/

theorem invoke (h : IsLocalCongruence @rel b b' Fits) (hline : Fits line)
    (hcall : CallAction.Related @rel Fits call call') (callee : Callee) (args : List Slot) :
    rel (invoke call callee args line) (invoke call' callee args line) := by
  cases callee with
  | function name => exact hcall name args line hline
  | log => exact h.rel_bind (h.rel_log args) fun _ => h.rel_pure none
  | math name => exact h.rel_ofExcept _ hline
  | push target => exact h.rel_push target _ hline
  | member path => exact h.rel_ofExcept (.error (.notCallable path)) hline
  | computed => exact h.rel_ofExcept (.error .computedCallee) hline

mutual

theorem evaluate (h : IsLocalCongruence @rel b b' Fits) (hline : Fits line)
    (hcall : CallAction.Related @rel Fits call call') :
    ∀ e : Expr, rel (evaluate call line e) (Script.evaluate call' line e)
  | .literal v => h.rel_visit (h.rel_pure (some v))
  | .name name => h.rel_visit (h.rel_lookup name hline)
  | .array items => h.rel_visit (h.rel_bind (evaluateAll h hline hcall items) fun _ => h.rel_pure _)
  | .object fields =>
    h.rel_visit (h.rel_bind (evaluateFields h hline hcall fields) fun _ => h.rel_pure _)
  | .unary op operand =>
    h.rel_visit (h.rel_bind (evaluate h hline hcall operand) fun _ => h.rel_pure _)
  | .binary op left right => by
    unfold Script.evaluate
    refine h.rel_visit (h.rel_bind (evaluate h hline hcall left) fun l => ?_)
    split
    · split
      · exact evaluate h hline hcall right
      · exact h.rel_pure l
    · split
      · exact h.rel_pure l
      · exact evaluate h hline hcall right
    · refine h.rel_bind (evaluate h hline hcall right) fun r => ?_
      exact h.rel_bind (h.rel_ofExcept _ hline) fun _ => h.rel_pure _
  | .ternary condition yes no => by
    unfold Script.evaluate
    refine h.rel_visit (h.rel_bind (evaluate h hline hcall condition) fun test => ?_)
    split
    · exact evaluate h hline hcall yes
    · exact evaluate h hline hcall no
  | .index target index => by
    unfold Script.evaluate
    refine h.rel_visit (h.rel_bind (evaluate h hline hcall target) fun t => ?_)
    refine h.rel_bind (evaluate h hline hcall index) fun i => ?_
    exact h.rel_bind (h.rel_ofExcept _ hline) fun _ => h.rel_pure _
  | .member target property => by
    unfold Script.evaluate
    refine h.rel_visit (h.rel_bind (evaluate h hline hcall target) fun t => ?_)
    exact h.rel_bind (h.rel_ofExcept _ hline) fun _ => h.rel_pure _
  | .call callee args => by
    unfold Script.evaluate
    refine h.rel_visit (h.rel_bind (evaluateAll h hline hcall args) fun _ => ?_)
    exact invoke h hline hcall _ _

theorem evaluateAll (h : IsLocalCongruence @rel b b' Fits) (hline : Fits line)
    (hcall : CallAction.Related @rel Fits call call') :
    ∀ items : List Expr,
      rel (evaluateAll call line items) (Script.evaluateAll call' line items)
  | [] => h.rel_pure []
  | e :: rest =>
    h.rel_bind (evaluate h hline hcall e) fun _ =>
      h.rel_bind (evaluateAll h hline hcall rest) fun _ => h.rel_pure _

theorem evaluateFields (h : IsLocalCongruence @rel b b' Fits) (hline : Fits line)
    (hcall : CallAction.Related @rel Fits call call') :
    ∀ fields : List (String × Expr),
      rel (evaluateFields call line fields) (Script.evaluateFields call' line fields)
  | [] => h.rel_pure []
  | (_, e) :: rest =>
    h.rel_bind (evaluate h hline hcall e) fun _ =>
      h.rel_bind (evaluateFields h hline hcall rest) fun _ => h.rel_pure _

end

theorem evaluateOr (h : IsLocalCongruence @rel b b' Fits) (hline : Fits line)
    (hcall : CallAction.Related @rel Fits call call')
    (default : Slot) (e : Option Expr) :
    rel (evaluateOr call line default e) (Script.evaluateOr call' line default e) := by
  cases e with
  | none => exact h.rel_pure default
  | some e => exact evaluate h hline hcall e

/-! ### Simple statements and loops -/

section

variable (h : IsLocalCongruence @rel b b' Fits)
include h

theorem captureIf (shown : Bool) (note? : Option String) (hline : Fits line) :
    rel (captureIf shown line note?) (Script.captureIf shown line note?) := by
  unfold Script.captureIf
  split
  · exact h.rel_captureNote _ hline
  · exact h.rel_pure ()

theorem declareVariable (hline : Fits line)
    (hcall : CallAction.Related @rel Fits call call')
    (shown : Bool) (kind : DeclarationKind) (name : String) (initial : Option Expr) :
    rel (declareVariable call shown line kind name initial)
      (Script.declareVariable call' shown line kind name initial) := by
  cases initial with
  | none => exact h.rel_declare kind name none
  | some e =>
    refine h.rel_bind (evaluate h hline hcall e) fun v => ?_
    exact h.rel_bind (h.rel_declare kind name v) fun _ => captureIf h shown _ hline

theorem assignVariable (hline : Fits line) (name : String) (v : Slot) (op : Option BinaryOp) :
    rel (assignVariable line name v op) (Script.assignVariable line name v op) := by
  cases op with
  | none => exact h.rel_assign name v hline
  | some op =>
    refine h.rel_bind (h.rel_lookup name hline) fun old => ?_
    exact h.rel_bind (h.rel_ofExcept _ hline) fun v => h.rel_assign name _ hline

theorem afterBody {update update' : Exec Unit} (hupdate : rel update update') (flow : Flow) :
    rel (afterBody update flow) (Script.afterBody update' flow) := by
  cases flow with
  | stop | ret => exact h.rel_pure _
  | normal | next => exact h.rel_bind hupdate fun _ => h.rel_pure _

theorem loopRound {test test' : Exec Slot} {update update' : Exec Unit} {body body' : Exec Flow}
    (htest : rel test test') (hupdate : rel update update') (hbody : rel body body') :
    rel (loopRound test update body) (Script.loopRound test' update' body') := by
  refine h.rel_bind htest fun v => ?_
  split
  · exact h.rel_bind hbody fun flow => afterBody h hupdate flow
  · exact h.rel_pure _

theorem started {α : Type} {a a' : Exec α} (ha : rel a a') :
    rel (Exec.visit (do Exec.tick b; a)) (Exec.visit (do Exec.tick b'; a')) :=
  h.rel_visit (h.rel_bind h.rel_tick fun _ => ha)

end

/-! ### Statements -/

mutual

/-- Related calls make related statements, whatever the statement is. -/
theorem exec (h : IsLocalCongruence @rel b b' Fits)
    (hcall : CallAction.Related @rel Fits call call') (instrumented : Bool) :
    ∀ s : Stmt, s.LinesIn Fits →
      rel (exec b call instrumented s) (Script.exec b' call' instrumented s)
  | .declare l kind name initial, hs => by
    unfold Script.exec
    refine started h (h.rel_bind ?_ fun _ => h.rel_pure _)
    exact declareVariable h hs hcall instrumented kind name initial
  | .assign l target op e, hs => by
    unfold Script.exec
    refine started h (h.rel_bind (evaluate h hs hcall e) fun v => ?_)
    exact h.rel_bind (assignVariable h hs target v op) fun _ => h.rel_pure _
  | .update l target delta, hs => by
    unfold Script.exec
    exact started h (h.rel_bind (assignVariable h hs target _ _) fun _ => h.rel_pure _)
  | .expression l e, hs => by
    unfold Script.exec
    refine started h (h.rel_bind (evaluate h hs hcall e) fun _ => ?_)
    exact h.rel_bind (captureIf h instrumented _ hs) fun _ => h.rel_pure _
  | .block l body, hs => by
    unfold Script.exec
    exact started h (execBlock h hcall body hs.2)
  | .cond l condition yes no, ⟨hs, hyes, hno⟩ => by
    unfold Script.exec
    refine started h (h.rel_bind (evaluate h hs hcall condition) fun test => ?_)
    split
    · exact execBlock h hcall yes hyes
    · exact execElse h hcall no hno
  | .whileLoop l condition body, ⟨hs, hbody⟩ => by
    unfold Script.exec
    refine started h (h.rel_loop ?_)
    exact loopRound h (evaluate h hs hcall condition) (h.rel_pure ()) (execBlock h hcall body hbody)
  | .forLoop l initial condition update body, ⟨hs, hinitial, hupdate, hbody⟩ => by
    unfold Script.exec
    refine started h (h.rel_bind (execClause h hcall initial hinitial) fun _ => h.rel_loop ?_)
    exact loopRound h (evaluateOr h hs hcall _ condition) (execClause h hcall update hupdate)
      (execBlock h hcall body hbody)
  | .function l name params body, ⟨hs, hbody⟩ => by
    unfold Script.exec
    exact started h (h.rel_bind (h.rel_defineOnce name hbody) fun _ => h.rel_pure _)
  | .ret l value, hs => by
    unfold Script.exec
    refine started h (h.rel_bind (h.rel_leaveCall hs) fun _ => ?_)
    exact h.rel_bind (evaluateOr h hs hcall none value) fun _ => h.rel_pure _
  | .stop l, hs => by
    unfold Script.exec
    exact started h (h.rel_leaveLoop _ _ hs)
  | .next l, hs => by
    unfold Script.exec
    exact started h (h.rel_leaveLoop _ _ hs)

theorem execClause (h : IsLocalCongruence @rel b b' Fits)
    (hcall : CallAction.Related @rel Fits call call') :
    ∀ s : Option Stmt, Stmt.OptionalLinesIn Fits s →
      rel (execClause b call s) (Script.execClause b' call' s)
  | none, _ => h.rel_pure ()
  | some s, hs => h.rel_bind (exec h hcall false s hs) fun _ => h.rel_pure ()

theorem execBlock (h : IsLocalCongruence @rel b b' Fits)
    (hcall : CallAction.Related @rel Fits call call') :
    ∀ body : List Stmt, LinesIn Fits body →
      rel (execBlock b call body) (Script.execBlock b' call' body)
  | [], _ => h.rel_pure Flow.normal
  | s :: rest, ⟨hs, hrest⟩ => by
    unfold Script.execBlock
    refine h.rel_bind (exec h hcall true s hs) fun flow => ?_
    cases flow with
    | normal => exact execBlock h hcall rest hrest
    | stop | next | ret => exact h.rel_pure _

theorem execElse (h : IsLocalCongruence @rel b b' Fits)
    (hcall : CallAction.Related @rel Fits call call') :
    ∀ body : Option (List Stmt), OptionalLinesIn Fits body →
      rel (execElse b call body) (Script.execElse b' call' body)
  | none, _ => h.rel_pure Flow.normal
  | some body, hbody => execBlock h hcall body hbody

end

end IsLocalCongruence

namespace IsCongruence

/-! ### Programs -/

section

variable {rel : ∀ {α : Type}, Exec α → Exec α → Prop} {Fits : Nat → Prop} {l l' : Limits}
  (h : IsCongruence @rel l.stepBudget l'.stepBudget Fits)
  (hdepth : l.callDepth = l'.callDepth)
include h hdepth

/-- By induction on the levels that are left: a body is executed with calls of fewer levels. -/
theorem callWithin (levels : Nat) (name : String) (args : List Slot) (line : Nat)
    (hline : Fits line) :
    rel (callWithin l levels name args line) (Script.callWithin l' levels name args line) := by
  induction levels generalizing name args line with
  | zero =>
    unfold Script.callWithin
    rw [hdepth]
    exact h.rel_visit (h.rel_find name hline fun _ _ => h.rel_ofExcept _ hline)
  | succ levels ih =>
    unfold Script.callWithin
    refine h.rel_visit (h.rel_find name hline fun p hp => ?_)
    refine h.rel_bind (h.rel_inCall name args hline hp ?_) fun _ => h.rel_pure _
    exact h.execBlock ih p.body hp

/-- Every program relates its runs under two limits that differ in the step budget. -/
theorem program {program : Program} (hlines : LinesIn Fits program) :
    rel (Script.execBlock l.stepBudget (Script.call l) program)
      (Script.execBlock l'.stepBudget (Script.call l') program) := by
  refine h.execBlock (fun name args line hline => ?_) program hlines
  unfold Script.call
  rw [← hdepth]
  exact callWithin h hdepth l.callDepth name args line hline

end

end IsCongruence

end Script

end TraceTutor

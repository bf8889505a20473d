import TraceTutor.Proofs.CLike.RenamedStatements
import TraceTutor.Proofs.CLike.Run

/-!
# Renamed variables

What a line-stepped program does not depend on the names of its variables: when a variable is
renamed to a word that the program does not have, the run is the same with the variable renamed in
it (`run_renameSource`). The one exception are names that start with the characters of `using`,
which make a line inert (`run_renameSource_using_ne`).

Both programs are run side by side. Every line is a statement and its renamed statement
(`classify_renamed`), and the statements have the same effect on renamed states.
-/

namespace TraceTutor

/-! ## Renamed traces -/

namespace CLike

/-- The second text says of `y` what the first one says of `x`. Each constructor is a kind of note
that a step takes. -/
inductive RenamedEvent (x y : String) : String → String → Prop
  | initialized {a b : String} (h : Renames x y a b) (value : Int) :
    RenamedEvent x y s!"Variable {a} initialized to {value}" s!"Variable {b} initialized to {value}"
  | assigned {a b : String} (h : Renames x y a b) (value : Int) :
    RenamedEvent x y s!"Variable {a} assigned to {value}" s!"Variable {b} assigned to {value}"
  | incremented {a b : String} (h : Renames x y a b) (shown : String) :
    RenamedEvent x y s!"Variable {a} incremented to {shown}" s!"Variable {b} incremented to {shown}"
  | added {a b c d : String} (h : Renames x y a b) (h' : Renames x y c d) (shown : String) :
    RenamedEvent x y s!"Variable {a} += {c}, now {shown}" s!"Variable {b} += {d}, now {shown}"
  | holds {a b : String} (h : Renames x y a b) (shown : String) :
    RenamedEvent x y s!"Loop condition true, {a} = {shown}" s!"Loop condition true, {b} = {shown}"
  | printed {a b : String} (h : RenamedOutput x y a.toList b.toList) :
    RenamedEvent x y s!"Output: {a}" s!"Output: {b}"
  | called (argument : Int) (shown : String) :
    RenamedEvent x y s!"Function factorial({argument}) called, result = {shown}"
      s!"Function factorial({argument}) called, result = {shown}"

/-- The second note says of `y` what the first one says of `x`, on the same line. -/
inductive RenamedNote (x y : String) (line : Nat) : String → String → Prop
  | event {a b : String} (h : RenamedEvent x y a b) :
    RenamedNote x y line s!"Line {line}: {a}" s!"Line {line}: {b}"
  | analyzed : RenamedNote x y line "Code analyzed" "Code analyzed"

/-- Both texts are conditions of loops, the second one with `y` in place of `x`. -/
def RenamedCondition (x y a b : String) : Prop :=
  ∃ c c' : LoopCondition, c.Renamed x y c' ∧ a = c.render ∧ b = c'.render

/-- The outputs agree line by line, but for words `x` that no value has replaced. -/
abbrev RenamedLines (x y : String) : List String → List String → Prop :=
  List.Forall₂ fun a b => RenamedOutput x y a.toList b.toList

end CLike

open CLike

/-- The second snapshot is the first one where the variable `x` is called `y`. The parameter of an
active call is no variable of the program, and keeps its name. -/
structure Snapshot.Renamed (x y : String) (s s' : Snapshot) : Prop where
  index_eq : s'.index = s.index
  line_eq : s'.line = s.line
  bindings : Bindings.Renamed x y s.bindings s'.bindings
  callStack_eq : s'.callStack = s.callStack
  emitted : RenamedLines x y s.emitted s'.emitted
  condition : Option.Rel (RenamedCondition x y) s.condition s'.condition
  note : Option.Rel (RenamedNote x y s.line) s.note s'.note

/-- The second run is the first one where the variable `x` is called `y`. -/
structure Run.Renamed (x y : String) (r r' : Run) : Prop where
  trace : List.Forall₂ (Snapshot.Renamed x y) r.trace r'.trace
  output : RenamedLines x y r.output r'.output
  fault_eq : r'.fault = r.fault
  truncated_eq : r'.truncated = r.truncated

/-- The second recorder has recorded with `y` what the first one has recorded with `x`. -/
structure Recorder.Renamed (x y : String) (r r' : Recorder) : Prop where
  trace : List.Forall₂ (Snapshot.Renamed x y) r.trace r'.trace
  output : RenamedLines x y r.output.toList r'.output.toList
  stack_eq : r'.stack = r.stack

namespace Recorder.Renamed

variable {x y : String} {r r' : Recorder}

theorem empty (x y : String) : Recorder.Renamed x y .empty .empty :=
  ⟨.nil, .nil, rfl⟩

theorem commit (h : Recorder.Renamed x y r r') (line : Nat) {b b' : Bindings}
    (hb : Bindings.Renamed x y b b') {condition condition' : Option String}
    (hcondition : Option.Rel (RenamedCondition x y) condition condition') {text other : String}
    (htext : RenamedEvent x y text other) :
    Recorder.Renamed x y (r.commit line b condition (some s!"Line {line}: {text}"))
      (r'.commit line b' condition' (some s!"Line {line}: {other}")) := by
  refine ⟨?_, h.output, h.stack_eq⟩
  have hindex : r'.trace.length + 1 = r.trace.length + 1 := congrArg (· + 1) h.trace.length_eq.symm
  have hframes : r'.stack.frames = r.stack.frames := by rw [h.stack_eq]
  rw [trace_commit, trace_commit]
  exact List.rel_append h.trace
    (.cons ⟨hindex, rfl, hb, hframes, h.output, hcondition, .some (.event htext)⟩ .nil)

theorem emit (h : Recorder.Renamed x y r r') {text text' : String}
    (htext : RenamedOutput x y text.toList text'.toList) :
    Recorder.Renamed x y (r.emit text) (r'.emit text') := by
  refine ⟨h.trace, ?_, h.stack_eq⟩
  rw [output_emit, output_emit, Array.toList_push, Array.toList_push]
  exact List.rel_append h.output (.cons htext .nil)

theorem pushFrame (h : Recorder.Renamed x y r r') (frame : Frame) :
    Recorder.Renamed x y (r.pushFrame frame) (r'.pushFrame frame) := by
  refine ⟨h.trace, h.output, ?_⟩
  rw [stack_pushFrame, stack_pushFrame, h.stack_eq]

theorem popFrame (h : Recorder.Renamed x y r r') :
    Recorder.Renamed x y r.popFrame r'.popFrame := by
  refine ⟨h.trace, h.output, ?_⟩
  rw [stack_popFrame, stack_popFrame, h.stack_eq]

end Recorder.Renamed

namespace CLike

/-! ## Loops -/

section Braces

variable {lines lines' : List (List Char)} (h : lines.map braceDelta = lines'.map braceDelta)
include h

theorem bodyLength_congr (depth : Int) : bodyLength depth lines = bodyLength depth lines' := by
  induction lines generalizing lines' depth with
  | nil =>
    obtain rfl := List.map_eq_nil_iff.1 h.symm
    rfl
  | cons line lines ih =>
    cases lines' with
    | nil => cases h
    | cons line' lines' =>
      obtain ⟨hline, hlines⟩ := List.cons.inj h
      rw [bodyLength, bodyLength, hline, ih hlines]

theorem skipBody_congr (head : Nat) : skipBody lines head = skipBody lines' head := by
  have hdrop : (lines.drop (head + 1)).map braceDelta =
      (lines'.drop (head + 1)).map braceDelta := by
    rw [List.map_drop, List.map_drop, h]
  rw [skipBody, skipBody, bodyLength_congr hdrop]

theorem findHeadFrom_congr (depth : Int) (position : Nat) :
    findHeadFrom lines depth position = findHeadFrom lines' depth position := by
  have hline : ∀ position : Nat,
      lines[position]?.elim 0 braceDelta = lines'[position]?.elim 0 braceDelta := by
    have helim : ∀ line? : Option (List Char),
        line?.elim 0 braceDelta = (line?.map braceDelta).getD 0 := by
      intro line?
      cases line? <;> rfl
    intro position
    rw [helim, helim, ← List.getElem?_map, ← List.getElem?_map, h]
  induction position generalizing depth with
  | zero => rfl
  | succ position ih => simp only [findHeadFrom, hline, ih]

theorem findHead_congr (close : Nat) : findHead lines close = findHead lines' close := by
  have hlength : lines.length = lines'.length := by simpa using congrArg List.length h
  rw [findHead, findHead, findHeadFrom_congr h, hlength]

end Braces

namespace LoopCondition.Renamed

variable {x y : String} {c c' : LoopCondition} {b b' : Bindings}

theorem currentValue_eq (h : c.Renamed x y c') (hb : Bindings.Renamed x y b b') :
    c'.currentValue b' = c.currentValue b := by
  obtain ⟨hfresh, hname⟩ := h.name
  rw [currentValue, currentValue, hname, hb.get?_eq hfresh]

theorem holds_eq (h : c.Renamed x y c') (hb : Bindings.Renamed x y b b') :
    c'.holds b' = c.holds b := by
  rw [holds, holds, h.currentValue_eq hb, h.comparison_eq, h.limit_eq]

end LoopCondition.Renamed

/-! ## The simulation -/

namespace Stepper

/-- The second state is the first one where the variable `x` is called `y`. -/
structure Renamed (x y : String) (s s' : Stepper) : Prop where
  bindings : Bindings.Renamed x y s.bindings s'.bindings
  recorder : Recorder.Renamed x y s.recorder s'.recorder
  cursor_eq : s'.cursor = s.cursor

variable {x y : String} {s s' : Stepper}

theorem renamed_initial (x y : String) : initial.Renamed x y initial :=
  ⟨.empty x y, .empty x y, rfl⟩

namespace Renamed

theorem line_eq (h : s.Renamed x y s') : s'.line = s.line :=
  congrArg (· + 1) h.cursor_eq

theorem moveTo (h : s.Renamed x y s') (cursor : Nat) :
    (s.moveTo cursor).Renamed x y (s'.moveTo cursor) :=
  ⟨h.bindings, h.recorder, rfl⟩

theorem moveOn (h : s.Renamed x y s') : s.moveOn.Renamed x y s'.moveOn := by
  unfold Stepper.moveOn
  rw [h.cursor_eq]
  exact h.moveTo (s.cursor + 1)

theorem withRecorder (h : s.Renamed x y s') {r r' : Recorder} (hr : r.Renamed x y r') :
    Renamed x y { s with recorder := r } { s' with recorder := r' } :=
  ⟨h.bindings, hr, h.cursor_eq⟩

theorem capture (h : s.Renamed x y s') {condition condition' : Option String}
    (hcondition : Option.Rel (RenamedCondition x y) condition condition') {text text' : String}
    (htext : RenamedEvent x y text text') :
    (s.capture condition text).Renamed x y (s'.capture condition' text') := by
  unfold Stepper.capture
  rw [h.line_eq]
  exact h.withRecorder (h.recorder.commit s.line h.bindings hcondition htext)

theorem bind (h : s.Renamed x y s') {a b : String} (hname : Renames x y a b) {v : Value}
    (hv : v.IsNumeric) {text text' : String} (htext : RenamedEvent x y text text') :
    (s.bind a v text).Renamed x y (s'.bind b v text') := by
  obtain ⟨hfresh, rfl⟩ := hname
  have hset : Renamed x y { s with bindings := s.bindings.set a v }
      { s' with bindings := s'.bindings.set (rename x y a) v } :=
    ⟨h.bindings.set hfresh hv, h.recorder, h.cursor_eq⟩
  exact hset.capture .none htext

theorem valueOf_eq (h : s.Renamed x y s') {a b : String} (hname : Renames x y a b) :
    s'.valueOf b = s.valueOf a := by
  obtain ⟨hfresh, rfl⟩ := hname
  rw [Stepper.valueOf, Stepper.valueOf, h.bindings.get?_eq hfresh]

theorem isNumeric_valueOf (h : s.Renamed x y s') (name : String) :
    (s.valueOf name).IsNumeric := by
  unfold Stepper.valueOf
  cases hget : s.bindings.get? name with
  | none => trivial
  | some v => exact h.bindings.isNumeric_of_get? hget

theorem callFactorial (h : s.Renamed x y s') {a b : String} (hname : Renames x y a b)
    (argument : Int) : (s.callFactorial a argument).Renamed x y (s'.callFactorial b argument) := by
  have hpush := h.recorder.pushFrame ⟨"factorial", .ofList [("n", .int argument)], s.line⟩
  have hbind := (h.withRecorder hpush).bind hname (Value.isNumeric_factorial argument)
    (.called argument (factorial argument).display)
  unfold Stepper.callFactorial
  rw [h.line_eq]
  exact hbind.withRecorder hbind.recorder.popFrame

/-- Renamed statements have the same effect. -/
theorem effect (h : s.Renamed x y s') {statement statement' : Statement}
    (hstatement : statement.Renamed x y statement') :
    (s.effect statement).Renamed x y (s'.effect statement') := by
  cases hstatement with
  | passed ha hb => rcases ha with rfl | rfl <;> rcases hb with rfl | rfl <;> exact h
  | declare hname value => exact h.bind hname (Value.isNumeric_int value) (.initialized hname value)
  | assign hname value => exact h.bind hname (Value.isNumeric_int value) (.assigned hname value)
  | increment hname =>
    simp only [Stepper.effect, h.valueOf_eq hname]
    exact h.bind hname (Value.isNumeric_add (h.isNumeric_valueOf _) (Value.isNumeric_int 1))
      (.incremented hname _)
  | addAssign htarget hoperand =>
    simp only [Stepper.effect, h.valueOf_eq htarget, h.valueOf_eq hoperand]
    exact h.bind htarget (Value.isNumeric_add (h.isNumeric_valueOf _) (h.isNumeric_valueOf _))
      (.added htarget hoperand _)
  | output htext => exact (h.withRecorder (h.recorder.emit htext)).capture .none (.printed htext)
  | factorialCall hname argument => exact h.callFactorial hname argument
  | loopHead | closeBrace => exact h

end Renamed

section Step

variable (hx : IsVariable x) (hy : IsVariable y) (hkeeps : KeepsUsing x y)
  {lines lines' : List (List Char)} (hlines : List.Forall₂ (CLike.Renamed x y) lines lines')
  (h : s.Renamed x y s')

include hy hlines in
theorem map_braceDelta_eq : lines.map braceDelta = lines'.map braceDelta := by
  induction hlines with
  | nil => rfl
  | cons hline _ ih =>
    rw [List.map_cons, List.map_cons, hline.braceDelta_eq hy.isWordText, ih]

include hlines in
theorem getElem?_renamed (position : Nat) :
    Option.Rel (CLike.Renamed x y) lines[position]? lines'[position]? := by
  induction hlines generalizing position with
  | nil => exact .none
  | cons hline _ ih =>
    cases position with
    | zero => exact .some hline
    | succ position => exact ih position

include hy hlines h in
theorem enterLoop_renamed {c c' : LoopCondition} (hc : c.Renamed x y c') :
    (s.enterLoop lines c).Renamed x y (s'.enterLoop lines' c') := by
  have hskip := skipBody_congr (map_braceDelta_eq hy hlines) s.cursor
  unfold enterLoop
  rw [hc.holds_eq h.bindings, h.cursor_eq, ← hskip]
  split
  · refine Renamed.moveOn ?_
    unfold captureHead
    rw [hc.currentValue_eq h.bindings]
    exact h.capture (.some ⟨c, c', hc, rfl, rfl⟩) (.holds hc.name _)
  · exact h.moveTo _

include hx hy hlines h in
theorem backTarget?_eq : s'.backTarget? lines' = s.backTarget? lines := by
  unfold backTarget?
  rw [h.cursor_eq, ← findHead_congr (map_braceDelta_eq hy hlines)]
  cases findHead lines s.cursor with
  | none => rfl
  | some head =>
    have hhead := bind_rel (getElem?_renamed hlines head) fun _ _ => ofLine?_renamed hx hy
    simp only [Option.bind_eq_bind, Option.bind_some]
    rw [← Option.bind_assoc, ← Option.bind_assoc]
    generalize lines[head]?.bind LoopCondition.ofLine? = c? at hhead ⊢
    generalize lines'[head]?.bind LoopCondition.ofLine? = c'? at hhead ⊢
    cases hhead with
    | none => rfl
    | some hc => rw [Option.bind_some, Option.bind_some, hc.holds_eq h.bindings]

include hx hy hlines h in
theorem closeBlock_renamed : (s.closeBlock lines).Renamed x y (s'.closeBlock lines') := by
  unfold closeBlock
  rw [backTarget?_eq hx hy hlines h]
  split
  · exact h.moveTo _
  · exact h.moveOn

include hx hy hlines h in
theorem apply_renamed {statement statement' : Statement}
    (hstatement : statement.Renamed x y statement') :
    (s.apply lines statement).Renamed x y (s'.apply lines' statement') := by
  have heffect := (h.effect hstatement).moveOn
  cases hstatement with
  | passed ha hb => rcases ha with rfl | rfl <;> rcases hb with rfl | rfl <;> exact heffect
  | loopHead hc => exact enterLoop_renamed hy hlines h hc
  | closeBrace => exact closeBlock_renamed hx hy hlines h
  | declare | assign | increment | addAssign | output | factorialCall => exact heffect

include hx hy hkeeps hlines h in
/-- Renamed programs make the same step. -/
theorem step_renamed : (s.step lines).Renamed x y (s'.step lines') := by
  have hline := getElem?_renamed hlines s.cursor
  unfold step
  rw [h.cursor_eq]
  generalize lines[s.cursor]? = line? at hline ⊢
  generalize lines'[s.cursor]? = line'? at hline ⊢
  cases hline with
  | none => exact h
  | some hline =>
    exact apply_renamed hx hy hlines h (classify_renamed hx hy hkeeps h.bindings hline)

include hx hy hkeeps hlines h in
theorem after_renamed (n : Nat) : (s.after lines n).Renamed x y (s'.after lines' n) := by
  induction n with
  | zero => exact h
  | succ n ih =>
    rw [after_succ', after_succ']
    exact step_renamed hx hy hkeeps hlines ih

end Step

end Stepper

/-! ## Runs -/

theorem renamed_placeholder (x y : String) : placeholder.Renamed x y placeholder :=
  ⟨rfl, rfl, .empty x y, rfl, .nil, .none, .some .analyzed⟩

/-- A variable may be renamed to any word that the program does not have: the run is the same with
the variable renamed in it. -/
theorem run_renameSource (limits : Limits) {source x y : String} (hx : IsVariable x)
    (hy : IsVariable y) (hkeeps : KeepsUsing x y) (hfresh : y.toList ∉ parts source.toList) :
    (run limits source).Renamed x y (run limits (renameSource x y source)) := by
  have htext : Renamed x y source.toList (renameSource x y source).toList := by
    rw [renameSource, String.toList_ofList]
    exact renamed_renameWords hx.isWordText hfresh
  have hlines : List.Forall₂ (Renamed x y) (Text.lines source.toList)
      (Text.lines (renameSource x y source).toList) := Renamed.lines hy.isWordText htext
  have hfinal : (finalState limits source).Renamed x y
      (finalState limits (renameSource x y source)) :=
    Stepper.after_renamed hx hy hkeeps hlines (Stepper.renamed_initial x y) limits.iterationCap
  refine ⟨?_, ?_, ?_, ?_⟩
  · rw [run_trace, run_trace]
    rcases orPlaceholder_rel hfinal.recorder.trace with h | ⟨h, h'⟩
    · exact h
    · rw [h, h']
      exact .cons (renamed_placeholder x y) .nil
  · rw [run_output, run_output]
    exact hfinal.recorder.output
  · rw [run_fault, run_fault]
  · rw [run_truncated, run_truncated, Stepper.isRunning, Stepper.isRunning, hfinal.cursor_eq,
      hlines.length_eq]

/-- A program that shows the name of its variable before it is declared, and its value later. -/
def showCount : String :=
  "cout << \"count\";\nint count = 0;\nwhile (count < 2) \x7b\n  count++;\n" ++
    "  cout << \"count is \" << count << endl;\n\x7d\n"

theorem run_renameSource_showCount :
    IsVariable "count" ∧ IsVariable "n" ∧ KeepsUsing "count" "n" ∧
    "n".toList ∉ parts showCount.toList ∧
    (run ⟨50, 0, 0⟩ showCount).Renamed "count" "n"
      (run ⟨50, 0, 0⟩ (renameSource "count" "n" showCount)) ∧
    (run ⟨50, 0, 0⟩ showCount).output = ["count", "1 is 1", "2 is 2"] ∧
    (run ⟨50, 0, 0⟩ (renameSource "count" "n" showCount)).output = ["n", "1 is 1", "2 is 2"] := by
  have hx : IsVariable "count" := by decide
  have hy : IsVariable "n" := by decide
  have hkeeps : KeepsUsing "count" "n" := by decide
  have hfresh : "n".toList ∉ parts showCount.toList := by decide +kernel
  refine ⟨hx, hy, hkeeps, hfresh, run_renameSource _ hx hy hkeeps hfresh, ?_, ?_⟩
  all_goals decide +kernel

/-- A program that assigns a variable twice. -/
def assignTwice : String :=
  "int i = 1;\ni = 2;\n"

/-- A variable whose name starts with the characters of `using` is not assigned: the line is taken
for a directive. -/
theorem run_renameSource_using_ne :
    IsVariable "i" ∧ IsVariable "using_i" ∧ "using_i".toList ∉ parts assignTwice.toList ∧
    renameSource "i" "using_i" assignTwice = "int using_i = 1;\nusing_i = 2;\n" ∧
    ¬(run .standard assignTwice).Renamed "i" "using_i"
      (run .standard (renameSource "i" "using_i" assignTwice)) := by
  refine ⟨by decide, by decide, by decide +kernel, by decide +kernel, fun h => ?_⟩
  have hlength : (run .standard assignTwice).trace.length ≠
      (run .standard (renameSource "i" "using_i" assignTwice)).trace.length := by
    decide +kernel
  exact hlength h.trace.length_eq

end CLike

end TraceTutor

import TraceTutor.Proofs.NameMap
import TraceTutor.Proofs.Script.Invariant
import TraceTutor.Proofs.Script.Parsing
import TraceTutor.Script.StaticAnalysis

/-!
# Traces of scripts

The trace of a script comes from its run, or from its analysis if the run recorded nothing. Both are
well formed: the lines of a running program are those of its statements, and the analysis goes over
the lines of the text (`wellFormed_runOrAnalyze`).
-/

namespace TraceTutor

namespace Script

/-! ## Running -/

/-- The record of a machine is well formed and stays so, as all functions stand on lines of the
text. -/
structure WellFormed (count : Nat) (m : Machine) : Prop where
  recorder : m.recorder.WellFormed count
  linesIn : ∀ name p, m.procedures.get? name = some p → LinesIn (IsLine count) p.body

namespace WellFormed

variable {count : Nat} {m m' : Machine}

theorem of_eq (h : WellFormed count m) (hrecorder : m'.recorder = m.recorder)
    (hprocedures : m'.procedures = m.procedures) : WellFormed count m' :=
  ⟨hrecorder ▸ h.recorder, hprocedures ▸ h.linesIn⟩

theorem define (h : WellFormed count m) {name : String} {p : Procedure}
    (hp : LinesIn (IsLine count) p.body) : WellFormed count (m.define name p) := by
  refine ⟨h.recorder, fun key q hq => ?_⟩
  rw [Machine.define, NameMap.get?_set] at hq
  by_cases hkey : key = name
  · rw [if_pos hkey] at hq
    cases hq
    exact hp
  · rw [if_neg hkey] at hq
    exact h.linesIn key q hq

theorem initial (count : Nat) : WellFormed count Machine.initial :=
  ⟨.empty count, fun name p hp => by cases hp⟩

end WellFormed

theorem isInvariant_wellFormed (count : Nat) : IsInvariant (WellFormed count) (IsLine count) where
  step hm := hm.of_eq rfl rfl
  loopDepth _ hm := hm.of_eq rfl rfl
  declare kind name v hm :=
    hm.of_eq (Machine.recorder_declare _ kind name v) (Machine.procedures_declare _ kind name v)
  assign hm' hm := by
    obtain ⟨change, rfl⟩ := Machine.exists_of_assign hm'
    exact hm.of_eq (Machine.recorder_updateScopeOf _ _ _) (Machine.procedures_updateScopeOf _ _ _)
  push hm' hm := by
    obtain ⟨change, rfl⟩ := Machine.exists_of_push hm'
    exact hm.of_eq (Machine.recorder_updateScopeOf _ _ _) (Machine.procedures_updateScopeOf _ _ _)
  log args hm := ⟨hm.recorder.emit _, hm.linesIn⟩
  capture note hline hm := ⟨hm.recorder.commit hline _ _ _, hm.linesIn⟩
  define _ hp hm := hm.define hp
  linesIn hm hget := hm.linesIn _ _ hget
  enter _ _ hline hm := ⟨hm.recorder.pushFrame hline, hm.linesIn⟩
  leaveCall _ hm := ⟨hm.recorder.popFrame, hm.linesIn⟩

theorem wellFormed_execute (limits : Limits) {count : Nat} {program : Program}
    (h : LinesIn (IsLine count) program) : WellFormed count (execute limits program).machine := by
  have hinvariant := isInvariant_wellFormed count
  have hcongruence := hinvariant.isCongruence limits.stepBudget limits.stepBudget
  exact hcongruence.program rfl h _ (hinvariant.hoist h (.initial count))

theorem isLine_lastLine {source : String} (h : Text.lines source.toList ≠ []) :
    IsLine (Text.lines source.toList).length (lastLine source) := by
  have hlength := List.length_pos_iff.2 h
  unfold IsLine lastLine
  omega

/-- What a run of a script records is well formed. -/
theorem wellFormed_run (limits : Limits) {source : String} (h : Text.lines source.toList ≠ []) :
    Trace.WellFormed (Text.lines source.toList).length (run limits source).output
      (run limits source).trace := by
  unfold run
  cases hprogram : parseProgram source with
  | error fault => exact .nil _ _
  | ok program =>
    have hexecute := wellFormed_execute limits (linesIn_of_parseProgram hprogram)
    dsimp only
    unfold Outcome.toRun
    split
    · exact (hexecute.recorder.commit (isLine_lastLine h) _ _ _).trace
    · exact hexecute.recorder.trace
    · exact hexecute.recorder.trace

/-! ## Analysis -/

namespace Analysis

/-- The record of an analysis of a text of `count` lines, which writes nothing. -/
structure WellFormed (count : Nat) (a : Analysis) : Prop where
  recorder : a.recorder.WellFormed count
  output : a.recorder.output = #[]

namespace WellFormed

variable {count line : Nat} {a : Analysis}

theorem capture (h : WellFormed count a) (hline : IsLine count line) (note : String) :
    WellFormed count (a.capture line note) :=
  ⟨h.recorder.commit hline _ _ _, h.output⟩

theorem declare (h : WellFormed count a) (hline : IsLine count line) (name : String)
    (initial : List Char) : WellFormed count (a.declare line name initial) := by
  unfold Analysis.declare
  split
  · refine capture ?_ hline _
    exact ⟨h.recorder, h.output⟩
  · refine capture ?_ hline _
    exact ⟨h.recorder, h.output⟩

theorem readLine (h : WellFormed count a) (hline : IsLine count line) (text : List Char) :
    WellFormed count (a.readLine line text) :=
  readLine_induction h (h.declare hline) (fun _ note ha => ha.capture hline note) text

theorem readLines (h : WellFormed count a) (hline : 1 ≤ line) {texts : List (List Char)}
    (hcount : line + texts.length ≤ count + 1) : WellFormed count (a.readLines line texts) := by
  induction texts generalizing a line with
  | nil => exact h
  | cons text rest ih =>
    rw [List.length_cons] at hcount
    have hfirst := h.readLine (⟨hline, by omega⟩ : IsLine count line) text
    exact ih hfirst (by omega) (by omega)

end WellFormed

end Analysis

theorem analyze_ne_nil (source : String) : analyze source ≠ [] := by
  unfold analyze
  dsimp only
  split
  next => simp
  next hempty =>
    rw [Recorder.isEmpty_iff_trace] at hempty
    exact hempty

section

variable {source : String} (h : Text.lines source.toList ≠ [])

include h

/-- An analysis shows no output, so it fits a run with any output. -/
theorem wellFormed_analyze (output : List String) :
    Trace.WellFormed (Text.lines source.toList).length output (analyze source) := by
  have hlength := List.length_pos_iff.2 h
  have hempty : Analysis.WellFormed (Text.lines source.toList).length .empty := ⟨.empty _, rfl⟩
  have hread := hempty.readLines (Nat.le_refl 1)
    (show 1 + (Text.lines source.toList).length ≤ (Text.lines source.toList).length + 1 by omega)
  have houtput := congrArg Array.toList hread.output
  unfold analyze
  dsimp only
  split
  · have hcommit :=
      hread.recorder.commit ⟨Nat.le_refl 1, hlength⟩ .empty none (some "Code executed")
    refine hcommit.trace.mono_output ?_
    rw [Recorder.output_commit, houtput]
    exact List.nil_prefix
  · refine hread.recorder.trace.mono_output ?_
    rw [houtput]
    exact List.nil_prefix

theorem wellFormed_runOrAnalyze (limits : Limits) :
    Trace.WellFormed (Text.lines source.toList).length (runOrAnalyze limits source).output
      (runOrAnalyze limits source).trace := by
  unfold runOrAnalyze
  dsimp only
  split
  · exact wellFormed_analyze h _
  · exact wellFormed_run limits h

end

theorem runOrAnalyze_trace_ne_nil (limits : Limits) (source : String) :
    (runOrAnalyze limits source).trace ≠ [] := by
  unfold runOrAnalyze
  dsimp only
  split
  next => exact analyze_ne_nil source
  next hempty => simpa using hempty

end Script

end TraceTutor

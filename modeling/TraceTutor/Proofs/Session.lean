import TraceTutor.Proofs.CLike.Run
import TraceTutor.Proofs.Script.WellFormed
import TraceTutor.Session

/-!
# Reports are well formed

Every request with a source that is not blank is answered, and the answer holds a well-formed trace,
whatever the language, the limits and the end of the run: `Request.exists_wellFormed_report`.
-/

namespace TraceTutor

theorem lines_ne_nil_of_not_isAllBlank {source : String}
    (h : Text.isAllBlank source.toList = false) : Text.lines source.toList ≠ [] := by
  refine Text.lines_ne_nil fun hnil => ?_
  rw [hnil] at h
  cases h

namespace Language

variable (language : Language) (limits : Limits) (source : String)

theorem run_trace_ne_nil : (language.run limits source).trace ≠ [] := by
  cases language with
  | cLike => exact CLike.run_trace_ne_nil limits source
  | script => exact Script.runOrAnalyze_trace_ne_nil limits source

theorem wellFormed_run (h : Text.lines source.toList ≠ []) :
    Trace.WellFormed (Text.lines source.toList).length (language.run limits source).output
      (language.run limits source).trace := by
  cases language with
  | cLike => exact CLike.wellFormed_run limits source h
  | script => exact Script.wellFormed_runOrAnalyze h limits

end Language

/-- A document of a report tells success exactly if it tells no error. -/
theorem Report.toDocument_success (report : Report) (elapsed : Nat) :
    ∃ fields, report.toDocument elapsed = .object fields ∧
      (fields.lookup "success" = some (.bool true) ↔ fields.lookup "error" = none) ∧
      (fields.lookup "error" = none ↔ report.run.fault = none) := by
  refine ⟨_, rfl, ?_⟩
  cases hfault : report.run.fault with
  | none => simp [Run.succeeded, hfault, Snapshot.optionalField, List.lookup_cons]
  | some fault => simp [Run.succeeded, hfault, Snapshot.optionalField, List.lookup_cons]

theorem Request.execute_eq_ok (request : Request) (limits : Limits)
    (h : Text.isAllBlank request.source.toList = false) :
    ∃ report, request.execute limits = .ok report ∧
      report.run = request.language.run limits request.source := by
  unfold execute
  rw [h]
  exact ⟨_, rfl, rfl⟩

/-- Every request is answered whose source is not blank. The trace of the answer is not empty and
well formed, and the answer tells success exactly if it tells no error. The run of a line-stepped
program has no fault, shows at most one call at a time and all output in the end. -/
theorem Request.exists_wellFormed_report (request : Request) (limits : Limits)
    (h : Text.isAllBlank request.source.toList = false) :
    ∃ report, request.execute limits = .ok report ∧
      report.run.trace ≠ [] ∧
      Trace.WellFormed (Text.lines request.source.toList).length report.run.output
        report.run.trace ∧
      (∀ elapsed, ∃ fields, report.toDocument elapsed = .object fields ∧
        (fields.lookup "success" = some (.bool true) ↔ fields.lookup "error" = none) ∧
        (fields.lookup "error" = none ↔ report.run.fault = none)) ∧
      (request.language = .cLike →
        report.run.fault = none ∧
        (∀ s ∈ report.run.trace, s.callStack.length ≤ 1) ∧
        report.run.trace.getLast?.map Snapshot.emitted = some report.run.output) := by
  have hlines := lines_ne_nil_of_not_isAllBlank h
  obtain ⟨report, hreport, hrun⟩ := request.execute_eq_ok limits h
  refine ⟨report, hreport, ?_, ?_, Report.toDocument_success report, fun hlanguage => ?_⟩
  · rw [hrun]
    exact Language.run_trace_ne_nil _ _ _
  · rw [hrun]
    exact Language.wellFormed_run _ _ _ hlines
  · rw [hrun, hlanguage]
    exact ⟨CLike.run_fault _ _, CLike.length_callStack_le _ _, CLike.emitted_getLast? _ _⟩

/-- A request whose program writes two lines before it calls a function that is missing. -/
def faultyRequest : Request :=
  ⟨"console.log(1);\nconsole.log(2);\nmissing(3);\n", .script, none⟩

theorem exists_report_faultyRequest :
    ∃ report, faultyRequest.execute .standard = .ok report ∧ report.run.trace ≠ [] ∧
      Trace.WellFormed 3 report.run.output report.run.trace := by
  have hlines : (Text.lines faultyRequest.source.toList).length = 3 := by decide +kernel
  obtain ⟨report, hreport, htrace, hwellFormed, -⟩ :=
    faultyRequest.exists_wellFormed_report .standard (by decide)
  rw [hlines] at hwellFormed
  exact ⟨report, hreport, htrace, hwellFormed⟩

end TraceTutor

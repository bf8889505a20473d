import TraceTutor.Proofs.Script.CallStack
import TraceTutor.Proofs.Script.Trail

/-!
# Endings of runs

A run completes, or a fault ends it, or the step budget does (`run_endings`). Only a completed run
has a snapshot of the final state. Whatever was recorded at any time is kept in the run, and where a
part of the program is interrupted, the run has exactly what was recorded until then.
-/

namespace TraceTutor

/-! ## What is recorded is kept -/

namespace Part

variable {limits : Limits} {p : Part} {m m' : Machine}

theorem grows_of_own (h : p.Own limits m m') : m.recorder.Grows m'.recorder := by
  cases h with
  | exits hexit =>
    cases hexit with
    | still | loop => exact .refl _
    | call => exact Recorder.grows_popFrame _
  | tick | enterLoop | define => exact .refl _
  | enterCall =>
    rw [Machine.enterCall, Machine.recorder_hoist]
    exact Recorder.grows_pushFrame _ _
  | declare =>
    rw [Machine.recorder_declare]
    exact .refl _
  | declareShown =>
    rw [Machine.capture, Machine.recorder_declare]
    exact Recorder.grows_commit _ _ _ _ _
  | assign _ _ hassign =>
    obtain ⟨change, rfl⟩ := Machine.exists_of_assign hassign
    rw [Machine.recorder_updateScopeOf]
    exact .refl _
  | push _ _ hpush =>
    obtain ⟨change, rfl⟩ := Machine.exists_of_push hpush
    rw [Machine.recorder_updateScopeOf]
    exact .refl _
  | log => exact Recorder.grows_emit _ _
  | capture => exact Recorder.grows_commit _ _ _ _ _

/-- By induction from the end of the trail: what a machine recorded is still there at the end. -/
theorem grows_of_mem_trail (h : m ∈ p.trail limits) :
    m.recorder.Grows (p.after limits).recorder := by
  refine (isChain_trail p).backwards_induction
    (fun m => m.recorder.Grows (p.after limits).recorder) _ ?_ (fun hne => ?_) m h
  · rintro m m' ⟨q, -, hown⟩ hm'
    exact (grows_of_own hown).trans hm'
  · rw [List.getLast_of_getLast?_eq_some (getLast?_trail limits p)]
    exact .refl _

end Part

/-! ## How runs end -/

namespace Script

variable (limits : Limits)

theorem grows_toRun (lastLine : Nat) (o : Outcome Flow) :
    o.machine.recorder.trace <+: (Outcome.toRun lastLine o).trace ∧
      (Outcome.toRun lastLine o).output = o.machine.recorder.output.toList := by
  unfold Outcome.toRun
  split
  · exact ⟨(Recorder.grows_commit _ _ _ _ _).trace, rfl⟩
  · exact ⟨List.prefix_rfl, rfl⟩
  · exact ⟨List.prefix_rfl, rfl⟩

/-- A program ends outside of all calls. -/
theorem scopes_execute (program : Program) : (execute limits program).machine.scopes = [] := by
  have hbalanced := (execBlock_contained (balanced_callWithin limits limits.callDepth)
    limits.stepBudget program).balanced (Machine.initial.hoist program)
  have hscopes := hbalanced.scopes
  rw [Machine.scopes_hoist] at hscopes
  exact List.length_eq_zero_iff.1 hscopes

/-- The last snapshot of a run that completed. -/
theorem exists_final_of_ok {program : Program} {flow : Flow} (lastLine : Nat)
    (h : (execute limits program).result = .ok flow) :
    let r := Outcome.toRun lastLine (execute limits program)
    r.fault = none ∧ r.truncated = false ∧ ∃ final, r.trace.getLast? = some final ∧
      final.note = some "Final state" ∧ final.line = lastLine ∧ final.callStack = [] ∧
      final.bindings = (execute limits program).machine.globals.locals ∧
      final.emitted = r.output := by
  obtain ⟨steps, -, ⟨-, hstack⟩, -⟩ := exists_records_execute limits program
  have hrun : Outcome.toRun lastLine (execute limits program) =
      ⟨((execute limits program).machine.capture lastLine "Final state").recorder.trace,
        (execute limits program).machine.recorder.output.toList, none, false⟩ := by
    unfold Outcome.toRun
    rw [h]
    rfl
  have hvisible : (execute limits program).machine.visible =
      (execute limits program).machine.globals.locals := by
    rw [Machine.visible, scopes_execute]
  have hcommit := Recorder.trace_commit (execute limits program).machine.recorder lastLine
    (execute limits program).machine.visible none (some "Final state")
  rw [hstack, hvisible] at hcommit
  have hlast := congrArg List.getLast? hcommit
  rw [List.getLast?_concat, ← hvisible] at hlast
  rw [hrun]
  exact ⟨rfl, rfl, _, hlast, rfl, rfl, rfl, hvisible, rfl⟩

theorem toRun_of_error {o : Outcome Flow} {i : Interrupt} (lastLine : Nat)
    (h : o.result = .error i) :
    let r := Outcome.toRun lastLine o
    r.trace = o.machine.recorder.trace ∧ r.output = o.machine.recorder.output.toList ∧
      (i = .budget ∧ r.fault = none ∧ r.truncated = true ∨
        ∃ f, i = .fault f ∧ r.fault = some f ∧ r.truncated = false) := by
  unfold Outcome.toRun
  rw [h]
  cases i with
  | fault f => exact ⟨rfl, rfl, .inr ⟨f, rfl, rfl, rfl⟩⟩
  | budget => exact ⟨rfl, rfl, .inl ⟨rfl, rfl, rfl⟩⟩

/-- A run that was interrupted has only what its steps recorded. -/
theorem not_final_of_error {program : Program} {i : Interrupt} (lastLine : Nat)
    (h : (execute limits program).result = .error i) :
    ∀ s ∈ (Outcome.toRun lastLine (execute limits program)).trace, s.note ≠ some "Final state" := by
  obtain ⟨steps, hsteps, ⟨htrace, -⟩, -⟩ := exists_records_execute limits program
  rw [(toRun_of_error lastLine h).1, show _ = steps from htrace]
  exact fun s hs => (hsteps s hs).not_final

/-- A run ends in one of three ways: it completes, and its last snapshot shows the final state; or a
fault ends it, or the step budget does, and then no snapshot shows the final state. What was
recorded at any time is kept, and of a part that is interrupted the run has exactly what was
recorded until its end. -/
theorem run_endings (source : String) :
    let r := run limits source
    (r.fault = none ∧ r.truncated = false ∧ (∃ program final, parseProgram source = .ok program ∧
        r.trace.getLast? = some final ∧ final.note = some "Final state" ∧
        final.line = max 1 (Text.lines source.toList).length ∧ final.callStack = [] ∧
        final.bindings = (execute limits program).machine.globals.locals ∧
        final.emitted = r.output) ∨
      r.fault ≠ none ∧ r.truncated = false ∧ (∀ s ∈ r.trace, s.note ≠ some "Final state") ∨
      r.fault = none ∧ r.truncated = true ∧ ∀ s ∈ r.trace, s.note ≠ some "Final state") ∧
    ∀ program, parseProgram source = .ok program →
      (∀ m ∈ (Part.ofProgram limits program).trail limits,
        m.recorder.trace <+: r.trace ∧ m.recorder.output.toList <+: r.output) ∧
      ∀ q i, (Part.ofProgram limits program).Reaches limits q →
        (q.outcome limits).result = .error i →
        r.trace = (q.after limits).recorder.trace ∧
          r.output = (q.after limits).recorder.output.toList ∧
          (i = .budget ∧ r.truncated = true ∨ ∃ f, i = .fault f ∧ r.fault = some f) := by
  intro r
  cases hparse : parseProgram source with
  | error fault =>
    have hrun : r = .failed (.syntactic fault) := by
      simp only [r, run, hparse]
    rw [hrun]
    exact ⟨.inr (.inl ⟨by simp [Run.failed], rfl, by simp [Run.failed]⟩), by simp⟩
  | ok program =>
    have hrun : r = Outcome.toRun (lastLine source) (execute limits program) := by
      simp only [r, run, hparse]
    rw [hrun]
    refine ⟨?_, fun _ heq => ?_⟩
    · cases hresult : (execute limits program).result with
      | ok flow =>
        obtain ⟨hfault, htruncated, final, hfinal⟩ :=
          exists_final_of_ok limits (lastLine source) hresult
        exact .inl ⟨hfault, htruncated, program, final, rfl, hfinal⟩
      | error i =>
        have hnotFinal := not_final_of_error limits (lastLine source) hresult
        obtain ⟨-, -, ⟨-, hfault, htruncated⟩ | ⟨f, -, hfault, htruncated⟩⟩ :=
          toRun_of_error (lastLine source) hresult
        · exact .inr (.inr ⟨hfault, htruncated, hnotFinal⟩)
        · exact .inr (.inl ⟨by rw [hfault]; simp, htruncated, hnotFinal⟩)
    · cases heq
      obtain ⟨htrace, houtput⟩ := grows_toRun (lastLine source) (execute limits program)
      refine ⟨fun m hm => ?_, fun q i hq hi => ?_⟩
      · have hgrows := Part.grows_of_mem_trail hm
        exact ⟨hgrows.trace.trans htrace, houtput ▸ hgrows.output⟩
      · obtain ⟨hresult, hunwinds⟩ := execute_of_reaches hq hi
        obtain ⟨htrace, houtput, hending⟩ := toRun_of_error (lastLine source) hresult
        refine ⟨htrace.trans hunwinds.trace, houtput.trans (congrArg _ hunwinds.output), ?_⟩
        rcases hending with ⟨hbudget, -, htruncated⟩ | ⟨f, hf, hfault, -⟩
        · exact .inl ⟨hbudget, htruncated⟩
        · exact .inr ⟨f, hf, hfault⟩

end Script

end TraceTutor

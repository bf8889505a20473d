import TraceTutor.Proofs.CLike.Run

/-!
# The iteration cap

A run of a line-stepped program makes as many steps as the cap allows, unless the cursor leaves the
lines before. So two runs that differ in the cap alone go through the same states:
`run_of_cap_le` compares them.
-/

namespace TraceTutor

namespace CLike

/-- A larger cap changes nothing about a run that was not cut, and continues one that was. A run
is cut exactly if a line is still under the cursor after the last step that the cap allows. Then one
was under it at the start and after every step. -/
theorem run_of_cap_le (source : String) (a b : Limits) (h : a.iterationCap ≤ b.iterationCap) :
    ((run a source).truncated = false → run b source = run a source) ∧
    ((run a source).truncated = true →
      (run a source).output <+: (run b source).output ∧
      ((run a source).trace = [placeholder] ∨ (run a source).trace <+: (run b source).trace)) ∧
    (run a source).trace.length ≤ max 1 a.iterationCap ∧
    ((run a source).truncated = true ↔
      (Stepper.initial.after (Text.lines source.toList) a.iterationCap).isRunning
        (Text.lines source.toList) = true) ∧
    ((run a source).truncated = true → ∀ n ≤ a.iterationCap,
      (Stepper.initial.after (Text.lines source.toList) n).isRunning
        (Text.lines source.toList) = true) := by
  refine ⟨fun hcut => ?_, fun _ => ⟨?_, ?_⟩, ?_, ?_, fun hcut n hn => ?_⟩
  · rw [run_truncated] at hcut
    have hfinal : finalState b source = finalState a source := Stepper.after_eq_of_le h hcut
    rw [run_eq_toRun, run_eq_toRun, hfinal]
  · rw [run_output, run_output]
    exact (Stepper.grows_after_of_le _ _ h).output
  · rw [run_trace, run_trace]
    exact orPlaceholder_mono (Stepper.grows_after_of_le _ _ h).trace
  · rw [run_trace, length_orPlaceholder]
    have hlength : (finalState a source).recorder.trace.length ≤ a.iterationCap :=
      Stepper.length_trace_after_le _ _
    omega
  · rw [run_truncated, finalState]
  · rw [run_truncated] at hcut
    -- A state that stopped earlier would be the final one.
    by_contra hstop
    have hfinal : finalState a source = _ :=
      Stepper.after_eq_of_le hn (by simpa using hstop)
    rw [hfinal] at hcut
    exact hstop hcut

/-- A program that counts to five. -/
def countingLoop : String :=
  "int i = 0;\nwhile (i < 5) \x7b\n  i++;\n\x7d\ncout << i;\n"

theorem run_countingLoop_of_cap_le :
    (run ⟨5, 0, 0⟩ countingLoop).truncated = true ∧
    (run ⟨5, 0, 0⟩ countingLoop).output <+: (run ⟨50, 0, 0⟩ countingLoop).output ∧
    (run ⟨50, 0, 0⟩ countingLoop).truncated = false ∧
    run ⟨60, 0, 0⟩ countingLoop = run ⟨50, 0, 0⟩ countingLoop := by
  have hcut : (run ⟨5, 0, 0⟩ countingLoop).truncated = true := by decide +kernel
  have hfull : (run ⟨50, 0, 0⟩ countingLoop).truncated = false := by decide +kernel
  have h₁ := run_of_cap_le countingLoop ⟨5, 0, 0⟩ ⟨50, 0, 0⟩ (by decide)
  have h₂ := run_of_cap_le countingLoop ⟨50, 0, 0⟩ ⟨60, 0, 0⟩ (by decide)
  exact ⟨hcut, (h₁.2.1 hcut).1, hfull, h₂.1 hfull⟩

end CLike

end TraceTutor

import Mathlib.Data.List.Forall2
import TraceTutor.Proofs.CLike.Step

/-!
# What a run of lines yields

A run yields what was recorded when it stopped, and one snapshot in place of an empty trace. The
trace is well formed (`wellFormed_run`), it shows at most one call at a time, and its last snapshot
shows the whole output.
-/

namespace TraceTutor

namespace CLike

/-- The one snapshot of a run that recorded nothing. -/
def placeholder : Snapshot :=
  ⟨1, 1, .empty, [], [], none, some "Code analyzed"⟩

/-- A trace as a run yields it, never empty. -/
def orPlaceholder (t : Trace) : Trace :=
  if t = [] then [placeholder] else t

theorem length_orPlaceholder (t : Trace) : (orPlaceholder t).length = max 1 t.length := by
  unfold orPlaceholder
  split
  next h => simp [h]
  next h => exact (Nat.max_eq_right (List.length_pos_iff.2 h)).symm

theorem orPlaceholder_mono {t t' : Trace} (h : t <+: t') :
    orPlaceholder t = [placeholder] ∨ orPlaceholder t <+: orPlaceholder t' := by
  by_cases ht : t = []
  · exact .inl (if_pos ht)
  · have ht' : t' ≠ [] := fun h' => ht (List.prefix_nil.1 (h' ▸ h))
    simp only [orPlaceholder, if_neg ht, if_neg ht']
    exact .inr h

/-- Of two traces that agree step by step, both are empty or none is. -/
theorem orPlaceholder_rel {r : Snapshot → Snapshot → Prop} {t t' : Trace}
    (h : List.Forall₂ r t t') :
    List.Forall₂ r (orPlaceholder t) (orPlaceholder t') ∨
      orPlaceholder t = [placeholder] ∧ orPlaceholder t' = [placeholder] := by
  cases h with
  | nil => exact .inr ⟨rfl, rfl⟩
  | cons hs ht => exact .inl (.cons hs ht)

namespace Stepper

variable {s : Stepper} {lines : List (List Char)}

theorem toRun_output : (s.toRun lines).output = s.recorder.output.toList := by
  unfold toRun
  split <;> rfl

theorem toRun_truncated : (s.toRun lines).truncated = s.isRunning lines := rfl

theorem toRun_trace (hs : s.Settled) : (s.toRun lines).trace = orPlaceholder s.recorder.trace := by
  by_cases h : s.recorder.trace = []
  · have hbindings : s.bindings = .empty := by simpa [h] using hs.bindings_eq.symm
    have houtput : s.recorder.output.toList = [] := by simpa [h] using hs.emitted_eq.symm
    have hempty := s.recorder.isEmpty_iff_trace.2 h
    simp [toRun, hempty, orPlaceholder, h, placeholder, hbindings, houtput, hs.stack_eq,
      CallStack.empty]
  · have hempty : s.recorder.isEmpty = false := by
      rwa [← Bool.not_eq_true, s.recorder.isEmpty_iff_trace]
    simp only [toRun, hempty, orPlaceholder, if_neg h, Bool.false_eq_true, if_false]

end Stepper

/-! ## Runs -/

section Run

variable (limits : Limits) (source : String)

/-- The state that a run ends in. -/
def finalState : Stepper :=
  Stepper.initial.after (Text.lines source.toList) limits.iterationCap

/-- A run that stops by itself ends in the state where any further steps end. -/
theorem finalState_eq {limits : Limits} {source : String} {n : Nat}
    (hcut : (finalState limits source).isRunning (Text.lines source.toList) = false)
    (hstop : (Stepper.initial.after (Text.lines source.toList) n).isRunning
      (Text.lines source.toList) = false) :
    finalState limits source = Stepper.initial.after (Text.lines source.toList) n := by
  rcases Nat.le_total n limits.iterationCap with h | h
  · exact Stepper.after_eq_of_le h hstop
  · exact (Stepper.after_eq_of_le h hcut).symm

/-- A run records no more than is recorded when the program stops, or after the cap. -/
theorem finalState_grows {limits : Limits} {source : String} {n : Nat}
    (h : (Stepper.initial.after (Text.lines source.toList) n).isRunning
      (Text.lines source.toList) = false ∨ limits.iterationCap ≤ n) :
    (finalState limits source).recorder.Grows
      (Stepper.initial.after (Text.lines source.toList) n).recorder := by
  rcases Nat.le_total limits.iterationCap n with hle | hle
  · exact Stepper.grows_after_of_le _ _ hle
  · obtain hstop | hge := h
    · rw [finalState, Stepper.after_eq_of_le hle hstop]
      exact .refl _
    · exact Stepper.grows_after_of_le _ _ hge

theorem run_eq_toRun :
    run limits source = (finalState limits source).toRun (Text.lines source.toList) := by
  rw [run, Stepper.steps_eq_after, finalState]

theorem run_truncated :
    (run limits source).truncated =
      (finalState limits source).isRunning (Text.lines source.toList) := by
  rw [run_eq_toRun, Stepper.toRun_truncated]

theorem run_output :
    (run limits source).output = (finalState limits source).recorder.output.toList := by
  rw [run_eq_toRun, Stepper.toRun_output]

theorem run_trace :
    (run limits source).trace = orPlaceholder (finalState limits source).recorder.trace := by
  rw [run_eq_toRun, finalState, Stepper.toRun_trace (Stepper.settled_after _ _)]

theorem settled_finalState : (finalState limits source).Settled :=
  Stepper.settled_after _ _

theorem run_fault : (run limits source).fault = none := by
  rw [run_eq_toRun]
  rfl

theorem run_trace_ne_nil : (run limits source).trace ≠ [] := by
  rw [run_trace, ← List.length_pos_iff, length_orPlaceholder]
  omega

theorem wellFormed_run (h : Text.lines source.toList ≠ []) :
    Trace.WellFormed (Text.lines source.toList).length (run limits source).output
      (run limits source).trace := by
  have hrecorder : (finalState limits source).recorder.WellFormed _ :=
    Stepper.wellFormed_after (Text.lines source.toList) limits.iterationCap
  rw [run_trace, run_output, orPlaceholder]
  split
  · have hline : IsLine (Text.lines source.toList).length 1 :=
      ⟨Nat.le_refl 1, List.length_pos_iff.2 h⟩
    exact (Trace.WellFormed.nil _ []).append rfl hline (by simp [placeholder]) rfl |>.mono_output
      List.nil_prefix
  · exact hrecorder.trace

/-- A call is over when the next snapshot is taken. -/
theorem length_callStack_le : ∀ s ∈ (run limits source).trace, s.callStack.length ≤ 1 := by
  rw [run_trace, orPlaceholder]
  split
  · simp [placeholder]
  · exact (settled_finalState limits source).shallow

theorem emitted_getLast? :
    (run limits source).trace.getLast?.map Snapshot.emitted = some (run limits source).output := by
  have hemitted := (settled_finalState limits source).emitted_eq
  rw [run_trace, run_output, orPlaceholder]
  split
  next h =>
    rw [h] at hemitted
    rw [← hemitted]
    rfl
  next h =>
    rw [← hemitted, List.getLast?_eq_some_getLast h]
    rfl

end Run

end CLike

end TraceTutor

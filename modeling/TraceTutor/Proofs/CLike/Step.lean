import Mathlib.Logic.Function.Iterate
import Mathlib.Order.Nat
import TraceTutor.CLike.Stepper
import TraceTutor.Proofs.Trace.Recording

/-!
# Steps of a line-stepped program

`Stepper.Advances s s'` lists all that one step may do: move the cursor, or record one snapshot of
the current line and move the cursor. Everything that holds along a run is derived from it:

* the recorder grows, by at most one snapshot (`Advances.grows`, `Advances.length_trace_le`);
* traces stay well formed (`Advances.wellFormed`);
* the last snapshot shows the state between steps (`Advances.settled`).

`Stepper.after lines n` is the state after `n` steps, where a state whose cursor has left the lines
does not change any more.
-/

namespace TraceTutor

namespace CLike

namespace Stepper

/-! ## One step -/

/-- What one step may do. -/
inductive Advances (s : Stepper) : Stepper → Prop
  | move (cursor : Nat) : Advances s (s.moveTo cursor)
  | head (condition note : String) (cursor : Nat) :
    Advances s
      ⟨s.bindings, s.recorder.commit s.line s.bindings (some condition) (some note), cursor⟩
  | assign (name : String) (v : Value) (note : String) (cursor : Nat) :
    Advances s ⟨s.bindings.set name v,
      s.recorder.commit s.line (s.bindings.set name v) none (some note), cursor⟩
  | output (text note : String) (cursor : Nat) :
    Advances s
      ⟨s.bindings, (s.recorder.emit text).commit s.line s.bindings none (some note), cursor⟩
  | call (name : String) (args : Bindings) (target : String) (v : Value) (note : String)
      (cursor : Nat) :
    Advances s ⟨s.bindings.set target v,
      ((s.recorder.pushFrame ⟨name, args, s.line⟩).commit s.line (s.bindings.set target v) none
        (some note)).popFrame, cursor⟩

theorem enterLoop_advances (s : Stepper) (lines : List (List Char)) (condition : LoopCondition) :
    s.Advances (s.enterLoop lines condition) := by
  unfold enterLoop
  split
  · exact .head _ _ _
  · exact .move _

theorem closeBlock_advances (s : Stepper) (lines : List (List Char)) :
    s.Advances (s.closeBlock lines) := by
  unfold closeBlock
  split <;> exact .move _

theorem apply_advances (s : Stepper) (lines : List (List Char)) (statement : Statement) :
    s.Advances (s.apply lines statement) := by
  cases statement with
  | noOp => exact .move _
  | unrecognized => exact .move _
  | declare name value => exact .assign _ _ _ _
  | assign name value => exact .assign _ _ _ _
  | increment name => exact .assign _ _ _ _
  | addAssign target operand => exact .assign _ _ _ _
  | loopHead condition => exact enterLoop_advances s lines condition
  | closeBrace => exact closeBlock_advances s lines
  | output text => exact .output _ _ _
  | factorialCall target argument => exact .call _ _ _ _ _ _

theorem step_eq_apply {s : Stepper} {lines : List (List Char)} {line : List Char}
    (h : lines[s.cursor]? = some line) :
    s.step lines = s.apply lines (classify s.bindings line) := by
  simp only [step, h]

theorem isRunning_iff {s : Stepper} {lines : List (List Char)} :
    s.isRunning lines = true ↔ s.cursor < lines.length := by
  simp [isRunning]

theorem step_of_not_isRunning {s : Stepper} {lines : List (List Char)}
    (h : s.isRunning lines = false) : s.step lines = s := by
  have hcursor : lines[s.cursor]? = none := by simpa [isRunning] using h
  simp only [step, hcursor]

theorem step_advances (s : Stepper) (lines : List (List Char)) : s.Advances (s.step lines) := by
  unfold step
  split
  · exact apply_advances _ _ _
  · exact .move s.cursor

/-! ## What a step keeps -/

/-- Between steps no call is active, and the last snapshot shows the bindings and the output. -/
structure Settled (s : Stepper) : Prop where
  stack_eq : s.recorder.stack = .empty
  shallow : ∀ snapshot ∈ s.recorder.trace, snapshot.callStack.length ≤ 1
  bindings_eq : s.recorder.trace.getLast?.elim .empty Snapshot.bindings = s.bindings
  emitted_eq : s.recorder.trace.getLast?.elim [] Snapshot.emitted = s.recorder.output.toList

theorem settled_initial : initial.Settled :=
  ⟨rfl, by simp [initial], rfl, rfl⟩

namespace Advances

variable {s s' : Stepper}

theorem grows (h : s.Advances s') : s.recorder.Grows s'.recorder := by
  cases h with
  | move => exact .refl _
  | head => exact Recorder.grows_commit _ _ _ _ _
  | assign => exact Recorder.grows_commit _ _ _ _ _
  | output text => exact (Recorder.grows_emit _ text).trans (Recorder.grows_commit _ _ _ _ _)
  | call name args =>
    exact ((Recorder.grows_pushFrame _ _).trans (Recorder.grows_commit _ _ _ _ _)).trans
      (Recorder.grows_popFrame _)

theorem length_trace_le (h : s.Advances s') :
    s'.recorder.trace.length ≤ s.recorder.trace.length + 1 := by
  cases h <;> simp [moveTo]

theorem wellFormed {count : Nat} (h : s.Advances s') (hline : IsLine count s.line)
    (hs : s.recorder.WellFormed count) : s'.recorder.WellFormed count := by
  cases h with
  | move => exact hs
  | head => exact hs.commit hline _ _ _
  | assign => exact hs.commit hline _ _ _
  | output text => exact (hs.emit text).commit hline _ _ _
  | call => exact ((hs.pushFrame hline).commit hline _ _ _).popFrame

theorem settled (h : s.Advances s') (hs : s.Settled) : s'.Settled := by
  have hshallow : ∀ (t : Trace) (snapshot : Snapshot), snapshot.callStack.length ≤ 1 →
      (∀ x ∈ t, x.callStack.length ≤ 1) → ∀ x ∈ t ++ [snapshot], x.callStack.length ≤ 1 := by
    intro t snapshot hsnapshot ht x hx
    rcases List.mem_append.1 hx with hx | hx
    · exact ht x hx
    · exact List.mem_singleton.1 hx ▸ hsnapshot
  cases h with
  | move => exact ⟨hs.stack_eq, hs.shallow, hs.bindings_eq, hs.emitted_eq⟩
  | head | assign | output =>
    refine ⟨hs.stack_eq, ?_, by simp, by simp⟩
    rw [Recorder.trace_commit]
    exact hshallow _ _ (by simp [hs.stack_eq, CallStack.empty]) hs.shallow
  | call name args =>
    refine ⟨by simp [hs.stack_eq], ?_, by simp, by simp⟩
    rw [Recorder.trace_popFrame, Recorder.trace_commit]
    refine hshallow _ _ ?_ hs.shallow
    simp [CallStack.push, hs.stack_eq, CallStack.empty]

end Advances

/-! ## Many steps -/

/-- The state after `n` steps. -/
def after (s : Stepper) (lines : List (List Char)) (n : Nat) : Stepper :=
  (fun s => s.step lines)^[n] s

@[simp] theorem after_zero (s : Stepper) (lines : List (List Char)) : s.after lines 0 = s := rfl

theorem after_succ (s : Stepper) (lines : List (List Char)) (n : Nat) :
    s.after lines (n + 1) = (s.step lines).after lines n := rfl

theorem after_add (s : Stepper) (lines : List (List Char)) (m n : Nat) :
    s.after lines (m + n) = (s.after lines m).after lines n := by
  rw [after, Nat.add_comm, Function.iterate_add_apply]
  rfl

theorem after_succ' (s : Stepper) (lines : List (List Char)) (n : Nat) :
    s.after lines (n + 1) = (s.after lines n).step lines :=
  after_add s lines n 1

theorem after_of_not_isRunning {s : Stepper} {lines : List (List Char)}
    (h : s.isRunning lines = false) (n : Nat) : s.after lines n = s := by
  induction n with
  | zero => rfl
  | succ n ih => rw [after_succ, step_of_not_isRunning h, ih]

/-- A state that has stopped stays. -/
theorem after_eq_of_le {s : Stepper} {lines : List (List Char)} {m n : Nat} (hmn : m ≤ n)
    (h : (s.after lines m).isRunning lines = false) : s.after lines n = s.after lines m := by
  obtain ⟨k, rfl⟩ := Nat.exists_eq_add_of_le hmn
  rw [after_add, after_of_not_isRunning h]

theorem steps_eq_after (lines : List (List Char)) (n : Nat) (s : Stepper) :
    steps lines n s = s.after lines n := by
  induction n generalizing s with
  | zero => rfl
  | succ n ih =>
    rw [steps]
    split
    next => rw [ih, after_succ]
    next h => rw [after_of_not_isRunning (by simpa using h)]

/-- What every step keeps, every run keeps. -/
theorem after_induction {lines : List (List Char)} {s : Stepper} (p : Stepper → Prop) (hs : p s)
    (hstep : ∀ s, p s → p (s.step lines)) (n : Nat) : p (s.after lines n) := by
  induction n with
  | zero => exact hs
  | succ n ih =>
    rw [after_succ']
    exact hstep _ ih

theorem grows_after (s : Stepper) (lines : List (List Char)) (n : Nat) :
    s.recorder.Grows (s.after lines n).recorder :=
  after_induction (fun s' => s.recorder.Grows s'.recorder) (.refl _)
    (fun s' h => h.trans (s'.step_advances lines).grows) n

theorem grows_after_of_le (s : Stepper) (lines : List (List Char)) {m n : Nat} (h : m ≤ n) :
    (s.after lines m).recorder.Grows (s.after lines n).recorder := by
  obtain ⟨k, rfl⟩ := Nat.exists_eq_add_of_le h
  rw [after_add]
  exact grows_after _ _ _

theorem settled_after (lines : List (List Char)) (n : Nat) :
    (initial.after lines n).Settled :=
  after_induction Settled settled_initial (fun s h => (s.step_advances lines).settled h) n

theorem wellFormed_after (lines : List (List Char)) (n : Nat) :
    (initial.after lines n).recorder.WellFormed lines.length := by
  refine after_induction (fun s => s.recorder.WellFormed lines.length) (.empty _) (fun s hs => ?_) n
  by_cases h : s.isRunning lines = true
  · have hline : IsLine lines.length s.line := ⟨Nat.le_add_left 1 _, isRunning_iff.1 h⟩
    exact (s.step_advances lines).wellFormed hline hs
  · rwa [step_of_not_isRunning (by simpa using h)]

theorem length_trace_after_le (lines : List (List Char)) (n : Nat) :
    (initial.after lines n).recorder.trace.length ≤ n := by
  induction n with
  | zero => exact le_rfl
  | succ n ih =>
    rw [after_succ']
    exact le_trans (step_advances _ lines).length_trace_le (Nat.succ_le_succ ih)

end Stepper

end CLike

end TraceTutor

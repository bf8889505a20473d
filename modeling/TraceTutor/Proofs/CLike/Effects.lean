import Mathlib.Data.List.Chain
import TraceTutor.Proofs.CLike.Run
import TraceTutor.Proofs.NameMap

/-!
# Effects of snapshots

Each snapshot of a line-stepped program shows what one statement did. A step either changes nothing
that a snapshot shows, or records one snapshot of the state after it (`Stepper.records_step`), and
that differs from the snapshot before it in one effect (`OneEffect`). So the snapshots of a run form
a chain of single effects from the empty state to the last one (`isChain_oneEffect_run`).
-/

namespace TraceTutor

namespace CLike

/-! ## Single effects -/

/-- What one statement may do between two snapshots. -/
structure OneEffect (lines : List (List Char)) (s s' : Snapshot) : Prop where
  /-- No more than one name is bound anew. -/
  names : s'.bindings.names = s.bindings.names ∨
    ∃ name, s'.bindings.names = s.bindings.names ++ [name]
  /-- No more than one name gets another value. -/
  values : ∃ name, ∀ other ≠ name, s'.bindings.get? other = s.bindings.get? other
  emitted : s'.emitted = s.emitted ∨ ∃ text, s'.emitted = s.emitted ++ [text]
  /-- Output and loop heads bind nothing. -/
  bindings_eq : s'.emitted ≠ s.emitted ∨ s'.condition ≠ none → s'.bindings = s.bindings
  /-- Only a factorial shows a call. -/
  call : s'.callStack ≠ [] → ∃ line target argument, lines[s'.line - 1]? = some line ∧
    classify s.bindings line = .factorialCall target argument

namespace OneEffect

variable {lines : List (List Char)} {s s' : Snapshot}

/-- A binding is one effect. -/
theorem of_set (name : String) (v : Value) (hbindings : s'.bindings = s.bindings.set name v)
    (hemitted : s'.emitted = s.emitted) (hcondition : s'.condition = none)
    (hcall : s'.callStack ≠ [] → ∃ line target argument, lines[s'.line - 1]? = some line ∧
      classify s.bindings line = .factorialCall target argument) : OneEffect lines s s' where
  names := by
    rw [hbindings]
    exact (NameMap.names_set s.bindings name v).imp_right fun h => ⟨name, h⟩
  values := by
    refine ⟨name, fun other hother => ?_⟩
    rw [hbindings, NameMap.get?_set, if_neg hother]
  emitted := .inl hemitted
  bindings_eq h := h.elim (absurd hemitted) (absurd hcondition)
  call := hcall

/-- So is anything else that binds nothing, and calls nothing. -/
theorem of_bindings_eq (hbindings : s'.bindings = s.bindings)
    (hemitted : s'.emitted = s.emitted ∨ ∃ text, s'.emitted = s.emitted ++ [text])
    (hcall : s'.callStack = []) : OneEffect lines s s' where
  names := .inl (by rw [hbindings])
  values := ⟨"", fun other _ => by rw [hbindings]⟩
  emitted := hemitted
  bindings_eq _ := hbindings
  call h := absurd hcall h

end OneEffect

/-! ## Steps -/

namespace Stepper

/-- The last snapshot of a state, or one of nothing before the first one. -/
def latest (s : Stepper) : Snapshot :=
  s.recorder.trace.getLast?.getD (.blank 0)

theorem Settled.latest_bindings {s : Stepper} (h : s.Settled) : s.latest.bindings = s.bindings := by
  rw [← h.bindings_eq, latest]
  cases s.recorder.trace.getLast? <;> rfl

theorem Settled.latest_emitted {s : Stepper} (h : s.Settled) :
    s.latest.emitted = s.recorder.output.toList := by
  rw [← h.emitted_eq, latest]
  cases s.recorder.trace.getLast? <;> rfl

/-- The second state shows all that the first one shows, or one more snapshot of itself, which has
one effect. -/
def Records (lines : List (List Char)) (s s' : Stepper) : Prop :=
  (s'.recorder.trace = s.recorder.trace ∧ s'.bindings = s.bindings ∧
      s'.recorder.output = s.recorder.output) ∨
    ∃ snapshot, s'.recorder.trace = s.recorder.trace ++ [snapshot] ∧
      snapshot.bindings = s'.bindings ∧ snapshot.emitted = s'.recorder.output.toList ∧
      OneEffect lines s.latest snapshot

theorem Records.refl (lines : List (List Char)) (s : Stepper) : Records lines s s :=
  .inl ⟨rfl, rfl, rfl⟩

theorem Records.moveTo {lines : List (List Char)} {s s' : Stepper} (h : Records lines s s')
    (cursor : Nat) : Records lines s (s'.moveTo cursor) :=
  h

section Records

variable {s : Stepper} {lines : List (List Char)} (hs : s.Settled)
include hs

theorem records_capture (condition : Option String) (note : String) :
    Records lines s (s.capture condition note) := by
  refine .inr ⟨_, Recorder.trace_commit .., rfl, rfl, .of_bindings_eq ?_ (.inl ?_) ?_⟩
  · exact hs.latest_bindings.symm
  · exact hs.latest_emitted.symm
  · exact congrArg CallStack.frames hs.stack_eq

theorem records_bind (name : String) (v : Value) (note : String) :
    Records lines s (s.bind name v note) := by
  refine .inr ⟨_, Recorder.trace_commit .., rfl, rfl, .of_set name v ?_ ?_ rfl fun h => ?_⟩
  · exact congrArg (NameMap.set · name v) hs.latest_bindings.symm
  · exact hs.latest_emitted.symm
  · exact absurd (congrArg CallStack.frames hs.stack_eq) h

theorem records_output (text note : String) :
    Records lines s ({ s with recorder := s.recorder.emit text }.capture none note) := by
  refine .inr ⟨_, Recorder.trace_commit .., rfl, rfl, .of_bindings_eq ?_ (.inr ⟨text, ?_⟩) ?_⟩
  · exact hs.latest_bindings.symm
  · rw [hs.latest_emitted]
    exact Array.toList_push
  · exact congrArg CallStack.frames hs.stack_eq

theorem records_callFactorial {line : List Char} {target : String} {argument : Int}
    (hline : lines[s.cursor]? = some line)
    (hclassify : classify s.bindings line = .factorialCall target argument) :
    Records lines s (s.callFactorial target argument) := by
  refine .inr ⟨_, Recorder.trace_commit .., rfl, rfl, .of_set target (factorial argument) ?_ ?_ rfl
    fun _ => ?_⟩
  · exact congrArg (NameMap.set · target _) hs.latest_bindings.symm
  · exact hs.latest_emitted.symm
  · exact ⟨line, target, argument, hline, by rw [hs.latest_bindings, hclassify]⟩

/-- A step records all that it changes, in one snapshot with one effect. -/
theorem records_step : Records lines s (s.step lines) := by
  cases hline : lines[s.cursor]? with
  | none => rw [step, hline]; exact .refl lines s
  | some line =>
    rw [step_eq_apply hline]
    cases hclassify : classify s.bindings line with
    | noOp | unrecognized => exact (Records.refl lines s).moveTo _
    | declare | assign | increment | addAssign => exact (records_bind hs _ _ _).moveTo _
    | loopHead condition =>
      show Records lines s (s.enterLoop lines condition)
      unfold enterLoop
      split
      · exact (records_capture hs _ _).moveTo _
      · exact (Records.refl lines s).moveTo _
    | closeBrace =>
      show Records lines s (s.closeBlock lines)
      unfold closeBlock
      split <;> exact (Records.refl lines s).moveTo _
    | output text => exact (records_output hs _ _).moveTo _
    | factorialCall target argument =>
      exact (records_callFactorial hs hline hclassify).moveTo _

end Records

/-! ## Runs -/

/-- The snapshots so far, from nothing to the latest one, differ in single effects. -/
theorem isChain_oneEffect_after (lines : List (List Char)) (n : Nat) :
    (Snapshot.blank 0 :: (initial.after lines n).recorder.trace).IsChain (OneEffect lines) := by
  induction n with
  | zero => exact .singleton _
  | succ n ih =>
    have hstep : Records lines _ _ := records_step (settled_after lines n)
    rw [after_succ']
    obtain ⟨htrace, -⟩ | ⟨snapshot, htrace, -, -, heffect⟩ := hstep
    · rwa [htrace]
    · rw [htrace, ← List.cons_append]
      refine ih.append (.singleton snapshot) fun x hx y hy => ?_
      have hlatest : x = latest (initial.after lines n) := by
        rw [List.getLast?_cons] at hx
        exact (Option.some.inj hx).symm
      cases hy
      exact hlatest ▸ heffect

end Stepper

/-- A run records what it does step by step. From the empty state on, each snapshot differs from the
one before it in one effect, the last one shows the variables as the run leaves them, and no step
changes anything without a snapshot of it. -/
theorem isChain_oneEffect_run (limits : Limits) (source : String) :
    (Snapshot.blank 0 :: (run limits source).trace).IsChain (OneEffect (Text.lines source.toList)) ∧
    (run limits source).trace.getLast?.map Snapshot.bindings =
      some (Stepper.steps (Text.lines source.toList) limits.iterationCap .initial).bindings ∧
    ∀ n, Stepper.Records (Text.lines source.toList)
      (Stepper.steps (Text.lines source.toList) n .initial)
      ((Stepper.steps (Text.lines source.toList) n .initial).step (Text.lines source.toList)) := by
  simp only [Stepper.steps_eq_after]
  have hs := settled_finalState limits source
  refine ⟨?_, ?_, fun n => Stepper.records_step (Stepper.settled_after _ n)⟩
  · rw [run_trace, orPlaceholder]
    split
    · exact .cons_cons (.of_bindings_eq rfl (.inl rfl) rfl) (.singleton _)
    · exact Stepper.isChain_oneEffect_after _ _
  · have hbindings := hs.bindings_eq
    rw [run_trace, orPlaceholder]
    split
    next h =>
      rw [h] at hbindings
      exact congrArg some hbindings
    next h =>
      rw [List.getLast?_eq_some_getLast h] at hbindings ⊢
      exact congrArg some hbindings

end CLike

end TraceTutor

import Mathlib.Data.List.DropRight
import TraceTutor.Proofs.Trace.Recording

/-!
# Recorders and their histories

The history of a recorder is the list of the operations on it. All that a recorder holds is told by
the part of the history since the last reset (`follows_ofHistory`): the output by what was emitted,
the calls by the frames that were entered and left, and every snapshot by its commit and by what
came before it (`snapshots_of_history`).
-/

namespace TraceTutor

namespace Recorder

/-! ## Histories -/

inductive Operation where
  | reset
  | commit (line : Nat) (bindings : Bindings) (condition note : Option String)
  | pushFrame (frame : Frame)
  | popFrame
  | emit (text : String)

def Operation.isReset : Operation → Bool
  | reset => true
  | _ => false

def perform (r : Recorder) : Operation → Recorder
  | .reset => r.reset
  | .commit line bindings condition note => r.commit line bindings condition note
  | .pushFrame frame => r.pushFrame frame
  | .popFrame => r.popFrame
  | .emit text => r.emit text

/-- The operations on a recorder, the latest one last. -/
abbrev History := List Operation

/-- A new recorder after the operations. -/
def ofHistory (history : History) : Recorder :=
  history.foldl perform .empty

namespace History

/-- The part since the last reset, or all of the history if there is none. -/
def sinceReset (history : History) : History :=
  history.rtakeWhile (!·.isReset)

/-- The lines of output in order. -/
def emitted (history : History) : List String :=
  history.filterMap fun
    | .emit text => some text
    | _ => none

/-- The bindings of each commit in order. -/
def committed (history : History) : List Bindings :=
  history.filterMap fun
    | .commit _ bindings _ _ => some bindings
    | _ => none

/-- The frames that are left when all are entered and left on an empty stack, on which leaving does
nothing. -/
def frames (history : History) : List Frame :=
  history.foldl (fun active operation => match operation with
    | .pushFrame frame => active ++ [frame]
    | .popFrame => active.dropLast
    | _ => active) []

theorem sinceReset_concat (history : History) (operation : Operation) :
    sinceReset (history ++ [operation]) =
      if operation.isReset then [] else sinceReset history ++ [operation] := by
  unfold sinceReset
  cases h : operation.isReset with
  | true => exact List.rtakeWhile_concat_neg _ _ _ (by simp [h])
  | false => exact List.rtakeWhile_concat_pos _ _ _ (by simp [h])

theorem isReset_of_mem_sinceReset {history : History} {operation : Operation}
    (h : operation ∈ sinceReset history) : operation.isReset = false := by
  simpa using List.mem_rtakeWhile_imp h

end History

open History

theorem ofHistory_append (before after : History) :
    ofHistory (before ++ after) = after.foldl perform (ofHistory before) :=
  List.foldl_append

/-! ## What a recorder holds -/

/-- The recorder holds what the history tells, snapshots apart. -/
structure Follows (r : Recorder) (history : History) : Prop where
  output : r.output.toList = history.emitted
  frames : r.stack.frames = history.frames
  current : r.current = history.committed.getLast?.getD .empty
  length : r.trace.length = history.committed.length

theorem follows_empty : Follows .empty [] :=
  ⟨rfl, rfl, rfl, rfl⟩

theorem Follows.perform {r : Recorder} {history : History} (h : r.Follows history)
    {operation : Operation} (hreset : operation.isReset = false) :
    (r.perform operation).Follows (history ++ [operation]) := by
  obtain ⟨houtput, hframes, hcurrent, hlength⟩ := h
  cases operation with
  | reset => cases hreset
  | commit line bindings condition note =>
    refine ⟨?_, ?_, ?_, ?_⟩
    · simpa [Recorder.perform, emitted] using houtput
    · simpa [Recorder.perform, History.frames] using hframes
    · simp [Recorder.perform, commit, committed]
    · simpa [Recorder.perform, committed] using hlength
  | pushFrame frame =>
    refine ⟨?_, ?_, ?_, ?_⟩
    · simpa [Recorder.perform, emitted] using houtput
    · simpa [Recorder.perform, History.frames, CallStack.push] using hframes
    · simpa [Recorder.perform, pushFrame, committed] using hcurrent
    · simpa [Recorder.perform, committed] using hlength
  | popFrame =>
    refine ⟨?_, ?_, ?_, ?_⟩
    · simpa [Recorder.perform, emitted] using houtput
    · simpa [Recorder.perform, History.frames, CallStack.pop] using congrArg List.dropLast hframes
    · simpa [Recorder.perform, popFrame, committed] using hcurrent
    · simpa [Recorder.perform, committed] using hlength
  | emit text =>
    refine ⟨?_, ?_, ?_, ?_⟩
    · simpa [Recorder.perform, emitted] using houtput
    · simpa [Recorder.perform, History.frames] using hframes
    · simpa [Recorder.perform, emit, committed] using hcurrent
    · simpa [Recorder.perform, committed] using hlength

theorem Follows.foldl {r : Recorder} {history more : History} (h : r.Follows history)
    (hreset : ∀ operation ∈ more, operation.isReset = false) :
    (more.foldl Recorder.perform r).Follows (history ++ more) := by
  induction more generalizing r history with
  | nil => rwa [List.append_nil]
  | cons operation more ih =>
    obtain ⟨hoperation, hmore⟩ := List.forall_mem_cons.1 hreset
    have hrest := ih (h.perform hoperation) hmore
    rwa [List.append_assoc] at hrest

theorem follows_of_forall {history : History}
    (hreset : ∀ operation ∈ history, operation.isReset = false) :
    (ofHistory history).Follows history :=
  follows_empty.foldl hreset

/-- A recorder is as new after a reset. -/
theorem ofHistory_sinceReset (history : History) :
    ofHistory history.sinceReset = ofHistory history := by
  induction history using List.reverseRecOn with
  | nil => rfl
  | append_singleton history operation ih =>
    rw [sinceReset_concat, ofHistory_append]
    split
    next hreset =>
      cases operation with
      | reset => rfl
      | _ => cases hreset
    next => rw [ofHistory_append, ih]

theorem follows_ofHistory (history : History) :
    (ofHistory history).Follows history.sinceReset := by
  rw [← ofHistory_sinceReset]
  exact follows_of_forall fun _ => isReset_of_mem_sinceReset

/-! ## What stays recorded -/

theorem trace_prefix_perform (r : Recorder) {operation : Operation}
    (hreset : operation.isReset = false) : r.trace <+: (r.perform operation).trace := by
  cases operation with
  | reset => cases hreset
  | commit line bindings condition note => exact (r.grows_commit line bindings condition note).trace
  | pushFrame frame => exact (r.grows_pushFrame frame).trace
  | popFrame => exact r.grows_popFrame.trace
  | emit text => exact (r.grows_emit text).trace

theorem trace_prefix_foldl (r : Recorder) {more : History}
    (hreset : ∀ operation ∈ more, operation.isReset = false) :
    r.trace <+: (more.foldl perform r).trace := by
  induction more generalizing r with
  | nil => exact List.prefix_refl _
  | cons operation more ih =>
    obtain ⟨hoperation, hmore⟩ := List.forall_mem_cons.1 hreset
    exact (r.trace_prefix_perform hoperation).trans (ih _ hmore)

/-- A commit records what the operations before it tell, and what comes after it but a reset leaves
the snapshot as it is. -/
theorem getElem?_trace_ofHistory {before after : History} {line : Nat} {bindings : Bindings}
    {condition note : Option String}
    (hreset : ∀ operation ∈ before ++ .commit line bindings condition note :: after,
      operation.isReset = false) :
    (ofHistory (before ++ .commit line bindings condition note :: after)).trace[
        before.committed.length]? =
      some ⟨before.committed.length + 1, line, bindings, before.frames, before.emitted, condition,
        note⟩ := by
  obtain ⟨hbefore, hafter⟩ := List.forall_mem_append.1 hreset
  obtain ⟨-, hafter⟩ := List.forall_mem_cons.1 hafter
  obtain ⟨houtput, hframes, -, hlength⟩ := follows_of_forall hbefore
  have hcommit : ((ofHistory before).commit line bindings condition note).trace[
      before.committed.length]? = some ⟨before.committed.length + 1, line, bindings,
        before.frames, before.emitted, condition, note⟩ := by
    rw [trace_commit, ← hlength, List.getElem?_concat_length, houtput, hframes]
  rw [ofHistory_append, List.foldl_cons]
  obtain ⟨hlt, hget⟩ := List.getElem?_eq_some_iff.1 hcommit
  rw [← hget]
  exact List.prefix_iff_getElem?.1 (trace_prefix_foldl _ hafter) _ hlt

/-- The snapshots of a recorder are told by its history. The commits since the last reset are its
snapshots in order: each has its own line, bindings, condition and note, the output before it, and
the calls that were entered before it and not left. Whatever follows but a reset leaves them as they
are. The current bindings are those of the latest commit. -/
theorem snapshots_of_history (history : History) :
    (ofHistory history).trace.length = history.sinceReset.committed.length ∧
    (∀ (before after : History) line bindings condition note,
      history.sinceReset = before ++ .commit line bindings condition note :: after →
      (ofHistory history).trace[before.committed.length]? =
        some ⟨before.committed.length + 1, line, bindings, before.frames, before.emitted,
          condition, note⟩) ∧
    (∀ more : History, (∀ operation ∈ more, operation.isReset = false) →
      (ofHistory history).trace <+: (ofHistory (history ++ more)).trace) ∧
    (ofHistory history).current = history.sinceReset.committed.getLast?.getD .empty := by
  refine ⟨(follows_ofHistory history).length, ?_, fun more hmore => ?_,
    (follows_ofHistory history).current⟩
  · intro before after line bindings condition note heq
    have hreset : ∀ operation ∈ history.sinceReset, operation.isReset = false :=
      fun _ => isReset_of_mem_sinceReset
    rw [← ofHistory_sinceReset]
    rw [heq] at hreset ⊢
    exact getElem?_trace_ofHistory hreset
  · rw [ofHistory_append]
    exact trace_prefix_foldl _ hmore

/-- Leaving a call on an empty stack does nothing, the reset takes back what was emitted and entered
before it, and the calls that a snapshot shows may be left later on. -/
theorem snapshots_of_history_reused :
    let x : Bindings := .ofList [("x", .int 1)]
    let frame : Frame := ⟨"f", x, 4⟩
    let history : History := [.emit "old", .pushFrame frame, .commit 1 x none none, .reset,
      .popFrame, .pushFrame frame, .emit "a", .commit 5 x (some "x < 2") none, .popFrame]
    (ofHistory history).trace[0]? = some ⟨1, 5, x, [frame], ["a"], some "x < 2", none⟩ ∧
      (ofHistory history).trace <+: (ofHistory (history ++ [.emit "b", .popFrame])).trace := by
  intro x frame history
  obtain ⟨-, hcommit, hmore, -⟩ := snapshots_of_history history
  exact ⟨hcommit [.popFrame, .pushFrame frame, .emit "a"] [.popFrame] 5 x (some "x < 2") none rfl,
    hmore [.emit "b", .popFrame] (by decide)⟩

end Recorder

end TraceTutor

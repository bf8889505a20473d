import Mathlib.Data.List.Forall2
import TraceTutor.Proofs.Trace.Recording

/-!
# Renumbered traces

Where lines are inserted into a program, a run may show all that it did before, under other numbers
of lines. `Trace.Renumbered` is this relation for any map of numbers. Two recorders stay renumbered
whatever both record, and maps that follow each other compose (`Trace.Renumbered.trans`).
-/

namespace TraceTutor

/-! ## Numbers of lines -/

/-- The number that a line gets when `k` lines are inserted below the first `count` lines. -/
def lineShifted (count k line : Nat) : Nat :=
  if line ≤ count then line else line + k

theorem lineShifted_comp (count k j : Nat) :
    lineShifted count j ∘ lineShifted count k = lineShifted count (k + j) := by
  funext line
  unfold lineShifted
  by_cases h : line ≤ count
  · simp [h]
  · simp only [Function.comp_apply, if_neg h]
    rw [if_neg (by omega), Nat.add_assoc]

/-! ## Traces -/

variable {f g : Nat → Nat}

/-- The call as it shows where the lines have other numbers. -/
def Frame.renumber (f : Nat → Nat) (frame : Frame) : Frame :=
  { frame with line := f frame.line }

/-- The second snapshot is the first one where the lines have other numbers. -/
structure Snapshot.Renumbered (f : Nat → Nat) (s s' : Snapshot) : Prop where
  index_eq : s'.index = s.index
  line_eq : s'.line = f s.line
  bindings_eq : s'.bindings = s.bindings
  callStack_eq : s'.callStack = s.callStack.map (Frame.renumber f)
  emitted_eq : s'.emitted = s.emitted
  condition_eq : s'.condition = s.condition
  /-- Both notes name their line, and say the same of it. -/
  note_eq : ∃ text : String, s.note = some s!"Line {s.line}: {text}" ∧
    s'.note = some s!"Line {f s.line}: {text}"

theorem Snapshot.Renumbered.trans {s s' s'' : Snapshot} (h : s.Renumbered f s')
    (h' : s'.Renumbered g s'') : s.Renumbered (g ∘ f) s'' := by
  refine ⟨h'.index_eq.trans h.index_eq, ?_, h'.bindings_eq.trans h.bindings_eq, ?_,
    h'.emitted_eq.trans h.emitted_eq, h'.condition_eq.trans h.condition_eq, ?_⟩
  · rw [h'.line_eq, h.line_eq]
    rfl
  · rw [h'.callStack_eq, h.callStack_eq, List.map_map]
    rfl
  · obtain ⟨text, hnote, hnote'⟩ := h.note_eq
    obtain ⟨text', hmiddle, hnote''⟩ := h'.note_eq
    -- The note in the middle names its line in both ways, and the texts after that are the same.
    have hsame : text' = text := by
      rw [hnote', h.line_eq, Option.some_inj] at hmiddle
      exact (String.append_right_inj _).1 hmiddle.symm
    rw [h.line_eq, hsame] at hnote''
    exact ⟨text, hnote, hnote''⟩

/-- The second trace is the first one where the lines have other numbers. -/
abbrev Trace.Renumbered (f : Nat → Nat) (t t' : Trace) : Prop :=
  List.Forall₂ (Snapshot.Renumbered f) t t'

theorem Trace.Renumbered.trans {t t' t'' : Trace} (h : t.Renumbered f t')
    (h' : t'.Renumbered g t'') : t.Renumbered (g ∘ f) t'' := by
  induction h generalizing t'' with
  | nil =>
    cases h'
    exact .nil
  | cons hs _ ih =>
    obtain ⟨s'', t'', hs', ht', rfl⟩ := List.forall₂_cons_left_iff.1 h'
    exact .cons (hs.trans hs') (ih ht')

/-! ## Recorders -/

/-- The second recorder has recorded what the first one has, where the lines have other numbers. -/
structure Recorder.Renumbered (f : Nat → Nat) (r r' : Recorder) : Prop where
  trace : r.trace.Renumbered f r'.trace
  output_eq : r'.output = r.output
  frames_eq : r'.stack.frames = r.stack.frames.map (Frame.renumber f)

namespace Recorder.Renumbered

variable {r r' : Recorder}

theorem empty (f : Nat → Nat) : Renumbered f .empty .empty :=
  ⟨.nil, rfl, rfl⟩

theorem commit (h : Renumbered f r r') (line : Nat) (bindings : Bindings)
    (condition : Option String) (text : String) :
    Renumbered f (r.commit line bindings condition (some s!"Line {line}: {text}"))
      (r'.commit (f line) bindings condition (some s!"Line {f line}: {text}")) := by
  refine ⟨?_, h.output_eq, h.frames_eq⟩
  have hindex : r'.trace.length + 1 = r.trace.length + 1 := congrArg (· + 1) h.trace.length_eq.symm
  have houtput : r'.output.toList = r.output.toList := by rw [h.output_eq]
  rw [trace_commit, trace_commit]
  exact List.rel_append h.trace
    (.cons ⟨hindex, rfl, rfl, h.frames_eq, houtput, rfl, text, rfl, rfl⟩ .nil)

theorem emit (h : Renumbered f r r') (text : String) :
    Renumbered f (r.emit text) (r'.emit text) := by
  refine ⟨h.trace, ?_, h.frames_eq⟩
  rw [output_emit, output_emit, h.output_eq]

theorem pushFrame (h : Renumbered f r r') (frame : Frame) :
    Renumbered f (r.pushFrame frame) (r'.pushFrame (frame.renumber f)) := by
  refine ⟨h.trace, h.output_eq, ?_⟩
  simp [CallStack.push, h.frames_eq]

theorem popFrame (h : Renumbered f r r') : Renumbered f r.popFrame r'.popFrame := by
  refine ⟨h.trace, h.output_eq, ?_⟩
  simp [CallStack.pop, h.frames_eq, List.map_dropLast]

end Recorder.Renumbered

end TraceTutor

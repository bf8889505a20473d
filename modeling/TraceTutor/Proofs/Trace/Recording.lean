import TraceTutor.Trace.Recorder

/-!
# Laws of recording

A recorder only appends. `Recorder.Grows r r'` says that the trace and the output of `r'` continue
those of `r`; every operation grows the recorder, and growth is a preorder.

`Trace.WellFormed` says what every reader of a trace may rely on: snapshots are numbered from one,
lines lie within the source text, and what was emitted continues from snapshot to snapshot up to
the output of the run. `Recorder.WellFormed` is the invariant of a recorder that yields it.
-/

namespace TraceTutor

/-! ## Growth -/

namespace Recorder

/-- What is recorded in `r` stands at the front of what is recorded in `r'`. -/
structure Grows (r r' : Recorder) : Prop where
  trace : r.trace <+: r'.trace
  output : r.output.toList <+: r'.output.toList

theorem Grows.refl (r : Recorder) : r.Grows r :=
  ⟨List.prefix_refl _, List.prefix_refl _⟩

theorem Grows.trans {r s t : Recorder} (h : r.Grows s) (h' : s.Grows t) : r.Grows t :=
  ⟨h.trace.trans h'.trace, h.output.trans h'.output⟩

theorem grows_commit (r : Recorder) (line : Nat) (bindings : Bindings)
    (condition note : Option String) : r.Grows (r.commit line bindings condition note) := by
  refine ⟨?_, List.prefix_refl _⟩
  rw [trace_commit]
  exact List.prefix_append _ _

theorem grows_pushFrame (r : Recorder) (frame : Frame) : r.Grows (r.pushFrame frame) :=
  ⟨List.prefix_refl _, List.prefix_refl _⟩

theorem grows_popFrame (r : Recorder) : r.Grows r.popFrame :=
  ⟨List.prefix_refl _, List.prefix_refl _⟩

theorem grows_emit (r : Recorder) (text : String) : r.Grows (r.emit text) := by
  refine ⟨List.prefix_refl _, ?_⟩
  rw [output_emit, Array.toList_push]
  exact List.prefix_append _ _

theorem isEmpty_iff_trace (r : Recorder) : r.isEmpty = true ↔ r.trace = [] := by
  simp [isEmpty, trace]

end Recorder

/-! ## Well-formed traces -/

/-- A number of a line in a text of `count` lines. -/
def IsLine (count line : Nat) : Prop :=
  1 ≤ line ∧ line ≤ count

/-- A trace of a run of a text of `count` lines that wrote `output`. -/
structure Trace.WellFormed (count : Nat) (output : List String) (t : Trace) : Prop where
  /-- Snapshots are numbered from one. -/
  index_eq : ∀ (i : Nat) (h : i < t.length), t[i].index = i + 1
  isLine : ∀ s ∈ t, IsLine count s.line
  isLine_frame : ∀ s ∈ t, ∀ f ∈ s.callStack, IsLine count f.line
  /-- What a snapshot has emitted, every later one has emitted first. -/
  emitted_pairwise : t.Pairwise fun s s' => s.emitted <+: s'.emitted
  emitted_output : ∀ s ∈ t, s.emitted <+: output

namespace Trace.WellFormed

theorem nil (count : Nat) (output : List String) : WellFormed count output [] where
  index_eq := by simp
  isLine := by simp
  isLine_frame := by simp
  emitted_pairwise := .nil
  emitted_output := by simp

theorem mono_output {count : Nat} {output output' : List String} {t : Trace}
    (h : WellFormed count output t) (ho : output <+: output') : WellFormed count output' t :=
  { h with emitted_output := fun s hs => (h.emitted_output s hs).trans ho }

/-- A snapshot of all output may follow. -/
theorem append {count : Nat} {output : List String} {t : Trace} {s : Snapshot}
    (h : WellFormed count output t) (hindex : s.index = t.length + 1) (hline : IsLine count s.line)
    (hframes : ∀ f ∈ s.callStack, IsLine count f.line) (hemitted : s.emitted = output) :
    WellFormed count output (t ++ [s]) where
  index_eq i hi := by
    by_cases hlt : i < t.length
    · rw [List.getElem_append_left hlt]
      exact h.index_eq i hlt
    · have hi' : i = t.length := by
        simp only [List.length_append, List.length_singleton] at hi
        omega
      subst hi'
      simpa using hindex
  isLine := by
    intro s' hs'
    rcases List.mem_append.1 hs' with hs' | hs'
    · exact h.isLine s' hs'
    · exact List.mem_singleton.1 hs' ▸ hline
  isLine_frame := by
    intro s' hs'
    rcases List.mem_append.1 hs' with hs' | hs'
    · exact h.isLine_frame s' hs'
    · exact List.mem_singleton.1 hs' ▸ hframes
  emitted_pairwise := by
    refine List.pairwise_append.2 ⟨h.emitted_pairwise, List.pairwise_singleton _ _, ?_⟩
    intro s₁ hs₁ s₂ hs₂
    rw [List.mem_singleton.1 hs₂, hemitted]
    exact h.emitted_output s₁ hs₁
  emitted_output := by
    intro s' hs'
    rcases List.mem_append.1 hs' with hs' | hs'
    · exact h.emitted_output s' hs'
    · have hall : s'.emitted = output := List.mem_singleton.1 hs' ▸ hemitted
      exact hall ▸ List.prefix_refl _

end Trace.WellFormed

namespace Recorder

/-- The trace so far is well formed, and so is every snapshot that may come next. -/
structure WellFormed (count : Nat) (r : Recorder) : Prop where
  trace : Trace.WellFormed count r.output.toList r.trace
  frames : ∀ f ∈ r.stack.frames, IsLine count f.line

namespace WellFormed

variable {count : Nat} {r : Recorder}

theorem empty (count : Nat) : WellFormed count .empty :=
  ⟨.nil _ _, by simp [Recorder.empty, CallStack.empty]⟩

theorem commit (h : WellFormed count r) {line : Nat} (hline : IsLine count line)
    (bindings : Bindings) (condition note : Option String) :
    WellFormed count (r.commit line bindings condition note) := by
  refine ⟨?_, h.frames⟩
  rw [trace_commit]
  exact h.trace.append rfl hline h.frames rfl

theorem pushFrame (h : WellFormed count r) {frame : Frame} (hline : IsLine count frame.line) :
    WellFormed count (r.pushFrame frame) := by
  refine ⟨h.trace, ?_⟩
  intro f hf
  rcases List.mem_append.1 hf with hf | hf
  · exact h.frames f hf
  · exact List.mem_singleton.1 hf ▸ hline

theorem popFrame (h : WellFormed count r) : WellFormed count r.popFrame :=
  ⟨h.trace, fun f hf => h.frames f ((List.dropLast_subset _) hf)⟩

theorem emit (h : WellFormed count r) (text : String) : WellFormed count (r.emit text) :=
  ⟨h.trace.mono_output (r.grows_emit text).output, h.frames⟩

end WellFormed

end Recorder

end TraceTutor

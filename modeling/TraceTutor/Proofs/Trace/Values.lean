import TraceTutor.Proofs.Bindings
import TraceTutor.Proofs.Trace.Normal
import TraceTutor.Trace.Recorder

/-!
# Values of traces

A property of values holds throughout a trace if it holds of all values in its bindings and in its
frames (`Trace.AllValues`). A recorder keeps to that as long as it is given such bindings only.
-/

namespace TraceTutor

variable {P : Value → Prop}

/-- The property holds of all values in the bindings and in the frames. -/
structure Snapshot.AllValues (P : Value → Prop) (s : Snapshot) : Prop where
  bindings : s.bindings.AllValues P
  frames : ∀ frame ∈ s.callStack, frame.bindings.AllValues P

def Trace.AllValues (P : Value → Prop) (t : Trace) : Prop :=
  ∀ s ∈ t, s.AllValues P

/-- The property holds of all values recorded and in the frames of the active calls. -/
structure Recorder.AllValues (P : Value → Prop) (r : Recorder) : Prop where
  trace : Trace.AllValues P r.trace
  frames : ∀ frame ∈ r.stack.frames, frame.bindings.AllValues P

namespace Recorder.AllValues

variable {r : Recorder}

theorem empty : AllValues P .empty :=
  ⟨nofun, nofun⟩

theorem commit {b : Bindings} (h : r.AllValues P) (hb : b.AllValues P) (line : Nat)
    (condition note : Option String) : AllValues P (r.commit line b condition note) := by
  refine ⟨fun s hs => ?_, h.frames⟩
  rw [trace_commit] at hs
  rcases List.mem_append.1 hs with hs | hs
  · exact h.trace s hs
  · rw [List.mem_singleton.1 hs]
    exact ⟨hb, h.frames⟩

theorem pushFrame {frame : Frame} (h : r.AllValues P) (hframe : frame.bindings.AllValues P) :
    AllValues P (r.pushFrame frame) := by
  refine ⟨h.trace, fun f hf => ?_⟩
  rcases List.mem_append.1 hf with hf | hf
  · exact h.frames f hf
  · rwa [List.mem_singleton.1 hf]

theorem popFrame (h : r.AllValues P) : AllValues P r.popFrame :=
  ⟨h.trace, fun f hf => h.frames f (List.dropLast_subset _ hf)⟩

theorem emit (h : r.AllValues P) (text : String) : AllValues P (r.emit text) :=
  ⟨h.trace, h.frames⟩

end Recorder.AllValues

/-- The bindings of a trace are in normal form if all values in it are. -/
theorem Trace.AllValues.isNormal {t : Trace} (h : t.AllValues Value.IsNormal) : t.IsNormal :=
  fun s hs _ _ hv => (h s hs).bindings.of_get? hv

end TraceTutor

import TraceTutor.Proofs.CLike.LineReader
import TraceTutor.Proofs.CLike.Run
import TraceTutor.Proofs.Trace.Values
import TraceTutor.Proofs.Value.Closed

/-!
# Values of line-stepped programs

The integers that a line states are signed words (`hasWords_classify`), and every other value that a
step binds is the result of an operator or of the factorial. So a property that operators keep holds
of all values in the trace of a run (`allValues_run`).
-/

namespace TraceTutor

namespace CLike

/-! ## Integers of lines -/

namespace LineReader

theorem gives_integer : Gives (fun n => isWord n = true) integer := by
  refine .andThen fun _ => .andThen fun negative => .andThen fun digits => ?_
  refine .guard fun text htest => ?_
  exact by simpa using (Bool.or_eq_false_iff.1 htest).2

theorem gives_assignment : Gives (fun s => isWord s.2 = true) assignment :=
  .andThen fun _ => .andThen fun _ => .bind gives_integer fun _ hn => .andThen fun _ => .pure hn

theorem gives_declaration : Gives (fun s => isWord s.2 = true) declaration :=
  .andThen fun _ => gives_assignment

theorem gives_factorialAssignment : Gives (fun s => isWord s.2 = true) factorialAssignment := by
  refine .andThen fun target => .andThen fun _ => .andThen fun callee => ?_
  have hrest : Gives (fun s : String × Int => isWord s.2 = true) (do
      sign "("
      let argument ← integer
      sign ")"
      terminator
      return (target, argument)) :=
    .andThen fun _ => .bind gives_integer fun n hn => .andThen fun _ => .andThen fun _ => .pure hn
  dsimp only
  split
  · exact .andThen fun _ => hrest
  · exact hrest

theorem gives_factorialCall : Gives (fun s => isWord s.2 = true) factorialCall := by
  intro text x rest h
  unfold factorialCall at h
  split at h
  · exact gives_factorialAssignment _ x rest h
  · exact gives_factorialAssignment _ x rest h

end LineReader

/-- The integers of the statement are signed words. -/
def Statement.HasWords : Statement → Prop
  | .declare _ n => isWord n = true
  | .assign _ n => isWord n = true
  | .factorialCall _ n => isWord n = true
  | _ => True

theorem hasWords_of_statement? {bindings : Bindings} {line : List Char} {statement : Statement}
    (h : statement? bindings line = some statement) : statement.HasWords := by
  unfold statement? at h
  simp only [Option.orElse_eq_orElse, Option.orElse_eq_or, Option.or_eq_some_iff,
    Option.map_eq_some_iff, Option.filter_eq_some_iff] at h
  obtain ⟨s, hs, rfl⟩ | ⟨-, ⟨s, ⟨hs, -⟩, rfl⟩ | ⟨-, h⟩⟩ := h
  · exact LineReader.gives_declaration.read? hs
  · exact LineReader.gives_assignment.read? hs
  obtain ⟨s, -, rfl⟩ | ⟨-, ⟨s, -, rfl⟩ | ⟨-, ⟨s, -, rfl⟩ | ⟨-, h⟩⟩⟩ := h
  · trivial
  · trivial
  · trivial
  obtain h | ⟨-, ⟨s, -, rfl⟩ | ⟨-, s, hs, rfl⟩⟩ := h
  · split at h <;> cases h
    trivial
  · trivial
  · exact LineReader.gives_factorialCall.read? hs

theorem hasWords_classify (bindings : Bindings) (line : List Char) :
    (classify bindings line).HasWords := by
  unfold classify classifyTrimmed
  split
  · trivial
  · cases h : statement? bindings (Text.trim line) with
    | none => trivial
    | some statement => exact hasWords_of_statement? h

/-! ## Steps -/

namespace Stepper

/-- The property holds of all values that are bound and that are recorded. -/
structure AllValues (P : Value → Prop) (s : Stepper) : Prop where
  bindings : s.bindings.AllValues P
  recorder : s.recorder.AllValues P

variable {P : Value → Prop} {s : Stepper}

theorem allValues_initial : AllValues P initial :=
  ⟨Bindings.allValues_empty P, .empty⟩

namespace AllValues

theorem moveTo (h : s.AllValues P) (cursor : Nat) : AllValues P (s.moveTo cursor) :=
  ⟨h.bindings, h.recorder⟩

theorem capture (h : s.AllValues P) (condition : Option String) (note : String) :
    AllValues P (s.capture condition note) :=
  ⟨h.bindings, h.recorder.commit h.bindings _ _ _⟩

theorem bind {v : Value} (h : s.AllValues P) (hv : P v) (name note : String) :
    AllValues P (s.bind name v note) :=
  capture (s := { s with bindings := s.bindings.set name v })
    ⟨h.bindings.set hv name, h.recorder⟩ none note

/-- The frame of a factorial holds its argument. -/
theorem callFactorial (hP : Value.IsClosed P) (h : s.AllValues P) (target : String) {n : Int}
    (hn : isWord n = true) : AllValues P (s.callFactorial target n) := by
  have hframe : Bindings.AllValues P (.ofList [("n", .int n)]) :=
    Bindings.allValues_ofList (List.forall_mem_singleton.2 (hP.int hn))
  have hcalled : AllValues P { s with
      recorder := s.recorder.pushFrame ⟨"factorial", .ofList [("n", .int n)], s.line⟩ } :=
    ⟨h.bindings, h.recorder.pushFrame hframe⟩
  have hbound := hcalled.bind (hP.factorial n) target
    s!"Function factorial({n}) called, result = {(factorial n).display}"
  exact ⟨hbound.bindings, hbound.recorder.popFrame⟩

theorem effect (hP : Value.IsClosed P) (h : s.AllValues P) {statement : Statement}
    (hstatement : statement.HasWords) : AllValues P (s.effect statement) := by
  cases statement with
  | declare name n | assign name n => exact h.bind (hP.int hstatement) name _
  | increment name => exact h.bind (hP.add _ _) name _
  | addAssign target operand => exact h.bind (hP.add _ _) target _
  | output text =>
    exact capture (s := { s with recorder := s.recorder.emit text })
      ⟨h.bindings, h.recorder.emit text⟩ none _
  | factorialCall target n => exact h.callFactorial hP target hstatement
  | noOp | unrecognized | loopHead | closeBrace => exact h

theorem apply (hP : Value.IsClosed P) (h : s.AllValues P) (lines : List (List Char))
    {statement : Statement} (hstatement : statement.HasWords) :
    AllValues P (s.apply lines statement) := by
  cases statement with
  | loopHead condition =>
    show AllValues P (s.enterLoop lines condition)
    unfold enterLoop
    split
    · exact (h.capture _ _).moveTo _
    · exact h.moveTo _
  | closeBrace =>
    show AllValues P (s.closeBlock lines)
    unfold closeBlock
    split <;> exact h.moveTo _
  | _ => exact (h.effect hP hstatement).moveTo _

theorem step (hP : Value.IsClosed P) (h : s.AllValues P) (lines : List (List Char)) :
    AllValues P (s.step lines) := by
  unfold Stepper.step
  split
  · exact h.apply hP lines (hasWords_classify _ _)
  · exact h

theorem toRun (h : s.AllValues P) (lines : List (List Char)) :
    (s.toRun lines).trace.AllValues P := by
  unfold Stepper.toRun
  dsimp only
  split
  · exact (h.recorder.commit h.bindings _ _ _).trace
  · exact h.recorder.trace

end AllValues

end Stepper

/-- A property that operators keep holds of all values in the trace of a run. -/
theorem allValues_run {P : Value → Prop} (hP : Value.IsClosed P) (limits : Limits)
    (source : String) : (run limits source).trace.AllValues P := by
  rw [run_eq_toRun]
  refine Stepper.AllValues.toRun ?_ _
  exact Stepper.after_induction _ Stepper.allValues_initial (fun _ hs => hs.step hP _) _

end CLike

end TraceTutor

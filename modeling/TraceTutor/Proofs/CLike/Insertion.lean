import TraceTutor.Proofs.CLike.Nesting
import TraceTutor.Proofs.CLike.Run
import TraceTutor.Proofs.Trace.Renumbering

/-!
# Inserted lines

A line that says nothing and has no braces may stand anywhere in a line-stepped program: the run
with it is the run without it, and only the numbers of the lines below it change
(`run_insert_inert`).

The two runs are compared by a simulation. Their cursors stand on the same line (`IsMoved`), or the
cursor of the longer program is on the inserted line and passes it in a step of its own. Both
searches over braces pass the inserted line, because it does not change the depth that they are at.
-/

namespace TraceTutor

namespace CLike

/-! ## Positions -/

/-- The position that a position becomes when a line is inserted at `p`. The position `p` itself is
that of the inserted line, and the next one that of the line that was there. -/
def IsMoved (p c c' : Nat) : Prop :=
  c ≤ p ∧ c' = c ∨ p ≤ c ∧ c' = c + 1

section Searches

variable {before after : List (List Char)} {line : List Char} {c c' : Nat}

/-- The cursors stand on the same line, unless one of them is on the inserted line. -/
theorem getElem?_of_isMoved (h : IsMoved before.length c c') (hc : c' ≠ before.length) :
    (before ++ line :: after)[c']? = (before ++ after)[c]? := by
  obtain ⟨hle, rfl⟩ | ⟨hle, rfl⟩ := h
  · have hlt : c' < before.length := by omega
    rw [List.getElem?_append_left hlt, List.getElem?_append_left hlt]
  · have hsub : c + 1 - before.length = (c - before.length) + 1 := by omega
    rw [List.getElem?_append_right (by omega), List.getElem?_append_right hle, hsub,
      List.getElem?_cons_succ]

theorem lineShifted_of_isMoved {p : Nat} (h : IsMoved p c c') (hc : c' ≠ p) :
    c' + 1 = lineShifted p 1 (c + 1) := by
  unfold lineShifted
  obtain ⟨hle, rfl⟩ | ⟨hle, rfl⟩ := h
  · rw [if_pos (by omega)]
  · rw [if_neg (by omega)]

variable (hline : braceDelta line = 0)
include hline

/-- A search forward passes the inserted line, or ends before it. -/
theorem bodyLength_insert {depth : Int} (hdepth : 0 < depth) (before after : List (List Char)) :
    IsMoved before.length (bodyLength depth (before ++ after))
      (bodyLength depth (before ++ line :: after)) := by
  induction before generalizing depth with
  | nil =>
    have hpass : bodyLength depth (line :: after) = bodyLength depth after + 1 := by
      rw [bodyLength_cons_of_inside (by omega), hline, Int.add_zero]
    exact .inr ⟨Nat.zero_le _, hpass⟩
  | cons first before ih =>
    by_cases hend : depth + braceDelta first ≤ 0
    · have hstop : ∀ rest, bodyLength depth (first :: rest) = 1 := fun rest => by
        rw [bodyLength, if_pos hend]
      rw [List.cons_append, List.cons_append, hstop, hstop]
      exact .inl ⟨by simp, rfl⟩
    · have hinside : 0 < depth + braceDelta first := by omega
      rw [List.cons_append, List.cons_append, bodyLength_cons_of_inside hinside,
        bodyLength_cons_of_inside hinside, List.length_cons]
      obtain ⟨hle, heq⟩ | ⟨hle, heq⟩ := ih hinside
      · exact .inl ⟨by omega, by omega⟩
      · exact .inr ⟨by omega, by omega⟩

theorem skipBody_insert (h : IsMoved before.length c c') (hc : c' ≠ before.length) :
    IsMoved before.length (skipBody (before ++ after) c)
      (skipBody (before ++ line :: after) c') := by
  unfold skipBody
  obtain ⟨hle, rfl⟩ | ⟨hle, rfl⟩ := h
  · -- The head stands above the inserted line, which may be in its body.
    have hlength : (before.drop (c' + 1)).length = before.length - (c' + 1) := List.length_drop
    have hdrop : ∀ rest, (before ++ rest).drop (c' + 1) = before.drop (c' + 1) ++ rest :=
      fun rest => List.drop_append_of_le_length (by omega)
    rw [hdrop, hdrop]
    obtain ⟨hshort, heq⟩ | ⟨hlong, heq⟩ :=
      bodyLength_insert hline Int.zero_lt_one (before.drop (c' + 1)) after
    · exact .inl ⟨by omega, by omega⟩
    · exact .inr ⟨by omega, by omega⟩
  · have hsub : c + 1 + 1 - before.length = (c + 1 - before.length) + 1 := by omega
    have hdrop : (before ++ line :: after).drop (c + 1 + 1) = (before ++ after).drop (c + 1) := by
      have hnil : ∀ n, before.length ≤ n → before.drop n = [] := fun n => List.drop_eq_nil_of_le
      rw [List.drop_append, List.drop_append, hsub, List.drop_succ_cons, hnil _ (by omega),
        hnil _ (by omega)]
    rw [hdrop]
    exact .inr ⟨by omega, by omega⟩

/-- A search backward passes the inserted line, or starts above it. -/
theorem findHeadFrom_insert (after : List (List Char)) {depth : Int} (hdepth : 0 < depth)
    (h : IsMoved before.length c c') :
    Option.Rel (fun head head' => IsMoved before.length head head' ∧ head' ≠ before.length)
      (findHeadFrom (before ++ after) depth c)
      (findHeadFrom (before ++ line :: after) depth c') := by
  induction c generalizing c' depth with
  | zero =>
    obtain ⟨-, rfl⟩ | ⟨hle, rfl⟩ := h
    · exact .none
    · have hfirst : (before ++ line :: after)[0]? = some line := by
        rw [List.length_eq_zero_iff.1 (Nat.le_zero.1 hle)]
        rfl
      rw [findHeadFrom_succ hfirst (by omega)]
      exact .none
  | succ c ih =>
    -- What the two searches do on the same line, above or below the inserted one.
    have hsame : ∀ {k : Nat}, IsMoved before.length c k → k ≠ before.length →
        Option.Rel (fun head head' => IsMoved before.length head head' ∧ head' ≠ before.length)
          (findHeadFrom (before ++ after) depth (c + 1))
          (findHeadFrom (before ++ line :: after) depth (k + 1)) := by
      intro k hk hne
      rw [findHeadFrom, findHeadFrom, getElem?_of_isMoved hk hne]
      split
      · exact .some ⟨hk, hne⟩
      · exact ih (by omega) hk
    obtain ⟨hle, rfl⟩ | ⟨hle, rfl⟩ := h
    · exact hsame (.inl ⟨by omega, rfl⟩) (by omega)
    · by_cases hbelow : before.length ≤ c
      · exact hsame (.inr ⟨hbelow, rfl⟩) (by omega)
      · -- The search starts right below the inserted line.
        have hposition : c + 1 = before.length := by omega
        have hinserted : (before ++ line :: after)[c + 1]? = some line := by
          rw [hposition, List.getElem?_append_right (Nat.le_refl _), Nat.sub_self,
            List.getElem?_cons_zero]
        rw [findHeadFrom_succ hinserted (by omega), hline, Int.sub_zero]
        exact hsame (.inl ⟨by omega, rfl⟩) (by omega)

end Searches

/-! ## The simulation -/

namespace Stepper

/-- The second state is the first one in the longer program. -/
structure MovedBelow (count : Nat) (s s' : Stepper) : Prop where
  bindings_eq : s'.bindings = s.bindings
  recorder : s.recorder.Renumbered (lineShifted count 1) s'.recorder
  cursor : IsMoved count s.cursor s'.cursor

namespace MovedBelow

variable {count : Nat} {s s' : Stepper}

theorem moveTo (h : s.MovedBelow count s') {c c' : Nat} (hc : IsMoved count c c') :
    (s.moveTo c).MovedBelow count (s'.moveTo c') :=
  ⟨h.bindings_eq, h.recorder, hc⟩

theorem withRecorder (h : s.MovedBelow count s') {r r' : Recorder}
    (hr : r.Renumbered (lineShifted count 1) r') :
    MovedBelow count { s with recorder := r } { s' with recorder := r' } :=
  ⟨h.bindings_eq, hr, h.cursor⟩

variable (h : s.MovedBelow count s') (hc : s'.cursor ≠ count)
include h hc

theorem moveOn : s.moveOn.MovedBelow count s'.moveOn := by
  refine h.moveTo ?_
  obtain ⟨hle, heq⟩ | ⟨hle, heq⟩ := h.cursor
  · exact .inl ⟨by omega, by omega⟩
  · exact .inr ⟨by omega, by omega⟩

theorem capture (condition : Option String) (note : String) :
    (s.capture condition note).MovedBelow count (s'.capture condition note) := by
  refine ⟨h.bindings_eq, ?_, h.cursor⟩
  have hline : s'.line = lineShifted count 1 s.line := lineShifted_of_isMoved h.cursor hc
  unfold Stepper.capture
  rw [hline, h.bindings_eq]
  exact h.recorder.commit s.line s.bindings condition note

theorem bind (name : String) (v : Value) (note : String) :
    (s.bind name v note).MovedBelow count (s'.bind name v note) := by
  have hset : MovedBelow count { s with bindings := s.bindings.set name v }
      { s' with bindings := s'.bindings.set name v } := by
    refine ⟨?_, h.recorder, h.cursor⟩
    rw [h.bindings_eq]
  exact hset.capture hc none note

theorem callFactorial (target : String) (argument : Int) :
    (s.callFactorial target argument).MovedBelow count (s'.callFactorial target argument) := by
  have hline : s'.line = lineShifted count 1 s.line := lineShifted_of_isMoved h.cursor hc
  have hpush := h.recorder.pushFrame ⟨"factorial", .ofList [("n", .int argument)], s.line⟩
  rw [Frame.renumber, ← hline] at hpush
  have hbind := (h.withRecorder hpush).bind hc target (factorial argument)
    s!"Function factorial({argument}) called, result = {(factorial argument).display}"
  exact hbind.withRecorder hbind.recorder.popFrame

theorem effect (statement : Statement) :
    (s.effect statement).MovedBelow count (s'.effect statement) := by
  have hvalue : s'.valueOf = s.valueOf := by
    funext name
    rw [Stepper.valueOf, h.bindings_eq, Stepper.valueOf]
  cases statement with
  | declare name value => exact h.bind hc _ _ _
  | assign name value => exact h.bind hc _ _ _
  | increment name =>
    unfold Stepper.effect
    rw [hvalue]
    exact h.bind hc _ _ _
  | addAssign target operand =>
    unfold Stepper.effect
    rw [hvalue]
    exact h.bind hc _ _ _
  | output text => exact (h.withRecorder (h.recorder.emit text)).capture hc none _
  | factorialCall target argument => exact h.callFactorial hc target argument
  | noOp | unrecognized | loopHead | closeBrace => exact h

end MovedBelow

section Inserted

variable {before after : List (List Char)} {line : List Char} {s s' : Stepper}
  (h : s.MovedBelow before.length s')

section Step

variable (hline : braceDelta line = 0) (hc : s'.cursor ≠ before.length)
include h hline hc

theorem enterLoop_insert (condition : LoopCondition) :
    (s.enterLoop (before ++ after) condition).MovedBelow before.length
      (s'.enterLoop (before ++ line :: after) condition) := by
  unfold enterLoop
  rw [h.bindings_eq]
  split
  · refine MovedBelow.moveOn ?_ hc
    unfold captureHead
    rw [h.bindings_eq]
    exact h.capture hc _ _
  · exact h.moveTo (skipBody_insert hline h.cursor hc)

omit hc in
theorem backTarget?_insert (hin : s.cursor < (before ++ after).length) :
    Option.Rel (IsMoved before.length) (s.backTarget? (before ++ after))
      (s'.backTarget? (before ++ line :: after)) := by
  have hin' : s'.cursor ≤ (before ++ line :: after).length := by
    rw [List.length_append] at hin ⊢
    rw [List.length_cons]
    obtain ⟨-, heq⟩ | ⟨-, heq⟩ := h.cursor <;> omega
  have hfind := findHeadFrom_insert hline after Int.zero_lt_one h.cursor
  unfold backTarget? findHead
  rw [Nat.min_eq_left (Nat.le_of_lt hin), Nat.min_eq_left hin', h.bindings_eq]
  generalize findHeadFrom (before ++ after) 1 s.cursor = head? at hfind ⊢
  generalize findHeadFrom (before ++ line :: after) 1 s'.cursor = head?' at hfind ⊢
  cases hfind with
  | none => exact .none
  | @some head head' hhead =>
    simp only [Option.bind_eq_bind, Option.bind_some, getElem?_of_isMoved hhead.1 hhead.2]
    rw [← Option.bind_assoc, ← Option.bind_assoc]
    cases (before ++ after)[head]?.bind LoopCondition.ofLine? with
    | none => exact .none
    | some condition =>
      rw [Option.bind_some, Option.bind_some]
      split
      · exact .some hhead.1
      · exact .none

theorem closeBlock_insert (hin : s.cursor < (before ++ after).length) :
    (s.closeBlock (before ++ after)).MovedBelow before.length
      (s'.closeBlock (before ++ line :: after)) := by
  have htarget := backTarget?_insert h hline hin
  unfold closeBlock
  generalize s.backTarget? (before ++ after) = target? at htarget ⊢
  generalize s'.backTarget? (before ++ line :: after) = target?' at htarget ⊢
  cases htarget with
  | none => exact h.moveOn hc
  | some hmoved => exact h.moveTo hmoved

/-- On the same line, both programs do the same. -/
theorem step_insert :
    (s.step (before ++ after)).MovedBelow before.length (s'.step (before ++ line :: after)) := by
  have hsame : (before ++ line :: after)[s'.cursor]? = (before ++ after)[s.cursor]? :=
    getElem?_of_isMoved h.cursor hc
  unfold step
  rw [hsame]
  split
  next current hget =>
    rw [h.bindings_eq]
    cases classify s.bindings current with
    | loopHead condition => exact enterLoop_insert h hline hc condition
    | closeBrace => exact closeBlock_insert h hline hc (List.getElem?_eq_some_iff.1 hget).1
    | noOp | unrecognized | declare | assign | increment | addAssign | output | factorialCall =>
      exact (h.effect hc _).moveOn hc
  next => exact h

end Step

section Run

variable (hinert : ∀ bindings,
  classify bindings line = .noOp ∨ classify bindings line = .unrecognized)
include h hinert

/-- The inserted line is passed in one step, after which both cursors are on the same line. -/
theorem exists_after_off_insert (after : List (List Char)) : ∃ n,
    s.MovedBelow before.length (s'.after (before ++ line :: after) n) ∧
    (s'.after (before ++ line :: after) n).cursor ≠ before.length := by
  by_cases hc : s'.cursor = before.length
  · have hget : (before ++ line :: after)[s'.cursor]? = some line := by simp [hc]
    have hstep : s'.step (before ++ line :: after) = s'.moveOn := by
      rw [step_eq_apply hget]
      obtain hkind | hkind := hinert s'.bindings
      · rw [hkind]
        rfl
      · rw [hkind]
        rfl
    have hcursor : s.cursor = before.length := by
      obtain ⟨hle, heq⟩ | ⟨hle, heq⟩ := h.cursor <;> omega
    refine ⟨1, ?_, ?_⟩
    · rw [after_succ, after_zero, hstep]
      exact ⟨h.bindings_eq, h.recorder, .inr ⟨hcursor.ge, by rw [hcursor, ← hc]; rfl⟩⟩
    · rw [after_succ, after_zero, hstep]
      exact fun hsame => absurd hsame (by simp [moveOn, moveTo, hc])
  · exact ⟨0, h, hc⟩

/-- The longer program reaches all that the other one reaches. -/
theorem exists_after_insert (hline : braceDelta line = 0) (after : List (List Char)) (n : Nat) :
    ∃ m,
    (s.after (before ++ after) n).MovedBelow before.length
      (s'.after (before ++ line :: after) m) := by
  induction n with
  | zero => exact ⟨0, h⟩
  | succ n ih =>
    obtain ⟨m, hm⟩ := ih
    obtain ⟨k, hk, hoff⟩ := exists_after_off_insert hm hinert after
    rw [← after_add] at hk hoff
    refine ⟨m + k + 1, ?_⟩
    rw [after_succ', after_succ']
    exact step_insert hk hline hoff

end Run

end Inserted

end Stepper

/-! ## Runs -/

theorem length_insert (before after : List (List Char)) (line : List Char) :
    (before ++ line :: after).length = (before ++ after).length + 1 := by
  simp [Nat.add_assoc]

/-- Where the shorter program ends, the longer one ends as well: its cursor is off the inserted
line. -/
theorem Stepper.exists_end_insert {before after : List (List Char)} {line : List Char}
    (hinert : ∀ bindings,
      classify bindings line = .noOp ∨ classify bindings line = .unrecognized)
    (hline : braceDelta line = 0) {n : Nat}
    (hend : (initial.after (before ++ after) n).isRunning (before ++ after) = false) :
    ∃ m, (initial.after (before ++ line :: after) m).isRunning (before ++ line :: after) = false ∧
      (initial.after (before ++ after) n).MovedBelow before.length
        (initial.after (before ++ line :: after) m) := by
  have hinitial : initial.MovedBelow before.length initial :=
    ⟨rfl, .empty _, .inl ⟨Nat.zero_le _, rfl⟩⟩
  obtain ⟨m, hm⟩ := exists_after_insert hinitial hinert hline after n
  obtain ⟨k, hk, hoff⟩ := exists_after_off_insert hm hinert after
  rw [← after_add] at hk hoff
  refine ⟨m + k, ?_, hk⟩
  have hend' : ¬ (initial.after (before ++ after) n).cursor < (before ++ after).length := by
    rw [← isRunning_iff, hend]
    exact Bool.false_ne_true
  rw [Bool.eq_false_iff, Ne, isRunning_iff, length_insert]
  have hlength : before.length ≤ (before ++ after).length := by simp
  obtain ⟨hle, heq⟩ | ⟨hle, heq⟩ := hk.cursor <;> omega

section Runs

variable {before after : List (List Char)} {line : List Char}
  (hinert : ∀ bindings,
    classify bindings line = .noOp ∨ classify bindings line = .unrecognized)
  (hbraces : countBraces line = (0, 0)) {limits limits' : Limits} {source source' : String}
  (hsource : Text.lines source.toList = before ++ after)
  (hsource' : Text.lines source'.toList = before ++ line :: after)
  (huncut : (run limits source).truncated = false)
  (huncut' : (run limits' source').truncated = false)
include hinert hbraces hsource hsource' huncut huncut'

/-- Two runs that end by themselves end in the same state. -/
theorem finalState_insert :
    (finalState limits source).MovedBelow before.length (finalState limits' source') := by
  have hline : braceDelta line = 0 := by
    rw [braceDelta_of_countBraces hbraces]
    rfl
  rw [run_truncated] at huncut huncut'
  rw [finalState, hsource] at huncut ⊢
  obtain ⟨n, hstop, hmoved⟩ := Stepper.exists_end_insert hinert hline huncut
  rw [← hsource'] at hstop hmoved
  rw [finalState_eq huncut' hstop]
  exact hmoved

/-- A line that says nothing and has no braces, inserted anywhere, changes nothing about a run but
the numbers of the lines below it. -/
theorem run_insert_inert :
    (run limits' source').output = (run limits source).output ∧
    ((run limits source).trace.Renumbered (lineShifted before.length 1)
        (run limits' source').trace ∨
      (run limits source).trace = [placeholder] ∧
        (run limits' source').trace = [placeholder]) := by
  have hfinal := finalState_insert hinert hbraces hsource hsource' huncut huncut'
  rw [run_output, run_output, hfinal.recorder.output_eq, run_trace, run_trace]
  exact ⟨rfl, orPlaceholder_rel hfinal.recorder.trace⟩

end Runs

/-- A program that counts to two and calls a function, with more lines at the end of its loop. -/
def countAndCall (more : String) : String :=
  "int i = 0;\nwhile (i < 2) \x7b\n  i++;\n" ++ more ++ "\x7d\nint f = factorial(3);\n"

theorem run_insert_inert_countAndCall :
    (run ⟨50, 0, 0⟩ (countAndCall "")).truncated = false ∧
    (run ⟨50, 0, 0⟩ (countAndCall "  print(i);\n")).truncated = false ∧
    ((run ⟨50, 0, 0⟩ (countAndCall "")).trace.Renumbered (lineShifted 3 1)
        (run ⟨50, 0, 0⟩ (countAndCall "  print(i);\n")).trace ∨
      (run ⟨50, 0, 0⟩ (countAndCall "")).trace = [placeholder] ∧
        (run ⟨50, 0, 0⟩ (countAndCall "  print(i);\n")).trace = [placeholder]) ∧
    (run ⟨50, 0, 0⟩ (countAndCall "")).trace.map Snapshot.line = [1, 2, 3, 2, 3, 5] ∧
    (run ⟨50, 0, 0⟩ (countAndCall "  print(i);\n")).trace.map Snapshot.line =
      [1, 2, 3, 2, 3, 6] := by
  have hinert : ∀ bindings, classify bindings "  print(i);".toList = .noOp ∨
      classify bindings "  print(i);".toList = .unrecognized := fun _ => .inr rfl
  have hbraces : countBraces "  print(i);".toList = (0, 0) := by decide
  have hshort : (run ⟨50, 0, 0⟩ (countAndCall "")).truncated = false ∧
      (run ⟨50, 0, 0⟩ (countAndCall "")).trace.map Snapshot.line = [1, 2, 3, 2, 3, 5] := by
    decide +kernel
  have hlong : (run ⟨50, 0, 0⟩ (countAndCall "  print(i);\n")).truncated = false ∧
      (run ⟨50, 0, 0⟩ (countAndCall "  print(i);\n")).trace.map Snapshot.line =
        [1, 2, 3, 2, 3, 6] := by
    decide +kernel
  have hsource : Text.lines (countAndCall "").toList =
      ["int i = 0;".toList, "while (i < 2) \x7b".toList, "  i++;".toList] ++
        ["\x7d".toList, "int f = factorial(3);".toList] := by decide +kernel
  have hsource' : Text.lines (countAndCall "  print(i);\n").toList =
      ["int i = 0;".toList, "while (i < 2) \x7b".toList, "  i++;".toList] ++
        "  print(i);".toList :: ["\x7d".toList, "int f = factorial(3);".toList] := by
    decide +kernel
  have hsame := run_insert_inert hinert hbraces hsource hsource' hshort.1 hlong.1
  exact ⟨hshort.1, hlong.1, hsame.2, hshort.2, hlong.2⟩

end CLike

end TraceTutor

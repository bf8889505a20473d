import TraceTutor.Proofs.CLike.Classification
import TraceTutor.Proofs.CLike.Run

/-!
# Meaning of lines

A run sees a line only through what it does in each state and through its braces (`meaning`).
Programs whose lines mean the same have the same run (`run_eq_of_meaning`).
-/

namespace TraceTutor

namespace CLike

open Text

/-- What a line means to a run: what it does in each state, and how much deeper it leads. -/
def meaning (line : List Char) : (Bindings → Statement) × Int :=
  (fun bindings => classify bindings line, braceDelta line)

theorem ofLine?_eq_of_meaning {line line' : List Char} (h : meaning line' = meaning line) :
    LoopCondition.ofLine? line' = LoopCondition.ofLine? line := by
  have hiff : ∀ line condition, LoopCondition.ofLine? line = some condition ↔
      (meaning line).1 .empty = .loopHead condition := fun line condition =>
    ⟨classify_of_ofLine? .empty, ofLine?_of_classify⟩
  ext condition
  rw [hiff, hiff, h]

section Meaning

variable {lines lines' : List (List Char)} (h : lines'.map meaning = lines.map meaning)
include h

/-- At each position there are lines of one meaning in both programs, or none. -/
theorem getElem?_of_meaning (position : Nat) :
    lines'[position]? = none ∧ lines[position]? = none ∨
      ∃ line' line, lines'[position]? = some line' ∧ lines[position]? = some line ∧
        meaning line' = meaning line := by
  have hmap : lines'[position]?.map meaning = lines[position]?.map meaning := by
    rw [← List.getElem?_map, ← List.getElem?_map, h]
  cases hline : lines[position]? with
  | none =>
    rw [hline, Option.map_none, Option.map_eq_none_iff] at hmap
    exact .inl ⟨hmap, rfl⟩
  | some line =>
    rw [hline, Option.map_some, Option.map_eq_some_iff] at hmap
    obtain ⟨line', hline', hmeaning⟩ := hmap
    exact .inr ⟨line', line, hline', rfl, hmeaning⟩

theorem length_eq_of_meaning : lines'.length = lines.length := by
  simpa using congrArg List.length h

theorem bodyLength_eq_of_meaning (depth : Int) :
    bodyLength depth lines' = bodyLength depth lines := by
  induction lines generalizing lines' depth with
  | nil => rw [List.map_eq_nil_iff.1 h]
  | cons line lines ih =>
    obtain ⟨line', lines', rfl, hline, hrest⟩ := List.map_eq_cons_iff.1 h
    have hdelta : braceDelta line' = braceDelta line := congrArg Prod.snd hline
    rw [bodyLength, bodyLength, hdelta, ih hrest]

theorem findHeadFrom_eq_of_meaning (depth : Int) (position : Nat) :
    findHeadFrom lines' depth position = findHeadFrom lines depth position := by
  induction position generalizing depth with
  | zero => rfl
  | succ position ih =>
    have hdelta : lines'[position]?.elim 0 braceDelta = lines[position]?.elim 0 braceDelta := by
      obtain ⟨h₁, h₂⟩ | ⟨line', line, h₁, h₂, hmeaning⟩ := getElem?_of_meaning h position
      · rw [h₁, h₂]
      · rw [h₁, h₂]
        exact congrArg Prod.snd hmeaning
    rw [findHeadFrom, findHeadFrom, hdelta, ih]

namespace Stepper

theorem backTarget?_eq_of_meaning (s : Stepper) : s.backTarget? lines' = s.backTarget? lines := by
  have hcondition : ∀ head : Nat, (lines'[head]?.bind fun line => LoopCondition.ofLine? line) =
      lines[head]?.bind fun line => LoopCondition.ofLine? line := by
    intro head
    obtain ⟨h₁, h₂⟩ | ⟨line', line, h₁, h₂, hmeaning⟩ := getElem?_of_meaning h head
    · rw [h₁, h₂]
    · rw [h₁, h₂]
      exact ofLine?_eq_of_meaning hmeaning
  unfold backTarget? findHead
  rw [length_eq_of_meaning h, findHeadFrom_eq_of_meaning h]
  simp only [Option.bind_eq_bind, ← Option.bind_assoc, hcondition]

/-- A step only depends on what the lines mean. -/
theorem step_eq_of_meaning (s : Stepper) : s.step lines' = s.step lines := by
  obtain ⟨h₁, h₂⟩ | ⟨line', line, h₁, h₂, hmeaning⟩ := getElem?_of_meaning h s.cursor
  · simp only [step, h₁, h₂]
  have hclassify : classify s.bindings line' = classify s.bindings line :=
    congrFun (congrArg Prod.fst hmeaning) s.bindings
  have hbody : skipBody lines' s.cursor = skipBody lines s.cursor := by
    have hdrop : (lines'.drop (s.cursor + 1)).map meaning =
        (lines.drop (s.cursor + 1)).map meaning := by rw [List.map_drop, List.map_drop, h]
    rw [skipBody, skipBody, bodyLength_eq_of_meaning hdrop]
  rw [step_eq_apply h₁, step_eq_apply h₂, hclassify]
  cases classify s.bindings line with
  | loopHead condition =>
    unfold apply enterLoop
    rw [hbody]
  | closeBrace =>
    unfold apply closeBlock
    rw [backTarget?_eq_of_meaning h]
  | noOp | unrecognized | declare | assign | increment | addAssign | output | factorialCall => rfl

theorem after_eq_of_meaning (s : Stepper) (n : Nat) : s.after lines' n = s.after lines n := by
  induction n generalizing s with
  | zero => rfl
  | succ n ih => rw [after_succ, after_succ, step_eq_of_meaning h, ih]

end Stepper

end Meaning

/-- Programs whose lines mean the same run alike. -/
theorem run_eq_of_meaning {limits : Limits} {source source' : String}
    (h : (lines source'.toList).map meaning = (lines source.toList).map meaning) :
    run limits source' = run limits source := by
  rw [run_eq_toRun, run_eq_toRun, finalState, finalState, Stepper.after_eq_of_meaning h,
    Stepper.toRun, Stepper.toRun, Stepper.isRunning, Stepper.isRunning, length_eq_of_meaning h]

end CLike

end TraceTutor

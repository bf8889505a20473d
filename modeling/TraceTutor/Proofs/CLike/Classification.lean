import TraceTutor.Proofs.CLike.Braces

/-!
# Lines that move the cursor

Two kinds of lines do more than pass the cursor on: loop heads and closing braces. A line is
classified as one of them exactly if it has that form, whatever the bindings are. Such lines hold a
brace, so a line without braces only has an effect.
-/

namespace TraceTutor

namespace CLike

open Text LineReader

/-! ## Loop heads -/

/-- The front of a loop head. -/
theorem exists_eq_while_of_ofLine? {line : List Char} {condition : LoopCondition}
    (h : LoopCondition.ofLine? line = some condition) :
    ∃ rest args, trimStart line = "while".toList ++ rest ∧
      rest.head?.any isWordPart = false ∧ trimStart rest = '(' :: args := by
  obtain ⟨⟨_, _⟩, hread, -⟩ := Option.map_eq_some_iff.1 h
  simp only [loopHead, bind_eq_some_iff] at hread
  obtain ⟨_, rest, hword, _, args, hsign, -⟩ := hread
  simp only [word, bind_eq_some_iff] at hword
  obtain ⟨_, rest', hwhile, hhead⟩ := hword
  split at hhead
  next => cases hhead
  next hnot =>
    cases hhead
    exact ⟨rest, args, exactly_eq_some_iff.1 hwhile, by simpa using hnot,
      exactly_eq_some_iff.1 hsign⟩

section LoopHead

variable {line rest args : List Char} (hline : trimStart line = "while".toList ++ rest)
  (hhead : rest.head?.any isWordPart = false) (hargs : trimStart rest = '(' :: args)

include hline in
theorem declarationWord_of_eq_while : declarationWord line = none := by
  have hword : ∀ wanted : String, wanted.toList.head?.any (· ≠ 'w') = true →
      word wanted line = none :=
    fun wanted hwanted => bind_of_eq_none (sign_eq_none hline hwanted) _
  refine bind_of_eq_none ?_ _
  rw [orElse_apply, orElse_apply, hword "int" (by decide), hword "long" (by decide),
    hword "short" (by decide)]
  rfl

include hline hhead in
theorem identifier_of_eq_while : identifier line = some ("while", rest) := by
  have hrest : rest.takeWhile isWordPart = [] ∧ rest.dropWhile isWordPart = rest := by
    cases rest with
    | nil => exact ⟨rfl, rfl⟩
    | cons c rest =>
      have hc : ¬ isWordPart c = true := by simpa using hhead
      exact ⟨List.takeWhile_cons_of_neg hc, List.dropWhile_cons_of_neg hc⟩
  have hword : ∀ c ∈ "while".toList, isWordPart c = true := List.all_eq_true.1 (by decide)
  have hstart : ("while".toList ++ rest).head?.any isWordStart = true := rfl
  rw [identifier, bind_apply, skipBlanks_apply, Option.bind_some, hline, if_pos hstart,
    List.takeWhile_append_of_pos hword, List.dropWhile_append_of_pos hword, hrest.1, hrest.2]
  rfl

include hline hhead hargs in
/-- No name that an operator follows stands in front of a loop head. -/
theorem nameThen_of_eq_while {α : Type} {wanted : String} (f : String → Unit → LineReader α)
    (hwanted : wanted.toList.head?.any (· ≠ '(') = true) :
    (do let name ← identifier; let x ← sign wanted; f name x : LineReader α).read? line = none := by
  rw [read?, bind_of_eq_some (identifier_of_eq_while hline hhead)]
  rw [bind_of_eq_none (sign_eq_none hargs hwanted)]
  rfl

end LoopHead

/-- A loop head is no statement of another kind. -/
theorem classify_of_ofLine? (bindings : Bindings) {line : List Char} {condition : LoopCondition}
    (h : LoopCondition.ofLine? line = some condition) :
    classify bindings line = .loopHead condition := by
  rw [← LoopCondition.ofLine?_trim] at h
  obtain ⟨rest, args, hline, hhead, hargs⟩ := exists_eq_while_of_ofLine? h
  have htrim : trim line = "while".toList ++ rest := trimStart_trim line ▸ hline
  have hinert : isInert (trim line) = false := by
    rw [htrim]
    rfl
  have hdeclaration : declaration.read? (trim line) = none := by
    rw [read?, declaration, bind_of_eq_none (declarationWord_of_eq_while hline)]
    rfl
  have hassignment : assignment.read? (trim line) = none :=
    nameThen_of_eq_while hline hhead hargs _ (by decide)
  have hincrement : increment.read? (trim line) = none :=
    nameThen_of_eq_while hline hhead hargs _ (by decide)
  have haddition : addAssignment.read? (trim line) = none :=
    nameThen_of_eq_while hline hhead hargs _ (by decide)
  rw [classify, classifyTrimmed, hinert, statement?, hdeclaration, hassignment, hincrement,
    haddition, h]
  rfl

/-- The kind of a statement that is not inert. -/
theorem statement?_of_classify {bindings : Bindings} {line : List Char} {statement : Statement}
    (h : classify bindings line = statement) (hno : statement ≠ .noOp)
    (hun : statement ≠ .unrecognized) :
    statement? bindings (trim line) = some statement := by
  rw [classify, classifyTrimmed] at h
  split at h
  next => exact absurd h.symm hno
  next =>
    cases hkind : statement? bindings (trim line) with
    | none => exact absurd (by simpa [hkind] using h.symm) hun
    | some kind => simpa [hkind] using h

theorem ofLine?_of_classify {bindings : Bindings} {line : List Char} {condition : LoopCondition}
    (h : classify bindings line = .loopHead condition) :
    LoopCondition.ofLine? line = some condition := by
  have hkind := statement?_of_classify h (by simp) (by simp)
  rw [← LoopCondition.ofLine?_trim]
  simp [statement?, Option.orElse_eq_or, Option.or_eq_some_iff] at hkind
  exact hkind.2.2.2.2

/-! ## Closing braces -/

theorem trim_of_classify {bindings : Bindings} {line : List Char}
    (h : classify bindings line = .closeBrace) : trim line = ['}'] := by
  have hkind := statement?_of_classify h (by simp) (by simp)
  simp [statement?, Option.orElse_eq_or, Option.or_eq_some_iff] at hkind
  exact hkind.2.2.2.2.2

theorem classify_of_trim (bindings : Bindings) {line : List Char} (h : trim line = ['}']) :
    classify bindings line = .closeBrace := by
  rw [classify, h]
  rfl

end CLike

end TraceTutor

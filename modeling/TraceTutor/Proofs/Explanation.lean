import TraceTutor.Proofs.Json.Unambiguous
import TraceTutor.Proofs.Value.Equivalence

/-!
# Explanations

An explanation names both values of a discrepancy by their compact texts. No two values without
doubles have the same text, and none has the text of a missing value (`Slot.describe_inj`), so that
an explanation always shows the learner two different texts (`explanation_shows_difference`).
-/

namespace TraceTutor

open Document

/-! ## Texts of values -/

/-- The text of a value begins as a document does. -/
theorem Value.compact_ne_undefined (v : Value) : v.compact ≠ "undefined" := by
  intro h
  obtain ⟨c, tail, hwrite, hkind⟩ := exists_start_write (ofValue v) []
  have hchars : (ofValue v).write [] = "undefined".toList := by
    rw [← h]
    exact (String.toList_ofList).symm
  obtain ⟨rfl, -⟩ := List.cons.inj (hwrite.symm.trans hchars)
  cases hkind

theorem Value.compact_inj {v w : Value} (hv : v.IsNormal) (hw : w.IsNormal)
    (hvints : v.NumbersIn Number.IsInt) (hwints : w.NumbersIn Number.IsInt)
    (h : v.compact = w.compact) : v = w := by
  have hdocument : ofValue v = ofValue w :=
    Document.compact_inj (everyLeaf_ofValue hvints) (everyLeaf_ofValue hwints) h
  have hread := toValue?_ofValue hv
  rw [hdocument, toValue?_ofValue hw] at hread
  exact (Option.some.inj hread).symm

namespace Slot

/-- All numbers in the value are integers, if there is a value. -/
def HasNoFloat (s : Slot) : Prop :=
  ∀ v, s = some v → v.NumbersIn Number.IsInt

/-- A value without doubles, or a missing one, is known by its text. -/
theorem describe_inj {s t : Slot} (hs : s.IsNormal) (ht : t.IsNormal) (hsints : s.HasNoFloat)
    (htints : t.HasNoFloat) (h : s.describe = t.describe) : s = t := by
  cases s with
  | none =>
    cases t with
    | none => rfl
    | some w => exact absurd h.symm w.compact_ne_undefined
  | some v =>
    cases t with
    | none => exact absurd h v.compact_ne_undefined
    | some w =>
      exact congrArg some
        (Value.compact_inj (hs v rfl) (ht w rfl) (hsints v rfl) (htints w rfl) h)

end Slot

/-! ## Texts in explanations -/

theorem Discrepancy.explanation_eq (d : Discrepancy) : d.explanation =
    "Variable " ++ d.name ++ " differs: you predicted " ++ d.predicted.describe ++
      ", but actual value is " ++ d.actual.describe := by
  have hjoint : ∀ text,
      ", " ++ ("but actual value is " ++ text) = ", but actual value is " ++ text := by
    intro text
    rw [← String.append_assoc]
    rfl
  unfold explanation
  simp [String.append_assoc, toString, hjoint]

/-- Values without doubles that a discrepancy is between have different texts. -/
theorem describe_ne_of_mem_discrepancies {learner generated : Trace} (hlearner : learner.IsNormal)
    (hgenerated : generated.IsNormal) {d : Discrepancy} (hd : d ∈ discrepancies learner generated)
    (hpredicted : d.predicted.HasNoFloat) (hactual : d.actual.HasNoFloat) :
    d.predicted.describe ≠ d.actual.describe := by
  intro h
  obtain ⟨position, hl, hg, -, hbetween⟩ := mem_discrepancies.1 hd
  have hnormal : d.predicted.IsNormal := by
    rw [hbetween.predicted_eq]
    exact hlearner _ (List.getElem_mem hl) d.name
  have hnormal' : d.actual.IsNormal := by
    rw [hbetween.actual_eq]
    exact hgenerated _ (List.getElem_mem hg) d.name
  have hequal : d.predicted = d.actual :=
    Slot.describe_inj hnormal hnormal' hpredicted hactual h
  have hdiffer := hbetween.differ
  rw [← hbetween.predicted_eq, ← hbetween.actual_eq, ← hequal, Slot.same_refl hnormal] at hdiffer
  cases hdiffer

/-- Two values without doubles have the same text only if they are the same value or are both
missing. So no explanation of a discrepancy between such values shows one text twice. -/
theorem explanation_shows_difference :
    (∀ s t : Slot, s.IsNormal → t.IsNormal → s.HasNoFloat → t.HasNoFloat →
      s.describe = t.describe → s = t) ∧
    ∀ learner generated : Trace, learner.IsNormal → generated.IsNormal →
      ∀ d ∈ discrepancies learner generated, d.predicted.HasNoFloat → d.actual.HasNoFloat →
        d.explanation =
          "Variable " ++ d.name ++ " differs: you predicted " ++ d.predicted.describe ++
            ", but actual value is " ++ d.actual.describe ∧
        d.predicted.describe ≠ d.actual.describe := by
  constructor
  · intro s t hs ht hsints htints h
    exact Slot.describe_inj hs ht hsints htints h
  · intro learner generated hlearner hgenerated d hd hpredicted hactual
    exact ⟨d.explanation_eq,
      describe_ne_of_mem_discrepancies hlearner hgenerated hd hpredicted hactual⟩

/-- A string may spell the text of a missing value, but is shown with its quotes. -/
theorem explanation_shows_difference_undefined :
    let learner := Value.bindingTrace (.string "undefined")
    let generated : Trace := [⟨1, 1, .empty, [], [], none, none⟩]
    let d : Discrepancy := ⟨1, "v", some (.string "undefined"), none⟩
    learner.IsNormal ∧ generated.IsNormal ∧ d ∈ discrepancies learner generated ∧
      d.explanation =
        "Variable v differs: you predicted \"undefined\", but actual value is undefined" ∧
      d.predicted.describe ≠ d.actual.describe := by
  intro learner generated d
  have hlearner : learner.IsNormal := by
    intro s hs
    rw [List.mem_singleton.1 hs]
    exact Bindings.isNormal_empty.setAll (List.forall_mem_singleton.2 trivial)
  have hgenerated : generated.IsNormal := by
    intro s hs
    rw [List.mem_singleton.1 hs]
    exact Bindings.isNormal_empty
  have hd : d ∈ discrepancies learner generated := by
    apply mem_discrepancies.2
    exact ⟨0, Nat.one_pos, Nat.one_pos, rfl, .inl rfl, rfl, rfl, rfl⟩
  have hpredicted : d.predicted.HasNoFloat := by
    intro v hv
    cases hv
    trivial
  obtain ⟨htext, hne⟩ := explanation_shows_difference.2 learner generated hlearner hgenerated d hd
    hpredicted nofun
  refine ⟨hlearner, hgenerated, hd, ?_, hne⟩
  rw [htext]
  decide +kernel

end TraceTutor

import TraceTutor.CLike.Statement
import TraceTutor.Proofs.Number.Place
import TraceTutor.Script.Operator

/-!
# The order of integers

Loop conditions and the relational operators of scripts compare two integers alike
(`apply?_operator`), through their closest doubles (`holds_eq`). Rounding keeps the order but not
that two integers differ. So the comparisons are exact for integers with different doubles and for
no others (`compares_exactly_iff`), and in particular if one of the two integers is of exact size.
-/

namespace TraceTutor

open Finite64

namespace CLike.Comparison

variable {c : Comparison}

/-! ## Comparisons -/

/-- The comparison of integers. -/
def Relates (c : Comparison) (m n : Int) : Prop :=
  match c with
  | less => m < n
  | lessEqual => m ≤ n
  | greater => n < m
  | greaterEqual => n ≤ m

instance : ∀ (c : Comparison) (m n : Int), Decidable (c.Relates m n)
  | less, m, n => inferInstanceAs (Decidable (m < n))
  | lessEqual, m, n => inferInstanceAs (Decidable (m ≤ n))
  | greater, m, n => inferInstanceAs (Decidable (n < m))
  | greaterEqual, m, n => inferInstanceAs (Decidable (n ≤ m))

/-- The operator of scripts that is written with the same sign. -/
def operator : Comparison → BinaryOp
  | less => .lt
  | lessEqual => .le
  | greater => .gt
  | greaterEqual => .ge

theorem symbol_operator : c.operator.symbol = c.symbol := by
  cases c <;> rfl

/-- Doubles compare as their places do. -/
theorem holds_eq_relates {a b : Binary64} {x y : Int} (ha : a.rank? = some x)
    (hb : b.rank? = some y) : c.holds a b = decide (c.Relates x y) := by
  have hcompare : a.compare? b = some (compare x y) := by
    unfold Binary64.compare?
    rw [ha, hb]
  unfold holds
  rw [hcompare]
  rcases lt_trichotomy x y with hlt | heq | hgt
  · rw [compare_lt_iff_lt.2 hlt]
    cases c <;> simp [Relates, hlt, hlt.le, hlt.not_ge, hlt.not_gt]
  · rw [compare_eq_iff_eq.2 heq]
    cases c <;> simp [Relates, heq]
  · rw [compare_gt_iff_gt.2 hgt]
    cases c <;> simp [Relates, hgt, hgt.le, hgt.not_ge, hgt.not_gt]

/-- A relational operator gives what the comparison says of its operands as doubles. -/
theorem apply?_operator (m n : Number) :
    c.operator.apply? (.number m) (.number n) =
      some (.bool (c.holds m.toBinary64 n.toBinary64)) := by
  have hcompare : (Value.number m).compare? (.number n) = m.toBinary64.compare? n.toBinary64 := rfl
  cases c <;>
  · unfold operator BinaryOp.apply? holds
    rw [hcompare]
    rcases m.toBinary64.compare? n.toBinary64 with _ | _ | _ | _ <;> rfl

/-! ## Integers -/

/-- Integers with different doubles lie in the same order as these. -/
theorem relates_rounded_iff {m n : Int} (h : m = n ∨ Binary64.ofInt m ≠ Binary64.ofInt n) :
    c.Relates (rounded (m * one)) (rounded (n * one)) ↔ c.Relates m n := by
  have hone : (0 : Int) ≤ one := Int.natCast_nonneg one
  rcases h with rfl | hne
  · generalize rounded (m * one) = place
    cases c <;> simp [Relates]
  · rw [Ne, ofInt_eq_iff] at hne
    rcases lt_trichotomy m n with hlt | heq | hgt
    · have hle := rounded_mono (Int.mul_le_mul_of_nonneg_right hlt.le hone)
      cases c <;> unfold Relates <;> omega
    · exact absurd (by rw [heq]) hne
    · have hle := rounded_mono (Int.mul_le_mul_of_nonneg_right hgt.le hone)
      cases c <;> unfold Relates <;> omega

end CLike.Comparison

namespace CLike.LoopCondition

variable {bindings : Bindings} {name : String} {m : Int}

theorem holds_eq_holds (hm : bindings.get? name = some (.int m)) (c : Comparison) (n : Int) :
    (LoopCondition.mk name c n).holds bindings = c.holds (.ofInt m) (.ofInt n) := by
  have hvalue : (LoopCondition.mk name c n).currentValue bindings = .int m := by
    unfold currentValue
    rw [hm]
    rfl
  have hdouble : (Value.int m).asBinary64? = some (.ofInt m) := rfl
  unfold holds
  rw [hvalue, hdouble, Option.getD_some]

/-- A loop condition on an integer compares the places of the closest doubles. -/
theorem holds_eq (hm : bindings.get? name = some (.int m)) (c : Comparison) (n : Int) :
    (LoopCondition.mk name c n).holds bindings =
      decide (c.Relates (rounded (m * one)) (rounded (n * one))) :=
  (holds_eq_holds hm c n).trans (Comparison.holds_eq_relates (rank?_ofInt m) (rank?_ofInt n))

/-- Loop conditions and operators give the exact order of two integers precisely if the integers are
equal or have different doubles, as they do when a double can hold every integer up to one of
them. -/
theorem compares_exactly_iff (hm : bindings.get? name = some (.int m)) (n : Int) :
    (∀ c : Comparison, c.operator.apply? (.int m) (.int n) =
      some (.bool ((LoopCondition.mk name c n).holds bindings))) ∧
    ((∀ c : Comparison, (LoopCondition.mk name c n).holds bindings = decide (c.Relates m n)) ↔
      m = n ∨ Binary64.ofInt m ≠ Binary64.ofInt n) ∧
    (m.natAbs ≤ maxExactInt ∨ n.natAbs ≤ maxExactInt →
      m = n ∨ Binary64.ofInt m ≠ Binary64.ofInt n) := by
  refine ⟨fun c => ?_, ⟨fun hexact => ?_, fun h c => ?_⟩, fun hsmall => ?_⟩
  · rw [holds_eq_holds hm]
    exact Comparison.apply?_operator (.int m) (.int n)
  · -- Integers with one double compare as equal, so that neither lies strictly below the other.
    by_contra hor
    obtain ⟨hne, hsame⟩ := not_or.1 hor
    have hplace := ofInt_eq_iff.1 (not_not.1 hsame)
    have hless := hexact .less
    have hgreater := hexact .greater
    rw [holds_eq hm, decide_eq_decide] at hless hgreater
    unfold Comparison.Relates at hless hgreater
    omega
  · rw [holds_eq hm, decide_eq_decide]
    exact Comparison.relates_rounded_iff h
  · by_cases heq : m = n
    · exact .inl heq
    · exact .inr fun hsame => heq (eq_of_ofInt_eq hsame hsmall)

/-- Two integers that a double can hold, although it cannot hold the one between them. -/
theorem compares_exactly_iff_even :
    let bindings : Bindings := .ofList [("v", .int 9007199254740992)]
    bindings.get? "v" = some (.int 9007199254740992) ∧
      (LoopCondition.mk "v" .less 9007199254740994).holds bindings = true ∧
      BinaryOp.lt.apply? (.int 9007199254740992) (.int 9007199254740994) = some (.bool true) := by
  intro bindings
  have hv : bindings.get? "v" = some (.int 9007199254740992) := by rfl
  obtain ⟨hoperator, hexact, -⟩ := compares_exactly_iff hv 9007199254740994
  have hless := hexact.2 (.inr (by decide +kernel)) .less
  exact ⟨hv, hless, (hoperator .less).trans (by rw [hless]; rfl)⟩

/-- The double of an integer may be that of its successor, which then is not above it. -/
theorem not_compares_exactly :
    ¬ ∀ (bindings : Bindings) (name : String) (c : Comparison) (m n : Int),
      isWord m = true → isWord n = true → bindings.get? name = some (.int m) →
      ((LoopCondition.mk name c n).holds bindings = true ↔ c.Relates m n) ∧
        c.operator.apply? (.int m) (.int n) = some (.bool (decide (c.Relates m n))) := by
  intro h
  have hless := (h (.ofList [("v", .int 9007199254740992)]) "v" .less 9007199254740992
    9007199254740993 (by decide) (by decide) rfl).1
  exact absurd (hless.2 (by decide)) (by decide +kernel)

end CLike.LoopCondition

end TraceTutor

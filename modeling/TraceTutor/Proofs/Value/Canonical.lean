import TraceTutor.Proofs.Number.Whole
import TraceTutor.Proofs.Value.Closed
import TraceTutor.Proofs.Value.Normal
import TraceTutor.Proofs.Value.Numbers

/-!
# Canonical numbers

An integer that a double could hold as well is kept as an integer, and every integer is a signed
word. Operators make such numbers only (`Value.isClosed_canonical`), since all their results go
through `Value.ofBinary64` or are tested to be words. They also keep objects in normal form
(`Value.isClosed_isNormal`).
-/

namespace TraceTutor

open Finite64

/-! ## Whole doubles -/

theorem natCast_eq_mul_iff {count unit : Nat} (h : 0 < unit) {n : Int} :
    (count : Int) = n * unit ↔ count % unit = 0 ∧ ((count / unit : Nat) : Int) = n := by
  constructor
  · intro hcount
    have hdvd : (unit : Int) ∣ count := ⟨n, by rw [hcount, Int.mul_comm]⟩
    refine ⟨Nat.mod_eq_zero_of_dvd (Int.natCast_dvd_natCast.1 hdvd), ?_⟩
    rw [Int.natCast_ediv, hcount, Int.mul_ediv_cancel _ (Int.natCast_pos.2 h).ne']
  · rintro ⟨hmod, rfl⟩
    rw [← Int.natCast_mul, Nat.div_mul_cancel (Nat.dvd_of_mod_eq_zero hmod)]

/-- A double is an integer exactly if there is no fraction to truncate. -/
theorem Finite64.signed_eq_iff {x : Finite64} {n : Int} :
    x.signed = n * one ↔ x.isWhole = true ∧ x.truncate = n := by
  unfold signed isWhole truncate
  rw [decide_eq_true_iff]
  cases x.negative with
  | false => exact natCast_eq_mul_iff one_pos
  | true =>
    rw [if_pos rfl, if_pos rfl, neg_eq_iff_eq_neg, neg_eq_iff_eq_neg, ← Int.neg_mul]
    exact natCast_eq_mul_iff one_pos

/-! ## Canonical numbers -/

/-- The number is a signed word, or a double that is no integer of exact size. A zero of either sign
counts as an integer. -/
def Number.IsCanonical : Number → Prop
  | int n => -wordBound ≤ n ∧ n < wordBound
  | float x => ∀ n : Int, n.natAbs ≤ maxExactInt → x.signed ≠ n * Finite64.one

namespace Value

theorem isCanonical_ofBinary64 (x : Binary64) :
    (ofBinary64 x).NumbersIn Number.IsCanonical := by
  unfold ofBinary64
  split
  next x =>
    split
    next hexact =>
      have hsize := of_decide_eq_true (Bool.and_eq_true_iff.1 hexact).2
      show -wordBound ≤ x.truncate ∧ x.truncate < wordBound
      unfold maxExactInt at hsize
      unfold wordBound
      omega
    next hexact =>
      intro n hn hsigned
      obtain ⟨hwhole, rfl⟩ := signed_eq_iff.1 hsigned
      exact hexact (Bool.and_eq_true_iff.2 ⟨hwhole, decide_eq_true hn⟩)
  next => trivial

/-- Whatever an operator makes holds canonical numbers, if its containers do. -/
theorem isClosed_canonical : IsClosed (NumbersIn Number.IsCanonical) where
  null := trivial
  bool _ := trivial
  int h := (Bool.and_eq_true_iff.1 h).imp of_decide_eq_true of_decide_eq_true
  ofBinary64 := isCanonical_ofBinary64
  string _ := trivial
  array_iff := itemNumbersIn_iff
  ofFields h := by
    obtain ⟨sorted, hsorted, -, hsubset⟩ := exists_ofFields _
    rw [hsorted]
    exact fieldNumbersIn_iff.2 fun field hfield => h field (hsubset hfield)
  of_object h := fieldNumbersIn_iff.1 h

theorem isClosed_isNormal : IsClosed IsNormal where
  null := trivial
  bool _ := trivial
  int _ := trivial
  ofBinary64 x := by
    unfold ofBinary64
    split
    · split <;> trivial
    · trivial
  string _ := trivial
  array_iff := itemsNormal_iff
  ofFields := isNormal_ofFields
  of_object h := fieldsNormal_iff.1 h.2

end Value

end TraceTutor

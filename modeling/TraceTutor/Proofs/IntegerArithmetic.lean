import TraceTutor.Proofs.Number.Closest
import TraceTutor.Script.Operator

/-!
# The arithmetic of integers

Sums, differences, products and remainders of integers are exact as long as they are words. What is
no word is computed from the closest doubles of both operands, whose sum or product is too large to
be taken for an integer: it is a double of the right sign (`integers_exact`).
-/

namespace TraceTutor

open Finite64 Binary64

/-! ## Results -/

namespace Value

/-- What arithmetic may make of an integer: the integer if it is a word, and otherwise a double of
the same sign, far beyond the integers of exact size. -/
inductive ComesOutAs (n : Int) : Value → Prop
  | word : isWord n = true → ComesOutAs n (int n)
  | double {x : Finite64} : isWord n = false → 2 ^ 62 * one ≤ x.units → x.units < limit →
      (x.negative = true ↔ n < 0) → ComesOutAs n (.number (.float x))

theorem maxExactInt_lt_truncate {x : Finite64} (h : 2 ^ 62 * one ≤ x.units) :
    maxExactInt < x.truncate.natAbs := by
  have hwhole : 2 ^ 62 ≤ x.units / one := (Nat.le_div_iff_mul_le Finite64.one_pos).2 h
  have htruncate : x.truncate.natAbs = x.units / one := by
    unfold truncate
    split <;> omega
  unfold maxExactInt
  rw [htruncate]
  omega

/-- A ratio of that size is a double. -/
theorem ofBinary64_ofRatio {num den : Nat} (hden : 0 < den) (hlow : den * (2 ^ 62 * one) ≤ num)
    (hhigh : num ≤ den * (2 ^ 126 * one)) (negative : Bool) : ∃ count,
      ofBinary64 (.ofRatio negative num den) = .number (.float ⟨negative, count⟩) ∧
        2 ^ 62 * one ≤ count ∧ count < limit := by
  have hcount : 2 ^ 62 * one ≤ nearest num den := two_pow_le_nearest hden hlow
  have hlt : nearest num den < limit :=
    (nearest_le hden (spacing_dvd_two_pow 126) hhigh).trans_lt (two_pow_lt_limit (by decide))
  refine ⟨nearest num den, ?_, hcount, hlt⟩
  unfold Binary64.ofRatio
  dsimp only
  rw [if_pos hlt]
  exact ofBinary64_of_large (maxExactInt_lt_truncate hcount)

theorem comesOutAs_ofUnits {n count : Int} (hword : isWord n = false)
    (hlow : 2 ^ 62 * one ≤ count.natAbs) (hhigh : count.natAbs ≤ 2 ^ 64 * one)
    (hsign : count < 0 ↔ n < 0) (zeroSign : Bool) :
    ComesOutAs n (ofBinary64 (.ofUnits zeroSign count)) := by
  have hzero : count ≠ 0 := by
    have hpos : 0 < 2 ^ 62 * one := Nat.mul_pos (Nat.two_pow_pos 62) Finite64.one_pos
    omega
  have hlow' : 1 * (2 ^ 62 * one) ≤ count.natAbs := by omega
  have hhigh' : count.natAbs ≤ 1 * (2 ^ 126 * one) := by omega
  obtain ⟨units, hvalue, hunits, hlt⟩ := ofBinary64_ofRatio Nat.one_pos hlow' hhigh' (count < 0)
  unfold Binary64.ofUnits
  rw [if_neg hzero, hvalue]
  exact .double hword hunits hlt (decide_eq_true_iff.trans hsign)

/-! ## Operands -/

/-- The value counts as the integer: a word as itself, a truth value as zero or one, and `null` as
zero. -/
inductive CountsAs : Value → Int → Prop
  | word {n : Int} : isWord n = true → CountsAs (int n) n
  | bool (b : Bool) : CountsAs (bool b) (if b then 1 else 0)
  | null : CountsAs null 0

namespace CountsAs

variable {v : Value} {n : Int}

theorem isWord (h : v.CountsAs n) : isWord n = true := by
  cases h with
  | word hn => exact hn
  | bool b => cases b <;> rfl
  | null => rfl

theorem natAbs_le (h : v.CountsAs n) : n.natAbs ≤ 2 ^ 63 := by
  have hword := isWord_iff.1 h.isWord
  omega

theorem exactInt?_eq (h : v.CountsAs n) : v.exactInt? = some n := by
  cases h with
  | word hn => exact if_pos hn
  | bool b => rfl
  | null => rfl

theorem toBinary64_eq (h : v.CountsAs n) : v.toBinary64 = .finite (closest n) := by
  rw [← Binary64.ofInt_eq_closest h.natAbs_le]
  cases h with
  | word => rfl
  | bool b => rfl
  | null => decide +kernel

/-- Such a value is neither text nor has it parts. -/
theorem isNumeric (h : v.CountsAs n) : v.isString = false ∧ v.isCompound = false := by
  cases h <;> exact ⟨rfl, rfl⟩

end CountsAs

/-! ## Operators -/

section

variable {left right : Value} {a b : Int} (hleft : left.CountsAs a) (hright : right.CountsAs b)

include hleft hright

theorem add_eq_arithmetic : left.add right = arithmetic .add left right := by
  unfold add
  simp [hleft.isNumeric, hright.isNumeric]

theorem arithmetic_of_isWord {op : BinaryOp} {n : Int} (h : intArithmetic? op a b = some n)
    (hn : isWord n = true) : arithmetic op left right = int n := by
  unfold arithmetic
  simp [hleft.exactInt?_eq, hright.exactInt?_eq, h, hn]

theorem arithmetic_of_isWord_eq_false {op : BinaryOp}
    (h : ∀ n, intArithmetic? op a b = some n → isWord n = false) :
    arithmetic op left right =
      ofBinary64 (floatArithmetic op (.finite (closest a)) (.finite (closest b))) := by
  unfold arithmetic
  cases hexact : intArithmetic? op a b with
  | none =>
    simp [hleft.exactInt?_eq, hright.exactInt?_eq, hexact, hleft.toBinary64_eq,
      hright.toBinary64_eq]
  | some n =>
    simp [hleft.exactInt?_eq, hright.exactInt?_eq, hexact, hleft.toBinary64_eq,
      hright.toBinary64_eq, h n hexact]

/-- An exact result that is a word needs no doubles. -/
theorem comesOutAs_arithmetic {op : BinaryOp} {n : Int} (h : intArithmetic? op a b = some n)
    (hfloat : isWord n = false →
      ComesOutAs n (ofBinary64 (floatArithmetic op (.finite (closest a)) (.finite (closest b))))) :
    ComesOutAs n (arithmetic op left right) := by
  cases hword : isWord n with
  | true =>
    rw [arithmetic_of_isWord hleft hright h hword]
    exact .word hword
  | false =>
    have hother : ∀ m, intArithmetic? op a b = some m → isWord m = false := by
      intro m hm
      cases h.symm.trans hm
      exact hword
    rw [arithmetic_of_isWord_eq_false hleft hright hother]
    exact hfloat hword

theorem comesOutAs_add : ComesOutAs (a + b) (left.add right) := by
  rw [add_eq_arithmetic hleft hright]
  apply comesOutAs_arithmetic hleft hright rfl
  intro hword
  obtain ⟨hlow, hhigh, hsign⟩ := signed_add_closest hleft.natAbs_le hright.natAbs_le hword
  exact comesOutAs_ofUnits hword hlow hhigh hsign _

theorem comesOutAs_sub : ComesOutAs (a - b) (arithmetic .sub left right) := by
  apply comesOutAs_arithmetic hleft hright rfl
  intro hword
  have hsum : isWord (a + -b) = false := by
    rw [← Int.sub_eq_add_neg]
    exact hword
  have hneg : (-b).natAbs ≤ 2 ^ 63 := by
    rw [Int.natAbs_neg]
    exact hright.natAbs_le
  obtain ⟨hlow, hhigh, hsign⟩ := signed_add_closest hleft.natAbs_le hneg hsum
  rw [← Int.sub_eq_add_neg] at hsign
  have hsigned : (⟨!(closest b).negative, (closest b).units⟩ : Finite64).signed =
      (closest (-b)).signed := by
    rw [signed_closest_neg]
    unfold signed
    cases (closest b).negative <;> simp
  show ComesOutAs (a - b) (ofBinary64 (.ofUnits _ ((closest a).signed + _)))
  rw [hsigned]
  exact comesOutAs_ofUnits hword hlow hhigh hsign _

theorem comesOutAs_mul : ComesOutAs (a * b) (arithmetic .mul left right) := by
  apply comesOutAs_arithmetic hleft hright rfl
  intro hword
  obtain ⟨hlow, hhigh⟩ := units_mul_closest hleft.natAbs_le hright.natAbs_le hword
  obtain ⟨count, hvalue, hcount, hlt⟩ := ofBinary64_ofRatio Finite64.one_pos hlow hhigh
    ((closest a).negative != (closest b).negative)
  unfold floatArithmetic Binary64.mul
  dsimp only
  rw [hvalue]
  refine .double hword hcount hlt ?_
  have hzero : a * b ≠ 0 := by
    intro hzero
    rw [hzero] at hword
    exact absurd hword (by decide)
  have ha : a ≠ 0 := left_ne_zero_of_mul hzero
  have hb : b ≠ 0 := right_ne_zero_of_mul hzero
  show ((decide (a < 0) != decide (b < 0)) = true ↔ a * b < 0)
  rw [mul_neg_iff, bne_iff_ne]
  by_cases hna : a < 0
  · by_cases hnb : b < 0
    · simp [hna, hnb, hna.le.not_gt, hnb.le.not_gt]
    · simp [hna, hnb, (show 0 < b by omega)]
  · by_cases hnb : b < 0
    · simp [hna, hnb, (show 0 < a by omega)]
    · simp [hna, hnb]

omit hleft hright in
/-- A zero of either sign. -/
theorem ofBinary64_zero (negative : Bool) : ofBinary64 (.finite ⟨negative, 0⟩) = int 0 := by
  unfold ofBinary64 isWhole truncate
  cases negative <;> simp [maxExactInt]

/-- The least word leaves nothing when it is divided by minus one, though the quotient is no
word. -/
theorem comesOutAs_mod (hb : b ≠ 0) : ComesOutAs (a.tmod b) (arithmetic .mod left right) := by
  have hword : isWord (a.tmod b) = true := isWord_tmod hleft.isWord hright.isWord
  by_cases hleast : a = -9223372036854775808 ∧ b = -1
  · obtain ⟨rfl, rfl⟩ := hleast
    rw [arithmetic_of_isWord_eq_false hleft hright (by decide)]
    have hleast : (closest (-9223372036854775808)).units = 2 ^ 63 * one :=
      units_closest_of_natAbs_eq rfl
    have hunit : (closest (-1)).units = one := by
      rw [units_closest_of_natAbs_eq (k := 0) rfl]
      simp
    have hsome : (closest (-1)).isZero = false := by
      unfold isZero
      rw [hunit]
      exact decide_eq_false Finite64.one_pos.ne'
    have hrem : (closest (-9223372036854775808)).units % (closest (-1)).units = 0 := by
      rw [hleast, hunit]
      exact Nat.mul_mod_left _ _
    unfold floatArithmetic Binary64.rem
    dsimp only
    rw [hsome, hrem, if_neg Bool.false_ne_true, ofBinary64_zero]
    exact .word rfl
  · have hexact : intArithmetic? .mod a b = some (a.tmod b) := by
      unfold intArithmetic?
      simp [hb, isWord_tdiv hleft.isWord hleast]
    rw [arithmetic_of_isWord hleft hright hexact hword]
    exact .word hword

theorem arithmetic_mod_zero (hb : b = 0) : arithmetic .mod left right = null := by
  subst hb
  have hnone : ∀ n, intArithmetic? .mod a 0 = some n → isWord n = false := by
    simp [intArithmetic?]
  rw [arithmetic_of_isWord_eq_false hleft hright hnone]
  have hzero : (closest 0).isZero = true := decide_eq_true units_closest_zero
  unfold floatArithmetic Binary64.rem
  simp only [hzero, if_true]
  rfl

end

end Value

/-! ## Results of operators -/

namespace BinaryOp

/-- The result of an operator on integers, as mathematics has it. A remainder is less than the
divisor and has the sign of the dividend. -/
inductive Yields : BinaryOp → Int → Int → Int → Prop
  | add (a b : Int) : Yields add a b (a + b)
  | sub (a b : Int) : Yields sub a b (a - b)
  | mul (a b : Int) : Yields mul a b (a * b)
  | mod {a b q r : Int} : a = b * q + r → r.natAbs < b.natAbs → 0 ≤ r * a → Yields mod a b r

theorem yields_mod {a b : Int} (hb : b ≠ 0) : Yields mod a b (a.tmod b) := by
  refine .mod (Int.mul_tdiv_add_tmod a b).symm ?_ ?_
  · rw [Int.natAbs_tmod]
    exact Nat.mod_lt _ (Int.natAbs_pos.2 hb)
  · rcases le_total 0 a with ha | ha
    · exact mul_nonneg (Int.tmod_nonneg b ha) ha
    · have hneg : a.tmod b ≤ 0 := by
        have hnonneg := Int.tmod_nonneg b (Int.neg_nonneg.2 ha)
        rw [Int.neg_tmod] at hnonneg
        omega
      exact mul_nonneg_of_nonpos_of_nonpos hneg ha

/-- Two remainders of the same sign differ by less than the divisor, which divides their
difference. -/
theorem eq_tmod_of_yields {a b n : Int} (h : Yields mod a b n) : b ≠ 0 ∧ n = a.tmod b := by
  cases h with
  | @mod a b q r hdivision hsmall hsign =>
    have hb : b ≠ 0 := by
      intro hzero
      subst hzero
      exact absurd hsmall (Nat.not_lt_zero _)
    refine ⟨hb, ?_⟩
    cases yields_mod (a := a) hb with
    | @mod _ _ q' _ hdivision' hsmall' hsign' =>
      have hdvd : b ∣ n - a.tmod b := by
        refine ⟨q' - q, ?_⟩
        rw [Int.mul_sub]
        omega
      have hclose : (n - a.tmod b).natAbs < b.natAbs := by
        rcases lt_trichotomy a 0 with ha | ha | ha
        · have hn : n ≤ 0 := nonpos_of_mul_nonneg_left hsign ha
          have htmod : a.tmod b ≤ 0 := nonpos_of_mul_nonneg_left hsign' ha
          omega
        · rw [ha, Int.zero_tmod, Int.sub_zero]
          exact hsmall
        · have hn : 0 ≤ n := nonneg_of_mul_nonneg_left hsign ha
          have htmod : 0 ≤ a.tmod b := nonneg_of_mul_nonneg_left hsign' ha
          omega
      exact Int.sub_eq_zero.1 (Int.eq_zero_of_dvd_of_natAbs_lt_natAbs hdvd hclose)

variable {left right : Value} {a b n : Int}

/-- Of each operator that yields an integer, the result is that integer or visibly none. -/
theorem exists_comesOutAs {op : BinaryOp} (hleft : left.CountsAs a)
    (hright : right.CountsAs b) (h : op.Yields a b n) :
    ∃ v, op.apply? left right = some v ∧ v.ComesOutAs n := by
  cases op with
  | add =>
    cases h
    exact ⟨_, rfl, Value.comesOutAs_add hleft hright⟩
  | sub =>
    cases h
    exact ⟨_, rfl, Value.comesOutAs_sub hleft hright⟩
  | mul =>
    cases h
    exact ⟨_, rfl, Value.comesOutAs_mul hleft hright⟩
  | mod =>
    obtain ⟨hb, rfl⟩ := eq_tmod_of_yields h
    exact ⟨_, rfl, Value.comesOutAs_mod hleft hright hb⟩
  | _ => nomatch h

end BinaryOp

/-- The least word is the only one without an opposite. -/
theorem UnaryOp.apply_neg_int {n : Int} (h : isWord n = true) :
    UnaryOp.neg.apply (.int n) =
      if n = -wordBound then .number (.float ⟨false, 2 ^ 63 * one⟩) else .int (-n) := by
  have hn := isWord_iff.1 h
  show (if isWord n && isWord (-n) then Value.int (-n) else .ofBinary64 (Binary64.ofInt n).neg) = _
  by_cases hleast : n = -wordBound
  · subst hleast
    have hunits : (closest (-wordBound)).units = 2 ^ 63 * one := units_closest_of_natAbs_eq rfl
    have hword : (isWord (-wordBound) && isWord (- -wordBound)) = false := by decide
    rw [hword, if_neg Bool.false_ne_true, if_pos rfl, Binary64.ofInt_eq_closest le_rfl]
    unfold Binary64.neg
    dsimp only
    rw [hunits]
    apply Value.ofBinary64_of_large
    apply Value.maxExactInt_lt_truncate
    show 2 ^ 62 * one ≤ 2 ^ 63 * one
    omega
  · have hopposite : isWord (-n) = true := by
      unfold wordBound at hleast
      rw [isWord_iff]
      omega
    rw [h, hopposite, Bool.and_self, if_pos rfl, if_neg hleast]

/-- Sums, differences, products and remainders of values that count as integers are the exact
integers as long as these are words, and doubles otherwise. A remainder exists unless the divisor is
zero, which gives `null`. -/
theorem integers_exact {left right : Value} {a b : Int} (hleft : left.CountsAs a)
    (hright : right.CountsAs b) :
    (∀ op n, BinaryOp.Yields op a b n →
      ∃ v, op.apply? left right = some v ∧ v.ComesOutAs n) ∧
    (b ≠ 0 → ∃ n, BinaryOp.Yields .mod a b n) ∧
    (b = 0 → BinaryOp.mod.apply? left right = some .null) ∧
    ∀ n, isWord n = true → UnaryOp.neg.apply (.int n) =
      if n = -wordBound then .number (.float ⟨false, 2 ^ 63 * one⟩) else .int (-n) := by
  refine ⟨fun op n h => BinaryOp.exists_comesOutAs hleft hright h, ?_, ?_, ?_⟩
  · intro hb
    exact ⟨_, BinaryOp.yields_mod hb⟩
  · intro hb
    exact congrArg some (Value.arithmetic_mod_zero hleft hright hb)
  · intro n h
    exact UnaryOp.apply_neg_int h

theorem integers_exact_samples :
    (∃ x : Finite64, BinaryOp.add.apply? (.int 9223372036854775807) (.bool true) =
      some (.number (.float x)) ∧ 2 ^ 62 * one ≤ x.units ∧ x.negative = false) ∧
    BinaryOp.mod.apply? (.int (-9223372036854775808)) (.int (-1)) = some (.int 0) ∧
    BinaryOp.mod.apply? (.int 7) .null = some .null := by
  refine ⟨?_, ?_, ?_⟩
  · obtain ⟨v, hv, hout⟩ := (integers_exact (.word (n := 9223372036854775807) rfl)
      (.bool true)).1 _ _ (.add _ _)
    cases hout with
    | word hword => exact absurd hword (by decide)
    | double _ hlarge _ hsign =>
      exact ⟨_, hv, hlarge, Bool.eq_false_iff.2 (mt hsign.1 (by decide))⟩
  · obtain ⟨v, hv, hout⟩ := (integers_exact (.word (n := -9223372036854775808) rfl)
      (.word (n := -1) rfl)).1 .mod 0 (.mod (q := 9223372036854775808) rfl (by decide) (by decide))
    cases hout with
    | word => exact hv
    | double hword => exact absurd hword (by decide)
  · exact (integers_exact (.word (n := 7) rfl) .null).2.2.1 rfl

end TraceTutor

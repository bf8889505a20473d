import Mathlib.Algebra.Order.Field.Power
import Mathlib.Algebra.Order.Field.Rat
import Mathlib.Data.List.TakeWhile
import Mathlib.Tactic.Positivity
import Mathlib.Tactic.Linarith
import Mathlib.Tactic.Ring
import TraceTutor.Number.Decimal

/-!
# Decimals of doubles

The decimal that `Finite64.shortest` finds for a double is at most half a spacing above it
(`Finite64.shortest_cases`).
-/

namespace TraceTutor

/-! ## Digits -/

namespace Decimal

theorem ofDigits_eq (digits : List Char) : ofDigits digits = Nat.ofDigitChars 10 digits 0 := rfl

theorem ofDigits_toDigits (n : Nat) : ofDigits (Nat.toDigits 10 n) = n :=
  Nat.ofDigitChars_ten_toDigits

/-- No number but zero is written with a zero in front. -/
theorem head?_toDigits_ne_zero {n : Nat} (hn : 0 < n) : (Nat.toDigits 10 n).head? ≠ some '0' := by
  induction n using Nat.strongRecOn with
  | ind n ih =>
    by_cases hlt : n < 10
    · rw [Nat.toDigits_of_lt_base hlt]
      have hdigit : ∀ k < 10, 0 < k → Nat.digitChar k ≠ '0' := by decide
      simpa using hdigit n hlt hn
    · have hle : 10 ≤ n := not_lt.1 hlt
      have hfirst := ih (n / 10) (by omega) (by omega)
      rw [Nat.toDigits_of_base_le (by decide) hle]
      cases hdigits : Nat.toDigits 10 (n / 10) with
      | nil => exact absurd hdigits Nat.toDigits_ne_nil
      | cons c digits => simpa [hdigits] using hfirst

theorem pow_le_of_lt_length_toDigits {n k : Nat} (h : k < (Nat.toDigits 10 n).length) (hn : 0 < n) :
    10 ^ k ≤ n := by
  rcases Nat.eq_zero_or_pos k with rfl | hk
  · exact hn
  · by_contra hlt
    have hle := (Nat.length_toDigits_le_iff (by decide) hk).2 (not_le.1 hlt)
    omega

theorem ofDigits_cons (c : Char) (digits : List Char) :
    ofDigits (c :: digits) = 10 ^ digits.length * (c.toNat - '0'.toNat) + ofDigits digits := by
  rw [ofDigits_eq, Nat.ofDigitChars_cons, Nat.ofDigitChars_eq_ofDigitChars_zero, Nat.mul_zero,
    Nat.zero_add, ofDigits_eq]

theorem ofDigits_append (digits more : List Char) :
    ofDigits (digits ++ more) = 10 ^ more.length * ofDigits digits + ofDigits more := by
  rw [ofDigits_eq, Nat.ofDigitChars_append, Nat.ofDigitChars_eq_ofDigitChars_zero, ofDigits_eq,
    ofDigits_eq]

theorem ofDigits_lt_pow {digits : List Char} (h : ∀ c ∈ digits, c.isDigit = true) :
    ofDigits digits < 10 ^ digits.length := by
  induction digits with
  | nil => decide
  | cons c digits ih =>
    have hc : c.toNat - '0'.toNat ≤ 9 := by
      have hdigit := h c List.mem_cons_self
      simp only [Char.isDigit, Bool.and_eq_true, decide_eq_true_eq] at hdigit
      have hhigh : c.toNat ≤ 57 := hdigit.2
      have hzero : '0'.toNat = 48 := rfl
      omega
    have hrest := ih fun d hd => h d (List.mem_cons_of_mem _ hd)
    have hfirst := Nat.mul_le_mul_left (10 ^ digits.length) hc
    rw [ofDigits_cons, List.length_cons, Nat.pow_succ]
    omega

/-! ## Values -/

/-- The number that the decimal denotes. -/
def value (d : Decimal) : ℚ :=
  d.coefficient * 10 ^ d.exponent

theorem length_takeWhile_zero_lt {d : Decimal} (h : 0 < d.coefficient) :
    (d.digits.reverse.takeWhile (· == '0')).length < d.digits.length := by
  refine lt_of_le_of_ne ?_ fun heq => ?_
  · exact (List.takeWhile_sublist _).length_le.trans_eq List.length_reverse
  · -- Otherwise all digits are zeros, and the first one in particular.
    have hall : ∀ c ∈ d.digits, c = '0' := by
      have hself : d.digits.reverse.takeWhile (· == '0') = d.digits.reverse :=
        (List.takeWhile_prefix _).eq_of_length (heq.trans List.length_reverse.symm)
      intro c hc
      have hmem := hself ▸ List.mem_reverse.2 hc
      simpa using List.mem_takeWhile_imp hmem
    cases hdigits : d.digits with
    | nil => exact absurd hdigits Nat.toDigits_ne_nil
    | cons c digits =>
      have hfirst : d.digits.head? ≠ some '0' := head?_toDigits_ne_zero h
      rw [hdigits, hall c (by rw [hdigits]; exact List.mem_cons_self)] at hfirst
      exact hfirst rfl

theorem coefficient_normalize_pos {d : Decimal} (h : 0 < d.coefficient) :
    0 < d.normalize.coefficient :=
  Nat.div_pos (pow_le_of_lt_length_toDigits (length_takeWhile_zero_lt h) h)
    (Nat.pow_pos (by decide))

theorem value_normalize_le (d : Decimal) : d.normalize.value ≤ d.value := by
  unfold value normalize
  generalize (d.digits.reverse.takeWhile (· == '0')).length = zeros
  have hdiv : ((d.coefficient / 10 ^ zeros : Nat) : ℚ) * 10 ^ zeros ≤ d.coefficient := by
    exact_mod_cast Nat.div_mul_le_self d.coefficient (10 ^ zeros)
  have hsplit : (10 : ℚ) ^ (d.exponent + zeros) = 10 ^ zeros * 10 ^ d.exponent := by
    rw [zpow_add₀ (by norm_num), zpow_natCast, mul_comm]
  have hpos : (0 : ℚ) ≤ 10 ^ d.exponent := by positivity
  dsimp only
  rw [hsplit, ← mul_assoc]
  exact mul_le_mul_of_nonneg_right hdiv hpos

end Decimal

/-! ## The shortest decimal -/

namespace Finite64

open Decimal

/-- Whether a multiple of `10 ^ exponent` reads back as `units`. -/
def readsBack (units : Nat) (exponent : Int) (c : Nat) : Bool :=
  let scale := Nat.pow 10 (-exponent).toNat
  let place := 4 * c * (one * Nat.pow 10 exponent.toNat)
  let (lower, upper) := roundingInterval units
  0 < c && if units / Binary64.spacing units % 2 = 0 then
      lower * scale ≤ place && place ≤ upper * scale
    else lower * scale < place && place < upper * scale

variable {rule : TieRule} {units : Nat} {exponent : Int} {d : Decimal}

theorem readsBack_of_onGrid? (h : onGrid? rule units exponent = some d) :
    readsBack units exponent d.coefficient = true ∧ d.exponent = exponent := by
  unfold onGrid? at h
  dsimp only at h
  split at h
  next hlow hhigh =>
    obtain rfl := Option.some.inj h
    refine ⟨?_, rfl⟩
    dsimp only
    split
    · exact hlow
    · exact hhigh
  next hlow _ =>
    obtain rfl := Option.some.inj h
    exact ⟨hlow, rfl⟩
  next _ hhigh =>
    obtain rfl := Option.some.inj h
    exact ⟨hhigh, rfl⟩
  next => cases h

theorem place_le_of_readsBack {c : Nat} (h : readsBack units exponent c = true) :
    0 < c ∧ 4 * c * (one * Nat.pow 10 exponent.toNat) ≤
      (4 * units + 2 * Binary64.spacing units) * Nat.pow 10 (-exponent).toNat := by
  unfold readsBack at h
  dsimp only at h
  rw [Bool.and_eq_true, decide_eq_true_eq] at h
  refine ⟨h.1, ?_⟩
  have hplace := h.2
  split at hplace
  · rw [Bool.and_eq_true, decide_eq_true_eq, decide_eq_true_eq] at hplace
    exact hplace.2
  · rw [Bool.and_eq_true, decide_eq_true_eq, decide_eq_true_eq] at hplace
    exact hplace.2.le

/-- A decimal on the grid that reads back is at most half a spacing above the number. -/
theorem value_le_of_onGrid? (h : onGrid? rule units exponent = some d) :
    0 < d.coefficient ∧ 2 * (d.value * one) ≤ 2 * units + Binary64.spacing units := by
  obtain ⟨hreads, rfl⟩ := readsBack_of_onGrid? h
  obtain ⟨hpos, hplace⟩ := place_le_of_readsBack hreads
  refine ⟨hpos, ?_⟩
  have hscale : (10 : ℚ) ^ d.exponent * 10 ^ (-d.exponent).toNat = 10 ^ d.exponent.toNat := by
    rw [← zpow_natCast, ← zpow_natCast, ← zpow_add₀ (by norm_num)]
    congr 1
    omega
  have hplace : (4 * d.coefficient * (one * 10 ^ d.exponent.toNat) : ℚ) ≤
      (4 * units + 2 * Binary64.spacing units) * 10 ^ (-d.exponent).toNat := by
    exact_mod_cast hplace
  have hpower : (0 : ℚ) < 10 ^ (-d.exponent).toNat := by positivity
  generalize (one : ℚ) = unit at hplace ⊢
  refine le_of_mul_le_mul_right ?_ hpower
  calc 2 * (d.value * unit) * 10 ^ (-d.exponent).toNat
      = 2 * d.coefficient * (unit * (10 ^ d.exponent * 10 ^ (-d.exponent).toNat)) := by
        unfold value
        ring
    _ = (4 * d.coefficient * (unit * 10 ^ d.exponent.toNat)) / 2 := by
        rw [hscale]
        ring
    _ ≤ (4 * units + 2 * Binary64.spacing units) * 10 ^ (-d.exponent).toNat / 2 := by
        linarith
    _ = (2 * units + Binary64.spacing units) * 10 ^ (-d.exponent).toNat := by ring

/-- What the shortest decimal is: zero, or a positive decimal at most half a spacing above. -/
theorem shortest_cases (rule : TieRule) (x : Finite64) :
    x.shortest rule = ⟨0, 0⟩ ∨
    0 < (x.shortest rule).coefficient ∧
      2 * ((x.shortest rule).value * one) ≤ 2 * x.units + Binary64.spacing x.units := by
  unfold shortest
  split
  · exact .inl rfl
  · dsimp only
    split
    next d hfound =>
      obtain ⟨n, -, hgrid⟩ := List.exists_of_findSome?_eq_some hfound
      obtain ⟨hpos, hvalue⟩ := value_le_of_onGrid? hgrid
      refine .inr ⟨coefficient_normalize_pos hpos, ?_⟩
      have hle := mul_le_mul_of_nonneg_right (value_normalize_le d) (Nat.cast_nonneg one)
      linarith
    next => exact .inl rfl

end Finite64

end TraceTutor

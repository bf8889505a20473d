import Mathlib.Tactic.Ring
import TraceTutor.Proofs.Number.Place
import TraceTutor.Value.Basic

/-!
# Words and their closest doubles

Every signed word has a closest double, `Finite64.closest`, and this lies within the same powers of
two as the word (`two_pow_le_units_closest`, `units_closest_le_two_pow`). The doubles of two words
whose sum or product is no word therefore have a sum or product of at least `2 ^ 62`
(`signed_add_closest`, `units_mul_closest`), whatever the two roundings did.
-/

namespace TraceTutor

open Finite64 Binary64

/-! ## Words -/

theorem isWord_iff {n : Int} :
    isWord n = true ↔ -9223372036854775808 ≤ n ∧ n < 9223372036854775808 := by
  unfold isWord wordBound
  rw [Bool.and_eq_true, decide_eq_true_iff, decide_eq_true_iff]

theorem isWord_eq_false_iff {n : Int} :
    isWord n = false ↔ n < -9223372036854775808 ∨ 9223372036854775808 ≤ n := by
  rw [← Bool.not_eq_true, isWord_iff]
  omega

/-- A remainder of a word by another one is a word. -/
theorem isWord_tmod {a b : Int} (ha : isWord a = true) (hb : isWord b = true) :
    isWord (a.tmod b) = true := by
  rw [isWord_iff] at *
  have habs : (a.tmod b).natAbs = a.natAbs % b.natAbs := Int.natAbs_tmod a b
  by_cases hzero : b = 0
  · rw [hzero, Int.tmod_zero]
    exact ha
  · have hlt : a.natAbs % b.natAbs < b.natAbs := Nat.mod_lt _ (by omega)
    omega

/-- Of all quotients of words, only that of the least word by minus one is no word. -/
theorem isWord_tdiv {a b : Int} (ha : isWord a = true)
    (h : ¬(a = -9223372036854775808 ∧ b = -1)) : isWord (a.tdiv b) = true := by
  have habs : (a.tdiv b).natAbs = a.natAbs / b.natAbs := Int.natAbs_tdiv a b
  rw [isWord_iff] at *
  rcases Nat.lt_or_ge b.natAbs 2 with hsmall | hlarge
  · have hb : b = 0 ∨ b = 1 ∨ b = -1 := by omega
    rcases hb with rfl | rfl | rfl
    · rw [Int.tdiv_zero]
      omega
    · rw [Int.tdiv_one]
      omega
    · rw [Int.tdiv_neg, Int.tdiv_one]
      omega
  · have hhalf : a.natAbs / b.natAbs ≤ a.natAbs / 2 := Nat.div_le_div_left hlarge (by decide)
    omega

/-! ## Closest doubles -/

namespace Finite64

/-- The double closest to an integer, if that is finite. -/
def closest (n : Int) : Finite64 :=
  ⟨n < 0, nearest (n.natAbs * one) 1⟩

/-- A double holds every power of two. -/
theorem spacing_dvd_two_pow (k : Nat) : spacing (2 ^ k * one) ∣ 2 ^ k * one := by
  obtain ⟨j, hone⟩ := one_eq_two_pow
  rw [hone, ← Nat.pow_add]
  exact spacing_two_pow_dvd _

theorem two_pow_le_nearest {k num den : Nat} (hden : 0 < den) (h : den * (2 ^ k * one) ≤ num) :
    2 ^ k * one ≤ nearest num den := by
  refine (le_nearest hden ?_ le_rfl).trans (nearest_mono hden h)
  rw [Nat.mul_div_cancel_left _ hden]
  exact spacing_dvd_two_pow k

theorem nearest_two_pow (k : Nat) : nearest (2 ^ k * one) 1 = 2 ^ k * one :=
  nearest_self (spacing_dvd_two_pow k)

variable {n : Int} {k : Nat}

theorem two_pow_le_units_closest (h : 2 ^ k ≤ n.natAbs) : 2 ^ k * one ≤ (closest n).units := by
  rw [← nearest_two_pow]
  exact nearest_mono Nat.one_pos (Nat.mul_le_mul_right one h)

theorem units_closest_le_two_pow (h : n.natAbs ≤ 2 ^ k) : (closest n).units ≤ 2 ^ k * one := by
  rw [← nearest_two_pow]
  exact nearest_mono Nat.one_pos (Nat.mul_le_mul_right one h)

theorem units_closest_of_natAbs_eq (h : n.natAbs = 2 ^ k) : (closest n).units = 2 ^ k * one := by
  unfold closest
  rw [h]
  exact nearest_two_pow k

theorem units_closest_zero : (closest 0).units = 0 := by
  unfold closest
  rw [Int.natAbs_zero, Nat.zero_mul]
  exact nearest_self (Nat.dvd_zero _)

theorem limit_eq_two_pow : ∃ m, limit = 2 ^ m * one ∧ 1000 < m := by
  refine ⟨1024, ?_, by decide⟩
  decide +kernel

theorem two_pow_lt_limit (h : k ≤ 1000) : 2 ^ k * one < limit := by
  obtain ⟨m, hlimit, hm⟩ := limit_eq_two_pow
  rw [hlimit]
  exact Nat.mul_lt_mul_of_pos_right (Nat.pow_lt_pow_right (by decide) (by omega)) one_pos

theorem signed_closest_of_nonneg (h : 0 ≤ n) : (closest n).signed = (closest n).units := by
  have hsign : (closest n).negative = false := decide_eq_false (not_lt.2 h)
  unfold signed
  rw [hsign, if_neg Bool.false_ne_true]

theorem signed_closest_of_neg (h : n < 0) : (closest n).signed = -(closest n).units := by
  have hsign : (closest n).negative = true := decide_eq_true h
  unfold signed
  rw [hsign, if_pos rfl]

theorem signed_closest_neg (n : Int) : (closest (-n)).signed = -(closest n).signed := by
  have hunits : (closest (-n)).units = (closest n).units := by
    unfold closest
    rw [Int.natAbs_neg]
  rcases lt_trichotomy n 0 with hneg | rfl | hpos
  · rw [signed_closest_of_nonneg (by omega), signed_closest_of_neg hneg, hunits]
    omega
  · rw [Int.neg_zero, signed_closest_of_nonneg le_rfl, units_closest_zero]
    rfl
  · rw [signed_closest_of_neg (by omega), signed_closest_of_nonneg hpos.le, hunits]

/-- The doubles of two integers whose sum is no word have a sum that is far from all words but the
greatest. -/
theorem signed_add_closest {m n : Int} (hm : m.natAbs ≤ 2 ^ 63) (hn : n.natAbs ≤ 2 ^ 63)
    (h : isWord (m + n) = false) :
    2 ^ 62 * one ≤ ((closest m).signed + (closest n).signed).natAbs ∧
    ((closest m).signed + (closest n).signed).natAbs ≤ 2 ^ 64 * one ∧
    ((closest m).signed + (closest n).signed < 0 ↔ m + n < 0) := by
  have hmhigh : (closest m).units ≤ 2 ^ 63 * one := units_closest_le_two_pow hm
  have hnhigh : (closest n).units ≤ 2 ^ 63 * one := units_closest_le_two_pow hn
  -- Both operands have the sign of the sum, and one of them makes up half of it.
  have hlarge : 2 ^ 62 * one ≤ (closest m).units ∨ 2 ^ 62 * one ≤ (closest n).units := by
    rw [isWord_eq_false_iff] at h
    rcases (show 2 ^ 62 ≤ m.natAbs ∨ 2 ^ 62 ≤ n.natAbs by omega) with hlarge | hlarge
    · exact .inl (two_pow_le_units_closest hlarge)
    · exact .inr (two_pow_le_units_closest hlarge)
  have hpos : 0 < 2 ^ 62 * one := Nat.mul_pos (Nat.two_pow_pos 62) one_pos
  rw [isWord_eq_false_iff] at h
  rcases h with h | h
  · rw [signed_closest_of_neg (show m < 0 by omega), signed_closest_of_neg (show n < 0 by omega)]
    omega
  · rw [signed_closest_of_nonneg (show 0 ≤ m by omega),
      signed_closest_of_nonneg (show 0 ≤ n by omega)]
    omega

/-- The doubles of two integers whose product is no word have a product that is far from all words
but the greatest. -/
theorem units_mul_closest {m n : Int} (hm : m.natAbs ≤ 2 ^ 63) (hn : n.natAbs ≤ 2 ^ 63)
    (h : isWord (m * n) = false) :
    one * (2 ^ 62 * one) ≤ (closest m).units * (closest n).units ∧
    (closest m).units * (closest n).units ≤ one * (2 ^ 126 * one) := by
  constructor
  · -- Each factor is within a power of two, and the exponents of both add up to sixty-two.
    have hlarge : 2 ^ 63 ≤ m.natAbs * n.natAbs := by
      rw [isWord_eq_false_iff] at h
      rw [← Int.natAbs_mul]
      omega
    have hmzero : m.natAbs ≠ 0 := by
      intro hzero
      rw [hzero, Nat.zero_mul] at hlarge
      omega
    have hnzero : n.natAbs ≠ 0 := by
      intro hzero
      rw [hzero, Nat.mul_zero] at hlarge
      omega
    have hproduct : m.natAbs * n.natAbs < 2 ^ (m.natAbs.log2 + 1 + (n.natAbs.log2 + 1)) := by
      rw [Nat.pow_add]
      exact Nat.mul_lt_mul'' Nat.lt_log2_self Nat.lt_log2_self
    have hexponents : 62 ≤ m.natAbs.log2 + n.natAbs.log2 := by
      have hlt := (Nat.pow_lt_pow_iff_right (by decide)).1 (hlarge.trans_lt hproduct)
      omega
    have hmlow := two_pow_le_units_closest (Nat.log2_self_le hmzero)
    have hnlow := two_pow_le_units_closest (Nat.log2_self_le hnzero)
    generalize one = unit at *
    calc unit * (2 ^ 62 * unit)
        ≤ unit * (2 ^ (m.natAbs.log2 + n.natAbs.log2) * unit) :=
          Nat.mul_le_mul_left _
            (Nat.mul_le_mul_right _ (Nat.pow_le_pow_right (by decide) hexponents))
      _ = 2 ^ m.natAbs.log2 * unit * (2 ^ n.natAbs.log2 * unit) := by
          rw [Nat.pow_add]
          ring
      _ ≤ (closest m).units * (closest n).units := Nat.mul_le_mul hmlow hnlow
  · have hmhigh : (closest m).units ≤ 2 ^ 63 * one := units_closest_le_two_pow hm
    have hnhigh : (closest n).units ≤ 2 ^ 63 * one := units_closest_le_two_pow hn
    generalize one = unit at *
    calc (closest m).units * (closest n).units
        ≤ 2 ^ 63 * unit * (2 ^ 63 * unit) := Nat.mul_le_mul hmhigh hnhigh
      _ = unit * (2 ^ 126 * unit) := by ring

end Finite64

theorem Binary64.ofInt_eq_closest {n : Int} (h : n.natAbs ≤ 2 ^ 63) :
    Binary64.ofInt n = .finite (closest n) := by
  have hlt : nearest (n.natAbs * one) 1 < limit := by
    have hle : (closest n).units ≤ 2 ^ 63 * one := units_closest_le_two_pow h
    exact hle.trans_lt (two_pow_lt_limit (by decide))
  unfold Binary64.ofInt Binary64.ofRatio
  exact if_pos hlt

end TraceTutor

import Mathlib.Algebra.Group.Nat.Defs
import Mathlib.Data.Nat.Log
import TraceTutor.Number.Binary64

/-!
# Rounding

`Binary64.nearest` rounds a ratio to a representable count. A ratio that is at most a representable
count is not rounded beyond it (`nearest_le`), nor is one that is at least a representable count
rounded below it (`le_nearest`), and rounding is monotone (`nearest_mono`). A ratio of many bits
loses a small part of itself (`le_mul_nearest`).
-/

namespace TraceTutor

namespace Finite64

theorem one_eq_two_pow_add {j : Nat} (h : j ≤ 1074) : ∃ k, one = 2 ^ (k + j) := by
  have hone : one = 2 ^ 1074 := by decide +kernel
  exact ⟨1074 - j, by rw [Nat.sub_add_cancel h, hone]⟩

theorem one_eq_two_pow : ∃ k, one = 2 ^ k :=
  one_eq_two_pow_add (Nat.zero_le 1074)

theorem one_pos : 0 < one := by
  obtain ⟨k, hone⟩ := one_eq_two_pow
  rw [hone]
  exact Nat.two_pow_pos k

end Finite64

namespace Binary64

/-! ## Rounding to whole numbers -/

/-- The whole number closest to `num / cell`; of two equally close ones, the even one. -/
def roundQuotient (num cell : Nat) : Nat :=
  if 2 * (num % cell) > cell || (2 * (num % cell) == cell && num / cell % 2 == 1) then
    num / cell + 1
  else num / cell

theorem nearest_eq (num den : Nat) :
    nearest num den = roundQuotient num (den * spacing (num / den)) * spacing (num / den) := rfl

theorem le_roundQuotient (num cell : Nat) : num / cell ≤ roundQuotient num cell := by
  unfold roundQuotient
  split <;> omega

theorem roundQuotient_le_succ (num cell : Nat) : roundQuotient num cell ≤ num / cell + 1 := by
  unfold roundQuotient
  split <;> omega

/-- A ratio that is at most a whole number is not rounded beyond it. -/
theorem roundQuotient_le {num cell m : Nat} (hcell : 0 < cell) (h : num ≤ cell * m) :
    roundQuotient num cell ≤ m := by
  have hle : num / cell ≤ m := Nat.div_le_of_le_mul h
  rcases Nat.lt_or_ge (num / cell) m with hlt | hge
  · exact (roundQuotient_le_succ num cell).trans hlt
  · -- The ratio is the whole number itself, so that nothing is left over.
    have hdiv : num / cell = m := le_antisymm hle hge
    have hrest : num % cell = 0 := by
      have hsplit := Nat.div_add_mod num cell
      rw [hdiv] at hsplit
      omega
    unfold roundQuotient
    rw [hrest, hdiv, if_neg]
    simp [hcell.ne]

theorem roundQuotient_mono {num num' : Nat} (h : num ≤ num') (cell : Nat) :
    roundQuotient num cell ≤ roundQuotient num' cell := by
  have hdiv : num / cell ≤ num' / cell := Nat.div_le_div_right h
  rcases Nat.lt_or_ge (num / cell) (num' / cell) with hlt | hge
  · exact (roundQuotient_le_succ num cell).trans (hlt.trans_le (le_roundQuotient num' cell))
  · have heq : num / cell = num' / cell := le_antisymm hdiv hge
    have hrest : num % cell ≤ num' % cell := by
      have hsplit := Nat.div_add_mod num cell
      have hsplit' := Nat.div_add_mod num' cell
      rw [heq] at hsplit
      omega
    unfold roundQuotient
    rw [heq]
    simp only [Bool.or_eq_true, Bool.and_eq_true, decide_eq_true_eq, beq_iff_eq]
    split <;> split <;> omega

/-! ## Representable counts -/

theorem spacing_eq (count : Nat) : spacing count = 2 ^ (count.log2 - 52) := rfl

theorem spacing_pos (count : Nat) : 0 < spacing count :=
  Nat.two_pow_pos _

theorem log2_mono {a b : Nat} (h : a ≤ b) : a.log2 ≤ b.log2 := by
  rw [Nat.log2_eq_log_two, Nat.log2_eq_log_two]
  exact Nat.log_mono_right h

theorem spacing_dvd_spacing {a b : Nat} (h : a ≤ b) : spacing a ∣ spacing b :=
  Nat.pow_dvd_pow 2 (Nat.sub_le_sub_right (log2_mono h) 52)

theorem spacing_two_pow_dvd (k : Nat) : spacing (2 ^ k) ∣ 2 ^ k := by
  rw [spacing_eq, Nat.log2_two_pow]
  exact Nat.pow_dvd_pow 2 (Nat.sub_le k 52)

variable {num num' den count : Nat}

/-- A ratio that is at most a representable count is not rounded beyond it. -/
theorem nearest_le (hden : 0 < den) (hcount : spacing count ∣ count) (h : num ≤ den * count) :
    nearest num den ≤ count := by
  have hdiv : num / den ≤ count := Nat.div_le_of_le_mul h
  obtain ⟨m, hm⟩ := Nat.dvd_trans (spacing_dvd_spacing hdiv) hcount
  have hcell : 0 < den * spacing (num / den) := Nat.mul_pos hden (spacing_pos _)
  have hnum : num ≤ den * spacing (num / den) * m := by
    rw [Nat.mul_assoc, ← hm]
    exact h
  rw [nearest_eq]
  calc roundQuotient num (den * spacing (num / den)) * spacing (num / den)
      ≤ m * spacing (num / den) := Nat.mul_le_mul_right _ (roundQuotient_le hcell hnum)
    _ = count := by rw [Nat.mul_comm, ← hm]

/-- A ratio that is at least a multiple of the spacing is not rounded below it. -/
theorem le_nearest (hden : 0 < den) (hcount : spacing (num / den) ∣ count) (h : den * count ≤ num) :
    count ≤ nearest num den := by
  obtain ⟨m, hm⟩ := hcount
  have hcell : 0 < den * spacing (num / den) := Nat.mul_pos hden (spacing_pos _)
  have hnum : den * spacing (num / den) * m ≤ num := by
    rw [Nat.mul_assoc, ← hm]
    exact h
  have hle : m ≤ num / (den * spacing (num / den)) :=
    (Nat.le_div_iff_mul_le hcell).2 (by rwa [Nat.mul_comm])
  rw [nearest_eq]
  calc count = m * spacing (num / den) := by rw [Nat.mul_comm, ← hm]
    _ ≤ roundQuotient num (den * spacing (num / den)) * spacing (num / den) :=
      Nat.mul_le_mul_right _ (hle.trans (le_roundQuotient _ _))

/-- A representable count is not rounded. -/
theorem nearest_self (hcount : spacing count ∣ count) : nearest count 1 = count := by
  refine le_antisymm (nearest_le Nat.one_pos hcount (Nat.one_mul _).ge) ?_
  exact le_nearest Nat.one_pos (by rwa [Nat.div_one]) (Nat.one_mul _).le

/-- Rounding is monotone. -/
theorem nearest_mono (hden : 0 < den) (h : num ≤ num') : nearest num den ≤ nearest num' den := by
  have hdiv : num / den ≤ num' / den := Nat.div_le_div_right h
  have hlog := log2_mono hdiv
  by_cases hspacing : spacing (num / den) = spacing (num' / den)
  · rw [nearest_eq, nearest_eq, hspacing]
    exact Nat.mul_le_mul_right _ (roundQuotient_mono h _)
  · -- The greater ratio has a greater logarithm, and a power of two lies between the two.
    have hlt : (num / den).log2 < (num' / den).log2 := by
      refine lt_of_le_of_ne hlog fun heq => hspacing ?_
      rw [spacing_eq, spacing_eq, heq]
    have hne : num' / den ≠ 0 := by
      intro hzero
      rw [hzero, Nat.log2_zero] at hlt
      omega
    have hbelow : num ≤ den * 2 ^ (num' / den).log2 := by
      have hquotient : num / den < 2 ^ (num' / den).log2 :=
        Nat.lt_log2_self.trans_le (Nat.pow_le_pow_right (by decide) hlt)
      exact ((Nat.div_lt_iff_lt_mul hden).1 hquotient).le.trans_eq (Nat.mul_comm _ _)
    have habove : den * 2 ^ (num' / den).log2 ≤ num' := by
      rw [Nat.mul_comm]
      exact (Nat.le_div_iff_mul_le hden).1 (Nat.log2_self_le hne)
    calc nearest num den ≤ 2 ^ (num' / den).log2 := nearest_le hden (spacing_two_pow_dvd _) hbelow
      _ ≤ nearest num' den := le_nearest hden (Nat.pow_dvd_pow 2 (Nat.sub_le _ 52)) habove

/-- Rounding a ratio of at least fifty-three bits takes away at most the `2 ^ 52`th part. -/
theorem le_mul_nearest (hden : 0 < den) (h : den * 2 ^ 52 ≤ num) :
    (2 ^ 52 - 1) * num ≤ 2 ^ 52 * (den * nearest num den) := by
  have hquotient : 2 ^ 52 ≤ num / den := (Nat.le_div_iff_mul_le hden).2 (by rwa [Nat.mul_comm])
  have hne : num / den ≠ 0 := by omega
  have hlog : 52 ≤ (num / den).log2 := (Nat.le_log2 hne).2 hquotient
  have hspacing : 2 ^ 52 * spacing (num / den) ≤ num / den := by
    rw [spacing_eq, ← Nat.pow_add, Nat.add_sub_cancel' hlog]
    exact Nat.log2_self_le hne
  have hcell : 2 ^ 52 * (den * spacing (num / den)) ≤ num := by
    calc 2 ^ 52 * (den * spacing (num / den))
        = den * (2 ^ 52 * spacing (num / den)) := Nat.mul_left_comm _ _ _
      _ ≤ den * (num / den) := Nat.mul_le_mul_left den hspacing
      _ ≤ num := Nat.mul_div_le num den
  have hfloor : den * spacing (num / den) * (num / (den * spacing (num / den))) ≤
      den * nearest num den := by
    rw [nearest_eq, Nat.mul_assoc den, Nat.mul_comm (roundQuotient _ _)]
    exact Nat.mul_le_mul_left den (Nat.mul_le_mul_left _ (le_roundQuotient _ _))
  have hrest := Nat.lt_mul_div_succ num (Nat.mul_pos hden (spacing_pos (num / den)))
  rw [Nat.mul_succ] at hrest
  omega

end Binary64

end TraceTutor

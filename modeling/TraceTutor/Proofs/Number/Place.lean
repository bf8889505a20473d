import TraceTutor.Proofs.Number.Whole
import TraceTutor.Proofs.Value.Numbers

/-!
# Exact values and their doubles

Every number is an exact count of units of `2 ^ -1074` (`Number.units`), and is compared through the
closest double. `Finite64.rounded` is the place of that double on the line. It is monotone
(`rounded_mono`), so that an order between doubles is one between the exact values, but it takes
different integers to one place once they need more than fifty-three bits. Below that a place is the
exact count, and nothing else is rounded to it (`eq_of_rounded_eq`).
-/

namespace TraceTutor

namespace Finite64

/-! ## Places -/

/-- The place of a signed count, where what is not finite lies at the end of the line. -/
def place (negative : Bool) (count : Nat) : Int :=
  if negative then -(min count limit : Nat) else (min count limit : Nat)

theorem rank?_ofRatio (negative : Bool) (num den : Nat) :
    (Binary64.ofRatio negative num den).rank? =
      some (place negative (Binary64.nearest num den)) := by
  unfold Binary64.ofRatio place
  dsimp only
  by_cases h : Binary64.nearest num den < limit
  · rw [if_pos h, Nat.min_eq_left h.le]
    rfl
  · rw [if_neg h, Nat.min_eq_right (not_lt.1 h)]
    rfl

/-- The place of the double closest to a count of units. -/
def rounded (count : Int) : Int :=
  place (count < 0) (Binary64.nearest count.natAbs 1)

theorem rounded_mono {a b : Int} (h : a ≤ b) : rounded a ≤ rounded b := by
  unfold rounded place
  simp only [decide_eq_true_eq]
  by_cases ha : a < 0
  · rw [if_pos ha]
    by_cases hb : b < 0
    · have hle := Binary64.nearest_mono Nat.one_pos (show b.natAbs ≤ a.natAbs by omega)
      rw [if_pos hb]
      omega
    · rw [if_neg hb]
      omega
  · have hle := Binary64.nearest_mono Nat.one_pos (show a.natAbs ≤ b.natAbs by omega)
    rw [if_neg ha, if_neg (by omega)]
    omega

/-! ## Counts that are not rounded -/

theorem rounded_of_dvd {a : Int} (hlimit : a.natAbs ≤ limit)
    (h : Binary64.spacing a.natAbs ∣ a.natAbs) : rounded a = a := by
  unfold rounded place
  rw [Binary64.nearest_self h, Nat.min_eq_left hlimit]
  simp only [decide_eq_true_eq]
  split <;> omega

/-- Below the fifty-third power of two, the count is that of a double. -/
def IsFine (count : Int) : Prop :=
  count.natAbs < 2 ^ 53 * one → Binary64.spacing count.natAbs ∣ count.natAbs

theorem IsFine.rounded_eq {a : Int} (ha : IsFine a) (h : a.natAbs < 2 ^ 53 * one) :
    rounded a = a :=
  rounded_of_dvd (h.le.trans exactBound_le_limit) (ha h)

theorem le_natAbs_rounded {a : Int} (h : 2 ^ 53 * one ≤ a.natAbs) :
    2 ^ 53 * one ≤ (rounded a).natAbs := by
  have hspacing : Binary64.spacing (2 ^ 53 * one) ∣ 2 ^ 53 * one := by
    obtain ⟨k, hone⟩ := one_eq_two_pow
    rw [hone, ← Nat.pow_add]
    exact Binary64.spacing_two_pow_dvd _
  have hnearest : 2 ^ 53 * one ≤ Binary64.nearest a.natAbs 1 :=
    (Binary64.nearest_self hspacing).ge.trans (Binary64.nearest_mono Nat.one_pos h)
  have hmin := le_min hnearest exactBound_le_limit
  unfold rounded place
  split <;> omega

/-- Nothing else is rounded to the place of a count below the fifty-third power of two. -/
theorem eq_of_rounded_eq {a b : Int} (ha : IsFine a) (hb : IsFine b)
    (hsmall : a.natAbs < 2 ^ 53 * one) (h : rounded a = rounded b) : a = b := by
  rw [ha.rounded_eq hsmall] at h
  by_cases hlarge : 2 ^ 53 * one ≤ b.natAbs
  · have hle := le_natAbs_rounded hlarge
    rw [← h] at hle
    omega
  · rwa [hb.rounded_eq (not_le.1 hlarge)] at h

theorem natAbs_signed (x : Finite64) : x.signed.natAbs = x.units := by
  unfold signed
  split <;> omega

/-! ## Integers -/

theorem isFine_int (n : Int) : IsFine (n * one) := by
  intro h
  rw [Int.natAbs_mul, Int.natAbs_natCast] at h ⊢
  exact spacing_whole_dvd (Nat.lt_of_mul_lt_mul_right h)

theorem int_mul_one_neg_iff {n : Int} : n * one < 0 ↔ n < 0 := by
  have hone : (0 : Int) < one := Int.natCast_pos.2 one_pos
  constructor
  · intro h
    by_contra hn
    exact absurd (Int.mul_nonneg (not_lt.1 hn) hone.le) (not_le.2 h)
  · intro hn
    exact Int.mul_neg_of_neg_of_pos hn hone

theorem rounded_int (n : Int) :
    rounded (n * one) = place (n < 0) (Binary64.nearest (n.natAbs * one) 1) := by
  unfold rounded
  rw [Int.natAbs_mul, Int.natAbs_natCast]
  simp only [int_mul_one_neg_iff]

theorem rank?_ofInt (n : Int) : (Binary64.ofInt n).rank? = some (rounded (n * one)) := by
  rw [rounded_int]
  exact rank?_ofRatio _ _ _

theorem natAbs_int_lt {n : Int} (h : n.natAbs ≤ maxExactInt) :
    (n * one).natAbs < 2 ^ 53 * one := by
  unfold maxExactInt at h
  rw [Int.natAbs_mul, Int.natAbs_natCast]
  exact Nat.mul_lt_mul_of_pos_right (by omega) one_pos

theorem rounded_int_neg_iff (n : Int) : rounded (n * one) < 0 ↔ n < 0 := by
  have hone : (0 : Int) < one := Int.natCast_pos.2 one_pos
  constructor
  · intro h
    by_contra hn
    have hle : 0 * (one : Int) ≤ n * one := Int.mul_le_mul_of_nonneg_right (not_lt.1 hn) hone.le
    have hrounded := rounded_mono hle
    rw [(isFine_int 0).rounded_eq (natAbs_int_lt (by decide))] at hrounded
    omega
  · intro hn
    have hle : n * (one : Int) ≤ -1 * one := Int.mul_le_mul_of_nonneg_right (by omega) hone.le
    have hrounded := rounded_mono hle
    rw [(isFine_int (-1)).rounded_eq (natAbs_int_lt (by decide))] at hrounded
    omega

/-- Integers whose doubles have the same place have the same double. -/
theorem ofInt_eq_iff {m n : Int} :
    Binary64.ofInt m = Binary64.ofInt n ↔ rounded (m * one) = rounded (n * one) := by
  constructor
  · intro h
    have hrank := congrArg Binary64.rank? h
    rwa [rank?_ofInt, rank?_ofInt, Option.some.injEq] at hrank
  · intro h
    have hsign : m < 0 ↔ n < 0 := by
      rw [← rounded_int_neg_iff m, h, rounded_int_neg_iff]
    have hcount : min (Binary64.nearest (m.natAbs * one) 1) limit =
        min (Binary64.nearest (n.natAbs * one) 1) limit := by
      rw [rounded_int, rounded_int] at h
      unfold place at h
      simp only [hsign] at h
      split at h <;> omega
    unfold Binary64.ofInt Binary64.ofRatio
    simp only [hsign]
    by_cases hlt : Binary64.nearest (m.natAbs * one) 1 < limit
    · have heq : Binary64.nearest (m.natAbs * one) 1 = Binary64.nearest (n.natAbs * one) 1 := by
        omega
      rw [heq]
    · rw [if_neg hlt, if_neg (by omega)]

/-- An integer of exact size shares its double with no other one. -/
theorem eq_of_ofInt_eq {m n : Int} (h : Binary64.ofInt m = Binary64.ofInt n)
    (hsmall : m.natAbs ≤ maxExactInt ∨ n.natAbs ≤ maxExactInt) : m = n := by
  have hplace := ofInt_eq_iff.1 h
  have hunits : m * (one : Int) = n * one := by
    rcases hsmall with hm | hn
    · exact eq_of_rounded_eq (isFine_int m) (isFine_int n) (natAbs_int_lt hm) hplace
    · exact (eq_of_rounded_eq (isFine_int n) (isFine_int m) (natAbs_int_lt hn)
        hplace.symm).symm
  exact Int.eq_of_mul_eq_mul_right (Int.natCast_pos.2 one_pos).ne' hunits

end Finite64

/-! ## Numbers -/

namespace Number

open Finite64

/-- The exact value of a number, as a count of units. -/
def units : Number → Int
  | int n => n * one
  | float x => x.signed

theorem IsMachine.rank?_eq {n : Number} (h : n.IsMachine) :
    n.toBinary64.rank? = some (rounded n.units) := by
  cases n with
  | int n => exact rank?_ofInt n
  | float x =>
    have hplace : rounded x.signed = x.signed := by
      apply rounded_of_dvd
      · rw [natAbs_signed]
        exact h.1.le
      · rw [natAbs_signed]
        exact h.2
    exact congrArg some hplace.symm

theorem IsMachine.isFine_units {n : Number} (h : n.IsMachine) : IsFine n.units := by
  cases n with
  | int n => exact isFine_int n
  | float x =>
    intro _
    show Binary64.spacing x.signed.natAbs ∣ x.signed.natAbs
    rw [natAbs_signed]
    exact h.2

end Number

end TraceTutor

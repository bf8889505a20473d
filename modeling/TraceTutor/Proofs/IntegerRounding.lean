import TraceTutor.Proofs.Number.Closest
import TraceTutor.Script.Builtin

/-!
# Rounding integers

An integer of exact size is the value of its double, and rounding it up or down to a whole number
leaves it alone (`floor_ofInt`, `ceil_ofInt`). Rounding it to the closest whole number goes through
the sum with one half. That sum is exact up to `2 ^ 52`. Beyond, it lies in the middle between two
doubles and is rounded to the even one, so that even integers remain and odd ones become the next
integer (`floor_add_half`).
-/

namespace TraceTutor

open Finite64 Binary64

/-! ## Whole doubles -/

namespace Finite64

variable {n : Nat}

theorem nearest_whole_of_le (h : n ≤ 2 ^ 53) : nearest (n * one) 1 = n * one := by
  rcases Nat.lt_or_eq_of_le h with hlt | rfl
  · exact nearest_whole hlt
  · exact nearest_two_pow 53

theorem ofRatio_whole (h : n ≤ 2 ^ 53) (negative : Bool) :
    Binary64.ofRatio negative (n * one) 1 = .finite ⟨negative, n * one⟩ := by
  have hlt : n * one < limit :=
    (Nat.mul_le_mul_right one h).trans_lt (two_pow_lt_limit (k := 53) (by decide))
  unfold Binary64.ofRatio
  rw [nearest_whole_of_le h]
  exact if_pos hlt

theorem whole_div_one : n * one / one = n :=
  Nat.mul_div_cancel n Finite64.one_pos

theorem isWhole_whole (negative : Bool) : isWhole ⟨negative, n * one⟩ = true :=
  decide_eq_true (Nat.mul_mod_left n one)

theorem floor_whole (h : n ≤ 2 ^ 53) (negative : Bool) :
    Binary64.floor (.finite ⟨negative, n * one⟩) = .finite ⟨negative, n * one⟩ := by
  unfold Binary64.floor
  simp only [isWhole_whole, Bool.not_true, Bool.and_false, Bool.false_eq_true, if_false,
    whole_div_one]
  exact ofRatio_whole h negative

theorem ceil_whole (h : n ≤ 2 ^ 53) (negative : Bool) :
    Binary64.ceil (.finite ⟨negative, n * one⟩) = .finite ⟨negative, n * one⟩ := by
  unfold Binary64.ceil
  simp only [isWhole_whole, Bool.not_true, Bool.and_false, Bool.false_eq_true, if_false,
    whole_div_one]
  exact ofRatio_whole h negative

end Finite64

/-! ## Doubles of integers -/

section

variable {n : Int}

theorem Binary64.ofInt_eq_whole (h : n.natAbs ≤ 2 ^ 53) :
    Binary64.ofInt n = .finite ⟨n < 0, n.natAbs * one⟩ :=
  ofRatio_whole h _

theorem Binary64.floor_ofInt (h : n.natAbs ≤ 2 ^ 53) :
    (Binary64.ofInt n).floor = Binary64.ofInt n := by
  rw [Binary64.ofInt_eq_whole h]
  exact floor_whole h _

theorem Binary64.ceil_ofInt (h : n.natAbs ≤ 2 ^ 53) :
    (Binary64.ofInt n).ceil = Binary64.ofInt n := by
  rw [Binary64.ofInt_eq_whole h]
  exact ceil_whole h _

theorem Finite64.truncate_whole (n : Int) : truncate ⟨n < 0, n.natAbs * one⟩ = n := by
  unfold truncate
  simp only [whole_div_one, decide_eq_true_eq]
  split <;> omega

/-- The value of the double of an integer of exact size is the integer. -/
theorem Value.ofBinary64_ofInt (h : n.natAbs ≤ maxExactInt) :
    Value.ofBinary64 (.ofInt n) = .int n := by
  have hle : n.natAbs ≤ 2 ^ 53 := by
    unfold maxExactInt at h
    omega
  rw [Binary64.ofInt_eq_whole hle]
  unfold Value.ofBinary64
  dsimp only
  rw [isWhole_whole, truncate_whole, Bool.true_and, if_pos (decide_eq_true h)]

/-- If the value of the double of an integer is an integer, then it is this one. -/
theorem Value.eq_of_ofBinary64_ofInt {m : Int} (h : n.natAbs ≤ 2 ^ 53)
    (hm : Value.ofBinary64 (.ofInt n) = .int m) : n = m := by
  rw [Binary64.ofInt_eq_whole h] at hm
  unfold Value.ofBinary64 at hm
  dsimp only at hm
  rw [truncate_whole] at hm
  split at hm <;> cases hm
  rfl

end

/-! ## The sum with one half -/

namespace Finite64

variable {n : Nat}

theorem two_mul_half : 2 * (one / 2) = one := by
  obtain ⟨k, hone⟩ := one_eq_two_pow_add (j := 1) (by decide)
  rw [hone, Nat.pow_succ, Nat.mul_div_cancel _ (by decide : 0 < 2), Nat.mul_comm]

theorem half_lt_one : one / 2 < one := by
  have hpos : 0 < one := Finite64.one_pos
  omega

theorem add_half_div_one : (n * one + one / 2) / one = n := by
  rw [Nat.mul_comm, Nat.mul_add_div Finite64.one_pos, Nat.div_eq_of_lt half_lt_one, Nat.add_zero]

theorem add_half_mod_one : (n * one + one / 2) % one = one / 2 := by
  rw [Nat.mul_comm, Nat.mul_add_mod, Nat.mod_eq_of_lt half_lt_one]

/-- Below `2 ^ 52` there is a double in the middle between two integers. -/
theorem nearest_add_half_of_lt (h : n < 2 ^ 52) :
    nearest (n * one + one / 2) 1 = n * one + one / 2 := by
  obtain ⟨k, hone⟩ := one_eq_two_pow_add (j := 1) (by decide)
  have hcount : n * one + one / 2 = (2 * n + 1) * 2 ^ k := by
    rw [hone, Nat.pow_succ, Nat.mul_div_cancel _ (by decide : 0 < 2)]
    ring
  rw [hcount]
  exact nearest_self (spacing_mul_two_pow_dvd (by omega) k)

theorem spacing_add_half (hlow : 2 ^ 52 ≤ n) (hhigh : n < 2 ^ 53) :
    spacing (n * one + one / 2) = one := by
  obtain ⟨k, hone⟩ := one_eq_two_pow
  have hlog : (n * one + one / 2).log2 = 52 + k := by
    have hpos : 0 < one := Finite64.one_pos
    have hfirst : 2 ^ 52 * one ≤ n * one := Nat.mul_le_mul_right one hlow
    have hlast : n * one + one ≤ 2 ^ 53 * one := by
      rw [← Nat.succ_mul]
      exact Nat.mul_le_mul_right one hhigh
    rw [Nat.log2_eq_iff (by omega), Nat.add_right_comm, Nat.pow_add, Nat.pow_add, ← hone]
    omega
  rw [spacing_eq, hlog, Nat.add_sub_cancel_left, ← hone]

/-- From there on the two neighbours are integers, equally close, and the even one is taken. -/
theorem nearest_add_half_of_le (hlow : 2 ^ 52 ≤ n) (hhigh : n < 2 ^ 53) :
    nearest (n * one + one / 2) 1 = (n + n % 2) * one := by
  have hround : roundQuotient (n * one + one / 2) one = n + n % 2 := by
    unfold roundQuotient
    rw [add_half_div_one, add_half_mod_one, two_mul_half]
    rcases Nat.mod_two_eq_zero_or_one n with hn | hn <;> simp [hn]
  rw [nearest_eq, Nat.div_one, spacing_add_half hlow hhigh, Nat.one_mul, hround]

/-- A number in the middle between two integers, rounded down. -/
theorem floor_half (h : n < 2 ^ 52) (negative : Bool) :
    Binary64.floor (.finite ⟨negative, n * one + one / 2⟩) =
      .finite ⟨negative, (n + negative.toNat) * one⟩ := by
  have hpart : isWhole ⟨negative, n * one + one / 2⟩ = false := by
    have htwo := two_mul_half
    have hpos : 0 < one := Finite64.one_pos
    refine decide_eq_false ?_
    rw [add_half_mod_one]
    omega
  have hle : n + negative.toNat ≤ 2 ^ 53 := by
    have hbit := Bool.toNat_le negative
    omega
  unfold Binary64.floor
  simp only [hpart, add_half_div_one, Bool.not_false, Bool.and_true]
  rw [← ofRatio_whole hle]
  cases negative <;> rfl

/-- The sum of a whole number and one half, rounded down. -/
theorem floor_ofRatio_add_half (h : n < 2 ^ 53) (negative : Bool) :
    (Binary64.ofRatio negative (n * one + one / 2) 1).floor = .finite ⟨negative,
      (if n < 2 ^ 52 then n + negative.toNat else n + n % 2) * one⟩ := by
  by_cases hlow : n < 2 ^ 52
  · have hlt : n * one + one / 2 < limit := by
      have hle : n * one + one ≤ 2 ^ 53 * one := by
        rw [← Nat.succ_mul]
        exact Nat.mul_le_mul_right one h
      have hlimit := two_pow_lt_limit (k := 53) (by decide)
      omega
    have hsum : Binary64.ofRatio negative (n * one + one / 2) 1 =
        .finite ⟨negative, n * one + one / 2⟩ := by
      unfold Binary64.ofRatio
      rw [nearest_add_half_of_lt hlow]
      exact if_pos hlt
    rw [if_pos hlow, hsum, floor_half hlow]
  · have hle : n + n % 2 ≤ 2 ^ 53 := by omega
    have hsum : Binary64.ofRatio negative (n * one + one / 2) 1 =
        Binary64.ofRatio negative ((n + n % 2) * one) 1 := by
      unfold Binary64.ofRatio
      rw [nearest_add_half_of_le (not_lt.1 hlow) h, nearest_whole_of_le hle]
    rw [if_neg hlow, hsum, ofRatio_whole hle, floor_whole hle]

end Finite64

variable {n : Int}

/-- The sum that is rounded is an integer and one half. Of a negative integer this one is closer to
zero, so that its magnitude is one half above the next integer. -/
theorem Binary64.add_half (h : n.natAbs ≤ 2 ^ 53) :
    (Binary64.ofInt n).add .half = Binary64.ofRatio (n < 0)
      ((if n < 0 then n.natAbs - 1 else n.natAbs) * one + one / 2) 1 := by
  have hpos : 0 < one := Finite64.one_pos
  have htwo := two_mul_half
  have hhalf : (⟨false, one / 2⟩ : Finite64).signed = (one / 2 : Nat) := rfl
  rw [Binary64.ofInt_eq_whole h]
  unfold Binary64.half Binary64.add
  dsimp only
  rw [hhalf]
  by_cases hneg : n < 0
  · obtain ⟨k, hk⟩ : ∃ k, n.natAbs = k + 1 := ⟨n.natAbs - 1, by omega⟩
    have hcount : (⟨n < 0, n.natAbs * one⟩ : Finite64).signed + (one / 2 : Nat) =
        -(k * one + one / 2 : Nat) := by
      unfold signed
      rw [hk, Nat.succ_mul, if_pos (decide_eq_true hneg)]
      dsimp only
      omega
    unfold Binary64.ofUnits
    rw [hcount, if_neg (by omega), if_pos hneg, hk, Nat.add_sub_cancel, Int.natAbs_neg,
      Int.natAbs_natCast, decide_eq_true hneg, decide_eq_true (by omega)]
  · have hcount : (⟨n < 0, n.natAbs * one⟩ : Finite64).signed + (one / 2 : Nat) =
        (n.natAbs * one + one / 2 : Nat) := by
      unfold signed
      rw [if_neg (by simpa using hneg), Nat.cast_add]
    unfold Binary64.ofUnits
    rw [hcount, if_neg (by omega), if_neg hneg, Int.natAbs_natCast, decide_eq_false hneg,
      decide_eq_false (by omega)]

theorem Binary64.floor_add_half (h : n.natAbs < 2 ^ 53) :
    ((Binary64.ofInt n).add .half).floor =
      Binary64.ofInt (if n.natAbs ≤ 2 ^ 52 ∨ n % 2 = 0 then n else n + 1) := by
  have hnat : (if n < 0 then n.natAbs - 1 else n.natAbs) < 2 ^ 53 := by
    split <;> omega
  generalize hm : (if n.natAbs ≤ 2 ^ 52 ∨ n % 2 = 0 then n else n + 1) = m
  have hint : m.natAbs ≤ 2 ^ 53 := by
    split at hm <;> omega
  have hsign : m < 0 ↔ n < 0 := by
    split at hm <;> omega
  rw [add_half h.le, floor_ofRatio_add_half hnat, Binary64.ofInt_eq_whole hint]
  simp only [hsign]
  congr 3
  by_cases hneg : n < 0
  · simp only [hneg, if_true, decide_true, Bool.toNat_true]
    split at hm <;> split <;> omega
  · simp only [hneg, if_false, decide_false, Bool.toNat_false]
    split at hm <;> split <;> omega

/-! ## The members of `Math` -/

theorem natAbs_lt_of_exact (h : n.natAbs ≤ maxExactInt) : n.natAbs < 2 ^ 53 := by
  unfold maxExactInt at h
  omega

/-- What the three members that round make of one argument. -/
theorem mathCall?_rounding (v : Value) :
    mathCall? "floor" [v] = some (.ofBinary64 v.toBinary64.floor) ∧
    mathCall? "ceil" [v] = some (.ofBinary64 v.toBinary64.ceil) ∧
    mathCall? "round" [v] = some (.ofBinary64 (v.toBinary64.add .half).floor) :=
  ⟨rfl, rfl, rfl⟩

theorem mathCall?_round_int (h : n.natAbs ≤ maxExactInt) :
    mathCall? "round" [.int n] = some (.ofBinary64
      (.ofInt (if n.natAbs ≤ 2 ^ 52 ∨ n % 2 = 0 then n else n + 1))) := by
  rw [(mathCall?_rounding _).2.2, ← Binary64.floor_add_half (natAbs_lt_of_exact h)]
  rfl

/-- Of an integer of exact size, the largest whole number not above and the smallest one not below
are the integer itself. The closest whole number is the integer too if it is even or at most
`2 ^ 52`, and otherwise comes out as the next integer. -/
theorem mathCall?_int (h : n.natAbs ≤ maxExactInt) :
    mathCall? "floor" [.int n] = some (.int n) ∧
    mathCall? "ceil" [.int n] = some (.int n) ∧
    (mathCall? "round" [.int n] = some (.int n) ↔ n.natAbs ≤ 2 ^ 52 ∨ n % 2 = 0) ∧
    (¬(n.natAbs ≤ 2 ^ 52 ∨ n % 2 = 0) →
      mathCall? "round" [.int n] = some (.ofBinary64 (.ofInt (n + 1)))) := by
  have hle := (natAbs_lt_of_exact h).le
  have hdouble : (Value.int n).toBinary64 = .ofInt n := rfl
  obtain ⟨hfloor, hceil, -⟩ := mathCall?_rounding (.int n)
  have hround := mathCall?_round_int h
  refine ⟨?_, ?_, ⟨fun hkept => ?_, fun hexact => ?_⟩, fun hinexact => ?_⟩
  · rw [hfloor, hdouble, Binary64.floor_ofInt hle, Value.ofBinary64_ofInt h]
  · rw [hceil, hdouble, Binary64.ceil_ofInt hle, Value.ofBinary64_ofInt h]
  · by_contra hinexact
    rw [if_neg hinexact, hkept, Option.some.injEq] at hround
    have hnext := Value.eq_of_ofBinary64_ofInt (by omega) hround.symm
    omega
  · rw [hround, if_pos hexact, Value.ofBinary64_ofInt h]
  · rw [hround, if_neg hinexact]

/-- The last odd integer below `2 ^ 52`, and an even one beyond. -/
theorem mathCall?_int_samples :
    mathCall? "round" [.int 4503599627370495] = some (.int 4503599627370495) ∧
    mathCall? "round" [.int (-9007199254740990)] = some (.int (-9007199254740990)) ∧
    mathCall? "ceil" [.int 9007199254740991] = some (.int 9007199254740991) :=
  ⟨(mathCall?_int (by decide)).2.2.1.2 (by decide),
    (mathCall?_int (by decide)).2.2.1.2 (by decide), (mathCall?_int (by decide)).2.1⟩

/-- The sum of the first odd integer beyond `2 ^ 52` and one half is rounded up. -/
theorem mathCall?_round_ne :
    ¬ ∀ (name : String) (n : Int), name ∈ ["floor", "ceil", "round"] → n.natAbs ≤ maxExactInt →
      mathCall? name [.int n] = some (.int n) := by
  intro h
  have hkept := h "round" 4503599627370497 (by decide) (by decide)
  rw [mathCall?_round_int (by decide), if_neg (by decide),
    Value.ofBinary64_ofInt (by decide)] at hkept
  cases hkept

end TraceTutor

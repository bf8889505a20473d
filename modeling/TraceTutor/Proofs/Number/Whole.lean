import TraceTutor.Proofs.Number.Decimal
import TraceTutor.Proofs.Number.Rounding
import TraceTutor.Value.Basic

/-!
# Whole numbers

A whole number of at most fifty-three bits is a double (`Finite64.nearest_whole`). Its digits are
read as that double (`Binary64.ofText?_toDigits`), and the value of the double is the integer again
(`Value.ofBinary64_whole`).
-/

namespace TraceTutor

open Finite64 Binary64

namespace Finite64

variable {n : Nat}

/-- A whole number as a double. -/
def whole (n : Nat) : Finite64 :=
  ⟨false, n * one⟩

/-- A count of fifty-three bits, shifted to the left, is representable. -/
theorem spacing_mul_two_pow_dvd (h : n < 2 ^ 53) (k : Nat) : spacing (n * 2 ^ k) ∣ n * 2 ^ k := by
  have hlt : n * 2 ^ k < 2 ^ (53 + k) := by
    rw [Nat.pow_add]
    exact Nat.mul_lt_mul_of_pos_right h (Nat.two_pow_pos k)
  have hlog : (n * 2 ^ k).log2 - 52 ≤ k := by
    by_cases hzero : n * 2 ^ k = 0
    · rw [hzero, Nat.log2_zero]
      omega
    · have hlog := (Nat.log2_lt hzero).2 hlt
      omega
  have hdvd : spacing (n * 2 ^ k) ∣ 2 ^ k := by
    rw [spacing_eq]
    exact Nat.pow_dvd_pow 2 hlog
  exact hdvd.trans (Nat.dvd_mul_left _ n)

/-- The last of the fifty-three bits that a double keeps is worth one at most. -/
theorem spacing_whole_dvd (h : n < 2 ^ 53) : spacing (n * one) ∣ n * one := by
  obtain ⟨k, hone⟩ := one_eq_two_pow
  rw [hone]
  exact spacing_mul_two_pow_dvd h k

theorem nearest_whole (h : n < 2 ^ 53) : nearest (n * one) 1 = n * one :=
  nearest_self (spacing_whole_dvd h)

theorem exactBound_le_limit : 2 ^ 53 * one ≤ limit := by
  decide +kernel

theorem whole_units_lt_limit (h : n < 2 ^ 53) : n * one < limit :=
  (Nat.mul_lt_mul_of_pos_right h Finite64.one_pos).trans_le exactBound_le_limit

end Finite64

variable {n : Nat}

/-- The decimal of a whole number is read as that number. -/
theorem Decimal.toBinary64_whole (h : n < 2 ^ 53) :
    Decimal.toBinary64 false ⟨n, 0⟩ = .finite (whole n) := by
  rcases Nat.eq_zero_or_pos n with rfl | hn
  · simp [Decimal.toBinary64, whole]
  · have hlength : (Nat.toDigits 10 n).length ≤ 16 := by
      by_contra hlong
      have hpow := Decimal.pow_le_of_lt_length_toDigits (not_le.1 hlong) hn
      omega
    have hmagnitude : (⟨n, 0⟩ : Decimal).magnitude ≤ 15 := by
      unfold Decimal.magnitude Decimal.digits
      dsimp only
      omega
    have hnonneg : -1 ≤ (⟨n, 0⟩ : Decimal).magnitude := by
      unfold Decimal.magnitude
      dsimp only
      omega
    unfold Decimal.toBinary64
    rw [if_neg (by simp; omega), if_neg (by omega), if_pos (by simp)]
    simp [ofRatio, whole, nearest_whole h, whole_units_lt_limit h]

theorem Decimal.toLower_of_isDigit {c : Char} (h : c.isDigit = true) : c.toLower = c := by
  unfold Char.isDigit at h
  unfold Char.toLower
  simp only [Bool.and_eq_true, decide_eq_true_eq] at h
  refine dif_neg fun hupper => ?_
  have hle : (65 : UInt32) ≤ 57 := UInt32.le_trans hupper.1 h.2
  exact absurd hle (by decide)

/-- A text that starts with a digit spells no word that starts otherwise, such as those for numbers
that are not finite. -/
theorem Decimal.ofList_toLower_ne {text : List Char} (h : ∀ c ∈ text.head?, c.isDigit = true)
    {word : String} (hword : ∃ c ∈ word.toList.head?, c.isDigit = false) :
    String.ofList (text.map Char.toLower) ≠ word := by
  rintro rfl
  obtain ⟨c, hc, hdigit⟩ := hword
  rw [String.toList_ofList, List.head?_map, Option.mem_map] at hc
  obtain ⟨d, hd, rfl⟩ := hc
  have hd := h d hd
  rw [toLower_of_isDigit hd, hd] at hdigit
  cases hdigit

/-- A text that starts with a digit is read as a decimal without a sign. -/
theorem Binary64.ofText?_of_head {text : List Char} (hne : text ≠ [])
    (h : ∀ c ∈ text.head?, c.isDigit = true) :
    ofText? text =
      let (fraction, rest) := match text.dropWhile Char.isDigit with
        | '.' :: rest => (rest.takeWhile Char.isDigit, rest.dropWhile Char.isDigit)
        | rest => ([], rest)
      (readExponent? rest).map fun exponent =>
        Decimal.toBinary64 false
          ⟨Decimal.ofDigits (text.takeWhile Char.isDigit ++ fraction),
            exponent - fraction.length⟩ := by
  have hsign : splitSign text = (false, text) := by
    unfold splitSign
    split
    next rest => exact absurd (h '-' rfl) (by decide)
    next rest => exact absurd (h '+' rfl) (by decide)
    next => rfl
  have hinf : String.ofList (text.map Char.toLower) ≠ "inf" :=
    Decimal.ofList_toLower_ne h ⟨'i', by decide⟩
  have hinfinity : String.ofList (text.map Char.toLower) ≠ "infinity" :=
    Decimal.ofList_toLower_ne h ⟨'i', by decide⟩
  have hnan : String.ofList (text.map Char.toLower) ≠ "nan" :=
    Decimal.ofList_toLower_ne h ⟨'n', by decide⟩
  have hwhole : (text.takeWhile Char.isDigit).isEmpty = false := by
    obtain ⟨c, rest, rfl⟩ := List.exists_cons_of_ne_nil hne
    rw [List.takeWhile_cons_of_pos (h c rfl)]
    rfl
  unfold ofText?
  simp only [hsign, hwhole, Bool.false_and]
  rw [if_neg (by simp [hinf, hinfinity]), if_neg hnan]
  rfl

/-- A run of digits is read as the decimal without an exponent. -/
theorem Binary64.ofText?_digits {digits : List Char} (hne : digits ≠ [])
    (h : ∀ c ∈ digits, c.isDigit = true) :
    ofText? digits = some (Decimal.toBinary64 false ⟨Decimal.ofDigits digits, 0⟩) := by
  have htake : digits.takeWhile Char.isDigit = digits := List.takeWhile_eq_self_iff.2 h
  have hdrop : digits.dropWhile Char.isDigit = [] := List.dropWhile_eq_nil_iff.2 h
  rw [ofText?_of_head hne fun c hc => h c (List.mem_of_mem_head? hc)]
  simp only [htake, hdrop, readExponent?, List.append_nil, Option.map_some, List.length_nil]
  rfl

theorem Binary64.ofText?_toDigits (h : n < 2 ^ 53) :
    ofText? (Nat.toDigits 10 n) = some (.finite (whole n)) := by
  have hdigits : ∀ c ∈ Nat.toDigits 10 n, c.isDigit = true := fun c hc =>
    Nat.isDigit_of_mem_toDigits (by decide) (by decide) hc
  rw [ofText?_digits Nat.toDigits_ne_nil hdigits, Decimal.ofDigits_toDigits,
    Decimal.toBinary64_whole h]

theorem Value.ofBinary64_whole (h : n < 2 ^ 53) :
    Value.ofBinary64 (.finite (whole n)) = Value.int n := by
  have htruncate : (whole n).truncate = n := by
    simp [Finite64.truncate, whole, Nat.mul_div_cancel _ Finite64.one_pos]
  have hwhole : (whole n).isWhole = true := by
    simp [Finite64.isWhole, whole]
  have hle : ((n : Int).natAbs : Int) ≤ maxExactInt := by
    unfold maxExactInt
    omega
  simp only [Value.ofBinary64, hwhole, htruncate, Bool.true_and, decide_eq_true_eq]
  exact if_pos hle

theorem Value.ofBinary64_of_large {x : Finite64} (h : maxExactInt < x.truncate.natAbs) :
    Value.ofBinary64 (.finite x) = .number (.float x) := by
  unfold ofBinary64
  refine if_neg fun hexact => ?_
  exact absurd (of_decide_eq_true (Bool.and_eq_true_iff.1 hexact).2) (not_le.2 h)

/-- An integer beyond the exact size is not the value of any double. -/
theorem Value.ofBinary64_ne_int {n : Int} (h : maxExactInt < n.natAbs) (x : Binary64) :
    Value.ofBinary64 x ≠ .int n := by
  unfold Value.ofBinary64
  split
  next x =>
    split
    next hexact =>
      rintro ⟨rfl⟩
      exact absurd (of_decide_eq_true (Bool.and_eq_true_iff.1 hexact).2) (not_le.2 h)
    next => exact nofun
  next => exact nofun

end TraceTutor

import TraceTutor.Proofs.Json.Values
import TraceTutor.Proofs.Number.Rounding

/-!
# Doubles in documents

The numeral of a double is read as a double again (`exists_rereadNumber`). Reading rounds twice, so
that a numeral can become infinite although it denotes less than the first count that is not finite.
The numerals of all doubles but the largest ones denote at most `safeLimit`, and up to there no
scaling rounds to infinity (`exists_toDouble?`). The largest doubles are read back by computation.
-/

namespace TraceTutor.Document

open Binary64 Finite64

/-! ## Natural numbers -/

/-- The count of the largest double. -/
def largest : Nat :=
  limit - 2 ^ 2045

/-- No decimal of a double below the largest one is above this count. -/
def safeLimit : Nat :=
  largest - 2 ^ 2044

theorem spacing_largest_dvd : spacing largest ∣ largest := by
  decide +kernel

theorem largest_lt_limit : largest < limit := by
  decide +kernel

/-- The double closest to a natural number. -/
def ofNat (n : Nat) : Finite64 :=
  ⟨false, nearest (n * one) 1⟩

theorem ofInt_natCast {n : Nat} (h : (ofNat n).units < limit) : ofInt n = .finite (ofNat n) := by
  have hneg : ¬((n : Int) < 0) := by omega
  unfold ofInt ofRatio
  rw [decide_eq_false hneg, Int.natAbs_natCast]
  exact if_pos h

theorem units_ofNat_mono {a b : Nat} (h : a ≤ b) : (ofNat a).units ≤ (ofNat b).units :=
  nearest_mono Nat.one_pos (Nat.mul_le_mul_right one h)

theorem powerOfTen_mono {a b : Nat} (h : a ≤ b) : powerOfTen a ≤ powerOfTen b :=
  Nat.pow_le_pow_right (by decide) h

theorem powerOfTen_pos (places : Nat) : 0 < powerOfTen places :=
  Nat.pow_pos (by decide)

theorem units_power_mono {a b : Nat} (h : a ≤ b) :
    (ofNat (powerOfTen a)).units ≤ (ofNat (powerOfTen b)).units :=
  units_ofNat_mono (powerOfTen_mono h)

/-! ## Bounds -/

/-- The largest word that stays below the safe limit when it is scaled. -/
def maxSignificand (places : Nat) : Nat :=
  min (safeLimit / (powerOfTen places * one)) (wordCount - 1)

/-- The scaled words that matter. Below `288` places no word gets up to the safe limit. -/
theorem scaled_maxSignificand_lt_limit : ∀ places < 309, 288 ≤ places →
    nearest ((ofNat (maxSignificand places)).units * (ofNat (powerOfTen places)).units) one <
      limit := by
  decide +kernel

theorem wordCount_le_maxSignificand : ∀ places < 289, 288 ≤ places →
    wordCount - 1 ≤ maxSignificand places := by
  decide +kernel

theorem le_maxSignificand {n places : Nat} (hn : n < wordCount)
    (h : n * (powerOfTen places * one) ≤ safeLimit) : n ≤ maxSignificand (max places 288) := by
  have hword : n ≤ wordCount - 1 := Nat.le_pred_of_lt hn
  rcases Nat.lt_or_ge 288 places with hhigh | hlow
  · rw [max_eq_left hhigh.le]
    exact le_min ((Nat.le_div_iff_mul_le (Nat.mul_pos (powerOfTen_pos places) Finite64.one_pos)).2 h) hword
  · exact hword.trans (wordCount_le_maxSignificand (max places 288) (by omega) (by omega))

/-- A word is not rounded to infinity when it is scaled up to the safe limit. -/
theorem scaled_lt_limit {n places : Nat} (hn : n < wordCount) (hplaces : places ≤ 308)
    (h : n * (powerOfTen places * one) ≤ safeLimit) :
    nearest ((ofNat n).units * (ofNat (powerOfTen places)).units) one < limit := by
  have hle := Nat.mul_le_mul (units_ofNat_mono (le_maxSignificand hn h))
    (units_power_mono (le_max_left places 288))
  exact Nat.lt_of_le_of_lt (nearest_mono Finite64.one_pos hle)
    (scaled_maxSignificand_lt_limit (max places 288) (by omega) (by omega))

theorem units_greatestPower_lt_limit : ∀ places < 309, 308 ≤ places →
    (ofNat (powerOfTen places)).units < limit := by
  decide +kernel

theorem units_power_lt_limit {places : Nat} (h : places ≤ 308) :
    (ofNat (powerOfTen places)).units < limit :=
  Nat.lt_of_le_of_lt (units_power_mono (le_max_left places 308))
    (units_greatestPower_lt_limit (max places 308) (by omega) (by omega))

theorem one_le_units_power (places : Nat) : one ≤ (ofNat (powerOfTen places)).units := by
  have hfirst : one ≤ (ofNat (powerOfTen 0)).units := by decide +kernel
  exact Nat.le_trans hfirst (units_power_mono (Nat.zero_le places))

theorem safeLimit_lt_tooGreatPower : ∀ places < 310, 309 ≤ places →
    safeLimit < powerOfTen places * one := by
  decide +kernel

theorem safeLimit_lt_power {places : Nat} (h : 309 ≤ places) :
    safeLimit < powerOfTen places * one := by
  have hpower : powerOfTen (min places 309) ≤ powerOfTen places :=
    powerOfTen_mono (min_le_left places 309)
  exact Nat.lt_of_lt_of_le
    (safeLimit_lt_tooGreatPower (min places 309) (by omega) (by omega))
    (Nat.mul_le_mul_right one hpower)

/-! ## Scaling -/

/-- A double that is not beyond the largest one. -/
def IsBounded (x : Binary64) : Prop :=
  ∃ y : Finite64, x = .finite y ∧ y.units ≤ largest

theorem isBounded_ofRatio (negative : Bool) {num den : Nat} (hden : 0 < den)
    (h : num ≤ den * largest) : IsBounded (ofRatio negative num den) := by
  have hle := nearest_le hden spacing_largest_dvd h
  refine ⟨⟨negative, nearest num den⟩, ?_, hle⟩
  unfold ofRatio
  exact if_pos (hle.trans_lt largest_lt_limit)

theorem units_word_le_largest {n : Nat} (hn : n < wordCount) : (ofNat n).units ≤ largest := by
  have hlast : (ofNat wordCount).units ≤ largest := by decide +kernel
  exact (units_ofNat_mono hn.le).trans hlast

theorem isBounded_ofInt {n : Nat} (hn : n < wordCount) : IsBounded (ofInt n) :=
  ⟨ofNat n, ofInt_natCast ((units_word_le_largest hn).trans_lt largest_lt_limit),
    units_word_le_largest hn⟩

theorem isBounded_div_power {x : Binary64} (hx : IsBounded x) {places : Nat} (h : places ≤ 308) :
    IsBounded (x.div (ofInt (powerOfTen places))) := by
  obtain ⟨y, rfl, hy⟩ := hx
  rw [ofInt_natCast (units_power_lt_limit h)]
  have hone := one_le_units_power places
  generalize ofNat (powerOfTen places) = p at hone ⊢
  have hpos : 0 < p.units := Finite64.one_pos.trans_le hone
  have hzero : p.isZero = false := by simpa [Finite64.isZero] using hpos.ne'
  simp only [Binary64.div, hzero, Bool.false_eq_true, if_false]
  refine isBounded_ofRatio _ hpos ?_
  calc y.units * one ≤ largest * p.units := Nat.mul_le_mul hy hone
    _ = p.units * largest := Nat.mul_comm _ _

/-- Scaling down always has a result. -/
theorem exists_scale?_of_neg {x : Binary64} (hx : IsBounded x) {exponent : Int}
    (hexponent : exponent < 0) (steps : Nat) : ∃ y, scale? x exponent steps = some (.finite y) := by
  induction steps generalizing x exponent with
  | zero =>
    obtain ⟨y, rfl, -⟩ := hx
    exact ⟨y, rfl⟩
  | succ steps ih =>
    unfold scale?
    split
    next hplaces =>
      obtain ⟨y, hy, -⟩ := isBounded_div_power hx hplaces
      exact ⟨y, congrArg some hy⟩
    next hplaces =>
      split
      · obtain ⟨y, rfl, -⟩ := hx
        exact ⟨y, rfl⟩
      · have hnext : exponent + 308 < 0 := by omega
        rw [if_neg (by omega)]
        exact ih (isBounded_div_power hx (le_refl 308)) hnext

/-- A word that stays below the safe limit is scaled to a double. -/
theorem exists_scale? {n : Nat} (hn : n < wordCount) {exponent : Int}
    (h : ∀ places : Nat, exponent = places → n * (powerOfTen places * one) ≤ safeLimit) :
    ∃ y, scale? (ofInt n) exponent 4 = some (.finite y) := by
  have hword := ofInt_natCast ((units_word_le_largest hn).trans_lt largest_lt_limit)
  rcases lt_or_ge exponent 0 with hneg | hpos
  · exact exists_scale?_of_neg (isBounded_ofInt hn) hneg 4
  obtain ⟨places, rfl⟩ := Int.eq_ofNat_of_zero_le hpos
  have hle := h places rfl
  unfold scale?
  rw [Int.natAbs_natCast, hword]
  split
  next hplaces =>
    have hmul : (finite (ofNat n)).mul (.finite (ofNat (powerOfTen places))) =
        .finite ⟨false, nearest ((ofNat n).units * (ofNat (powerOfTen places)).units) one⟩ := by
      unfold Binary64.mul ofRatio
      exact if_pos (scaled_lt_limit hn hplaces hle)
    rw [ofInt_natCast (units_power_lt_limit hplaces)]
    dsimp only
    rw [hmul, if_neg (by omega)]
    exact ⟨_, rfl⟩
  next hplaces =>
    -- Only zero stays below the safe limit with so many places.
    have hzero : n = 0 := by
      by_contra hne
      have hlarge : safeLimit < powerOfTen places * one := safeLimit_lt_power (by omega)
      have hscaled : powerOfTen places * one ≤ n * (powerOfTen places * one) :=
        Nat.le_mul_of_pos_left _ (Nat.pos_of_ne_zero hne)
      exact Nat.lt_irrefl _ (Nat.lt_of_lt_of_le hlarge (Nat.le_trans hscaled hle))
    subst hzero
    have hsame : (finite (ofNat 0)).same .zero = true := by decide +kernel
    rw [if_pos hsame]
    exact ⟨_, rfl⟩

/-! ## Digits that fit a word -/

theorem appendDigits_cons (n : Nat) (c : Char) (digits : List Char) :
    appendDigits n (c :: digits) =
      if 10 * n + (c.toNat - '0'.toNat) < wordCount then
        appendDigits (10 * n + (c.toNat - '0'.toNat)) digits
      else (n, digits.length + 1) := rfl

/-- The number that the digits make if they all follow. -/
theorem ofDigits_cons_add (n : Nat) (c : Char) (digits : List Char) :
    10 ^ digits.length * (10 * n + (c.toNat - '0'.toNat)) + Decimal.ofDigits digits =
      10 ^ (c :: digits).length * n + Decimal.ofDigits (c :: digits) := by
  rw [Decimal.ofDigits_cons, List.length_cons, Nat.pow_succ]
  ring

/-- The digits that are left over only make the number greater. -/
theorem appendDigits_spec {n : Nat} (hn : n < wordCount) (digits : List Char) :
    (appendDigits n digits).1 < wordCount ∧ (appendDigits n digits).2 ≤ digits.length ∧
      (appendDigits n digits).1 * 10 ^ (appendDigits n digits).2 ≤
        10 ^ digits.length * n + Decimal.ofDigits digits := by
  induction digits generalizing n with
  | nil => simp [appendDigits, hn]
  | cons c digits ih =>
    rw [appendDigits_cons]
    split
    next hnext =>
      obtain ⟨hword, hleft, hvalue⟩ := ih hnext
      rw [ofDigits_cons_add] at hvalue
      exact ⟨hword, Nat.le_succ_of_le hleft, hvalue⟩
    next hnext =>
      refine ⟨hn, le_refl _, ?_⟩
      rw [List.length_cons, Nat.mul_comm]
      exact Nat.le_add_right _ _

/-- No digit is left over if the number fits a word. -/
theorem appendDigits_of_lt {n : Nat} {digits : List Char}
    (h : 10 ^ digits.length * n + Decimal.ofDigits digits < wordCount) :
    appendDigits n digits = (10 ^ digits.length * n + Decimal.ofDigits digits, 0) := by
  induction digits generalizing n with
  | nil => simp [appendDigits, Decimal.ofDigits]
  | cons c digits ih =>
    rw [← ofDigits_cons_add] at h ⊢
    have hnext : 10 * n + (c.toNat - '0'.toNat) < wordCount :=
      calc 10 * n + (c.toNat - '0'.toNat)
          ≤ 10 ^ digits.length * (10 * n + (c.toNat - '0'.toNat)) :=
            Nat.le_mul_of_pos_left _ (Nat.pow_pos (by decide))
        _ ≤ _ := Nat.le_add_right _ _
        _ < wordCount := h
    rw [appendDigits_cons, if_pos hnext, ih h]

/-! ## Numerals of doubles -/

variable {x : Numeral} {d : Decimal}

theorem mul_power_mul_one_le {n places : Nat} (h : (n : ℚ) * 10 ^ places * one ≤ safeLimit) :
    n * (powerOfTen places * one) ≤ safeLimit := by
  generalize one = unit at h ⊢
  generalize safeLimit = bound at h ⊢
  rw [powerOfTen, Nat.pow_eq, ← Nat.mul_assoc]
  exact_mod_cast h

/-- A numeral is scaled to a double if its decimal is not above the safe limit. -/
theorem exists_scale?_significand (hx : x.Spells d) (hvalue : d.value * one ≤ safeLimit)
    {significand unread : Nat} (hword : significand < wordCount)
    (hunread : unread ≤ x.fraction.length)
    (hread : significand * 10 ^ unread ≤ Decimal.ofDigits (x.whole ++ x.fraction)) :
    ∃ y, scale? (ofInt significand) (x.power - (x.fraction.length - unread : Nat)) 4 =
      some (.finite y) := by
  refine exists_scale? hword fun places hplaces => ?_
  have hshift : (places : Int) = unread + (x.power - x.fraction.length) := by omega
  have hscaled : (significand : ℚ) * 10 ^ places ≤ d.value :=
    calc (significand : ℚ) * 10 ^ places
        = (significand * 10 ^ unread : Nat) * 10 ^ (x.power - x.fraction.length) := by
          rw [← zpow_natCast, hshift, zpow_add₀ (by norm_num), zpow_natCast]
          push_cast
          ring
      _ ≤ (Decimal.ofDigits (x.whole ++ x.fraction) : ℚ) * 10 ^ (x.power - x.fraction.length) := by
          have hcast : ((significand * 10 ^ unread : Nat) : ℚ) ≤
              Decimal.ofDigits (x.whole ++ x.fraction) := by exact_mod_cast hread
          exact mul_le_mul_of_nonneg_right hcast (by positivity)
      _ = d.value := hx.value_eq
  have hbound := (mul_le_mul_of_nonneg_right hscaled (Nat.cast_nonneg one)).trans hvalue
  exact mul_power_mul_one_le hbound

/-- A positive decimal up to the safe limit has no large magnitude. -/
theorem magnitude_lt_of_value_le (hvalue : d.value * one ≤ safeLimit) (hpos : 0 < d.coefficient) :
    d.magnitude < 309 := by
  by_contra hge
  have hnonneg : 0 ≤ d.magnitude := by omega
  obtain ⟨places, hplaces⟩ := Int.eq_ofNat_of_zero_le hnonneg
  have hlarge : safeLimit < powerOfTen places * one := safeLimit_lt_power (by omega)
  have hdigits : 10 ^ (d.digits.length - 1) ≤ d.coefficient := by
    refine Decimal.pow_le_of_lt_length_toDigits ?_ hpos
    exact Nat.sub_lt (List.length_pos_iff.2 Nat.toDigits_ne_nil) Nat.one_pos
  have hshift : (places : Int) = (d.digits.length - 1 : Nat) + d.exponent := by
    have hlength : 0 < d.digits.length := List.length_pos_iff.2 Nat.toDigits_ne_nil
    unfold Decimal.magnitude at hplaces
    omega
  have hpower : (10 : ℚ) ^ places ≤ d.value :=
    calc (10 : ℚ) ^ places = (10 ^ (d.digits.length - 1) : Nat) * 10 ^ d.exponent := by
          rw [← zpow_natCast, hshift, zpow_add₀ (by norm_num), zpow_natCast]
          push_cast
          rfl
      _ ≤ d.coefficient * 10 ^ d.exponent := by
          have hcast : ((10 ^ (d.digits.length - 1) : Nat) : ℚ) ≤ d.coefficient := by
            exact_mod_cast hdigits
          exact mul_le_mul_of_nonneg_right hcast (by positivity)
      _ = d.value := rfl
  have hbound := (mul_le_mul_of_nonneg_right hpower (Nat.cast_nonneg one)).trans hvalue
  have hsmall : 1 * (powerOfTen places * one) ≤ safeLimit :=
    mul_power_mul_one_le (by rwa [Nat.cast_one, one_mul])
  rw [Nat.one_mul] at hsmall
  exact Nat.lt_irrefl _ (Nat.lt_of_lt_of_le hlarge hsmall)

theorem coefficient_pos (hx : x.Spells d) {significand unread : Nat} (hne : significand ≠ 0)
    (hread : significand * 10 ^ unread ≤ Decimal.ofDigits (x.whole ++ x.fraction)) :
    0 < d.coefficient := by
  by_contra hzero
  have hcoefficient : d.coefficient = 0 := by omega
  have hdigits : 0 < Decimal.ofDigits (x.whole ++ x.fraction) :=
    Nat.lt_of_lt_of_le (Nat.mul_pos (Nat.pos_of_ne_zero hne) (Nat.pow_pos (by decide))) hread
  have hvalue := hx.value_eq
  rw [Decimal.value, hcoefficient, Nat.cast_zero, zero_mul, mul_eq_zero] at hvalue
  rcases hvalue with h | h
  · rw [Nat.cast_eq_zero] at h
    omega
  · exact absurd h (by positivity)

theorem exists_signed {scaled : Option Binary64} (negative : Bool)
    (h : ∃ y, scaled = some (.finite y)) :
    ∃ y, (if negative then scaled.map .neg else scaled) = some (.finite y) := by
  obtain ⟨y, rfl⟩ := h
  cases negative with
  | true => exact ⟨_, rfl⟩
  | false => exact ⟨y, rfl⟩

/-- A numeral denotes a double if its decimal is not above the safe limit. -/
theorem exists_toDouble? (hx : x.Spells d) (hvalue : d.value * one ≤ safeLimit) :
    ∃ y, x.toDouble? = some (.finite y) := by
  have hwhole : appendDigits 0 x.whole = (Decimal.ofDigits x.whole, 0) := by
    have hword : 10 ^ x.whole.length * 0 + Decimal.ofDigits x.whole < wordCount := by
      rw [Nat.mul_zero, Nat.zero_add]
      exact hx.whole_lt.trans (by decide)
    rw [appendDigits_of_lt hword, Nat.mul_zero, Nat.zero_add]
  have hspec := appendDigits_spec (hx.whole_lt.trans (by decide)) x.fraction
  rw [← Decimal.ofDigits_append] at hspec
  unfold Numeral.toDouble?
  rw [hwhole]
  dsimp only
  generalize appendDigits (Decimal.ofDigits x.whole) x.fraction = read at hspec ⊢
  obtain ⟨significand, unread⟩ := read
  obtain ⟨hword, hunread, hread⟩ := hspec
  have hscale := exists_scale?_significand hx hvalue hword hunread hread
  dsimp only at hunread hread hscale ⊢
  have hpower := hx.power_eq
  unfold Numeral.power at hscale hpower
  rcases hexponent : x.exponent with - | ⟨below, digits⟩
  · rw [hexponent] at hscale
    refine exists_signed x.negative ?_
    simpa using hscale
  · rw [hexponent] at hscale hpower
    refine exists_signed x.negative ?_
    have hmagnitude := hpower (Option.some_ne_none _)
    dsimp only at hscale hmagnitude ⊢
    split
    next hsmall =>
      have hshift : (if below then ((0 : Nat) : Int) - (x.fraction.length - unread : Nat) -
            Decimal.ofDigits digits
          else ((0 : Nat) : Int) - (x.fraction.length - unread : Nat) + Decimal.ofDigits digits) =
          (if below then -(Decimal.ofDigits digits : Int) else Decimal.ofDigits digits) -
            (x.fraction.length - unread : Nat) := by
        split <;> omega
      rw [hshift]
      exact hscale
    next hlarge =>
      split
      · exact ⟨_, rfl⟩
      next hnonzero =>
        -- The numeral would be far beyond the safe limit.
        obtain ⟨hsignificand, habove⟩ : significand ≠ 0 ∧ below = false := by
          simpa using hnonzero
        have hlow := magnitude_lt_of_value_le hvalue (coefficient_pos hx hsignificand hread)
        rw [habove, if_neg Bool.false_ne_true] at hmagnitude
        omega

/-! ## Doubles that are written -/

/-- With fifty-three digits to a count, one that is not the greatest is two steps below the
bound. -/
theorem two_mul_add_spacing_le {count k : Nat} (hlt : count < 2 ^ (k + 53))
    (hdvd : spacing count ∣ count) (hne : count ≠ (2 ^ 53 - 1) * 2 ^ k) :
    2 * count + spacing count + 2 ^ k ≤ (2 ^ 54 - 2) * 2 ^ k := by
  have hstep : 0 < 2 ^ k := Nat.two_pow_pos k
  by_cases hsmall : count < 2 ^ (k + 52)
  · have hspacing : spacing count ≤ 2 ^ k := by
      refine Nat.pow_le_pow_right (by decide) ?_
      rcases Nat.eq_zero_or_pos count with rfl | hpos
      · exact Nat.zero_le k
      · have hlog := (Nat.log2_lt hpos.ne').2 hsmall
        omega
    rw [Nat.pow_add] at hsmall
    omega
  · have hlog : count.log2 = k + 52 := by
      have hne : count ≠ 0 := by
        rintro rfl
        exact hsmall (Nat.two_pow_pos _)
      exact (Nat.log2_eq_iff hne).2 ⟨not_lt.1 hsmall, hlt⟩
    have hspacing : spacing count = 2 ^ k := by
      rw [spacing_eq, hlog, Nat.add_sub_cancel]
    rw [hspacing] at hdvd ⊢
    obtain ⟨m, rfl⟩ := hdvd
    have hm : m < 2 ^ 53 := by
      rw [Nat.pow_add] at hlt
      exact Nat.lt_of_mul_lt_mul_left hlt
    have hgreatest : m ≠ 2 ^ 53 - 1 := by
      rintro rfl
      exact hne (Nat.mul_comm _ _)
    have hle : m ≤ 2 ^ 53 - 2 := by omega
    have hscaled := Nat.mul_le_mul_left (2 ^ k) hle
    omega

theorem exists_greatest_step : ∃ k, limit ≤ 2 ^ (k + 53) ∧ (2 ^ 53 - 1) * 2 ^ k = largest ∧
    (2 ^ 54 - 2) * 2 ^ k ≤ 2 * safeLimit + 2 ^ k :=
  ⟨2045, by decide +kernel⟩

/-- Half a spacing above a double that is not the largest one is not above the safe limit. -/
theorem two_mul_units_add_spacing_le {x : Finite64} (hx : x.IsRepresentable)
    (hne : x.units ≠ largest) : 2 * x.units + spacing x.units ≤ 2 * safeLimit := by
  obtain ⟨k, hlimit, hlargest, hsafe⟩ := exists_greatest_step
  have hle := two_mul_add_spacing_le (hx.1.trans_le hlimit) hx.2 (hlargest ▸ hne)
  exact Nat.le_of_add_le_add_right (hle.trans hsafe)

/-- The decimals of all doubles but the largest ones stay below the safe limit. -/
theorem value_shortest_le {x : Finite64} (hx : x.IsRepresentable) (hne : x.units ≠ largest) :
    (x.shortest .even).value * one ≤ safeLimit := by
  rcases Finite64.shortest_cases .even x with h | ⟨-, h⟩
  · rw [h, Decimal.value, Nat.cast_zero, zero_mul, zero_mul]
    exact Nat.cast_nonneg safeLimit
  · have hunits := two_mul_units_add_spacing_le hx hne
    generalize one = unit at h ⊢
    generalize safeLimit = bound at hunits ⊢
    have hcast : (2 * x.units + spacing x.units : ℚ) ≤ 2 * bound := by exact_mod_cast hunits
    linarith

def isNumber : Document → Bool
  | number _ => true
  | _ => false

theorem isNumber_rereadNumber_largest : ∀ negative : Bool,
    (rereadNumber (.float ⟨negative, largest⟩)).isNumber = true := by
  decide +kernel

theorem exists_of_isNumber {d : Document} (h : d.isNumber = true) : ∃ n, d = number n := by
  cases d with
  | number n => exact ⟨n, rfl⟩
  | _ => cases h

theorem exists_rereadNumber_float {x : Finite64} (hx : x.IsRepresentable) :
    ∃ m, rereadNumber (.float x) = number m := by
  by_cases hne : x.units = largest
  · have hnumber := isNumber_rereadNumber_largest x.negative
    rw [← hne] at hnumber
    exact exists_of_isNumber hnumber
  obtain ⟨numeral, hwrite, hspells⟩ := Numeral.exists_spells_writeNumber x
  obtain ⟨y, hy⟩ := exists_toDouble? hspells (value_shortest_le hx hne)
  have hread := readNumeral?_text hspells.wellFormed endsNumeral_nil
  rw [List.append_nil, ← hwrite] at hread
  have hinteger : (numeral.fraction.isEmpty && numeral.exponent.isNone) = false := by
    rcases hspells.notInteger with h | h
    · simp [h]
    · rw [Option.isNone_eq_false_iff.2 (Option.isSome_iff_ne_none.2 h), Bool.and_false]
  refine ⟨.float y, ?_⟩
  unfold rereadNumber
  rw [hread]
  dsimp only
  unfold Numeral.toDocument
  simp only [hinteger, Bool.false_and, Bool.false_eq_true, if_false, hy]

/-- A number is read as a number where it was written. -/
theorem exists_rereadNumber {n : Number} (h : n.IsMachine) : ∃ m, rereadNumber n = number m := by
  cases n with
  | int n => exact ⟨.int n, rereadNumber_int h.1 h.2⟩
  | float x => exact exists_rereadNumber_float h

end TraceTutor.Document

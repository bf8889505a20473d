import Mathlib.Data.Nat.Factorial.Basic
import TraceTutor.Proofs.IntegerArithmetic
import TraceTutor.Script.Builtin

/-!
# Factorials

A factorial is computed from words as long as its product is one, and from doubles beyond. A double
under way has lost at most the `2 ^ 52`th part of itself in each rounding (`Binary64.Reaches`), of
which there are few before the product leaves the finite doubles. It is thus never so small as to be
taken for an integer, and the 171st factor always makes it infinite, so that the loop ends early
with the product of all factors (`factorial_exact`).
-/

namespace TraceTutor

open Finite64 Binary64

namespace Binary64

variable {num den : Nat}

/-! ## Products of doubles -/

/-- The double is at least one, and at least a number that has lost its `2 ^ 52`th part in each of
so many roundings. -/
inductive Reaches (n roundings : Nat) : Binary64 → Prop
  | finite {units : Nat} : one ≤ units → units < limit →
      (2 ^ 52 - 1) ^ roundings * (n * one) ≤ (2 ^ 52) ^ roundings * units →
      Reaches n roundings (finite ⟨false, units⟩)
  | infinite : Reaches n roundings (infinite false)

namespace Reaches

variable {m n a b : Nat} {x y : Binary64}

theorem succ (h : Reaches n a x) : Reaches n (a + 1) x := by
  cases h with
  | infinite => exact .infinite
  | @finite units hone hlimit hunits =>
    refine .finite hone hlimit ?_
    calc (2 ^ 52 - 1) ^ (a + 1) * (n * one)
        = (2 ^ 52 - 1) * ((2 ^ 52 - 1) ^ a * (n * one)) := by ring
      _ ≤ 2 ^ 52 * ((2 ^ 52) ^ a * units) := Nat.mul_le_mul (Nat.sub_le _ 1) hunits
      _ = (2 ^ 52) ^ (a + 1) * units := by ring

theorem mono (h : Reaches n a x) (hab : a ≤ b) : Reaches n b x := by
  induction hab with
  | refl => exact h
  | step _ ih => exact ih.succ

/-- A ratio that is at least one, rounded. -/
theorem ofRatio (hden : 0 < den) (hone : den * one ≤ num)
    (h : (2 ^ 52 - 1) ^ a * (n * one * den) ≤ (2 ^ 52) ^ a * num) :
    Reaches n (a + 1) (Binary64.ofRatio false num den) := by
  obtain ⟨k, hunit⟩ := one_eq_two_pow_add (j := 52) (by decide)
  have hlow : one ≤ nearest num den := by
    have hzero : 2 ^ 0 * one = one := by rw [Nat.pow_zero, Nat.one_mul]
    have hle : den * (2 ^ 0 * one) ≤ num := (Nat.mul_le_mul_left den hzero.le).trans hone
    exact hzero.ge.trans (two_pow_le_nearest hden hle)
  have hbits : den * 2 ^ 52 ≤ num := by
    refine (Nat.mul_le_mul_left den ?_).trans hone
    rw [hunit]
    exact Nat.pow_le_pow_right (by decide) (Nat.le_add_left 52 k)
  unfold Binary64.ofRatio
  dsimp only
  split
  next hlt =>
    refine .finite hlow hlt (Nat.le_of_mul_le_mul_right ?_ hden)
    calc (2 ^ 52 - 1) ^ (a + 1) * (n * one) * den
        = (2 ^ 52 - 1) * ((2 ^ 52 - 1) ^ a * (n * one * den)) := by ring
      _ ≤ (2 ^ 52 - 1) * ((2 ^ 52) ^ a * num) := Nat.mul_le_mul_left _ h
      _ = (2 ^ 52) ^ a * ((2 ^ 52 - 1) * num) := Nat.mul_left_comm _ _ _
      _ ≤ (2 ^ 52) ^ a * (2 ^ 52 * (den * nearest num den)) :=
          Nat.mul_le_mul_left _ (le_mul_nearest hden hbits)
      _ = (2 ^ 52) ^ (a + 1) * nearest num den * den := by ring
  next => exact .infinite

theorem ofInt (hn : 0 < n) : Reaches n 1 (.ofInt n) := by
  have hneg : ¬((n : Int) < 0) := by omega
  have hone : 1 * one ≤ n * one := Nat.mul_le_mul_right one hn
  have hunits : (2 ^ 52 - 1) ^ 0 * (n * one * 1) ≤ (2 ^ 52) ^ 0 * (n * one) := by
    rw [Nat.mul_one, Nat.pow_zero, Nat.pow_zero]
  unfold Binary64.ofInt
  rw [decide_eq_false hneg, Int.natAbs_natCast]
  exact ofRatio Nat.one_pos hone hunits

theorem isZero_eq_false {units : Nat} (h : one ≤ units) (negative : Bool) :
    isZero ⟨negative, units⟩ = false :=
  decide_eq_false (Nat.lt_of_lt_of_le Finite64.one_pos h).ne'

theorem infinite_mul (h : Reaches n a x) :
    (Binary64.infinite false).mul x = .infinite false := by
  cases h with
  | infinite => rfl
  | finite hone =>
    unfold Binary64.mul
    dsimp only
    rw [isZero_eq_false hone]
    rfl

theorem mul (hx : Reaches m a x) (hy : Reaches n b y) : Reaches (m * n) (a + b + 1) (x.mul y) := by
  cases hx with
  | infinite =>
    rw [hy.infinite_mul]
    exact .infinite
  | @finite units hone hlimit hunits =>
    cases hy with
    | infinite =>
      unfold Binary64.mul
      dsimp only
      rw [isZero_eq_false hone]
      exact .infinite
    | @finite units' hone' hlimit' hunits' =>
      unfold Binary64.mul
      dsimp only
      refine ofRatio Finite64.one_pos (Nat.mul_le_mul hone hone') ?_
      calc (2 ^ 52 - 1) ^ (a + b) * (m * n * one * one)
          = (2 ^ 52 - 1) ^ a * (m * one) * ((2 ^ 52 - 1) ^ b * (n * one)) := by ring
        _ ≤ (2 ^ 52) ^ a * units * ((2 ^ 52) ^ b * units') := Nat.mul_le_mul hunits hunits'
        _ = (2 ^ 52) ^ (a + b) * (units * units') := by ring

/-- The roundings of 171 factors leave at least one half of a number. -/
theorem two_pow_le {units : Nat} (h : Reaches n 513 (.finite ⟨false, units⟩)) (hn : 2 ^ 63 ≤ n) :
    2 ^ 62 * one ≤ units := by
  cases h with
  | finite _ _ hunits =>
    have hpos : 0 < (2 ^ 52 - 1) ^ 513 := by decide +kernel
    have hhalf : (2 ^ 52) ^ 513 ≤ (2 ^ 52 - 1) ^ 513 * 2 := by decide +kernel
    generalize (2 ^ 52 - 1) ^ 513 = left at *
    generalize (2 ^ 52) ^ 513 = whole at *
    have hreached : n * one ≤ 2 * units := by
      refine Nat.le_of_mul_le_mul_left ?_ hpos
      calc left * (n * one) ≤ whole * units := hunits
        _ ≤ left * 2 * units := Nat.mul_le_mul_right units hhalf
        _ = left * (2 * units) := Nat.mul_assoc _ _ _
    have hword : 2 ^ 63 * one ≤ n * one := Nat.mul_le_mul_right one hn
    omega

end Reaches

end Binary64

/-! ## Products -/

namespace Product

variable {n k roundings : Nat} {p : Product}

/-- The product of the factors up to `n`, all of which are multiplied. -/
def upTo : Nat → Product
  | 0 => exact 1
  | n + 1 => (upTo n).times (n + 1)

/-- A product stands for a number: it is the number as long as this is a word, and beyond a double
that reaches the number. -/
inductive StandsFor (n roundings : Nat) : Product → Prop
  | exact : n < 2 ^ 63 → StandsFor n roundings (exact n)
  | approximate {x : Binary64} : 2 ^ 63 ≤ n → x.Reaches n roundings →
      StandsFor n roundings (approximate x)

/-- One more factor costs at most three roundings: that of each factor and that of the product. -/
theorem StandsFor.times (h : StandsFor n roundings p) (hn : 0 < n) (hk : 0 < k) :
    StandsFor (n * k) (roundings + 3) (p.times k) := by
  cases h with
  | approximate hlarge hx =>
    refine .approximate (hlarge.trans (Nat.le_mul_of_pos_right n hk)) ?_
    exact (hx.mul (.ofInt hk)).mono (by omega)
  | exact hsmall =>
    unfold Product.times
    dsimp only
    rw [← Int.natCast_mul]
    by_cases hword : isWord (n * k : Nat) = true
    · rw [if_pos hword]
      exact .exact (by rw [isWord_iff] at hword; omega)
    · rw [if_neg hword]
      refine .approximate ?_ ?_
      · rw [Bool.not_eq_true, isWord_eq_false_iff] at hword
        omega
      · exact ((Binary64.Reaches.ofInt hn).mul (.ofInt hk)).mono (by omega)

theorem standsFor_upTo (n : Nat) : StandsFor n.factorial (3 * n) (upTo n) := by
  induction n with
  | zero => exact .exact (by decide)
  | succ n ih =>
    rw [Nat.factorial_succ, Nat.mul_comm (n + 1)]
    exact ih.times n.factorial_pos n.succ_pos

theorem eq_infinite_of_standsFor (h : StandsFor n roundings p) (hp : p.isInfinite = true) :
    p = approximate (.infinite false) := by
  cases h with
  | exact => cases hp
  | approximate _ hx =>
    cases hx with
    | infinite => rfl
    | finite => cases hp

/-- A product that is infinite stays so. -/
theorem upTo_eq_infinite (h : upTo k = approximate (.infinite false)) (hkn : k ≤ n) :
    upTo n = approximate (.infinite false) := by
  induction hkn with
  | refl => exact h
  | @step n _ ih =>
    have hfactor : (Binary64.ofInt (n + 1 : Nat)).Reaches (n + 1) 1 := .ofInt n.succ_pos
    show (upTo n).times (n + 1) = _
    rw [ih]
    exact congrArg approximate hfactor.infinite_mul

/-- The factorial of 171 is so far beyond the doubles that no roundings bring it back. -/
theorem upTo_171 : upTo 171 = approximate (.infinite false) := by
  have hstands : StandsFor (Nat.factorial 171) 513 (upTo 171) := standsFor_upTo 171
  generalize upTo 171 = p at *
  cases hstands with
  | exact hsmall => exact absurd hsmall (by decide +kernel)
  | approximate _ hx =>
    cases hx with
    | infinite => rfl
    | finite _ hlimit hunits =>
      have hbeyond : (2 ^ 52) ^ 513 * limit ≤ (2 ^ 52 - 1) ^ 513 * (Nat.factorial 171 * one) := by
        decide +kernel
      have hle := Nat.le_of_mul_le_mul_left (hbeyond.trans hunits) (by decide +kernel)
      exact absurd hlimit hle.not_gt

theorem upTo_of_le (h : 171 ≤ n) : upTo n = approximate (.infinite false) :=
  upTo_eq_infinite upTo_171 h

/-! ## Values -/

theorem toValue_eq_int (h : StandsFor n roundings p) (hn : n < 2 ^ 63) : p.toValue = .int n := by
  cases h with
  | exact => rfl
  | approximate hlarge => exact absurd hlarge hn.not_ge

/-- Half of a number beyond the words is still too large to be taken for an integer. -/
theorem toValue_ne_int (h : StandsFor n roundings p) (hn : 2 ^ 63 ≤ n) (hfew : roundings ≤ 513)
    (m : Int) : p.toValue ≠ .int m := by
  cases h with
  | exact hsmall => exact absurd hsmall hn.not_gt
  | approximate _ hx =>
    cases hx.mono hfew with
    | infinite => exact nofun
    | finite hone hlimit hunits =>
      have hlarge := Binary64.Reaches.two_pow_le (.finite hone hlimit hunits) hn
      have hvalue := Value.ofBinary64_of_large
        (Value.maxExactInt_lt_truncate (x := ⟨false, _⟩) hlarge)
      unfold Product.toValue
      dsimp only
      rw [hvalue]
      exact nofun

/-! ## The loop -/

/-- The multiplications that one more factor costs: a product that is no word is computed again
from doubles. -/
def multiplications (p : Product) (k : Nat) : Nat :=
  match p with
  | exact n => if isWord (n * k) then 1 else 2
  | approximate _ => 1

/-- The multiplications that the step from words to doubles will still cost. -/
def pending : Product → Nat
  | exact _ => 1
  | approximate _ => 0

theorem multiplications_pos (p : Product) (k : Nat) : 0 < p.multiplications k := by
  unfold multiplications
  split
  · split <;> decide
  · decide

theorem multiplications_add_pending (p : Product) (k : Nat) :
    p.multiplications k + (p.times k).pending = 1 + p.pending := by
  unfold multiplications times
  cases p with
  | approximate => rfl
  | exact n =>
    dsimp only
    split <;> rfl

/-- The loop over the factors from `k` to `last`, however many these are: it ends after the last
one, or as soon as the product is infinite, and takes so many multiplications. -/
inductive Ends (last : Int) : Nat → Nat → Product → Product → Prop
  | stop {k : Nat} {p : Product} : last < k ∨ p.isInfinite = true → Ends last 0 k p p
  | multiply {count k : Nat} {p q : Product} : k ≤ last → p.isInfinite = false →
      Ends last count (k + 1) (p.times k) q → Ends last (p.multiplications k + count) k p q

/-- Fuel for every multiplication is fuel enough. -/
theorem timesUpTo_of_ends {last : Int} {count fuel : Nat} {p q : Product}
    (h : Ends last count k p q) (hfuel : count ≤ fuel) : timesUpTo last fuel k p = q := by
  induction h generalizing fuel with
  | @stop k p hstop =>
    cases fuel with
    | zero => rfl
    | succ fuel =>
      unfold timesUpTo
      exact if_pos (by simpa using hstop)
  | @multiply count k p q hle hfinite _ ih =>
    have hpos := multiplications_pos p k
    obtain ⟨fuel, rfl⟩ : ∃ rest, fuel = rest + 1 := ⟨fuel - 1, by omega⟩
    unfold timesUpTo
    rw [if_neg (by simp [hfinite, hle]), ih (by omega)]

/-- Factors beyond the 171st are not reached, and those that an infinite product leaves out would
not change it. -/
theorem exists_ends {k n : Nat} (h : k ≤ n) :
    ∃ count ≤ 171 - k + (upTo k).pending, Ends n count (k + 1) (upTo k) (upTo n) := by
  induction h using Nat.decreasingInduction with
  | self => exact ⟨0, Nat.zero_le _, .stop (.inl (by omega))⟩
  | @of_succ k hlt ih =>
    cases hfinite : (upTo k).isInfinite with
    | true =>
      have hinfinite := eq_infinite_of_standsFor (standsFor_upTo k) hfinite
      rw [upTo_eq_infinite hinfinite hlt.le, ← hinfinite]
      exact ⟨0, Nat.zero_le _, .stop (.inr hfinite)⟩
    | false =>
      have hsmall : k < 171 := by
        by_contra hlarge
        rw [upTo_of_le (not_lt.1 hlarge)] at hfinite
        cases hfinite
      obtain ⟨count, hcount, hends⟩ := ih
      have hcost := multiplications_add_pending (upTo k) (k + 1)
      refine ⟨_, ?_, .multiply (by omega) hfinite hends⟩
      change count ≤ 171 - (k + 1) + ((upTo k).times (k + 1)).pending at hcount
      omega

end Product

/-! ## Factorials -/

/-- The loop of a factorial ends by itself within 172 multiplications, and yields the product of all
factors. -/
theorem exists_ends_factorial (n : Int) :
    ∃ count ≤ 172, Product.Ends n count 1 (.exact 1) (.upTo n.toNat) := by
  rcases lt_or_ge n 0 with hneg | hnonneg
  · rw [Int.toNat_of_nonpos hneg.le]
    exact ⟨0, Nat.zero_le _, .stop (.inl (by omega))⟩
  · obtain ⟨count, hcount, hends⟩ := Product.exists_ends n.toNat.zero_le
    rw [Int.toNat_of_nonneg hnonneg] at hends
    exact ⟨count, hcount, hends⟩

/-- A factorial that is a word is that integer, and one that is none is not mistaken for any other
integer. From 171 on there is no factorial. The early end of the loop bounds its multiplications,
whatever the argument, and does not change the product of all factors. -/
theorem factorial_exact (n : Int) :
    (n < 1 → factorial n = .int 1) ∧
    (n.toNat.factorial < 2 ^ 63 → factorial n = .int n.toNat.factorial) ∧
    (2 ^ 63 ≤ n.toNat.factorial → ∀ m, factorial n ≠ .int m) ∧
    (171 ≤ n → factorial n = .null) ∧
    ∃ count ≤ 172, Product.Ends n count 1 (.exact 1) (.upTo n.toNat) ∧
      factorial n = (Product.upTo n.toNat).toValue := by
  obtain ⟨count, hcount, hends⟩ := exists_ends_factorial n
  have hvalue : factorial n = (Product.upTo n.toNat).toValue :=
    congrArg Product.toValue (Product.timesUpTo_of_ends hends (hcount.trans (by decide)))
  have hstands := Product.standsFor_upTo n.toNat
  have hnull : 171 ≤ n → factorial n = .null := by
    intro hn
    rw [hvalue, Product.upTo_of_le (by omega)]
    rfl
  refine ⟨?_, ?_, ?_, hnull, count, hcount, hends, hvalue⟩
  · intro hn
    rw [hvalue, Int.toNat_of_nonpos (by omega)]
    rfl
  · intro hn
    rw [hvalue, Product.toValue_eq_int hstands hn]
  · intro hn m
    rcases lt_or_ge n 171 with hsmall | hlarge
    · rw [hvalue]
      exact Product.toValue_ne_int hstands hn (by omega) m
    · rw [hnull hlarge]
      exact nofun

theorem factorial_exact_samples :
    factorial 20 = .int 2432902008176640000 ∧ (∀ m, factorial 21 ≠ .int m) ∧
      factorial 9223372036854775807 = .null :=
  ⟨(factorial_exact 20).2.1 (by decide), (factorial_exact 21).2.2.1 (by decide),
    (factorial_exact 9223372036854775807).2.2.2.1 (by decide)⟩

end TraceTutor

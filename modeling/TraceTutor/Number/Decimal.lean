import TraceTutor.Number.Binary64

/-!
# Decimal numerals

A `Decimal` is a coefficient and a power of ten. `Decimal.toBinary64` reads one as the closest
double, and `Finite64.shortest` finds the one with the fewest digits that reads back as a given
double, the closest of those. Two decimals can be equally close; a `TieRule` chooses between them.
-/

namespace TraceTutor

/-- The number `coefficient * 10 ^ exponent`. -/
structure Decimal where
  coefficient : Nat
  exponent : Int
deriving DecidableEq, Inhabited, Repr

namespace Decimal

open Finite64

/-- The value of a run of digits. -/
def ofDigits (digits : List Char) : Nat :=
  digits.foldl (fun n c => 10 * n + (c.toNat - '0'.toNat)) 0

/-- The decimal digits of the coefficient, at least one. -/
def digits (d : Decimal) : List Char :=
  Nat.toDigits 10 d.coefficient

/-- The power of ten of the first digit. -/
def magnitude (d : Decimal) : Int :=
  d.exponent + (d.digits.length : Int) - 1

/-- The closest double. No double reaches `10 ^ 309`, and what lies below `10 ^ -326` rounds to
zero, so that no larger power of ten is ever formed. -/
def toBinary64 (negative : Bool) (d : Decimal) : Binary64 :=
  if d.coefficient = 0 || d.magnitude < -326 then .finite ⟨negative, 0⟩
  else if 309 < d.magnitude then .infinite negative
  else if 0 ≤ d.exponent then
    .ofRatio negative (d.coefficient * Nat.pow 10 d.exponent.toNat * one) 1
  else .ofRatio negative (d.coefficient * one) (Nat.pow 10 (-d.exponent).toNat)

/-- Moves trailing zeros of the coefficient into the exponent. -/
def normalize (d : Decimal) : Decimal :=
  let zeros := (d.digits.reverse.takeWhile (· == '0')).length
  ⟨d.coefficient / Nat.pow 10 zeros, d.exponent + zeros⟩

end Decimal

/-- Which of two neighbours with the same number of digits is taken for a number halfway between
them. -/
inductive TieRule where
  /-- The one whose last digit is even. -/
  | even
  /-- The greater one in magnitude. -/
  | up
deriving DecidableEq, Repr

/-- Whether the lower neighbour is taken, given its coefficient. -/
def TieRule.takesLower (rule : TieRule) (lower : Nat) : Bool :=
  match rule with
  | even => lower % 2 == 0
  | up => false

namespace Finite64

/-- Four times the bounds of the counts that round to `units`, as `(lower, upper)`. A power of two
has its lower neighbours at half the distance. -/
def roundingInterval (units : Nat) : Nat × Nat :=
  let step := Binary64.spacing units
  let below := if units = step * Nat.pow 2 52 && 1 < step then step else 2 * step
  (4 * units - below, 4 * units + 2 * step)

/-- The power of ten of the first digit of `num / den`, for positive arguments. The estimate from
the binary logarithms is at most two too small. -/
def decimalMagnitude (num den : Nat) : Int :=
  let estimate := (((num.log2 : Int) - den.log2 - 1) * 30103).fdiv 100000
  if reaches (estimate + 2) then estimate + 2
  else if reaches (estimate + 1) then estimate + 1
  else estimate
where
  reaches (e : Int) : Bool :=
    if 0 ≤ e then Nat.pow 10 e.toNat * den ≤ num else den ≤ num * Nat.pow 10 (-e).toNat

/-- The multiple of `10 ^ exponent` that reads back as `units` and is closest to it, if either
neighbour of `units` among those multiples does. -/
def onGrid? (rule : TieRule) (units : Nat) (exponent : Int) : Option Decimal :=
  let scale := Nat.pow 10 (-exponent).toNat
  let cell := one * Nat.pow 10 exponent.toNat
  let (lower, upper) := roundingInterval units
  let closed := units / Binary64.spacing units % 2 = 0
  let reads (c : Nat) : Bool :=
    let place := 4 * c * cell
    0 < c && if closed then lower * scale ≤ place && place ≤ upper * scale
      else lower * scale < place && place < upper * scale
  let c := units * scale / cell
  let belowGap := units * scale - c * cell
  match reads c, reads (c + 1) with
  | true, true =>
    let takesLower := 2 * belowGap < cell || (2 * belowGap = cell && rule.takesLower c)
    some ⟨if takesLower then c else c + 1, exponent⟩
  | true, false => some ⟨c, exponent⟩
  | false, true => some ⟨c + 1, exponent⟩
  | false, false => none

/-- The decimal with the fewest digits among those that read back as this number, and of these the
closest. Seventeen digits always suffice. -/
def shortest (rule : TieRule) (x : Finite64) : Decimal :=
  if x.isZero then ⟨0, 0⟩
  else
    let top := decimalMagnitude x.units one
    match (List.range 17).findSome? fun n : Nat => onGrid? rule x.units (top - n) with
    | some d => d.normalize
    | none => ⟨0, 0⟩

end Finite64

/-! ## Written forms -/

/-- How a number is written: which magnitudes are positional, the others being exponential, whether
a positional whole number keeps the fraction `.0`, and how its digits are chosen in a tie. -/
structure NumeralStyle where
  lowest : Int
  highest : Int
  keepsFraction : Bool
  tie : TieRule
deriving DecidableEq, Repr

namespace NumeralStyle

/-- Numbers in documents: positional from `0.00001` below `1e+16`, and never without a fraction. -/
def document : NumeralStyle := ⟨-5, 15, true, .even⟩

/-- Numbers in program output: positional from `0.000001` below `1e+21`. -/
def output : NumeralStyle := ⟨-6, 20, false, .up⟩

/-- Numbers in descriptions of source text: always positional. -/
def source : NumeralStyle := ⟨-324, 308, false, .up⟩

/-- Digits with a point, without exponent. -/
def positional (keepsFraction : Bool) (d : Decimal) : List Char :=
  let digits := d.digits
  if 0 ≤ d.exponent then
    digits ++ List.replicate d.exponent.toNat '0' ++ if keepsFraction then ".0".toList else []
  else
    let places := (-d.exponent).toNat
    if places < digits.length then
      digits.take (digits.length - places) ++ '.' :: digits.drop (digits.length - places)
    else '0' :: '.' :: (List.replicate (places - digits.length) '0' ++ digits)

/-- One digit, a fraction if there are more digits, and an exponent that always has a sign. -/
def exponential (d : Decimal) : List Char :=
  let mantissa := match d.digits with
    | first :: more@(_ :: _) => first :: '.' :: more
    | digits => digits
  let e := d.magnitude
  mantissa ++ 'e' :: (if e < 0 then '-' else '+') :: Nat.toDigits 10 e.natAbs

/-- The text of a finite number. -/
def write (style : NumeralStyle) (x : Finite64) : String :=
  let d := x.shortest style.tie
  let body :=
    if x.isZero || (style.lowest ≤ d.magnitude && d.magnitude ≤ style.highest) then
      positional style.keepsFraction d
    else exponential d
  String.ofList (if x.negative then '-' :: body else body)

/-- The text of any number. -/
def writeAny (style : NumeralStyle) : Binary64 → String
  | .nan => "NaN"
  | .infinite negative => if negative then "-inf" else "inf"
  | .finite x => style.write x

end NumeralStyle

/-! ## Reading numerals -/

namespace Binary64

/-- An optional sign. -/
def splitSign : List Char → Bool × List Char
  | '-' :: rest => (true, rest)
  | '+' :: rest => (false, rest)
  | rest => (false, rest)

/-- The exponent part of a numeral: nothing, or `e` with an optional sign and some digits. -/
def readExponent? : List Char → Option Int
  | [] => some 0
  | e :: rest =>
    let (negative, digits) := splitSign rest
    if (e == 'e' || e == 'E') && !digits.isEmpty && digits.all Char.isDigit then
      some (if negative then -(Decimal.ofDigits digits : Int) else Decimal.ofDigits digits)
    else none

/-- A number written with ASCII digits, with an optional sign, point and exponent and at least one
digit before the exponent; or `inf`, `infinity` or `nan` in any case. -/
def ofText? (text : List Char) : Option Binary64 :=
  let (negative, body) := splitSign text
  let name := String.ofList (body.map Char.toLower)
  if name = "inf" || name = "infinity" then some (infinite negative)
  else if name = "nan" then some nan
  else
    let whole := body.takeWhile Char.isDigit
    let (fraction, rest) := match body.dropWhile Char.isDigit with
      | '.' :: rest => (rest.takeWhile Char.isDigit, rest.dropWhile Char.isDigit)
      | rest => ([], rest)
    if whole.isEmpty && fraction.isEmpty then none
    else (readExponent? rest).map fun exponent =>
      Decimal.toBinary64 negative
        ⟨Decimal.ofDigits (whole ++ fraction), exponent - fraction.length⟩

end Binary64

/-! ## Examples -/

example : NumeralStyle.document.writeAny (.ofInt 10000000000000000) = "1e+16" := by decide +kernel
example : NumeralStyle.output.writeAny (.neg .half) = "-0.5" := by decide +kernel
example : NumeralStyle.document.writeAny (.ofRatio false (Finite64.one * (Nat.pow 2 52 + 1)) 4) =
    "1125899906842624.2" := by decide +kernel
example : NumeralStyle.output.writeAny (.ofRatio false (Finite64.one * (Nat.pow 2 52 + 1)) 4) =
    "1125899906842624.3" := by decide +kernel
example : (Binary64.ofText? "5e-324".toList).map NumeralStyle.document.writeAny = some "5e-324" := by
  decide +kernel

end TraceTutor

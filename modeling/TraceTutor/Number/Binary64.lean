/-!
# Double precision numbers

A `Binary64` is held as what it denotes. Every finite one is a whole multiple of `2 ^ -1074`, so it
is a sign and a count of that unit. An operation is exact arithmetic on counts followed by one
rounding, `Binary64.nearest`, to the closest representable count with ties to the even neighbour.

Powers and square roots are taken from the machine: their last bit belongs to the mathematical
library that computes them and follows no rule stated here.
-/

namespace TraceTutor

/-- A finite double: a sign, and a magnitude counted in units of `2 ^ -1074`. Zero has both signs. -/
structure Finite64 where
  negative : Bool
  units : Nat
deriving DecidableEq, Inhabited, Repr

/-- A double precision number. -/
inductive Binary64 where
  | nan
  | infinite (negative : Bool)
  | finite (value : Finite64)
deriving DecidableEq, Inhabited, Repr

namespace Finite64

/-- The count of units in the number one. -/
def one : Nat := Nat.pow 2 1074

/-- The first count too large to be finite: that of `2 ^ 1024`. -/
def limit : Nat := Nat.pow 2 2098

/-- The count with its sign. Both zeros give `0`. -/
def signed (x : Finite64) : Int :=
  if x.negative then -(x.units : Int) else x.units

/-- Whether the number is whole. -/
def isWhole (x : Finite64) : Bool :=
  x.units % one = 0

/-- The number without its fraction. -/
def truncate (x : Finite64) : Int :=
  if x.negative then -((x.units / one : Nat) : Int) else ((x.units / one : Nat) : Int)

def isZero (x : Finite64) : Bool :=
  x.units = 0

end Finite64

namespace Binary64

open Finite64

/-! ## Rounding -/

/-- The distance between representable counts near `count`: fifty-three significant bits are kept,
and below `2 ^ 53` every count is representable. -/
def spacing (count : Nat) : Nat :=
  Nat.pow 2 (count.log2 - 52)

/-- The representable count closest to `num / den`; of two equally close ones, the even one. -/
def nearest (num den : Nat) : Nat :=
  let step := spacing (num / den)
  let cell := den * step
  let whole := num / cell
  let rest := num % cell
  let up := 2 * rest > cell || (2 * rest == cell && whole % 2 == 1)
  (if up then whole + 1 else whole) * step

/-- The double closest to `num / den` units, infinite when that is beyond the largest finite one. -/
def ofRatio (negative : Bool) (num den : Nat) : Binary64 :=
  let count := nearest num den
  if count < limit then finite ⟨negative, count⟩ else infinite negative

/-- The double closest to an exact signed count of units. A zero gets the given sign. -/
def ofUnits (zeroSign : Bool) (count : Int) : Binary64 :=
  if count = 0 then finite ⟨zeroSign, 0⟩ else ofRatio (count < 0) count.natAbs 1

/-- The double closest to an integer. -/
def ofInt (n : Int) : Binary64 :=
  ofRatio (n < 0) (n.natAbs * one) 1

def zero : Binary64 := finite ⟨false, 0⟩

def half : Binary64 := finite ⟨false, one / 2⟩

/-! ## Order -/

/-- The place of a number on the line, infinities lying just beyond the finite ones. -/
def rank? : Binary64 → Option Int
  | nan => none
  | infinite negative => some (if negative then -limit else limit)
  | finite x => some x.signed

/-- The order of two numbers; nothing compares with a number that is not one. -/
def compare? (a b : Binary64) : Option Ordering :=
  match a.rank?, b.rank? with
  | some x, some y => some (compare x y)
  | _, _ => none

/-- Numeric equality: the zeros are equal, and `nan` equals nothing. -/
def same (a b : Binary64) : Bool :=
  a.compare? b == some .eq

def isNaN : Binary64 → Bool
  | nan => true
  | _ => false

/-! ## Arithmetic -/

def neg : Binary64 → Binary64
  | nan => nan
  | infinite negative => infinite (!negative)
  | finite x => finite ⟨!x.negative, x.units⟩

def abs : Binary64 → Binary64
  | nan => nan
  | infinite _ => infinite false
  | finite x => finite ⟨false, x.units⟩

/-- A sum of zeros is negative only if both are, and a sum that cancels is positive. -/
def add : Binary64 → Binary64 → Binary64
  | nan, _ => nan
  | _, nan => nan
  | infinite s, infinite t => if s = t then infinite s else nan
  | infinite s, finite _ => infinite s
  | finite _, infinite t => infinite t
  | finite x, finite y => ofUnits (x.negative && y.negative) (x.signed + y.signed)

def sub (a b : Binary64) : Binary64 :=
  a.add b.neg

def mul : Binary64 → Binary64 → Binary64
  | nan, _ => nan
  | _, nan => nan
  | infinite s, infinite t => infinite (s != t)
  | infinite s, finite y => if y.isZero then nan else infinite (s != y.negative)
  | finite x, infinite t => if x.isZero then nan else infinite (x.negative != t)
  | finite x, finite y => ofRatio (x.negative != y.negative) (x.units * y.units) one

def div : Binary64 → Binary64 → Binary64
  | nan, _ => nan
  | _, nan => nan
  | infinite _, infinite _ => nan
  | infinite s, finite y => infinite (s != y.negative)
  | finite x, infinite t => finite ⟨x.negative != t, 0⟩
  | finite x, finite y =>
    if y.isZero then
      if x.isZero then nan else infinite (x.negative != y.negative)
    else ofRatio (x.negative != y.negative) (x.units * one) y.units

/-- The remainder of the division truncated toward zero. It is exact and has the sign of the
dividend. -/
def rem : Binary64 → Binary64 → Binary64
  | finite x, finite y => if y.isZero then nan else finite ⟨x.negative, x.units % y.units⟩
  | finite x, infinite _ => finite x
  | _, _ => nan

/-! ## Rounding to whole numbers -/

/-- The largest whole number that is not above. A negative zero keeps its sign. -/
def floor : Binary64 → Binary64
  | finite x =>
    let whole := x.units / one
    let up := if x.negative && !x.isWhole then whole + 1 else whole
    ofRatio x.negative (up * one) 1
  | x => x

/-- The smallest whole number that is not below. A number above minus one half keeps its sign. -/
def ceil : Binary64 → Binary64
  | finite x =>
    let whole := x.units / one
    let up := if !x.negative && !x.isWhole then whole + 1 else whole
    ofRatio x.negative (up * one) 1
  | x => x

/-- The larger of two numbers; `nan` gives way to the other one. -/
def max (a b : Binary64) : Binary64 :=
  match a.compare? b with
  | some .lt => b
  | some _ => a
  | none => if a.isNaN then b else a

/-- The smaller of two numbers; `nan` gives way to the other one. -/
def min (a b : Binary64) : Binary64 :=
  match a.compare? b with
  | some .gt => b
  | some _ => a
  | none => if a.isNaN then b else a

/-! ## Machine numbers -/

/-- The sign, exponent and fraction fields packed into sixty-four bits. -/
def toBits : Binary64 → UInt64
  | nan => 0x7ff8000000000000
  | infinite negative => sign negative + 0x7ff0000000000000
  | finite x =>
    if x.units < Nat.pow 2 52 then sign x.negative + x.units.toUInt64
    else
      let shift := x.units.log2 - 52
      sign x.negative + (shift * Nat.pow 2 52 + x.units / Nat.pow 2 shift).toUInt64
where
  sign (negative : Bool) : UInt64 := if negative then 0x8000000000000000 else 0

/-- The number that sixty-four bits denote. -/
def ofBits (bits : UInt64) : Binary64 :=
  let negative := bits ≥ 0x8000000000000000
  let fraction := bits.toNat % Nat.pow 2 52
  let exponent := bits.toNat / Nat.pow 2 52 % Nat.pow 2 11
  if exponent = 2047 then
    if fraction = 0 then infinite negative else nan
  else if exponent = 0 then finite ⟨negative, fraction⟩
  else finite ⟨negative, (Nat.pow 2 52 + fraction) * Nat.pow 2 (exponent - 1)⟩

def toFloat (x : Binary64) : Float :=
  Float.ofBits x.toBits

def ofFloat (x : Float) : Binary64 :=
  ofBits x.toBits

def sqrt (x : Binary64) : Binary64 :=
  ofFloat x.toFloat.sqrt

def pow (x y : Binary64) : Binary64 :=
  ofFloat (Float.pow x.toFloat y.toFloat)

/-! ## Examples -/

example : ofBits (toBits (ofInt (-3))) = ofInt (-3) := by decide +kernel
example : add (ofInt 9007199254740993) zero = ofInt 9007199254740992 := by decide +kernel
example : floor (neg half) = ofInt (-1) := by decide +kernel

end Binary64

end TraceTutor

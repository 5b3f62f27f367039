/-!
# Doubles

A double is its 64 bits: sign, eleven bits of exponent, fifty-two bits of fraction. Its finite
values are whole multiples of powers of two, so everything here is exact integer arithmetic;
only `round` leaves the exact value, to the nearest double with ties to the even one.
-/

namespace Interlingua

structure Binary64 where
  bits : UInt64
  deriving DecidableEq, Inhabited

namespace Binary64

def isMinus (x : Binary64) : Bool :=
  Nat.pow 2 63 ≤ x.bits.toNat

/-- The bits without the sign. They order the doubles of one sign by size. -/
def magnitude (x : Binary64) : Nat :=
  x.bits.toNat % Nat.pow 2 63

/-- The magnitude of the infinities; the magnitudes above it are not numbers. -/
def infinite : Nat :=
  0x7FF * Nat.pow 2 52

def ofParts (minus : Bool) (magnitude : Nat) : Binary64 :=
  ⟨UInt64.ofNat ((if minus then Nat.pow 2 63 else 0) + magnitude)⟩

def isFinite (x : Binary64) : Bool :=
  x.magnitude < infinite

def isNumber (x : Binary64) : Bool :=
  x.magnitude ≤ infinite

def isZero (x : Binary64) : Bool :=
  x.magnitude = 0

/-- The exponent of the unit in the last place, above `-1074`. -/
def scale (x : Binary64) : Nat :=
  x.magnitude / Nat.pow 2 52 - 1

/-- The size of a finite double in units of `2 ^ (scale - 1074)`. -/
def significand (x : Binary64) : Nat :=
  if x.magnitude < Nat.pow 2 52 then x.magnitude else Nat.pow 2 52 + x.magnitude % Nat.pow 2 52

/-- The size of a finite double in units of `2 ^ -1074`. -/
def units (x : Binary64) : Nat :=
  x.significand * Nat.pow 2 x.scale

def neg (x : Binary64) : Binary64 :=
  ofParts (!x.isMinus) x.magnitude

/-- Numeric equality: the two zeros are equal, and what is not a number equals nothing. -/
def eq (x y : Binary64) : Bool :=
  x.isNumber && y.isNumber && (x == y || x.isZero && y.isZero)

/-- Whether the double is less than zero. -/
def isNegative (x : Binary64) : Bool :=
  x.isMinus && x.isNumber && !x.isZero

/-- The whole number a finite double is equal to, if it is one. -/
def toInt? (x : Binary64) : Option Int :=
  if x.isFinite && x.units % Nat.pow 2 1074 = 0 then
    let size : Nat := x.units / Nat.pow 2 1074
    some (if x.isMinus then -(size : Int) else size)
  else none

/-- The nearest whole number to `num / den`, a tie going to the even one. -/
def roundDiv (num den : Nat) : Nat :=
  let quotient := num / den
  let twice := 2 * (num % den)
  if twice < den then quotient
  else if den < twice then quotient + 1
  else quotient + quotient % 2

/-- The scale of the double nearest to `num / den`, for a ratio that is not zero. -/
def scaleOf (num den : Nat) : Nat :=
  let top := num.log2 + 1074 - den.log2
  let exponent := if num * Nat.pow 2 1074 < den * Nat.pow 2 top then top - 1 else top
  exponent - 52

/-- The magnitude nearest to `num / den`, infinite when the ratio is out of range. -/
def roundMagnitude (num den : Nat) : Nat :=
  if num = 0 then 0
  else
    let scale := scaleOf num den
    let significand := roundDiv (num * Nat.pow 2 1074) (den * Nat.pow 2 scale)
    min (scale * Nat.pow 2 52 + significand) infinite

/-- The double nearest to `num / den`. -/
def round (minus : Bool) (num den : Nat) : Binary64 :=
  ofParts minus (roundMagnitude num den)

def ofInt (n : Int) : Binary64 :=
  round (n < 0) n.natAbs 1

/-- Above this many places to the left of the point every double is infinite, and as many to the
right every double is zero. -/
def decimalReach : Nat := 400

/-- The double nearest to `digits * 10 ^ exponent`. -/
def ofDecimal (minus : Bool) (digits : Nat) (exponent : Int) : Binary64 :=
  let places := exponent + (Nat.toDigits 10 digits).length
  if digits = 0 || places < -decimalReach then ofParts minus 0
  else if (decimalReach : Int) < places then ofParts minus infinite
  else if 0 ≤ exponent then round minus (digits * Nat.pow 10 exponent.toNat) 1
  else round minus digits (Nat.pow 10 (-exponent).toNat)

end Binary64

end Interlingua

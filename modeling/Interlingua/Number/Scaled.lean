import Interlingua.Number.Decimal

/-!
# Scaled reading of numerals

Reading in two roundings: the leading digits of a numeral, as many as fit in 64 bits, become a
double, and this is multiplied or divided by a power of ten that is itself a double. The outcome
may lie beside the nearest double, and at the end of the range it may be out of range where the
nearest double is not.
-/

namespace Interlingua

namespace Binary64

/-- The product of finite doubles, rounded. -/
def mul (x y : Binary64) : Binary64 :=
  round (x.isMinus != y.isMinus) (x.units * y.units) (Nat.pow 2 2148)

/-- The quotient of finite doubles, rounded, for a divisor that is not zero. -/
def div (x y : Binary64) : Binary64 :=
  round (x.isMinus != y.isMinus) x.units y.units

/-- The greatest power of ten that is in range. -/
def topPower : Nat := 308

def powTen (places : Nat) : Binary64 :=
  ofDecimal false 1 places

/-- Move the point to the right. What leaves the range is refused. -/
def raise? (x : Binary64) (places : Nat) : Option Binary64 :=
  if places ≤ topPower then (some (x.mul (powTen places))).filter isFinite
  else if x.isZero then some x
  else none

/-- Move the point to the left, by the greatest power of ten first. Three such moves leave zero
of every finite double. -/
def lower (x : Binary64) (places : Nat) : Binary64 :=
  let moved := Nat.repeat (fun y => y.div (powTen topPower)) (min 3 (places / topPower)) x
  moved.div (powTen (places % topPower))

end Binary64

namespace Decimal

/-- Append digits as long as the value fits in 64 bits: the value, and the digits left over. -/
def fill (value : Nat) : List Char → Nat × List Char
  | [] => (value, [])
  | c :: cs =>
    let longer := value * 10 + (c.toNat - '0'.toNat)
    if longer < Nat.pow 2 64 then fill longer cs else (value, c :: cs)

/-- The leading digits and the exponent of the last of them. Each part is filled in on its own, so
digits after the point may still fit where the whole part was cut. -/
def leading (d : Decimal) : Nat × Int :=
  let (whole, cut) := fill 0 d.whole
  let fraction := d.fraction.getD []
  let (value, rest) := fill whole fraction
  (value, d.shift + cut.length + rest.length - fraction.length)

/-- The double that scaling the leading digits gives, if it is in range. -/
def scaled? (minus : Bool) (d : Decimal) : Option Binary64 :=
  let (value, exponent) := d.leading
  let x := Binary64.round minus value 1
  match exponent with
  | .ofNat places => x.raise? places
  | .negSucc places => some (x.lower (places + 1))

end Decimal

end Interlingua

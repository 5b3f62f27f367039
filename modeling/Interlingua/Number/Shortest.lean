import Interlingua.Number.Binary64

/-!
# Shortest decimals

The decimal of a finite double with the fewest digits that still rounds to it, the nearest such
decimal where there are two, and the larger one at an exact tie. It is written in positional
notation, never with an exponent.
-/

namespace Interlingua.Binary64

/-- The ends of the values that round to a double, in units of `2 ^ -1075`, and whether the ends
themselves round to it. -/
def interval (x : Binary64) : Nat × Nat × Bool :=
  let half := Nat.pow 2 x.scale
  let below := if x.significand = Nat.pow 2 52 && 0 < x.scale then half / 2 else half
  (2 * x.units - below, 2 * x.units + half, x.significand % 2 = 0)

/-- Whether `num / den` lies in an interval. -/
def inside (bounds : Nat × Nat × Bool) (num den : Nat) : Bool :=
  let (low, high, closed) := bounds
  let value := num * Nat.pow 2 1075
  if closed then low * den ≤ value && value ≤ high * den
  else low * den < value && value < high * den

/-- The decimal `k * 10 ^ exponent` as a ratio. -/
def ratio (k : Nat) (exponent : Int) : Nat × Nat :=
  if 0 ≤ exponent then (k * Nat.pow 10 exponent.toNat, 1) else (k, Nat.pow 10 (-exponent).toNat)

def readsBack (x : Binary64) (k : Nat) (exponent : Int) : Bool :=
  inside x.interval (ratio k exponent).1 (ratio k exponent).2

/-- How far `k * 10 ^ exponent` is from the size of `x`, in units that depend on `exponent` only. -/
def distance (x : Binary64) (k : Nat) (exponent : Int) : Nat :=
  let value := (ratio k exponent).1 * Nat.pow 2 1074
  let target := x.units * (ratio k exponent).2
  (value - target) + (target - value)

/-- The multiple of `10 ^ exponent` next to `x` that reads back, the nearer of two. -/
def onGrid? (x : Binary64) (exponent : Int) : Option Nat :=
  let lower := x.units * (ratio 1 exponent).2 / ((ratio 1 exponent).1 * Nat.pow 2 1074)
  match readsBack x lower exponent, readsBack x (lower + 1) exponent with
  | true, true =>
    if distance x lower exponent < distance x (lower + 1) exponent then some lower
    else some (lower + 1)
  | true, false => some lower
  | false, true => some (lower + 1)
  | false, false => none

/-- The number `p` with `10 ^ (p - 1) ≤ x < 10 ^ p`, for a finite `x` that is not zero. -/
def places (x : Binary64) : Int :=
  (Nat.toDigits 10 (x.units * Nat.pow 10 decimalReach / Nat.pow 2 1074)).length - decimalReach

/-- The most digits a double needs. -/
def mostDigits : Nat := 17

/-- The shortest decimal of `x`, as a whole number and the exponent of its last digit. -/
def shortest (x : Binary64) : Nat × Int :=
  let found := (List.range mostDigits).findSome? fun (n : Nat) =>
    let exponent := x.places - (n + 1 : Nat)
    (onGrid? x exponent).map fun k => (k, exponent)
  found.getD (0, 0)

def dropZeros (digits : List Char) : List Char :=
  (digits.reverse.dropWhile (· = '0')).reverse

/-- `digits * 10 ^ exponent` in positional notation, without zeros at the end of the fraction. -/
def positional (digits : Nat) (exponent : Int) : List Char :=
  if 0 ≤ exponent then Nat.toDigits 10 (digits * Nat.pow 10 exponent.toNat)
  else
    let width := (-exponent).toNat
    let fraction := Nat.toDigits 10 (digits % Nat.pow 10 width)
    let padded := List.replicate (width - fraction.length) '0' ++ fraction
    let shown := dropZeros padded
    Nat.toDigits 10 (digits / Nat.pow 10 width) ++ (if shown.isEmpty then [] else '.' :: shown)

def sizeText (x : Binary64) : List Char :=
  if !x.isNumber then ['N', 'a', 'N']
  else if !x.isFinite then ['i', 'n', 'f']
  else if x.isZero then ['0']
  else positional x.shortest.1 x.shortest.2

/-- The shortest positional text of a double. -/
def text (x : Binary64) : List Char :=
  if x.isMinus && x.isNumber then '-' :: x.sizeText else x.sizeText

end Interlingua.Binary64

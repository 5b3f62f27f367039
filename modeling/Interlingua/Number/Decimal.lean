import Interlingua.Number.Binary64

/-!
# Decimal numerals

A decimal numeral has a whole part, a fraction after a point and an exponent, each of which may be
missing. Which of them a format asks for is for the format to say.
-/

namespace Interlingua

structure Decimal where
  whole : List Char
  fraction : Option (List Char) := none
  /-- Whether the exponent is below zero, and its digits. -/
  exponent : Option (Bool × List Char) := none
  deriving DecidableEq

namespace Decimal

def digitsValue (digits : List Char) : Nat :=
  digits.foldl (fun value c => value * 10 + (c.toNat - '0'.toNat)) 0

/-- Cut the digits off the front. -/
def takeDigits (cs : List Char) : List Char × List Char :=
  (cs.takeWhile Char.isDigit, cs.dropWhile Char.isDigit)

def takeSign : List Char → Bool × List Char
  | '-' :: cs => (true, cs)
  | '+' :: cs => (false, cs)
  | cs => (false, cs)

def takeFraction : List Char → Option (List Char) × List Char
  | '.' :: cs => (some (takeDigits cs).1, (takeDigits cs).2)
  | cs => (none, cs)

def takeExponent : List Char → Option (Bool × List Char) × List Char
  | 'e' :: cs | 'E' :: cs =>
    let (minus, rest) := takeSign cs
    (some (minus, (takeDigits rest).1), (takeDigits rest).2)
  | cs => (none, cs)

/-- The parts of a numeral without a sign, if the text is one from end to end. -/
def parse? (cs : List Char) : Option Decimal :=
  let (whole, afterWhole) := takeDigits cs
  let (fraction, afterFraction) := takeFraction afterWhole
  let (exponent, rest) := takeExponent afterFraction
  if rest.isEmpty then some { whole, fraction, exponent } else none

/-- An exponent that is written has digits. -/
def exponentOk (d : Decimal) : Bool :=
  d.exponent.all fun (_, digits) => !digits.isEmpty

/-- The digits before and after the point. -/
def allDigits (d : Decimal) : List Char :=
  d.whole ++ d.fraction.getD []

/-- The value of the exponent, zero where none is written. -/
def shift (d : Decimal) : Int :=
  match d.exponent with
  | none => 0
  | some (minus, digits) => if minus then -(digitsValue digits : Int) else digitsValue digits

/-- The exponent of the last digit. -/
def lastPlace (d : Decimal) : Int :=
  d.shift - (d.fraction.getD []).length

/-- The nearest double. -/
def toBinary64 (minus : Bool) (d : Decimal) : Binary64 :=
  Binary64.ofDecimal minus (digitsValue d.allDigits) d.lastPlace

end Decimal

end Interlingua

import Interlingua.Number.Decimal
import Interlingua.Number.Radix
import Interlingua.Number.Shortest
import Interlingua.Text.Find
import Interlingua.Types

/-!
# Literals

The constants of a program, and the numerals of source text. A numeral without point and exponent
is a whole number of 64 bits where it fits in them.
-/

namespace Interlingua

inductive Literal where
  | str (value : String)
  | int (value : Int64)
  | float (value : Binary64)
  | bool (value : Bool)
  | null
  deriving DecidableEq, Inhabited

namespace Literal

def baseType : Literal → BaseType
  | str _ => .string
  | int _ | float _ => .number
  | bool _ => .boolean
  | null => .unknown

def isNegative : Literal → Bool
  | int n => n < 0
  | float x => x.isNegative
  | _ => false

def intNumeral (n : Int) : List Char :=
  if n < 0 then '-' :: Nat.toDigits 10 n.natAbs else Nat.toDigits 10 n.natAbs

/-- Whole doubles below this size are written like whole numbers. -/
def wholeReach : Nat := Nat.pow 10 15

def floatNumeral (x : Binary64) : List Char :=
  match x.toInt? with
  | some n => if n.natAbs < wholeReach then intNumeral n else x.text
  | none => x.text

/-- The numeral of a number, nothing for other literals. -/
def numeral : Literal → List Char
  | int n => intNumeral n.toInt
  | float x => floatNumeral x
  | _ => []

/-- A double by one of its names or as a decimal with an optional sign and at least one digit. -/
def double? (cs : List Char) : Option Binary64 :=
  let (minus, size) := Decimal.takeSign cs
  if size = "inf".toList || size = "infinity".toList then
    some (Binary64.ofParts minus Binary64.infinite)
  else if size = "nan".toList then some (Binary64.ofParts minus (Binary64.infinite + Nat.pow 2 51))
  else do
    let d ← Decimal.parse? size
    guard (!d.allDigits.isEmpty && d.exponentOk)
    return d.toBinary64 minus

/-- The marks that put a whole number in another radix than ten. -/
def radixMarks : List (List Char × Nat) :=
  [(['0', 'x'], 16), (['0', 'o'], 8), (['0', 'b'], 2)]

def dropSuffixes (suffixes cs : List Char) : List Char :=
  (cs.reverse.dropWhile (· ∈ suffixes)).reverse

/-- The digits behind a radix mark, with the radix. -/
def marked? (cs : List Char) : Option (Nat × List Char) :=
  radixMarks.findSome? fun (mark, radix) =>
    (Text.stripFront mark cs).map fun digits => (radix, digits)

def isFloating (cs : List Char) : Bool :=
  cs.any (fun c => c = '.' || c = 'e') || cs.getLast?.any fun c => c = 'f' || c = 'd'

/-- A numeral in lower case and without separators. -/
def ofLower? (cs : List Char) : Option Literal :=
  match marked? cs with
  | some (radix, digits) => (Radix.int64? radix (dropSuffixes ['l'] digits)).map int
  | none =>
    let digits := dropSuffixes ['l', 'f', 'd'] cs
    if isFloating cs then (double? digits).map float
    else (Radix.int64? 10 digits).map int <|> (double? digits).map float

/-- The number a numeral of source text denotes. Underscores separate digits; letters at the end
that only name a width or a kind are dropped. -/
def ofNumeral? (text : List Char) : Option Literal :=
  ofLower? ((text.filter (· ≠ '_')).map Char.toLower)

/-- The number with the opposite sign. -/
def negate? : Literal → Option Literal
  | int n => some (int (-n))
  | float x => some (float x.neg)
  | _ => none

end Literal

end Interlingua

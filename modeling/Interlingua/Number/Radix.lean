/-!
# Whole numbers in a radix
-/

namespace Interlingua.Radix

/-- The value of a digit in a radix up to sixteen, either case. -/
def digit? (radix : Nat) (c : Char) : Option Nat :=
  let value :=
    if '0' ≤ c && c ≤ '9' then some (c.toNat - '0'.toNat)
    else if 'a' ≤ c && c ≤ 'f' then some (c.toNat - 'a'.toNat + 10)
    else if 'A' ≤ c && c ≤ 'F' then some (c.toNat - 'A'.toNat + 10)
    else none
  value.filter (· < radix)

/-- The number a word of digits denotes, the first digit the highest. -/
def natFrom? (radix value : Nat) : List Char → Option Nat
  | [] => some value
  | c :: cs => (digit? radix c).bind fun d => natFrom? radix (value * radix + d) cs

def nat? (radix : Nat) (cs : List Char) : Option Nat :=
  if cs.isEmpty then none else natFrom? radix 0 cs

def inInt64 (n : Int) : Bool :=
  -0x8000000000000000 ≤ n && n < 0x8000000000000000

/-- The number with an optional sign, if it fits in 64 bits. -/
def int64? (radix : Nat) (cs : List Char) : Option Int64 :=
  let value : Option Int := match cs with
    | '-' :: digits => (nat? radix digits).map fun n => -(n : Int)
    | '+' :: digits => (nat? radix digits).map Int.ofNat
    | digits => (nat? radix digits).map Int.ofNat
  (value.filter inInt64).map Int64.ofInt

end Interlingua.Radix

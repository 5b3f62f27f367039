import Interlingua.Number.Decimal
import Interlingua.Toml.Basic
import Interlingua.Toml.Text

/-!
# TOML scalars

Strings, booleans, numbers and dates. Underscores stand between digits only.
-/

namespace Interlingua.Toml

/-- Read digits up to where they end, underscores between them left out. -/
def digitTail (isDigit : Char → Bool) : List Char → Option (List Char × List Char)
  | [] => some ([], [])
  | '_' :: c :: rest => if isDigit c then (digitTail isDigit rest).map (addChar c) else none
  | c :: rest =>
    if isDigit c then (digitTail isDigit rest).map (addChar c)
    else if c = '_' then none
    else some ([], c :: rest)

/-- Read digits, of which there has to be one. -/
def digits? (isDigit : Char → Bool) : List Char → Option (List Char × List Char)
  | [] => none
  | c :: rest => if isDigit c then (digitTail isDigit rest).map (addChar c) else none

/-- Read the digits of a whole number, which has no zeros in front. -/
def wholeDigits? : List Char → Option (List Char × List Char)
  | '0' :: rest => some (['0'], rest)
  | cs => digits? Char.isDigit cs

/-- The whole number of a magnitude, if it fits. -/
def int? (minus : Bool) (magnitude : Nat) : Option Toml :=
  let n : Int := if minus then -magnitude else magnitude
  if Radix.inInt64 n then some (int (Int64.ofInt n)) else none

/-- A whole number in the radix that stood before it. -/
def marked? (radix : Nat) (cs : List Char) : Option (Toml × List Char) := do
  let (digits, rest) ← digits? (fun c => (Radix.digit? radix c).isSome) cs
  let value ← (Radix.nat? radix digits).bind (int? false)
  return (value, rest)

/-- The exponent of a number, if there is one. It has digits. -/
def exponent? : List Char → Option (Option (Bool × List Char) × List Char)
  | 'e' :: rest | 'E' :: rest =>
    let (minus, rest) := Decimal.takeSign rest
    (digits? Char.isDigit rest).map fun (digits, rest) => (some (minus, digits), rest)
  | cs => some (none, cs)

/-- The fraction of a number, if there is one. It has digits. -/
def fraction? : List Char → Option (Option (List Char) × List Char)
  | '.' :: rest => (digits? Char.isDigit rest).map fun (digits, rest) => (some digits, rest)
  | cs => some (none, cs)

/-- The nearest double. One that is too large above zero is none. -/
def float? (minus : Bool) (d : Decimal) : Option Toml :=
  let value := d.toBinary64 minus
  if value = Binary64.ofParts false Binary64.infinite then none else some (float value)

/-- A number after its sign. -/
def unsigned? (minus : Bool) (cs : List Char) : Option (Toml × List Char) :=
  match cs with
  | 'i' :: 'n' :: 'f' :: rest => some (float (Binary64.ofParts minus Binary64.infinite), rest)
  | 'n' :: 'a' :: 'n' :: rest =>
    some (float (Binary64.ofParts minus (Binary64.infinite + Nat.pow 2 51)), rest)
  | cs => do
    let (whole, rest) ← wholeDigits? cs
    let (fraction, rest) ← fraction? rest
    let (exponent, rest) ← exponent? rest
    let value ←
      if fraction.isNone && exponent.isNone then int? minus (Decimal.digitsValue whole)
      else float? minus { whole, fraction, exponent }
    return (value, rest)

def number? (cs : List Char) : Option (Toml × List Char) :=
  match cs with
  | '0' :: 'x' :: rest => marked? 16 rest
  | '0' :: 'o' :: rest => marked? 8 rest
  | '0' :: 'b' :: rest => marked? 2 rest
  | cs =>
    let (minus, rest) := Decimal.takeSign cs
    unsigned? minus rest

/-- A number of two digits between two bounds. -/
def twoDigits? (least most : Nat) : List Char → Option (Nat × List Char)
  | a :: b :: rest =>
    let n := Decimal.digitsValue [a, b]
    if a.isDigit && b.isDigit && least ≤ n && n ≤ most then some (n, rest) else none
  | _ => none

def char? (char : Char) : List Char → Option (List Char)
  | c :: rest => if c = char then some rest else none
  | [] => none

def isLeapYear (year : Nat) : Bool :=
  year % 4 = 0 && (year % 100 ≠ 0 || year % 400 = 0)

def daysOfMonth (year month : Nat) : Nat :=
  if month = 2 then if isLeapYear year then 29 else 28
  else if month ∈ [4, 6, 9, 11] then 30
  else 31

/-- What follows a date. -/
def skipDate? : List Char → Option (List Char)
  | a :: b :: c :: d :: '-' :: rest => do
    guard ([a, b, c, d].all Char.isDigit)
    let (month, rest) ← twoDigits? 1 12 rest
    let (day, rest) ← twoDigits? 1 31 (← char? '-' rest)
    guard (day ≤ daysOfMonth (Decimal.digitsValue [a, b, c, d]) month)
    return rest
  | _ => none

/-- What follows a time of day. A minute may have a leap second. -/
def skipTime? (cs : List Char) : Option (List Char) := do
  let (_, rest) ← twoDigits? 0 23 cs
  let (_, rest) ← twoDigits? 0 59 (← char? ':' rest)
  let (_, rest) ← twoDigits? 0 60 (← char? ':' rest)
  match rest with
  | '.' :: c :: more => return if c.isDigit then more.dropWhile Char.isDigit else rest
  | _ => return rest

/-- What follows the offset of a time from that of the prime meridian. -/
def skipOffset? : List Char → Option (List Char)
  | 'Z' :: rest | 'z' :: rest => some rest
  | '+' :: rest | '-' :: rest => do
    let (_, rest) ← twoDigits? 0 23 rest
    let (_, rest) ← twoDigits? 0 59 (← char? ':' rest)
    return rest
  | _ => none

/-- What follows a date that may have a time, or a time. -/
def skipDateTime? (cs : List Char) : Option (List Char) :=
  match skipDate? cs with
  | none => skipTime? cs
  | some afterDate =>
    let afterTime := match afterDate with
      | 'T' :: rest | 't' :: rest | ' ' :: rest => skipTime? rest
      | _ => none
    match afterTime with
    | none => some afterDate
    | some afterTime => some ((skipOffset? afterTime).getD afterTime)

def date? (cs : List Char) : Option (Toml × List Char) :=
  (skipDateTime? cs).map fun rest =>
    (date (String.ofList (cs.take (cs.length - rest.length))), rest)

/-- Read a value that holds no others. -/
def scalar? (cs : List Char) : Option (Toml × List Char) :=
  match cs with
  | '"' :: _ | '\'' :: _ => (string? cs).map fun (text, rest) => (str text, rest)
  | 't' :: 'r' :: 'u' :: 'e' :: rest => some (bool true, rest)
  | 'f' :: 'a' :: 'l' :: 's' :: 'e' :: rest => some (bool false, rest)
  | _ => date? cs <|> number? cs

end Interlingua.Toml

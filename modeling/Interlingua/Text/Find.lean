/-!
# Occurrences

Stripping a text off either end, and counting, replacing and cutting at the occurrences of a
non-empty needle. Occurrences are counted from the left and do not overlap.
-/

namespace Interlingua.Text

/-- What follows `front` in a text that starts with it. -/
def stripFront : List Char → List Char → Option (List Char)
  | [], cs => some cs
  | _ :: _, [] => none
  | f :: front, c :: cs => if f = c then stripFront front cs else none

/-- What precedes `back` in a text that ends with it. -/
def stripBack (back cs : List Char) : Option (List Char) :=
  (stripFront back.reverse cs.reverse).map List.reverse

def startsWith (front cs : List Char) : Bool :=
  (stripFront front cs).isSome

def endsWith (back cs : List Char) : Bool :=
  (stripBack back cs).isSome

/-- Occurrences of `needle` after the next `skip` characters. -/
def countFrom (needle : List Char) : Nat → List Char → Nat
  | _, [] => 0
  | skip + 1, _ :: cs => countFrom needle skip cs
  | 0, c :: cs =>
    if startsWith needle (c :: cs) then countFrom needle (needle.length - 1) cs + 1
    else countFrom needle 0 cs

def count (needle cs : List Char) : Nat :=
  countFrom needle 0 cs

/-- Replace the occurrences of `needle` after the next `skip` characters, which are dropped. -/
def replaceFrom (needle new : List Char) : Nat → List Char → List Char
  | _, [] => []
  | skip + 1, _ :: cs => replaceFrom needle new skip cs
  | 0, c :: cs =>
    if startsWith needle (c :: cs) then new ++ replaceFrom needle new (needle.length - 1) cs
    else c :: replaceFrom needle new 0 cs

def replace (needle new cs : List Char) : List Char :=
  replaceFrom needle new 0 cs

/-- The text before and after the last occurrence of `needle`. -/
def cutLast (needle : List Char) : List Char → Option (List Char × List Char)
  | [] => none
  | c :: cs =>
    match cutLast needle cs with
    | some (before, after) => some (c :: before, after)
    | none => (stripFront needle (c :: cs)).map fun after => ([], after)

end Interlingua.Text

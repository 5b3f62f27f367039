import Interlingua.Number.Binary64

/-!
# JSON values

Whole numbers are kept exactly and apart from the other numbers, which are doubles. The members of
an object are in the order they were given.
-/

namespace Interlingua

inductive Json where
  | null
  | bool (value : Bool)
  | int (value : Int)
  | float (value : Binary64)
  | str (value : String)
  | arr (items : List Json)
  | obj (members : List (String × Json))
  deriving Inhabited

namespace Json

def str? : Json → Option String
  | str value => some value
  | _ => none

def bool? : Json → Option Bool
  | bool value => some value
  | _ => none

def int? : Json → Option Int
  | int value => some value
  | _ => none

def nat? : Json → Option Nat
  | int (.ofNat n) => some n
  | _ => none

def arr? : Json → Option (List Json)
  | arr items => some items
  | _ => none

def obj? : Json → Option (List (String × Json))
  | obj members => some members
  | _ => none

def isNull : Json → Bool
  | null => true
  | _ => false

/-- The member of an object under a key. -/
def get? (v : Json) (key : String) : Option Json :=
  v.obj?.bind fun members => members.lookup key

/-- The members of a composite value with these field names. It may also be given as the list of
its fields in order, where fields may be missing at the end. -/
def fields? (names : List String) : Json → Option (List (String × Json))
  | obj members => some members
  | arr items => if items.length ≤ names.length then some (names.zip items) else none
  | _ => none

end Json

end Interlingua

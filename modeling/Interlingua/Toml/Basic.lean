import Interlingua.Number.Binary64

/-!
# TOML values

A table remembers how it came to be, because that decides how a document may still extend it.
-/

namespace Interlingua

/-- How a table came to be. -/
inductive TableOrigin where
  /-- As the parent of a table with a header. -/
  | implied
  /-- By its own header. -/
  | header
  /-- By a dotted key. -/
  | dotted
  /-- Between braces. -/
  | inline
  deriving DecidableEq

inductive Toml where
  | str (value : String)
  | int (value : Int64)
  | float (value : Binary64)
  | bool (value : Bool)
  /-- A date, a time of day or both, as they are written. -/
  | date (text : String)
  | arr (items : List Toml)
  | table (origin : TableOrigin) (fields : List (String × Toml))
  /-- The tables of one header in double brackets. -/
  | tables (elements : List (List (String × Toml)))

namespace Toml

/-- The fields of a table, in the order in which they are given. -/
abbrev Fields := List (String × Toml)

def str? : Toml → Option String
  | str value => some value
  | _ => none

def bool? : Toml → Option Bool
  | bool value => some value
  | _ => none

/-- Whether this is a table or an array with nothing in it. -/
def isHollow : Toml → Bool
  | arr items => items.isEmpty
  | table _ fields => fields.isEmpty
  | tables elements => elements.isEmpty
  | _ => false

end Toml

end Interlingua

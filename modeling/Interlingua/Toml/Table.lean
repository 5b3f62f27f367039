import Interlingua.Toml.Basic

/-!
# Tables of a document

A document grows by headers and by keys. A key is set once, a header opens a table once, and a
dotted key leads only through tables that no header or pair of braces has closed.
-/

namespace Interlingua.Toml

/-- The field with a new value in its place, or at the end if it is new. -/
def setField (fields : Fields) (key : String) (value : Toml) : Fields :=
  if fields.any (·.1 = key) then fields.map fun f => if f.1 = key then (key, value) else f
  else fields ++ [(key, value)]

/-- Change the last of some tables. -/
def changeLast (change : Fields → Option Fields) : List Fields → Option (List Fields)
  | [] => none
  | [last] => (change last).map fun last => [last]
  | first :: rest => (changeLast change rest).map (first :: ·)

/-- Set a key that is not there yet. The keys before the last lead through tables, where the last
one may be set in a table of dotted keys only, or if `mayHold` in the one at hand. -/
def define (value : Toml) : Bool → List String → Fields → Option Fields
  | _, [], _ => none
  | mayHold, [key], fields =>
    if mayHold && (fields.lookup key).isNone then some (setField fields key value) else none
  | _, key :: rest, fields =>
    match fields.lookup key with
    | none => (define value true rest []).map fun inner => setField fields key (table .dotted inner)
    | some (table .dotted inner) =>
      (define value true rest inner).map fun inner => setField fields key (table .dotted inner)
    | some (table .implied inner) =>
      (define value false rest inner).map fun inner => setField fields key (table .implied inner)
    | some (tables elements) =>
      (changeLast (define value false rest) elements).map fun elements =>
        setField fields key (tables elements)
    | some _ => none

/-- Change the table that the keys of a header lead to. Parents that are missing are implied, and
of tables with one header the last is meant. -/
def within (change : Fields → Option Fields) : List String → Fields → Option Fields
  | [], fields => change fields
  | key :: rest, fields =>
    match fields.lookup key with
    | none => (within change rest []).map fun inner => setField fields key (table .implied inner)
    | some (table .inline _) => none
    | some (table origin inner) =>
      (within change rest inner).map fun inner => setField fields key (table origin inner)
    | some (tables elements) =>
      (changeLast (within change rest) elements).map fun elements =>
        setField fields key (tables elements)
    | some _ => none

/-- Open a table under a key: a new one, or one that so far is only implied. -/
def openTable (key : String) (fields : Fields) : Option Fields :=
  match fields.lookup key with
  | none => some (setField fields key (table .header []))
  | some (table .implied inner) => some (setField fields key (table .header inner))
  | some _ => none

/-- Open one more of the tables under a key. -/
def openElement (key : String) (fields : Fields) : Option Fields :=
  match fields.lookup key with
  | none => some (setField fields key (tables [[]]))
  | some (tables elements) => some (setField fields key (tables (elements ++ [[]])))
  | some _ => none

end Interlingua.Toml

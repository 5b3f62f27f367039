import Interlingua.Record.Json
import Interlingua.Text.Lines

/-!
# Records in comments

A record travels in a comment at the end of the line its consumer starts on. Before a source is
parsed these comments are cut off; the records are kept with the rows they stood on.
-/

namespace Interlingua.Record

open Text

/-- What marks a comment as a record. -/
def marker : List Char :=
  "__META__:".toList

/-- The start of a record in a comment that starts with `comment`. -/
def opening (comment : List Char) : List Char :=
  comment ++ ' ' :: marker

def encode (comment : List Char) (r : Record) : List Char :=
  opening comment ++ ' ' :: r.text

/-- Only text in braces can be a record; a marker before anything else is part of the code. -/
def isBraced (payload : List Char) : Bool :=
  payload.head? = some '{' && payload.getLast? = some '}'

/-- The code of a line with a record comment, and the record if it can be read. -/
def decodeLine (comment line : List Char) : Option (List Char × Option Record) :=
  (cutLast (opening comment) line).bind fun (code, rest) =>
    let payload := trim rest
    if isBraced payload then some (trimEnd code, (Json.parse payload).bind salvage?) else none

/-- A line without its record comment. -/
def strip (comment line : List Char) : List Char :=
  match decodeLine comment line with
  | some (code, _) => code
  | none => line

/-- A source without its record comments, and the records with their rows. -/
structure Scanned where
  code : List Char
  records : List (Nat × Record)

def recordAt? (comment : List Char) (line : List Char × Nat) : Option (Nat × Record) :=
  (decodeLine comment line.1).bind fun (_, record) => record.map fun r => (line.2, r)

def scan (comment source : List Char) : Scanned where
  code := joinLines ((splitOn '\n' source).map (strip comment))
  records := (splitOn '\n' source).zipIdx.filterMap (recordAt? comment)

end Interlingua.Record

import Interlingua.Text.Blank

/-!
# Lines

Splitting at a separator keeps every part, also empty ones. Lines end at a line feed; a carriage
return before the line feed belongs to the line end, and a final line feed starts no further line.
-/

namespace Interlingua.Text

/-- The parts between the occurrences of `sep`: one more than there are separators. -/
def splitOn (sep : Char) : List Char → List (List Char)
  | [] => [[]]
  | c :: cs => if c = sep then [] :: splitOn sep cs else consHead c (splitOn sep cs)

/-- The text before and after the first occurrence of `sep`. -/
def splitFirst (sep : Char) : List Char → Option (List Char × List Char)
  | [] => none
  | c :: cs =>
    if c = sep then some ([], cs)
    else (splitFirst sep cs).map fun (before, after) => (c :: before, after)

def dropReturn (line : List Char) : List Char :=
  if line.getLast? = some '\r' then line.dropLast else line

def endLines : List (List Char) → List (List Char)
  | [] => []
  | [last] => if last.isEmpty then [] else [last]
  | line :: next :: rest => dropReturn line :: endLines (next :: rest)

def lines (cs : List Char) : List (List Char) :=
  endLines (splitOn '\n' cs)

def joinLines (lines : List (List Char)) : List Char :=
  ['\n'].intercalate lines

end Interlingua.Text

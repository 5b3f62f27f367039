/-!
# Pieces of a line

An expression is written as a sequence of pieces: tokens, single spaces between them, and notes
that are owed to the end of the line.
-/

namespace Interlingua

inductive Piece where
  | token (text : String)
  | gap
  | note (text : String)
  deriving DecidableEq

namespace Piece

/-- What a piece puts in place. -/
def inPlace : Piece → String
  | token text => text
  | gap => " "
  | note _ => ""

/-- The text of a sequence of pieces without their notes. -/
def text (pieces : List Piece) : String :=
  String.join (pieces.map inPlace)

/-- Put parentheses around pieces where they are needed. -/
def group (needed : Bool) (pieces : List Piece) : List Piece :=
  if needed then token "(" :: pieces ++ [token ")"] else pieces

end Piece

end Interlingua

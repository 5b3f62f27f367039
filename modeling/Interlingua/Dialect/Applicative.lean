import Interlingua.Dialect.Basic

/-!
# The dialect of Haskell

A function body is one expression, and arguments follow the function without parentheses.
-/

namespace Interlingua.Dialect

namespace Haskell

def binarySymbol : BinaryOp → String
  | .mod => "`mod`"
  | op => op.symbol

def compareSymbol : CompareOp → String
  | .notEq => "/="
  | op => op.symbol

def unknownExpr (description : String) : List Piece :=
  [.token ("undefined \x7b- unknown: " ++ guarded "-\x7d" "- \x7d" description ++ " -\x7d")]

end Haskell

def haskell : Dialect where
  language := "haskell"
  bodies := .expression
  application := .juxtaposed
  terminator := ""
  comment := "--"
  embedsRecords := true
  delimiter := '"'
  printName := "putStrLn"
  trueText := "True"
  falseText := "False"
  nullText := "()"
  binarySymbol := Haskell.binarySymbol
  compareSymbol := Haskell.compareSymbol
  memberLink := "_"
  tupleOpen := [.token "("]
  tupleClose := fun _ => ")"
  unknownExpr := Haskell.unknownExpr
  forward := fun _ => none

end Interlingua.Dialect

import Interlingua.Dialect.Basic

/-!
# The dialect of Python

Blocks are marked by indentation alone, and types travel in comments. There are no comments inside a
line, so the description of an unknown expression goes to the end of the line.
-/

namespace Interlingua.Dialect

namespace Python

def binarySymbol : BinaryOp → String
  | .and => "and"
  | .or => "or"
  | op => op.symbol

def functionHeader (f : Signature) (inClass : Bool) : String :=
  let params := if inClass then "self" :: f.paramNames else f.paramNames
  "def " ++ f.name ++ "(" ++ ", ".intercalate params ++ ")"

def classHeader (name : String) (bases : List String) : String :=
  "class " ++ name ++ if bases.isEmpty then "" else "(" ++ ", ".intercalate bases ++ ")"

/-- The comment that describes what could not be written. -/
def unknownNote (description : String) : String :=
  "# unknown: " ++ oneLine description

end Python

def python : Dialect where
  language := "python"
  blocks := .indented
  terminator := ""
  comment := "#"
  embedsRecords := true
  filler := some "pass"
  trueText := "True"
  falseText := "False"
  nullText := "None"
  binarySymbol := Python.binarySymbol
  tupleOpen := [.token "("]
  tupleClose := fun size => if size = 1 then ",)" else ")"
  unknownExpr := fun description => [.token "None", .note (Python.unknownNote description)]
  unknownStmt := fun description => "pass  " ++ Python.unknownNote description
  keyword := fun _ _ => none
  functionHeader := Python.functionHeader
  classHeader := Python.classHeader

end Interlingua.Dialect

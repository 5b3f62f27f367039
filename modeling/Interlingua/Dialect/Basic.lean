import Interlingua.Record.Basic
import Interlingua.Text.Blank
import Interlingua.Text.Find
import Interlingua.Text.Quoted
import Interlingua.Writing.Piece

/-!
# Dialects

A dialect is the set of decisions by which programs are written in one language. The defaults are
those of the languages with braces around blocks and semicolons after statements.
-/

namespace Interlingua

/-- How the body of a block is set off from its header. -/
inductive BlockStyle where
  | braces
  | indented
  deriving DecidableEq

/-- Whether a function body is a block of statements or one expression. -/
inductive BodyStyle where
  | statements
  | expression
  deriving DecidableEq

/-- Whether arguments are listed in parentheses or follow the function one by one. -/
inductive Application where
  | listed
  | juxtaposed
  deriving DecidableEq

/-- A description on one line. -/
def oneLine (description : String) : String :=
  String.ofList (Text.collapse description.toList)

/-- A description on one line that cannot end the comment it stands in. -/
def guarded (closing safe : String) (description : String) : String :=
  String.ofList (Text.replace closing.toList safe.toList (Text.collapse description.toList))

def quoted (delimiter : Char) (value : String) : String :=
  String.ofList (Text.quote delimiter value.toList)

structure Dialect where
  language : String
  blocks : BlockStyle := .braces
  bodies : BodyStyle := .statements
  application : Application := .listed
  /-- The indentation of one block. -/
  unit : String := "    "
  terminator : String := ";"
  /-- What starts a comment up to the end of the line. -/
  comment : String := "//"
  /-- Whether records can stand in comments. Where types are spelled out there is no need to. -/
  embedsRecords : Bool := false
  /-- What stands in a block without statements. -/
  filler : Option String := none
  delimiter : Char := '\''
  printName : String := "print"
  trueText : String := "true"
  falseText : String := "false"
  nullText : String := "null"
  binarySymbol : BinaryOp → String := BinaryOp.symbol
  compareSymbol : CompareOp → String := CompareOp.symbol
  memberLink : String := "."
  listOpen : BaseType → List Piece := fun _ => [.token "["]
  listClose : String := "]"
  tupleOpen : List Piece := [.token "["]
  /-- The end of a tuple with this many elements. -/
  tupleClose : Nat → String := fun _ => "]"
  unknownExpr : String → List Piece := fun description =>
    [.token ("/* unknown: " ++ guarded "*/" "* /" description ++ " */ " ++ nullText)]
  unknownStmt : String → String := fun description =>
    comment ++ " unknown: " ++ oneLine description
  /-- What introduces a new variable or, with `true`, a field of a class. -/
  keyword : Assign → Bool → Option String := fun _ inClass => if inClass then none else some "let"
  /-- The type that is written after a new variable. -/
  typeNote : Assign → Option String := fun _ => none
  /-- The declaration of a variable ahead of the branch that first assigns it, where one is
  needed. -/
  forward : Assign → Option String := fun a =>
    (keyword a false).map fun word =>
      word ++ " " ++ a.target.id ++ ((typeNote a).map (": " ++ ·)).getD "" ++ terminator
  /-- What stands before the body of a function or, with `true`, a method. -/
  functionHeader : Signature → Bool → String := fun f inClass =>
    (if inClass then "" else "function ") ++ f.name ++ "(" ++ ", ".intercalate f.paramNames ++ ")"
  /-- What stands before the body of a class with these bases. -/
  classHeader : String → List String → String := fun name bases =>
    "class " ++ name ++ (bases.head?.map (" extends " ++ ·)).getD ""

namespace Dialect

/-- The name under which a function is called. -/
def functionName (d : Dialect) (id : String) : String :=
  if id = "print" then d.printName else id

def literal (d : Dialect) : Literal → String
  | .str value => quoted d.delimiter value
  | .bool true => d.trueText
  | .bool false => d.falseText
  | .null => d.nullText
  | number => String.ofList number.numeral

end Dialect

end Interlingua

import Interlingua.Text.Find
import Interlingua.Text.Lines

/-!
# Declared types

The closed vocabulary that annotations of every surface language are folded into. Reading a
spelling never fails: what is not recognised is unknown, or the name of a nominal type.
-/

namespace Interlingua

open Text

inductive BaseType where
  | string
  | number
  | boolean
  | void
  | any
  | unknown
  deriving DecidableEq, Inhabited

namespace BaseType

def spelling : BaseType → String
  | string => "string"
  | number => "number"
  | boolean => "boolean"
  | void => "void"
  | any => "any"
  | unknown => "unknown"

def isKnown (t : BaseType) : Bool :=
  t ≠ unknown

/-- Whether the type says what the values are. -/
def isClosed (t : BaseType) : Bool :=
  t ≠ any && t ≠ unknown

/-- Read a spelling, blanks around it and the case of its letters aside. -/
def ofSpelling (text : List Char) : BaseType :=
  match String.ofList ((trim text).map Char.toLower) with
  | "string" => string
  | "number" | "int" | "integer" | "float" | "double" => number
  | "boolean" | "bool" => boolean
  | "void" => void
  | "any" => any
  | _ => unknown

end BaseType

inductive DeclaredType where
  | base (type : BaseType)
  | tuple (types : List BaseType)
  | array (element : BaseType) (homogeneous : Bool)
  | named (name : String)
  | unknown
  deriving DecidableEq, Inhabited

namespace DeclaredType

/-- The array of a type; it is homogeneous if the type is closed. -/
def arrayOf (element : BaseType) : DeclaredType :=
  array element element.isClosed

/-- The text between a pair of square brackets. -/
def bracketed? (text : List Char) : Option (List Char) :=
  (stripFront ['['] text).bind (stripBack [']'])

/-- The tuple a bracketed list of types spells. One type alone has to be a known one. -/
def tuple? (text : List Char) : Option DeclaredType :=
  (bracketed? text).bind fun inner =>
    if ',' ∈ inner then some (tuple ((splitOn ',' inner).map BaseType.ofSpelling))
    else if (BaseType.ofSpelling inner).isKnown then some (tuple [BaseType.ofSpelling inner])
    else none

def array? (text : List Char) : Option DeclaredType :=
  (stripBack ['[', ']'] text).map fun element => arrayOf (BaseType.ofSpelling element)

def plain (text : List Char) : DeclaredType :=
  if (BaseType.ofSpelling text).isKnown then base (BaseType.ofSpelling text)
  else named (String.ofList text)

/-- Read a spelling: `[A, B]` is a tuple, `A[]` an array, a known spelling a base type, and
anything else that is not blank a nominal type. -/
def parse (spelling : List Char) : DeclaredType :=
  let text := trim spelling
  if text.isEmpty || text.map Char.toLower = "unknown".toList then unknown
  else (tuple? text <|> array? text).getD (plain text)

/-- The base type a declaration denotes, unknown for all others. -/
def toBase : DeclaredType → BaseType
  | base type => type
  | _ => .unknown

def spelling : DeclaredType → String
  | base type => type.spelling
  | tuple types => "[" ++ ", ".intercalate (types.map BaseType.spelling) ++ "]"
  | array element _ => element.spelling ++ "[]"
  | named name => name
  | unknown => "unknown"

end DeclaredType

end Interlingua

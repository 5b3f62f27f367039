import Interlingua.Dialect.Basic

/-!
# Dialects with braces

The plain dialect, which decides nothing but its name, JavaScript, TypeScript and Java.
-/

namespace Interlingua.Dialect

def plain : Dialect where
  language := "plain"

def javascript : Dialect where
  language := "javascript"
  embedsRecords := true
  printName := "console.log"
  compareSymbol := CompareOp.strictSymbol

namespace TypeScript

/-- A type as it is written, if it says anything. -/
def spelled? (type : BaseType) : Option String :=
  if type.isKnown then some type.spelling else none

/-- The type of a list or tuple as it is written. -/
def containerNote : Expr → Option String
  | .list _ element _ =>
    if element.isKnown then some (DeclaredType.arrayOf element).spelling else none
  | .tuple _ types => if types.isEmpty then none else some (DeclaredType.tuple types).spelling
  | _ => none

def typed (id : String) (type : BaseType) : String :=
  id ++ ((spelled? type).map (": " ++ ·)).getD ""

def functionHeader (f : Signature) (inClass : Bool) : String :=
  let params := f.paramNames.map fun id => typed id (f.paramType id)
  (if inClass then "" else "function ")
    ++ typed (f.name ++ "(" ++ ", ".intercalate params ++ ")") f.returnType

end TypeScript

def typescript : Dialect where
  language := "typescript"
  printName := "console.log"
  compareSymbol := CompareOp.strictSymbol
  typeNote := fun a => TypeScript.spelled? a.type <|> TypeScript.containerNote a.value
  functionHeader := TypeScript.functionHeader

namespace Java

def typeName : BaseType → String
  | .string => "String"
  | .number => "double"
  | .boolean => "boolean"
  | .void => "void"
  | .any | .unknown => "Object"

/-- The type of a variable or field. Only a local variable can leave it to its value. -/
def declared (a : Assign) (inClass : Bool) : String :=
  match a.value, a.type with
  | .const (.int _) _, .number => "int"
  | .list _ element _, .unknown => typeName element ++ "[]"
  | .tuple _ _, .unknown => "Object[]"
  | _, .unknown => if inClass then "Object" else "var"
  | _, type => typeName type

def functionHeader (f : Signature) (inClass : Bool) : String :=
  let params := f.paramNames.map fun id => typeName (f.paramType id) ++ " " ++ id
  (if inClass then "public " else "public static ") ++ typeName f.returnType ++ " " ++ f.name
    ++ "(" ++ ", ".intercalate params ++ ")"

/-- The start of an array with elements of this type. -/
def arrayOpen (element : String) : List Piece :=
  [.token "new", .gap, .token element, .token "[]\x7b"]

end Java

def java : Dialect where
  language := "java"
  delimiter := '"'
  printName := "System.out.println"
  keyword := fun a inClass => some (Java.declared a inClass)
  forward := fun a => some (Java.declared a true ++ " " ++ a.target.id ++ ";")
  functionHeader := Java.functionHeader
  listOpen := fun element => Java.arrayOpen (Java.typeName element)
  listClose := "\x7d"
  tupleOpen := Java.arrayOpen "Object"
  tupleClose := fun _ => "\x7d"

end Interlingua.Dialect

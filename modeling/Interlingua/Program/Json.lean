import Interlingua.Json.Basic
import Interlingua.Program.Basic

/-!
# Programs as JSON

A variant with contents is an object with one member, a variant without contents a string. Decoding
asks for every field, ignores further ones, and reads types by their spelling. How a double is
written is a parameter.
-/

namespace Interlingua

/-- A way to write doubles as JSON values and to read them back. -/
structure FloatCode where
  encode : Binary64 → Json
  decode? : Json → Option Binary64

namespace FloatCode

/-- Doubles as JSON numbers; there is none for a double that is not finite. -/
def number : FloatCode where
  encode x := if x.isFinite then .float x else .null
  decode?
    | .float x => some x
    | .int n => some (Binary64.ofInt n)
    | _ => none

end FloatCode

namespace Json

/-- A variant with contents. -/
def variant (name : String) (contents : Json) : Json :=
  obj [(name, contents)]

/-- The name and contents of a variant; one that is a string alone has no contents. -/
def variant? : Json → Option (String × Option Json)
  | str name => some (name, none)
  | obj [(name, contents)] => some (name, some contents)
  | _ => none

/-- The name of a variant without contents. -/
def bareVariant? (v : Json) : Option String :=
  v.variant?.bind fun (name, contents) => if contents.all isNull then some name else none

def list? {α : Type} (decode? : Json → Option α) (v : Json) : Option (List α) :=
  v.arr?.bind fun items => items.mapM decode?

def dict? {α : Type} (decode? : Json → Option α) (v : Json) : Option (Dict α) := do
  let entries ← (← v.obj?).mapM fun (key, value) => (decode? value).map fun value => (key, value)
  return Dict.ofList entries

def ofDict {α : Type} (encode : α → Json) (d : Dict α) : Json :=
  obj (d.entries.map fun (key, value) => (key, encode value))

end Json

namespace BaseType

def toJson (type : BaseType) : Json :=
  .str type.spelling

def ofJson? (v : Json) : Option BaseType :=
  v.str?.map fun spelling => ofSpelling spelling.toList

end BaseType

namespace BinaryOp

def variantName : BinaryOp → String
  | add => "Add"
  | sub => "Sub"
  | mul => "Mul"
  | div => "Div"
  | mod => "Mod"
  | and => "And"
  | or => "Or"

def ofVariantName? : String → Option BinaryOp
  | "Add" => some add
  | "Sub" => some sub
  | "Mul" => some mul
  | "Div" => some div
  | "Mod" => some mod
  | "And" => some and
  | "Or" => some or
  | _ => none

def ofJson? (v : Json) : Option BinaryOp :=
  v.bareVariant?.bind ofVariantName?

end BinaryOp

namespace CompareOp

def variantName : CompareOp → String
  | eq => "Eq"
  | notEq => "NotEq"
  | lt => "Lt"
  | ltE => "LtE"
  | gt => "Gt"
  | gtE => "GtE"

def ofVariantName? : String → Option CompareOp
  | "Eq" => some eq
  | "NotEq" => some notEq
  | "Lt" => some lt
  | "LtE" => some ltE
  | "Gt" => some gt
  | "GtE" => some gtE
  | _ => none

def ofJson? (v : Json) : Option CompareOp :=
  v.bareVariant?.bind ofVariantName?

end CompareOp

namespace Role

def variantName : Role → String
  | load => "Load"
  | store => "Store"
  | param => "Param"

def ofVariantName? : String → Option Role
  | "Load" => some load
  | "Store" => some store
  | "Param" => some param
  | _ => none

end Role

namespace Name

def toJson (n : Name) : Json :=
  .obj [("id", .str n.id), ("ctx", .str n.role.variantName)]

def ofJson? (v : Json) : Option Name := do
  let fields ← v.fields? ["id", "ctx"]
  let id ← (← fields.lookup "id").str?
  let role ← (← (← fields.lookup "ctx").bareVariant?) |> Role.ofVariantName?
  return { id, role }

end Name

namespace Literal

variable (code : FloatCode)

def toJson : Literal → Json
  | str value => .variant "Str" (.str value)
  | int value => .variant "Int" (.int value.toInt)
  | float value => .variant "Float" (code.encode value)
  | bool value => .variant "Bool" (.bool value)
  | null => .str "None"

def ofVariant? : String → Option Json → Option Literal
  | "Str", some v => v.str?.map str
  | "Int", some v => (v.int?.filter Radix.inInt64).map fun n => int (Int64.ofInt n)
  | "Float", some v => (code.decode? v).map float
  | "Bool", some v => v.bool?.map bool
  | "None", none => some null
  | "None", some v => if v.isNull then some null else none
  | _, _ => none

def ofJson? (v : Json) : Option Literal :=
  v.variant?.bind fun (name, contents) => ofVariant? code name contents

end Literal

section

variable (code : FloatCode)

def constToJson (value : Literal) (type : BaseType) : Json :=
  .obj [("value", value.toJson code), ("type_info", type.toJson)]

mutual

def Expr.toJson : Expr → Json
  | .call callee args =>
    .variant "Call" (.obj [("func", Expr.toJson callee), ("args", .arr (Expr.listToJson args))])
  | .name n => .variant "Name" n.toJson
  | .const value type => .variant "Constant" (constToJson code value type)
  | .member object property =>
    .variant "Member" (.obj [("object", Expr.toJson object), ("property", .str property)])
  | .binary left op right =>
    .variant "Binary"
      (.obj [("left", Expr.toJson left), ("op", .str op.variantName), ("right", Expr.toJson right)])
  | .compare left op right =>
    .variant "Compare"
      (.obj [("left", Expr.toJson left), ("op", .str op.variantName), ("right", Expr.toJson right)])
  | .list elements element homogeneous =>
    .variant "List"
      (.obj [("elements", .arr (Expr.listToJson elements)), ("element_type", element.toJson),
        ("homogeneous", .bool homogeneous)])
  | .tuple elements types =>
    .variant "Tuple"
      (.obj [("elements", .arr (Expr.listToJson elements)),
        ("element_types", .arr (types.map BaseType.toJson))])
  | .unknown description => .variant "Unknown" (.obj [("description", .str description)])

def Expr.listToJson : List Expr → List Json
  | [] => []
  | e :: es => Expr.toJson e :: Expr.listToJson es

end

def callToJson (callee : Expr) (args : List Expr) : Json :=
  .obj [("func", callee.toJson code), ("args", .arr (Expr.listToJson code args))]

def Assign.toJson (a : Assign) : Json :=
  .obj [("target", a.target.toJson), ("value", a.value.toJson code), ("variable_type", a.type.toJson)]

def functionToJson (f : Signature) (body : List Json) : Json :=
  .obj [("name", .str f.name), ("args", .arr (f.params.map Name.toJson)), ("body", .arr body),
    ("return_type", f.returnType.toJson), ("param_types", .ofDict BaseType.toJson f.paramTypes),
    ("param_metadata", .ofDict (.ofDict .str) f.paramFacts)]

mutual

def Stmt.toJson : Stmt → Json
  | .expr value => .variant "ExprStatement" (value.toJson code)
  | .print value => .variant "Print" (value.toJson code)
  | .function f body => .variant "FunctionDef" (functionToJson f (Stmt.listToJson body))
  | .classDef name bases body =>
    .variant "ClassDef"
      (.obj [("name", .str name), ("bases", .arr (Expr.listToJson code bases)),
        ("body", .arr (Stmt.listToJson body))])
  | .assign a => .variant "Assign" (a.toJson code)
  | .call callee args => .variant "CallStatement" (callToJson code callee args)
  | .ret none => .variant "Return" .null
  | .ret (some value) => .variant "Return" (value.toJson code)
  | .cond test body orelse =>
    .variant "If"
      (.obj [("test", test.toJson code), ("body", .arr (Stmt.listToJson body)),
        ("orelse", .arr (Stmt.listToJson orelse))])
  | .unknown description => .variant "Unknown" (.obj [("description", .str description)])

def Stmt.listToJson : List Stmt → List Json
  | [] => []
  | s :: ss => Stmt.toJson s :: Stmt.listToJson ss

end

def Program.toJson (p : Program) : Json :=
  .obj [("body", .arr (Stmt.listToJson code p.body))]

def Fragment.toJson : Fragment → Json
  | .program p => .variant "Module" (p.toJson code)
  | .stmt s => .variant "Stmt" (s.toJson code)
  | .expr e => .variant "Expr" (e.toJson code)

def constOfJson? (v : Json) : Option Expr := do
  let fields ← v.fields? ["value", "type_info"]
  let value ← (fields.lookup "value").bind (Literal.ofJson? code)
  let type ← (fields.lookup "type_info").bind BaseType.ofJson?
  return .const value type

def descriptionOf? (v : Json) : Option String :=
  (v.get? "description").bind Json.str?

mutual

def Expr.ofJson? : Json → Option Expr
  | .obj [(tag, contents)] => Expr.ofVariant? tag contents
  | _ => none

def Expr.ofVariant? (tag : String) : Json → Option Expr
  | .arr [callee, .arr args] =>
    match tag with
    | "Call" => do return .call (← Expr.ofJson? callee) (← Expr.listOfJson? args)
    | "Name" => (Name.ofJson? (.arr [callee, .arr args])).map .name
    | "Constant" => constOfJson? code (.arr [callee, .arr args])
    | _ => none
  | .obj members =>
    match tag with
    | "Call" => do
      return .call (← Expr.fieldOfJson? "func" members) (← Expr.listField? "args" members)
    | "Name" => (Name.ofJson? (.obj members)).map .name
    | "Constant" => constOfJson? code (.obj members)
    | "Member" => do
      let property ← (members.lookup "property").bind Json.str?
      return .member (← Expr.fieldOfJson? "object" members) property
    | "Binary" => do
      let op ← (members.lookup "op").bind BinaryOp.ofJson?
      return .binary (← Expr.fieldOfJson? "left" members) op (← Expr.fieldOfJson? "right" members)
    | "Compare" => do
      let op ← (members.lookup "op").bind CompareOp.ofJson?
      return .compare (← Expr.fieldOfJson? "left" members) op (← Expr.fieldOfJson? "right" members)
    | "List" => do
      let element ← (members.lookup "element_type").bind BaseType.ofJson?
      let homogeneous ← (members.lookup "homogeneous").bind Json.bool?
      return .list (← Expr.listField? "elements" members) element homogeneous
    | "Tuple" => do
      let types ← (members.lookup "element_types").bind (Json.list? BaseType.ofJson?)
      return .tuple (← Expr.listField? "elements" members) types
    | "Unknown" => (descriptionOf? (.obj members)).map .unknown
    | _ => none
  | contents =>
    match tag with
    | "Name" => (Name.ofJson? contents).map .name
    | "Constant" => constOfJson? code contents
    | _ => none

def Expr.listOfJson? : List Json → Option (List Expr)
  | [] => some []
  | v :: vs => do return (← Expr.ofJson? v) :: (← Expr.listOfJson? vs)

def Expr.fieldOfJson? (key : String) : List (String × Json) → Option Expr
  | [] => none
  | (k, v) :: rest => if key = k then Expr.ofJson? v else Expr.fieldOfJson? key rest

def Expr.listField? (key : String) : List (String × Json) → Option (List Expr)
  | [] => none
  | (k, .arr items) :: rest =>
    if key = k then Expr.listOfJson? items else Expr.listField? key rest
  | (k, _) :: rest => if key = k then none else Expr.listField? key rest

end

/-- The callee and arguments of a call. -/
def callOfJson? (v : Json) : Option (Expr × List Expr) := do
  let fields ← v.fields? ["func", "args"]
  let callee ← (fields.lookup "func").bind (Expr.ofJson? code)
  let args ← (fields.lookup "args").bind (Json.list? (Expr.ofJson? code))
  return (callee, args)

def Assign.ofJson? (v : Json) : Option Assign := do
  let fields ← v.fields? ["target", "value", "variable_type"]
  let target ← (fields.lookup "target").bind Name.ofJson?
  let value ← (fields.lookup "value").bind (Expr.ofJson? code)
  let type ← (fields.lookup "variable_type").bind BaseType.ofJson?
  return { target, value, type }

def functionFields : List String :=
  ["name", "args", "body", "return_type", "param_types", "param_metadata"]

def Signature.ofJson? (v : Json) : Option Signature := do
  let fields ← v.fields? functionFields
  let name ← (fields.lookup "name").bind Json.str?
  let params ← (fields.lookup "args").bind (Json.list? Name.ofJson?)
  let returnType ← (fields.lookup "return_type").bind BaseType.ofJson?
  let paramTypes ← (fields.lookup "param_types").bind (Json.dict? BaseType.ofJson?)
  let paramFacts ← (fields.lookup "param_metadata").bind (Json.dict? (Json.dict? Json.str?))
  return { name, params, returnType, paramTypes, paramFacts }

/-- The name and base classes of a class. -/
def classHeadOfJson? (v : Json) : Option (String × List Expr) := do
  let fields ← v.fields? ["name", "bases", "body"]
  let name ← (fields.lookup "name").bind Json.str?
  let bases ← (fields.lookup "bases").bind (Json.list? (Expr.ofJson? code))
  return (name, bases)

mutual

def Stmt.ofJson? : Json → Option Stmt
  | .obj [(tag, contents)] => Stmt.ofVariant? tag contents
  | _ => none

def Stmt.ofVariant? (tag : String) : Json → Option Stmt
  | .obj members =>
    match tag with
    | "ExprStatement" => (Expr.ofJson? code (.obj members)).map .expr
    | "Print" => (Expr.ofJson? code (.obj members)).map .print
    | "FunctionDef" => do
      return .function (← Signature.ofJson? (.obj members)) (← Stmt.listField? "body" members)
    | "ClassDef" => do
      let (name, bases) ← classHeadOfJson? code (.obj members)
      return .classDef name bases (← Stmt.listField? "body" members)
    | "Assign" => (Assign.ofJson? code (.obj members)).map .assign
    | "CallStatement" => (callOfJson? code (.obj members)).map fun (callee, args) => .call callee args
    | "Return" => (Expr.ofJson? code (.obj members)).map fun value => .ret (some value)
    | "If" => do
      let test ← (members.lookup "test").bind (Expr.ofJson? code)
      return .cond test (← Stmt.listField? "body" members) (← Stmt.listField? "orelse" members)
    | "Unknown" => (descriptionOf? (.obj members)).map .unknown
    | _ => none
  | .arr [first, second, .arr body] =>
    match tag with
    | "ClassDef" => do
      let (name, bases) ← classHeadOfJson? code (.arr [first, second, .arr body])
      return .classDef name bases (← Stmt.listOfJson? body)
    | _ => none
  | .arr (first :: second :: .arr body :: rest) =>
    match tag with
    | "FunctionDef" => do
      return .function (← Signature.ofJson? (.arr (first :: second :: .arr body :: rest)))
        (← Stmt.listOfJson? body)
    | _ => none
  | contents =>
    match tag with
    | "Assign" => (Assign.ofJson? code contents).map .assign
    | "CallStatement" => (callOfJson? code contents).map fun (callee, args) => .call callee args
    | "Return" => if contents.isNull then some (.ret none) else none
    | _ => none

def Stmt.listOfJson? : List Json → Option (List Stmt)
  | [] => some []
  | v :: vs => do return (← Stmt.ofJson? v) :: (← Stmt.listOfJson? vs)

def Stmt.listField? (key : String) : List (String × Json) → Option (List Stmt)
  | [] => none
  | (k, .arr items) :: rest =>
    if key = k then Stmt.listOfJson? items else Stmt.listField? key rest
  | (k, _) :: rest => if key = k then none else Stmt.listField? key rest

end

def Program.ofJson? (v : Json) : Option Program := do
  let fields ← v.fields? ["body"]
  let body ← (fields.lookup "body").bind (Json.list? (Stmt.ofJson? code))
  return { body }

def Fragment.ofJson? : Json → Option Fragment
  | .obj [("Module", contents)] => (Program.ofJson? code contents).map .program
  | .obj [("Stmt", contents)] => (Stmt.ofJson? code contents).map .stmt
  | .obj [("Expr", contents)] => (Expr.ofJson? code contents).map .expr
  | _ => none

end

end Interlingua

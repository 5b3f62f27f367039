import Interlingua.Json.Parser
import Interlingua.Program.Json
import Interlingua.Record.Basic

/-!
# Records as JSON

What a record does not hold is left out of its JSON form. There are two ways to read one: `ofJson?`
refuses a value of a wrong shape, `salvage?` takes from an object what has the right shape.
-/

namespace Interlingua

namespace DeclaredType

def toJson (type : DeclaredType) : Json :=
  .str type.spelling

def ofJson? (v : Json) : Option DeclaredType :=
  v.str?.map fun spelling => parse spelling.toList

end DeclaredType

namespace Record

def memberOf {α : Type} (key : String) (encode : α → Json) (value : Option α) :
    List (String × Json) :=
  (value.map fun value => (key, encode value)).toList

def dictMember {α : Type} (key : String) (encode : α → Json) (d : Dict α) :
    List (String × Json) :=
  if d.isEmpty then [] else [(key, .ofDict encode d)]

def members (r : Record) : List (String × Json) :=
  memberOf "returnType" BaseType.toJson r.returnType
    ++ dictMember "paramTypes" BaseType.toJson r.paramTypes
    ++ memberOf "variableType" DeclaredType.toJson r.variableType
    ++ dictMember "individualParamMetadata" (.ofDict .str) r.paramFacts

def toJson (r : Record) : Json :=
  .obj r.members

/-- The record on one line. -/
def text (r : Record) : List Char :=
  r.toJson.compact

/-- A value that may be missing or null. -/
def optional? {α : Type} (decode? : Json → Option α) : Option Json → Option (Option α)
  | none => some none
  | some v => if v.isNull then some none else (decode? v).map some

/-- A dictionary that may be missing. -/
def optionalDict? {α : Type} (decode? : Json → Option α) : Option Json → Option (Dict α)
  | none => some {}
  | some v => v.dict? decode?

def fieldNames : List String :=
  ["returnType", "paramTypes", "variableType", "individualParamMetadata"]

def ofJson? (v : Json) : Option Record := do
  let fields ← v.fields? fieldNames
  let returnType ← optional? BaseType.ofJson? (fields.lookup "returnType")
  let paramTypes ← optionalDict? BaseType.ofJson? (fields.lookup "paramTypes")
  let variableType ← optional? DeclaredType.ofJson? (fields.lookup "variableType")
  let paramFacts ← optionalDict? (Json.dict? Json.str?) (fields.lookup "individualParamMetadata")
  return { returnType, paramTypes, variableType, paramFacts }

/-- The members of an object that decode. -/
def salvageDict {α : Type} (decode? : Json → Option α) (v : Option Json) : Dict α :=
  let members := (v.bind Json.obj?).getD []
  Dict.ofList (members.filterMap fun (key, value) => (decode? value).map fun value => (key, value))

/-- The facts of a parameter that are strings, if there are any. -/
def salvageFacts? (v : Json) : Option (Dict String) :=
  v.obj?.bind fun _ =>
    let facts := salvageDict Json.str? (some v)
    if facts.isEmpty then none else some facts

/-- What an object holds of a record, other shapes left out member by member. -/
def salvage? (v : Json) : Option Record :=
  v.obj?.map fun members =>
    { returnType := (members.lookup "returnType").bind BaseType.ofJson?
      paramTypes := salvageDict BaseType.ofJson? (members.lookup "paramTypes")
      variableType := (members.lookup "variableType").bind DeclaredType.ofJson?
      paramFacts := salvageDict salvageFacts? (members.lookup "individualParamMetadata") }

end Record

end Interlingua

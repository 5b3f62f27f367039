import Interlingua.Reading.Walk

/-!
# The grammar of Java

Statements and methods may stand outside of classes.
-/

namespace Interlingua.Reading.Java

open Text

/-- A type that is not an array. -/
def plainType (text : List Char) : DeclaredType :=
  match String.ofList text with
  | "String" | "char" | "Character" => .base .string
  | "int" | "long" | "short" | "byte" | "double" | "float"
  | "Integer" | "Long" | "Double" | "Float" => .base .number
  | "boolean" | "Boolean" => .base .boolean
  | "void" => .base .void
  | "Object" | "var" => .unknown
  | name => .named name

/-- The base type of the elements of an array; arrays have none. -/
def elementType (text : List Char) : BaseType :=
  if endsWith ['[', ']'] (trim text) then .unknown else (plainType (trim text)).toBase

/-- The type a declaration spells. -/
def declaredType (spelled : String) : DeclaredType :=
  let text := trim spelled.toList
  match stripBack ['[', ']'] text with
  | some element => .arrayOf (elementType element)
  | none => plainType text

def typeOf (t : Tree) : DeclaredType :=
  ((t.childText? "type").map declaredType).getD .unknown

def binaryForm (t : Tree) : Except ReadError ExprForm := do
  let symbol ← childText t "operator"
  match BinaryOp.ofSymbol? symbol, CompareOp.ofSymbol? symbol with
  | some op, _ => return .binary (.field "left") op (.field "right")
  | none, some op => return .compare (.field "left") op (.field "right")
  | none, none => return .operands (.field "left") (.field "right")

/-- What a method invocation calls. -/
def callee (t : Tree) : Except ReadError Callee := do
  let name ← childText t "name"
  match t.childText? "object" with
  | none => return .known (.load name)
  | some object =>
    if name = "println" && object = "System.out" then return .known (.load "print")
    else return .method (.field "object") name

def exprForm : ExprGrammar := fun t =>
  match t.kind with
  | "identifier" => return .leaf (.load t.text)
  | "true" => return .leaf (.lit (.bool true))
  | "false" => return .leaf (.lit (.bool false))
  | "null_literal" => return .leaf (.lit .null)
  | "decimal_integer_literal" | "hex_integer_literal" | "octal_integer_literal"
  | "binary_integer_literal" | "decimal_floating_point_literal" => return numberForm t
  | "string_literal" | "character_literal" => return stringForm t
  | "binary_expression" => binaryForm t
  | "unary_expression" => do
    return .unary (signOf (← childText t "operator")) (.field "operand")
  | "parenthesized_expression" => return .inner .part
  | "method_invocation" => do return .call (← callee t) "arguments" none
  | "field_access" => do return .member (.field "object") (← childText t "field")
  | "array_creation_expression" => return .typedList (.field "value") (typeOf t).toBase
  | "array_initializer" => return .list
  | _ => return .unknown

def expr (t : Tree) : Except ReadError Expr :=
  readExpr exprForm t

/-- A variable of a declaration. Without a value, the type of a local variable is kept for its first
assignment, and a field is unknown. -/
def declarator (isLocal : Bool) (type : DeclaredType) (t : Tree) : Reading (List Stmt) := do
  let name ← childText t "name"
  match t.child? "value" with
  | some value =>
    consumer t
    return [.assign ((Assign.store name (← expr value)).declare type)]
  | none =>
    if isLocal then
      if type ≠ .unknown then postpone name type
      return []
    else return [unknownStmt t]

def declaration (t : Tree) : Reading (List Stmt) := do
  let isLocal : Bool := t.kind = "local_variable_declaration"
  return (← (t.childrenAt "declarator").mapM (declarator isLocal (typeOf t))).flatten

/-- An assignment to a single name. Its type may have been declared before. -/
def assignment (stmt t : Tree) : Reading (List Stmt) := do
  let left ← childAt t "left"
  let operator ← childText t "operator"
  if left.kind ≠ "identifier" || operator ≠ "=" then return [unknownStmt stmt]
  else
    consumer stmt
    let right ← childAt t "right"
    let a := Assign.store left.text (← expr right)
    match ← takePending left.text with
    | some type => return [.assign (a.declare type)]
    | none => return [.assign a]

def expressionStatement (t : Tree) : Reading (List Stmt) := do
  match t.parts with
  | [inner] =>
    if inner.kind = "assignment_expression" then assignment t inner
    else return [.ofExpr (← expr inner)]
  | _ => return [unknownStmt t]

def returnStatement (t : Tree) : Reading (List Stmt) := do
  match t.parts with
  | [] => return [.ret none]
  | value :: _ => return [.ret (some (← expr value))]

def parameter (t : Tree) : Except ReadError (String × BaseType) := do
  return (← childText t "name", (typeOf t).toBase)

def methodHead (t : Tree) : Reading Signature := do
  let name ← childText t "name"
  consumer t
  let params ← childAt t "parameters"
  let formal := params.parts.filter (·.kind = "formal_parameter")
  let params ← formal.mapM fun param => (parameter param : Except ReadError (String × BaseType))
  return typedSignature name params (typeOf t).toBase

def classHead (t : Tree) : Reading (String × List Expr) := do
  let name ← childText t "name"
  let bases := ((t.child? "superclass").map Tree.parts).getD []
  return (name, bases.map fun base => .load base.text)

def stmtForm (t : Tree) : StmtForm :=
  match t.kind with
  | "local_variable_declaration" | "field_declaration" => .simple (declaration t)
  | "method_declaration" => .function (methodHead t) false
  | "class_declaration" => .classDef (classHead t)
  | "expression_statement" => .simple (expressionStatement t)
  | "if_statement" => .cond (do expr (← childAt t "condition"))
  | "return_statement" => .simple (returnStatement t)
  | _ => .simple (return [unknownStmt t])

def grammar : Grammar where
  form := fun _ t => stmtForm t
  blockKind := some "block"
  alternatives := .direct

end Interlingua.Reading.Java

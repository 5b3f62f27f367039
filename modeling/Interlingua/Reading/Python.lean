import Interlingua.Reading.Walk

/-!
# The grammar of Python
-/

namespace Interlingua.Reading.Python

open Text

/-- A type spelled by a single name. -/
def plainType (text : List Char) : DeclaredType :=
  let type : BaseType := match String.ofList text with
    | "str" => .string
    | "int" | "float" | "complex" => .number
    | "None" => .void
    | "Any" | "object" => .any
    | _ => BaseType.ofSpelling text
  if type.isKnown then .base type else .named (String.ofList text)

/-- The base type of a type inside another; composite types have none. -/
def innerType (text : List Char) : BaseType :=
  if '[' ∈ text then .unknown else (plainType (trim text)).toBase

/-- The type an annotation spells. -/
def declaredType (annotated : String) : DeclaredType :=
  let text := trim annotated.toList
  match splitFirst '[' text with
  | none => plainType text
  | some (head, rest) =>
    let inner := (stripBack [']'] rest).getD rest
    match String.ofList (trim head) with
    | "list" | "List" | "Sequence" => .arrayOf (innerType inner)
    | "tuple" | "Tuple" => .tuple ((splitOn ',' inner).map innerType)
    | _ => .named (String.ofList text)

def isInterpolated (t : Tree) : Bool :=
  t.children.any fun c => c.label.named && c.kind = "interpolation"

/-- A comparison of two operands. Chains of comparisons have more children. -/
def comparisonForm (t : Tree) : ExprForm :=
  match t.children with
  | [_, op, _] =>
    match CompareOp.ofSymbol? op.text with
    | some op => .compare (.nth 0) op (.nth 2)
    | none => .unknown
  | _ => .unknown

def exprForm : ExprGrammar := fun t =>
  match t.kind with
  | "identifier" => return .leaf (.load t.text)
  | "true" => return .leaf (.lit (.bool true))
  | "false" => return .leaf (.lit (.bool false))
  | "none" => return .leaf (.lit .null)
  | "integer" | "float" => return numberForm t
  | "string" => return if isInterpolated t then .unknown else stringForm t
  | "binary_operator" => do
    match BinaryOp.arithmetic? (← childText t "operator") with
    | some op => return .binary (.field "left") op (.field "right")
    | none => return .unknown
  | "boolean_operator" => do
    let op := if (← childText t "operator") = "and" then BinaryOp.and else .or
    return .binary (.field "left") op (.field "right")
  | "comparison_operator" => return comparisonForm t
  | "unary_operator" => do
    return .unary (signOf (← childText t "operator")) (.field "argument")
  | "parenthesized_expression" => return .inner .part
  | "call" => return .call (.read (.field "function")) "arguments" (some "argument_list")
  | "attribute" => do return .member (.field "object") (← childText t "attribute")
  | "list" => return .list
  | "tuple" => return .tuple
  | _ => return .unknown

def expr (t : Tree) : Except ReadError Expr :=
  readExpr exprForm t

/-- An assignment to a single name with a value. Declarations without a value and assignments to
anything else are unknown. -/
def assignment (t : Tree) : Reading (List Stmt) := do
  let left ← childAt t "left"
  match t.child? "right" with
  | none => return [unknownStmt t]
  | some right =>
    if left.kind ≠ "identifier" || right.kind = "assignment" then return [unknownStmt t]
    else
      consumer t
      let a := Assign.store left.text (← expr right)
      return [.assign (match t.childText? "type" with
        | some type => a.declare (declaredType type)
        | none => a)]

/-- `x += v` is read as `x = x + v`. -/
def update (t : Tree) : Reading (List Stmt) := do
  let left ← childAt t "left"
  let right ← childAt t "right"
  match updateOp? (← childText t "operator") with
  | none => return [unknownStmt t]
  | some op =>
    if left.kind ≠ "identifier" then return [unknownStmt t]
    else
      consumer t
      return [.assign (.store left.text (.binary (.load left.text) op (← expr right)))]

def expressionStatement (t : Tree) : Reading (List Stmt) := do
  match t.parts with
  | [inner] =>
    match inner.kind with
    | "assignment" => assignment inner
    | "augmented_assignment" => update inner
    | _ => return [.ofExpr (← expr inner)]
  | _ => return [unknownStmt t]

def returnStatement (t : Tree) : Reading (List Stmt) := do
  match t.parts with
  | [] => return [.ret none]
  | value :: _ => return [.ret (some (← expr value))]

/-- The name and type of a parameter, if it is one that can be modelled. -/
def parameter? (t : Tree) : Option (String × BaseType) :=
  let (name, type) := match t.kind with
    | "identifier" => (some t, none)
    | "typed_parameter" => (t.children.find? (·.label.named), t.childText? "type")
    | "default_parameter" | "typed_default_parameter" => (t.child? "name", t.childText? "type")
    | _ => (none, none)
  (name.filter (·.kind = "identifier")).map fun n =>
    (n.text, ((type.map declaredType).getD .unknown).toBase)

/-- The parameters of a function. A method's own object is none of them. -/
def parameters (inClass : Bool) (t : Tree) : List (String × BaseType) :=
  let params := ((t.child? "parameters").map Tree.parts).getD []
  match params.filterMap parameter? with
  | [] => []
  | first :: rest => if inClass && first.1 = "self" then rest else first :: rest

def functionHead (inClass : Bool) (t : Tree) : Reading Signature := do
  let name ← childText t "name"
  consumer t
  let returnType := ((t.childText? "return_type").map declaredType).getD .unknown
  return typedSignature name (parameters inClass t) returnType.toBase

def classHead (t : Tree) : Reading (String × List Expr) := do
  let name ← childText t "name"
  let bases ← ((t.child? "superclasses").map Tree.parts).getD [] |>.mapM fun base => expr base
  return (name, bases)

/-- Statements and definitions that are not modelled. -/
def isStatementKind (kind : String) : Bool :=
  endsWith "_statement".toList kind.toList || endsWith "_definition".toList kind.toList

def stmtForm (inClass : Bool) (t : Tree) : StmtForm :=
  match t.kind with
  | "expression_statement" => .simple (expressionStatement t)
  | "function_definition" => .function (functionHead inClass t) true
  | "class_definition" => .classDef (classHead t)
  | "if_statement" => .cond (do expr (← childAt t "condition"))
  | "return_statement" => .simple (returnStatement t)
  | "assignment" => .simple (assignment t)
  | "augmented_assignment" => .simple (update t)
  | "pass_statement" => .simple (return [])
  | kind =>
    if isStatementKind kind then .simple (return [unknownStmt t])
    else .simple (do return [.ofExpr (← expr t)])

/-- The test of a clause, if it has one. -/
def clauseTest (t : Tree) : Except ReadError (Option Expr) :=
  match t.kind with
  | "elif_clause" => do
    let condition ← childAt t "condition"
    return some (← expr condition)
  | _ => return none

def grammar : Grammar where
  form := stmtForm
  blockKind := none
  alternatives := .clauses clauseTest

end Interlingua.Reading.Python

import Interlingua.Reading.Walk

/-!
# The grammars of JavaScript and TypeScript

The two share their nodes; only in TypeScript do types count.
-/

namespace Interlingua.Reading.Script

open Text

/-- The type an annotation spells, the colon in front of it included. -/
def declaredType (annotated : String) : DeclaredType :=
  let text := trim ((trimStart annotated.toList).dropWhile (· = ':'))
  match (stripFront "Array<".toList text).bind (stripBack ['>']) with
  | some element => .arrayOf (BaseType.ofSpelling element)
  | none => .parse text

/-- The type in a field, where types count. -/
def typeAt? (typed : Bool) (t : Tree) (field : String) : Option DeclaredType :=
  if typed then (t.childText? field).map declaredType else none

def isSubstituted (t : Tree) : Bool :=
  t.parts.any (·.kind = "template_substitution")

def binaryForm (t : Tree) : Except ReadError ExprForm := do
  let symbol ← childText t "operator"
  match BinaryOp.ofSymbol? symbol, CompareOp.ofSymbol? symbol with
  | some op, _ => return .binary (.field "left") op (.field "right")
  | none, some op => return .compare (.field "left") op (.field "right")
  | none, none => return .unknown

def exprForm : ExprGrammar := fun t =>
  match t.kind with
  | "identifier" | "property_identifier" | "this" | "undefined" => return .leaf (.load t.text)
  | "true" => return .leaf (.lit (.bool true))
  | "false" => return .leaf (.lit (.bool false))
  | "null" => return .leaf (.lit .null)
  | "number" => return numberForm t
  | "string" => return stringForm t
  | "template_string" => return if isSubstituted t then .unknown else stringForm t
  | "binary_expression" => binaryForm t
  | "unary_expression" => do
    return .unary (signOf (← childText t "operator")) (.field "argument")
  | "parenthesized_expression" => return .inner .part
  | "call_expression" => return .call (.script (.field "function")) "arguments" (some "arguments")
  | "member_expression" => do return .member (.field "object") (← childText t "property")
  | "array" => return .list
  | _ => return .unknown

def expr (t : Tree) : Except ReadError Expr :=
  readExpr exprForm t

/-- An assignment to a single name. Its type may have been declared before. -/
def assignment (stmt t : Tree) : Reading (List Stmt) := do
  let left ← childAt t "left"
  if left.kind ≠ "identifier" then return [unknownStmt stmt]
  else
    consumer stmt
    let right ← childAt t "right"
    let a := Assign.store left.text (← expr right)
    match ← takePending left.text with
    | some type => return [.assign (a.declare type)]
    | none => return [.assign a]

/-- `x += v` is read as `x = x + v`. -/
def update (stmt t : Tree) : Reading (List Stmt) := do
  let left ← childAt t "left"
  match updateOp? (← childText t "operator") with
  | none => return [unknownStmt stmt]
  | some op =>
    if left.kind ≠ "identifier" then return [unknownStmt stmt]
    else
      consumer stmt
      let right ← childAt t "right"
      return [.assign (.store left.text (.binary (.load left.text) op (← expr right)))]

def expressionStatement (t : Tree) : Reading (List Stmt) := do
  match t.parts with
  | [inner] =>
    match inner.kind with
    | "assignment_expression" => assignment t inner
    | "augmented_assignment_expression" => update t inner
    | _ => return [.ofExpr (← expr inner)]
  | _ => return [unknownStmt t]

/-- A variable with a value is an assignment. One without is no statement, but its type is kept for
its first assignment. -/
def declarator (typed : Bool) (t : Tree) : Reading (List Stmt) := do
  let name ← childAt t "name"
  if name.kind ≠ "identifier" then return [unknownStmt t]
  else
    match t.child? "value" with
    | none =>
      match typeAt? typed t "type" with
      | some type => postpone name.text type
      | none => pure ()
      return []
    | some value =>
      consumer t
      let a := Assign.store name.text (← expr value)
      match typeAt? typed t "type" with
      | some type => return [.assign (a.declare type)]
      | none => return [.assign a]

def declaration (typed : Bool) (t : Tree) : Reading (List Stmt) := do
  let declarators := t.parts.filter (·.kind = "variable_declarator")
  return (← declarators.mapM (declarator typed)).flatten

def returnStatement (t : Tree) : Reading (List Stmt) := do
  match t.parts with
  | [] => return [.ret none]
  | value :: _ => return [.ret (some (← expr value))]

/-- The name and type of a parameter, if it is one that can be modelled. -/
def parameter? (typed : Bool) (t : Tree) : Option (String × BaseType) :=
  let (name, type) := match t.kind with
    | "identifier" => (some t, none)
    | "required_parameter" | "optional_parameter" => (t.child? "pattern", typeAt? typed t "type")
    | "assignment_pattern" => (t.child? "left", none)
    | _ => (none, none)
  (name.filter (·.kind = "identifier")).map fun n => (n.text, (type.getD .unknown).toBase)

def functionHead (typed : Bool) (t : Tree) : Reading Signature := do
  let name ← childText t "name"
  consumer t
  let params ← childAt t "parameters"
  let returnType := (typeAt? typed t "return_type").getD .unknown
  return typedSignature name (params.parts.filterMap (parameter? typed)) returnType.toBase

/-- The bases that a part of a class's heritage names. -/
def heritage (t : Tree) : Except ReadError (List Expr) :=
  match t.kind with
  | "extends_clause" => (t.childrenAt "value").mapM expr
  | "implements_clause" => return []
  | _ => return [← expr t]

def classHead (t : Tree) : Reading (String × List Expr) := do
  let name ← childText t "name"
  let clauses := (t.parts.filter (·.kind = "class_heritage")).flatMap Tree.parts
  let bases ← clauses.mapM fun clause => (heritage clause : Except ReadError (List Expr))
  return (name, bases.flatten)

/-- A field of a class is an assignment if it has a value. -/
def fieldDefinition (typed : Bool) (t : Tree) : Reading (List Stmt) := do
  match t.child? "property" <|> t.child? "name", t.child? "value" with
  | some name, some value =>
    consumer t
    let a := Assign.store name.text (← expr value)
    match typeAt? typed t "type" with
    | some type => return [.assign (a.declare type)]
    | none => return [.assign a]
  | _, _ => return [unknownStmt t]

def memberForm (typed : Bool) (t : Tree) : StmtForm :=
  match t.kind with
  | "method_definition" => .function (functionHead typed t) true
  | "field_definition" | "public_field_definition" => .simple (fieldDefinition typed t)
  | _ => .simple (return [unknownStmt t])

def stmtForm (typed : Bool) (t : Tree) : StmtForm :=
  match t.kind with
  | "expression_statement" => .simple (expressionStatement t)
  | "lexical_declaration" | "variable_declaration" => .simple (declaration typed t)
  | "function_declaration" => .function (functionHead typed t) true
  | "class_declaration" => .classDef (classHead t)
  | "if_statement" => .cond (do expr (← childAt t "condition"))
  | "return_statement" => .simple (returnStatement t)
  | "empty_statement" => .simple (return [])
  | _ => .simple (return [unknownStmt t])

def grammar (typed : Bool) : Grammar where
  form := fun inClass t => if inClass then memberForm typed t else stmtForm typed t
  blockKind := some "statement_block"
  alternatives := .wrapped

end Interlingua.Reading.Script

import Interlingua.Language
import Interlingua.Program.Basic
import Interlingua.Text.Quoted
import Interlingua.Tree

/-!
# Reading parse trees

A grammar says for every node what it is: an expression of some form, or a statement of some form.
One walk over the tree, shared by all grammars, builds the program. On its way it notes the row of
every consumer of records, and keeps the types of variables that are declared without a value until
their first assignment.
-/

namespace Interlingua

inductive ReadError where
  /-- The source is the text that stands for an unreadable one. -/
  | sentinel (language : Language)
  /-- The parser found an error. -/
  | rejected (language : Language)
  /-- A node of this kind lacks a field. -/
  | missing (kind field : String)
  deriving DecidableEq

namespace ReadError

def message : ReadError → String
  | sentinel language => "parse error: sentinel input for " ++ language.name
  | rejected language => "parse error: syntax error in " ++ language.name ++ " source"
  | missing kind field => "parse error: " ++ kind ++ " missing " ++ field

end ReadError

namespace Reading

/-- The child of a node that is read next. -/
inductive Pick where
  /-- The first child that fills a field. -/
  | field (name : String)
  /-- The child at an index. -/
  | nth (index : Nat)
  /-- The first named part. -/
  | part

def Pick.describe : Pick → String
  | field name => name
  | nth index => toString index
  | part => "part"

/-- What an operator with one operand does. -/
inductive Sign where
  | plus
  | minus
  | other

/-- What is called. -/
inductive Callee where
  | known (callee : Expr)
  | read (callee : Pick)
  /-- A child that may be the function that prints, under the name it has in scripts. -/
  | script (callee : Pick)
  | method (object : Pick) (property : String)

/-- The form of an expression node. -/
inductive ExprForm where
  | leaf (e : Expr)
  | unknown
  /-- The child itself, or unknown if there is none. -/
  | inner (child : Pick)
  | unary (sign : Sign) (operand : Pick)
  | binary (left : Pick) (op : BinaryOp) (right : Pick)
  | compare (left : Pick) (op : CompareOp) (right : Pick)
  /-- Both operands are read, but the operator is not known. -/
  | operands (left right : Pick)
  | member (object : Pick) (property : String)
  /-- A call, with the kind its arguments have to be of. -/
  | call (callee : Callee) (arguments : String) (kind : Option String)
  | list
  | tuple
  /-- A list with a declared type for its elements. -/
  | typedList (elements : Pick) (element : BaseType)

/-- A grammar's view of expressions. -/
abbrev ExprGrammar := Tree → Except ReadError ExprForm

def unknownExpr (l : Label) : Expr :=
  .unknown l.describe

def unknownStmt (t : Tree) : Stmt :=
  .unknown t.label.describe

/-- The text of a child that has to be there. -/
def childText (t : Tree) (field : String) : Except ReadError String :=
  match t.childText? field with
  | some text => .ok text
  | none => .error (.missing t.kind field)

def childAt (t : Tree) (field : String) : Except ReadError Tree :=
  match t.child? field with
  | some child => .ok child
  | none => .error (.missing t.kind field)

def numberForm (t : Tree) : ExprForm :=
  match Literal.ofNumeral? t.text.toList with
  | some value => .leaf (.lit value)
  | none => .unknown

def stringForm (t : Tree) : ExprForm :=
  .leaf (.lit (.str (String.ofList (Text.unquote t.text.toList))))

def signOf : String → Sign
  | "+" => .plus
  | "-" => .minus
  | _ => .other

def signed (l : Label) : Sign → Expr → Expr
  | .plus, e => e
  | .minus, .const value _ => (value.negate?.map .lit).getD (unknownExpr l)
  | _, _ => unknownExpr l

/-- The list with a declared type for its elements, if it says what they are. -/
def retype (element : BaseType) : Expr → Expr
  | .list elements own homogeneous =>
    if element.isKnown then .list elements element true else .list elements own homogeneous
  | e => e

/-- The function that prints in scripts, under the name it has in every program. -/
def foldPrint : Expr → Expr
  | .member (.name n) property =>
    if n.id = "console" && property = "log" then .load "print" else .member (.name n) property
  | e => e

/-- An expression that has to be there. -/
def required (l : Label) (p : Pick) : Option Expr → Except ReadError Expr
  | some e => .ok e
  | none => .error (.missing l.kind p.describe)

section

variable (grammar : ExprGrammar)

mutual

/-- Read a node as an expression. -/
def readExpr : Tree → Except ReadError Expr
  | .node l children => do
    match ← grammar (.node l children) with
    | .leaf e => return e
    | .unknown => return unknownExpr l
    | .inner child => return (← pickExpr child children).getD (unknownExpr l)
    | .unary sign operand =>
      return signed l sign (← required l operand (← pickExpr operand children))
    | .binary left op right => do
      let a ← required l left (← pickExpr left children)
      let b ← required l right (← pickExpr right children)
      return .binary a op b
    | .compare left op right => do
      let a ← required l left (← pickExpr left children)
      let b ← required l right (← pickExpr right children)
      return .compare a op b
    | .operands left right => do
      let _ ← required l left (← pickExpr left children)
      let _ ← required l right (← pickExpr right children)
      return unknownExpr l
    | .member object property =>
      return .member (← required l object (← pickExpr object children)) property
    | .call callee arguments kind => do
      let callee ← match callee with
        | .known e => pure e
        | .read p => required l p (← pickExpr p children)
        | .script p => foldPrint <$> required l p (← pickExpr p children)
        | .method p property =>
          (Expr.member · property) <$> required l p (← pickExpr p children)
      match ← argumentsAt arguments kind children with
      | none => throw (.missing l.kind arguments)
      | some none => return unknownExpr l
      | some (some args) => return .call callee args
    | .list => return .listOf (← readExprs children)
    | .tuple => return .tupleOf (← readExprs children)
    | .typedList elements element =>
      return match ← pickExpr elements children with
        | some e => retype element e
        | none => unknownExpr l

/-- Read the parts among the children of a node. -/
def readExprs : List Tree → Except ReadError (List Expr)
  | [] => return []
  | t :: rest =>
    if t.isPart then do
      let e ← readExpr t
      return e :: (← readExprs rest)
    else readExprs rest

/-- Read the child that is picked, if it is there. -/
def pickExpr : Pick → List Tree → Except ReadError (Option Expr)
  | _, [] => return none
  | .field name, t :: rest =>
    if t.fills name then some <$> readExpr t else pickExpr (.field name) rest
  | .part, t :: rest => if t.isPart then some <$> readExpr t else pickExpr .part rest
  | .nth 0, t :: _ => some <$> readExpr t
  | .nth (n + 1), _ :: rest => pickExpr (.nth n) rest

/-- Read the parts of the child in a field, if it is there and of the right kind. -/
def argumentsAt (field : String) (kind : Option String) :
    List Tree → Except ReadError (Option (Option (List Expr)))
  | [] => return none
  | .node l children :: rest =>
    if l.field = some field then
      if kind.all (· = l.kind) then (fun args => some (some args)) <$> readExprs children
      else return some none
    else argumentsAt field kind rest

end

end

end Reading

end Interlingua

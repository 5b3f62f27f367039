import Interlingua.Dict
import Interlingua.Program.Literal

/-!
# Programs

The form that programs of every language are read into and written from. What a reader cannot model
is kept as an unknown statement or expression with a description.
-/

namespace Interlingua

inductive BinaryOp where
  | add
  | sub
  | mul
  | div
  | mod
  | and
  | or
  deriving DecidableEq

namespace BinaryOp

/-- Binding strength: the higher binds tighter. -/
def strength : BinaryOp → Nat
  | or => 1
  | and => 2
  | add | sub => 4
  | mul | div | mod => 5

def symbol : BinaryOp → String
  | add => "+"
  | sub => "-"
  | mul => "*"
  | div => "/"
  | mod => "%"
  | and => "&&"
  | or => "||"

/-- The arithmetic operator with this symbol. -/
def arithmetic? : String → Option BinaryOp
  | "+" => some add
  | "-" => some sub
  | "*" => some mul
  | "/" => some div
  | "%" => some mod
  | _ => none

/-- The arithmetic or logical operator with this symbol. -/
def ofSymbol? : String → Option BinaryOp
  | "&&" => some and
  | "||" => some or
  | symbol => arithmetic? symbol

end BinaryOp

inductive CompareOp where
  | eq
  | notEq
  | lt
  | ltE
  | gt
  | gtE
  deriving DecidableEq

namespace CompareOp

def strength : Nat := 3

def symbol : CompareOp → String
  | eq => "=="
  | notEq => "!="
  | lt => "<"
  | ltE => "<="
  | gt => ">"
  | gtE => ">="

/-- The symbol where equality is written in its strict form. -/
def strictSymbol : CompareOp → String
  | eq => "==="
  | notEq => "!=="
  | op => op.symbol

/-- The comparison with this symbol, the strict forms of equality included. -/
def ofSymbol? : String → Option CompareOp
  | "==" | "===" => some eq
  | "!=" | "!==" => some notEq
  | "<" => some lt
  | "<=" => some ltE
  | ">" => some gt
  | ">=" => some gtE
  | _ => none

end CompareOp

/-- Whether a name is read, written, or declared as a parameter. -/
inductive Role where
  | load
  | store
  | param
  deriving DecidableEq

structure Name where
  id : String
  role : Role
  deriving DecidableEq

inductive Expr where
  | call (callee : Expr) (args : List Expr)
  | name (name : Name)
  | const (value : Literal) (type : BaseType)
  | member (object : Expr) (property : String)
  | binary (left : Expr) (op : BinaryOp) (right : Expr)
  | compare (left : Expr) (op : CompareOp) (right : Expr)
  | list (elements : List Expr) (element : BaseType) (homogeneous : Bool)
  | tuple (elements : List Expr) (types : List BaseType)
  | unknown (description : String)

/-- What is declared of a function: everything but its body. -/
structure Signature where
  name : String
  params : List Name
  returnType : BaseType := .unknown
  paramTypes : Dict BaseType := {}
  /-- Free facts about parameters that travel with the program. -/
  paramFacts : Dict (Dict String) := {}
  deriving DecidableEq

structure Assign where
  target : Name
  value : Expr
  type : BaseType := .unknown

inductive Stmt where
  | expr (value : Expr)
  | print (value : Expr)
  | function (signature : Signature) (body : List Stmt)
  | classDef (name : String) (bases : List Expr) (body : List Stmt)
  | assign (assign : Assign)
  | call (callee : Expr) (args : List Expr)
  | ret (value : Option Expr)
  | cond (test : Expr) (body orelse : List Stmt)
  | unknown (description : String)

structure Program where
  body : List Stmt

/-- A part of a program that can be written on its own. -/
inductive Fragment where
  | program (program : Program)
  | stmt (stmt : Stmt)
  | expr (expr : Expr)

namespace Expr

instance : Inhabited Expr := ⟨unknown ""⟩

/-- A name that is read. -/
def load (id : String) : Expr :=
  name ⟨id, .load⟩

/-- A literal with the type it has by itself. -/
def lit (value : Literal) : Expr :=
  const value value.baseType

/-- The type of a constant, unknown for all else. -/
def constType : Expr → BaseType
  | const _ type => type
  | _ => .unknown

/-- The type that all expressions have as constants, if they share a known one. -/
def sharedType : List Expr → BaseType
  | [] => .unknown
  | e :: es =>
    if e.constType.isKnown && es.all (·.constType = e.constType) then e.constType else .unknown

/-- A list whose element type is the one its constants share. -/
def listOf (elements : List Expr) : Expr :=
  list elements (sharedType elements) (sharedType elements).isKnown

/-- A tuple whose types are those of its constants. -/
def tupleOf (elements : List Expr) : Expr :=
  tuple elements (elements.map constType)

/-- Binding strength of names, calls, literals and all else that needs no parentheses. -/
def atom : Nat := 10

def strength : Expr → Nat
  | binary _ op _ => op.strength
  | compare _ _ _ => CompareOp.strength
  | const value _ => if value.isNegative then 6 else atom
  | _ => atom

/-- The name of what is called, if it is called by a plain name. -/
def calleeName? : Expr → Option String
  | call (name n) _ => some n.id
  | _ => none

end Expr

namespace Signature

def paramNames (f : Signature) : List String :=
  f.params.map Name.id

def hasParam (f : Signature) (id : String) : Bool :=
  f.params.any (·.id = id)

/-- The declared type of a parameter, unknown when there is none. -/
def paramType (f : Signature) (id : String) : BaseType :=
  (f.paramTypes.find? id).getD .unknown

end Signature

namespace Assign

/-- An assignment without a declared type. -/
def store (id : String) (value : Expr) : Assign :=
  { target := ⟨id, .store⟩, value }

/-- The assignment under a declared type. A base type is the variable's; an array or tuple type
is that of a list or tuple value of fitting length. -/
def declare (a : Assign) : DeclaredType → Assign
  | .base type => { a with type }
  | .array element homogeneous =>
    match a.value with
    | .list elements _ _ => { a with value := .list elements element homogeneous }
    | _ => a
  | .tuple types =>
    match a.value with
    | .list elements _ _ | .tuple elements _ =>
      if elements.length = types.length then { a with value := .tuple elements types } else a
    | _ => a
  | .named _ | .unknown => a

end Assign

namespace Stmt

instance : Inhabited Stmt := ⟨unknown ""⟩

def isCond : Stmt → Bool
  | cond _ _ _ => true
  | _ => false

/-- The statement that evaluates an expression. Printing one value is a statement of its own. -/
def ofExpr : Expr → Stmt
  | .call (.name n) [arg] => if n.id = "print" then print arg else call (.name n) [arg]
  | .call callee args => call callee args
  | e => expr e

end Stmt

end Interlingua

import Interlingua.Reading.Basic

/-!
# Reading statements

The walk visits consumers of records in the order in which records are attached: a function before
its body, and the branches of a conditional in the order of the source.
-/

namespace Interlingua

/-- What a walk has noted so far. -/
structure ReadState where
  /-- The rows of the consumers of records. -/
  rows : List Nat := []
  /-- The types of variables that are declared but not yet assigned. -/
  pending : Dict DeclaredType := {}

abbrev Reading := StateT ReadState (Except ReadError)

namespace Reading

/-- Note a node that becomes a function or an assignment. -/
def consumer (t : Tree) : Reading Unit :=
  modify fun st => { st with rows := st.rows ++ [t.label.row] }

/-- Keep the type of a variable for its first assignment. -/
def postpone (id : String) (type : DeclaredType) : Reading Unit :=
  modify fun st => { st with pending := st.pending.insert id type }

/-- Take the type that was kept for a variable. -/
def takePending (id : String) : Reading (Option DeclaredType) :=
  modifyGet fun st => (st.pending.find? id, { st with pending := st.pending.erase id })

/-- The operator of an assignment that updates its variable. -/
def updateOp? : String → Option BinaryOp
  | "+=" => some .add
  | "-=" => some .sub
  | "*=" => some .mul
  | "/=" => some .div
  | "%=" => some .mod
  | _ => none

/-- The signature of a function with these parameters; only known types are kept. -/
def typedSignature (name : String) (params : List (String × BaseType)) (returnType : BaseType) :
    Signature where
  name := name
  params := params.map fun p => ⟨p.1, .param⟩
  returnType := returnType
  paramTypes := Dict.ofList (params.filter (·.2.isKnown))

/-- The form of a statement node. -/
inductive StmtForm where
  /-- Statements without statements inside them. -/
  | simple (read : Reading (List Stmt))
  /-- A function, whose body has to be there or not. -/
  | function (head : Reading Signature) (needsBody : Bool)
  | classDef (head : Reading (String × List Expr))
  | cond (test : Reading Expr)

/-- How the other branches of a conditional stand in the tree. -/
inductive Alternatives where
  /-- The alternative is the branch. -/
  | direct
  /-- The alternative holds the branch as its first part. -/
  | wrapped
  /-- Every alternative is a clause with a block, and all but the last have a test. -/
  | clauses (test : Tree → Except ReadError (Option Expr))

structure Grammar where
  /-- The form of a node, in the body of a class or outside. -/
  form : Bool → Tree → StmtForm
  /-- The kind of blocks, if a branch can also be a single statement. -/
  blockKind : Option String
  alternatives : Alternatives

/-- Whether a branch of this kind is a block. -/
def Grammar.isBlock (g : Grammar) (kind : String) : Bool :=
  g.blockKind.all (· = kind)

/-- Nest clauses in the order of the source, each under the one before it. -/
def nest (clauses : List (Option Expr × List Stmt)) : List Stmt :=
  clauses.foldr (fun (test, body) orelse =>
    match test with
    | some test => [.cond test body orelse]
    | none => body) []

section

variable (g : Grammar)

mutual

def readStmt (inClass : Bool) : Tree → Reading (List Stmt)
  | .node l children => do
    match g.form inClass (.node l children) with
    | .simple read => read
    | .function head needsBody => do
      let signature ← head
      match ← readBlockAt false "body" children with
      | some body => return [.function signature body]
      | none => if needsBody then throw (.missing l.kind "body") else return [.function signature []]
    | .classDef head => do
      let (name, bases) ← head
      match ← readBlockAt true "body" children with
      | some body => return [.classDef name bases body]
      | none => throw (.missing l.kind "body")
    | .cond test => do
      let test ← test
      match ← readBranchAt inClass "consequence" children with
      | none => throw (.missing l.kind "consequence")
      | some body =>
        let orelse ← match g.alternatives with
          | .direct => (·.getD []) <$> readBranchAt inClass "alternative" children
          | .wrapped => readWrapped inClass children
          | .clauses test => nest <$> readClauses inClass test children
        return [.cond test body orelse]

/-- Read the parts among the children of a node. -/
def readBlock (inClass : Bool) : List Tree → Reading (List Stmt)
  | [] => return []
  | t :: rest =>
    if t.isPart then do
      let stmts ← readStmt inClass t
      return stmts ++ (← readBlock inClass rest)
    else readBlock inClass rest

/-- Read the block in a field, if it is there. -/
def readBlockAt (inClass : Bool) (field : String) : List Tree → Reading (Option (List Stmt))
  | [] => return none
  | .node l children :: rest =>
    if l.field = some field then some <$> readBlock inClass children
    else readBlockAt inClass field rest

/-- Read the branch in a field, a block or a single statement, if it is there. -/
def readBranchAt (inClass : Bool) (field : String) : List Tree → Reading (Option (List Stmt))
  | [] => return none
  | .node l children :: rest =>
    if l.field = some field then
      if g.isBlock l.kind then some <$> readBlock inClass children
      else some <$> readStmt inClass (.node l children)
    else readBranchAt inClass field rest

/-- Read the branch that the alternative holds, if there is one. -/
def readWrapped (inClass : Bool) : List Tree → Reading (List Stmt)
  | [] => return []
  | .node l children :: rest =>
    if l.field = some "alternative" then readFirstBranch inClass children
    else readWrapped inClass rest

/-- Read the first part as a branch. -/
def readFirstBranch (inClass : Bool) : List Tree → Reading (List Stmt)
  | [] => return []
  | .node l children :: rest =>
    if (Tree.node l children).isPart then
      if g.isBlock l.kind then readBlock inClass children
      else readStmt inClass (.node l children)
    else readFirstBranch inClass rest

/-- Read every alternative as a clause. -/
def readClauses (inClass : Bool) (test : Tree → Except ReadError (Option Expr)) :
    List Tree → Reading (List (Option Expr × List Stmt))
  | [] => return []
  | .node l children :: rest =>
    if l.field = some "alternative" then do
      let test' ← test (.node l children)
      let field := if test'.isSome then "consequence" else "body"
      match ← readBlockAt inClass field children with
      | none => throw (.missing l.kind field)
      | some body => return (test', body) :: (← readClauses inClass test rest)
    else readClauses inClass test rest

end

end

end Reading

end Interlingua

import Interlingua.Proofs.Syntax.Phrase
import Interlingua.Record.Queue
import Interlingua.Writing.Statement

/-!
# Statements as they are written

A clause is a statement on one or more lines: variables are declared where they are first assigned
or ahead of a branch, an empty body has its filler, and a conditional is the chain of its branches.
A line knows the record of the consumer that starts on it. The clauses of a program are found
without writing it.
-/

namespace Interlingua

mutual

inductive Clause where
  | expr (value : Phrase)
  | assign (record : Record) (declares : Bool) (id : String) (value : Phrase)
  /-- The declaration of a variable without a value. -/
  | declare (id : String)
  | pass
  | ret (value : Option Phrase)
  | function (record : Record) (method : Bool) (name : String) (params : List String)
      (body : List Clause)
  | classDef (name : String) (bases : List Phrase) (body : List Clause)
  | cond (test : Phrase) (body : List Clause) (rest : Alternative)

/-- What follows the first branch of a conditional. -/
inductive Alternative where
  | none
  | elseIf (test : Phrase) (body : List Clause) (rest : Alternative)
  | otherwise (body : List Clause)

end

structure Line where
  depth : Nat
  /-- The text without indentation and record. -/
  text : List Char
  /-- The record of the consumer that starts on the line. -/
  record : Option Record := none

namespace Line

/-- The line without a record. -/
def plain (l : Line) : List Char :=
  List.replicate (4 * l.depth) ' ' ++ l.text

/-- The comment that ends a line with this record, if there is anything to say in it. -/
def comment (mark : List Char) (mode : RecordMode) (record : Option Record) : List Char :=
  match mode, record with
  | .inline, some r => if r.isEmpty then [] else ' ' :: Record.encode mark r
  | _, _ => []

@[simp] theorem comment_none (mark : List Char) (mode : RecordMode) : comment mark mode none = [] := by
  cases mode <;> rfl

/-- The line as it is written in a mode. -/
def shown (mark : List Char) (mode : RecordMode) (l : Line) : List Char :=
  l.plain ++ comment mark mode l.record

end Line

namespace Untyped

/-- What starts a comment. -/
def mark (u : Untyped) : List Char :=
  u.dialect.comment.toList

def terminator : Untyped → List Char
  | python => []
  | javascript => [';']

/-- What ends the header of a block. -/
def opener : Untyped → List Char
  | python => [':']
  | javascript => [' ', '{']

/-- The line that ends a block. -/
def closing (u : Untyped) (depth : Nat) : List Line :=
  match u with
  | python => []
  | javascript => [⟨depth, ['}'], none⟩]

def tested (u : Untyped) (test : Phrase) : List Char :=
  match u with
  | python => test.text u
  | javascript => '(' :: test.text u ++ [')']

/-- What stands before the test of another branch, after the block before it. -/
def elseIf : Untyped → String
  | python => "el"
  | javascript => "\x7d else "

def orElse : Untyped → String
  | python => "else"
  | javascript => "\x7d else"

def functionWord (u : Untyped) (method : Bool) : String :=
  match u with
  | python => "def "
  | javascript => if method then "" else "function "

/-- The bases of a class in its header. JavaScript has room for one. -/
def heritage (u : Untyped) (bases : List (List Char)) : List Char :=
  match u with
  | python => if bases.isEmpty then [] else '(' :: commas bases ++ [')']
  | javascript => (bases.head?.map (" extends ".toList ++ ·)).getD []

end Untyped

section

variable (u : Untyped) (depth : Nat)

mutual

def Clause.lines (depth : Nat) : Clause → List Line
  | .expr value => [⟨depth, value.text u ++ u.terminator, none⟩]
  | .assign record declares id value =>
    [⟨depth, (if declares then "let ".toList else []) ++ id.toList ++ " = ".toList ++ value.text u
      ++ u.terminator, some record⟩]
  | .declare id => [⟨depth, "let ".toList ++ id.toList ++ u.terminator, none⟩]
  | .pass => [⟨depth, "pass".toList, none⟩]
  | .ret none => [⟨depth, "return".toList ++ u.terminator, none⟩]
  | .ret (some value) => [⟨depth, "return ".toList ++ value.text u ++ u.terminator, none⟩]
  | .function record method name params body =>
    ⟨depth, (u.functionWord method).toList ++ name.toList ++ '(' :: commas (params.map String.toList)
      ++ ')' :: u.opener, some record⟩ :: Clause.linesAll (depth + 1) body ++ u.closing depth
  | .classDef name bases body =>
    ⟨depth, "class ".toList ++ name.toList ++ u.heritage (Phrase.texts u bases) ++ u.opener, none⟩
      :: Clause.linesAll (depth + 1) body ++ u.closing depth
  | .cond test body rest =>
    ⟨depth, "if ".toList ++ u.tested test ++ u.opener, none⟩ :: Clause.linesAll (depth + 1) body
      ++ Alternative.lines depth rest

def Alternative.lines (depth : Nat) : Alternative → List Line
  | .none => u.closing depth
  | .elseIf test body rest =>
    ⟨depth, u.elseIf.toList ++ "if ".toList ++ u.tested test ++ u.opener, none⟩ :: Clause.linesAll (depth + 1) body
      ++ Alternative.lines depth rest
  | .otherwise body =>
    ⟨depth, u.orElse.toList ++ u.opener, none⟩ :: Clause.linesAll (depth + 1) body ++ u.closing depth

def Clause.linesAll (depth : Nat) : List Clause → List Line
  | [] => []
  | c :: cs => Clause.lines depth c ++ Clause.linesAll depth cs

end

end

theorem Clause.linesAll_append (u : Untyped) (depth : Nat) (cs ds : List Clause) :
    Clause.linesAll u depth (cs ++ ds) = Clause.linesAll u depth cs ++ Clause.linesAll u depth ds := by
  induction cs with
  | nil => rfl
  | cons c cs ih => simp [Clause.linesAll, ih]

namespace Untyped

/-- Note the variable of an assignment among the names to be declared ahead and all that are
declared, unless it is declared already. In Python there are no declarations. -/
def hoistOne (u : Untyped) (names : List String × List String) (a : Assign) :
    List String × List String :=
  match u with
  | python => names
  | javascript =>
    if a.target.id ∈ names.2 then names
    else (names.1 ++ [a.target.id], a.target.id :: names.2)

/-- The names to be declared ahead of a body, and all that are declared then. -/
def hoist (u : Untyped) (body : List Stmt) (declared : List String) : List String × List String :=
  (escaping body).foldl u.hoistOne ([], declared)

/-- A body with something in it. -/
def block (u : Untyped) (body : List Clause) : List Clause :=
  match u with
  | python => if body.isEmpty then [.pass] else body
  | javascript => body

def paramNames (u : Untyped) (inClass : Bool) (f : Signature) : List String :=
  match u with
  | python => if inClass then "self" :: f.paramNames else f.paramNames
  | javascript => f.paramNames

/-- The clause of an assignment, and the names that are declared after it. -/
def assignClause (u : Untyped) (inClass : Bool) (a : Assign) (declared : List String) :
    Clause × List String :=
  let known := inClass || a.target.id ∈ declared
  (.assign (Record.ofAssign a) (u = javascript && !known) a.target.id (u.phrase a.value),
    if known then declared else a.target.id :: declared)

section

variable (u : Untyped)

mutual

/-- The clause of a modelled statement where some names are declared, and the names that are
declared after it. -/
def clause (inClass : Bool) : Stmt → List String → Clause × List String
  | .expr value, declared => (.expr (u.phrase value), declared)
  | .print value, declared => (.expr (u.phrase (.call (.load "print") [value])), declared)
  | .call callee args, declared => (.expr (u.phrase (.call callee args)), declared)
  | .ret value, declared => (.ret (value.map u.phrase), declared)
  | .assign a, declared => u.assignClause inClass a declared
  | .function f body, declared =>
    let (ahead, inner) := u.hoist body f.paramNames
    (.function (Record.ofSignature f) inClass f.name (u.paramNames inClass f)
      (u.block (ahead.map .declare ++ (clauses false body inner).1)), declared)
  | .classDef name bases body, declared =>
    (.classDef name (u.phrases bases) (u.block (clauses true body []).1), declared)
  | .cond test body orelse, declared =>
    let (first, declared) := clauses inClass body declared
    let (rest, declared) := alternative inClass orelse declared
    (.cond (u.phrase test) (u.block first) rest, declared)
  | .unknown _, declared => (.pass, declared)

def clauses (inClass : Bool) : List Stmt → List String → List Clause × List String
  | [], declared => ([], declared)
  | s :: ss, declared =>
    let (c, declared) := clause inClass s declared
    let (cs, declared) := clauses inClass ss declared
    (c :: cs, declared)

def alternative (inClass : Bool) : List Stmt → List String → Alternative × List String
  | [], declared => (.none, declared)
  | [.cond test body orelse], declared =>
    let (first, declared) := clauses inClass body declared
    let (rest, declared) := alternative inClass orelse declared
    (.elseIf (u.phrase test) (u.block first) rest, declared)
  | s :: ss, declared =>
    let (c, declared) := clause inClass s declared
    let (cs, declared) := clauses inClass ss declared
    (.otherwise (c :: cs), declared)

end

end

/-- An alternative of several statements is no chain. -/
theorem alternative_cons_cons (u : Untyped) (inClass : Bool) (s next : Stmt) (rest : List Stmt)
    (declared : List String) :
    u.alternative inClass (s :: next :: rest) declared =
      (.otherwise (u.clauses inClass (s :: next :: rest) declared).1,
        (u.clauses inClass (s :: next :: rest) declared).2) := by
  cases s <;> rfl

/-- The names to be declared are those of assignments that escape. -/
theorem hoist_forall (u : Untyped) {P : String → Prop} {body : List Stmt}
    (h : ∀ a ∈ escaping body, P a.target.id) (declared : List String) :
    ∀ id ∈ (u.hoist body declared).1, P id := by
  suffices all : ∀ names : List String × List String, (∀ id ∈ names.1, P id) →
      ∀ id ∈ ((escaping body).foldl u.hoistOne names).1, P id from all _ (by simp)
  generalize escaping body = escapes at h
  induction escapes with
  | nil => exact fun _ known => known
  | cons a rest ih =>
    obtain ⟨first, others⟩ := List.forall_mem_cons.1 h
    intro names known
    refine ih others _ ?_
    unfold hoistOne
    grind

/-- The clauses of a program. -/
def program (u : Untyped) (p : Program) : List Clause :=
  let (ahead, declared) := u.hoist p.body []
  ahead.map .declare ++ (u.clauses false p.body declared).1

/-- The lines of a program. -/
def lines (u : Untyped) (p : Program) : List Line :=
  Clause.linesAll u 0 (u.program p)

end Untyped

/-- Whether the statement itself is modelled. -/
def Stmt.isModelled : Stmt → Bool
  | .unknown _ => false
  | _ => true

/-- Whether nothing in the program is unknown. -/
def Program.isModelled (p : Program) : Bool :=
  p.every Expr.isModelled Stmt.isModelled

end Interlingua

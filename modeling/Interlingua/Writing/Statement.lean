import Interlingua.Record.Queue
import Interlingua.Writing.Expression
import Interlingua.Writing.Sheet

/-!
# Writing programs

Statements are written one after the other on a sheet. A dialect with expression bodies writes
functions and conditionals as expressions; all others write blocks.
-/

namespace Interlingua.Dialect

variable (d : Dialect) (mode : RecordMode)

/-- An assignment, which declares its variable when it is new or a field of a class. -/
def writeAssign (a : Assign) (s : Sheet) : Sheet :=
  match d.bodies with
  | .expression =>
    ((s.push ((if s.inClass then "" else "let ") ++ a.target.id ++ " = ")).write
      (exprPieces d a.value)).record d mode (Record.ofAssign a)
  | .statements =>
    let (new, next) := if s.inClass then (true, s) else s.declare a.target.id
    let word := if new then ((d.keyword a s.inClass).map (· ++ " ")).getD "" else ""
    let type := if new then ((d.typeNote a).map (": " ++ ·)).getD "" else ""
    let start := next.push (word ++ a.target.id ++ type ++ " = ")
    ((start.write (exprPieces d a.value)).push d.terminator).record d mode (Record.ofAssign a)

/-- The header of a conditional, and what stands before another branch. -/
def openCond (test : Expr) (s : Sheet) : Sheet :=
  match d.blocks with
  | .braces => ((s.push "if (").write (exprPieces d test)).push ")"
  | .indented => (s.push "if ").write (exprPieces d test)

def openElseIf (s : Sheet) : Sheet :=
  match d.blocks with
  | .braces => s.push " else "
  | .indented => (s.newline d).push "el"

def openElse (s : Sheet) : Sheet :=
  match d.blocks with
  | .braces => s.push " else"
  | .indented => (s.newline d).push "else"

def writeReturn (value : Option Expr) (s : Sheet) : Sheet :=
  let s := s.push "return"
  let s := match value with
    | some e => (s.push " ").write (exprPieces d e)
    | none => s
  s.push d.terminator

mutual

/-- Write a statement, with the notes it owes to its last line. -/
def writeStmt : Stmt → Sheet → Sheet
  | .expr value, s => ((s.write (exprPieces d value)).push d.terminator).flush
  | .print value, s => ((s.write (printPieces d value)).push d.terminator).flush
  | .assign a, s => (writeAssign d mode a s).flush
  | .call callee args, s => ((s.write (exprPieces d (.call callee args))).push d.terminator).flush
  | .ret value, s => (writeReturn d value s).flush
  | .unknown description, s => (s.push (d.unknownStmt description)).flush
  | .function f body, s =>
    match d.bodies with
    | .expression =>
      let start := s.push (" ".intercalate (f.name :: f.paramNames) ++ " = ")
      ((start.write (bodyPieces d body)).record d mode (Record.ofSignature f)).flush
    | .statements =>
      let start := s.push (d.functionHeader f s.inClass)
      (start.within false f.paramNames fun s =>
        (s.declareEscaping d body).block d mode (some (Record.ofSignature f)) body.isEmpty
          fun lead s => writeStmts lead body s).flush
  | .classDef name bases body, s =>
    match d.bodies with
    | .expression =>
      ((s.push ("data " ++ name ++ " = " ++ name)).within true [] fun s =>
        writeStmts "\n" body s).flush
    | .statements =>
      let header := d.classHeader name (bases.map fun base => Piece.text (exprPieces d base))
      ((s.push header).within true [] fun s =>
        s.block d mode none body.isEmpty fun lead s => writeStmts lead body s).flush
  | .cond test body orelse, s =>
    match d.bodies with
    | .expression => (s.write (headPieces d (.cond test body orelse) none)).flush
    | .statements =>
      let s := (openCond d test s).block d mode none body.isEmpty
        fun lead s => writeStmts lead body s
      match orelse with
      | [] => s.flush
      | [alternative] =>
        if alternative.isCond then (writeStmt alternative (openElseIf d s)).flush
        else ((openElse d s).block d mode none false
          fun lead s => writeStmt alternative ((s.push lead).indent d)).flush
      | first :: second :: rest =>
        ((openElse d s).block d mode none false
          fun lead s => writeStmts lead (first :: second :: rest) s).flush

/-- Write statements, each on a line of its own; `lead` stands before the first. -/
def writeStmts (lead : String) : List Stmt → Sheet → Sheet
  | [], s => s
  | stmt :: rest, s => writeStmts "\n" rest (writeStmt stmt ((s.push lead).indent d))

end

def writeProgram (p : Program) (s : Sheet) : Sheet :=
  (s.declareEscaping d p.body).body d "" fun lead s => writeStmts d mode lead p.body s

/-- The text of a program. -/
def render (p : Program) : String :=
  (writeProgram d mode p {}).output

/-- The text of a part of a program. -/
def renderFragment : Fragment → String
  | .program p => render d mode p
  | .stmt s => (writeStmt d mode s {}).output
  | .expr e => ((({} : Sheet).write (exprPieces d e)).flush).output

/-- A text and the records that are not in it. -/
structure Written where
  code : String
  records : List Record

/-- The text of a program without records, and the records of its consumers. -/
def renderApart (p : Program) : Written where
  code := render d .sidecar p
  records := p.gather

end Interlingua.Dialect

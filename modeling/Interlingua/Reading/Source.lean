import Interlingua.Layout
import Interlingua.Reading.Java
import Interlingua.Reading.Python
import Interlingua.Reading.Script
import Interlingua.Record.Comment
import Interlingua.Record.Queue

/-!
# Reading sources

A source is prepared for its parser: record comments are cut off, unless the records are given
apart, and where blocks are marked by indentation it is made regular. The parser itself is a
parameter. What is read from its tree gets the records attached.
-/

namespace Interlingua

/-- A parser: the tree of a prepared source, or nothing if it has an error. -/
abbrev Parser := String → Option Tree

namespace Language

/-- The grammar by which trees of a language are read, if it can be read. -/
def grammar? : Language → Option Reading.Grammar
  | python => some Reading.Python.grammar
  | javascript => some (Reading.Script.grammar false)
  | typescript => some (Reading.Script.grammar true)
  | java => some Reading.Java.grammar
  | haskell => none

/-- What starts a comment. -/
def commentMark (l : Language) : List Char :=
  l.dialect.comment.toList

def indentUnit : List Char :=
  [' ', ' ', ' ', ' ']

/-- Make the indentation regular where it matters. -/
def prepare (l : Language) (code : List Char) : List Char :=
  match l with
  | python => Layout.reindent (some l.commentMark) indentUnit code
  | _ => code

/-- The statements of a tree and the rows of the consumers among them. -/
def readTree (l : Language) (t : Tree) : Except ReadError (Program × List Nat) :=
  match l.grammar? with
  | none => .error (.rejected l)
  | some grammar => do
    let (body, state) ← (Reading.readBlock grammar false t.children).run {}
    return (⟨body⟩, state.rows)

def isSentinel (l : Language) (source : List Char) : Bool :=
  Text.trim source = (sentinel l.name).toList

/-- Parse a prepared source and read its tree. -/
def readPrepared (l : Language) (parse : Parser) (code : List Char) :
    Except ReadError (Program × List Nat) :=
  match parse (String.ofList (l.prepare code)) with
  | some tree => l.readTree tree
  | none => .error (.rejected l)

/-- Read a source with its records in comments. -/
def read (l : Language) (parse : Parser) (source : String) : Except ReadError Program := do
  if l.isSentinel source.toList then throw (.sentinel l)
  let scanned := Record.scan l.commentMark source.toList
  let (program, rows) ← l.readPrepared parse scanned.code
  return (program.attach (.aligned scanned.records rows)).1

/-- Read a source with its records apart. -/
def readWith (l : Language) (parse : Parser) (records : List Record) (source : String) :
    Except ReadError Program := do
  if l.isSentinel source.toList then throw (.sentinel l)
  let (program, _) ← l.readPrepared parse source.toList
  return (program.attach ⟨records⟩).1

end Language

end Interlingua

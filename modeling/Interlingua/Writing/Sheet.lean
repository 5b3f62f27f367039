import Interlingua.Dialect.Basic
import Interlingua.Program.Mentions
import Interlingua.Record.Comment

/-!
# The sheet that is written on

The text so far, with what the next piece of text depends on: the depth of blocks, the variables
declared in each open scope, declarations that are to open the next body, and notes owed to the
end of the line.
-/

namespace Interlingua

structure Sheet where
  output : String := ""
  depth : Nat := 0
  inClass : Bool := false
  /-- The declared variables of the open scopes, the innermost first. -/
  scopes : List (List String) := [[]]
  /-- Declarations that open the next body. -/
  forward : List String := []
  notes : List String := []
  deriving DecidableEq

/-- Where records go: into comments, where the dialect has them there, or to a list apart. -/
inductive RecordMode where
  | inline
  | sidecar
  deriving DecidableEq

namespace Sheet

def push (s : Sheet) (text : String) : Sheet :=
  { s with output := s.output ++ text }

def put (s : Sheet) : Piece → Sheet
  | .token text => s.push text
  | .gap => s.push " "
  | .note text => { s with notes := s.notes ++ [text] }

def write (s : Sheet) (pieces : List Piece) : Sheet :=
  pieces.foldl put s

/-- Write the notes that are owed to the line. -/
def flush (s : Sheet) : Sheet :=
  { s.push (String.join (s.notes.map ("  " ++ ·))) with notes := [] }

def indent (d : Dialect) (s : Sheet) : Sheet :=
  s.push (String.join (List.replicate s.depth d.unit))

def newline (d : Dialect) (s : Sheet) : Sheet :=
  (s.push "\n").indent d

/-- Note a variable in the innermost scope; `true` if it is new there. -/
def declare (s : Sheet) (id : String) : Bool × Sheet :=
  match s.scopes with
  | [] => (true, s)
  | scope :: outer =>
    if id ∈ scope then (false, s) else (true, { s with scopes := (id :: scope) :: outer })

/-- Declare the variable of an assignment ahead of the next body, where that is needed. -/
def declareAhead (d : Dialect) (s : Sheet) (a : Assign) : Sheet :=
  match d.forward a with
  | none => s
  | some line =>
    let (new, s) := s.declare a.target.id
    if new then { s with forward := s.forward ++ [line] } else s

/-- Declare the variables that escape a branch of a body that is to be written. -/
def declareEscaping (d : Dialect) (body : List Stmt) (s : Sheet) : Sheet :=
  (escaping body).foldl (declareAhead d) s

/-- Write in a scope of its own. -/
def within (inClass : Bool) (names : List String) (write : Sheet → Sheet) (s : Sheet) : Sheet :=
  let inner := write { s with inClass, scopes := names :: s.scopes }
  { inner with inClass := s.inClass, scopes := inner.scopes.tail }

/-- End the line with a record, if it is to stand in the text. -/
def record (d : Dialect) (mode : RecordMode) (r : Record) (s : Sheet) : Sheet :=
  let s := s.flush
  if mode = .inline && d.embedsRecords && !r.isEmpty then
    s.push (" " ++ String.ofList (Record.encode d.comment.toList r))
  else s

/-- Write the forward declarations, the first after `lead`. -/
def declarations (d : Dialect) (lead : String) (s : Sheet) : Sheet :=
  match s.forward with
  | [] => s
  | first :: rest =>
    let start := ((({ s with forward := [] }).push lead).indent d).push first
    rest.foldl (fun s line => (s.newline d).push line) start

/-- Write a body, forward declarations first. `lead` stands before its first line, and `write`
takes what stands before the first statement. -/
def body (d : Dialect) (lead : String) (write : String → Sheet → Sheet) (s : Sheet) : Sheet :=
  write (if s.forward.isEmpty then lead else "\n") (s.declarations d lead)

/-- End the header of a block, which may carry a record. -/
def openBlock (d : Dialect) (mode : RecordMode) (header : Option Record) (s : Sheet) : Sheet :=
  let s := s.push (match d.blocks with
    | .braces => " \x7b"
    | .indented => ":")
  let s := match header with
    | some r => s.record d mode r
    | none => s.flush
  { s with depth := s.depth + 1 }

/-- Write what stands in a block without statements. -/
def fill (d : Dialect) (isEmpty : Bool) (s : Sheet) : Sheet :=
  match isEmpty && s.forward.isEmpty, d.filler with
  | true, some filler => (s.newline d).push filler
  | _, _ => s

def closeBlock (d : Dialect) (s : Sheet) : Sheet :=
  let s := { s with depth := s.depth - 1 }
  match d.blocks with
  | .braces => (s.newline d).push "\x7d"
  | .indented => s

/-- Write a block after its header. -/
def block (d : Dialect) (mode : RecordMode) (header : Option Record) (isEmpty : Bool)
    (write : String → Sheet → Sheet) (s : Sheet) : Sheet :=
  (((s.openBlock d mode header).fill d isEmpty).body d "\n" write).closeBlock d

end Sheet

end Interlingua

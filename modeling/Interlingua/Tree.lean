import Interlingua.Text.Blank
import Interlingua.Text.Find

/-!
# Parse trees

The tree an external parser makes of a source. A node knows its kind, whether it is named by the
grammar or a bare token, the field it fills in its parent, its text and the row it starts on.
-/

namespace Interlingua

structure Label where
  kind : String
  named : Bool
  field : Option String
  text : String
  row : Nat
  deriving DecidableEq

inductive Tree where
  | node (label : Label) (children : List Tree)

namespace Label

/-- The characters of a text that a description quotes at most. -/
def excerptLength : Nat := 60

/-- The kind of a node and the beginning of its text on one line. -/
def describe (l : Label) : String :=
  let text := Text.collapse l.text.toList
  l.kind ++ ": " ++ String.ofList (text.take excerptLength)
    ++ if excerptLength < text.length then "..." else ""

def isComment (l : Label) : Bool :=
  Text.endsWith "comment".toList l.kind.toList

end Label

namespace Tree

def label : Tree → Label
  | node label _ => label

def children : Tree → List Tree
  | node _ children => children

def kind (t : Tree) : String :=
  t.label.kind

def text (t : Tree) : String :=
  t.label.text

def fills (t : Tree) (field : String) : Bool :=
  t.label.field = some field

/-- Whether the node is a named part of its parent other than a comment. -/
def isPart (t : Tree) : Bool :=
  t.label.named && !t.label.isComment

def parts (t : Tree) : List Tree :=
  t.children.filter isPart

/-- The first child that fills a field. -/
def child? (t : Tree) (field : String) : Option Tree :=
  t.children.find? (·.fills field)

def childrenAt (t : Tree) (field : String) : List Tree :=
  t.children.filter (·.fills field)

def childText? (t : Tree) (field : String) : Option String :=
  (t.child? field).map text

end Tree

/-- A node as a parser lists it: its extent in bytes and the number of its children, which follow
it with their own. -/
structure Span where
  kind : String
  named : Bool
  field : Option String
  start : Nat
  stop : Nat
  children : Nat

namespace Tree

/-- The positions of the line feeds among the bytes of a source. -/
def lineFeeds (bytes : List UInt8) : List Nat :=
  bytes.zipIdx.filterMap fun (byte, i) => if byte = 10 then some i else none

def labelOf (bytes : ByteArray) (feeds : List Nat) (s : Span) : Label where
  kind := s.kind
  named := s.named
  field := s.field
  text := (String.fromUTF8? (bytes.extract s.start s.stop)).getD ""
  row := feeds.countP (· < s.start)

/-- The trees of a list of nodes in which every node stands before its children. -/
def forest (label : Span → Label) (spans : List Span) : List Tree :=
  spans.foldr (fun s trees => node (label s) (trees.take s.children) :: trees.drop s.children) []

/-- The tree of a source from the list of its nodes. -/
def ofSpans? (source : String) (spans : List Span) : Option Tree :=
  let bytes := source.toUTF8
  (forest (labelOf bytes (lineFeeds bytes.toList)) spans).head?

end Tree

end Interlingua

import Interlingua.Json.Basic
import Interlingua.Tree

/-!
# Parse trees as JSON

An external parser reports its result as an object: `has_error` is true if it found an error, and
otherwise `nodes` lists the nodes of the tree, every node before its children. A node is the list of
its kind, 1 if it is named and else 0, its field or null, the first byte of its extent, the byte
after it, and the number of its children.
-/

namespace Interlingua

def Span.ofJson? : Json → Option Span
  | .arr [.str kind, .int named, field, start, stop, children] => do
    let start ← start.nat?
    let stop ← stop.nat?
    let children ← children.nat?
    return { kind, named := named = 1, field := field.str?, start, stop, children }
  | _ => none

/-- The tree of a source in the report of a parser, unless it found an error. -/
def Tree.ofJson? (report : Json) (source : String) : Option Tree := do
  match report.get? "has_error" with
  | some (.bool false) =>
    let nodes ← (report.get? "nodes").bind Json.arr?
    Tree.ofSpans? source (← nodes.mapM Span.ofJson?)
  | _ => none

end Interlingua

import Interlingua.Program.Basic

/-!
# Variables that escape a branch

A variable that is first assigned inside a branch, and mentioned outside the block of that
assignment, has to be declared ahead of the whole conditional where declarations are local to
blocks. Nested functions and classes look after their own bodies.
-/

namespace Interlingua

section

variable (id : String)

mutual

/-- How often an expression mentions a name. -/
def Expr.mentions : Expr → Nat
  | .name n => if n.id = id then 1 else 0
  | .call callee args => Expr.mentions callee + Expr.mentionsAll args
  | .member object _ => Expr.mentions object
  | .binary left _ right => Expr.mentions left + Expr.mentions right
  | .compare left _ right => Expr.mentions left + Expr.mentions right
  | .list elements _ _ => Expr.mentionsAll elements
  | .tuple elements _ => Expr.mentionsAll elements
  | .const _ _ => 0
  | .unknown _ => 0

def Expr.mentionsAll : List Expr → Nat
  | [] => 0
  | e :: es => Expr.mentions e + Expr.mentionsAll es

end

mutual

/-- How often a statement reads or assigns a name. -/
def Stmt.mentions : Stmt → Nat
  | .expr value => value.mentions id
  | .print value => value.mentions id
  | .ret none => 0
  | .ret (some value) => value.mentions id
  | .assign a => (if a.target.id = id then 1 else 0) + a.value.mentions id
  | .call callee args => callee.mentions id + Expr.mentionsAll id args
  | .cond test body orelse => test.mentions id + Stmt.mentionsAll body + Stmt.mentionsAll orelse
  | .function _ body => Stmt.mentionsAll body
  | .classDef _ bases body => Expr.mentionsAll id bases + Stmt.mentionsAll body
  | .unknown _ => 0

def Stmt.mentionsAll : List Stmt → Nat
  | [] => 0
  | s :: ss => Stmt.mentions s + Stmt.mentionsAll ss

end

end

/-- The names assigned so far, and the first assignments inside branches with their blocks. -/
structure Firsts where
  seen : List String := []
  found : List (Assign × List Stmt) := []

/-- Note an assignment in `block`, or in no branch if there is no block. -/
def Firsts.note (block : Option (List Stmt)) (a : Assign) (st : Firsts) : Firsts :=
  if a.target.id ∈ st.seen then st
  else
    { seen := a.target.id :: st.seen
      found := match block with
        | some block => st.found ++ [(a, block)]
        | none => st.found }

mutual

def Firsts.visit (block : Option (List Stmt)) : Stmt → Firsts → Firsts
  | .assign a, st => st.note block a
  | .cond _ body orelse, st =>
    Firsts.through (some orelse) orelse (Firsts.through (some body) body st)
  | _, st => st

/-- Go through statements of `block`, or of the whole body if there is none. -/
def Firsts.through (block : Option (List Stmt)) : List Stmt → Firsts → Firsts
  | [], st => st
  | s :: rest, st => Firsts.through block rest (Firsts.visit block s st)

end

/-- The first assignments of a body whose variables are mentioned outside their blocks. -/
def escaping (body : List Stmt) : List Assign :=
  let firsts := (Firsts.through none body {}).found
  let escapes := firsts.filter fun (a, block) =>
    Stmt.mentionsAll a.target.id block < Stmt.mentionsAll a.target.id body
  escapes.map Prod.fst

end Interlingua

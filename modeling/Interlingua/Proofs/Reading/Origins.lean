import Interlingua.Proofs.Record.Consumers
import Interlingua.Reading.Walk

/-!
# The nodes that consumers are built from

A reading notes rows as it goes, and nothing in the statements it builds says which row belongs to
which of them. Here the same walk is made without notes, and every function and assignment is built
together with its node. `Follows` relates the two: both succeed or fail alike, with the same
statements, and the rows that are noted are those of the nodes in the order of the consumers.
-/

namespace Interlingua

/-- A statement in which every consumer comes with the node it was built from. -/
inductive Sourced where
  | expr (value : Expr)
  | print (value : Expr)
  | function (origin : Tree) (signature : Signature) (body : List Sourced)
  | classDef (name : String) (bases : List Expr) (body : List Sourced)
  | assign (origin : Tree) (assign : Assign)
  | call (callee : Expr) (args : List Expr)
  | ret (value : Option Expr)
  | cond (test : Expr) (body orelse : List Sourced)
  | unknown (description : String)

namespace Sourced

mutual

/-- The statement without its nodes. -/
def stmt : Sourced → Stmt
  | expr value => .expr value
  | print value => .print value
  | function _ f body => .function f (stmts body)
  | classDef name bases body => .classDef name bases (stmts body)
  | assign _ a => .assign a
  | call callee args => .call callee args
  | ret value => .ret value
  | cond test body orelse => .cond test (stmts body) (stmts orelse)
  | unknown description => .unknown description

def stmts : List Sourced → List Stmt
  | [] => []
  | s :: ss => stmt s :: stmts ss

end

mutual

/-- The consumers in walk order, each after its node. -/
def attributed : Sourced → List (Tree × Stmt)
  | function origin f body => (origin, .function f (stmts body)) :: attributedAll body
  | classDef _ _ body => attributedAll body
  | cond _ body orelse => attributedAll body ++ attributedAll orelse
  | assign origin a => [(origin, .assign a)]
  | _ => []

def attributedAll : List Sourced → List (Tree × Stmt)
  | [] => []
  | s :: ss => attributed s ++ attributedAll ss

end

/-- The nodes of the consumers in walk order. -/
def origins (ss : List Sourced) : List Tree :=
  (attributedAll ss).map Prod.fst

mutual

theorem consumers_stmt (s : Sourced) : s.stmt.consumers = s.attributed.map Prod.snd :=
  match s with
  | function _ _ body => by simp [stmt, Stmt.consumers, attributed, consumers_stmts body]
  | classDef _ _ body => by simp [stmt, Stmt.consumers, attributed, consumers_stmts body]
  | cond _ body orelse => by
    simp [stmt, Stmt.consumers, attributed, consumers_stmts body, consumers_stmts orelse]
  | assign _ _ => rfl
  | expr _ | print _ | call _ _ | ret _ | unknown _ => rfl

theorem consumers_stmts (ss : List Sourced) :
    Stmt.consumersAll (stmts ss) = (attributedAll ss).map Prod.snd :=
  match ss with
  | [] => rfl
  | s :: ss => by
    simp [stmts, Stmt.consumersAll, attributedAll, consumers_stmt s, consumers_stmts ss]

end

@[simp] theorem stmts_append (ss ts : List Sourced) : stmts (ss ++ ts) = stmts ss ++ stmts ts := by
  induction ss with
  | nil => rfl
  | cons s ss ih => simp [stmts, ih]

@[simp] theorem attributedAll_append (ss ts : List Sourced) :
    attributedAll (ss ++ ts) = attributedAll ss ++ attributedAll ts := by
  induction ss with
  | nil => rfl
  | cons s ss ih => simp [attributedAll, ih]

@[simp] theorem origins_nil : origins [] = [] := rfl

@[simp] theorem origins_append (ss ts : List Sourced) :
    origins (ss ++ ts) = origins ss ++ origins ts := by
  simp [origins]

@[simp] theorem stmts_flatten (groups : List (List Sourced)) :
    stmts groups.flatten = (groups.map stmts).flatten := by
  induction groups with
  | nil => rfl
  | cons group groups ih => simp [ih]

@[simp] theorem origins_flatten (groups : List (List Sourced)) :
    origins groups.flatten = groups.flatMap origins := by
  induction groups with
  | nil => rfl
  | cons group groups ih => simp [ih]

mutual

/-- A statement all of whose consumers come from one node. -/
def ofStmt (origin : Tree) : Stmt → Sourced
  | .expr value => expr value
  | .print value => print value
  | .function f body => function origin f (ofStmts origin body)
  | .classDef name bases body => classDef name bases (ofStmts origin body)
  | .assign a => assign origin a
  | .call callee args => call callee args
  | .ret value => ret value
  | .cond test body orelse => cond test (ofStmts origin body) (ofStmts origin orelse)
  | .unknown description => unknown description

def ofStmts (origin : Tree) : List Stmt → List Sourced
  | [] => []
  | s :: ss => ofStmt origin s :: ofStmts origin ss

end

mutual

theorem stmt_ofStmt (origin : Tree) (s : Stmt) : (ofStmt origin s).stmt = s :=
  match s with
  | .function _ body => by simp [ofStmt, stmt, stmts_ofStmts origin body]
  | .classDef _ _ body => by simp [ofStmt, stmt, stmts_ofStmts origin body]
  | .cond _ body orelse => by
    simp [ofStmt, stmt, stmts_ofStmts origin body, stmts_ofStmts origin orelse]
  | .expr _ | .print _ | .assign _ | .call _ _ | .ret _ | .unknown _ => rfl

@[simp] theorem stmts_ofStmts (origin : Tree) (ss : List Stmt) :
    stmts (ofStmts origin ss) = ss :=
  match ss with
  | [] => rfl
  | s :: ss => by simp [ofStmts, stmts, stmt_ofStmt origin s, stmts_ofStmts origin ss]

end

/-- Nest clauses in the order of the source, each under the one before it. -/
def nest (clauses : List (Option Expr × List Sourced)) : List Sourced :=
  clauses.foldr (fun (test, body) orelse =>
    match test with
    | some test => [cond test body orelse]
    | none => body) []

theorem stmts_nest (clauses : List (Option Expr × List Sourced)) :
    stmts (nest clauses) = Reading.nest (clauses.map fun c => (c.1, stmts c.2)) := by
  induction clauses with
  | nil => rfl
  | cons clause rest ih =>
    obtain ⟨test, body⟩ := clause
    cases test with
    | none => rfl
    | some test =>
      simp only [nest, Reading.nest, List.map_cons, List.foldr_cons] at ih ⊢
      simp [stmts, stmt, ih]

/-- Where only the last clause may be without a test, the consumers of nested clauses are those of
the clauses one after the other. -/
theorem origins_nest {clauses : List (Option Expr × List Sourced)}
    (tested : ∀ c ∈ clauses.dropLast, c.1.isSome = true) :
    origins (nest clauses) = clauses.flatMap fun c => origins c.2 := by
  induction clauses with
  | nil => rfl
  | cons clause rest ih =>
    obtain ⟨test, body⟩ := clause
    cases rest with
    | nil => cases test <;> simp [nest, origins, attributedAll, attributed]
    | cons next rest =>
      obtain ⟨test, rfl⟩ := Option.isSome_iff_exists.1 (tested (test, body) (by simp))
      have tail := ih fun c mem => tested c (by simp [List.dropLast, mem])
      have unfolded : nest ((some test, body) :: next :: rest) =
          [cond test body (nest (next :: rest))] := rfl
      rw [unfolded, List.flatMap_cons, ← tail]
      simp [origins, attributedAll, attributed]

end Sourced

end Interlingua

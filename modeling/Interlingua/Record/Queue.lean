import Interlingua.Record.Basic

/-!
# Records in walk order

Records carry no link to their consumers: they are gathered from the functions and assignments of a
program in walk order, and attached again in the same order. The walk visits a function before its
body, and the branches of a conditional one after the other.
-/

namespace Interlingua

/-- Records waiting for their consumers, the next one first. -/
structure Queue where
  records : List Record := []
  deriving DecidableEq

namespace Queue

def push (q : Queue) (r : Record) : Queue :=
  ⟨q.records ++ [r]⟩

def pop (q : Queue) : Option Record × Queue :=
  match q.records with
  | [] => (none, q)
  | r :: rest => (some r, ⟨rest⟩)

def alignedRecords (records : List (Nat × Record)) : List Nat → List Record
  | [] => []
  | row :: rows =>
    (records.reverse.lookup row).getD {} :: alignedRecords (records.filter (·.1 ≠ row)) rows

/-- The queue for consumers on these rows. Each takes the record of its row, which is then used up,
or an empty one; of two records on one row the later holds. -/
def aligned (records : List (Nat × Record)) (rows : List Nat) : Queue :=
  ⟨alignedRecords records rows⟩

end Queue

mutual

def Stmt.gather : Stmt → List Record
  | .function f body => Record.ofSignature f :: Stmt.gatherAll body
  | .classDef _ _ body => Stmt.gatherAll body
  | .cond _ body orelse => Stmt.gatherAll body ++ Stmt.gatherAll orelse
  | .assign a => [Record.ofAssign a]
  | _ => []

def Stmt.gatherAll : List Stmt → List Record
  | [] => []
  | s :: ss => Stmt.gather s ++ Stmt.gatherAll ss

end

/-- One record for every consumer. -/
def Program.gather (p : Program) : List Record :=
  Stmt.gatherAll p.body

mutual

def Stmt.attach : Stmt → Queue → Stmt × Queue
  | .function f body, q =>
    let (record, q) := q.pop
    let f := match record with
      | some r => f.declare r
      | none => f
    let (body, q) := Stmt.attachAll body q
    (.function f body, q)
  | .classDef name bases body, q =>
    let (body, q) := Stmt.attachAll body q
    (.classDef name bases body, q)
  | .cond test body orelse, q =>
    let (body, q) := Stmt.attachAll body q
    let (orelse, q) := Stmt.attachAll orelse q
    (.cond test body orelse, q)
  | .assign a, q =>
    let (record, q) := q.pop
    match record with
    | some r => (.assign (a.declareRecord r), q)
    | none => (.assign a, q)
  | s, q => (s, q)

def Stmt.attachAll : List Stmt → Queue → List Stmt × Queue
  | [], q => ([], q)
  | s :: ss, q =>
    let (s, q) := Stmt.attach s q
    let (ss, q) := Stmt.attachAll ss q
    (s :: ss, q)

end

/-- The program with the records of a queue attached. Consumers without a record are left as they
are, and records without a consumer are dropped: the queue is empty afterwards. -/
def Program.attach (p : Program) (q : Queue) : Program × Queue :=
  (⟨(Stmt.attachAll p.body q).1⟩, {})

end Interlingua

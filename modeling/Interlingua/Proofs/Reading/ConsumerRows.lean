import Interlingua.Proofs.Reading.Tracing
import Interlingua.Reading.Source

/-!
# The rows of consumers

For every language that can be read, the rows that are noted are those of the nodes from which the
functions and assignments of the program are built, in the order in which records are attached.
-/

namespace Interlingua

namespace Reading

open Sourced

theorem follows_allFrom {origin : Tree} {r : Reading (List Stmt)}
    (h : Notes [] r fun ss => origins (ofStmts origin ss)) :
    Follows [] r (allFrom origin r) stmts origins := by
  have mapped : Follows [] (id <$> r) (ofStmts origin <$> unnoted r) stmts origins :=
    h.follows_unnoted.map fun _ ss _ _ => ⟨stmts_ofStmts origin ss, rfl⟩
  simpa [allFrom] using mapped

theorem origins_ofExpr (origin : Tree) (e : Expr) : origins (ofStmts origin [.ofExpr e]) = [] := by
  unfold Stmt.ofExpr
  split
  · split <;> rfl
  · rfl
  · rfl

private theorem follows_mapM {α : Type} {f : α → Reading (List Stmt)}
    {f' : α → Tracing (List Sourced)} (items : List α)
    (h : ∀ item ∈ items, Follows [] (f item) (f' item) stmts origins) :
    Follows [] (items.mapM f) (items.mapM f') (List.map stmts) (List.flatMap origins) := by
  induction items with
  | nil =>
    rw [List.mapM_nil, List.mapM_nil]
    exact Follows.pure (List.map stmts) _ [] rfl
  | cons item rest ih =>
    rw [List.mapM_cons, List.mapM_cons]
    refine (h item List.mem_cons_self).bind fun _ first _ _ => ?_
    have tail := ih fun other mem => h other (List.mem_cons_of_mem _ mem)
    refine (tail.after _).bind fun _ others _ _ => ?_
    exact Follows.pure (List.map stmts) (List.flatMap origins) (first :: others) List.flatMap_cons

private theorem notes_mapM_lift {α β : Type} {before : List Tree} (f : α → Except ReadError β)
    (items : List α) :
    Notes before (items.mapM fun item => (f item : Reading β)) (fun _ => before) := by
  induction items with
  | nil => exact Notes.pure _ _ rfl
  | cons item rest ih =>
    rw [List.mapM_cons]
    exact (Notes.lift _).bind fun _ => ih.bind fun _ => Notes.pure _ _ rfl

/-- Several nodes read one after the other, each the origin of what is built of it. -/
def eachFrom (read : Tree → Reading (List Stmt)) (nodes : List Tree) : Tracing (List Sourced) :=
  List.flatten <$> nodes.mapM fun t => allFrom t (read t)

theorem follows_eachFrom {read : Tree → Reading (List Stmt)} (nodes : List Tree)
    (h : ∀ t, Notes [] (read t) fun ss => origins (ofStmts t ss)) :
    Follows [] (List.flatten <$> nodes.mapM read) (eachFrom read nodes) stmts origins := by
  refine (follows_mapM nodes fun t _ => follows_allFrom (h t)).map fun _ groups _ _ => ?_
  exact ⟨stmts_flatten groups, origins_flatten groups⟩

/-- What a form notes where one node is the origin of all assignments of a statement. -/
def StmtForm.Noted (origin t : Tree) : StmtForm → Prop
  | simple read => Notes [] read fun ss => origins (ofStmts origin ss)
  | function head _ => Notes [] head fun _ => [t]
  | classDef head => Notes [] head fun _ => []
  | cond test => Notes [] test fun _ => []

theorem StmtForm.Noted.traces {form : StmtForm} {origin t : Tree} (h : form.Noted origin t)
    {leaf : Tracing (List Sourced)} (same : ∀ read, form = .simple read → leaf = allFrom origin read) :
    form.Traces t leaf := by
  cases form with
  | simple read =>
    rw [same read rfl]
    exact follows_allFrom h
  | function | classDef | cond => exact h

section

variable {read : Tree → Except ReadError Expr} (origin t : Tree)

theorem notes_value : Notes [] (do return [Stmt.ofExpr (← read t)])
    fun ss => origins (ofStmts origin ss) :=
  (Notes.lift _).bind fun e => Notes.pure _ _ (origins_ofExpr origin e)

theorem notes_return (parts : List Tree) :
    Notes [] (do
        match parts with
        | [] => return [Stmt.ret none]
        | value :: _ => return [Stmt.ret (some (← read value))])
      fun ss => origins (ofStmts origin ss) := by
  cases parts with
  | nil => exact Notes.pure _ _ rfl
  | cons value _ => exact (Notes.lift _).bind fun _ => Notes.pure _ _ rfl

theorem notes_condition : Notes [] (do read (← childAt t "condition")) fun _ => [] :=
  (Notes.lift _).bind fun _ => Notes.lift _

end

namespace Python

/-- The node that an assignment is built from: the part of a statement that only wraps it. -/
def origin (t : Tree) : Tree :=
  if t.kind = "expression_statement" then t.parts.head?.getD t else t

def leaf (inClass : Bool) (t : Tree) : Tracing (List Sourced) :=
  match stmtForm inClass t with
  | .simple read => allFrom (origin t) read
  | _ => return []

/-- Whether all alternatives of a conditional but the last one have tests. -/
def clausesInOrder (t : Tree) : Bool :=
  t.kind ≠ "if_statement" || (t.childrenAt "alternative").dropLast.all (·.kind = "elif_clause")

theorem assignment_notes (t : Tree) :
    Notes [] (assignment t) fun ss => origins (ofStmts t ss) := by
  refine (Notes.lift _).bind fun left => ?_
  split
  · exact Notes.pure _ _ rfl
  · split
    · exact Notes.pure _ _ rfl
    · refine (Notes.consumer t).bind fun _ => ?_
      refine (Notes.lift _).bind fun value => ?_
      exact Notes.pure _ _ rfl

theorem update_notes (t : Tree) : Notes [] (update t) fun ss => origins (ofStmts t ss) := by
  refine (Notes.lift _).bind fun left => ?_
  refine (Notes.lift _).bind fun right => ?_
  refine (Notes.lift _).bind fun operator => ?_
  split
  · exact Notes.pure _ _ rfl
  · split
    · exact Notes.pure _ _ rfl
    · refine (Notes.consumer t).bind fun _ => ?_
      refine (Notes.lift _).bind fun value => ?_
      exact Notes.pure _ _ rfl

theorem expressionStatement_notes (t : Tree) (kind : t.kind = "expression_statement") :
    Notes [] (expressionStatement t) fun ss => origins (ofStmts (origin t) ss) := by
  rw [expressionStatement]
  split
  · rename_i inner parts
    have here : origin t = inner := by simp [origin, kind, parts]
    rw [here]
    split
    · exact assignment_notes inner
    · exact update_notes inner
    · exact notes_value inner inner
  · exact Notes.pure _ _ rfl

theorem functionHead_notes (inClass : Bool) (t : Tree) :
    Notes [] (functionHead inClass t) fun _ => [t] := by
  refine (Notes.lift _).bind fun name => ?_
  refine (Notes.consumer t).bind fun _ => ?_
  exact Notes.pure _ _ rfl

theorem classHead_notes (t : Tree) : Notes [] (classHead t) fun _ => [] := by
  refine (Notes.lift _).bind fun name => ?_
  refine (notes_mapM_lift _ _).bind fun bases => ?_
  exact Notes.pure _ _ rfl

theorem stmtForm_noted (inClass : Bool) (t : Tree) : (stmtForm inClass t).Noted (origin t) t := by
  have own (kind : t.kind ≠ "expression_statement") : origin t = t := if_neg kind
  unfold stmtForm
  split
  · exact expressionStatement_notes t ‹_›
  · exact functionHead_notes inClass t
  · exact classHead_notes t
  · exact notes_condition t
  · exact notes_return _ t.parts
  · rw [own (by simp [*])]
    exact assignment_notes t
  · rw [own (by simp [*])]
    exact update_notes t
  · exact Notes.pure _ _ rfl
  · split
    · exact Notes.pure _ _ rfl
    · exact notes_value _ t

theorem kind_of_cond {inClass : Bool} {t : Tree} {test : Reading Expr}
    (form : stmtForm inClass t = .cond test) : t.kind = "if_statement" := by
  unfold stmtForm at form
  split at form
  · cases form
  · cases form
  · cases form
  · assumption
  · cases form
  · cases form
  · cases form
  · cases form
  · split at form <;> cases form

theorem clauseTest_ne_none {t : Tree} (kind : t.kind = "elif_clause") :
    clauseTest t ≠ .ok none := by
  rw [clauseTest, kind]
  cases childAt t "condition" with
  | error e => simp [bind, Except.bind]
  | ok condition =>
    cases found : expr condition <;> simp [bind, Except.bind, found, pure, Except.pure]

theorem traceable : Traceable grammar leaf clausesInOrder := by
  refine .of_forms (fun inClass t => ?_) ?_
  · exact (stmtForm_noted inClass t).traces fun read form => by simp [leaf, form]
  · intro inClass t condition test form alternatives wf alternative mem
    have kind : t.kind = "if_statement" := kind_of_cond form
    cases alternatives
    have tested : (t.childrenAt "alternative").dropLast.all (·.kind = "elif_clause") = true := by
      simpa [clausesInOrder, kind] using wf
    exact clauseTest_ne_none (by simpa using List.all_eq_true.1 tested alternative mem)

end Python

namespace Script

/-- The variables of a declaration are the origins of their assignments; all other statements are
their own origin. -/
def leaf (typed inClass : Bool) (t : Tree) : Tracing (List Sourced) :=
  if !inClass && (t.kind = "lexical_declaration" || t.kind = "variable_declaration") then
    eachFrom (declarator typed) (t.parts.filter (·.kind = "variable_declarator"))
  else
    match (grammar typed).form inClass t with
    | .simple read => allFrom t read
    | _ => return []

theorem assignment_notes (stmt t : Tree) :
    Notes [] (assignment stmt t) fun ss => origins (ofStmts stmt ss) := by
  refine (Notes.lift _).bind fun left => ?_
  split
  · exact Notes.pure _ _ rfl
  · refine (Notes.consumer stmt).bind fun _ => ?_
    refine (Notes.lift _).bind fun right => ?_
    refine (Notes.lift _).bind fun value => ?_
    refine (Notes.takePending _).bind fun type => ?_
    cases type <;> exact Notes.pure _ _ rfl

theorem update_notes (stmt t : Tree) :
    Notes [] (update stmt t) fun ss => origins (ofStmts stmt ss) := by
  refine (Notes.lift _).bind fun left => ?_
  refine (Notes.lift _).bind fun operator => ?_
  split
  · exact Notes.pure _ _ rfl
  · split
    · exact Notes.pure _ _ rfl
    · refine (Notes.consumer stmt).bind fun _ => ?_
      refine (Notes.lift _).bind fun right => ?_
      refine (Notes.lift _).bind fun value => ?_
      exact Notes.pure _ _ rfl

theorem expressionStatement_notes (t : Tree) :
    Notes [] (expressionStatement t) fun ss => origins (ofStmts t ss) := by
  rw [expressionStatement]
  split
  · rename_i inner _
    split
    · exact assignment_notes t inner
    · exact update_notes t inner
    · exact notes_value t _
  · exact Notes.pure _ _ rfl

theorem declarator_notes (typed : Bool) (t : Tree) :
    Notes [] (declarator typed t) fun ss => origins (ofStmts t ss) := by
  refine (Notes.lift _).bind fun name => ?_
  split
  · exact Notes.pure _ _ rfl
  · split
    · split
      · exact (Notes.postpone _ _).bind fun _ => Notes.pure _ _ rfl
      · exact Notes.pure _ _ rfl
    · refine (Notes.consumer t).bind fun _ => ?_
      refine (Notes.lift _).bind fun value => ?_
      split <;> exact Notes.pure _ _ rfl

theorem fieldDefinition_notes (typed : Bool) (t : Tree) :
    Notes [] (fieldDefinition typed t) fun ss => origins (ofStmts t ss) := by
  rw [fieldDefinition]
  split
  · refine (Notes.consumer t).bind fun _ => ?_
    refine (Notes.lift _).bind fun value => ?_
    split <;> exact Notes.pure _ _ rfl
  · exact Notes.pure _ _ rfl

theorem functionHead_notes (typed : Bool) (t : Tree) :
    Notes [] (functionHead typed t) fun _ => [t] := by
  refine (Notes.lift _).bind fun name => ?_
  refine (Notes.consumer t).bind fun _ => ?_
  refine (Notes.lift _).bind fun params => ?_
  exact Notes.pure _ _ rfl

theorem classHead_notes (t : Tree) : Notes [] (classHead t) fun _ => [] := by
  refine (Notes.lift _).bind fun name => ?_
  refine (notes_mapM_lift _ _).bind fun bases => ?_
  exact Notes.pure _ _ rfl

theorem memberForm_noted (typed : Bool) (t : Tree) : (memberForm typed t).Noted t t := by
  unfold memberForm
  split
  · exact functionHead_notes typed t
  · exact fieldDefinition_notes typed t
  · exact fieldDefinition_notes typed t
  · exact Notes.pure _ _ rfl

theorem stmtForm_noted {typed : Bool} {t : Tree} (notLexical : t.kind ≠ "lexical_declaration")
    (notVariable : t.kind ≠ "variable_declaration") : (stmtForm typed t).Noted t t := by
  unfold stmtForm
  split
  · exact expressionStatement_notes t
  · contradiction
  · contradiction
  · exact functionHead_notes typed t
  · exact classHead_notes t
  · exact notes_condition t
  · exact notes_return t t.parts
  · exact Notes.pure _ _ rfl
  · exact Notes.pure _ _ rfl

theorem stmtForm_traces (typed : Bool) (t : Tree) :
    (stmtForm typed t).Traces t (leaf typed false t) := by
  by_cases declares : t.kind = "lexical_declaration" ∨ t.kind = "variable_declaration"
  · have form : stmtForm typed t = .simple (declaration typed t) := by
      rcases declares with kind | kind <;> simp [stmtForm, kind]
    have each := follows_eachFrom (t.parts.filter (·.kind = "variable_declarator"))
      (declarator_notes typed)
    rw [form]
    simpa [StmtForm.Traces, leaf, declares, declaration] using each
  · obtain ⟨notLexical, notVariable⟩ := not_or.1 declares
    refine (stmtForm_noted notLexical notVariable).traces fun read form => ?_
    simp [leaf, notLexical, notVariable, grammar, form]

theorem traceable (typed : Bool) : Traceable (grammar typed) (leaf typed) fun _ => true := by
  refine .of_forms (fun inClass t => ?_) ?_
  · cases inClass with
    | true => exact (memberForm_noted typed t).traces fun read form => by simp [leaf, grammar, form]
    | false => exact stmtForm_traces typed t
  · rintro inClass t condition test form ⟨⟩

end Script

namespace Java

/-- The variables of a declaration are the origins of their assignments; all other statements are
their own origin. -/
def leaf (_ : Bool) (t : Tree) : Tracing (List Sourced) :=
  if t.kind = "local_variable_declaration" || t.kind = "field_declaration" then
    eachFrom (declarator (t.kind = "local_variable_declaration") (typeOf t))
      (t.childrenAt "declarator")
  else
    match stmtForm t with
    | .simple read => allFrom t read
    | _ => return []

theorem declarator_notes (isLocal : Bool) (type : DeclaredType) (t : Tree) :
    Notes [] (declarator isLocal type t) fun ss => origins (ofStmts t ss) := by
  refine (Notes.lift _).bind fun name => ?_
  split
  · refine (Notes.consumer t).bind fun _ => ?_
    exact (Notes.lift _).bind fun value => Notes.pure _ _ rfl
  · split
    · split
      · exact (Notes.postpone _ _).bind fun _ => Notes.pure _ _ rfl
      · exact Notes.pure _ _ rfl
    · exact Notes.pure _ _ rfl

theorem assignment_notes (stmt t : Tree) :
    Notes [] (assignment stmt t) fun ss => origins (ofStmts stmt ss) := by
  refine (Notes.lift _).bind fun left => ?_
  refine (Notes.lift _).bind fun operator => ?_
  split
  · exact Notes.pure _ _ rfl
  · refine (Notes.consumer stmt).bind fun _ => ?_
    refine (Notes.lift _).bind fun right => ?_
    refine (Notes.lift _).bind fun value => ?_
    refine (Notes.takePending _).bind fun type => ?_
    cases type <;> exact Notes.pure _ _ rfl

theorem expressionStatement_notes (t : Tree) :
    Notes [] (expressionStatement t) fun ss => origins (ofStmts t ss) := by
  rw [expressionStatement]
  split
  · rename_i inner _
    split
    · exact assignment_notes t inner
    · exact notes_value t _
  · exact Notes.pure _ _ rfl

theorem methodHead_notes (t : Tree) : Notes [] (methodHead t) fun _ => [t] := by
  refine (Notes.lift _).bind fun name => ?_
  refine (Notes.consumer t).bind fun _ => ?_
  refine (Notes.lift _).bind fun params => ?_
  refine (notes_mapM_lift _ _).bind fun typed => ?_
  exact Notes.pure _ _ rfl

theorem classHead_notes (t : Tree) : Notes [] (classHead t) fun _ => [] :=
  (Notes.lift _).bind fun _ => Notes.pure _ _ rfl

theorem stmtForm_noted {t : Tree} (notLocal : t.kind ≠ "local_variable_declaration")
    (notField : t.kind ≠ "field_declaration") : (stmtForm t).Noted t t := by
  unfold stmtForm
  split
  · contradiction
  · contradiction
  · exact methodHead_notes t
  · exact classHead_notes t
  · exact expressionStatement_notes t
  · exact notes_condition t
  · exact notes_return t t.parts
  · exact Notes.pure _ _ rfl

theorem stmtForm_traces (inClass : Bool) (t : Tree) :
    (stmtForm t).Traces t (leaf inClass t) := by
  by_cases declares : t.kind = "local_variable_declaration" ∨ t.kind = "field_declaration"
  · have form : stmtForm t = .simple (declaration t) := by
      rcases declares with kind | kind <;> simp [stmtForm, kind]
    have each := follows_eachFrom (t.childrenAt "declarator")
      (declarator_notes (t.kind = "local_variable_declaration") (typeOf t))
    rw [form]
    simpa [StmtForm.Traces, leaf, declares, declaration] using each
  · obtain ⟨notLocal, notField⟩ := not_or.1 declares
    refine (stmtForm_noted notLocal notField).traces fun read form => ?_
    simp [leaf, notLocal, notField, form]

theorem traceable : Traceable grammar leaf fun _ => true := by
  refine .of_forms stmtForm_traces ?_
  rintro inClass t condition test form ⟨⟩

end Java

end Reading

namespace Language

/-- How a language reads statements that hold no others, with the nodes of assignments. -/
def leaf : Language → Bool → Tree → Reading.Tracing (List Sourced)
  | python => Reading.Python.leaf
  | javascript => Reading.Script.leaf false
  | typescript => Reading.Script.leaf true
  | java => Reading.Java.leaf
  | haskell => fun _ _ => return []

/-- What a parser of the language promises of every node: in an `if_statement` of Python all
alternatives but the last one have tests. -/
def wellFormed : Language → Tree → Bool
  | python => Reading.Python.clausesInOrder
  | _ => fun _ => true

/-- The statements of a tree, with the nodes of the consumers among them. -/
def traceTree (l : Language) (t : Tree) : Except ReadError (List Sourced) :=
  match l.grammar? with
  | none => .error (.rejected l)
  | some grammar => (Reading.traceBlock grammar l.leaf false t.children {}).map Prod.fst

theorem traceable {l : Language} {grammar : Reading.Grammar} (h : l.grammar? = some grammar) :
    Reading.Traceable grammar l.leaf l.wellFormed := by
  cases l <;> cases h
  · exact Reading.Python.traceable
  · exact Reading.Script.traceable false
  · exact Reading.Script.traceable true
  · exact Reading.Java.traceable

theorem readTree_eq_traceTree (l : Language) (t : Tree) (wf : t.every l.wellFormed = true) :
    l.readTree t = (l.traceTree t).map fun sourced =>
      (⟨Sourced.stmts sourced⟩, (Sourced.attributedAll sourced).map (·.1.label.row)) := by
  obtain ⟨label, children⟩ := t
  obtain ⟨-, inner⟩ := (Bool.and_eq_true _ _).mp wf
  unfold readTree traceTree
  cases h : l.grammar? with
  | none => rfl
  | some grammar =>
    have run := Reading.readBlock_follows (traceable h) false children inner [] {}
    simp only [List.map_nil, List.append_nil, List.nil_append] at run
    change Except.bind (Reading.readBlock grammar false children {}) _ = _
    rw [run]
    change _ = Except.map _ (Except.map Prod.fst (Reading.traceBlock grammar l.leaf false children {}))
    cases Reading.traceBlock grammar l.leaf false children {} with
    | error e => rfl
    | ok result => simp [Except.bind, Except.map, pure, Except.pure, Sourced.origins]

/-- When a tree is read, one row is noted for every function and assignment of the program, in the
order in which records are gathered and attached, and it is the row of the node that this function
or assignment is built from. -/
theorem consumer_rows (l : Language) (t : Tree) (wf : t.every l.wellFormed = true)
    {p : Program} {rows : List Nat} (h : l.readTree t = .ok (p, rows)) :
    ∃ sourced, l.traceTree t = .ok sourced ∧ p.body = Sourced.stmts sourced ∧
      p.gather = p.consumers.map Stmt.record ∧
      p.consumers = (Sourced.attributedAll sourced).map Prod.snd ∧
      rows = (Sourced.attributedAll sourced).map (·.1.label.row) := by
  rw [readTree_eq_traceTree l t wf] at h
  cases traced : l.traceTree t with
  | error e => simp [traced, Except.map] at h
  | ok sourced =>
    rw [traced] at h
    cases h
    exact ⟨sourced, rfl, rfl, Stmt.gatherAll_eq_consumers _, Sourced.consumers_stmts sourced, rfl⟩

/-- A named node without text of its own. -/
def branch (kind : String) (field : Option String) (row : Nat) (children : List Tree) : Tree :=
  .node ⟨kind, true, field, "", row⟩ children

/-- A named node without children, on the first row. -/
def token (kind : String) (field : Option String) (text : String) : Tree :=
  .node ⟨kind, true, field, text, 0⟩ []

/-- The node of an assignment of `c` to `id`. -/
def assignmentNode (row : Nat) (id : String) : Tree :=
  branch "assignment" none row
    [.node ⟨"identifier", true, some "left", id, row⟩ [],
     .node ⟨"identifier", true, some "right", "c", row⟩ []]

/-- A function whose body is a conditional with three branches. -/
def branchingTree : Tree :=
  branch "module" none 0 [branch "function_definition" none 0
    [.node ⟨"identifier", true, some "name", "f", 0⟩ [],
     branch "block" (some "body") 1 [branch "if_statement" none 1
      [.node ⟨"identifier", true, some "condition", "a", 1⟩ [],
       branch "block" (some "consequence") 2 [assignmentNode 2 "x"],
       branch "elif_clause" (some "alternative") 3
         [.node ⟨"identifier", true, some "condition", "b", 3⟩ [],
          branch "block" (some "consequence") 4 [assignmentNode 4 "y"]],
       branch "else_clause" (some "alternative") 5
         [branch "block" (some "body") 6 [assignmentNode 6 "z"]]]]]]

def branchingProgram : Program :=
  ⟨[.function { name := "f", params := [] } [.cond (.load "a") [.assign (.store "x" (.load "c"))]
    [.cond (.load "b") [.assign (.store "y" (.load "c"))] [.assign (.store "z" (.load "c"))]]]]⟩

theorem consumer_rows_branching :
    branchingTree.every (wellFormed python) = true ∧
    python.readTree branchingTree = .ok (branchingProgram, [0, 2, 4, 6]) ∧
    ∃ sourced, python.traceTree branchingTree = .ok sourced ∧
      branchingProgram.body = Sourced.stmts sourced ∧
      branchingProgram.gather = branchingProgram.consumers.map Stmt.record ∧
      branchingProgram.consumers = (Sourced.attributedAll sourced).map Prod.snd ∧
      [0, 2, 4, 6] = (Sourced.attributedAll sourced).map (·.1.label.row) := by
  have wf : branchingTree.every (wellFormed python) = true := by decide
  have read : python.readTree branchingTree = .ok (branchingProgram, [0, 2, 4, 6]) := rfl
  exact ⟨wf, read, consumer_rows python branchingTree wf read⟩

end Language

end Interlingua

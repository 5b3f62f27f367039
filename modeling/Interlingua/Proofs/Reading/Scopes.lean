import Interlingua.Proofs.Reading.ConsumerRows
import Interlingua.Proofs.Reading.Forward

/-!
# The scope of a declared type

In TypeScript and Java a variable may be declared without a value. Its type is applied to the next
assignment statement to its name in the order of the source, in whatever function body that stands.
The type is sure to stay in its own body only where no other body declares or assigns the name.
-/

namespace Interlingua

namespace Reading

/-- The assignment in an expression statement that is nothing else. -/
def assignmentIn? (t : Tree) : Option Tree :=
  match t.parts with
  | [inner] => if inner.kind = "assignment_expression" then some inner else none
  | _ => none

theorem parts_of_assignmentIn? {t inner : Tree} (found : assignmentIn? t = some inner) :
    t.parts = [inner] ∧ inner.kind = "assignment_expression" := by
  unfold assignmentIn? at found
  split at found
  · split at found
    · cases found
      exact ⟨‹_›, ‹_›⟩
    · cases found
  · cases found

/-- Statements that are not concerned with types from elsewhere. -/
def asRead : StmtForm → Except ReadError (List Loose)
  | .simple read => List.map Loose.stmt <$> still read
  | _ => return []

def StmtForm.Idle : StmtForm → Prop
  | simple read => Reading.Idle read
  | function head _ => Reading.Idle head
  | classDef head => Reading.Idle head
  | cond test => Reading.Idle test

theorem StmtForm.Idle.settled {form : StmtForm} (h : form.Idle) : form.Settled (asRead form) := by
  cases form with
  | simple read => exact fun scope history => Reading.Idle.resolves_stmts h scope
  | function | classDef | cond => exact h

private theorem flatten_mapM_cons {m : Type → Type} [Monad m] [LawfulMonad m] {α β : Type}
    (f : α → m (List β)) (item : α) (rest : List α) :
    List.flatten <$> (item :: rest).mapM f = (do
      let first ← f item
      let others ← List.flatten <$> rest.mapM f
      return first ++ others) := by
  simp [List.mapM_cons]

/-- Several nodes, one after the other. -/
theorem resolves_flatten {read : Tree → Reading (List Stmt)}
    {loose : Tree → Except ReadError (List Loose)} (scope : Nat)
    (h : ∀ t history, Resolves history (read t) (loose t)
      (Loose.resolveAll Event.everywhere scope · history)) (nodes : List Tree)
    (history : List Event) :
    Resolves history (List.flatten <$> nodes.mapM read) (List.flatten <$> nodes.mapM loose)
      (Loose.resolveAll Event.everywhere scope · history) := by
  induction nodes generalizing history with
  | nil =>
    simp only [List.mapM_nil, map_pure, List.flatten_nil]
    exact Resolves.pure _ [] rfl
  | cons t rest ih =>
    rw [flatten_mapM_cons, flatten_mapM_cons]
    refine (h t history).bind fun first => (ih _).bind fun others => ?_
    exact Resolves.pure _ (first ++ others) (Loose.resolveAll_append _ scope first others history)

theorem idle_condition {read : Tree → Except ReadError Expr} (t : Tree) :
    Idle (do read (← childAt t "condition") : Reading Expr) :=
  (Idle.lift _).bind fun _ => Idle.lift _

theorem idle_return {read : Tree → Except ReadError Expr} (parts : List Tree) :
    Idle (do
      match parts with
      | [] => return [Stmt.ret none]
      | value :: _ => return [Stmt.ret (some (← read value))]) := by
  cases parts with
  | nil => exact Idle.pure _
  | cons value _ => exact (Idle.lift _).bind fun _ => Idle.pure _

/-- The last step of an assignment statement: the type that was kept for it is applied. -/
theorem resolves_assigned (scope : Nat) (history : List Event) (a : Assign) :
    Resolves history (do
        match ← takePending a.target.id with
        | some type => return [Stmt.assign (a.declare type)]
        | none => return [Stmt.assign a])
      (pure [.assigned a]) (Loose.resolveAll Event.everywhere scope · history) := by
  intro rows pending tracks
  have ends : Ends (Loose.resolveAll Event.everywhere scope · history) _ (.ok [.assigned a]) :=
    .ok [Loose.assigned a] rows (tracks.assigned scope a.target.id)
  simp only [Loose.resolveAll, Loose.resolve, ← tracks scope a.target.id, List.append_nil] at ends
  have applied : ∀ (type : Option DeclaredType) (state : ReadState),
      (match type with
        | some type => pure [Stmt.assign (a.declare type)]
        | none => pure [Stmt.assign a] : Reading (List Stmt)) state =
      .ok ([Stmt.assign (a.under type)], state) := by
    intro type state
    cases type <;> rfl
  refine Eq.mp (congrArg (Ends _ · _) ?_) ends
  exact (applied (pending.find? a.target.id) _).symm

/-- The last step of a declaration without a value: the type is kept. -/
theorem resolves_declared (scope : Nat) (history : List Event) (id : String) (type : DeclaredType) :
    Resolves history (do
        postpone id type
        return [])
      (pure [.declared id type]) (Loose.resolveAll Event.everywhere scope · history) := by
  intro rows pending tracks
  exact .ok [Loose.declared id type] rows (tracks.declared scope id type)

namespace Script

/-- A variable without a value is declared ahead, if types count. -/
def looseDeclarator (typed : Bool) (t : Tree) : Except ReadError (List Loose) := do
  let name ← childAt t "name"
  if name.kind ≠ "identifier" then return [.stmt (unknownStmt t)]
  else
    match t.child? "value" with
    | none => return ((typeAt? typed t "type").map (Loose.declared name.text)).toList
    | some value =>
      return [.stmt (.assign ((Assign.store name.text (← expr value)).under (typeAt? typed t "type")))]

def looseAssignment (stmt t : Tree) : Except ReadError (List Loose) := do
  let left ← childAt t "left"
  if left.kind ≠ "identifier" then return [.stmt (unknownStmt stmt)]
  else
    let right ← childAt t "right"
    return [.assigned (.store left.text (← expr right))]

def looseLeaf (typed inClass : Bool) (t : Tree) : Except ReadError (List Loose) :=
  if !inClass && (t.kind = "lexical_declaration" || t.kind = "variable_declaration") then
    List.flatten <$> (t.parts.filter (·.kind = "variable_declarator")).mapM (looseDeclarator typed)
  else if !inClass && t.kind = "expression_statement" then
    match assignmentIn? t with
    | some inner => looseAssignment t inner
    | none => asRead ((grammar typed).form inClass t)
  else asRead ((grammar typed).form inClass t)

theorem declarator_resolves (typed : Bool) (scope : Nat) (t : Tree) (history : List Event) :
    Resolves history (declarator typed t) (looseDeclarator typed t)
      (Loose.resolveAll Event.everywhere scope · history) := by
  refine (Resolves.lift _).bind fun name => ?_
  split
  · exact resolves_one (.stmt _) rfl
  · cases t.child? "value" with
    | none =>
      cases typeAt? typed t "type" with
      | none => exact Resolves.pure _ [] rfl
      | some type => exact resolves_declared scope history name.text type
    | some value =>
      refine .consumer t ?_
      refine (Resolves.lift _).bind fun value => ?_
      cases typeAt? typed t "type" <;> exact resolves_one (.stmt _) rfl

theorem assignment_resolves (scope : Nat) (stmt t : Tree) (history : List Event) :
    Resolves history (assignment stmt t) (looseAssignment stmt t)
      (Loose.resolveAll Event.everywhere scope · history) := by
  refine (Resolves.lift _).bind fun left => ?_
  split
  · exact resolves_one (.stmt _) rfl
  · refine .consumer stmt ?_
    refine (Resolves.lift _).bind fun right => ?_
    refine (Resolves.lift _).bind fun value => ?_
    exact resolves_assigned scope history (.store left.text value)

theorem update_idle (stmt t : Tree) : Idle (update stmt t) := by
  refine (Idle.lift _).bind fun left => ?_
  refine (Idle.lift _).bind fun operator => ?_
  split
  · exact Idle.pure _
  · split
    · exact Idle.pure _
    · refine (Idle.consumer stmt).bind fun _ => ?_
      refine (Idle.lift _).bind fun right => ?_
      exact (Idle.lift _).bind fun value => Idle.pure _

theorem expressionStatement_of_assignment {t inner : Tree} (found : assignmentIn? t = some inner) :
    expressionStatement t = assignment t inner := by
  obtain ⟨parts, kind⟩ := parts_of_assignmentIn? found
  simp [expressionStatement, parts, kind]

/-- Only an assignment takes a type that was kept. -/
theorem expressionStatement_idle {t : Tree} (other : assignmentIn? t = none) :
    Idle (expressionStatement t) := by
  unfold assignmentIn? at other
  rw [expressionStatement]
  split
  · rename_i inner parts
    have kind : inner.kind ≠ "assignment_expression" := by simpa [parts] using other
    split
    · contradiction
    · exact update_idle t inner
    · exact (Idle.lift _).bind fun _ => Idle.pure _
  · exact Idle.pure _

theorem fieldDefinition_idle (typed : Bool) (t : Tree) : Idle (fieldDefinition typed t) := by
  rw [fieldDefinition]
  split
  · refine (Idle.consumer t).bind fun _ => ?_
    refine (Idle.lift _).bind fun value => ?_
    split <;> exact Idle.pure _
  · exact Idle.pure _

theorem functionHead_idle (typed : Bool) (t : Tree) : Idle (functionHead typed t) := by
  refine (Idle.lift _).bind fun name => ?_
  refine (Idle.consumer t).bind fun _ => ?_
  exact (Idle.lift _).bind fun params => Idle.pure _

theorem classHead_idle (t : Tree) : Idle (classHead t) := by
  refine (Idle.lift _).bind fun name => ?_
  exact (Idle.mapM _ fun _ => Idle.lift _).bind fun bases => Idle.pure _

theorem memberForm_idle (typed : Bool) (t : Tree) : (memberForm typed t).Idle := by
  unfold memberForm
  split
  · exact functionHead_idle typed t
  · exact fieldDefinition_idle typed t
  · exact fieldDefinition_idle typed t
  · exact Idle.pure _

theorem stmtForm_idle {typed : Bool} {t : Tree} (notExpression : t.kind ≠ "expression_statement")
    (notLexical : t.kind ≠ "lexical_declaration") (notVariable : t.kind ≠ "variable_declaration") :
    (stmtForm typed t).Idle := by
  unfold stmtForm
  split
  · contradiction
  · contradiction
  · contradiction
  · exact functionHead_idle typed t
  · exact classHead_idle t
  · exact idle_condition t
  · exact idle_return t.parts
  · exact Idle.pure _
  · exact Idle.pure _

theorem stmtForm_settled (typed : Bool) (t : Tree) :
    (stmtForm typed t).Settled (looseLeaf typed false t) := by
  by_cases declares : t.kind = "lexical_declaration" ∨ t.kind = "variable_declaration"
  · have form : stmtForm typed t = .simple (declaration typed t) := by
      rcases declares with kind | kind <;> simp [stmtForm, kind]
    rw [form]
    intro scope history
    have parts := resolves_flatten scope (declarator_resolves typed scope)
      (t.parts.filter (·.kind = "variable_declarator")) history
    simpa [looseLeaf, declares, declaration] using parts
  · obtain ⟨notLexical, notVariable⟩ := not_or.1 declares
    by_cases expression : t.kind = "expression_statement"
    · have form : stmtForm typed t = .simple (expressionStatement t) := by
        simp [stmtForm, expression]
      have leaf : looseLeaf typed false t = match assignmentIn? t with
          | some inner => looseAssignment t inner
          | none => asRead (.simple (expressionStatement t)) := by
        rw [← form]
        simp [looseLeaf, expression]
        rfl
      rw [form, leaf]
      cases found : assignmentIn? t with
      | none => exact StmtForm.Idle.settled (expressionStatement_idle found)
      | some inner =>
        rw [expressionStatement_of_assignment found]
        exact fun scope history => assignment_resolves scope t inner history
    · have leaf : looseLeaf typed false t = asRead (stmtForm typed t) := by
        simp [looseLeaf, notLexical, notVariable, expression]
        rfl
      rw [leaf]
      exact (stmtForm_idle expression notLexical notVariable).settled

theorem forward (typed : Bool) : Forward (grammar typed) (looseLeaf typed) where
  form inClass t := by
    cases inClass with
    | true => exact (memberForm_idle typed t).settled
    | false => exact stmtForm_settled typed t
  clauses := by
    rintro test ⟨⟩

end Script

namespace Java

/-- A local variable without a value is declared ahead, unless nothing is known of its type. -/
def looseDeclarator (isLocal : Bool) (type : DeclaredType) (t : Tree) :
    Except ReadError (List Loose) := do
  let name ← childText t "name"
  match t.child? "value" with
  | some value => return [.stmt (.assign ((Assign.store name (← expr value)).declare type))]
  | none =>
    if isLocal then return if type ≠ .unknown then [.declared name type] else []
    else return [.stmt (unknownStmt t)]

def looseAssignment (stmt t : Tree) : Except ReadError (List Loose) := do
  let left ← childAt t "left"
  let operator ← childText t "operator"
  if left.kind ≠ "identifier" || operator ≠ "=" then return [.stmt (unknownStmt stmt)]
  else
    let right ← childAt t "right"
    return [.assigned (.store left.text (← expr right))]

def looseLeaf (_ : Bool) (t : Tree) : Except ReadError (List Loose) :=
  if t.kind = "local_variable_declaration" || t.kind = "field_declaration" then
    List.flatten <$> (t.childrenAt "declarator").mapM
      (looseDeclarator (t.kind = "local_variable_declaration") (typeOf t))
  else if t.kind = "expression_statement" then
    match assignmentIn? t with
    | some inner => looseAssignment t inner
    | none => asRead (stmtForm t)
  else asRead (stmtForm t)

theorem declarator_resolves (isLocal : Bool) (type : DeclaredType) (scope : Nat) (t : Tree)
    (history : List Event) :
    Resolves history (declarator isLocal type t) (looseDeclarator isLocal type t)
      (Loose.resolveAll Event.everywhere scope · history) := by
  refine (Resolves.lift _).bind fun name => ?_
  cases t.child? "value" with
  | some value =>
    refine .consumer t ?_
    exact (Resolves.lift _).bind fun value => resolves_one (.stmt _) rfl
  | none =>
    cases isLocal with
    | false => exact resolves_one (.stmt _) rfl
    | true =>
      by_cases unknown : type = .unknown
      · simp only [if_true, unknown, ne_eq, not_true_eq_false, if_false]
        exact Resolves.pure _ [] rfl
      · simp only [if_true, unknown, ne_eq, not_false_eq_true]
        exact resolves_declared scope history name type

theorem assignment_resolves (scope : Nat) (stmt t : Tree) (history : List Event) :
    Resolves history (assignment stmt t) (looseAssignment stmt t)
      (Loose.resolveAll Event.everywhere scope · history) := by
  refine (Resolves.lift _).bind fun left => ?_
  refine (Resolves.lift _).bind fun operator => ?_
  split
  · exact resolves_one (.stmt _) rfl
  · refine .consumer stmt ?_
    refine (Resolves.lift _).bind fun right => ?_
    refine (Resolves.lift _).bind fun value => ?_
    exact resolves_assigned scope history (.store left.text value)

theorem expressionStatement_of_assignment {t inner : Tree} (found : assignmentIn? t = some inner) :
    expressionStatement t = assignment t inner := by
  obtain ⟨parts, kind⟩ := parts_of_assignmentIn? found
  simp [expressionStatement, parts, kind]

theorem expressionStatement_idle {t : Tree} (other : assignmentIn? t = none) :
    Idle (expressionStatement t) := by
  unfold assignmentIn? at other
  rw [expressionStatement]
  split
  · rename_i inner parts
    have kind : inner.kind ≠ "assignment_expression" := by simpa [parts] using other
    rw [if_neg kind]
    exact (Idle.lift _).bind fun _ => Idle.pure _
  · exact Idle.pure _

theorem methodHead_idle (t : Tree) : Idle (methodHead t) := by
  refine (Idle.lift _).bind fun name => ?_
  refine (Idle.consumer t).bind fun _ => ?_
  refine (Idle.lift _).bind fun params => ?_
  exact (Idle.mapM _ fun _ => Idle.lift _).bind fun typed => Idle.pure _

theorem classHead_idle (t : Tree) : Idle (classHead t) :=
  (Idle.lift _).bind fun _ => Idle.pure _

theorem stmtForm_idle {t : Tree} (notExpression : t.kind ≠ "expression_statement")
    (notLocal : t.kind ≠ "local_variable_declaration") (notField : t.kind ≠ "field_declaration") :
    (stmtForm t).Idle := by
  unfold stmtForm
  split
  · contradiction
  · contradiction
  · exact methodHead_idle t
  · exact classHead_idle t
  · contradiction
  · exact idle_condition t
  · exact idle_return t.parts
  · exact Idle.pure _

theorem stmtForm_settled (inClass : Bool) (t : Tree) :
    (stmtForm t).Settled (looseLeaf inClass t) := by
  by_cases declares : t.kind = "local_variable_declaration" ∨ t.kind = "field_declaration"
  · have form : stmtForm t = .simple (declaration t) := by
      rcases declares with kind | kind <;> simp [stmtForm, kind]
    rw [form]
    intro scope history
    have parts := resolves_flatten scope
      (declarator_resolves (t.kind = "local_variable_declaration") (typeOf t) scope)
      (t.childrenAt "declarator") history
    simpa [looseLeaf, declares, declaration] using parts
  · obtain ⟨notLocal, notField⟩ := not_or.1 declares
    by_cases expression : t.kind = "expression_statement"
    · have form : stmtForm t = .simple (expressionStatement t) := by
        simp [stmtForm, expression]
      have leaf : looseLeaf inClass t = match assignmentIn? t with
          | some inner => looseAssignment t inner
          | none => asRead (.simple (expressionStatement t)) := by
        simp [looseLeaf, expression, form]
      rw [form, leaf]
      cases found : assignmentIn? t with
      | none => exact StmtForm.Idle.settled (expressionStatement_idle found)
      | some inner =>
        rw [expressionStatement_of_assignment found]
        exact fun scope history => assignment_resolves scope t inner history
    · have leaf : looseLeaf inClass t = asRead (stmtForm t) := by
        simp [looseLeaf, notLocal, notField, expression]
      rw [leaf]
      exact (stmtForm_idle expression notLocal notField).settled

theorem forward : Forward grammar looseLeaf where
  form := stmtForm_settled
  clauses := by
    rintro test ⟨⟩

end Java

end Reading

namespace Language

/-- How a language with types reads statements that hold no others, with declarations in their
places. -/
def looseLeaf? : Language → Option (Bool → Tree → Except ReadError (List Loose))
  | typescript => some (Reading.Script.looseLeaf true)
  | java => some Reading.Java.looseLeaf
  | _ => none

/-- The statements of a tree with declarations in their places. -/
def looseTree (l : Language) (t : Tree) : Except ReadError (List Loose) :=
  match l.grammar?, l.looseLeaf? with
  | some grammar, some leaf => Reading.looseBlock grammar leaf false t.children
  | _, _ => .error (.rejected l)

theorem forward {l : Language} {grammar : Reading.Grammar}
    {leaf : Bool → Tree → Except ReadError (List Loose)} (readable : l.grammar? = some grammar)
    (typed : l.looseLeaf? = some leaf) : Reading.Forward grammar leaf := by
  cases l <;> cases readable <;> cases typed
  · exact Reading.Script.forward true
  · exact Reading.Java.forward

/-- Reading a tree is to resolve its loose statements. -/
theorem readTree_resolves {l : Language} {grammar : Reading.Grammar}
    {leaf : Bool → Tree → Except ReadError (List Loose)} (readable : l.grammar? = some grammar)
    (typed : l.looseLeaf? = some leaf) {t : Tree} {p : Program} {rows : List Nat}
    (h : l.readTree t = .ok (p, rows)) :
    ∃ ss, l.looseTree t = .ok ss ∧ p.body = (Loose.resolveAll Event.everywhere 0 ss []).1 := by
  have ends := Reading.readBlock_resolves (forward readable typed) false t.children 0 [] [] {} .nil
  rw [readTree, readable] at h
  change Except.bind (Reading.readBlock grammar false t.children ⟨[], {}⟩) _ = _ at h
  simp only [looseTree, readable, typed]
  generalize Reading.readBlock grammar false t.children ⟨[], {}⟩ = found at h ends
  generalize Reading.looseBlock grammar leaf false t.children = loose at ends ⊢
  cases ends with
  | error e => cases h
  | ok ss rows' tracks =>
    cases h
    exact ⟨ss, rfl, rfl⟩

/-- A type that is declared ahead is applied to the next assignment statement to its name in the
order of the source, whatever function body the two stand in. It stays in its own body if no name
that is declared ahead occurs in two bodies. -/
theorem forward_types {l : Language} (typed : l = typescript ∨ l = java) {t : Tree} {p : Program}
    {rows : List Nat} (h : l.readTree t = .ok (p, rows)) :
    ∃ ss, l.looseTree t = .ok ss ∧
      p.body = (Loose.resolveAll Event.everywhere 0 ss []).1 ∧
      (Event.apart (Loose.resolveAll Event.everywhere 0 ss []).2 = true →
        p.body = (Loose.resolveAll Event.inBody 0 ss []).1) := by
  obtain ⟨ss, loose, body⟩ : ∃ ss, l.looseTree t = .ok ss ∧
      p.body = (Loose.resolveAll Event.everywhere 0 ss []).1 := by
    rcases typed with rfl | rfl <;> exact readTree_resolves rfl rfl h
  refine ⟨ss, loose, body, fun apart => ?_⟩
  rw [body, Loose.resolveAll_inBody apart 0 ss [] fun _ mem => mem]

/-- A declaration of `id` without a value. -/
def forwardNode (id type : String) : Tree :=
  branch "lexical_declaration" none 0 [branch "variable_declarator" none 0
    [token "identifier" (some "name") id, token "type_annotation" (some "type") type]]

/-- An assignment statement that gives `id` the value of a token. -/
def assignedNode (id kind text : String) : Tree :=
  branch "expression_statement" none 0 [branch "assignment_expression" none 0
    [token "identifier" (some "left") id, token kind (some "right") text]]

/-- A function of one parameter. -/
def functionNode (name param : String) (body : List Tree) : Tree :=
  branch "function_declaration" none 0
    [token "identifier" (some "name") name,
     branch "formal_parameters" (some "parameters") 0
       [branch "required_parameter" none 0 [token "identifier" (some "pattern") param]],
     branch "statement_block" (some "body") 0 body]

/-- Two functions that declare different variables ahead, one of them assigned in a branch. -/
def keptTree : Tree :=
  branch "program" none 0
    [functionNode "f" "a"
      [forwardNode "x" ": number",
       branch "if_statement" none 0
         [token "identifier" (some "condition") "a",
          branch "statement_block" (some "consequence") 0 [assignedNode "x" "number" "1"]],
       assignedNode "x" "number" "2"],
     functionNode "g" "b" [forwardNode "y" ": string", assignedNode "y" "string" "'s'"]]

def keptProgram : Program :=
  ⟨[.function { name := "f", params := [⟨"a", .param⟩] }
      [.cond (.load "a")
        [.assign { target := ⟨"x", .store⟩, value := .lit (.int 1), type := .number }] [],
       .assign (.store "x" (.lit (.int 2)))],
    .function { name := "g", params := [⟨"b", .param⟩] }
      [.assign { target := ⟨"y", .store⟩, value := .lit (.str "s"), type := .string }]]⟩

theorem forward_types_kept :
    typescript.readTree keptTree = .ok (keptProgram, [0, 0, 0, 0, 0]) ∧
    ∃ ss, typescript.looseTree keptTree = .ok ss ∧
      keptProgram.body = (Loose.resolveAll Event.inBody 0 ss []).1 := by
  have read : typescript.readTree keptTree = .ok (keptProgram, [0, 0, 0, 0, 0]) := rfl
  obtain ⟨ss, loose, -, kept⟩ := forward_types (.inl rfl) read
  refine ⟨read, ss, loose, kept ?_⟩
  cases loose
  decide

/-- A function that declares a variable ahead, and another one with a parameter of the same name. -/
def leakingTree : Tree :=
  branch "program" none 0
    [functionNode "f" "a" [forwardNode "x" ": number"],
     functionNode "g" "x" [assignedNode "x" "string" "'a'"]]

/-- The type leaves its function, and is applied to the parameter of the other one. -/
theorem forward_types_leaking :
    ∃ p rows ss, typescript.readTree leakingTree = .ok (p, rows) ∧
      typescript.looseTree leakingTree = .ok ss ∧
      p.body ≠ (Loose.resolveAll Event.inBody 0 ss []).1 := by
  refine ⟨_, _, _, rfl, rfl, fun same => ?_⟩
  have records := congrArg Stmt.gatherAll same
  revert records
  decide

end Language

end Interlingua

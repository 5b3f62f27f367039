import Interlingua.Proofs.Reading.ConsumerRows
import Interlingua.Proofs.Reading.Ensuring

/-!
# What is read is normal

The grammars of all languages that can be read give normal forms, and the records that are found in
comments hold types that are spelled there. So a program is normal from whatever tree it is read, and
in whichever way its records travel.
-/

namespace Interlingua

namespace Reading

open DeclaredType

theorem numberMeets_isNormal (t : Tree) : NumberMeets Expr.isNormal t :=
  fun value _ => by simp [Expr.lit, Expr.isNormal]

theorem typedSignature_isNormal (name : String) (params : List (String × BaseType))
    (returnType : BaseType) : (typedSignature name params returnType).isNormal = true := by
  simp only [Signature.isNormal, Signature.declaresParams, Bool.and_eq_true, List.all_eq_true]
  refine ⟨?_, ?_, by simp [typedSignature]⟩
  · intro param mem
    obtain ⟨_, _, rfl⟩ := List.mem_map.1 mem
    rfl
  · refine Dict.forall_foldl_insert (by simp) fun p mem => ?_
    simp only [typedSignature, Signature.hasParam, List.any_map, List.any_eq_true]
    exact ⟨p, (List.mem_filter.1 mem).1, by simp⟩

/-- One assignment is all that is read. -/
theorem ensures_assign {a : Assign} (h : a.Normal) :
    Ensures (pure [Stmt.assign a])
      fun ss => Stmt.everyAll Expr.isNormal Stmt.isNormal ss = true :=
  Ensures.pure ((Bool.and_eq_true _ _).mpr ⟨h, rfl⟩)

theorem ensures_flatten {nodes : List Tree} {read : Tree → Reading (List Stmt)}
    (h : ∀ t, Ensures (read t) fun ss => Stmt.everyAll Expr.isNormal Stmt.isNormal ss = true) :
    Ensures (do return (← nodes.mapM read).flatten)
      fun ss => Stmt.everyAll Expr.isNormal Stmt.isNormal ss = true := by
  refine (Ensures.judgement.mapM nodes h).bind fun groups all => Ensures.pure ?_
  refine (Stmt.everyAll_iff _ _ _).2 fun s mem => ?_
  obtain ⟨group, listed, mem⟩ := List.mem_flatten.1 mem
  exact (Stmt.everyAll_iff _ _ _).1 (all group listed) s mem

/-- An assignment is under the type that was declared ahead for it, if there is one. -/
theorem ensures_pending {a : Assign} (h : a.Normal) (id : String) :
    Ensures (do
        match ← takePending id with
        | some type => return [Stmt.assign (a.declare type)]
        | none => return [Stmt.assign a])
      fun ss => Stmt.everyAll Expr.isNormal Stmt.isNormal ss = true := by
  refine (Ensures.takePending id).bind fun type spelled => ?_
  cases type with
  | none => exact ensures_assign h
  | some type => exact ensures_assign (Assign.normal_declare h (spelled type rfl))

section

variable {read : Tree → Except ReadError Expr}
  (normal : ∀ t, Gives (read t) fun e => e.every Expr.isNormal = true)

include normal

theorem ensures_value (t : Tree) :
    Ensures (do return [Stmt.ofExpr (← read t)])
      fun ss => Stmt.everyAll Expr.isNormal Stmt.isNormal ss = true :=
  (Ensures.lift (normal t)).bind fun _ own =>
    Ensures.pure ((Bool.and_eq_true _ _).mpr ⟨Stmt.every_ofExpr own, rfl⟩)

theorem ensures_return (parts : List Tree) :
    Ensures (do
        match parts with
        | [] => return [Stmt.ret none]
        | value :: _ => return [Stmt.ret (some (← read value))])
      fun ss => Stmt.everyAll Expr.isNormal Stmt.isNormal ss = true := by
  cases parts with
  | nil => exact Ensures.pure rfl
  | cons value _ =>
    refine (Ensures.lift (normal value)).bind fun e own => Ensures.pure ?_
    simp [Stmt.everyAll, Stmt.every, Stmt.isNormal, own]

theorem condition_normal (t : Tree) :
    (StmtForm.cond (do read (← childAt t "condition"))).Normal :=
  (Ensures.lift (Gives.any _)).bind fun _ _ => Ensures.lift (normal _)

end

namespace Python

theorem spelled_plainType (text : List Char) : Spelled (plainType text) :=
  spelled_of_known _ _

theorem spelled_declaredType (annotated : String) : Spelled (declaredType annotated) := by
  simp only [declaredType]
  split
  · exact spelled_plainType _
  · split
    · exact .arrayOf _
    · exact .arrayOf _
    · exact .arrayOf _
    · exact spelled_split _ _ _
    · exact spelled_split _ _ _
    · exact .named _

theorem exprForm_normal (t : Tree) : Gives (exprForm t) fun form => form.isNormal = true :=
  fun form found => form.meets_isNormal.symm.trans
    (exprForm_meets keeps_isNormal (fun _ => numberMeets_isNormal t) form found)

theorem expr_normal (t : Tree) : Gives (expr t) fun e => e.every Expr.isNormal = true :=
  readExpr_normal exprForm_normal t

theorem assignment_normal (t : Tree) : (StmtForm.simple (assignment t)).Normal := by
  refine (Ensures.lift (Gives.any _)).bind fun left _ => ?_
  split
  · exact Ensures.pure rfl
  · split
    · exact Ensures.pure rfl
    · refine (Ensures.consumer t).bind fun _ _ => ?_
      refine (Ensures.lift (expr_normal _)).bind fun e own => ensures_assign ?_
      split
      · exact Assign.normal_declare (Assign.normal_store own _) (spelled_declaredType _)
      · exact Assign.normal_store own _

theorem update_normal (t : Tree) : (StmtForm.simple (update t)).Normal := by
  refine (Ensures.lift (Gives.any _)).bind fun left _ => ?_
  refine (Ensures.lift (Gives.any _)).bind fun right _ => ?_
  refine (Ensures.lift (Gives.any _)).bind fun operator _ => ?_
  split
  · exact Ensures.pure rfl
  · split
    · exact Ensures.pure rfl
    · refine (Ensures.consumer t).bind fun _ _ => ?_
      refine (Ensures.lift (expr_normal _)).bind fun e own => ensures_assign ?_
      exact Assign.normal_store own _

theorem expressionStatement_normal (t : Tree) : (StmtForm.simple (expressionStatement t)).Normal := by
  rw [expressionStatement]
  split
  · split
    · exact assignment_normal _
    · exact update_normal _
    · exact ensures_value expr_normal _
  · exact Ensures.pure rfl

theorem functionHead_normal (inClass : Bool) (t : Tree) (needsBody : Bool) :
    (StmtForm.function (functionHead inClass t) needsBody).Normal := by
  refine (Ensures.lift (Gives.any _)).bind fun name _ => ?_
  refine (Ensures.consumer t).bind fun _ _ => ?_
  exact Ensures.pure (typedSignature_isNormal _ _ _)

theorem classHead_normal (t : Tree) : (StmtForm.classDef (classHead t)).Normal := by
  refine (Ensures.lift (Gives.any _)).bind fun name _ => ?_
  refine (Ensures.judgement.mapM _ fun base => Ensures.lift (expr_normal base)).bind fun bases all => ?_
  exact Ensures.pure ((Expr.everyAll_iff _ _).2 all)

theorem normal : grammar.Normal where
  form inClass t := by
    change (stmtForm inClass t).Normal
    unfold stmtForm
    split
    · exact expressionStatement_normal t
    · exact functionHead_normal inClass t true
    · exact classHead_normal t
    · exact condition_normal expr_normal t
    · exact ensures_return expr_normal t.parts
    · exact assignment_normal t
    · exact update_normal t
    · exact Ensures.pure rfl
    · split
      · exact Ensures.pure rfl
      · exact ensures_value expr_normal t
  alternatives t := by
    unfold clauseTest
    split
    · refine (Gives.any _).bind fun condition _ => ?_
      exact (expr_normal condition).bind fun e own => Gives.pure (by simpa using own)
    · exact Gives.pure (by simp)

end Python

namespace Script

theorem spelled_declaredType (annotated : String) : Spelled (declaredType annotated) := by
  simp only [declaredType]
  split
  · exact .arrayOf _
  · exact spelled_parse _

theorem spelled_typeAt? {typed : Bool} {t : Tree} {field : String} {type : DeclaredType}
    (h : typeAt? typed t field = some type) : Spelled type := by
  unfold typeAt? at h
  split at h
  · obtain ⟨annotated, -, rfl⟩ := Option.map_eq_some_iff.1 h
    exact spelled_declaredType annotated
  · cases h

theorem exprForm_normal (t : Tree) : Gives (exprForm t) fun form => form.isNormal = true :=
  fun form found => form.meets_isNormal.symm.trans
    (exprForm_meets keeps_isNormal (fun _ => numberMeets_isNormal t) form found)

theorem expr_normal (t : Tree) : Gives (expr t) fun e => e.every Expr.isNormal = true :=
  readExpr_normal exprForm_normal t

/-- The assignment of a declaration is under the type of the declaration, if types count. -/
theorem ensures_typed {a : Assign} (h : a.Normal) (typed : Bool) (t : Tree) :
    Ensures (match typeAt? typed t "type" with
      | some type => pure [Stmt.assign (a.declare type)]
      | none => pure [Stmt.assign a])
      fun ss => Stmt.everyAll Expr.isNormal Stmt.isNormal ss = true := by
  split
  · exact ensures_assign (Assign.normal_declare h (spelled_typeAt? ‹_›))
  · exact ensures_assign h

theorem assignment_normal (stmt t : Tree) : (StmtForm.simple (assignment stmt t)).Normal := by
  refine (Ensures.lift (Gives.any _)).bind fun left _ => ?_
  split
  · exact Ensures.pure rfl
  · refine (Ensures.consumer stmt).bind fun _ _ => ?_
    refine (Ensures.lift (Gives.any _)).bind fun right _ => ?_
    refine (Ensures.lift (expr_normal _)).bind fun e own => ?_
    exact ensures_pending (Assign.normal_store own _) _

theorem update_normal (stmt t : Tree) : (StmtForm.simple (update stmt t)).Normal := by
  refine (Ensures.lift (Gives.any _)).bind fun left _ => ?_
  refine (Ensures.lift (Gives.any _)).bind fun operator _ => ?_
  split
  · exact Ensures.pure rfl
  · split
    · exact Ensures.pure rfl
    · refine (Ensures.consumer stmt).bind fun _ _ => ?_
      refine (Ensures.lift (Gives.any _)).bind fun right _ => ?_
      refine (Ensures.lift (expr_normal _)).bind fun e own => ensures_assign ?_
      exact Assign.normal_store own _

theorem expressionStatement_normal (t : Tree) : (StmtForm.simple (expressionStatement t)).Normal := by
  rw [expressionStatement]
  split
  · split
    · exact assignment_normal _ _
    · exact update_normal _ _
    · exact ensures_value expr_normal _
  · exact Ensures.pure rfl

theorem declarator_normal (typed : Bool) (t : Tree) :
    (StmtForm.simple (declarator typed t)).Normal := by
  refine (Ensures.lift (Gives.any _)).bind fun name _ => ?_
  split
  · exact Ensures.pure rfl
  · split
    · split
      · refine (Ensures.postpone _ (spelled_typeAt? ‹_›)).bind fun _ _ => ?_
        exact Ensures.pure rfl
      · exact Ensures.pure rfl
    · refine (Ensures.consumer t).bind fun _ _ => ?_
      refine (Ensures.lift (expr_normal _)).bind fun e own => ?_
      exact ensures_typed (Assign.normal_store own _) typed t

theorem functionHead_normal (typed : Bool) (t : Tree) (needsBody : Bool) :
    (StmtForm.function (functionHead typed t) needsBody).Normal := by
  refine (Ensures.lift (Gives.any _)).bind fun name _ => ?_
  refine (Ensures.consumer t).bind fun _ _ => ?_
  refine (Ensures.lift (Gives.any _)).bind fun params _ => ?_
  exact Ensures.pure (typedSignature_isNormal _ _ _)

theorem heritage_normal (t : Tree) :
    Gives (heritage t) fun es => ∀ e ∈ es, e.every Expr.isNormal = true := by
  unfold heritage
  split
  · exact Gives.mapM _ fun t _ => expr_normal t
  · exact Gives.pure (by simp)
  · exact (expr_normal t).bind fun e own => Gives.pure (by simpa using own)

theorem classHead_normal (t : Tree) : (StmtForm.classDef (classHead t)).Normal := by
  refine (Ensures.lift (Gives.any _)).bind fun name _ => ?_
  refine (Ensures.judgement.mapM _ fun clause => Ensures.lift (heritage_normal clause)).bind
    fun bases all => Ensures.pure ?_
  refine (Expr.everyAll_iff _ _).2 fun e mem => ?_
  obtain ⟨group, listed, mem⟩ := List.mem_flatten.1 mem
  exact all group listed e mem

theorem fieldDefinition_normal (typed : Bool) (t : Tree) :
    (StmtForm.simple (fieldDefinition typed t)).Normal := by
  rw [fieldDefinition]
  split
  · refine (Ensures.consumer t).bind fun _ _ => ?_
    refine (Ensures.lift (expr_normal _)).bind fun e own => ?_
    exact ensures_typed (Assign.normal_store own _) typed t
  · exact Ensures.pure rfl

theorem memberForm_normal (typed : Bool) (t : Tree) : (memberForm typed t).Normal := by
  unfold memberForm
  split
  · exact functionHead_normal typed t true
  · exact fieldDefinition_normal typed t
  · exact fieldDefinition_normal typed t
  · exact Ensures.pure rfl

theorem stmtForm_normal (typed : Bool) (t : Tree) : (stmtForm typed t).Normal := by
  unfold stmtForm
  split
  · exact expressionStatement_normal t
  · exact ensures_flatten (declarator_normal typed)
  · exact ensures_flatten (declarator_normal typed)
  · exact functionHead_normal typed t true
  · exact classHead_normal t
  · exact condition_normal expr_normal t
  · exact ensures_return expr_normal t.parts
  · exact Ensures.pure rfl
  · exact Ensures.pure rfl

theorem normal (typed : Bool) : (grammar typed).Normal where
  form inClass t := by
    cases inClass with
    | true => exact memberForm_normal typed t
    | false => exact stmtForm_normal typed t
  alternatives := trivial

end Script

namespace Java

theorem spelled_plainType (text : List Char) : Spelled (plainType text) := by
  unfold plainType
  split
  any_goals exact .base rfl
  any_goals exact .unknown
  exact .named _

theorem spelled_declaredType (spelled : String) : Spelled (declaredType spelled) := by
  simp only [declaredType]
  split
  · exact .arrayOf _
  · exact spelled_plainType _

theorem spelled_typeOf (t : Tree) : Spelled (typeOf t) := by
  unfold typeOf
  cases t.childText? "type" with
  | none => exact .unknown
  | some spelled => exact spelled_declaredType spelled

/-- No spelling means that nothing is known of a type. -/
theorem toBase_typeOf_ne_any (t : Tree) : (typeOf t).toBase ≠ .any := by
  unfold typeOf
  cases t.childText? "type" with
  | none => simp [toBase]
  | some spelled =>
    simp only [Option.map_some, Option.getD_some, declaredType]
    split
    · simp [toBase, arrayOf]
    · unfold plainType
      split <;> simp [toBase]

theorem exprForm_normal (t : Tree) : Gives (exprForm t) fun form => form.isNormal = true :=
  fun form found => form.meets_isNormal.symm.trans
    (exprForm_meets keeps_isNormal (fun _ => numberMeets_isNormal t)
      (decide_eq_true (toBase_typeOf_ne_any t)) form found)

theorem expr_normal (t : Tree) : Gives (expr t) fun e => e.every Expr.isNormal = true :=
  readExpr_normal exprForm_normal t

theorem declarator_normal (isLocal : Bool) {type : DeclaredType} (spelled : Spelled type) (t : Tree) :
    (StmtForm.simple (declarator isLocal type t)).Normal := by
  refine (Ensures.lift (Gives.any _)).bind fun name _ => ?_
  split
  · refine (Ensures.consumer t).bind fun _ _ => ?_
    refine (Ensures.lift (expr_normal _)).bind fun e own => ensures_assign ?_
    exact Assign.normal_declare (Assign.normal_store own _) spelled
  · split
    · split
      · exact (Ensures.postpone _ spelled).bind fun _ _ => Ensures.pure rfl
      · exact Ensures.pure rfl
    · exact Ensures.pure rfl

theorem assignment_normal (stmt t : Tree) : (StmtForm.simple (assignment stmt t)).Normal := by
  refine (Ensures.lift (Gives.any _)).bind fun left _ => ?_
  refine (Ensures.lift (Gives.any _)).bind fun operator _ => ?_
  split
  · exact Ensures.pure rfl
  · refine (Ensures.consumer stmt).bind fun _ _ => ?_
    refine (Ensures.lift (Gives.any _)).bind fun right _ => ?_
    refine (Ensures.lift (expr_normal _)).bind fun e own => ?_
    exact ensures_pending (Assign.normal_store own _) _

theorem expressionStatement_normal (t : Tree) : (StmtForm.simple (expressionStatement t)).Normal := by
  rw [expressionStatement]
  split
  · split
    · exact assignment_normal _ _
    · exact ensures_value expr_normal _
  · exact Ensures.pure rfl

theorem methodHead_normal (t : Tree) (needsBody : Bool) :
    (StmtForm.function (methodHead t) needsBody).Normal := by
  refine (Ensures.lift (Gives.any _)).bind fun name _ => ?_
  refine (Ensures.consumer t).bind fun _ _ => ?_
  refine (Ensures.lift (Gives.any _)).bind fun params _ => ?_
  refine (Ensures.judgement.mapM _ fun _ => Ensures.lift (Gives.any _)).bind fun typed _ => ?_
  exact Ensures.pure (typedSignature_isNormal _ _ _)

theorem classHead_normal (t : Tree) : (StmtForm.classDef (classHead t)).Normal := by
  refine (Ensures.lift (Gives.any _)).bind fun name _ => Ensures.pure ?_
  exact (Expr.everyAll_iff _ _).2 (List.forall_mem_map.2 fun base _ => rfl)

theorem normal : grammar.Normal where
  form inClass t := by
    change (stmtForm t).Normal
    unfold stmtForm
    split
    · exact ensures_flatten (declarator_normal _ (spelled_typeOf t))
    · exact ensures_flatten (declarator_normal _ (spelled_typeOf t))
    · exact methodHead_normal t false
    · exact classHead_normal t
    · exact expressionStatement_normal t
    · exact condition_normal expr_normal t
    · exact ensures_return expr_normal t.parts
    · exact Ensures.pure rfl
  alternatives := trivial

end Java

end Reading

/-- The variable type of a record in a comment is spelled there. -/
theorem Record.spelled_salvage? {v : Json} {r : Record} (h : salvage? v = some r)
    {type : DeclaredType} (declared : r.variableType = some type) : type.Spelled := by
  obtain ⟨members, -, rfl⟩ := Option.map_eq_some_iff.1 h
  obtain ⟨value, -, found⟩ := Option.bind_eq_some_iff.1 declared
  obtain ⟨spelling, -, rfl⟩ := Option.map_eq_some_iff.1 found
  exact DeclaredType.spelled_parse _

namespace Language

open Reading

theorem grammar_normal {l : Language} {grammar : Grammar} (h : l.grammar? = some grammar) :
    grammar.Normal := by
  cases l <;> cases h
  · exact Python.normal
  · exact Script.normal false
  · exact Script.normal true
  · exact Java.normal

theorem readTree_isNormal (l : Language) (t : Tree) :
    Gives (l.readTree t) fun out => out.1.isNormal = true := by
  unfold readTree
  split
  · exact Gives.throw _
  · rename_i grammar readable
    have ensured := readBlock_normal (grammar_normal readable) false t.children
    have body : Gives ((readBlock grammar false t.children).run {})
        fun out => Stmt.everyAll Expr.isNormal Stmt.isNormal out.1 = true :=
      fun out found => (ensured {} out.1 out.2 (by simp) found).1
    exact body.bind fun out own => Gives.pure own

theorem readPrepared_isNormal (l : Language) (parse : Parser) (code : List Char) :
    Gives (l.readPrepared parse code) fun out => out.1.isNormal = true := by
  unfold readPrepared
  split
  · exact readTree_isNormal l _
  · exact Gives.throw _

theorem read_isNormal (l : Language) (parse : Parser) (source : String) :
    Gives (l.read parse source) fun p => p.isNormal = true := by
  unfold read
  split
  · exact Gives.throw _
  · refine (readPrepared_isNormal l parse _).bind fun out own => Gives.pure ?_
    have found := Record.forall_scan (Q := fun r => ∀ type, r.variableType = some type → type.Spelled)
      (fun _ _ salvaged _ => Record.spelled_salvage? salvaged) l.commentMark source.toList
    exact Program.isNormal_attach own (Queue.forall_aligned (by rintro type ⟨⟩) _ found)

theorem readWith_isNormal (l : Language) (parse : Parser) {records : List Record}
    (spelled : Record.AllSpelled records) (source : String) :
    Gives (l.readWith parse records source) fun p => p.isNormal = true := by
  unfold readWith
  split
  · exact Gives.throw _
  · refine (readPrepared_isNormal l parse _).bind fun out own => Gives.pure ?_
    exact Program.isNormal_attach own spelled

/-- Whatever is read is normal: from every tree that a parser may give for a source, with records in
comments, and with records apart whose types come from spellings. -/
theorem isNormal_of_read (l : Language) (parse : Parser) (source : String) :
    (∀ p, l.read parse source = .ok p → p.isNormal = true) ∧
    ∀ records : List Record,
      (∀ r ∈ records, ∀ type, r.variableType = some type → ∃ spelling, type = .parse spelling) →
      ∀ p, l.readWith parse records source = .ok p → p.isNormal = true := by
  refine ⟨read_isNormal l parse source, fun records parsed => ?_⟩
  refine readWith_isNormal l parse (fun r mem type declared => ?_) source
  obtain ⟨spelling, rfl⟩ := parsed r mem type declared
  exact DeclaredType.spelled_parse spelling

/-- A function that makes a list of a string and a number, and prints it. -/
def listingTree : Tree :=
  branch "program" none 0 [branch "function_declaration" none 0
    [token "identifier" (some "name") "f",
     branch "formal_parameters" (some "parameters") 0
       [branch "required_parameter" none 0 [token "identifier" (some "pattern") "a"]],
     branch "statement_block" (some "body") 0
       [branch "lexical_declaration" none 0 [branch "variable_declarator" none 0
          [token "identifier" (some "name") "p",
           branch "array" (some "value") 0 [token "string" none "'x'", token "number" none "1"]]],
        branch "expression_statement" none 0 [branch "call_expression" none 0
          [branch "member_expression" (some "function") 0
             [token "identifier" (some "object") "console",
              token "property_identifier" (some "property") "log"],
           branch "arguments" (some "arguments") 0 [token "identifier" none "p"]]]]]]

def listingRecords : List Record :=
  [{ paramTypes := Dict.ofList [("a", .string), ("b", .number)] },
   { variableType := some (.parse "[string, number]".toList) }]

def listingProgram : Program :=
  ⟨[.function
      { name := "f", params := [⟨"a", .param⟩], paramTypes := Dict.ofList [("a", .string)] }
      [.assign (.store "p" (.tuple [.lit (.str "x"), .lit (.int 1)] [.string, .number])),
       .print (.load "p")]]⟩

theorem isNormal_of_read_listing :
    typescript.readWith (fun _ => some listingTree) listingRecords "" = .ok listingProgram ∧
    listingProgram.isNormal = true := by
  have read : typescript.readWith (fun _ => some listingTree) listingRecords "" =
      .ok listingProgram := rfl
  refine ⟨read, (isNormal_of_read typescript _ "").2 listingRecords ?_ listingProgram read⟩
  intro r mem type declared
  simp only [listingRecords, List.mem_cons, List.not_mem_nil, or_false] at mem
  rcases mem with rfl | rfl
  · cases declared
  · exact ⟨_, (Option.some.inj declared).symm⟩

end Language

end Interlingua

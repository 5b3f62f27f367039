import Interlingua.Proofs.Reading.Yields

/-!
# Reading statements

What the grammars of Python and JavaScript make of the nodes of written statements, given what their
parts are read as.
-/

namespace Interlingua

namespace Reading

/-- The kinds of the nodes of phrases. -/
def exprKinds : List String :=
  ["identifier", "string", "true", "false", "none", "null", "integer", "number", "unary_operator",
    "unary_expression", "parenthesized_expression", "attribute", "member_expression", "call",
    "call_expression", "boolean_operator", "binary_operator", "binary_expression",
    "comparison_operator", "list", "array"]

theorem kind_mem_exprKinds {u : Untyped} {e : Phrase} {t : Tree} (h : e.Shaped u t) :
    t.kind ∈ exprKinds := by
  cases e with
  | name id => exact h.1 ▸ (by decide)
  | literal value =>
    cases value with
    | str s => exact h.1.1 ▸ (by decide)
    | bool b =>
      have kind : t.kind = if b then "true" else "false" := h
      cases b <;> exact kind ▸ (by decide)
    | null =>
      have kind : t.kind = u.nullKind := h
      cases u <;> exact kind ▸ (by decide)
    | int n =>
      simp only [Phrase.Shaped, Untyped.LiteralShape] at h
      split at h
      · cases u <;> exact h.1 ▸ (by decide)
      · cases u <;> exact h.1 ▸ (by decide)
    | float x => exact h.elim
  | paren inner => exact h.1 ▸ (by decide)
  | member object property => cases u <;> exact h.1 ▸ (by decide)
  | call callee args => cases u <;> exact h.1 ▸ (by decide)
  | binary left op right => cases u <;> cases op <;> exact h.1 ▸ (by decide)
  | compare left op right =>
    cases u <;> simp only [Phrase.Shaped] at h <;> exact h.1 ▸ (by decide)
  | list elements => cases u <;> exact h.1 ▸ (by decide)
  | tuple elements => exact h.elim

theorem childAt_eq {t c : Tree} {field : String} (h : t.child? field = some c) :
    childAt t field = .ok c := by
  rw [childAt, h]

theorem childText_eq {t : Tree} {field text : String} (h : t.childText? field = some text) :
    childText t field = .ok text := by
  rw [childText, h]

theorem parameter_parts {parameter? : Tree → Option (String × BaseType)} {params : List String}
    (plain : ∀ t, t.kind = "identifier" → parameter? t = some (t.text, .unknown)) {t : Tree}
    (h : Untyped.ParamsShape params t) :
    t.parts.filterMap parameter? = params.map fun id => (id, .unknown) := by
  unfold Untyped.ParamsShape at h
  generalize t.parts = parts at h
  induction parts generalizing params with
  | nil =>
    obtain rfl : params = [] := by simpa using h.symm
    rfl
  | cons part parts ih =>
    cases params with
    | nil => simp at h
    | cons id params =>
      obtain ⟨⟨kind, text⟩, others⟩ : (part.kind = "identifier" ∧ part.text = id) ∧ _ := by
        simpa using h
      rw [List.filterMap_cons_some (plain part kind), ih others, text, List.map_cons]

/-- A signature without types. -/
theorem typedSignature_unknown (name : String) (params : List String) :
    typedSignature name (params.map fun id => (id, .unknown)) .unknown =
      { name, params := params.map (⟨·, .param⟩) } := by
  have none : (params.map fun id => (id, BaseType.unknown)).filter (·.2.isKnown) = [] := by
    simp [BaseType.isKnown]
  simp only [typedSignature, none, List.map_map]
  rfl

namespace Python

variable {t : Tree} {inClass : Bool}

theorem stmtForm_expr (h : t.kind ∈ exprKinds) :
    stmtForm inClass t = .simple (do return [.ofExpr (← expr t)]) := by
  have plain : ∀ k ∈ exprKinds, isStatementKind k = false := by decide
  unfold stmtForm
  split
  all_goals try
    rename_i same
    exact absurd (same ▸ h) (by decide)
  rw [plain _ h]
  rfl

theorem yields_expr {e : Expr} (kind : t.kind ∈ exprKinds) (h : Reads exprForm e t) :
    Yields (readStmt grammar inClass t) [] [.ofExpr e] :=
  yields_simple (stmtForm_expr kind) ((Yields.lift h).silent (Yields.pure _))

theorem yields_assignment {id : String} {e : Expr} (kind : t.kind = "assignment")
    (left : t.Has "left" (Tree.Is "identifier" id))
    (right : t.Has "right" fun c => c.kind ∈ exprKinds ∧ Reads exprForm e c)
    (untyped : t.child? "type" = none) :
    Yields (readStmt grammar inClass t) [t.label.row] [.assign (.store id e)] := by
  obtain ⟨l, foundLeft, kindLeft, rfl⟩ := left
  obtain ⟨r, foundRight, kindRight, read⟩ := right
  have form : stmtForm inClass t = .simple (assignment t) := by
    simp only [stmtForm, kind]
  have other : r.kind ≠ "assignment" := fun same => absurd (same ▸ kindRight) (by decide)
  refine yields_simple form ?_
  refine (Yields.lift (childAt_eq foundLeft)).silent ?_
  simp only [foundRight, kindLeft, other, Tree.childText?, untyped]
  exact (Yields.consumer t).last ((Yields.lift read).silent (Yields.pure _))

theorem yields_return_none (kind : t.kind = "return_statement") (h : t.parts = []) :
    Yields (readStmt grammar inClass t) [] [.ret none] := by
  have form : stmtForm inClass t = .simple (returnStatement t) := by simp only [stmtForm, kind]
  refine yields_simple form ?_
  simp only [returnStatement, h]
  exact Yields.pure _

theorem yields_return {e : Expr} (kind : t.kind = "return_statement")
    (h : t.Holds (Reads exprForm e)) : Yields (readStmt grammar inClass t) [] [.ret (some e)] := by
  obtain ⟨c, parts, read⟩ := h
  have form : stmtForm inClass t = .simple (returnStatement t) := by simp only [stmtForm, kind]
  refine yields_simple form ?_
  simp only [returnStatement, parts]
  exact (Yields.lift read).silent (Yields.pure _)

theorem yields_pass (kind : t.kind = "pass_statement") : Yields (readStmt grammar inClass t) [] [] := by
  have form : stmtForm inClass t = .simple (return []) := by simp only [stmtForm, kind]
  exact yields_simple form (Yields.pure _)

theorem parameter?_identifier (t : Tree) (kind : t.kind = "identifier") :
    parameter? t = some (t.text, .unknown) := by
  simp [parameter?, kind, DeclaredType.toBase, Option.filter_some]

theorem parameters_eq {params : List String} (h : t.Has "parameters" (Untyped.ParamsShape params)) :
    parameters inClass t =
      (Untyped.python.ownParams inClass params).map fun id => (id, .unknown) := by
  obtain ⟨c, found, shape⟩ := h
  simp only [parameters, found, Option.map_some, Option.getD_some,
    parameter_parts parameter?_identifier shape]
  cases params with
  | nil => rfl
  | cons first rest =>
    by_cases own : inClass = true ∧ first = "self"
    · simp [Untyped.ownParams, own]
    · simp [Untyped.ownParams, own]

theorem yields_functionDef {name : String} {params : List String} {rows : List Nat} {ss : List Stmt}
    (kind : t.kind = "function_definition") (named : t.childText? "name" = some name)
    (given : t.Has "parameters" (Untyped.ParamsShape params)) (untyped : t.child? "return_type" = none)
    (body : HasBlock grammar false t "body" rows ss) :
    Yields (readStmt grammar inClass t) (t.label.row :: rows)
      [.function { name, params := (Untyped.python.ownParams inClass params).map (⟨·, .param⟩) }
        ss] := by
  have form : stmtForm inClass t = .function (functionHead inClass t) true := by
    simp only [stmtForm, kind]
  have signature : typedSignature name (parameters inClass t)
      (((t.childText? "return_type").map declaredType).getD .unknown).toBase =
      { name, params := (Untyped.python.ownParams inClass params).map (⟨·, .param⟩) } := by
    rw [parameters_eq given, Tree.childText?, untyped]
    exact typedSignature_unknown name _
  have head : Yields (functionHead inClass t) [t.label.row] _ :=
    (Yields.lift (childText_eq named)).silent ((Yields.consumer t).last (Yields.pure _))
  rw [signature] at head
  exact yields_function form head body

theorem yields_class {name : String} {bases : List Expr} {rows : List Nat} {ss : List Stmt}
    (kind : t.kind = "class_definition") (named : t.childText? "name" = some name)
    (inherited : (Untyped.python.baseParts t).mapM (readExpr exprForm) = .ok bases)
    (body : HasBlock grammar true t "body" rows ss) :
    Yields (readStmt grammar inClass t) rows [.classDef name bases ss] := by
  have form : stmtForm inClass t = .classDef (classHead t) := by simp only [stmtForm, kind]
  have head : Yields (classHead t) [] (name, bases) :=
    (Yields.lift (childText_eq named)).silent ((Yields.mapM_lift inherited).silent (Yields.pure _))
  exact yields_classDef form head body

theorem yields_if {test : Expr} {rows rows' : List Nat} {ss : List Stmt}
    {clauses : List (Option Expr × List Stmt)} (kind : t.kind = "if_statement")
    (h : t.Has "condition" (Reads exprForm test)) (body : HasBlock grammar inClass t "consequence" rows ss)
    (others : Yields (readClauses grammar inClass clauseTest (t.childrenAt "alternative")) rows' clauses) :
    Yields (readStmt grammar inClass t) (rows ++ rows') [.cond test ss (nest clauses)] := by
  obtain ⟨c, found, read⟩ := h
  have form : stmtForm inClass t = .cond (do expr (← childAt t "condition")) := by
    simp only [stmtForm, kind]
  refine yields_cond form ?_ (body.mono fun b inner => ⟨rfl, inner⟩) ?_
  · exact (Yields.lift (childAt_eq found)).silent (Yields.lift read)
  · rw [Tree.childrenAt, readClauses_filter] at others
    exact others.map nest

end Python

namespace Script

variable {t : Tree}

theorem yields_expr {e : Expr} (kind : t.kind = "expression_statement")
    (h : t.Holds fun c => c.kind ∈ exprKinds ∧ Reads exprForm e c) :
    Yields (readStmt (grammar false) false t) [] [.ofExpr e] := by
  obtain ⟨c, parts, own, read⟩ := h
  have form : stmtForm false t = .simple (expressionStatement t) := by simp only [stmtForm, kind]
  have plain : expressionStatement t = (do return [.ofExpr (← expr c)]) := by
    simp only [expressionStatement, parts]
    split
    all_goals try
      rename_i same
      exact absurd (same ▸ own) (by decide)
    rfl
  refine yields_simple form ?_
  rw [plain]
  exact (Yields.lift read).silent (Yields.pure _)

theorem yields_assignment {id : String} {e : Expr} (kind : t.kind = "expression_statement")
    (h : t.Holds fun a => a.kind = "assignment_expression" ∧
      a.Has "left" (Tree.Is "identifier" id) ∧ a.Has "right" (Reads exprForm e)) :
    Yields (readStmt (grammar false) false t) [t.label.row] [.assign (.store id e)] := by
  obtain ⟨a, parts, own, ⟨l, foundLeft, kindLeft, rfl⟩, r, foundRight, read⟩ := h
  have form : stmtForm false t = .simple (expressionStatement t) := by simp only [stmtForm, kind]
  refine yields_simple form ?_
  simp only [expressionStatement, parts, own]
  refine (Yields.lift (childAt_eq foundLeft)).silent ?_
  simp only [kindLeft]
  refine (Yields.consumer t).last ?_
  refine (Yields.lift (childAt_eq foundRight)).silent ?_
  refine (Yields.lift read).silent ?_
  exact (Yields.takePending l.text).silent (Yields.pure _)

/-- A declaration of one variable. -/
theorem yields_declaration {d : Tree} {rows : List Nat} {ss : List Stmt}
    (kind : t.kind = "lexical_declaration") (parts : t.parts = [d])
    (own : d.kind = "variable_declarator") (h : Yields (declarator false d) rows ss) :
    Yields (readStmt (grammar false) false t) rows ss := by
  have form : stmtForm false t = .simple (declaration false t) := by simp only [stmtForm, kind]
  have only : t.parts.filter (·.kind = "variable_declarator") = [d] := by simp [parts, own]
  refine yields_simple form ?_
  simp only [declaration, only, List.mapM_cons, List.mapM_nil]
  have each : Yields (do
      let stmts ← declarator false d
      let rest ← pure []
      pure (stmts :: rest)) rows [ss] := h.last ((Yields.pure []).silent (Yields.pure _))
  simpa using each.map List.flatten

theorem yields_declared {id : String} {e : Expr} (name : t.Has "name" (Tree.Is "identifier" id))
    (value : t.Has "value" (Reads exprForm e)) :
    Yields (declarator false t) [t.label.row] [.assign (.store id e)] := by
  obtain ⟨n, foundName, kindName, rfl⟩ := name
  obtain ⟨v, foundValue, read⟩ := value
  refine (Yields.lift (childAt_eq foundName)).silent ?_
  simp only [kindName, foundValue]
  exact (Yields.consumer t).last ((Yields.lift read).silent (Yields.pure _))

theorem yields_undefined {id : String} (name : t.Has "name" (Tree.Is "identifier" id))
    (value : t.child? "value" = none) : Yields (declarator false t) [] [] := by
  obtain ⟨n, foundName, kindName, rfl⟩ := name
  refine (Yields.lift (childAt_eq foundName)).silent ?_
  simp only [kindName, value]
  exact Yields.pure _

theorem yields_field {id : String} {e : Expr} (kind : t.kind = "field_definition")
    (name : t.childText? "property" = some id) (value : t.Has "value" (Reads exprForm e)) :
    Yields (readStmt (grammar false) true t) [t.label.row] [.assign (.store id e)] := by
  obtain ⟨n, foundName, rfl⟩ := Option.map_eq_some_iff.1 name
  obtain ⟨v, foundValue, read⟩ := value
  have form : memberForm false t = .simple (fieldDefinition false t) := by
    simp only [memberForm, kind]
  refine yields_simple form ?_
  simp only [fieldDefinition, foundName, foundValue]
  exact (Yields.consumer t).last ((Yields.lift read).silent (Yields.pure _))

theorem yields_return_none (kind : t.kind = "return_statement") (h : t.parts = []) :
    Yields (readStmt (grammar false) false t) [] [.ret none] := by
  have form : stmtForm false t = .simple (returnStatement t) := by simp only [stmtForm, kind]
  refine yields_simple form ?_
  simp only [returnStatement, h]
  exact Yields.pure _

theorem yields_return {e : Expr} (kind : t.kind = "return_statement")
    (h : t.Holds (Reads exprForm e)) :
    Yields (readStmt (grammar false) false t) [] [.ret (some e)] := by
  obtain ⟨c, parts, read⟩ := h
  have form : stmtForm false t = .simple (returnStatement t) := by simp only [stmtForm, kind]
  refine yields_simple form ?_
  simp only [returnStatement, parts]
  exact (Yields.lift read).silent (Yields.pure _)

theorem parameter?_identifier (t : Tree) (kind : t.kind = "identifier") :
    parameter? false t = some (t.text, .unknown) := by
  simp [parameter?, kind, DeclaredType.toBase, Option.filter_some]

theorem yields_functionDef {inClass : Bool} {name : String} {params : List String} {rows : List Nat}
    {ss : List Stmt} (kind : t.kind = Untyped.javascript.functionKind inClass)
    (named : t.childText? "name" = some name)
    (given : t.Has "parameters" (Untyped.ParamsShape params))
    (body : HasBlock (grammar false) false t "body" rows ss) :
    Yields (readStmt (grammar false) inClass t) (t.label.row :: rows)
      [.function { name, params := params.map (⟨·, .param⟩) } ss] := by
  have form : (grammar false).form inClass t = .function (functionHead false t) true := by
    cases inClass with
    | true => simp [grammar, memberForm, kind, Untyped.functionKind]
    | false => simp [grammar, stmtForm, kind, Untyped.functionKind]
  obtain ⟨c, found, shape⟩ := given
  have signature := typedSignature_unknown name params
  rw [← parameter_parts parameter?_identifier shape] at signature
  have head : Yields (functionHead false t) [t.label.row] _ :=
    (Yields.lift (childText_eq named)).silent
      ((Yields.consumer t).last ((Yields.lift (childAt_eq found)).silent (Yields.pure _)))
  exact yields_function form (signature ▸ head) body

theorem yields_class {name : String} {bases : List Expr} {rows : List Nat} {ss : List Stmt}
    (kind : t.kind = "class_declaration") (named : t.childText? "name" = some name)
    (names : ∀ c ∈ Untyped.javascript.baseParts t, c.kind = "identifier")
    (inherited : (Untyped.javascript.baseParts t).mapM (readExpr exprForm) = .ok bases)
    (body : HasBlock (grammar false) true t "body" rows ss) :
    Yields (readStmt (grammar false) false t) rows [.classDef name bases ss] := by
  have form : stmtForm false t = .classDef (classHead t) := by simp only [stmtForm, kind]
  have each : (Untyped.javascript.baseParts t).mapM heritage = .ok (bases.map fun e => [e]) := by
    generalize Untyped.javascript.baseParts t = parts at names inherited
    induction parts generalizing bases with
    | nil =>
      obtain rfl : [] = bases := Except.ok.inj inherited
      rfl
    | cons part parts ih =>
      obtain ⟨first, others⟩ := List.forall_mem_cons.1 names
      rw [List.mapM_cons] at inherited ⊢
      have alone : heritage part = (fun e => [e]) <$> readExpr exprForm part := by
        simp only [heritage, first]
        rfl
      cases read : readExpr exprForm part with
      | error e => simp [read, Bind.bind, Except.bind] at inherited
      | ok e =>
        cases rest : parts.mapM (readExpr exprForm) with
        | error e => simp [read, rest, Bind.bind, Except.bind] at inherited
        | ok es =>
          obtain rfl : e :: es = bases := by
            simpa [read, rest, Bind.bind, Except.bind, Pure.pure, Except.pure] using inherited
          rw [alone, read, ih others rest]
          rfl
  have head : Yields (classHead t) [] (name, (bases.map fun e => [e]).flatten) :=
    (Yields.lift (childText_eq named)).silent ((Yields.mapM_lift each).silent (Yields.pure _))
  have flat : (bases.map fun e => [e]).flatten = bases := by simp [← List.flatMap_def]
  rw [flat] at head
  exact yields_classDef form head body

theorem yields_if {test : Expr} {rows rows' : List Nat} {ss ss' : List Stmt}
    (kind : t.kind = "if_statement") (h : t.Has "condition" (Reads exprForm test))
    (body : t.Has "consequence" fun b => b.kind = "statement_block" ∧
      Yields (readBlock (grammar false) false b.children) rows ss)
    (others : Yields (readWrapped (grammar false) false t.children) rows' ss') :
    Yields (readStmt (grammar false) false t) (rows ++ rows') [.cond test ss ss'] := by
  obtain ⟨c, found, read⟩ := h
  have form : stmtForm false t = .cond (do expr (← childAt t "condition")) := by
    simp only [stmtForm, kind]
  refine yields_cond form ?_ (body.mono fun b inner => ⟨?_, inner.2⟩) others
  · exact (Yields.lift (childAt_eq found)).silent (Yields.lift read)
  · exact decide_eq_true inner.1.symm

end Script

end Reading

end Interlingua

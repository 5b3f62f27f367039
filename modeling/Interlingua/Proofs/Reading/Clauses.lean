import Interlingua.Proofs.Reading.Statements

/-!
# Reading clauses

A tree with the shape of clauses is read as what the clauses say, and the rows of its consumers are
those of the lines on which the clauses have records.
-/

namespace Interlingua

namespace Line

theorem starts_append (ls others : List Line) (row : Nat) :
    starts (ls ++ others) row = starts ls row ++ starts others (row + ls.length) := by
  simp [starts, List.zipIdx_append]

theorem starts_of_forall {ls : List Line} (h : ∀ l ∈ ls, l.record = none) (row : Nat) :
    starts ls row = [] := by
  induction ls generalizing row with
  | nil => rfl
  | cons l ls ih =>
    obtain ⟨first, others⟩ := List.forall_mem_cons.1 h
    have rest := ih others (row + 1)
    simpa [starts, first] using rest

theorem starts_cons (l : Line) (ls : List Line) (row : Nat) :
    starts (l :: ls) row = starts [l] row ++ starts ls (row + 1) :=
  starts_append [l] ls row

/-- A header without a record, a block under it and what follows. -/
theorem starts_branch (depth : Nat) (text : List Char) (body others : List Line) (row : Nat) :
    starts (⟨depth, text, none⟩ :: body ++ others) row =
      starts body (row + 1) ++ starts others (row + 1 + body.length) := by
  rw [List.cons_append, starts_cons, starts_append]
  rfl

theorem starts_block (u : Untyped) (header : Line) (body : List Line) (depth row : Nat) :
    starts (header :: body ++ u.closing depth) row = starts [header] row ++ starts body (row + 1) := by
  rw [List.cons_append, starts_cons, starts_append, starts_of_forall (u.record_closing depth),
    List.append_nil]

end Line

namespace Untyped

open Reading

/-- The grammar by which trees are read. -/
def grammar : Untyped → Grammar
  | python => Python.grammar
  | javascript => Script.grammar false

theorem grammar?_language (u : Untyped) : u.language.grammar? = some u.grammar := by
  cases u <;> rfl

theorem yields_assign (u : Untyped) {inClass declares : Bool} {row : Nat} {id : String}
    {value : Phrase} {t : Tree} (h : u.AssignShape inClass declares row id (value.Shaped u) t) :
    Yields (readStmt u.grammar inClass t) [row] [.assign (.store id (value.value u))] := by
  cases u with
  | python =>
    obtain ⟨kind, rfl, left, right, untyped⟩ := h
    exact Python.yields_assignment kind left
      (right.mono fun c own => ⟨kind_mem_exprKinds own, python.reads_phrase value c own⟩) untyped
  | javascript =>
    have read := javascript.reads_phrase value
    cases inClass with
    | true =>
      obtain ⟨kind, rfl, name, held⟩ := h
      exact Script.yields_field kind name (held.mono read)
    | false =>
      cases declares with
      | true =>
        obtain ⟨kind, d, parts, own, rfl, name, held⟩ := h
        exact Script.yields_declaration kind parts own (Script.yields_declared name (held.mono read))
      | false =>
        obtain ⟨kind, rfl, held⟩ := h
        exact Script.yields_assignment kind
          (held.mono fun a own => ⟨own.1, own.2.1, own.2.2.mono read⟩)

theorem yields_expr (u : Untyped) {value : Phrase} {t : Tree} (h : u.ExprShape (value.Shaped u) t) :
    Yields (readStmt u.grammar false t) [] [.ofExpr (value.value u)] := by
  cases u with
  | python => exact Python.yields_expr (kind_mem_exprKinds h) (python.reads_phrase value t h)
  | javascript =>
    exact Script.yields_expr h.1
      (h.2.mono fun c own => ⟨kind_mem_exprKinds own, javascript.reads_phrase value c own⟩)

theorem yields_declare {id : String} {t : Tree} (h : DeclareShape id t) :
    Yields (readStmt javascript.grammar false t) [] [] := by
  obtain ⟨kind, d, parts, own, name, value⟩ := h
  exact Script.yields_declaration kind parts own (Script.yields_undefined name value)

theorem yields_functionDef (u : Untyped) {inClass : Bool} {name : String} {params : List String}
    {rows : List Nat} {ss : List Stmt} {t : Tree} (kind : t.kind = u.functionKind inClass)
    (named : t.childText? "name" = some name) (given : t.Has "parameters" (ParamsShape params))
    (untyped : t.child? "return_type" = none) (body : HasBlock u.grammar false t "body" rows ss) :
    Yields (readStmt u.grammar inClass t) (t.label.row :: rows)
      [.function { name, params := (u.ownParams inClass params).map (⟨·, .param⟩) } ss] := by
  cases u with
  | python => exact Python.yields_functionDef kind named given untyped body
  | javascript => exact Script.yields_functionDef kind named given body

theorem yields_class (u : Untyped) {name : String} {bases : List Phrase} {rows : List Nat}
    {ss : List Stmt} {t : Tree} (kind : t.kind = u.classKind)
    (named : t.childText? "name" = some name) (names : bases.all Phrase.isName = true)
    (inherited : Phrase.ShapedAll u bases (u.baseParts t)) (body : HasBlock u.grammar true t "body" rows ss) :
    Yields (readStmt u.grammar false t) rows [.classDef name (Phrase.values u bases) ss] := by
  have read := u.reads_phrases bases _ inherited
  cases u with
  | python => exact Python.yields_class kind named read body
  | javascript =>
    refine Script.yields_class kind named ?_ read body
    generalize baseParts javascript t = parts at inherited
    clear read
    induction bases generalizing parts with
    | nil =>
      obtain rfl : parts = [] := inherited
      simp
    | cons base bases ih =>
      obtain ⟨c, rest, rfl, first, others⟩ := inherited
      simp only [List.all_cons, Bool.and_eq_true] at names
      refine List.forall_mem_cons.2 ⟨?_, ih names.2 rest others⟩
      cases base with
      | name id => exact first.1
      | _ => cases names.1

theorem yields_ret (u : Untyped) {value : Option Phrase} {depth row : Nat} {t : Tree}
    (h : (Clause.ret value).Shaped u false depth row t) :
    Yields (readStmt u.grammar false t) [] [.ret (value.map (Phrase.value u))] := by
  cases value with
  | none =>
    obtain ⟨kind, parts⟩ := h
    cases u with
    | python => exact Python.yields_return_none kind parts
    | javascript => exact Script.yields_return_none kind parts
  | some value =>
    obtain ⟨kind, held⟩ := h
    have read := held.mono (u.reads_phrase value)
    cases u with
    | python => exact Python.yields_return kind read
    | javascript => exact Script.yields_return kind read

/-- The parts of a block are all there is to read in it. -/
theorem yields_parts {g : Grammar} {inClass : Bool} {b : Tree} {rows : List Nat} {ss : List Stmt}
    (h : Yields (readBlock g inClass b.parts) rows ss) : Yields (readBlock g inClass b.children) rows ss := by
  rwa [Tree.parts, readBlock_parts] at h

section

variable {lex : Lexicon}

mutual

theorem yields_clause (u : Untyped) (c : Clause) (inClass : Bool) (depth row : Nat) (t : Tree)
    (valid : c.isValid u lex inClass = true) (h : c.Shaped u inClass depth row t) :
    Yields (readStmt u.grammar inClass t) (Line.starts (c.lines u depth) row) (c.meaning u) :=
  match c with
  | .expr value => by
    simp only [Clause.isValid, Bool.and_eq_true, Bool.not_eq_true'] at valid
    obtain ⟨rfl, _⟩ := valid
    exact u.yields_expr h
  | .assign record declares id value => u.yields_assign h
  | .declare id => by
    simp only [Clause.isValid, Bool.and_eq_true, Bool.not_eq_true', decide_eq_true_eq] at valid
    obtain ⟨⟨rfl, rfl⟩, _⟩ := valid
    exact yields_declare h
  | .pass => by
    obtain rfl : u = .python := by simpa [Clause.isValid] using valid
    exact Python.yields_pass h
  | .ret value => by
    simp only [Clause.isValid, Bool.and_eq_true, Bool.not_eq_true'] at valid
    obtain ⟨rfl, _⟩ := valid
    have silent : Line.starts ((Clause.ret value).lines u depth) row = [] := by cases value <;> rfl
    rw [silent]
    exact u.yields_ret h
  | .function record method name params body => by
    simp only [Clause.isValid, Bool.and_eq_true, decide_eq_true_eq] at valid
    obtain ⟨⟨⟨⟨rfl, _⟩, _⟩, _⟩, inner⟩ := valid
    obtain ⟨kind, rfl, named, given, untyped, block⟩ := h
    rw [Clause.lines, Line.starts_block]
    exact u.yields_functionDef kind named given untyped (block.mono fun b shaped =>
      yields_parts (yields_clauses u body false (depth + 1) _ b.parts
        (fun t mem => (List.mem_filter.1 mem).2) inner shaped))
  | .classDef name bases body => by
    simp only [Clause.isValid, Bool.and_eq_true, Bool.not_eq_true'] at valid
    obtain ⟨⟨⟨⟨⟨⟨rfl, _⟩, _⟩, names⟩, _⟩, _⟩, inner⟩ := valid
    obtain ⟨kind, named, inherited, block⟩ := h
    rw [Clause.lines, Line.starts_block]
    exact u.yields_class kind named names inherited (block.mono fun b shaped =>
      yields_parts (yields_clauses u body true (depth + 1) _ b.parts
        (fun t mem => (List.mem_filter.1 mem).2) inner shaped))
  | .cond test body rest => by
    simp only [Clause.isValid, Bool.and_eq_true, Bool.not_eq_true'] at valid
    obtain ⟨⟨⟨⟨rfl, _⟩, _⟩, inner⟩, others⟩ := valid
    obtain ⟨kind, tested, block, branches⟩ := h
    have first := block.mono fun b shaped =>
      And.intro shaped.1 (yields_parts (yields_clauses u body false (depth + 1) _ b.parts
        (fun t mem => (List.mem_filter.1 mem).2) inner shaped.2))
    rw [Clause.lines, Line.starts_branch]
    cases u with
    | python =>
      have second := yields_alternatives rest false depth _ (t.childrenAt "alternative")
        (fun t mem => (List.mem_filter.1 mem).2) others branches
      obtain ⟨clauses, read, nested⟩ := second
      have all := Python.yields_if kind (tested.mono (python.reads_phrase test))
        (first.mono fun _ own => own.2) read
      rw [nested] at all
      exact all
    | javascript =>
      have second := yields_branch rest depth _ t others branches
      exact Script.yields_if kind (tested.mono (javascript.reads_phrase (.paren test))) first second

theorem yields_alternatives (rest : Alternative) (inClass : Bool) (depth row : Nat) (ts : List Tree)
    (fill : ∀ t ∈ ts, t.fills "alternative" = true)
    (valid : rest.isValid python lex inClass = true)
    (h : Alternative.Clauses python inClass depth row rest ts) :
    ∃ clauses, Yields (readClauses Python.grammar inClass Python.clauseTest ts)
      (Line.starts (rest.lines python depth) row) clauses ∧ nest clauses = rest.meaning python :=
  match rest with
  | .none => by
    obtain rfl : ts = [] := h
    exact ⟨[], Yields.pure [], rfl⟩
  | .elseIf test body rest => by
    simp only [Alternative.isValid, Bool.and_eq_true] at valid
    obtain ⟨⟨⟨_, _⟩, inner⟩, others⟩ := valid
    obtain ⟨t, more, rfl, kind, ⟨c, found, shaped⟩, block, branches⟩ := h
    obtain ⟨own, remaining⟩ := List.forall_mem_cons.1 fill
    obtain ⟨clauses, read, nested⟩ :=
      yields_alternatives rest inClass depth _ more remaining others branches
    have tested : Python.clauseTest t = .ok (some (test.value python)) := by
      simp only [Python.clauseTest, kind, childAt_eq found]
      simp [bind, Except.bind, pure, Except.pure,
        show Python.expr c = .ok _ from python.reads_phrase test c shaped]
    have all := yields_alternative own tested (block.mono fun b shaped =>
      yields_parts (yields_clauses python body inClass (depth + 1) _ b.parts
        (fun t mem => (List.mem_filter.1 mem).2) inner shaped)) read
    rw [Alternative.lines, Line.starts_branch]
    exact ⟨_, all, by simp [nest, ← nested, Alternative.meaning]⟩
  | .otherwise body => by
    simp only [Alternative.isValid, Bool.and_eq_true] at valid
    obtain ⟨t, rfl, kind, block⟩ := h
    have own := fill t (by simp)
    have tested : Python.clauseTest t = .ok none := by
      simp only [Python.clauseTest, kind]
      rfl
    have all := yields_alternative own tested (block.mono fun b shaped =>
      yields_parts (yields_clauses python body inClass (depth + 1) _ b.parts
        (fun t mem => (List.mem_filter.1 mem).2) valid.2 shaped))
      (show Yields (readClauses _ _ _ []) [] [] from Yields.pure [])
    rw [Alternative.lines, Line.starts_block]
    rw [List.append_nil] at all
    exact ⟨_, all, rfl⟩

theorem yields_branch (rest : Alternative) (depth row : Nat) (t : Tree)
    (valid : rest.isValid javascript lex false = true)
    (h : Alternative.Branch javascript false depth row rest t) :
    Yields (readWrapped (Script.grammar false) false t.children)
      (Line.starts (rest.lines javascript depth) row) (rest.meaning javascript) :=
  match rest with
  | .none => by
    rw [readWrapped_none h]
    exact Yields.pure []
  | .elseIf test body rest => by
    simp only [Alternative.isValid, Bool.and_eq_true] at valid
    obtain ⟨⟨⟨_, _⟩, inner⟩, others⟩ := valid
    obtain ⟨a, found, b, parts, kind, tested, block, branches⟩ := h
    have other : (Script.grammar false).isBlock b.kind = false := by
      rw [kind]
      decide
    rw [readWrapped_eq _ _ found, readFirstBranch_eq _ _ parts, other, Alternative.lines,
      Line.starts_branch]
    exact Script.yields_if kind (tested.mono (javascript.reads_phrase (.paren test)))
      (block.mono fun b shaped =>
        ⟨shaped.1, yields_parts (yields_clauses javascript body false (depth + 1) _ b.parts
          (fun t mem => (List.mem_filter.1 mem).2) inner shaped.2)⟩)
      (yields_branch rest depth _ b others branches)
  | .otherwise body => by
    simp only [Alternative.isValid, Bool.and_eq_true] at valid
    obtain ⟨a, found, b, parts, kind, shaped⟩ := h
    have block : (Script.grammar false).isBlock b.kind = true := by
      rw [kind]
      decide
    rw [readWrapped_eq _ _ found, readFirstBranch_eq _ _ parts, block, Alternative.lines,
      Line.starts_block]
    exact yields_parts (yields_clauses javascript body false (depth + 1) _ b.parts
      (fun t mem => (List.mem_filter.1 mem).2) valid.2 shaped)

theorem yields_clauses (u : Untyped) (cs : List Clause) (inClass : Bool) (depth row : Nat)
    (ts : List Tree) (parts : ∀ t ∈ ts, t.isPart = true)
    (valid : Clause.areValid u lex inClass cs = true)
    (h : Clause.ShapedAll u inClass depth row cs ts) :
    Yields (readBlock u.grammar inClass ts) (Line.starts (Clause.linesAll u depth cs) row)
      (Clause.meaningAll u cs) :=
  match cs with
  | [] => by
    obtain rfl : ts = [] := h
    exact Yields.pure []
  | c :: cs => by
    simp only [Clause.areValid, Bool.and_eq_true] at valid
    obtain ⟨t, rest, rfl, first, others⟩ := h
    obtain ⟨part, remaining⟩ := List.forall_mem_cons.1 parts
    rw [Clause.linesAll, Line.starts_append, readBlock, if_pos part]
    exact (yields_clause u c inClass depth row t valid.1 first).bind
      ((yields_clauses u cs inClass depth _ rest remaining valid.2 others).last (Yields.pure _))

end

/-- A tree with the shape of clauses is read as what they say. -/
theorem readTree_eq (u : Untyped) {cs : List Clause} {t : Tree}
    (valid : Clause.areValid u lex false cs = true) (h : Clause.ShapedAll u false 0 0 cs t.parts) :
    u.language.readTree t =
      .ok (⟨Clause.meaningAll u cs⟩, Line.starts (Clause.linesAll u 0 cs) 0) := by
  have read := yields_parts (yields_clauses u cs false 0 0 t.parts
    (fun t mem => (List.mem_filter.1 mem).2) valid h) []
  rw [Language.readTree, grammar?_language]
  simp only [StateT.run]
  rw [show readBlock u.grammar false t.children {} = _ from read]
  rfl

end

end Untyped

end Interlingua

import Interlingua.Proofs.Syntax.Meaning

/-!
# Reading phrases

A node with the shape of a phrase is read as what the phrase says. The forms that the grammars give
to a node are one lemma for each kind, and so is what the walk makes of a form.
-/

namespace Interlingua

theorem Tree.Has.mono {t : Tree} {field : String} {P Q : Tree → Prop} (h : t.Has field P)
    (le : ∀ c, P c → Q c) : t.Has field Q :=
  have ⟨c, found, own⟩ := h
  ⟨c, found, le c own⟩

theorem Tree.Holds.mono {t : Tree} {P Q : Tree → Prop} (h : t.Holds P) (le : ∀ c, P c → Q c) :
    t.Holds Q :=
  have ⟨c, found, own⟩ := h
  ⟨c, found, le c own⟩

/-- A node of a known kind. What depends on the kind can then be computed. -/
theorem Tree.eq_of_kind {t : Tree} {kind : String} (h : t.kind = kind) :
    ∃ (l : Label) (children : List Tree), t = .node { l with kind } children := by
  obtain ⟨l, children⟩ := t
  subst h
  exact ⟨l, children, rfl⟩

namespace Reading

section

variable {g : ExprGrammar} {t : Tree} {e a b : Expr} {es : List Expr}

/-- The node is read as an expression. -/
def Reads (g : ExprGrammar) (e : Expr) (t : Tree) : Prop :=
  readExpr g t = .ok e

/-- A walk that passes over all nodes but those that count gets to the first of these. -/
theorem walk_find {α : Type} {w : List Tree → α} {counts : Tree → Bool}
    (pass : ∀ t rest, counts t = false → w (t :: rest) = w rest) {ts : List Tree} {c : Tree}
    (h : ts.find? counts = some c) : counts c = true ∧ ∃ rest, w ts = w (c :: rest) := by
  induction ts with
  | nil => simp at h
  | cons t rest ih =>
    cases own : counts t with
    | false =>
      rw [pass t rest own]
      exact ih (by simpa [own] using h)
    | true =>
      obtain rfl : t = c := by simpa [own] using h
      exact ⟨own, rest, rfl⟩

theorem find_part {c : Tree} {rest : List Tree} (h : t.parts = c :: rest) :
    t.children.find? Tree.isPart = some c := by
  rw [← List.head?_filter]
  exact congrArg List.head? h

theorem pickExpr_field {field : String} (h : t.Has field (Reads g e)) :
    pickExpr g (.field field) t.children = .ok (some e) := by
  obtain ⟨c, found, read⟩ := h
  obtain ⟨fills, rest, same⟩ := walk_find (w := pickExpr g (.field field))
    (fun t rest no => by rw [pickExpr, if_neg (by simp [no])]) found
  rw [same, pickExpr, if_pos fills, show readExpr g c = .ok e from read]
  rfl

theorem pickExpr_part (h : t.Holds (Reads g e)) : pickExpr g .part t.children = .ok (some e) := by
  obtain ⟨c, found, read⟩ := h
  obtain ⟨part, rest, same⟩ := walk_find (w := pickExpr g .part)
    (fun t rest no => by rw [pickExpr, if_neg (by simp [no])]) (find_part found)
  rw [same, pickExpr, if_pos part, show readExpr g c = .ok e from read]
  rfl

theorem readExprs_eq_mapM (ts : List Tree) :
    readExprs g ts = (ts.filter Tree.isPart).mapM (readExpr g) := by
  induction ts with
  | nil => rfl
  | cons t rest ih =>
    rw [readExprs]
    by_cases part : t.isPart
    · rw [if_pos part, ih, List.filter_cons_of_pos part, List.mapM_cons]
    · rw [if_neg part, ih, List.filter_cons_of_neg part]

theorem argumentsAt_eq {field kind : String}
    (h : t.Has field fun c => c.kind = kind ∧ c.parts.mapM (readExpr g) = .ok es) :
    argumentsAt g field (some kind) t.children = .ok (some (some es)) := by
  obtain ⟨⟨l, children⟩, found, rfl, read⟩ := h
  obtain ⟨fills, rest, same⟩ := walk_find (w := argumentsAt g field _)
    (fun t rest no => by
      obtain ⟨l, children⟩ := t
      rw [argumentsAt]
      exact if_neg (of_decide_eq_false no)) found
  have here : l.field = some field := of_decide_eq_true fills
  have right : Option.all (fun kind => decide (kind = l.kind)) (some l.kind) = true :=
    decide_eq_true rfl
  rw [same, argumentsAt, if_pos here, readExprs_eq_mapM,
    show (children.filter Tree.isPart).mapM _ = _ from read]
  exact if_pos right

theorem readExpr_leaf (form : g t = .ok (.leaf e)) : Reads g e t := by
  obtain ⟨l, children⟩ := t
  change (g (.node l children) >>= _) = _
  rw [form]
  rfl

theorem readExpr_inner (form : g t = .ok (.inner .part)) (h : t.Holds (Reads g e)) :
    Reads g e t := by
  have inner := pickExpr_part h
  obtain ⟨l, children⟩ := t
  change (g (.node l children) >>= _) = _
  rw [form]
  simp only [Tree.children] at inner
  simp [bind, Except.bind, pure, Except.pure, inner]

theorem readExpr_unary {sign : Sign} {field : String} (form : g t = .ok (.unary sign (.field field)))
    (h : t.Has field (Reads g e)) : Reads g (signed t.label sign e) t := by
  have operand := pickExpr_field h
  obtain ⟨l, children⟩ := t
  change (g (.node l children) >>= _) = _
  rw [form]
  simp only [Tree.children] at operand
  simp [bind, Except.bind, pure, Except.pure, operand, required, Tree.label]

theorem readExpr_binary {left right : Pick} {op : BinaryOp}
    (form : g t = .ok (.binary left op right))
    (first : pickExpr g left t.children = .ok (some a))
    (second : pickExpr g right t.children = .ok (some b)) : Reads g (.binary a op b) t := by
  obtain ⟨l, children⟩ := t
  change (g (.node l children) >>= _) = _
  rw [form]
  simp only [Tree.children] at first second
  simp [bind, Except.bind, pure, Except.pure, first, second, required]

theorem readExpr_compare {left right : Pick} {op : CompareOp}
    (form : g t = .ok (.compare left op right))
    (first : pickExpr g left t.children = .ok (some a))
    (second : pickExpr g right t.children = .ok (some b)) : Reads g (.compare a op b) t := by
  obtain ⟨l, children⟩ := t
  change (g (.node l children) >>= _) = _
  rw [form]
  simp only [Tree.children] at first second
  simp [bind, Except.bind, pure, Except.pure, first, second, required]

theorem readExpr_member {field property : String}
    (form : g t = .ok (.member (.field field) property)) (h : t.Has field (Reads g e)) :
    Reads g (.member e property) t := by
  have object := pickExpr_field h
  obtain ⟨l, children⟩ := t
  change (g (.node l children) >>= _) = _
  rw [form]
  simp only [Tree.children] at object
  simp [bind, Except.bind, pure, Except.pure, object, required]

theorem readExpr_list (form : g t = .ok .list) (h : t.parts.mapM (readExpr g) = .ok es) :
    Reads g (.listOf es) t := by
  obtain ⟨l, children⟩ := t
  change (g (.node l children) >>= _) = _
  rw [form]
  simp only [Tree.parts, Tree.children, ← readExprs_eq_mapM] at h
  simp [bind, Except.bind, pure, Except.pure, h]

end

end Reading

namespace Untyped

open Reading

/-- The grammar's view of expressions. -/
def exprForm : Untyped → ExprGrammar
  | python => Python.exprForm
  | javascript => Script.exprForm

variable (u : Untyped)

/-- What the walk makes of a call, under the form it has in a language. -/
theorem readExpr_call {t : Tree} {e : Expr} {es : List Expr} (kind : t.kind = u.callKind)
    (callee : t.Has "function" (Reads u.exprForm e))
    (args : t.Has "arguments" fun c =>
      c.kind = u.argumentsKind ∧ c.parts.mapM (readExpr u.exprForm) = .ok es) :
    Reads u.exprForm (.call (u.folded e) es) t := by
  have called := pickExpr_field callee
  have given := argumentsAt_eq args
  obtain ⟨l, children⟩ := t
  simp only [Tree.children] at called given
  have named : l.kind = u.callKind := kind
  cases u with
  | python =>
    have form : Python.exprForm (.node l children) =
        .ok (.call (.read (.field "function")) "arguments" (some "argument_list")) := by
      simp [Python.exprForm, Tree.kind, Tree.label, named, callKind, pure, Except.pure]
    change (Python.exprForm (.node l children) >>= _) = _
    rw [form]
    simp only [argumentsKind] at given
    simp [bind, Except.bind, pure, Except.pure, called, given, required, folded]
  | javascript =>
    have form : Script.exprForm (.node l children) =
        .ok (.call (.script (.field "function")) "arguments" (some "arguments")) := by
      simp [Script.exprForm, Tree.kind, Tree.label, named, callKind, pure, Except.pure]
    change (Script.exprForm (.node l children) >>= _) = _
    rw [form]
    simp only [argumentsKind] at given
    simp [bind, Except.bind, pure, Except.pure, called, given, required, folded, Functor.map,
      Except.map]

section

variable {t : Tree}

theorem exprForm_name (kind : t.kind = "identifier") : u.exprForm t = .ok (.leaf (.load t.text)) := by
  obtain ⟨l, children, rfl⟩ := Tree.eq_of_kind kind
  cases u <;> rfl

theorem exprForm_paren (kind : t.kind = "parenthesized_expression") :
    u.exprForm t = .ok (.inner .part) := by
  obtain ⟨l, children, rfl⟩ := Tree.eq_of_kind kind
  cases u <;> rfl

theorem exprForm_number (kind : t.kind = u.numberKind) : u.exprForm t = .ok (numberForm t) := by
  obtain ⟨l, children, rfl⟩ := Tree.eq_of_kind kind
  cases u <;> rfl

theorem exprForm_string (kind : t.kind = "string")
    (plain : ∀ c ∈ t.children, c.kind ≠ "interpolation") : u.exprForm t = .ok (stringForm t) := by
  have uniform : Python.isInterpolated t = false := by
    simp only [Python.isInterpolated, List.any_eq_false]
    intro c mem
    simp [plain c mem]
  cases u with
  | python =>
    have form : Python.exprForm t = .ok (if Python.isInterpolated t then .unknown else stringForm t) := by
      obtain ⟨l, children, rfl⟩ := Tree.eq_of_kind kind
      rfl
    exact form.trans (by rw [uniform]; rfl)
  | javascript =>
    obtain ⟨l, children, rfl⟩ := Tree.eq_of_kind kind
    rfl

theorem exprForm_bool {b : Bool} (kind : t.kind = if b then "true" else "false") :
    u.exprForm t = .ok (.leaf (.lit (.bool b))) := by
  obtain ⟨l, children, rfl⟩ := Tree.eq_of_kind kind
  cases u <;> cases b <;> rfl

theorem exprForm_null (kind : t.kind = u.nullKind) : u.exprForm t = .ok (.leaf (.lit .null)) := by
  obtain ⟨l, children, rfl⟩ := Tree.eq_of_kind kind
  cases u <;> rfl

theorem exprForm_unary {symbol : String} (kind : t.kind = u.unaryKind)
    (operator : t.childText? "operator" = some symbol) :
    u.exprForm t = .ok (.unary (signOf symbol) (.field "argument")) := by
  have text : childText t "operator" = .ok symbol := by rw [childText, operator]
  have form : u.exprForm t = (childText t "operator" >>= fun symbol =>
      .ok (.unary (signOf symbol) (.field "argument"))) := by
    obtain ⟨l, children, rfl⟩ := Tree.eq_of_kind kind
    cases u <;> rfl
  rw [form, text]
  rfl

theorem exprForm_member {property : String} (kind : t.kind = u.memberKind)
    (named : t.childText? u.propertyField = some property) :
    u.exprForm t = .ok (.member (.field "object") property) := by
  have text : childText t u.propertyField = .ok property := by rw [childText, named]
  have form : u.exprForm t = (childText t u.propertyField >>= fun property =>
      .ok (.member (.field "object") property)) := by
    obtain ⟨l, children, rfl⟩ := Tree.eq_of_kind kind
    cases u <;> rfl
  rw [form, text]
  rfl

theorem exprForm_list (kind : t.kind = u.listKind) : u.exprForm t = .ok .list := by
  obtain ⟨l, children, rfl⟩ := Tree.eq_of_kind kind
  cases u <;> rfl

theorem exprForm_binary {op : BinaryOp} (kind : t.kind = u.binaryKind op)
    (operator : t.childText? "operator" = some (u.dialect.binarySymbol op)) :
    u.exprForm t = .ok (.binary (.field "left") op (.field "right")) := by
  cases u with
  | python =>
    cases op <;> (
      simp only [binaryKind] at kind
      simp only [exprForm, Python.exprForm, kind, childText, operator]
      rfl)
  | javascript =>
    simp only [binaryKind] at kind
    simp only [exprForm, Script.exprForm, kind, Script.binaryForm, childText, operator]
    cases op <;> rfl

theorem readExpr_number {digits : List Char} {value : Literal}
    (h : t.Is u.numberKind (String.ofList digits)) (numeral : Literal.ofNumeral? digits = some value) :
    Reads u.exprForm (.lit value) t := by
  refine readExpr_leaf ((u.exprForm_number h.1).trans ?_)
  rw [numberForm, h.2, String.toList_ofList, numeral]

/-- The sign of a negative number is an operator in front of its digits. -/
theorem readExpr_literal {value : Literal} (h : u.LiteralShape value t) :
    Reads u.exprForm (.lit value.reread) t := by
  cases value with
  | str s =>
    obtain ⟨⟨kind, text⟩, plain⟩ := h
    refine readExpr_leaf ((u.exprForm_string kind plain).trans ?_)
    have single : Text.isQuote '\'' = true := by decide
    have first := Text.head_flatMap (d := '\'') (by decide) s.toList
    rw [stringForm, text, u.literal_str, Text.quote, Text.unquote_delimited single first,
      Text.unescape_flatMap rfl, String.ofList_toList]
    rfl
  | bool b => exact readExpr_leaf (u.exprForm_bool h)
  | null => exact readExpr_leaf (u.exprForm_null h)
  | int n =>
    simp only [LiteralShape] at h
    by_cases negative : n < 0
    · rw [if_pos negative] at h
      obtain ⟨kind, operator, argument⟩ := h
      obtain ⟨size, numeral, negated⟩ := Option.bind_eq_some_iff.1 (Literal.reread_of_neg negative)
      have read := readExpr_unary (u.exprForm_unary kind operator) (e := .lit size)
        (argument.mono fun c own => u.readExpr_number own numeral)
      simpa [signOf, signed, Expr.lit, negated] using read
    · rw [if_neg negative] at h
      have numeral := Literal.reread_of_nonneg (Int64.not_lt.1 negative)
      exact u.readExpr_number h numeral
  | float x => exact h.elim

theorem readExpr_comparison {left right : Phrase} {op : CompareOp} {a b : Expr}
    (h : (Phrase.compare left op right).Shaped u t) (first : ∀ t, left.Shaped u t → Reads u.exprForm a t)
    (second : ∀ t, right.Shaped u t → Reads u.exprForm b t) :
    Reads u.exprForm (.compare a op b) t := by
  cases u with
  | python =>
    simp only [Phrase.Shaped] at h
    obtain ⟨kind, x, symbol, y, children, text, hx, hy⟩ := h
    have form : exprForm python t = .ok (.compare (.nth 0) op (.nth 2)) := by
      simp only [exprForm, Python.exprForm, kind, Python.comparisonForm, children, text]
      cases op <;> rfl
    refine readExpr_compare form ?_ ?_
    · rw [children, pickExpr, show readExpr _ x = .ok a from first x hx]
      rfl
    · simp only [children, pickExpr]
      rw [show readExpr _ y = .ok b from second y hy]
      rfl
  | javascript =>
    simp only [Phrase.Shaped] at h
    obtain ⟨kind, operator, hx, hy⟩ := h
    have form : exprForm javascript t = .ok (.compare (.field "left") op (.field "right")) := by
      simp only [exprForm, Script.exprForm, kind, Script.binaryForm, childText, operator]
      cases op <;> rfl
    exact readExpr_compare form (pickExpr_field (hx.mono first)) (pickExpr_field (hy.mono second))

end

mutual

/-- A node with the shape of a phrase is read as what the phrase says. -/
theorem reads_phrase (e : Phrase) (t : Tree) (h : e.Shaped u t) : Reads u.exprForm (e.value u) t :=
  match e with
  | .name id => by
    obtain ⟨kind, text⟩ := h
    exact readExpr_leaf (text ▸ u.exprForm_name kind)
  | .literal value => u.readExpr_literal h
  | .paren inner => by
    obtain ⟨kind, held⟩ := h
    exact readExpr_inner (u.exprForm_paren kind) (held.mono (reads_phrase inner))
  | .member object property => by
    obtain ⟨kind, front, named⟩ := h
    exact readExpr_member (u.exprForm_member kind named) (front.mono (reads_phrase object))
  | .call callee args => by
    obtain ⟨kind, called, given⟩ := h
    exact u.readExpr_call kind (called.mono (reads_phrase callee))
      (given.mono fun c own => ⟨own.1, reads_phrases args c.parts own.2⟩)
  | .binary left op right => by
    obtain ⟨kind, operator, front, back⟩ := h
    exact readExpr_binary (u.exprForm_binary kind operator)
      (pickExpr_field (front.mono (reads_phrase left)))
      (pickExpr_field (back.mono (reads_phrase right)))
  | .compare left op right => u.readExpr_comparison h (reads_phrase left) (reads_phrase right)
  | .list elements => by
    obtain ⟨kind, all⟩ := h
    exact readExpr_list (u.exprForm_list kind) (reads_phrases elements t.parts all)
  | .tuple elements => h.elim

theorem reads_phrases (es : List Phrase) (ts : List Tree) (h : Phrase.ShapedAll u es ts) :
    ts.mapM (readExpr u.exprForm) = .ok (Phrase.values u es) :=
  match es with
  | [] => by
    obtain rfl : ts = [] := h
    rfl
  | e :: es => by
    obtain ⟨t, rest, rfl, first, others⟩ := h
    rw [List.mapM_cons, show readExpr _ t = _ from reads_phrase e t first, reads_phrases es rest others]
    rfl

end

end Untyped

end Interlingua

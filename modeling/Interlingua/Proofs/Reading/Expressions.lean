import Interlingua.Proofs.Program.Everywhere
import Interlingua.Proofs.Reading.Tracing
import Interlingua.Reading.Java
import Interlingua.Reading.Python
import Interlingua.Reading.Script

/-!
# Conditions that reading expressions keeps

A grammar says of every node what form it has; all else is left to the walk. A condition that holds of
what a grammar reads by itself, and that the walk keeps, holds throughout of whatever is read.
-/

namespace Interlingua

theorem Tree.every_self {p : Tree → Bool} {t : Tree} (h : t.every p = true) : p t = true := by
  obtain ⟨l, children⟩ := t
  exact ((Bool.and_eq_true _ _).mp h).1

theorem Tree.everyAll_iff (p : Tree → Bool) (ts : List Tree) :
    Tree.everyAll p ts = true ↔ ∀ t ∈ ts, t.every p = true := by
  induction ts with
  | nil => simp [Tree.everyAll]
  | cons t ts ih => simp [Tree.everyAll, ih]

theorem Tree.every_child? {p : Tree → Bool} {t operand : Tree} {field : String}
    (h : t.every p = true) (found : t.child? field = some operand) : operand.every p = true := by
  obtain ⟨l, children⟩ := t
  have below := ((Bool.and_eq_true _ _).mp h).2
  exact (Tree.everyAll_iff p children).1 below operand (List.mem_of_find?_eq_some found)

mutual

theorem Tree.every_of_forall {p : Tree → Bool} (h : ∀ t, p t = true) (t : Tree) :
    t.every p = true :=
  match t with
  | .node _ children => (Bool.and_eq_true _ _).mpr ⟨h _, Tree.everyAll_of_forall h children⟩

theorem Tree.everyAll_of_forall {p : Tree → Bool} (h : ∀ t, p t = true) (ts : List Tree) :
    Tree.everyAll p ts = true :=
  match ts with
  | [] => rfl
  | t :: ts => (Bool.and_eq_true _ _).mpr ⟨Tree.every_of_forall h t, Tree.everyAll_of_forall h ts⟩

end

/-- The kinds of nodes that are numbers. -/
def Language.numberKinds : Language → List String
  | python => ["integer", "float"]
  | javascript | typescript => ["number"]
  | java => ["decimal_integer_literal", "hex_integer_literal", "octal_integer_literal",
      "binary_integer_literal", "decimal_floating_point_literal"]
  | haskell => []

namespace Reading

/-- Whatever is computed has a property. -/
def Gives {α : Type} (x : Except ReadError α) (P : α → Prop) : Prop :=
  ∀ a, x = .ok a → P a

namespace Gives

variable {α β : Type} {P : α → Prop} {Q : β → Prop}

theorem pure {a : α} (h : P a) : Gives (Pure.pure a) P := by
  rintro _ ⟨⟩
  exact h

theorem throw (e : ReadError) : Gives (MonadExcept.throw e) P := by
  rintro _ ⟨⟩

theorem bind {x : Except ReadError α} {k : α → Except ReadError β} (h : Gives x P)
    (next : ∀ a, P a → Gives (k a) Q) : Gives (x >>= k) Q := by
  intro b found
  cases x with
  | error e => cases found
  | ok a => exact next a (h a rfl) b found

theorem map {x : Except ReadError α} {f : α → β} (h : Gives x P) (next : ∀ a, P a → Q (f a)) :
    Gives (f <$> x) Q := by
  intro b found
  cases x with
  | error e => cases found
  | ok a =>
    cases found
    exact next a (h a rfl)

/-- Nothing is known of what is computed. -/
theorem any (x : Except ReadError α) : Gives x fun _ => True :=
  fun _ _ => trivial

theorem mapM {f : α → Except ReadError β} (items : List α) (h : ∀ item ∈ items, Gives (f item) Q) :
    Gives (items.mapM f) fun bs => ∀ b ∈ bs, Q b := by
  induction items with
  | nil => exact Gives.pure (by simp)
  | cons item rest ih =>
    rw [List.mapM_cons]
    refine (h item List.mem_cons_self).bind fun b own => ?_
    refine (ih fun other mem => h other (List.mem_cons_of_mem _ mem)).bind fun bs others => ?_
    exact Gives.pure (List.forall_mem_cons.2 ⟨own, others⟩)

end Gives

/-- What a grammar says of an expression that is not read from other nodes: its own expressions meet
one condition throughout, and the types it declares another. -/
def ExprForm.meets (q : Expr → Bool) (typed : BaseType → Bool) : ExprForm → Bool
  | leaf e => e.every q
  | call (.known e) _ _ => e.every q
  | typedList _ element => typed element
  | _ => true

/-- A condition that holds of whatever a walk builds from expressions that meet it, and of the leaves
that are not numbers. -/
structure Keeps (q : Expr → Bool) (typed : BaseType → Bool) : Prop where
  load (id : String) : q (.load id) = true
  str (s : String) : q (.lit (.str s)) = true
  bool (b : Bool) : q (.lit (.bool b)) = true
  null : q (.lit .null) = true
  unknown (description : String) : q (.unknown description) = true
  member (object : Expr) (property : String) : q (.member object property) = true
  call (callee : Expr) (args : List Expr) : q (.call callee args) = true
  binary (left : Expr) (op : BinaryOp) (right : Expr) : q (.binary left op right) = true
  compare (left : Expr) (op : CompareOp) (right : Expr) : q (.compare left op right) = true
  listOf {es : List Expr} : Expr.everyAll q es = true → q (.listOf es) = true
  tupleOf {es : List Expr} : Expr.everyAll q es = true → q (.tupleOf es) = true
  negated {value opposite : Literal} {type : BaseType} :
    q (.const value type) = true → value.negate? = some opposite → q (.lit opposite) = true
  retyped {es : List Expr} {element own : BaseType} {homogeneous : Bool} : typed element = true →
    element.isKnown = true → q (.list es own homogeneous) = true → q (.list es element true) = true

section

variable {q : Expr → Bool} {typed : BaseType → Bool} (keeps : Keeps q typed)

include keeps

theorem Keeps.every_signed (l : Label) (sign : Sign) {e : Expr} (h : e.every q = true) :
    (signed l sign e).every q = true := by
  unfold signed
  split
  · exact h
  · rename_i value type
    cases opposite : value.negate? with
    | none => exact keeps.unknown _
    | some negative => exact keeps.negated h opposite
  · exact keeps.unknown _

theorem Keeps.every_retype {element : BaseType} (declared : typed element = true) {e : Expr}
    (h : e.every q = true) : (retype element e).every q = true := by
  unfold retype
  split
  · split
    · rename_i known
      simp only [Expr.every, Bool.and_eq_true] at h ⊢
      exact ⟨keeps.retyped declared known h.1, h.2⟩
    · exact h
  · exact h

theorem Keeps.every_foldPrint {e : Expr} (h : e.every q = true) : (foldPrint e).every q = true := by
  unfold foldPrint
  split
  · split
    · exact keeps.load _
    · exact h
  · exact h

end

theorem gives_required {P : Expr → Prop} (l : Label) (p : Pick) {e : Option Expr}
    (h : ∀ a, e = some a → P a) : Gives (required l p e) P := by
  cases e with
  | none => exact Gives.throw _
  | some e => exact Gives.pure (h e rfl)

section

variable {grammar : ExprGrammar} {q : Expr → Bool} {typed : BaseType → Bool} {p : Tree → Bool}

mutual

/-- What a walk keeps holds of what is read, if it holds of what the grammar says of every node. -/
theorem readExpr_every (keeps : Keeps q typed)
    (h : ∀ t, p t = true → Gives (grammar t) fun form => form.meets q typed = true) (t : Tree)
    (own : t.every p = true) : Gives (readExpr grammar t) fun e => e.every q = true :=
  match t with
  | .node l children => by
    obtain ⟨here, below⟩ := (Bool.and_eq_true _ _).mp own
    have picked {β : Type} {Q : β → Prop} (pick : Pick) {k : Expr → Except ReadError β}
        (next : ∀ e, e.every q = true → Gives (k e) Q) :
        Gives (pickExpr grammar pick children >>= fun e => required l pick e >>= k) Q :=
      (pickExpr_every keeps h pick children below).bind fun e own =>
        (gives_required l pick own).bind next
    rw [readExpr]
    refine (h (.node l children) here).bind fun form meets => ?_
    cases form with
    | leaf e => exact Gives.pure meets
    | unknown => exact Gives.pure (keeps.unknown _)
    | inner child =>
      refine (pickExpr_every keeps h child children below).bind fun e own => Gives.pure ?_
      cases e with
      | none => exact keeps.unknown _
      | some e => exact own e rfl
    | unary sign pick => exact picked pick fun e own => Gives.pure (keeps.every_signed l sign own)
    | binary left op right =>
      refine picked left fun a first => picked right fun b second => Gives.pure ?_
      simp [Expr.every, keeps.binary, first, second]
    | compare left op right =>
      refine picked left fun a first => picked right fun b second => Gives.pure ?_
      simp [Expr.every, keeps.compare, first, second]
    | operands left right =>
      exact picked left fun _ _ => picked right fun _ _ => Gives.pure (keeps.unknown _)
    | member object property =>
      refine picked object fun e own => Gives.pure ?_
      simp [Expr.every, keeps.member, own]
    | call callee arguments kind =>
      have finish (e : Expr) (own : e.every q = true) :
          Gives (argumentsAt grammar arguments kind children >>= fun args =>
            match args with
            | none => throw (.missing l.kind arguments)
            | some none => pure (unknownExpr l)
            | some (some args) => pure (.call e args))
            fun e => e.every q = true := by
        refine (argumentsAt_every keeps h arguments kind children below).bind fun args inner => ?_
        match args with
        | none => exact Gives.throw _
        | some none => exact Gives.pure (keeps.unknown _)
        | some (some es) => exact Gives.pure (by simp [Expr.every, keeps.call, own, inner])
      cases callee with
      | known e => exact finish e meets
      | read pick => exact picked pick finish
      | script pick =>
        refine (pickExpr_every keeps h pick children below).bind fun e own => ?_
        exact ((gives_required l pick own).map fun _ => keeps.every_foldPrint).bind finish
      | method pick property =>
        refine (pickExpr_every keeps h pick children below).bind fun e own => ?_
        have member : Gives ((Expr.member · property) <$> required l pick e)
            fun e => e.every q = true :=
          (gives_required l pick own).map fun _ own => by simp [Expr.every, keeps.member, own]
        exact member.bind finish
    | list =>
      refine (readExprs_every keeps h children below).bind fun es own => Gives.pure ?_
      exact (Bool.and_eq_true _ _).mpr ⟨keeps.listOf own, own⟩
    | tuple =>
      refine (readExprs_every keeps h children below).bind fun es own => Gives.pure ?_
      exact (Bool.and_eq_true _ _).mpr ⟨keeps.tupleOf own, own⟩
    | typedList pick element =>
      refine (pickExpr_every keeps h pick children below).bind fun e own => Gives.pure ?_
      cases e with
      | none => exact keeps.unknown _
      | some e => exact keeps.every_retype meets (own e rfl)

theorem readExprs_every (keeps : Keeps q typed)
    (h : ∀ t, p t = true → Gives (grammar t) fun form => form.meets q typed = true)
    (ts : List Tree) (own : Tree.everyAll p ts = true) :
    Gives (readExprs grammar ts) fun es => Expr.everyAll q es = true :=
  match ts with
  | [] => Gives.pure rfl
  | t :: rest => by
    obtain ⟨here, later⟩ := (Bool.and_eq_true _ _).mp own
    rw [readExprs]
    split
    · refine (readExpr_every keeps h t here).bind fun e own => ?_
      refine (readExprs_every keeps h rest later).bind fun es others => ?_
      exact Gives.pure ((Bool.and_eq_true _ _).mpr ⟨own, others⟩)
    · exact readExprs_every keeps h rest later

theorem pickExpr_every (keeps : Keeps q typed)
    (h : ∀ t, p t = true → Gives (grammar t) fun form => form.meets q typed = true) (pick : Pick)
    (ts : List Tree) (own : Tree.everyAll p ts = true) :
    Gives (pickExpr grammar pick ts) fun e => ∀ a, e = some a → a.every q = true :=
  match pick, ts with
  | _, [] => by
    rw [pickExpr]
    exact Gives.pure (by simp)
  | .field name, t :: rest => by
    obtain ⟨here, later⟩ := (Bool.and_eq_true _ _).mp own
    rw [pickExpr]
    split
    · exact (readExpr_every keeps h t here).map (by simp)
    · exact pickExpr_every keeps h (.field name) rest later
  | .part, t :: rest => by
    obtain ⟨here, later⟩ := (Bool.and_eq_true _ _).mp own
    rw [pickExpr]
    split
    · exact (readExpr_every keeps h t here).map (by simp)
    · exact pickExpr_every keeps h .part rest later
  | .nth 0, t :: _ => by
    rw [pickExpr]
    exact (readExpr_every keeps h t ((Bool.and_eq_true _ _).mp own).1).map (by simp)
  | .nth (n + 1), _ :: rest => by
    rw [pickExpr]
    exact pickExpr_every keeps h (.nth n) rest ((Bool.and_eq_true _ _).mp own).2

theorem argumentsAt_every (keeps : Keeps q typed)
    (h : ∀ t, p t = true → Gives (grammar t) fun form => form.meets q typed = true)
    (field : String) (kind : Option String) (ts : List Tree) (own : Tree.everyAll p ts = true) :
    Gives (argumentsAt grammar field kind ts) fun args =>
      ∀ es, args = some (some es) → Expr.everyAll q es = true :=
  match ts with
  | [] => Gives.pure (by simp)
  | .node l children :: rest => by
    obtain ⟨here, later⟩ := (Bool.and_eq_true _ _).mp own
    rw [argumentsAt]
    split
    · split
      · exact (readExprs_every keeps h children ((Bool.and_eq_true _ _).mp here).2).map (by simp)
      · exact Gives.pure (by simp)
    · exact argumentsAt_every keeps h field kind rest later

end

end

/-! What the grammars say. -/

/-- A number that is read from the text of a node meets a condition. -/
def NumberMeets (q : Expr → Bool) (t : Tree) : Prop :=
  ∀ value, Literal.ofNumeral? t.text.toList = some value → q (.lit value) = true

theorem meets_numberForm {q : Expr → Bool} {typed : BaseType → Bool} {t : Tree}
    (h : NumberMeets q t) : (numberForm t).meets q typed = true := by
  unfold numberForm
  split
  · exact h _ ‹_›
  · rfl

section

variable {q : Expr → Bool} {typed : BaseType → Bool} (keeps : Keeps q typed) {t : Tree}

include keeps

theorem meets_stringForm : (stringForm t).meets q typed = true :=
  keeps.str _

theorem Python.exprForm_meets
    (numbers : t.kind ∈ Language.python.numberKinds → NumberMeets q t) :
    Gives (exprForm t) fun form => form.meets q typed = true := by
  have number : t.kind ∈ Language.python.numberKinds → (numberForm t).meets q typed = true :=
    fun kind => meets_numberForm (numbers kind)
  unfold exprForm
  split
  · exact Gives.pure (keeps.load _)
  · exact Gives.pure (keeps.bool _)
  · exact Gives.pure (keeps.bool _)
  · exact Gives.pure keeps.null
  · exact Gives.pure (number (by simp [Language.numberKinds, *]))
  · exact Gives.pure (number (by simp [Language.numberKinds, *]))
  · split
    · exact Gives.pure rfl
    · exact Gives.pure (meets_stringForm keeps)
  · refine (Gives.any _).bind fun symbol _ => ?_
    split <;> exact Gives.pure rfl
  · exact (Gives.any _).bind fun _ _ => Gives.pure rfl
  · refine Gives.pure ?_
    unfold comparisonForm
    split
    · split <;> rfl
    · rfl
  · exact (Gives.any _).bind fun _ _ => Gives.pure rfl
  · exact Gives.pure rfl
  · exact Gives.pure rfl
  · exact (Gives.any _).bind fun _ _ => Gives.pure rfl
  · exact Gives.pure rfl
  · exact Gives.pure rfl
  · exact Gives.pure rfl

theorem Script.exprForm_meets
    (numbers : t.kind ∈ Language.javascript.numberKinds → NumberMeets q t) :
    Gives (exprForm t) fun form => form.meets q typed = true := by
  unfold exprForm
  split
  · exact Gives.pure (keeps.load _)
  · exact Gives.pure (keeps.load _)
  · exact Gives.pure (keeps.load _)
  · exact Gives.pure (keeps.load _)
  · exact Gives.pure (keeps.bool _)
  · exact Gives.pure (keeps.bool _)
  · exact Gives.pure keeps.null
  · exact Gives.pure (meets_numberForm (numbers (by simp [Language.numberKinds, *])))
  · exact Gives.pure (meets_stringForm keeps)
  · split
    · exact Gives.pure rfl
    · exact Gives.pure (meets_stringForm keeps)
  · refine (Gives.any _).bind fun symbol _ => ?_
    split <;> exact Gives.pure rfl
  · exact (Gives.any _).bind fun _ _ => Gives.pure rfl
  · exact Gives.pure rfl
  · exact Gives.pure rfl
  · exact (Gives.any _).bind fun _ _ => Gives.pure rfl
  · exact Gives.pure rfl
  · exact Gives.pure rfl

theorem Java.exprForm_meets (numbers : t.kind ∈ Language.java.numberKinds → NumberMeets q t)
    (declared : typed (typeOf t).toBase = true) :
    Gives (exprForm t) fun form => form.meets q typed = true := by
  have number : t.kind ∈ Language.java.numberKinds → (numberForm t).meets q typed = true :=
    fun kind => meets_numberForm (numbers kind)
  unfold exprForm
  split
  · exact Gives.pure (keeps.load _)
  · exact Gives.pure (keeps.bool _)
  · exact Gives.pure (keeps.bool _)
  · exact Gives.pure keeps.null
  · exact Gives.pure (number (by simp [Language.numberKinds, *]))
  · exact Gives.pure (number (by simp [Language.numberKinds, *]))
  · exact Gives.pure (number (by simp [Language.numberKinds, *]))
  · exact Gives.pure (number (by simp [Language.numberKinds, *]))
  · exact Gives.pure (number (by simp [Language.numberKinds, *]))
  · exact Gives.pure (meets_stringForm keeps)
  · exact Gives.pure (meets_stringForm keeps)
  · refine (Gives.any _).bind fun symbol _ => ?_
    split <;> exact Gives.pure rfl
  · exact (Gives.any _).bind fun _ _ => Gives.pure rfl
  · exact Gives.pure rfl
  · refine Gives.bind (P := fun c => (ExprForm.call c "arguments" none).meets q typed = true) ?_
      fun c own => Gives.pure own
    refine (Gives.any _).bind fun name _ => ?_
    split
    · exact Gives.pure (keeps.load _)
    · split
      · exact Gives.pure (keeps.load _)
      · exact Gives.pure rfl
  · exact (Gives.any _).bind fun _ _ => Gives.pure rfl
  · exact Gives.pure declared
  · exact Gives.pure rfl
  · exact Gives.pure rfl

end

end Reading

end Interlingua

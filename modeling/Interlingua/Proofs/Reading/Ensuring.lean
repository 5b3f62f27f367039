import Interlingua.Proofs.Program.Normal
import Interlingua.Proofs.Reading.Building
import Interlingua.Reading.Source

/-!
# What a walk ensures

A grammar says of every node what form it has; all else is left to the walk. Where a grammar gives
nothing that is not normal by itself, whatever is read by it is normal. The types that are kept for
later assignments are a part of the state, and it is an invariant that they can be spelled.
-/

namespace Interlingua

namespace Reading

/-- What a grammar says of an expression that is not read from other nodes. -/
def ExprForm.isNormal : ExprForm → Bool
  | leaf e => e.every Expr.isNormal
  | call (.known e) _ _ => e.every Expr.isNormal
  | typedList _ element => element ≠ .any
  | _ => true

theorem keeps_isNormal : Keeps Expr.isNormal (· ≠ .any) where
  load _ := rfl
  str _ := by simp [Expr.lit, Expr.isNormal]
  bool _ := by simp [Expr.lit, Expr.isNormal]
  null := by simp [Expr.lit, Expr.isNormal]
  unknown _ := rfl
  member _ _ := rfl
  call _ _ := rfl
  binary _ _ _ := rfl
  compare _ _ _ := rfl
  listOf inner := Expr.every_self (Expr.every_listOf inner)
  tupleOf inner := Expr.every_self (Expr.every_tupleOf inner)
  negated _ _ := by simp [Expr.lit, Expr.isNormal]
  retyped {_ element _ _} notAny known _ := by
    have closed : element.isClosed = true := by
      simpa [BaseType.isClosed, BaseType.isKnown, of_decide_eq_true notAny] using known
    simp [Expr.isNormal, closed]

theorem ExprForm.meets_isNormal (form : ExprForm) :
    form.meets Expr.isNormal (· ≠ .any) = form.isNormal := by
  cases form with
  | call callee arguments kind => cases callee <;> rfl
  | _ => rfl

theorem readExpr_normal {grammar : ExprGrammar}
    (h : ∀ t, Gives (grammar t) fun form => form.isNormal = true) (t : Tree) :
    Gives (readExpr grammar t) fun e => e.every Expr.isNormal = true :=
  readExpr_every (p := fun _ => true) keeps_isNormal
    (fun t _ form found => form.meets_isNormal.trans (h t form found)) t
    (Tree.every_of_forall (fun _ => rfl) t)

/-- What a reading gives has a property, and it keeps only types that can be spelled for later if it
finds no others kept. -/
def Ensures {α : Type} (r : Reading α) (P : α → Prop) : Prop :=
  ∀ st a st', (∀ e ∈ st.pending.entries, e.2.Spelled) → r st = .ok (a, st') →
    P a ∧ ∀ e ∈ st'.pending.entries, e.2.Spelled

namespace Ensures

variable {α β : Type} {P : α → Prop} {Q : β → Prop}

theorem pure {a : α} (h : P a) : Ensures (Pure.pure a) P := by
  rintro st _ _ kept ⟨⟩
  exact ⟨h, kept⟩

theorem throw (e : ReadError) : Ensures (MonadExcept.throw e) P := by
  rintro st _ _ kept ⟨⟩

theorem lift {x : Except ReadError α} (h : Gives x P) : Ensures (liftM x) P := by
  intro st a st' kept found
  cases x with
  | error e => cases found
  | ok b =>
    cases found
    exact ⟨h a rfl, kept⟩

theorem bind {r : Reading α} {k : α → Reading β} (h : Ensures r P)
    (next : ∀ a, P a → Ensures (k a) Q) : Ensures (r >>= k) Q := by
  intro st b st' kept found
  change Except.bind (r st) (fun out => k out.1 out.2) = _ at found
  cases result : r st with
  | error e =>
    rw [result] at found
    cases found
  | ok out =>
    rw [result] at found
    obtain ⟨own, kept'⟩ := h st out.1 out.2 kept result
    exact next out.1 own out.2 b st' kept' found

theorem consumer (t : Tree) : Ensures (consumer t) fun _ => True := by
  rintro st _ _ kept ⟨⟩
  exact ⟨trivial, kept⟩

theorem postpone (id : String) {type : DeclaredType} (spelled : type.Spelled) :
    Ensures (postpone id type) fun _ => True := by
  rintro st _ _ kept ⟨⟩
  exact ⟨trivial, Dict.forall_insert kept spelled⟩

theorem takePending (id : String) :
    Ensures (takePending id) fun found => ∀ type, found = some type → type.Spelled := by
  rintro st _ _ kept ⟨⟩
  exact ⟨fun type found => Dict.of_find? kept found, Dict.forall_erase kept id⟩

theorem judgement : Judgement Ensures where
  pure := Ensures.pure
  throw := Ensures.throw
  lift := Ensures.lift
  bind := Ensures.bind

end Ensures

/-- What a grammar says of a statement, apart from the statements inside it. -/
def StmtForm.Normal : StmtForm → Prop
  | simple read => Ensures read fun ss => Stmt.everyAll Expr.isNormal Stmt.isNormal ss = true
  | function head _ => Ensures head fun f => f.isNormal = true
  | classDef head => Ensures head fun c => Expr.everyAll Expr.isNormal c.2 = true
  | cond test => Ensures test fun e => e.every Expr.isNormal = true

def Alternatives.Normal : Alternatives → Prop
  | direct | wrapped => True
  | clauses test => ∀ t, Gives (test t) fun e => ∀ a, e = some a → a.every Expr.isNormal = true

structure Grammar.Normal (g : Grammar) : Prop where
  form (inClass : Bool) (t : Tree) : (g.form inClass t).Normal
  alternatives : g.alternatives.Normal

theorem builds_normal :
    Builds (fun f => f.isNormal = true) (fun es => Expr.everyAll Expr.isNormal es = true)
      (fun e => e.every Expr.isNormal = true)
      (fun ss => Stmt.everyAll Expr.isNormal Stmt.isNormal ss = true) where
  nil := rfl
  append first rest := by
    rw [Stmt.everyAll_iff] at first rest ⊢
    exact List.forall_mem_append.2 ⟨first, rest⟩
  function declared inner := by
    simp [Stmt.everyAll, Stmt.every, Stmt.isNormal, declared, inner]
  classDef bases inner := by
    simp [Stmt.everyAll, Stmt.every, Stmt.isNormal, bases, inner]
  cond tested inner others := by
    simp [Stmt.everyAll, Stmt.every, Stmt.isNormal, tested, inner, others]

theorem readBlock_normal {g : Grammar} (h : g.Normal) (inClass : Bool) (ts : List Tree) :
    Ensures (readBlock g inClass ts) fun ss =>
      Stmt.everyAll Expr.isNormal Stmt.isNormal ss = true := by
  refine readBlock_judged ⟨Ensures.judgement, builds_normal, fun inClass t => ?_, ?_⟩ inClass ts
  · have own := h.form inClass t
    cases form : g.form inClass t <;> rwa [form] at own
  · intro test alternatives
    have tests := h.alternatives
    rwa [alternatives] at tests

end Reading

/-! The records that are found. -/

section

variable {Q : Record → Prop}

theorem Record.of_decodeLine (salvaged : ∀ v r, salvage? v = some r → Q r)
    {comment line code : List Char} {r : Record}
    (h : decodeLine comment line = some (code, some r)) : Q r := by
  obtain ⟨⟨before, rest⟩, -, found⟩ := Option.bind_eq_some_iff.1 h
  dsimp only at found
  split at found
  · obtain ⟨-, read⟩ := Prod.mk.inj (Option.some.inj found)
    obtain ⟨v, -, decoded⟩ := Option.bind_eq_some_iff.1 read
    exact salvaged v r decoded
  · cases found

theorem Record.forall_scan (salvaged : ∀ v r, salvage? v = some r → Q r)
    (comment source : List Char) : ∀ e ∈ (scan comment source).records, Q e.2 := by
  intro e mem
  obtain ⟨line, -, found⟩ := List.mem_filterMap.1 mem
  obtain ⟨⟨code, record⟩, decoded, found⟩ := Option.bind_eq_some_iff.1 found
  obtain ⟨r, rfl, rfl⟩ := Option.map_eq_some_iff.1 found
  exact of_decodeLine salvaged decoded

/-- A consumer takes a record that was found, or an empty one. -/
theorem Queue.forall_aligned (blank : Q {}) {records : List (Nat × Record)} (rows : List Nat)
    (h : ∀ e ∈ records, Q e.2) : ∀ r ∈ (Queue.aligned records rows).records, Q r := by
  change ∀ r ∈ alignedRecords records rows, Q r
  induction rows generalizing records with
  | nil => simp [alignedRecords]
  | cons row rows ih =>
    refine List.forall_mem_cons.2 ⟨?_, ih fun e mem => h e (List.mem_filter.1 mem).1⟩
    cases found : records.reverse.lookup row with
    | none => exact blank
    | some r =>
      obtain ⟨before, after, split, -⟩ := List.lookup_eq_some_iff.1 found
      exact h (row, r) (List.mem_reverse.1 (by simp [split]))

end

end Interlingua

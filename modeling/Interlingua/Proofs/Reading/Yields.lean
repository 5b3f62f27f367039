import Interlingua.Proofs.Reading.Phrases

/-!
# What a reading yields

Where no types are kept for later, a reading that succeeds yields a value and notes some rows. The
walk over a node yields what follows from the form of the node and from what its parts yield.
-/

namespace Interlingua.Reading

/-- The reading succeeds, and notes these rows after those noted before. No types are kept, before
or after. -/
def Yields {α : Type} (r : Reading α) (rows : List Nat) (a : α) : Prop :=
  ∀ before, r ⟨before, {}⟩ = .ok (a, ⟨before ++ rows, {}⟩)

namespace Yields

variable {α β : Type} {rows rows' : List Nat}

theorem pure (a : α) : Yields (Pure.pure a) [] a := by
  intro before
  rw [List.append_nil]
  rfl

theorem lift {x : Except ReadError α} {a : α} (h : x = .ok a) : Yields (liftM x) [] a := by
  intro before
  rw [h, List.append_nil]
  rfl

theorem bind {r : Reading α} {k : α → Reading β} {a : α} {b : β} (h : Yields r rows a)
    (next : Yields (k a) rows' b) : Yields (r >>= k) (rows ++ rows') b := by
  intro before
  have step : (r >>= k) ⟨before, {}⟩ = k a ⟨before ++ rows, {}⟩ := by
    simp only [Bind.bind, StateT.bind, Except.bind, h before]
  rw [step, next, List.append_assoc]

/-- A step that notes nothing, before all else. -/
theorem silent {r : Reading α} {k : α → Reading β} {a : α} {b : β} (h : Yields r [] a)
    (next : Yields (k a) rows b) : Yields (r >>= k) rows b :=
  h.bind next

/-- A step after which nothing is noted. -/
theorem last {r : Reading α} {k : α → Reading β} {a : α} {b : β} (h : Yields r rows a)
    (next : Yields (k a) [] b) : Yields (r >>= k) rows b := by
  have both := h.bind next
  rwa [List.append_nil] at both

theorem map {r : Reading α} {a : α} (h : Yields r rows a) (f : α → β) :
    Yields (f <$> r) rows (f a) := by
  rw [map_eq_pure_bind]
  exact h.last (pure (f a))

theorem consumer (t : Tree) : Yields (consumer t) [t.label.row] () :=
  fun _ => rfl

theorem takePending (id : String) : Yields (takePending id) [] none := by
  intro before
  rw [List.append_nil]
  rfl

theorem mapM_lift {f : α → Except ReadError β} {items : List α} {results : List β}
    (h : items.mapM f = .ok results) :
    Yields (items.mapM fun item => (f item : Reading β)) [] results := by
  induction items generalizing results with
  | nil =>
    obtain rfl : [] = results := Except.ok.inj h
    exact pure []
  | cons item rest ih =>
    rw [List.mapM_cons] at h
    cases first : f item with
    | error e => simp [first, Bind.bind, Except.bind] at h
    | ok b =>
      cases others : rest.mapM f with
      | error e => simp [first, others, Bind.bind, Except.bind] at h
      | ok bs =>
        obtain rfl : b :: bs = results := by
          simpa [first, others, Bind.bind, Except.bind, Pure.pure, Except.pure] using h
        rw [List.mapM_cons]
        exact (lift first).silent ((ih others).silent (pure _))

end Yields

section

variable {g : Grammar} {inClass : Bool} {t : Tree} {rows rows' : List Nat} {ss ss' : List Stmt}

theorem readBlock_parts (g : Grammar) (inClass : Bool) (ts : List Tree) :
    readBlock g inClass (ts.filter Tree.isPart) = readBlock g inClass ts := by
  induction ts with
  | nil => rfl
  | cons t rest ih =>
    by_cases part : t.isPart
    · rw [List.filter_cons_of_pos part, readBlock, readBlock, if_pos part, if_pos part, ih]
    · rw [List.filter_cons_of_neg part, ih, readBlock, if_neg part]

theorem readBlockAt_eq (g : Grammar) (inClass : Bool) {field : String} {b : Tree}
    (h : t.child? field = some b) :
    readBlockAt g inClass field t.children = some <$> readBlock g inClass b.children := by
  obtain ⟨l, children⟩ := b
  obtain ⟨fills, rest, same⟩ := walk_find (w := readBlockAt g inClass field)
    (fun t rest no => by
      obtain ⟨l, children⟩ := t
      rw [readBlockAt]
      exact if_neg (of_decide_eq_false no)) h
  have here : l.field = some field := of_decide_eq_true fills
  rw [same, readBlockAt, if_pos here]
  rfl

theorem readBranchAt_eq (inClass : Bool) {field : String} {b : Tree} (h : t.child? field = some b)
    (block : g.isBlock b.kind = true) :
    readBranchAt g inClass field t.children = some <$> readBlock g inClass b.children := by
  obtain ⟨l, children⟩ := b
  obtain ⟨fills, rest, same⟩ := walk_find (w := readBranchAt g inClass field)
    (fun t rest no => by
      obtain ⟨l, children⟩ := t
      rw [readBranchAt]
      exact if_neg (of_decide_eq_false no)) h
  have here : l.field = some field := of_decide_eq_true fills
  rw [same, readBranchAt, if_pos here]
  exact if_pos block

theorem readWrapped_none (h : t.child? "alternative" = none) :
    readWrapped g inClass t.children = pure [] := by
  unfold Tree.child? at h
  generalize t.children = ts at h
  induction ts with
  | nil => rfl
  | cons t rest ih =>
    obtain ⟨l, children⟩ := t
    have other : ¬ l.field = some "alternative" := fun fills =>
      List.find?_eq_none.1 h _ List.mem_cons_self (decide_eq_true fills)
    rw [readWrapped, if_neg other]
    exact ih (List.find?_eq_none.2 fun c mem => List.find?_eq_none.1 h c (List.mem_cons_of_mem _ mem))

theorem readWrapped_eq (g : Grammar) (inClass : Bool) {a : Tree} (h : t.child? "alternative" = some a) :
    readWrapped g inClass t.children = readFirstBranch g inClass a.children := by
  obtain ⟨l, children⟩ := a
  obtain ⟨fills, rest, same⟩ := walk_find (w := readWrapped g inClass)
    (fun t rest no => by
      obtain ⟨l, children⟩ := t
      rw [readWrapped]
      exact if_neg (of_decide_eq_false no)) h
  have here : l.field = some "alternative" := of_decide_eq_true fills
  rw [same, readWrapped, if_pos here]
  rfl

theorem readFirstBranch_eq (g : Grammar) (inClass : Bool) {b : Tree} (h : t.parts = [b]) :
    readFirstBranch g inClass t.children =
      if g.isBlock b.kind then readBlock g inClass b.children else readStmt g inClass b := by
  obtain ⟨l, children⟩ := b
  obtain ⟨part, rest, same⟩ := walk_find (w := readFirstBranch g inClass)
    (fun t rest no => by
      obtain ⟨l, children⟩ := t
      rw [readFirstBranch, if_neg (by simp [no])]) (find_part h)
  rw [same, readFirstBranch, if_pos part]
  rfl

theorem readClauses_filter (g : Grammar) (inClass : Bool)
    (test : Tree → Except ReadError (Option Expr)) (ts : List Tree) :
    readClauses g inClass test (ts.filter fun t => t.fills "alternative") =
      readClauses g inClass test ts := by
  induction ts with
  | nil => rfl
  | cons t rest ih =>
    obtain ⟨l, children⟩ := t
    by_cases fills : l.field = some "alternative"
    · have kept : (Tree.node l children).fills "alternative" = true := decide_eq_true fills
      rw [List.filter_cons, if_pos kept, readClauses, readClauses, if_pos fills, if_pos fills, ih]
    · have dropped : ¬ (Tree.node l children).fills "alternative" = true :=
        fun kept => fills (of_decide_eq_true kept)
      rw [List.filter_cons, if_neg dropped, ih, readClauses, if_neg fills]

end

/-- A field with a block that yields statements. -/
def HasBlock (g : Grammar) (inClass : Bool) (t : Tree) (field : String) (rows : List Nat)
    (ss : List Stmt) : Prop :=
  t.Has field fun b => Yields (readBlock g inClass b.children) rows ss

section

variable {g : Grammar} {inClass : Bool} {t : Tree} {rows rows' rows'' : List Nat}
  {ss ss' : List Stmt}

theorem yields_simple {read : Reading (List Stmt)} (form : g.form inClass t = .simple read)
    (h : Yields read rows ss) : Yields (readStmt g inClass t) rows ss := by
  obtain ⟨l, children⟩ := t
  rw [readStmt, form]
  exact h

theorem yields_function {head : Reading Signature} {f : Signature}
    (form : g.form inClass t = .function head true) (h : Yields head rows f)
    (body : HasBlock g false t "body" rows' ss) :
    Yields (readStmt g inClass t) (rows ++ rows') [.function f ss] := by
  obtain ⟨b, found, inner⟩ := body
  have block := readBlockAt_eq g false found
  obtain ⟨l, children⟩ := t
  rw [readStmt, form]
  refine h.bind ?_
  rw [show readBlockAt g false "body" children = _ from block]
  exact (inner.map some).last (Yields.pure _)

theorem yields_classDef {head : Reading (String × List Expr)} {name : String} {bases : List Expr}
    (form : g.form inClass t = .classDef head) (h : Yields head [] (name, bases))
    (body : HasBlock g true t "body" rows ss) :
    Yields (readStmt g inClass t) rows [.classDef name bases ss] := by
  obtain ⟨b, found, inner⟩ := body
  have block := readBlockAt_eq g true found
  obtain ⟨l, children⟩ := t
  rw [readStmt, form]
  refine h.silent ?_
  rw [show readBlockAt g true "body" children = _ from block]
  exact (inner.map some).last (Yields.pure _)

/-- The other branches of a conditional among its children. -/
def readOthers (g : Grammar) (inClass : Bool) (ts : List Tree) : Reading (List Stmt) :=
  match g.alternatives with
  | .direct => (·.getD []) <$> readBranchAt g inClass "alternative" ts
  | .wrapped => readWrapped g inClass ts
  | .clauses test => nest <$> readClauses g inClass test ts

theorem yields_cond {test : Reading Expr} {e : Expr} (form : g.form inClass t = .cond test)
    (h : Yields test [] e)
    (body : t.Has "consequence" fun b =>
      g.isBlock b.kind = true ∧ Yields (readBlock g inClass b.children) rows ss)
    (others : Yields (readOthers g inClass t.children) rows' ss') :
    Yields (readStmt g inClass t) (rows ++ rows') [.cond e ss ss'] := by
  obtain ⟨b, found, block, inner⟩ := body
  have branch := readBranchAt_eq inClass found block
  obtain ⟨l, children⟩ := t
  rw [readStmt, form]
  refine h.silent ?_
  rw [show readBranchAt g inClass "consequence" children = _ from branch]
  refine (inner.map some).bind ?_
  unfold readOthers at others
  revert others
  cases g.alternatives <;> exact fun others => others.last (Yields.pure _)

theorem yields_alternative {test : Tree → Except ReadError (Option Expr)} {tested : Option Expr}
    {ts : List Tree} {clauses : List (Option Expr × List Stmt)} (fills : t.fills "alternative" = true)
    (h : test t = .ok tested)
    (body : HasBlock g inClass t (if tested.isSome then "consequence" else "body") rows ss)
    (others : Yields (readClauses g inClass test ts) rows' clauses) :
    Yields (readClauses g inClass test (t :: ts)) (rows ++ rows') ((tested, ss) :: clauses) := by
  obtain ⟨b, found, inner⟩ := body
  have block := readBlockAt_eq g inClass found
  obtain ⟨l, children⟩ := t
  have here : l.field = some "alternative" := of_decide_eq_true fills
  rw [readClauses, if_pos here]
  refine (Yields.lift h).silent ?_
  dsimp only
  rw [show readBlockAt g inClass _ children = _ from block]
  exact (inner.map some).bind (others.last (Yields.pure _))

end

end Interlingua.Reading

import Interlingua.Proofs.Reading.Expressions

/-!
# What a walk builds

A judgement says of a reading what it gives. Where it goes through single steps, and what it says of
statements is kept when they are put together, it holds of everything that a walk builds. The walk is
gone through once, for all judgements and all properties of statements.
-/

namespace Interlingua

namespace Reading

/-- A way to say what a reading gives that goes through every single step. -/
structure Judgement (J : {α : Type} → Reading α → (α → Prop) → Prop) : Prop where
  pure {α : Type} {P : α → Prop} {a : α} : P a → J (Pure.pure a) P
  throw {α : Type} {P : α → Prop} (e : ReadError) : J (MonadExcept.throw e : Reading α) P
  lift {α : Type} {P : α → Prop} {x : Except ReadError α} : Gives x P → J (liftM x) P
  bind {α β : Type} {P : α → Prop} {Q : β → Prop} {r : Reading α} {k : α → Reading β} :
    J r P → (∀ a, P a → J (k a) Q) → J (r >>= k) Q

namespace Judgement

variable {J : {α : Type} → Reading α → (α → Prop) → Prop} (judgement : Judgement J)
  {α β : Type} {P : α → Prop} {Q : β → Prop}

include judgement

theorem map {r : Reading α} {f : α → β} (h : J r P) (next : ∀ a, P a → Q (f a)) :
    J (f <$> r) Q := by
  rw [map_eq_pure_bind]
  exact judgement.bind h fun a own => judgement.pure (next a own)

theorem mapM {f : α → Reading β} (items : List α) (h : ∀ item, J (f item) Q) :
    J (items.mapM f) fun bs => ∀ b ∈ bs, Q b := by
  induction items with
  | nil => exact judgement.pure (by simp)
  | cons item rest ih =>
    rw [List.mapM_cons]
    refine judgement.bind (h item) fun b own => judgement.bind ih fun bs others => ?_
    exact judgement.pure (List.forall_mem_cons.2 ⟨own, others⟩)

end Judgement

/-- Properties of signatures, bases and tests, and one of statements that is kept where a walk puts
statements together. -/
structure Builds (signed : Signature → Prop) (based : List Expr → Prop) (tested : Expr → Prop)
    (built : List Stmt → Prop) : Prop where
  nil : built []
  append {ss ts : List Stmt} : built ss → built ts → built (ss ++ ts)
  function {f : Signature} {body : List Stmt} : signed f → built body → built [.function f body]
  classDef {name : String} {bases : List Expr} {body : List Stmt} :
    based bases → built body → built [.classDef name bases body]
  cond {test : Expr} {body orelse : List Stmt} :
    tested test → built body → built orelse → built [.cond test body orelse]

section

variable (J : {α : Type} → Reading α → (α → Prop) → Prop) (signed : Signature → Prop)
  (based : List Expr → Prop) (tested : Expr → Prop) (built : List Stmt → Prop)

/-- What a grammar says of a statement, apart from the statements inside it. -/
def StmtForm.Judged : StmtForm → Prop
  | simple read => J read built
  | function head _ => J head signed
  | classDef head => J head fun c => based c.2
  | cond test => J test tested

/-- What is asked of a grammar, so that a judgement holds of what is read by it. -/
structure Grammar.Judged (g : Grammar) : Prop where
  judgement : Judgement J
  builds : Builds signed based tested built
  form (inClass : Bool) (t : Tree) : (g.form inClass t).Judged J signed based tested built
  clauses {test : Tree → Except ReadError (Option Expr)} : g.alternatives = .clauses test →
    ∀ t, Gives (test t) fun e => ∀ a, e = some a → tested a

end

section

variable {J : {α : Type} → Reading α → (α → Prop) → Prop} {signed : Signature → Prop}
  {based : List Expr → Prop} {tested : Expr → Prop} {built : List Stmt → Prop}

theorem Builds.nest (builds : Builds signed based tested built)
    {clauses : List (Option Expr × List Stmt)}
    (h : ∀ c ∈ clauses, (∀ e, c.1 = some e → tested e) ∧ built c.2) : built (nest clauses) := by
  induction clauses with
  | nil => exact builds.nil
  | cons clause rest ih =>
    obtain ⟨test, body⟩ := clause
    obtain ⟨⟨own, inner⟩, others⟩ := List.forall_mem_cons.1 h
    cases test with
    | none => exact inner
    | some test => exact builds.cond (own test rfl) inner (ih others)

variable {g : Grammar}

mutual

theorem readStmt_judged (h : g.Judged J signed based tested built) (inClass : Bool) (t : Tree) :
    J (readStmt g inClass t) built :=
  match t with
  | .node l children => by
    have own := h.form inClass (.node l children)
    rw [readStmt]
    cases form : g.form inClass (.node l children) with
    | simple read =>
      rw [form] at own
      exact own
    | function head needsBody =>
      rw [form] at own
      refine h.judgement.bind own fun f declared => ?_
      refine h.judgement.bind (readBlockAt_judged h false "body" children) fun body inner => ?_
      cases body with
      | some body => exact h.judgement.pure (h.builds.function declared (inner body rfl))
      | none =>
        cases needsBody with
        | true => exact h.judgement.throw _
        | false => exact h.judgement.pure (h.builds.function declared h.builds.nil)
    | classDef head =>
      rw [form] at own
      refine h.judgement.bind own fun named bases => ?_
      refine h.judgement.bind (readBlockAt_judged h true "body" children) fun body inner => ?_
      cases body with
      | some body => exact h.judgement.pure (h.builds.classDef bases (inner body rfl))
      | none => exact h.judgement.throw _
    | cond test =>
      rw [form] at own
      refine h.judgement.bind own fun test holds => ?_
      refine h.judgement.bind (readBranchAt_judged h inClass "consequence" children)
        fun body inner => ?_
      cases body with
      | none => exact h.judgement.throw _
      | some body =>
        have finish (orelse : List Stmt) (others : built orelse) :
            J (pure [Stmt.cond test body orelse]) built :=
          h.judgement.pure (h.builds.cond holds (inner body rfl) others)
        cases alternatives : g.alternatives with
        | direct =>
          have branch := readBranchAt_judged h inClass "alternative" children
          refine h.judgement.bind (h.judgement.map branch fun branch inner => ?_) finish
          cases branch with
          | none => exact h.builds.nil
          | some branch => exact inner branch rfl
        | wrapped => exact h.judgement.bind (readWrapped_judged h inClass children) finish
        | clauses test =>
          have clauses := readClauses_judged h inClass (h.clauses alternatives) children
          exact h.judgement.bind (h.judgement.map clauses fun _ => h.builds.nest) finish

theorem readBlock_judged (h : g.Judged J signed based tested built) (inClass : Bool)
    (ts : List Tree) : J (readBlock g inClass ts) built :=
  match ts with
  | [] => h.judgement.pure h.builds.nil
  | t :: rest => by
    rw [readBlock]
    split
    · refine h.judgement.bind (readStmt_judged h inClass t) fun first own => ?_
      refine h.judgement.bind (readBlock_judged h inClass rest) fun others inner => ?_
      exact h.judgement.pure (h.builds.append own inner)
    · exact readBlock_judged h inClass rest

theorem readBlockAt_judged (h : g.Judged J signed based tested built) (inClass : Bool)
    (field : String) (ts : List Tree) :
    J (readBlockAt g inClass field ts) fun block => ∀ ss, block = some ss → built ss :=
  match ts with
  | [] => h.judgement.pure (by simp)
  | .node l children :: rest => by
    rw [readBlockAt]
    split
    · exact h.judgement.map (readBlock_judged h inClass children) (by simp)
    · exact readBlockAt_judged h inClass field rest

theorem readBranchAt_judged (h : g.Judged J signed based tested built) (inClass : Bool)
    (field : String) (ts : List Tree) :
    J (readBranchAt g inClass field ts) fun branch => ∀ ss, branch = some ss → built ss :=
  match ts with
  | [] => h.judgement.pure (by simp)
  | .node l children :: rest => by
    rw [readBranchAt]
    split
    · split
      · exact h.judgement.map (readBlock_judged h inClass children) (by simp)
      · exact h.judgement.map (readStmt_judged h inClass (.node l children)) (by simp)
    · exact readBranchAt_judged h inClass field rest

theorem readWrapped_judged (h : g.Judged J signed based tested built) (inClass : Bool)
    (ts : List Tree) : J (readWrapped g inClass ts) built :=
  match ts with
  | [] => h.judgement.pure h.builds.nil
  | .node l children :: rest => by
    rw [readWrapped]
    split
    · exact readFirstBranch_judged h inClass children
    · exact readWrapped_judged h inClass rest

theorem readFirstBranch_judged (h : g.Judged J signed based tested built) (inClass : Bool)
    (ts : List Tree) : J (readFirstBranch g inClass ts) built :=
  match ts with
  | [] => h.judgement.pure h.builds.nil
  | .node l children :: rest => by
    rw [readFirstBranch]
    split
    · split
      · exact readBlock_judged h inClass children
      · exact readStmt_judged h inClass (.node l children)
    · exact readFirstBranch_judged h inClass rest

theorem readClauses_judged (h : g.Judged J signed based tested built) (inClass : Bool)
    {test : Tree → Except ReadError (Option Expr)}
    (tests : ∀ t, Gives (test t) fun e => ∀ a, e = some a → tested a) (ts : List Tree) :
    J (readClauses g inClass test ts) fun clauses =>
      ∀ c ∈ clauses, (∀ e, c.1 = some e → tested e) ∧ built c.2 :=
  match ts with
  | [] => h.judgement.pure (by simp)
  | .node l children :: rest => by
    rw [readClauses]
    split
    · refine h.judgement.bind (h.judgement.lift (tests (.node l children))) fun test' own => ?_
      refine h.judgement.bind (readBlockAt_judged h inClass _ children) fun body inner => ?_
      cases body with
      | none => exact h.judgement.throw _
      | some body =>
        refine h.judgement.bind (readClauses_judged h inClass tests rest) fun others all => ?_
        exact h.judgement.pure (List.forall_mem_cons.2 ⟨⟨own, inner body rfl⟩, all⟩)
    · exact readClauses_judged h inClass tests rest

end

end

end Reading

end Interlingua

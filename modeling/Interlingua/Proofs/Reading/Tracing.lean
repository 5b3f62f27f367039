import Interlingua.Proofs.Reading.Origins

/-!
# The walk with nodes in place of rows

`traceStmt` and its companions visit a tree as `Reading.readStmt` does. They note no rows; what they
build carries its nodes instead. How a grammar reads statements that hold no others is a parameter,
and so is the claim that it notes a row for each assignment among them.
-/

namespace Interlingua

section

variable (q : Tree → Bool)

mutual

/-- Whether a condition holds of a node and of all nodes below it. -/
def Tree.every : Tree → Bool
  | .node l children => q (.node l children) && Tree.everyAll children

def Tree.everyAll : List Tree → Bool
  | [] => true
  | t :: ts => Tree.every t && Tree.everyAll ts

end

end

namespace Reading

/-- A reading that keeps the types of variables but notes no rows. -/
abbrev Tracing := StateT (Dict DeclaredType) (Except ReadError)

/-- A reading without the rows it notes. -/
def unnoted {α : Type} (r : Reading α) : Tracing α := fun pending =>
  match r ⟨[], pending⟩ with
  | .ok (a, st) => .ok (a, st.pending)
  | .error e => .error e

/-- Read a node that is the origin of all that is built of it. -/
def allFrom (origin : Tree) (r : Reading (List Stmt)) : Tracing (List Sourced) := do
  return Sourced.ofStmts origin (← unnoted r)

section

variable (g : Grammar) (leaf : Bool → Tree → Tracing (List Sourced))

mutual

def traceStmt (inClass : Bool) : Tree → Tracing (List Sourced)
  | .node l children => do
    match g.form inClass (.node l children) with
    | .simple _ => leaf inClass (.node l children)
    | .function head needsBody => do
      let signature ← unnoted head
      match ← traceBlockAt false "body" children with
      | some body => return [.function (.node l children) signature body]
      | none =>
        if needsBody then throw (.missing l.kind "body")
        else return [.function (.node l children) signature []]
    | .classDef head => do
      let (name, bases) ← unnoted head
      match ← traceBlockAt true "body" children with
      | some body => return [.classDef name bases body]
      | none => throw (.missing l.kind "body")
    | .cond test => do
      let test ← unnoted test
      match ← traceBranchAt inClass "consequence" children with
      | none => throw (.missing l.kind "consequence")
      | some body =>
        let orelse ← match g.alternatives with
          | .direct => (·.getD []) <$> traceBranchAt inClass "alternative" children
          | .wrapped => traceWrapped inClass children
          | .clauses test => Sourced.nest <$> traceClauses inClass test children
        return [.cond test body orelse]

def traceBlock (inClass : Bool) : List Tree → Tracing (List Sourced)
  | [] => return []
  | t :: rest =>
    if t.isPart then do
      let stmts ← traceStmt inClass t
      return stmts ++ (← traceBlock inClass rest)
    else traceBlock inClass rest

def traceBlockAt (inClass : Bool) (field : String) : List Tree → Tracing (Option (List Sourced))
  | [] => return none
  | .node l children :: rest =>
    if l.field = some field then some <$> traceBlock inClass children
    else traceBlockAt inClass field rest

def traceBranchAt (inClass : Bool) (field : String) : List Tree → Tracing (Option (List Sourced))
  | [] => return none
  | .node l children :: rest =>
    if l.field = some field then
      if g.isBlock l.kind then some <$> traceBlock inClass children
      else some <$> traceStmt inClass (.node l children)
    else traceBranchAt inClass field rest

def traceWrapped (inClass : Bool) : List Tree → Tracing (List Sourced)
  | [] => return []
  | .node l children :: rest =>
    if l.field = some "alternative" then traceFirstBranch inClass children
    else traceWrapped inClass rest

def traceFirstBranch (inClass : Bool) : List Tree → Tracing (List Sourced)
  | [] => return []
  | .node l children :: rest =>
    if (Tree.node l children).isPart then
      if g.isBlock l.kind then traceBlock inClass children
      else traceStmt inClass (.node l children)
    else traceFirstBranch inClass rest

def traceClauses (inClass : Bool) (test : Tree → Except ReadError (Option Expr)) :
    List Tree → Tracing (List (Option Expr × List Sourced))
  | [] => return []
  | .node l children :: rest =>
    if l.field = some "alternative" then do
      let test' ← test (.node l children)
      let field := if test'.isSome then "consequence" else "body"
      match ← traceBlockAt inClass field children with
      | none => throw (.missing l.kind field)
      | some body => return (test', body) :: (← traceClauses inClass test rest)
    else traceClauses inClass test rest

end

end

/-- Where the rows of the nodes in `before` are noted, `r` goes as `r'` does: it gives what `r'`
gives as `view` shows it, and then the rows of `nodes` are noted. -/
def Follows {α β : Type} (before : List Tree) (r : Reading α) (r' : Tracing β) (view : β → α)
    (nodes : β → List Tree) : Prop :=
  ∀ (rows : List Nat) (pending : Dict DeclaredType),
    r ⟨rows ++ before.map (·.label.row), pending⟩ = match r' pending with
      | .ok (b, pending) => .ok (view b, ⟨rows ++ (nodes b).map (·.label.row), pending⟩)
      | .error e => .error e

namespace Follows

variable {α β γ δ : Type} {before : List Tree}

theorem pure (view : β → α) (nodes : β → List Tree) (b : β) (h : nodes b = before) :
    Follows before (Pure.pure (view b)) (Pure.pure b) view nodes := by
  intro rows pending
  subst h
  rfl

theorem throw (e : ReadError) (view : β → α) (nodes : β → List Tree) :
    Follows before (MonadExcept.throw e) (MonadExcept.throw e) view nodes :=
  fun _ _ => rfl

theorem lift (x : Except ReadError α) :
    Follows before (liftM x) (liftM x) (fun a => a) (fun _ => before) := by
  intro rows pending
  cases x <;> rfl

theorem bind {r : Reading α} {r' : Tracing β} {view : β → α} {nodes : β → List Tree}
    {k : α → Reading γ} {k' : β → Tracing δ} {view' : δ → γ} {nodes' : δ → List Tree}
    (h : Follows before r r' view nodes)
    (next : ∀ pending b pending', r' pending = .ok (b, pending') →
      Follows (nodes b) (k (view b)) (k' b) view' nodes') :
    Follows before (r >>= k) (r' >>= k') view' nodes' := by
  intro rows pending
  have first := h rows pending
  simp only [Bind.bind, StateT.bind, Except.bind]
  rw [first]
  cases result : r' pending with
  | error e => rfl
  | ok result' =>
    obtain ⟨b, pending'⟩ := result'
    exact next pending b pending' result rows pending'

theorem map {r : Reading α} {r' : Tracing β} {view : β → α} {nodes : β → List Tree}
    {f : α → γ} {f' : β → δ} {view' : δ → γ} {nodes' : δ → List Tree}
    (h : Follows before r r' view nodes)
    (same : ∀ pending b pending', r' pending = .ok (b, pending') →
      view' (f' b) = f (view b) ∧ nodes' (f' b) = nodes b) :
    Follows before (f <$> r) (f' <$> r') view' nodes' := by
  have composed : Follows before (r >>= fun a => Pure.pure (f a))
      (r' >>= fun b => Pure.pure (f' b)) view' nodes' :=
    h.bind fun pending b pending' result => by
      obtain ⟨shown, noted⟩ := same pending b pending' result
      rw [← shown]
      exact Follows.pure view' nodes' (f' b) noted
  simpa using composed

/-- What is noted before a reading stays in front of what it notes itself. -/
theorem after {r : Reading α} {r' : Tracing β} {view : β → α} {nodes : β → List Tree}
    (h : Follows [] r r' view nodes) (before : List Tree) :
    Follows before r r' view (fun b => before ++ nodes b) := by
  intro rows pending
  have shifted := h (rows ++ before.map (·.label.row)) pending
  simpa [List.append_assoc] using shifted

theorem unnoted_eq {r : Reading α} {r' : Tracing α} {nodes : α → List Tree}
    (h : Follows [] r r' (fun a => a) nodes) : unnoted r = r' := by
  funext pending
  have start := h [] pending
  simp only [List.map_nil, List.append_nil, List.nil_append] at start
  rw [unnoted, start]
  cases r' pending <;> rfl

end Follows

/-- Where the rows of the nodes in `before` are noted, those of `nodes` are after the reading; what
it gives does not depend on the rows. -/
def Notes {α : Type} (before : List Tree) (r : Reading α) (nodes : α → List Tree) : Prop :=
  ∃ r' : Tracing α, Follows before r r' (fun a => a) nodes

namespace Notes

variable {α β : Type} {before : List Tree}

theorem pure (nodes : α → List Tree) (a : α) (h : nodes a = before) :
    Notes before (Pure.pure a) nodes :=
  ⟨_, Follows.pure (fun a => a) nodes a h⟩

theorem lift (x : Except ReadError α) : Notes before (liftM x) (fun _ => before) :=
  ⟨_, Follows.lift x⟩

theorem bind {r : Reading α} {k : α → Reading β} {nodes : α → List Tree} {nodes' : β → List Tree}
    (h : Notes before r nodes) (next : ∀ a, Notes (nodes a) (k a) nodes') :
    Notes before (r >>= k) nodes' := by
  obtain ⟨r', follows⟩ := h
  refine ⟨r' >>= fun a => Classical.choose (next a), follows.bind fun _ a _ _ => ?_⟩
  exact Classical.choose_spec (next a)

theorem consumer (t : Tree) : Notes before (consumer t) (fun _ => before ++ [t]) := by
  refine ⟨Pure.pure (), fun rows pending => ?_⟩
  have noted : rows ++ before.map (·.label.row) ++ [t.label.row] =
      rows ++ (before ++ [t]).map (·.label.row) := by
    rw [List.map_append, List.append_assoc]
    rfl
  exact congrArg (fun rows => Except.ok ((), ReadState.mk rows pending)) noted

theorem postpone (id : String) (type : DeclaredType) :
    Notes before (postpone id type) (fun _ => before) :=
  ⟨fun pending => .ok ((), pending.insert id type), fun _ _ => rfl⟩

theorem takePending (id : String) : Notes before (takePending id) (fun _ => before) :=
  ⟨fun pending => .ok (pending.find? id, pending.erase id), fun _ _ => rfl⟩

theorem follows_unnoted {r : Reading α} {nodes : α → List Tree} (h : Notes [] r nodes) :
    Follows [] r (unnoted r) (fun a => a) nodes := by
  obtain ⟨r', follows⟩ := h
  rw [follows.unnoted_eq]
  exact follows

end Notes

/-- What is asked of a grammar and of its traced reading of statements that hold no others. Only the
last alternative of a conditional may be without a test where `wellFormed` holds of its node. -/
structure Traceable (g : Grammar) (leaf : Bool → Tree → Tracing (List Sourced))
    (wellFormed : Tree → Bool) : Prop where
  simple {inClass t read} (form : g.form inClass t = .simple read) :
    Follows [] read (leaf inClass t) Sourced.stmts Sourced.origins
  function {inClass t head needsBody} (form : g.form inClass t = .function head needsBody) :
    Notes [] head (fun _ => [t])
  classDef {inClass t head} (form : g.form inClass t = .classDef head) : Notes [] head (fun _ => [])
  cond {inClass t test} (form : g.form inClass t = .cond test) : Notes [] test (fun _ => [])
  clauses {inClass t condition test} (form : g.form inClass t = .cond condition)
    (alternatives : g.alternatives = .clauses test) (wf : wellFormed t = true) :
    ∀ alternative ∈ (t.childrenAt "alternative").dropLast, test alternative ≠ .ok none

/-- What is asked of one node and of its traced reading. -/
def StmtForm.Traces (t : Tree) (leaf : Tracing (List Sourced)) : StmtForm → Prop
  | simple read => Follows [] read leaf Sourced.stmts Sourced.origins
  | function head _ => Notes [] head fun _ => [t]
  | classDef head => Notes [] head fun _ => []
  | cond test => Notes [] test fun _ => []

theorem Traceable.of_forms {g : Grammar} {leaf : Bool → Tree → Tracing (List Sourced)}
    {wellFormed : Tree → Bool} (traces : ∀ inClass t, (g.form inClass t).Traces t (leaf inClass t))
    (clauses : ∀ {inClass t condition test}, g.form inClass t = .cond condition →
      g.alternatives = .clauses test → wellFormed t = true →
      ∀ alternative ∈ (t.childrenAt "alternative").dropLast, test alternative ≠ .ok none) :
    Traceable g leaf wellFormed where
  simple {inClass t _} form := by
    have own := traces inClass t
    rwa [form] at own
  function {inClass t _ _} form := by
    have own := traces inClass t
    rwa [form] at own
  classDef {inClass t _} form := by
    have own := traces inClass t
    rwa [form] at own
  cond {inClass t _} form := by
    have own := traces inClass t
    rwa [form] at own
  clauses := clauses

private theorem bind_eq_ok {α β : Type} {r : Tracing α} {k : α → Tracing β}
    {pending : Dict DeclaredType} {out : β × Dict DeclaredType} (h : (r >>= k) pending = .ok out) :
    ∃ a pending', r pending = .ok (a, pending') ∧ k a pending' = .ok out := by
  simp only [bind, StateT.bind, Except.bind] at h
  split at h
  · cases h
  · rename_i result found
    exact ⟨result.1, result.2, found, h⟩

private theorem lift_eq_ok {α : Type} {x : Except ReadError α} {pending : Dict DeclaredType}
    {out : α × Dict DeclaredType} (h : (liftM x : Tracing α) pending = .ok out) : x = .ok out.1 := by
  cases x with
  | error e => cases h
  | ok a =>
    cases h
    rfl

section

variable {g : Grammar} {leaf : Bool → Tree → Tracing (List Sourced)}

/-- The clauses that are built have tests where their nodes have. -/
private theorem traceClauses_tested {inClass : Bool}
    {test : Tree → Except ReadError (Option Expr)} {children : List Tree}
    {clauses : List (Option Expr × List Sourced)} {pending pending' : Dict DeclaredType}
    (h : traceClauses g leaf inClass test children pending = .ok (clauses, pending'))
    (tested : ∀ t ∈ (children.filter (·.fills "alternative")).dropLast, test t ≠ .ok none) :
    clauses.length = (children.filter (·.fills "alternative")).length ∧
      ∀ c ∈ clauses.dropLast, c.1.isSome = true := by
  induction children generalizing clauses pending with
  | nil =>
    cases h
    simp
  | cons t rest ih =>
    obtain ⟨l, inner⟩ := t
    rw [traceClauses] at h
    by_cases fills : l.field = some "alternative"
    · have taken : (Tree.node l inner).fills "alternative" = true := decide_eq_true fills
      simp only [List.filter_cons, taken, if_true] at tested ⊢
      rw [if_pos fills] at h
      obtain ⟨found, pending₁, read, h⟩ := bind_eq_ok h
      obtain ⟨body?, pending₂, -, h⟩ := bind_eq_ok h
      cases body? with
      | none => cases h
      | some body =>
        obtain ⟨tail, pending₃, read', h⟩ := bind_eq_ok h
        cases h
        cases others : rest.filter (·.fills "alternative") with
        | nil =>
          obtain ⟨length, -⟩ := ih read' (by simp [others])
          have empty : tail = [] := by simpa [others] using length
          simp [empty]
        | cons other others' =>
          rw [others] at tested
          obtain ⟨length, later⟩ := ih read' fun t mem => by
            rw [others] at mem
            exact tested t (by simp [List.dropLast, mem])
          have first : found.isSome = true := by
            have known := tested (.node l inner) (by simp [List.dropLast])
            rw [lift_eq_ok read] at known
            cases found <;> simp_all
          refine ⟨by simp [length, others], ?_⟩
          intro c mem
          cases tail with
          | nil => simp at mem
          | cons c' tail =>
            rcases List.mem_cons.1 mem with rfl | mem
            · exact first
            · exact later c mem
    · have skipped : (Tree.node l inner).fills "alternative" = false := decide_eq_false fills
      rw [if_neg fills] at h
      simp only [List.filter_cons, skipped] at tested ⊢
      exact ih h tested

private theorem follows_one (s : Sourced) {before : List Tree} (h : Sourced.origins [s] = before) :
    Follows before (pure [s.stmt]) (pure [s]) Sourced.stmts Sourced.origins :=
  Follows.pure Sourced.stmts Sourced.origins [s] h

variable {wellFormed : Tree → Bool}

mutual

theorem readStmt_follows (traceable : Traceable g leaf wellFormed) (inClass : Bool) (t : Tree)
    (wf : t.every wellFormed = true) :
    Follows [] (readStmt g inClass t) (traceStmt g leaf inClass t) Sourced.stmts
      Sourced.origins :=
  match t with
  | .node l children => by
    obtain ⟨own, inner⟩ := (Bool.and_eq_true _ _).mp wf
    rw [readStmt, traceStmt]
    cases form : g.form inClass (.node l children) with
    | simple read => exact traceable.simple form
    | function head needsBody =>
      refine (traceable.function form).follows_unnoted.bind fun _ f _ _ => ?_
      refine ((readBlockAt_follows traceable false "body" children inner).after _).bind
        fun _ body _ _ => ?_
      cases body with
      | some body =>
        refine follows_one (.function (.node l children) f body) ?_
        simp [Sourced.origins, Sourced.attributedAll, Sourced.attributed]
      | none =>
        cases needsBody with
        | true => exact Follows.throw _ _ _
        | false => exact follows_one (.function (.node l children) f []) rfl
    | classDef head =>
      refine (traceable.classDef form).follows_unnoted.bind fun _ named _ _ => ?_
      refine ((readBlockAt_follows traceable true "body" children inner).after _).bind
        fun _ body _ _ => ?_
      cases body with
      | some body =>
        refine follows_one (.classDef named.1 named.2 body) ?_
        simp [Sourced.origins, Sourced.attributedAll, Sourced.attributed]
      | none => exact Follows.throw _ _ _
    | cond test =>
      refine (traceable.cond form).follows_unnoted.bind fun _ test' _ _ => ?_
      refine ((readBranchAt_follows traceable inClass "consequence" children inner).after _).bind
        fun _ body _ _ => ?_
      cases body with
      | none => exact Follows.throw _ _ _
      | some body =>
        have finish (orelse : List Sourced) :
            Follows ([] ++ Sourced.origins body ++ Sourced.origins orelse)
              (pure [Stmt.cond test' (Sourced.stmts body) (Sourced.stmts orelse)])
              (pure [Sourced.cond test' body orelse]) Sourced.stmts Sourced.origins := by
          refine follows_one (.cond test' body orelse) ?_
          simp [Sourced.origins, Sourced.attributedAll, Sourced.attributed]
        cases alternatives : g.alternatives with
        | direct =>
          have branch : Follows [] ((·.getD []) <$> readBranchAt g inClass "alternative" children)
              ((·.getD []) <$> traceBranchAt g leaf inClass "alternative" children)
              Sourced.stmts Sourced.origins := by
            refine (readBranchAt_follows traceable inClass "alternative" children inner).map ?_
            intro _ branch _ _
            cases branch <;> exact ⟨rfl, rfl⟩
          exact (branch.after _).bind fun _ orelse _ _ => finish orelse
        | wrapped =>
          have branch := readWrapped_follows traceable inClass children inner
          exact (branch.after _).bind fun _ orelse _ _ => finish orelse
        | clauses test =>
          have branch : Follows [] (nest <$> readClauses g inClass test children)
              (Sourced.nest <$> traceClauses g leaf inClass test children)
              Sourced.stmts Sourced.origins := by
            refine (readClauses_follows traceable inClass test children inner).map ?_
            intro _ clauses _ result
            have tested := traceable.clauses form alternatives own
            have ordered := (traceClauses_tested result tested).2
            exact ⟨Sourced.stmts_nest clauses, Sourced.origins_nest ordered⟩
          exact (branch.after _).bind fun _ orelse _ _ => finish orelse

theorem readBlock_follows (traceable : Traceable g leaf wellFormed) (inClass : Bool)
    (ts : List Tree) (wf : Tree.everyAll wellFormed ts = true) :
    Follows [] (readBlock g inClass ts) (traceBlock g leaf inClass ts) Sourced.stmts
      Sourced.origins :=
  match ts with
  | [] => Follows.pure Sourced.stmts Sourced.origins [] rfl
  | t :: rest => by
    obtain ⟨own, inner⟩ := (Bool.and_eq_true _ _).mp wf
    rw [readBlock, traceBlock]
    split
    · refine (readStmt_follows traceable inClass t own).bind fun _ first _ _ => ?_
      refine ((readBlock_follows traceable inClass rest inner).after _).bind fun _ others _ _ => ?_
      rw [← Sourced.stmts_append]
      exact Follows.pure _ _ (first ++ others) (Sourced.origins_append _ _)
    · exact readBlock_follows traceable inClass rest inner

theorem readBlockAt_follows (traceable : Traceable g leaf wellFormed) (inClass : Bool)
    (field : String) (ts : List Tree) (wf : Tree.everyAll wellFormed ts = true) :
    Follows [] (readBlockAt g inClass field ts) (traceBlockAt g leaf inClass field ts)
      (Option.map Sourced.stmts) (fun block => Sourced.origins (block.getD [])) :=
  match ts with
  | [] => Follows.pure (Option.map Sourced.stmts) _ none rfl
  | .node l children :: rest => by
    obtain ⟨own, inner⟩ := (Bool.and_eq_true _ _).mp wf
    rw [readBlockAt, traceBlockAt]
    split
    · exact (readBlock_follows traceable inClass children ((Bool.and_eq_true _ _).mp own).2).map
        fun _ _ _ _ => ⟨rfl, rfl⟩
    · exact readBlockAt_follows traceable inClass field rest inner

theorem readBranchAt_follows (traceable : Traceable g leaf wellFormed) (inClass : Bool)
    (field : String) (ts : List Tree) (wf : Tree.everyAll wellFormed ts = true) :
    Follows [] (readBranchAt g inClass field ts) (traceBranchAt g leaf inClass field ts)
      (Option.map Sourced.stmts) (fun branch => Sourced.origins (branch.getD [])) :=
  match ts with
  | [] => Follows.pure (Option.map Sourced.stmts) _ none rfl
  | .node l children :: rest => by
    obtain ⟨own, inner⟩ := (Bool.and_eq_true _ _).mp wf
    rw [readBranchAt, traceBranchAt]
    split
    · split
      · exact (readBlock_follows traceable inClass children ((Bool.and_eq_true _ _).mp own).2).map
          fun _ _ _ _ => ⟨rfl, rfl⟩
      · exact (readStmt_follows traceable inClass (.node l children) own).map
          fun _ _ _ _ => ⟨rfl, rfl⟩
    · exact readBranchAt_follows traceable inClass field rest inner

theorem readWrapped_follows (traceable : Traceable g leaf wellFormed) (inClass : Bool)
    (ts : List Tree) (wf : Tree.everyAll wellFormed ts = true) :
    Follows [] (readWrapped g inClass ts) (traceWrapped g leaf inClass ts) Sourced.stmts
      Sourced.origins :=
  match ts with
  | [] => Follows.pure Sourced.stmts Sourced.origins [] rfl
  | .node l children :: rest => by
    obtain ⟨own, inner⟩ := (Bool.and_eq_true _ _).mp wf
    rw [readWrapped, traceWrapped]
    split
    · exact readFirstBranch_follows traceable inClass children ((Bool.and_eq_true _ _).mp own).2
    · exact readWrapped_follows traceable inClass rest inner

theorem readFirstBranch_follows (traceable : Traceable g leaf wellFormed) (inClass : Bool)
    (ts : List Tree) (wf : Tree.everyAll wellFormed ts = true) :
    Follows [] (readFirstBranch g inClass ts) (traceFirstBranch g leaf inClass ts) Sourced.stmts
      Sourced.origins :=
  match ts with
  | [] => Follows.pure Sourced.stmts Sourced.origins [] rfl
  | .node l children :: rest => by
    obtain ⟨own, inner⟩ := (Bool.and_eq_true _ _).mp wf
    rw [readFirstBranch, traceFirstBranch]
    split
    · split
      · exact readBlock_follows traceable inClass children ((Bool.and_eq_true _ _).mp own).2
      · exact readStmt_follows traceable inClass (.node l children) own
    · exact readFirstBranch_follows traceable inClass rest inner

theorem readClauses_follows (traceable : Traceable g leaf wellFormed) (inClass : Bool)
    (test : Tree → Except ReadError (Option Expr)) (ts : List Tree)
    (wf : Tree.everyAll wellFormed ts = true) :
    Follows [] (readClauses g inClass test ts) (traceClauses g leaf inClass test ts)
      (List.map fun c => (c.1, Sourced.stmts c.2))
      (List.flatMap fun c => Sourced.origins c.2) :=
  match ts with
  | [] => Follows.pure (List.map fun c => (c.1, Sourced.stmts c.2)) _ [] rfl
  | .node l children :: rest => by
    obtain ⟨own, inner⟩ := (Bool.and_eq_true _ _).mp wf
    rw [readClauses, traceClauses]
    split
    · refine (Follows.lift (test (.node l children))).bind fun _ test' _ _ => ?_
      refine (readBlockAt_follows traceable inClass _ children ((Bool.and_eq_true _ _).mp own).2).bind
        fun _ body _ _ => ?_
      cases body with
      | none => exact Follows.throw _ _ _
      | some body =>
        refine ((readClauses_follows traceable inClass test rest inner).after _).bind
          fun _ others _ _ => ?_
        exact Follows.pure (List.map fun c => (c.1, Sourced.stmts c.2))
          (List.flatMap fun c => Sourced.origins c.2) ((test', body) :: others) List.flatMap_cons
    · exact readClauses_follows traceable inClass test rest inner

end

end

end Reading

end Interlingua

import Interlingua.Proofs.Dict
import Interlingua.Proofs.Program.Loose
import Interlingua.Reading.Walk

/-!
# The walk with declarations in their places

`looseStmt` and its companions visit a tree as `Reading.readStmt` does, but they keep no types for
later: a declaration without a value stays where it is. Reading is the same as to walk in this way and
to resolve the loose statements then, with every event in sight of an assignment.
-/

namespace Interlingua

namespace Reading

/-- What a reading gives where nothing has been kept for later. -/
def still {α : Type} (r : Reading α) : Except ReadError α :=
  Prod.fst <$> r {}

section

variable (g : Grammar) (leaf : Bool → Tree → Except ReadError (List Loose))

mutual

/-- Clauses are not followed: languages that have them keep no types for later. -/
def looseStmt (inClass : Bool) : Tree → Except ReadError (List Loose)
  | .node l children => do
    match g.form inClass (.node l children) with
    | .simple _ => leaf inClass (.node l children)
    | .function head needsBody => do
      let signature ← still head
      match ← looseBlockAt false "body" children with
      | some body => return [.function signature body]
      | none => if needsBody then throw (.missing l.kind "body") else return [.function signature []]
    | .classDef head => do
      let (name, bases) ← still head
      match ← looseBlockAt true "body" children with
      | some body => return [.classDef name bases body]
      | none => throw (.missing l.kind "body")
    | .cond test => do
      let test ← still test
      match ← looseBranchAt inClass "consequence" children with
      | none => throw (.missing l.kind "consequence")
      | some body =>
        let orelse ← match g.alternatives with
          | .direct => (·.getD []) <$> looseBranchAt inClass "alternative" children
          | .wrapped => looseWrapped inClass children
          | .clauses _ => return []
        return [.cond test body orelse]

def looseBlock (inClass : Bool) : List Tree → Except ReadError (List Loose)
  | [] => return []
  | t :: rest =>
    if t.isPart then do
      let stmts ← looseStmt inClass t
      return stmts ++ (← looseBlock inClass rest)
    else looseBlock inClass rest

def looseBlockAt (inClass : Bool) (field : String) :
    List Tree → Except ReadError (Option (List Loose))
  | [] => return none
  | .node l children :: rest =>
    if l.field = some field then some <$> looseBlock inClass children
    else looseBlockAt inClass field rest

def looseBranchAt (inClass : Bool) (field : String) :
    List Tree → Except ReadError (Option (List Loose))
  | [] => return none
  | .node l children :: rest =>
    if l.field = some field then
      if g.isBlock l.kind then some <$> looseBlock inClass children
      else some <$> looseStmt inClass (.node l children)
    else looseBranchAt inClass field rest

def looseWrapped (inClass : Bool) : List Tree → Except ReadError (List Loose)
  | [] => return []
  | .node l children :: rest =>
    if l.field = some "alternative" then looseFirstBranch inClass children
    else looseWrapped inClass rest

def looseFirstBranch (inClass : Bool) : List Tree → Except ReadError (List Loose)
  | [] => return []
  | .node l children :: rest =>
    if (Tree.node l children).isPart then
      if g.isBlock l.kind then looseBlock inClass children
      else looseStmt inClass (.node l children)
    else looseFirstBranch inClass rest

end

end

/-- What is kept for later is what a history holds for the assignments to come. -/
def Tracks (pending : Dict DeclaredType) (history : List Event) : Prop :=
  ∀ scope id, pending.find? id = Event.typeFrom (Event.everywhere scope id) history

namespace Tracks

variable {pending : Dict DeclaredType} {history : List Event} (h : Tracks pending history)

theorem nil : Tracks {} [] :=
  fun _ _ => rfl

include h

theorem body : Tracks pending (.body :: history) := by
  intro scope id
  rw [h scope id]
  rfl

theorem declared (scope : Nat) (id : String) (type : DeclaredType) :
    Tracks (pending.insert id type) (.declared scope id type :: history) := by
  intro scope' id'
  rw [Dict.find?_insert, h scope' id']
  by_cases same : id' = id
  · simp [Event.typeFrom, Event.everywhere, Event.site?, Event.type?, same]
  · simp [Event.typeFrom, Event.everywhere, Event.site?, same, Ne.symm same]

theorem assigned (scope : Nat) (id : String) :
    Tracks (pending.erase id) (.assigned scope id :: history) := by
  intro scope' id'
  rw [Dict.find?_erase, h scope' id']
  by_cases same : id' = id
  · simp [Event.typeFrom, Event.everywhere, Event.site?, Event.type?, same]
  · simp [Event.typeFrom, Event.everywhere, Event.site?, same, Ne.symm same]

end Tracks

/-- A reading ends as a walk does: with the same error, or with what `out` makes of the result while
the history that `out` makes of it is tracked. -/
inductive Ends {α β : Type} (out : β → α × List Event) :
    Except ReadError (α × ReadState) → Except ReadError β → Prop where
  | error (e : ReadError) : Ends out (.error e) (.error e)
  | ok (b : β) (rows : List Nat) {pending : Dict DeclaredType} (tracks : Tracks pending (out b).2) :
    Ends out (.ok ((out b).1, ⟨rows, pending⟩)) (.ok b)

/-- Where a history is tracked, a reading ends as a walk does. -/
def Resolves {α β : Type} (history : List Event) (r : Reading α) (x : Except ReadError β)
    (out : β → α × List Event) : Prop :=
  ∀ rows pending, Tracks pending history → Ends out (r ⟨rows, pending⟩) x

namespace Resolves

variable {α β γ δ : Type} {history : List Event}

theorem pure (out : β → α × List Event) (b : β) {a : α} (h : out b = (a, history)) :
    Resolves history (Pure.pure a) (Pure.pure b) out := by
  intro rows pending tracks
  have ends : Ends out (.ok ((out b).1, ⟨rows, pending⟩)) (.ok b) := .ok b rows (by rwa [h])
  rwa [h] at ends

theorem throw (e : ReadError) (out : β → α × List Event) :
    Resolves history (MonadExcept.throw e) (MonadExcept.throw e) out :=
  fun _ _ _ => .error e

theorem bind {r : Reading α} {x : Except ReadError β} {out : β → α × List Event}
    {k : α → Reading γ} {y : β → Except ReadError δ} {out' : δ → γ × List Event}
    (h : Resolves history r x out)
    (next : ∀ b, Resolves (out b).2 (k (out b).1) (y b) out') :
    Resolves history (r >>= k) (x >>= y) out' := by
  intro rows pending tracks
  change Ends out' (Except.bind (r ⟨rows, pending⟩) fun found => k found.1 found.2) (Except.bind x y)
  have first := h rows pending tracks
  generalize r ⟨rows, pending⟩ = found at first ⊢
  cases first with
  | error e => exact .error e
  | ok b rows' tracks' => exact next b rows' _ tracks'

theorem map {r : Reading α} {x : Except ReadError β} {out : β → α × List Event} {f : α → γ}
    {f' : β → δ} {out' : δ → γ × List Event} (h : Resolves history r x out)
    (same : ∀ b, out' (f' b) = (f (out b).1, (out b).2)) :
    Resolves history (f <$> r) (f' <$> x) out' := by
  rw [map_eq_pure_bind, map_eq_pure_bind]
  exact h.bind fun b => Resolves.pure out' (f' b) (same b)

theorem lift (x : Except ReadError α) :
    Resolves history (liftM x) x fun a => (a, history) := by
  intro rows pending tracks
  cases x with
  | error e => exact .error e
  | ok a => exact .ok a rows tracks

/-- Nothing is taken or kept when a function body starts. -/
theorem body {r : Reading α} {x : Except ReadError β} {out : β → α × List Event}
    (h : Resolves (.body :: history) r x out) : Resolves history r x out :=
  fun rows pending tracks => h rows pending tracks.body

/-- The rows that are noted do not matter. -/
theorem consumer {k : Unit → Reading α} {x : Except ReadError β} {out : β → α × List Event}
    (t : Tree) (h : Resolves history (k ()) x out) :
    Resolves history (consumer t >>= k) x out :=
  fun rows pending tracks => h (rows ++ [t.label.row]) pending tracks

end Resolves

/-- A reading that neither takes a type nor keeps one for later. -/
def Idle {α : Type} (r : Reading α) : Prop :=
  ∃ x : Except ReadError α, ∀ rows pending, ∃ rows',
    r ⟨rows, pending⟩ = (fun a => (a, ⟨rows', pending⟩)) <$> x

namespace Idle

variable {α β : Type}

theorem pure (a : α) : Idle (Pure.pure a) :=
  ⟨.ok a, fun rows _ => ⟨rows, rfl⟩⟩

theorem lift (x : Except ReadError α) : Idle (liftM x) := by
  refine ⟨x, fun rows pending => ⟨rows, ?_⟩⟩
  cases x <;> rfl

theorem consumer (t : Tree) : Idle (consumer t) :=
  ⟨.ok (), fun rows _ => ⟨rows ++ [t.label.row], rfl⟩⟩

theorem bind {r : Reading α} {k : α → Reading β} (h : Idle r) (next : ∀ a, Idle (k a)) :
    Idle (r >>= k) := by
  obtain ⟨x, run⟩ := h
  refine ⟨x >>= fun a => Classical.choose (next a), fun rows pending => ?_⟩
  obtain ⟨rows', first⟩ := run rows pending
  change ∃ rows', Except.bind (r ⟨rows, pending⟩) (fun found => k found.1 found.2) = _
  rw [first]
  cases x with
  | error e => exact ⟨rows, rfl⟩
  | ok a => exact Classical.choose_spec (next a) rows' pending

theorem mapM {f : α → Reading β} (items : List α) (h : ∀ item, Idle (f item)) :
    Idle (items.mapM f) := by
  induction items with
  | nil => exact Idle.pure _
  | cons item rest ih =>
    rw [List.mapM_cons]
    exact (h item).bind fun _ => ih.bind fun _ => Idle.pure _

theorem resolves {r : Reading α} (h : Idle r) {history : List Event} :
    Resolves history r (still r) fun a => (a, history) := by
  obtain ⟨x, run⟩ := h
  have stillEq : still r = x := by
    obtain ⟨rows, first⟩ := run [] {}
    rw [still, show r {} = _ from first]
    cases x <;> rfl
  intro rows pending tracks
  obtain ⟨rows', found⟩ := run rows pending
  rw [found, stillEq]
  cases x with
  | error e => exact .error e
  | ok a => exact .ok a rows' tracks

/-- Statements that are not concerned with types from elsewhere. -/
theorem resolves_stmts {r : Reading (List Stmt)} (h : Idle r) {history : List Event} (scope : Nat) :
    Resolves history r (List.map Loose.stmt <$> still r)
      (Loose.resolveAll Event.everywhere scope · history) := by
  have mapped : Resolves history (id <$> r) (List.map Loose.stmt <$> still r)
      (Loose.resolveAll Event.everywhere scope · history) :=
    h.resolves.map fun ss => Loose.resolveAll_stmts _ scope ss history
  simpa using mapped

end Idle

/-- What a grammar says of a statement agrees with the loose reading of it. Only statements that hold
no others may take a type or keep one. -/
def StmtForm.Settled (leaf : Except ReadError (List Loose)) : StmtForm → Prop
  | simple read => ∀ scope history,
    Resolves history read leaf (Loose.resolveAll Event.everywhere scope · history)
  | function head _ => Idle head
  | classDef head => Idle head
  | cond test => Idle test

structure Forward (g : Grammar) (leaf : Bool → Tree → Except ReadError (List Loose)) : Prop where
  form (inClass : Bool) (t : Tree) : (g.form inClass t).Settled (leaf inClass t)
  clauses {test : Tree → Except ReadError (Option Expr)} : g.alternatives ≠ .clauses test

section

variable {g : Grammar} {leaf : Bool → Tree → Except ReadError (List Loose)}

/-- What a block that may be missing resolves to. -/
def resolveBlock? (scope : Nat) (history : List Event) :
    Option (List Loose) → Option (List Stmt) × List Event
  | none => (none, history)
  | some ss =>
    let (ss, history) := Loose.resolveAll Event.everywhere scope ss history
    (some ss, history)

theorem resolves_one {scope : Nat} {history history' : List Event} (s : Loose) {ss : List Stmt}
    (h : s.resolve Event.everywhere scope history = (ss, history')) :
    Resolves history' (pure ss) (pure [s])
      (Loose.resolveAll Event.everywhere scope · history) :=
  Resolves.pure _ [s] (by simp [Loose.resolveAll, h])

mutual

theorem readStmt_resolves (forward : Forward g leaf) (inClass : Bool) (t : Tree) (scope : Nat)
    (history : List Event) :
    Resolves history (readStmt g inClass t) (looseStmt g leaf inClass t)
      (Loose.resolveAll Event.everywhere scope · history) :=
  match t with
  | .node l children => by
    have own := forward.form inClass (.node l children)
    rw [readStmt, looseStmt]
    cases form : g.form inClass (.node l children) with
    | simple read =>
      rw [form] at own
      exact own scope history
    | function head needsBody =>
      rw [form] at own
      refine own.resolves.bind fun f => ?_
      refine (readBlockAt_resolves forward false "body" children (history.length + 1)
        (.body :: history)).body.bind fun body => ?_
      cases body with
      | some body => exact resolves_one (.function f body) rfl
      | none =>
        cases needsBody with
        | true => exact Resolves.throw _ _
        | false => exact resolves_one (.function f []) rfl
    | classDef head =>
      rw [form] at own
      refine own.resolves.bind fun named => ?_
      refine (readBlockAt_resolves forward true "body" children scope history).bind fun body => ?_
      cases body with
      | some body => exact resolves_one (.classDef named.1 named.2 body) rfl
      | none => exact Resolves.throw _ _
    | cond test =>
      rw [form] at own
      refine own.resolves.bind fun test => ?_
      refine (readBranchAt_resolves forward inClass "consequence" children scope history).bind
        fun body => ?_
      cases body with
      | none => exact Resolves.throw _ _
      | some body =>
        cases alternatives : g.alternatives with
        | direct =>
          refine ((readBranchAt_resolves forward inClass "alternative" children scope _).map
            fun branch => ?_).bind fun orelse => resolves_one (.cond test body orelse) rfl
          cases branch <;> rfl
        | wrapped =>
          exact (readWrapped_resolves forward inClass children scope _).bind
            fun orelse => resolves_one (.cond test body orelse) rfl
        | clauses test => exact absurd alternatives forward.clauses

theorem readBlock_resolves (forward : Forward g leaf) (inClass : Bool) (ts : List Tree)
    (scope : Nat) (history : List Event) :
    Resolves history (readBlock g inClass ts) (looseBlock g leaf inClass ts)
      (Loose.resolveAll Event.everywhere scope · history) :=
  match ts with
  | [] => Resolves.pure _ [] rfl
  | t :: rest => by
    rw [readBlock, looseBlock]
    split
    · refine (readStmt_resolves forward inClass t scope history).bind fun first => ?_
      refine (readBlock_resolves forward inClass rest scope _).bind fun others => ?_
      exact Resolves.pure _ (first ++ others) (Loose.resolveAll_append _ scope first others history)
    · exact readBlock_resolves forward inClass rest scope history

theorem readBlockAt_resolves (forward : Forward g leaf) (inClass : Bool) (field : String)
    (ts : List Tree) (scope : Nat) (history : List Event) :
    Resolves history (readBlockAt g inClass field ts) (looseBlockAt g leaf inClass field ts)
      (resolveBlock? scope history) :=
  match ts with
  | [] => Resolves.pure _ none rfl
  | .node l children :: rest => by
    rw [readBlockAt, looseBlockAt]
    split
    · exact (readBlock_resolves forward inClass children scope history).map fun _ => rfl
    · exact readBlockAt_resolves forward inClass field rest scope history

theorem readBranchAt_resolves (forward : Forward g leaf) (inClass : Bool) (field : String)
    (ts : List Tree) (scope : Nat) (history : List Event) :
    Resolves history (readBranchAt g inClass field ts) (looseBranchAt g leaf inClass field ts)
      (resolveBlock? scope history) :=
  match ts with
  | [] => Resolves.pure _ none rfl
  | .node l children :: rest => by
    rw [readBranchAt, looseBranchAt]
    split
    · split
      · exact (readBlock_resolves forward inClass children scope history).map fun _ => rfl
      · exact (readStmt_resolves forward inClass (.node l children) scope history).map fun _ => rfl
    · exact readBranchAt_resolves forward inClass field rest scope history

theorem readWrapped_resolves (forward : Forward g leaf) (inClass : Bool) (ts : List Tree)
    (scope : Nat) (history : List Event) :
    Resolves history (readWrapped g inClass ts) (looseWrapped g leaf inClass ts)
      (Loose.resolveAll Event.everywhere scope · history) :=
  match ts with
  | [] => Resolves.pure _ [] rfl
  | .node l children :: rest => by
    rw [readWrapped, looseWrapped]
    split
    · exact readFirstBranch_resolves forward inClass children scope history
    · exact readWrapped_resolves forward inClass rest scope history

theorem readFirstBranch_resolves (forward : Forward g leaf) (inClass : Bool) (ts : List Tree)
    (scope : Nat) (history : List Event) :
    Resolves history (readFirstBranch g inClass ts) (looseFirstBranch g leaf inClass ts)
      (Loose.resolveAll Event.everywhere scope · history) :=
  match ts with
  | [] => Resolves.pure _ [] rfl
  | .node l children :: rest => by
    rw [readFirstBranch, looseFirstBranch]
    split
    · split
      · exact readBlock_resolves forward inClass children scope history
      · exact readStmt_resolves forward inClass (.node l children) scope history
    · exact readFirstBranch_resolves forward inClass rest scope history

end

end

end Reading

end Interlingua

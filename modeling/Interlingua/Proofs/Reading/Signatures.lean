import Interlingua.Proofs.Reading.Ensuring
import Interlingua.Proofs.Record.Attaching
import Interlingua.Reading.Source

/-!
# The signatures that are read

A function is read from its head and its body, and nothing else is read as a function. So what holds of
every signature that a head gives holds of every function that is read, from whatever tree, and also
with records attached, if it is kept under every record that is found.
-/

namespace Interlingua

namespace Reading

/-- Whatever a reading gives has a property. -/
def Always {α : Type} (r : Reading α) (P : α → Prop) : Prop :=
  ∀ st, Gives (r st) fun out => P out.1

namespace Always

variable {α β : Type} {P : α → Prop} {Q : β → Prop}

theorem pure {a : α} (h : P a) : Always (Pure.pure a) P := by
  rintro st _ ⟨⟩
  exact h

theorem throw (e : ReadError) : Always (MonadExcept.throw e) P := by
  rintro st _ ⟨⟩

theorem lift {x : Except ReadError α} (h : Gives x P) : Always (liftM x) P := by
  intro st
  exact h.bind fun _ own => Gives.pure own

theorem any (r : Reading α) : Always r fun _ => True :=
  fun _ _ _ => trivial

theorem bind {r : Reading α} {k : α → Reading β} (h : Always r P)
    (next : ∀ a, P a → Always (k a) Q) : Always (r >>= k) Q :=
  fun st => (h st).bind fun out own => next out.1 own out.2

/-- What comes after something of which nothing is known. -/
theorem after {r : Reading α} {k : α → Reading β} (next : ∀ a, Always (k a) Q) :
    Always (r >>= k) Q :=
  (any r).bind fun a _ => next a

theorem judgement : Judgement Always where
  pure := Always.pure
  throw := Always.throw
  lift := Always.lift
  bind := Always.bind

end Always

end Reading

namespace Stmt

/-- Every function among statements and those inside them has such a signature. -/
def Signed (P : Signature → Prop) (ss : List Stmt) : Prop :=
  ∀ f, .function f ∈ subjects ss → P f

namespace Signed

variable {P : Signature → Prop}

theorem iff_forall {ss : List Stmt} : Signed P ss ↔ ∀ s ∈ ss, Signed P [s] := by
  induction ss with
  | nil => simp [Signed]
  | cons s ss ih =>
    rw [List.forall_mem_cons, ← ih]
    simp only [Signed, subjects_cons s ss, List.mem_append, or_imp, forall_and]

theorem append {ss ts : List Stmt} (h : Signed P ss) (rest : Signed P ts) : Signed P (ss ++ ts) :=
  iff_forall.2 (List.forall_mem_append.2 ⟨iff_forall.1 h, iff_forall.1 rest⟩)

theorem function {f : Signature} {body : List Stmt} (own : P f) (inner : Signed P body) :
    Signed P [.function f body] := by
  intro g mem
  rw [subjects_function, List.mem_cons] at mem
  rcases mem with same | mem
  · cases same
    exact own
  · exact inner g mem

theorem classDef {name : String} {bases : List Expr} {body : List Stmt} (inner : Signed P body) :
    Signed P [.classDef name bases body] := by
  intro g mem
  rw [subjects_classDef] at mem
  exact inner g mem

theorem cond {test : Expr} {body orelse : List Stmt} (inner : Signed P body)
    (others : Signed P orelse) : Signed P [.cond test body orelse] := by
  intro g mem
  rw [subjects_cond, List.mem_append] at mem
  exact mem.elim (inner g) (others g)

end Signed

/-- A statement that is no function, class or conditional. -/
def isSimple : Stmt → Bool
  | .function _ _ | .classDef _ _ _ | .cond _ _ _ => false
  | _ => true

theorem Signed.of_isSimple {P : Signature → Prop} {ss : List Stmt}
    (h : ∀ s ∈ ss, s.isSimple = true) : Signed P ss := by
  refine Signed.iff_forall.2 fun s mem f occurs => ?_
  have simple := h s mem
  cases s with
  | function | classDef | cond => cases simple
  | assign a => simp at occurs
  | _ => simp [subjects, consumersAll, consumers] at occurs

theorem isSimple_ofExpr (e : Expr) : (ofExpr e).isSimple = true := by
  unfold ofExpr
  split
  · split <;> rfl
  · rfl
  · rfl

end Stmt

namespace Reading

open Stmt

/-- What a grammar says of a statement, if its heads give such signatures and only heads do. -/
def StmtForm.Signs (P : Signature → Prop) : StmtForm → Prop
  | simple read => Always read fun ss => ∀ s ∈ ss, s.isSimple = true
  | function head _ => Always head P
  | classDef _ | cond _ => True

def Grammar.Signs (g : Grammar) (P : Signature → Prop) : Prop :=
  ∀ inClass t, (g.form inClass t).Signs P

theorem builds_signed {P : Signature → Prop} :
    Builds P (fun _ => True) (fun _ => True) (Signed P) where
  nil := .of_isSimple (by simp)
  append := .append
  function := .function
  classDef _ inner := .classDef inner
  cond _ inner others := .cond inner others

theorem readBlock_signed {g : Grammar} {P : Signature → Prop} (h : g.Signs P) (inClass : Bool)
    (ts : List Tree) : Always (readBlock g inClass ts) (Signed P) := by
  refine readBlock_judged ⟨Always.judgement, builds_signed, fun inClass t => ?_, ?_⟩ inClass ts
  · have own := h inClass t
    cases form : g.form inClass t with
    | simple read =>
      rw [form] at own
      exact fun st out found => .of_isSimple (own st out found)
    | function head needsBody => rwa [form] at own
    | classDef head => exact Always.any head
    | cond test => exact Always.any test
  · exact fun _ t _ _ _ _ => trivial

/-! The grammars. -/

/-- A reading of statements that are no functions, classes or conditionals. -/
def Simple (read : Reading (List Stmt)) : Prop :=
  Always read fun ss => ∀ s ∈ ss, s.isSimple = true

namespace Simple

theorem one {s : Stmt} (h : s.isSimple = true) : Simple (pure [s]) :=
  .pure (List.forall_mem_singleton.2 h)

theorem nothing : Simple (pure []) :=
  .pure (by simp)

theorem after {α : Type} {r : Reading α} {k : α → Reading (List Stmt)} (next : ∀ a, Simple (k a)) :
    Simple (r >>= k) :=
  Always.after next

theorem value (read : Reading Expr) : Simple (do return [.ofExpr (← read)]) :=
  .after fun e => one (isSimple_ofExpr e)

theorem returned (read : Tree → Reading Expr) (parts : List Tree) :
    Simple (do
      match parts with
      | [] => return [.ret none]
      | value :: _ => return [.ret (some (← read value))]) := by
  split
  · exact one rfl
  · exact after fun _ => one rfl

theorem flatten {nodes : List Tree} {read : Tree → Reading (List Stmt)} (h : ∀ t, Simple (read t)) :
    Simple (do return (← nodes.mapM read).flatten) := by
  refine (Always.judgement.mapM nodes h).bind fun groups all => .pure fun s mem => ?_
  obtain ⟨group, listed, mem⟩ := List.mem_flatten.1 mem
  exact all group listed s mem

end Simple

section

variable {P : Signature → Prop}
  (typed : ∀ name params returnType, P (typedSignature name params returnType))

namespace Python

theorem assignment_simple (t : Tree) : Simple (assignment t) := by
  refine .after fun left => ?_
  split
  · exact .one rfl
  · split
    · exact .one rfl
    · exact .after fun _ => .after fun _ => .one rfl

theorem update_simple (t : Tree) : Simple (update t) := by
  refine .after fun left => .after fun right => .after fun operator => ?_
  split
  · exact .one rfl
  · split
    · exact .one rfl
    · exact .after fun _ => .after fun _ => .one rfl

theorem expressionStatement_simple (t : Tree) : Simple (expressionStatement t) := by
  rw [expressionStatement]
  split
  · split
    · exact assignment_simple _
    · exact update_simple _
    · exact .value _
  · exact .one rfl

include typed in
theorem signs : grammar.Signs P := by
  intro inClass t
  change (stmtForm inClass t).Signs P
  unfold stmtForm
  split
  · exact expressionStatement_simple t
  · exact Always.after fun _ => .after fun _ => .pure (typed _ _ _)
  · trivial
  · trivial
  · exact Simple.returned _ t.parts
  · exact assignment_simple t
  · exact update_simple t
  · exact Simple.nothing
  · split
    · exact Simple.one rfl
    · exact Simple.value _

end Python

namespace Script

theorem typed_simple {a : Assign} (counted : Bool) (t : Tree) :
    Simple (match typeAt? counted t "type" with
      | some type => pure [Stmt.assign (a.declare type)]
      | none => pure [Stmt.assign a]) := by
  split <;> exact .one rfl

theorem assignment_simple (stmt t : Tree) : Simple (assignment stmt t) := by
  refine .after fun left => ?_
  split
  · exact .one rfl
  · refine .after fun _ => .after fun _ => .after fun _ => .after fun pending => ?_
    split <;> exact .one rfl

theorem update_simple (stmt t : Tree) : Simple (update stmt t) := by
  refine .after fun left => .after fun operator => ?_
  split
  · exact .one rfl
  · split
    · exact .one rfl
    · exact .after fun _ => .after fun _ => .after fun _ => .one rfl

theorem expressionStatement_simple (t : Tree) : Simple (expressionStatement t) := by
  rw [expressionStatement]
  split
  · split
    · exact assignment_simple _ _
    · exact update_simple _ _
    · exact .value _
  · exact .one rfl

theorem declarator_simple (counted : Bool) (t : Tree) : Simple (declarator counted t) := by
  refine .after fun name => ?_
  split
  · exact .one rfl
  · split
    · split
      · exact .after fun _ => .nothing
      · exact .nothing
    · exact .after fun _ => .after fun _ => typed_simple counted t

theorem fieldDefinition_simple (counted : Bool) (t : Tree) : Simple (fieldDefinition counted t) := by
  rw [fieldDefinition]
  split
  · exact .after fun _ => .after fun _ => typed_simple counted t
  · exact .one rfl

include typed in
theorem functionHead_signs (counted : Bool) (t : Tree) : Always (functionHead counted t) P :=
  .after fun _ => .after fun _ => .after fun _ => .pure (typed _ _ _)

include typed in
theorem signs (counted : Bool) : (grammar counted).Signs P := by
  intro inClass t
  cases inClass with
  | true =>
    change (memberForm counted t).Signs P
    unfold memberForm
    split
    · exact functionHead_signs typed counted t
    · exact fieldDefinition_simple counted t
    · exact fieldDefinition_simple counted t
    · exact Simple.one rfl
  | false =>
    change (stmtForm counted t).Signs P
    unfold stmtForm
    split
    · exact expressionStatement_simple t
    · exact Simple.flatten (declarator_simple counted)
    · exact Simple.flatten (declarator_simple counted)
    · exact functionHead_signs typed counted t
    · trivial
    · trivial
    · exact Simple.returned _ t.parts
    · exact Simple.nothing
    · exact Simple.one rfl

end Script

namespace Java

theorem declarator_simple (isLocal : Bool) (type : DeclaredType) (t : Tree) :
    Simple (declarator isLocal type t) := by
  refine .after fun name => ?_
  split
  · exact .after fun _ => .after fun _ => .one rfl
  · split
    · split
      · exact .after fun _ => .nothing
      · exact .nothing
    · exact .one rfl

theorem assignment_simple (stmt t : Tree) : Simple (assignment stmt t) := by
  refine .after fun left => .after fun operator => ?_
  split
  · exact .one rfl
  · refine .after fun _ => .after fun _ => .after fun _ => .after fun pending => ?_
    split <;> exact .one rfl

theorem expressionStatement_simple (t : Tree) : Simple (expressionStatement t) := by
  rw [expressionStatement]
  split
  · split
    · exact assignment_simple _ _
    · exact .value _
  · exact .one rfl

include typed in
theorem signs : grammar.Signs P := by
  intro inClass t
  change (stmtForm t).Signs P
  unfold stmtForm
  split
  · exact Simple.flatten (declarator_simple _ _)
  · exact Simple.flatten (declarator_simple _ _)
  · exact Always.after fun _ => .after fun _ => .after fun _ => .after fun _ => .pure (typed _ _ _)
  · trivial
  · exact expressionStatement_simple t
  · trivial
  · exact Simple.returned _ t.parts
  · exact Simple.one rfl

end Java

end

end Reading

theorem Subject.mem_declareAll {c : Subject} {cs : List Subject} {rs : List Record}
    (mem : c ∈ declareAll cs rs) : c ∈ cs ∨ ∃ d ∈ cs, ∃ r ∈ rs, c = d.declare r := by
  induction cs generalizing rs with
  | nil => cases rs <;> cases mem
  | cons d cs ih =>
    cases rs with
    | nil => exact .inl mem
    | cons r rs =>
      rcases List.mem_cons.1 mem with rfl | mem
      · exact .inr ⟨d, List.mem_cons_self, r, List.mem_cons_self, rfl⟩
      · rcases ih mem with listed | ⟨e, listed, r', found, rfl⟩
        · exact .inl (List.mem_cons_of_mem _ listed)
        · exact .inr ⟨e, List.mem_cons_of_mem _ listed, r', List.mem_cons_of_mem _ found, rfl⟩

theorem Stmt.Signed.attach {P : Signature → Prop} {ss : List Stmt} {rs : List Record}
    (h : Signed P ss) (declared : ∀ f, P f → ∀ r ∈ rs, P (f.declare r)) :
    Signed P (attachAll ss ⟨rs⟩).1 := by
  intro f mem
  rw [(attachedAll ss rs).subjects] at mem
  rcases Subject.mem_declareAll mem with listed | ⟨c, listed, r, found, same⟩
  · exact h f listed
  · cases c with
    | assign a => cases same
    | function g =>
      cases same
      exact declared g (h g listed) r found

namespace Language

open Reading

/-- What holds of every signature that is put together from a head holds of every function that is
read, before any records are attached. -/
theorem readTree_signed {P : Signature → Prop}
    (typed : ∀ name params returnType, P (typedSignature name params returnType)) (l : Language)
    (t : Tree) : Gives (l.readTree t) fun out => Stmt.Signed P out.1.body := by
  unfold readTree
  split
  · exact Gives.throw _
  · rename_i grammar readable
    have signs : grammar.Signs P := by
      cases l <;> cases readable
      · exact Python.signs typed
      · exact Script.signs typed false
      · exact Script.signs typed true
      · exact Java.signs typed
    have body : Gives ((readBlock grammar false t.children).run {})
        fun out => Stmt.Signed P out.1 := readBlock_signed signs false t.children {}
    exact body.bind fun out own => Gives.pure own

section

variable {P : Signature → Prop} {Q : Record → Prop}
  (typed : ∀ name params returnType, P (typedSignature name params returnType))
  (declared : ∀ f r, P f → Q r → P (f.declare r))

include typed

theorem readPrepared_signed (l : Language) (parse : Parser) (code : List Char) :
    Gives (l.readPrepared parse code) fun out => Stmt.Signed P out.1.body := by
  unfold readPrepared
  split
  · exact readTree_signed typed l _
  · exact Gives.throw _

include declared

theorem readWith_signed (l : Language) (parse : Parser) {records : List Record}
    (given : ∀ r ∈ records, Q r) (source : String) :
    Gives (l.readWith parse records source) fun p => Stmt.Signed P p.body := by
  unfold readWith
  split
  · exact Gives.throw _
  · refine (readPrepared_signed typed l parse _).bind fun out own => Gives.pure ?_
    exact own.attach fun f signed r mem => declared f r signed (given r mem)

theorem read_signed (blank : Q {}) (salvaged : ∀ v r, Record.salvage? v = some r → Q r)
    (l : Language) (parse : Parser) (source : String) :
    Gives (l.read parse source) fun p => Stmt.Signed P p.body := by
  unfold read
  split
  · exact Gives.throw _
  · refine (readPrepared_signed typed l parse _).bind fun out own => Gives.pure ?_
    have found := Queue.forall_aligned blank out.2
      (Record.forall_scan salvaged l.commentMark source.toList)
    exact own.attach fun f signed r mem => declared f r signed (found r mem)

end

end Language

end Interlingua

import Interlingua.Program.Basic
import Mathlib.Data.List.Find

/-!
# Declarations ahead of their assignments

A variable may be declared without a value, and its type then belongs to an assignment further down.
Loose statements still hold such declarations where they stand in the source. `resolve` applies their
types: an assignment takes the type of the last event it sees before it, if that is a declaration.
What an assignment sees is a parameter. It can see every event about its name, or only those in the
same function body; the two agree where no name that is declared ahead occurs in two bodies.
-/

namespace Interlingua

/-- The assignment under a declared type, if there is one. -/
def Assign.under (a : Assign) : Option DeclaredType → Assign
  | some type => a.declare type
  | none => a

/-- What happens to variables, in the order of the source. A body of a function is known by the
number of events up to its start; what stands in no function is in body zero. -/
inductive Event where
  /-- A function body starts. -/
  | body
  /-- A declaration without a value. -/
  | declared (scope : Nat) (id : String) (type : DeclaredType)
  /-- An assignment statement. -/
  | assigned (scope : Nat) (id : String)

namespace Event

/-- The body that an event stands in and the name it is about. -/
def site? : Event → Option (Nat × String)
  | body => none
  | declared scope id _ => some (scope, id)
  | assigned scope id => some (scope, id)

def type? : Event → Option DeclaredType
  | declared _ _ type => some type
  | _ => none

/-- An assignment sees all events about its name. -/
def everywhere (_ : Nat) (id : String) (e : Event) : Bool :=
  e.site?.any (·.2 = id)

/-- An assignment sees the events about its name in its own function body. -/
def inBody (scope : Nat) (id : String) (e : Event) : Bool :=
  e.site? = some (scope, id)

/-- The type that the last of the events holds that are seen, if it is a declaration. The history has
the last event first. -/
def typeFrom (sees : Event → Bool) (history : List Event) : Option DeclaredType :=
  (history.find? sees).bind type?

/-- Whether every name that is declared ahead occurs in one body only. -/
def apart (history : List Event) : Bool :=
  history.all fun e => match e with
    | declared scope id _ => history.all fun e' => !everywhere scope id e' || inBody scope id e'
    | _ => true

theorem everywhere_of_inBody {scope : Nat} {id : String} {e : Event}
    (h : inBody scope id e = true) : everywhere scope id e = true := by
  have site : e.site? = some (scope, id) := by simpa [inBody] using h
  simp [everywhere, site]

/-- Nothing is taken where nothing is declared. -/
theorem typeFrom_eq_none {sees : Event → Bool} {scope : Nat} {id : String} {history : List Event}
    (only : ∀ e, sees e = true → everywhere scope id e = true)
    (undeclared : ∀ scope' type, declared scope' id type ∉ history) : typeFrom sees history = none := by
  cases found : history.find? sees with
  | none => simp [typeFrom, found]
  | some e =>
    have mem := List.mem_of_find?_eq_some found
    have about := only e (List.find?_some found)
    cases e with
    | declared scope' id' type =>
      obtain rfl : id' = id := by simpa [everywhere, site?] using about
      exact absurd mem (undeclared scope' type)
    | body | assigned scope' id' => simp [typeFrom, found, type?]

section

variable {history : List Event} (h : apart history = true)

include h

theorem inBody_of_apart {scope : Nat} {id : String} {type : DeclaredType}
    (declared : .declared scope id type ∈ history) {e : Event} (mem : e ∈ history)
    (about : everywhere scope id e = true) : inBody scope id e = true := by
  have own := List.all_eq_true.1 (List.all_eq_true.1 h _ declared) e mem
  simpa [about] using own

/-- All that an assignment can take a type from is in its own body. -/
theorem typeFrom_inBody {scope : Nat} {id : String} {earlier : List Event}
    (mem : ∀ e ∈ assigned scope id :: earlier, e ∈ history) :
    typeFrom (inBody scope id) earlier = typeFrom (everywhere scope id) earlier := by
  obtain ⟨this, before⟩ := List.forall_mem_cons.1 mem
  by_cases ahead : ∃ scope' type, declared scope' id type ∈ earlier
  · obtain ⟨scope', type, found⟩ := ahead
    have own := inBody_of_apart h (before _ found) this (by simp [everywhere, site?])
    obtain rfl : scope = scope' := by simpa [inBody, site?] using own
    refine congrArg (Option.bind · type?) (List.find?_congr fun e mem => ?_)
    have sees := inBody_of_apart h (before _ found) (before e mem)
    exact Bool.eq_iff_iff.2 ⟨everywhere_of_inBody, sees⟩
  · have ahead : ∀ scope' type, declared scope' id type ∉ earlier := by simpa using ahead
    rw [typeFrom_eq_none (fun _ => everywhere_of_inBody) ahead, typeFrom_eq_none (fun _ h => h) ahead]

end

end Event

/-- A statement as it stands in the source. -/
inductive Loose where
  /-- A statement that is not concerned with types from elsewhere. -/
  | stmt (stmt : Stmt)
  /-- A declaration without a value. -/
  | declared (id : String) (type : DeclaredType)
  /-- An assignment statement, whose type may be declared before. -/
  | assigned (assign : Assign)
  | function (signature : Signature) (body : List Loose)
  | classDef (name : String) (bases : List Expr) (body : List Loose)
  | cond (test : Expr) (body orelse : List Loose)

namespace Loose

section

variable (sees : Nat → String → Event → Bool)

mutual

/-- The statements with the types of earlier declarations, and the history with what happens in
them. -/
def resolve (scope : Nat) : Loose → List Event → List Stmt × List Event
  | stmt s, history => ([s], history)
  | declared id type, history => ([], .declared scope id type :: history)
  | assigned a, history =>
    ([.assign (a.under (Event.typeFrom (sees scope a.target.id) history))],
      .assigned scope a.target.id :: history)
  | function f body, history =>
    let (body, history) := resolveAll (history.length + 1) body (.body :: history)
    ([.function f body], history)
  | classDef name bases body, history =>
    let (body, history) := resolveAll scope body history
    ([.classDef name bases body], history)
  | cond test body orelse, history =>
    let (body, history) := resolveAll scope body history
    let (orelse, history) := resolveAll scope orelse history
    ([.cond test body orelse], history)

def resolveAll (scope : Nat) : List Loose → List Event → List Stmt × List Event
  | [], history => ([], history)
  | s :: ss, history =>
    let (first, history) := resolve scope s history
    let (others, history) := resolveAll scope ss history
    (first ++ others, history)

end

theorem resolveAll_append (scope : Nat) (ss ts : List Loose) (history : List Event) :
    resolveAll sees scope (ss ++ ts) history =
      ((resolveAll sees scope ss history).1 ++
          (resolveAll sees scope ts (resolveAll sees scope ss history).2).1,
        (resolveAll sees scope ts (resolveAll sees scope ss history).2).2) := by
  induction ss generalizing history with
  | nil => simp [resolveAll]
  | cons s ss ih => simp [resolveAll, ih]

@[simp] theorem resolveAll_stmts (scope : Nat) (ss : List Stmt) (history : List Event) :
    resolveAll sees scope (ss.map stmt) history = (ss, history) := by
  induction ss with
  | nil => simp [resolveAll]
  | cons s ss ih => simp [resolveAll, resolve, ih]

mutual

theorem suffix_resolve (scope : Nat) (s : Loose) (history : List Event) :
    history <:+ (resolve sees scope s history).2 :=
  match s with
  | stmt _ => List.suffix_refl _
  | declared _ _ | assigned _ => List.suffix_cons _ _
  | function _ body =>
    (List.suffix_cons _ _).trans (suffix_resolveAll _ body (.body :: history))
  | classDef _ _ body => suffix_resolveAll scope body history
  | cond _ body orelse =>
    (suffix_resolveAll scope body history).trans (suffix_resolveAll scope orelse _)

theorem suffix_resolveAll (scope : Nat) (ss : List Loose) (history : List Event) :
    history <:+ (resolveAll sees scope ss history).2 :=
  match ss with
  | [] => List.suffix_refl _
  | s :: ss => (suffix_resolve scope s history).trans (suffix_resolveAll scope ss _)

end

end

mutual

theorem resolve_inBody {whole : List Event} (h : Event.apart whole = true) (scope : Nat) (s : Loose)
    (history : List Event)
    (mem : ∀ e ∈ (resolve Event.everywhere scope s history).2, e ∈ whole) :
    resolve Event.inBody scope s history = resolve Event.everywhere scope s history :=
  match s with
  | stmt _ | declared _ _ => by simp [resolve]
  | assigned a => by
    have same := Event.typeFrom_inBody h mem
    simp [resolve, same]
  | function _ body => by
    have inner := resolveAll_inBody h (history.length + 1) body (.body :: history) mem
    simp [resolve, inner]
  | classDef _ _ body => by
    have inner := resolveAll_inBody h scope body history mem
    simp [resolve, inner]
  | cond _ body orelse => by
    have later := suffix_resolveAll Event.everywhere scope orelse
      (resolveAll Event.everywhere scope body history).2
    have first := resolveAll_inBody h scope body history fun e mem' => mem e (later.subset mem')
    have second := resolveAll_inBody h scope orelse _ mem
    simp [resolve, first, second]

theorem resolveAll_inBody {whole : List Event} (h : Event.apart whole = true) (scope : Nat)
    (ss : List Loose) (history : List Event)
    (mem : ∀ e ∈ (resolveAll Event.everywhere scope ss history).2, e ∈ whole) :
    resolveAll Event.inBody scope ss history = resolveAll Event.everywhere scope ss history :=
  match ss with
  | [] => by simp [resolveAll]
  | s :: ss => by
    have later := suffix_resolveAll Event.everywhere scope ss (resolve Event.everywhere scope s history).2
    have first := resolve_inBody h scope s history fun e mem' => mem e (later.subset mem')
    have others := resolveAll_inBody h scope ss _ mem
    simp [resolveAll, first, others]

end

end Loose

end Interlingua

import Interlingua.Proofs.Record.Consumers
import Interlingua.Proofs.Record.Restoring

/-!
# Attaching records by position

A record is about the function or the assignment that it is attached to, the subject. Attaching a
list of records gives the subjects, in walk order, one record each as long as there are any. Nothing
else is touched: the erased program stays as it was, and a program is determined by its subjects and
by what is left when they are erased.
-/

namespace Interlingua

/-- What a record is about: a function without its body, or an assignment. -/
inductive Subject where
  | function (signature : Signature)
  | assign (assign : Assign)

namespace Subject

def declare (r : Record) : Subject → Subject
  | function f => function (f.declare r)
  | assign a => assign (a.declareRecord r)

/-- The subject at a position among others that are given records, if there is a record for it. -/
def declareAt (rs : List Record) (k : Nat) (c : Subject) : Subject :=
  match rs[k]? with
  | some r => c.declare r
  | none => c

/-- The subjects with one record each, as long as there are any. -/
def declareAll : List Subject → List Record → List Subject
  | c :: cs, r :: rs => c.declare r :: declareAll cs rs
  | cs, _ => cs

@[simp] theorem declareAll_nil (cs : List Subject) : declareAll cs [] = cs := by
  cases cs <;> rfl

theorem declareAll_append (cs ds : List Subject) (rs : List Record) :
    declareAll (cs ++ ds) rs = declareAll cs rs ++ declareAll ds (rs.drop cs.length) := by
  induction cs generalizing rs with
  | nil => rfl
  | cons c cs ih =>
    cases rs with
    | nil => simp
    | cons r rs => simp [declareAll, ih]

theorem getElem?_declareAll (cs : List Subject) (rs : List Record) (k : Nat) :
    (declareAll cs rs)[k]? = cs[k]?.map (declareAt rs k) := by
  induction cs generalizing rs k with
  | nil => simp [declareAll]
  | cons c cs ih =>
    cases rs with
    | nil =>
      rw [declareAll_nil]
      cases (c :: cs)[k]? <;> rfl
    | cons r rs =>
      cases k with
      | zero => rfl
      | succ k => exact ih rs k

/-- An empty record says nothing about its subject. -/
theorem declare_empty (c : Subject) : c.declare {} = c := by
  cases c <;> rfl

theorem declareAll_of_empty (cs : List Subject) {rs : List Record} (h : ∀ r ∈ rs, r = {}) :
    declareAll cs rs = cs := by
  induction cs generalizing rs with
  | nil => cases rs <;> rfl
  | cons c cs ih =>
    cases rs with
    | nil => rfl
    | cons r rs =>
      obtain ⟨rfl, rest⟩ := List.forall_mem_cons.1 h
      rw [declareAll, declare_empty, ih rest]

end Subject

def Stmt.subject? : Stmt → Option Subject
  | .function f _ => some (.function f)
  | .assign a => some (.assign a)
  | _ => none

/-- The subjects among statements and those inside them, in walk order. -/
def Stmt.subjects (ss : List Stmt) : List Subject :=
  (Stmt.consumersAll ss).filterMap Stmt.subject?

def Program.subjects (p : Program) : List Subject :=
  Stmt.subjects p.body

namespace Stmt

@[simp] theorem subjects_nil : subjects [] = [] :=
  rfl

theorem subjects_cons (s : Stmt) (ss : List Stmt) :
    subjects (s :: ss) = subjects [s] ++ subjects ss := by
  simp [subjects, consumersAll]

@[simp] theorem subjects_function (f : Signature) (body : List Stmt) :
    subjects [.function f body] = .function f :: subjects body := by
  simp [subjects, consumersAll, consumers, subject?]

@[simp] theorem subjects_classDef (name : String) (bases : List Expr) (body : List Stmt) :
    subjects [.classDef name bases body] = subjects body := by
  simp [subjects, consumersAll, consumers]

@[simp] theorem subjects_cond (test : Expr) (body orelse : List Stmt) :
    subjects [.cond test body orelse] = subjects body ++ subjects orelse := by
  simp [subjects, consumersAll, consumers]

@[simp] theorem subjects_assign (a : Assign) : subjects [.assign a] = [.assign a] :=
  rfl

end Stmt

theorem Assign.erase_declare (a : Assign) (type : DeclaredType) : (a.declare type).erase = a.erase := by
  obtain ⟨target, value, own⟩ := a
  cases type with
  | array element homogeneous => cases value <;> rfl
  | tuple types =>
    cases value with
    | list elements _ _ | tuple elements _ =>
      by_cases fits : elements.length = types.length <;> simp [declare, fits, erase, eraseValue]
    | _ => rfl
  | _ => rfl

theorem Assign.erase_declareRecord (a : Assign) (r : Record) : (a.declareRecord r).erase = a.erase := by
  rw [declareRecord]
  split
  · exact a.erase_declare _
  · rfl

/-- What comes of statements when records are attached to them: the statements are the same when
erased, their subjects have the records, and the records that are left over are the rest. -/
structure Attached (ss : List Stmt) (rs : List Record) (out : List Stmt × Queue) : Prop where
  erased : Stmt.eraseAll out.1 = Stmt.eraseAll ss
  subjects : Stmt.subjects out.1 = Subject.declareAll (Stmt.subjects ss) rs
  left : out.2 = ⟨rs.drop (Stmt.subjects ss).length⟩

namespace Attached

theorem nil (rs : List Record) : Attached [] rs ([], ⟨rs⟩) :=
  ⟨rfl, by cases rs <;> rfl, rfl⟩

theorem cons {s s' : Stmt} {ss ss' : List Stmt} {rs : List Record} {q q' : Queue}
    (head : Attached [s] rs ([s'], q)) (tail : Attached ss q.records (ss', q')) :
    Attached (s :: ss) rs (s' :: ss', q') := by
  have left : q.records = rs.drop (Stmt.subjects [s]).length := congrArg Queue.records head.left
  constructor
  · have first : Stmt.eraseAll [s'] = Stmt.eraseAll [s] := head.erased
    simp only [Stmt.eraseAll, List.cons.injEq, and_true] at first
    simp only [Stmt.eraseAll, first, tail.erased]
  · rw [Stmt.subjects_cons s', Stmt.subjects_cons s, Subject.declareAll_append, head.subjects,
      tail.subjects, left]
  · rw [tail.left, left, Stmt.subjects_cons s ss, List.drop_drop, List.length_append]

end Attached

mutual

theorem Stmt.attached (s : Stmt) (rs : List Record) :
    Attached [s] rs ([(s.attach ⟨rs⟩).1], (s.attach ⟨rs⟩).2) :=
  match s with
  | .function f body => by
    cases rs with
    | nil =>
      have inner := Stmt.attachedAll body []
      constructor
      · simp [Stmt.attach, Queue.pop, Stmt.eraseAll, Stmt.erase, inner.erased]
      · simp [Stmt.attach, Queue.pop, inner.subjects]
      · simp [Stmt.attach, Queue.pop, inner.left]
    | cons r rs =>
      have inner := Stmt.attachedAll body rs
      constructor
      · simp [Stmt.attach, Queue.pop, Stmt.eraseAll, Stmt.erase, inner.erased, Signature.erase, Signature.declare]
      · simp [Stmt.attach, Queue.pop, inner.subjects, Subject.declareAll, Subject.declare]
      · simp [Stmt.attach, Queue.pop, inner.left]
  | .classDef name bases body => by
    have inner := Stmt.attachedAll body rs
    constructor
    · simp [Stmt.attach, Stmt.eraseAll, Stmt.erase, inner.erased]
    · simp [Stmt.attach, inner.subjects]
    · simp [Stmt.attach, inner.left]
  | .cond test body orelse => by
    have first := Stmt.attachedAll body rs
    have second := Stmt.attachedAll orelse (Stmt.attachAll body ⟨rs⟩).2.records
    have left : (Stmt.attachAll body ⟨rs⟩).2.records = rs.drop (Stmt.subjects body).length :=
      congrArg Queue.records first.left
    constructor
    · simp [Stmt.attach, Stmt.eraseAll, Stmt.erase, first.erased, second.erased]
    · simp [Stmt.attach, first.subjects, second.subjects, Subject.declareAll_append, left]
    · simp [Stmt.attach, second.left, left]
  | .assign a => by
    cases rs with
    | nil => exact ⟨rfl, rfl, rfl⟩
    | cons r rs =>
      constructor
      · simp [Stmt.attach, Queue.pop, Stmt.eraseAll, Stmt.erase, a.erase_declareRecord]
      · simp [Stmt.attach, Queue.pop, Subject.declareAll, Subject.declare]
      · simp [Stmt.attach, Queue.pop]
  | .expr _ | .print _ | .call _ _ | .ret _ | .unknown _ => ⟨rfl, by cases rs <;> rfl, rfl⟩

theorem Stmt.attachedAll (ss : List Stmt) (rs : List Record) :
    Attached ss rs (Stmt.attachAll ss ⟨rs⟩) :=
  match ss with
  | [] => .nil rs
  | s :: ss => (Stmt.attached s rs).cons (Stmt.attachedAll ss _)

end

namespace Stmt

mutual

theorem length_subjects_erase (s : Stmt) : (subjects [s.erase]).length = (subjects [s]).length :=
  match s with
  | .function f body => by simp [erase, length_subjects_eraseAll body]
  | .classDef name bases body => by simp [erase, length_subjects_eraseAll body]
  | .cond test body orelse => by
    simp [erase, length_subjects_eraseAll body, length_subjects_eraseAll orelse]
  | .assign _ | .expr _ | .print _ | .call _ _ | .ret _ | .unknown _ => rfl

theorem length_subjects_eraseAll (ss : List Stmt) :
    (subjects (eraseAll ss)).length = (subjects ss).length :=
  match ss with
  | [] => rfl
  | s :: ss => by
    rw [eraseAll, subjects_cons, subjects_cons s, List.length_append, List.length_append,
      length_subjects_erase s, length_subjects_eraseAll ss]

end

/-- Statements that are the same when erased have as many subjects. -/
theorem length_subjects_of_erase {ss ts : List Stmt} (h : eraseAll ss = eraseAll ts) :
    (subjects ss).length = (subjects ts).length := by
  rw [← length_subjects_eraseAll ss, h, length_subjects_eraseAll]

mutual

/-- Nothing of a statement is in neither its subjects nor the erased statement. -/
theorem eq_of_erase (s t : Stmt) (erased : s.erase = t.erase)
    (same : subjects [s] = subjects [t]) : s = t :=
  match s with
  | .function f body => by
    cases t with
    | function g other =>
      simp only [erase, function.injEq] at erased
      simp only [subjects_function, List.cons.injEq, Subject.function.injEq] at same
      rw [same.1, eq_of_eraseAll body other erased.2 same.2]
    | _ => simp [erase] at erased
  | .classDef name bases body => by
    cases t with
    | classDef name' bases' other =>
      simp only [erase, classDef.injEq] at erased
      simp only [subjects_classDef] at same
      rw [erased.1, erased.2.1, eq_of_eraseAll body other erased.2.2 same]
    | _ => simp [erase] at erased
  | .cond test body orelse => by
    cases t with
    | cond test' body' orelse' =>
      simp only [erase, cond.injEq] at erased
      simp only [subjects_cond] at same
      obtain ⟨first, second⟩ := List.append_inj same (length_subjects_of_erase erased.2.1)
      rw [erased.1, eq_of_eraseAll body body' erased.2.1 first,
        eq_of_eraseAll orelse orelse' erased.2.2 second]
    | _ => simp [erase] at erased
  | .assign a => by
    cases t with
    | assign b =>
      simp only [subjects_assign, List.cons.injEq, Subject.assign.injEq, and_true] at same
      rw [same]
    | _ => simp [erase] at erased
  | .expr _ | .print _ | .call _ _ | .ret _ | .unknown _ => by
    cases t <;> simp_all [erase]

theorem eq_of_eraseAll (ss ts : List Stmt) (erased : eraseAll ss = eraseAll ts)
    (same : subjects ss = subjects ts) : ss = ts :=
  match ss with
  | [] => by
    cases ts with
    | nil => rfl
    | cons t ts => simp [eraseAll] at erased
  | s :: ss => by
    cases ts with
    | nil => simp [eraseAll] at erased
    | cons t ts =>
      simp only [eraseAll, List.cons.injEq] at erased
      rw [subjects_cons s, subjects_cons t] at same
      have one : eraseAll [s] = eraseAll [t] := by simp only [eraseAll, erased.1]
      obtain ⟨first, rest⟩ := List.append_inj same (length_subjects_of_erase one)
      rw [eq_of_erase s t erased.1 first, eq_of_eraseAll ss ts erased.2 rest]

end

end Stmt

/-- Attaching records is an update of the subjects by position, and of nothing else: the result is the
program that is the same when erased and has every subject declared by the record at its position, if
there is one. The records that no subject takes are dropped. -/
theorem Program.eq_attach_iff (p : Program) (rs : List Record) :
    (∀ q : Program, q = (p.attach ⟨rs⟩).1 ↔
      q.erase = p.erase ∧ ∀ k, q.subjects[k]? = p.subjects[k]?.map (Subject.declareAt rs k)) ∧
    ((∀ r ∈ rs, r.isEmpty = true) → (p.attach ⟨rs⟩).1 = p) ∧
    (Stmt.attachAll p.body ⟨rs⟩).2 = ⟨rs.drop p.subjects.length⟩ ∧ (p.attach ⟨rs⟩).2 = {} := by
  have run := Stmt.attachedAll p.body rs
  have sole : ∀ q : Program, q = (p.attach ⟨rs⟩).1 ↔
      q.erase = p.erase ∧ q.subjects = Subject.declareAll p.subjects rs := by
    intro q
    constructor
    · rintro rfl
      exact ⟨congrArg Program.mk run.erased, run.subjects⟩
    · rintro ⟨erased, subjects⟩
      have body := Stmt.eq_of_eraseAll q.body (Stmt.attachAll p.body ⟨rs⟩).1
        ((congrArg Program.body erased).trans run.erased.symm) (subjects.trans run.subjects.symm)
      exact congrArg Program.mk body
  refine ⟨?_, ?_, run.left, rfl⟩
  · intro q
    rw [sole, List.ext_getElem?_iff]
    simp only [Subject.getElem?_declareAll]
  · intro empty
    have none : ∀ r ∈ rs, r = {} := fun r mem => Record.isEmpty_iff.1 (empty r mem)
    exact ((sole p).2 ⟨rfl, (Subject.declareAll_of_empty _ none).symm⟩).symm

/-- Two records for five subjects, the second of which is inside the body of the first. -/
theorem Program.eq_attach_iff_short :
    (∀ r ∈ [({} : Record), {}], r.isEmpty = true) ∧
    (declaredProgram.attach ⟨[{}, {}]⟩).1 = declaredProgram ∧
    (declaredProgram.attach ⟨[{}, { variableType := some (.base .string) }]⟩).1.subjects[1]? =
      some (.assign { target := ⟨"x", .store⟩, value := .lit (.int 1), type := .string }) ∧
    (declaredProgram.attach ⟨[{}, { variableType := some (.base .string) }]⟩).1.subjects[2]? =
      declaredProgram.subjects[2]? := by
  have empty : ∀ r ∈ [({} : Record), {}], r.isEmpty = true := by decide
  have updated := ((declaredProgram.eq_attach_iff [{}, { variableType := some (.base .string) }]).1 _).1
    rfl
  refine ⟨empty, (declaredProgram.eq_attach_iff [{}, {}]).2.1 empty, ?_, ?_⟩
  · rw [updated.2]
    rfl
  · rw [updated.2]
    rfl

end Interlingua

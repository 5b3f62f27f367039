import Interlingua.Program.Agreement
import Interlingua.Record.Queue

/-!
# Agreement and records

Programs that agree have their constants, lists and consumers at the same places. Records that are
attached to both leave them in agreement.
-/

namespace Interlingua

variable {related : Literal → Literal → Bool}

namespace Expr

theorem constType_of_agree {e e' : Expr} (h : e.agree related e' = true) :
    e.constType = e'.constType := by
  cases e <;> cases e' <;> simp_all [agree, constType]

theorem length_of_agreeAll {es es' : List Expr} (h : agreeAll related es es' = true) :
    es.length = es'.length := by
  induction es generalizing es' with
  | nil => cases es' <;> simp_all [agreeAll]
  | cons e es ih =>
    cases es' with
    | nil => simp [agreeAll] at h
    | cons e' es' =>
      simp only [agreeAll, Bool.and_eq_true] at h
      simp [ih h.2]

theorem constTypes_of_agreeAll {es es' : List Expr} (h : agreeAll related es es' = true) :
    es.map constType = es'.map constType := by
  induction es generalizing es' with
  | nil => cases es' <;> simp_all [agreeAll]
  | cons e es ih =>
    cases es' with
    | nil => simp [agreeAll] at h
    | cons e' es' =>
      simp only [agreeAll, Bool.and_eq_true] at h
      simp [constType_of_agree h.1, ih h.2]

/-- The shared type is found from the types of the constants alone. -/
theorem sharedType_of_agreeAll {es es' : List Expr} (h : agreeAll related es es' = true) :
    sharedType es = sharedType es' := by
  have types := constTypes_of_agreeAll h
  cases es with
  | nil => cases es' <;> simp_all
  | cons e es =>
    cases es' with
    | nil => simp at types
    | cons e' es' =>
      obtain ⟨first, rest⟩ : e.constType = e'.constType ∧ es.map constType = es'.map constType := by
        simpa using types
      have all : ∀ es : List Expr, es.all (·.constType = e'.constType) =
          (es.map constType).all (· = e'.constType) := fun es => by simp [Function.comp_def]
      rw [sharedType, sharedType, first, all, all, rest]

theorem agree_listOf {es es' : List Expr} (h : agreeAll related es es' = true) :
    (listOf es).agree related (listOf es') = true := by
  simp [listOf, agree, sharedType_of_agreeAll h, h]

end Expr

namespace Assign

variable {a b : Assign} (h : a.agree related b = true)

include h

theorem agree_declare (type : DeclaredType) :
    (a.declare type).agree related (b.declare type) = true := by
  obtain ⟨target, value, own⟩ := a
  obtain ⟨target', value', own'⟩ := b
  obtain ⟨⟨rfl, rfl⟩, values⟩ : (target = target' ∧ own = own') ∧ value.agree related value' = true := by
    simpa [agree] using h
  cases type with
  | base type => simp [declare, agree, values]
  | array element homogeneous =>
    cases value <;> cases value' <;> simp_all [declare, agree, Expr.agree]
  | tuple types =>
    -- only lists and tuples are retyped, and they have as many elements on both sides
    cases value <;> cases value' <;> try first | exact h | cases values
    all_goals
      have elements := ((Bool.and_eq_true _ _).mp values).2
      have lengths := Expr.length_of_agreeAll elements
      simp only [declare, lengths]
      split
      · simp [agree, Expr.agree, elements]
      · exact h
  | named name => exact h
  | unknown => exact h

theorem agree_declareRecord (r : Record) :
    (a.declareRecord r).agree related (b.declareRecord r) = true := by
  unfold declareRecord
  split
  · exact agree_declare h _
  · exact h

end Assign

mutual

theorem Stmt.agree_attach (s t : Stmt) (h : s.agree related t = true) (q : Queue) :
    (s.attach q).1.agree related (t.attach q).1 = true ∧ (s.attach q).2 = (t.attach q).2 :=
  match s with
  | .function f body => by
    cases t with
    | function f' body' =>
      simp only [Stmt.agree, Bool.and_eq_true, decide_eq_true_eq] at h
      obtain ⟨rfl, bodies⟩ := h
      have inner := Stmt.agree_attachAll body body' bodies q.pop.2
      simp [Stmt.attach, Stmt.agree, inner]
    | _ => cases h
  | .classDef name bases body => by
    cases t with
    | classDef name' bases' body' =>
      simp only [Stmt.agree, Bool.and_eq_true] at h
      have inner := Stmt.agree_attachAll body body' h.2 q
      simp only [Stmt.attach, Stmt.agree, inner, h.1, Bool.and_self, and_self]
    | _ => cases h
  | .cond test body orelse => by
    cases t with
    | cond test' body' orelse' =>
      simp only [Stmt.agree, Bool.and_eq_true] at h
      obtain ⟨first, same⟩ := Stmt.agree_attachAll body body' h.1.2 q
      have second := Stmt.agree_attachAll orelse orelse' h.2 (Stmt.attachAll body' q).2
      simp only [Stmt.attach, Stmt.agree, first, same, second, h.1.1, Bool.and_self, and_self]
    | _ => cases h
  | .assign a => by
    cases t with
    | assign b =>
      cases known : q.pop with
      | mk record rest =>
        cases record with
        | none => simpa [Stmt.attach, known] using h
        | some r =>
          have declared := Assign.agree_declareRecord h r
          simpa [Stmt.attach, known, Stmt.agree] using declared
    | _ => cases h
  | .expr _ | .print _ | .call _ _ | .ret none | .ret (some _) | .unknown _ => by
    cases t <;> first | exact ⟨h, rfl⟩ | cases h

theorem Stmt.agree_attachAll (ss ts : List Stmt) (h : Stmt.agreeAll related ss ts = true) (q : Queue) :
    Stmt.agreeAll related (Stmt.attachAll ss q).1 (Stmt.attachAll ts q).1 = true ∧
      (Stmt.attachAll ss q).2 = (Stmt.attachAll ts q).2 :=
  match ss, ts with
  | [], [] => ⟨rfl, rfl⟩
  | s :: ss, t :: ts => by
    simp only [Stmt.agreeAll, Bool.and_eq_true] at h
    obtain ⟨first, same⟩ := Stmt.agree_attach s t h.1 q
    have rest := Stmt.agree_attachAll ss ts h.2 (t.attach q).2
    simp [Stmt.attachAll, Stmt.agreeAll, first, same, rest]
  | [], _ :: _ | _ :: _, [] => by simp [Stmt.agreeAll] at h

end

/-- Records attached to programs that agree leave them in agreement. -/
theorem Program.agree_attach {p p' : Program} (h : p.agree related p' = true) (q : Queue) :
    (p.attach q).1.agree related (p'.attach q).1 = true :=
  (Stmt.agree_attachAll p.body p'.body h q).1

end Interlingua

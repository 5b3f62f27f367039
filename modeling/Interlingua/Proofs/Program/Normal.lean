import Interlingua.Proofs.Record.Declaring

/-!
# Normal programs

What writers rely on in a program: calls and prints are statements of their own, names have the roles
of the places they stand in, the types of constants, tuples and lists agree with what they are given
to, and functions declare nothing but their parameters. Attaching records of spelled types keeps a
program normal.
-/

namespace Interlingua

/-- What is asked of a single expression. A list is homogeneous if its element type is closed. -/
def Expr.isNormal : Expr → Bool
  | .name n => n.role = .load
  | .const value type => type = value.baseType
  | .tuple elements types => types.length = elements.length
  | .list _ element homogeneous => homogeneous = element.isClosed
  | .call _ _ | .member _ _ | .binary _ _ _ | .compare _ _ _ | .unknown _ => true

def Signature.isNormal (f : Signature) : Bool :=
  f.params.all (·.role = .param) && f.declaresParams

/-- What is asked of a single statement. A call is not kept as an expression, and a call that prints
one value not as a call. -/
def Stmt.isNormal : Stmt → Bool
  | .expr (.call _ _) => false
  | .call (.name n) [_] => n.id ≠ "print"
  | .assign a => a.target.role = .store
  | .function f _ => f.isNormal
  | _ => true

def Program.isNormal (p : Program) : Bool :=
  p.every Expr.isNormal Stmt.isNormal

namespace Expr

theorem ownTyped_of_isNormal {e : Expr} (h : e.isNormal = true) : e.ownTyped = true := by
  cases e with
  | const value type => exact h
  | _ => rfl

theorem every_listOf {es : List Expr} (h : everyAll isNormal es = true) :
    (listOf es).every isNormal = true := by
  have own : everyAll ownTyped es = true :=
    everyAll_mono (fun _ h => ownTyped_of_isNormal (every_self h)) es h
  have closed : (sharedType es).isKnown = (sharedType es).isClosed := by
    simp [BaseType.isKnown, BaseType.isClosed, sharedType_ne_any own]
  simp [listOf, every, isNormal, h, closed]

theorem every_tupleOf {es : List Expr} (h : everyAll isNormal es = true) :
    (tupleOf es).every isNormal = true := by
  simp [tupleOf, every, isNormal, h]

end Expr

theorem Stmt.every_ofExpr {e : Expr} (h : e.every Expr.isNormal = true) :
    (Stmt.ofExpr e).every Expr.isNormal Stmt.isNormal = true := by
  unfold Stmt.ofExpr
  split
  · rename_i n arg
    simp only [Expr.every, Expr.everyAll, Bool.and_eq_true] at h
    split
    · simp [Stmt.every, Stmt.isNormal, h]
    · simp_all [Stmt.every, Stmt.isNormal, Expr.every, Expr.everyAll]
  · rename_i callee args other
    simp only [Expr.every, Bool.and_eq_true] at h
    have own : (Stmt.call callee args).isNormal = true := by
      unfold Stmt.isNormal
      split <;> simp_all
    simp [Stmt.every, own, h]
  · rename_i other
    have own : (Stmt.expr e).isNormal = true := by
      unfold Stmt.isNormal
      split <;> simp_all
    simp [Stmt.every, own, h]

theorem Signature.isNormal_declare {f : Signature} (h : f.isNormal = true) (r : Record) :
    (f.declare r).isNormal = true := by
  simp only [isNormal, declaresParams, Bool.and_eq_true, List.all_eq_true] at h ⊢
  obtain ⟨roles, types, facts⟩ := h
  refine ⟨roles, ?_, ?_⟩
  · exact Dict.forall_foldl_insert types fun e mem => (List.mem_filter.1 mem).2
  · exact Dict.forall_foldl_insert facts fun e mem => (List.mem_filter.1 mem).2

/-- An assignment of a normal value to a name that is written. -/
def Assign.Normal (a : Assign) : Prop :=
  (Stmt.assign a).every Expr.isNormal Stmt.isNormal = true

namespace Assign

theorem normal_store {e : Expr} (h : e.every Expr.isNormal = true) (id : String) :
    (store id e).Normal := by
  simp [Normal, Stmt.every, Stmt.isNormal, store, h]

theorem target_declare (a : Assign) (type : DeclaredType) : (a.declare type).target = a.target := by
  unfold declare
  grind

theorem normal_declare {a : Assign} (h : a.Normal) {type : DeclaredType}
    (spelled : type.Spelled) : (a.declare type).Normal := by
  obtain ⟨written, values⟩ := (Bool.and_eq_true _ _).mp h
  refine (Bool.and_eq_true _ _).mpr ⟨?_, ?_⟩
  · simpa [Stmt.isNormal, target_declare] using written
  · refine every_declare type values ?_ ?_
    · rintro es element homogeneous rfl -
      cases spelled
      simp [Expr.isNormal]
    · rintro es types rfl fits -
      simp [Expr.isNormal, fits]

theorem normal_declareRecord {a : Assign} (h : a.Normal) {r : Record}
    (spelled : ∀ type, r.variableType = some type → type.Spelled) :
    (a.declareRecord r).Normal := by
  unfold declareRecord
  split
  · exact normal_declare h (spelled _ ‹_›)
  · exact h

end Assign

/-- The variable types of records can be spelled. -/
def Record.AllSpelled (rs : List Record) : Prop :=
  ∀ r ∈ rs, ∀ type, r.variableType = some type → type.Spelled

theorem Queue.allSpelled_pop {q : Queue} (h : Record.AllSpelled q.records) :
    (∀ r, q.pop.1 = some r → ∀ type, r.variableType = some type → type.Spelled) ∧
      Record.AllSpelled q.pop.2.records := by
  obtain ⟨records⟩ := q
  cases records with
  | nil => exact ⟨by simp [pop], h⟩
  | cons r rest =>
    obtain ⟨own, others⟩ := List.forall_mem_cons.1 h
    refine ⟨?_, others⟩
    rintro _ ⟨⟩
    exact own

mutual

theorem Stmt.every_attach (s : Stmt) (h : s.every Expr.isNormal Stmt.isNormal = true) (q : Queue)
    (spelled : Record.AllSpelled q.records) :
    (s.attach q).1.every Expr.isNormal Stmt.isNormal = true ∧
      Record.AllSpelled (s.attach q).2.records :=
  match s with
  | .function f body => by
    obtain ⟨own, inner⟩ := (Bool.and_eq_true _ _).mp h
    obtain ⟨-, later⟩ := Queue.allSpelled_pop spelled
    obtain ⟨body', rest⟩ := Stmt.everyAll_attach body inner q.pop.2 later
    have declared : Signature.isNormal
        (match q.pop.1 with | some r => f.declare r | none => f) = true := by
      split
      · exact Signature.isNormal_declare own _
      · exact own
    exact ⟨(Bool.and_eq_true _ _).mpr ⟨declared, body'⟩, rest⟩
  | .classDef name bases body => by
    obtain ⟨own, inner⟩ := (Bool.and_eq_true _ _).mp h
    obtain ⟨body', rest⟩ := Stmt.everyAll_attach body inner q spelled
    exact ⟨(Bool.and_eq_true _ _).mpr ⟨own, body'⟩, rest⟩
  | .cond test body orelse => by
    simp only [Stmt.every, Bool.and_eq_true] at h
    obtain ⟨⟨⟨-, own⟩, inner⟩, alternative⟩ := h
    obtain ⟨body', later⟩ := Stmt.everyAll_attach body inner q spelled
    obtain ⟨orelse', rest⟩ := Stmt.everyAll_attach orelse alternative _ later
    refine ⟨?_, rest⟩
    simp only [Stmt.attach, Stmt.every, Bool.and_eq_true]
    exact ⟨⟨⟨rfl, own⟩, body'⟩, orelse'⟩
  | .assign a => by
    obtain ⟨head, later⟩ := Queue.allSpelled_pop spelled
    rw [Stmt.attach]
    cases popped : q.pop with
    | mk record rest =>
      rw [popped] at head later
      cases record with
      | none => exact ⟨h, later⟩
      | some r => exact ⟨Assign.normal_declareRecord h (head r rfl), later⟩
  | .expr _ | .print _ | .call _ _ | .ret _ | .unknown _ => ⟨h, spelled⟩

theorem Stmt.everyAll_attach (ss : List Stmt)
    (h : Stmt.everyAll Expr.isNormal Stmt.isNormal ss = true) (q : Queue)
    (spelled : Record.AllSpelled q.records) :
    Stmt.everyAll Expr.isNormal Stmt.isNormal (Stmt.attachAll ss q).1 = true ∧
      Record.AllSpelled (Stmt.attachAll ss q).2.records :=
  match ss with
  | [] => ⟨rfl, spelled⟩
  | s :: ss => by
    obtain ⟨own, others⟩ := (Bool.and_eq_true _ _).mp h
    obtain ⟨head, later⟩ := Stmt.every_attach s own q spelled
    obtain ⟨tail, rest⟩ := Stmt.everyAll_attach ss others _ later
    exact ⟨(Bool.and_eq_true _ _).mpr ⟨head, tail⟩, rest⟩

end

theorem Program.isNormal_attach {p : Program} (h : p.isNormal = true) {q : Queue}
    (spelled : Record.AllSpelled q.records) : (p.attach q).1.isNormal = true :=
  (Stmt.everyAll_attach p.body h q spelled).1

end Interlingua

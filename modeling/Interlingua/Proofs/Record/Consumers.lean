import Interlingua.Proofs.Dict
import Interlingua.Proofs.Program.Everywhere
import Interlingua.Record.Queue

/-!
# Consumers in walk order

The functions and assignments of a program, in the order in which records are gathered from them.
-/

namespace Interlingua

theorem Record.isEmpty_iff {r : Record} : r.isEmpty = true ↔ r = {} := by
  obtain ⟨returnType, paramTypes, variableType, paramFacts⟩ := r
  simp [isEmpty, and_assoc]

mutual

/-- The functions and assignments among a statement and those inside it, in walk order. -/
def Stmt.consumers : Stmt → List Stmt
  | .function f body => .function f body :: Stmt.consumersAll body
  | .classDef _ _ body => Stmt.consumersAll body
  | .cond _ body orelse => Stmt.consumersAll body ++ Stmt.consumersAll orelse
  | .assign a => [.assign a]
  | _ => []

def Stmt.consumersAll : List Stmt → List Stmt
  | [] => []
  | s :: ss => Stmt.consumers s ++ Stmt.consumersAll ss

end

def Program.consumers (p : Program) : List Stmt :=
  Stmt.consumersAll p.body

/-- The record of a consumer by itself. -/
def Stmt.record : Stmt → Record
  | .function f _ => Record.ofSignature f
  | .assign a => Record.ofAssign a
  | _ => {}

mutual

theorem Stmt.gather_eq_consumers (s : Stmt) : s.gather = s.consumers.map Stmt.record :=
  match s with
  | .function f body => by
    simp [Stmt.gather, Stmt.consumers, Stmt.record, Stmt.gatherAll_eq_consumers body]
  | .classDef _ _ body => Stmt.gatherAll_eq_consumers body
  | .cond _ body orelse => by
    simp [Stmt.gather, Stmt.consumers, Stmt.gatherAll_eq_consumers body,
      Stmt.gatherAll_eq_consumers orelse]
  | .assign a => rfl
  | .expr _ | .print _ | .call _ _ | .ret _ | .unknown _ => rfl

theorem Stmt.gatherAll_eq_consumers (ss : List Stmt) :
    Stmt.gatherAll ss = (Stmt.consumersAll ss).map Stmt.record :=
  match ss with
  | [] => rfl
  | s :: ss => by
    simp [Stmt.gatherAll, Stmt.consumersAll, Stmt.gather_eq_consumers s,
      Stmt.gatherAll_eq_consumers ss]

end

/-- No consumer has a nominal type on record. -/
theorem Stmt.record_ne_named (s : Stmt) (name : String) :
    s.record.variableType ≠ some (.named name) := by
  cases s with
  | assign a =>
    simp only [Stmt.record, Record.ofAssign]
    split
    · simp
    · unfold Record.containerType?
      grind [DeclaredType.arrayOf]
  | _ => simp [Stmt.record, Record.ofSignature]

section

variable {q : Expr → Bool} {p : Stmt → Bool}

mutual

/-- What is asked of every statement is asked of the consumers. -/
theorem Stmt.consumers_forall (s : Stmt) (h : s.every q p = true) :
    ∀ c ∈ s.consumers, c.every q p = true :=
  match s with
  | .function f body => by
    have inner := ((Bool.and_eq_true _ _).mp h).2
    exact List.forall_mem_cons.2 ⟨h, Stmt.consumersAll_forall body inner⟩
  | .classDef _ _ body => by
    simp only [Stmt.every, Bool.and_eq_true] at h
    exact Stmt.consumersAll_forall body h.2
  | .cond _ body orelse => by
    simp only [Stmt.every, Bool.and_eq_true] at h
    exact List.forall_mem_append.2
      ⟨Stmt.consumersAll_forall body h.1.2, Stmt.consumersAll_forall orelse h.2⟩
  | .assign a => List.forall_mem_singleton.2 h
  | .expr _ | .print _ | .call _ _ | .ret _ | .unknown _ => by simp [Stmt.consumers]

theorem Stmt.consumersAll_forall (ss : List Stmt) (h : Stmt.everyAll q p ss = true) :
    ∀ c ∈ Stmt.consumersAll ss, c.every q p = true :=
  match ss with
  | [] => by simp [Stmt.consumersAll]
  | s :: ss => by
    simp only [Stmt.everyAll, Bool.and_eq_true] at h
    exact List.forall_mem_append.2 ⟨Stmt.consumers_forall s h.1, Stmt.consumersAll_forall ss h.2⟩

end

end

end Interlingua

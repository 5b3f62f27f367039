import Interlingua.Proofs.Dict
import Interlingua.Proofs.Program.Everywhere
import Interlingua.Record.Queue

/-!
# Restoring what is declared

`erase` takes from a program what a language without types cannot spell: the types and facts of
functions, the types of variables, and the types of assigned lists and tuples other than those that
follow from the elements. Attaching the gathered records to the erased program gives the program
back, and every record finds its consumer.
-/

namespace Interlingua

namespace Signature

def erase (f : Signature) : Signature :=
  { f with returnType := .unknown, paramTypes := {}, paramFacts := {} }

/-- Types and facts are declared of parameters only. -/
def declaresParams (f : Signature) : Bool :=
  f.paramTypes.entries.all (fun e => f.hasParam e.1) &&
    f.paramFacts.entries.all (fun e => f.hasParam e.1)

end Signature

namespace Assign

/-- The value as it is read where types are not spelled. -/
def eraseValue : Expr → Expr
  | .list elements _ _ => .listOf elements
  | .tuple elements _ => .listOf elements
  | e => e

def erase (a : Assign) : Assign :=
  { a with value := eraseValue a.value, type := .unknown }

/-- Whether a record says all that is lost of an assignment. A variable with a type has no tuple,
and no list with a type of its own; without one, the types of a container are those that can be
spelled. -/
def restorable (a : Assign) : Bool :=
  match a.value with
  | .list elements element homogeneous =>
    (element = Expr.sharedType elements && homogeneous = (Expr.sharedType elements).isKnown) ||
      (!a.type.isKnown && element.isKnown && homogeneous = decide (element ≠ .any))
  | .tuple elements types => !a.type.isKnown && !types.isEmpty && types.length = elements.length
  | _ => true

end Assign

mutual

def Stmt.erase : Stmt → Stmt
  | .function f body => .function f.erase (Stmt.eraseAll body)
  | .classDef name bases body => .classDef name bases (Stmt.eraseAll body)
  | .cond test body orelse => .cond test (Stmt.eraseAll body) (Stmt.eraseAll orelse)
  | .assign a => .assign a.erase
  | s => s

def Stmt.eraseAll : List Stmt → List Stmt
  | [] => []
  | s :: ss => Stmt.erase s :: Stmt.eraseAll ss

end

def Program.erase (p : Program) : Program :=
  ⟨Stmt.eraseAll p.body⟩

/-- Whether the records of a consumer say all that is lost of it. -/
def Stmt.restorable : Stmt → Bool
  | .function f _ => f.declaresParams
  | .assign a => a.restorable
  | _ => true

/-- Constants have the types of their literals, and the records of consumers say all that is lost of
them. -/
def Program.restorable (p : Program) : Bool :=
  p.every Expr.ownTyped Stmt.restorable

theorem Signature.declare_erase (f : Signature) (h : f.declaresParams = true) :
    f.erase.declare (Record.ofSignature f) = f := by
  obtain ⟨types, facts⟩ := (Bool.and_eq_true _ _).mp h
  have keptTypes : f.paramTypes.entries.filter (fun e => f.hasParam e.1) = f.paramTypes.entries :=
    List.filter_eq_self.2 (List.all_eq_true.1 types)
  have keptFacts : f.paramFacts.entries.filter (fun e => f.hasParam e.1) = f.paramFacts.entries :=
    List.filter_eq_self.2 (List.all_eq_true.1 facts)
  have returned : (Record.ofSignature f).returnType.getD .unknown = f.returnType := by
    cases known : f.returnType <;> simp [Record.ofSignature, known, BaseType.isKnown]
  change Signature.mk f.name f.params ((Record.ofSignature f).returnType.getD .unknown)
    ((f.paramTypes.entries.filter fun e => f.hasParam e.1).foldl (fun d e => d.insert e.1 e.2) {})
    ((f.paramFacts.entries.filter fun e => f.hasParam e.1).foldl (fun d e => d.insert e.1 e.2) {})
    = f
  rw [returned, keptTypes, keptFacts, Dict.foldl_insert_entries, Dict.foldl_insert_entries]

private theorem constType_ne_any {e : Expr} (h : e.ownTyped = true) : e.constType ≠ .any := by
  cases e with
  | const value type =>
    have own : type = value.baseType := by simpa [Expr.ownTyped] using h
    subst own
    cases value <;> simp [Expr.constType, Literal.baseType]
  | _ => simp [Expr.constType]

theorem Expr.sharedType_ne_any {es : List Expr} (h : Expr.everyAll Expr.ownTyped es = true) :
    Expr.sharedType es ≠ .any := by
  cases es with
  | nil => simp [Expr.sharedType]
  | cons e es =>
    have own := Expr.every_self ((Expr.everyAll_iff _ _).1 h e List.mem_cons_self)
    rw [Expr.sharedType]
    split
    · exact constType_ne_any own
    · simp

private theorem declare_erase_list {target : Name} {type element : BaseType} {elements : List Expr}
    {homogeneous : Bool} (own : Expr.everyAll Expr.ownTyped elements = true)
    (h : Assign.restorable ⟨target, .list elements element homogeneous, type⟩ = true) :
    Assign.declareRecord (Assign.erase ⟨target, .list elements element homogeneous, type⟩)
      (Record.ofAssign ⟨target, .list elements element homogeneous, type⟩) =
      ⟨target, .list elements element homogeneous, type⟩ := by
  have notAny := Expr.sharedType_ne_any own
  simp only [Assign.restorable, Bool.or_eq_true, Bool.and_eq_true, decide_eq_true_eq] at h
  by_cases known : type.isKnown
  · obtain ⟨rfl, rfl⟩ : element = _ ∧ homogeneous = _ := by simpa [known] using h
    simp [Record.ofAssign, known, Assign.declareRecord, Assign.declare, Assign.erase,
      Assign.eraseValue, Expr.listOf]
  · have unknown : type = .unknown := by simpa [BaseType.isKnown] using known
    subst unknown
    by_cases same : element = Expr.sharedType elements
    · -- nothing is recorded, and the elements alone say the type
      have isHomogeneous : homogeneous = (Expr.sharedType elements).isKnown := by
        rcases h with h | ⟨⟨_, known'⟩, h⟩
        · exact h.2
        · simpa [← same, known', h] using notAny
      simp [Record.ofAssign, Record.containerType?, same, isHomogeneous, Assign.declareRecord,
        Assign.erase, Assign.eraseValue, Expr.listOf, BaseType.isKnown]
    · obtain ⟨⟨_, known'⟩, rfl⟩ := h.resolve_left fun h => same h.1
      have notUnknown : element ≠ .unknown := by simpa [BaseType.isKnown] using known'
      have closed : element.isClosed = decide (element ≠ .any) := by
        cases element <;> simp_all [BaseType.isKnown, BaseType.isClosed]
      simp [Record.ofAssign, Record.containerType?, same, notUnknown, Assign.declareRecord,
        Assign.declare, Assign.erase, Assign.eraseValue, Expr.listOf, BaseType.isKnown,
        DeclaredType.arrayOf, closed]

theorem Assign.declareRecord_erase (a : Assign) (own : a.value.every Expr.ownTyped = true)
    (h : a.restorable = true) : a.erase.declareRecord (Record.ofAssign a) = a := by
  obtain ⟨target, value, type⟩ := a
  cases value with
  | list elements element homogeneous =>
    exact declare_erase_list (by simpa [Expr.every, Expr.ownTyped] using own) h
  | tuple elements types =>
    obtain ⟨⟨unknown, some⟩, length⟩ :
        (type = .unknown ∧ types.isEmpty = false) ∧ types.length = elements.length := by
      simpa [restorable, BaseType.isKnown] using h
    subst unknown
    simp [Record.ofAssign, Record.containerType?, some, declareRecord, declare, erase, eraseValue,
      Expr.listOf, BaseType.isKnown, length]
  | _ =>
    by_cases known : type.isKnown
    · simp [Record.ofAssign, known, declareRecord, declare, erase, eraseValue]
    · have unknown : type = .unknown := by simpa [BaseType.isKnown] using known
      simp [Record.ofAssign, unknown, BaseType.isKnown, Record.containerType?, declareRecord, erase,
        eraseValue]

mutual

theorem Stmt.attach_erase (s : Stmt) (rest : List Record)
    (h : s.every Expr.ownTyped Stmt.restorable = true) :
    s.erase.attach ⟨s.gather ++ rest⟩ = (s, ⟨rest⟩) :=
  match s with
  | .function f body => by
    obtain ⟨declared, inner⟩ := (Bool.and_eq_true _ _).mp h
    have head := Signature.declare_erase f declared
    have tail := Stmt.attachAll_erase body rest inner
    simp [Stmt.erase, Stmt.attach, Stmt.gather, Queue.pop, head, tail]
  | .classDef name bases body => by
    have tail := Stmt.attachAll_erase body rest ((Bool.and_eq_true _ _).mp h).2
    simp [Stmt.erase, Stmt.attach, Stmt.gather, tail]
  | .cond test body orelse => by
    obtain ⟨inner, alternative⟩ := (Bool.and_eq_true _ _).mp h
    obtain ⟨_, inner⟩ := (Bool.and_eq_true _ _).mp inner
    have first := Stmt.attachAll_erase body (Stmt.gatherAll orelse ++ rest) inner
    have second := Stmt.attachAll_erase orelse rest alternative
    simp [Stmt.erase, Stmt.attach, Stmt.gather, List.append_assoc, first, second]
  | .assign a => by
    obtain ⟨declared, own⟩ := (Bool.and_eq_true _ _).mp h
    have restored := Assign.declareRecord_erase a own declared
    simp [Stmt.erase, Stmt.attach, Stmt.gather, Queue.pop, restored]
  | .expr _ | .print _ | .call _ _ | .ret _ | .unknown _ => by
    simp [Stmt.erase, Stmt.attach, Stmt.gather]

theorem Stmt.attachAll_erase (ss : List Stmt) (rest : List Record)
    (h : Stmt.everyAll Expr.ownTyped Stmt.restorable ss = true) :
    Stmt.attachAll (Stmt.eraseAll ss) ⟨Stmt.gatherAll ss ++ rest⟩ = (ss, ⟨rest⟩) :=
  match ss with
  | [] => rfl
  | s :: ss => by
    obtain ⟨own, inner⟩ := (Bool.and_eq_true _ _).mp h
    have head := Stmt.attach_erase s (Stmt.gatherAll ss ++ rest) own
    have tail := Stmt.attachAll_erase ss rest inner
    simp [Stmt.eraseAll, Stmt.attachAll, Stmt.gatherAll, List.append_assoc, head, tail]

end

/-- The records gathered from a program restore it: each finds its consumer, so that none is left
when the last consumer has been visited and none is dropped. -/
theorem Program.attach_gather_erase (p : Program) (h : p.restorable = true) :
    Stmt.attachAll p.erase.body ⟨p.gather⟩ = (p.body, {}) ∧ p.erase.attach ⟨p.gather⟩ = (p, {}) := by
  have walked : Stmt.attachAll p.erase.body ⟨p.gather⟩ = (p.body, {}) := by
    simpa [Program.erase, Program.gather] using Stmt.attachAll_erase p.body [] h
  exact ⟨walked, by simp [Program.attach, walked]⟩

/-- A program with every kind of declaration that a record can restore. -/
def declaredProgram : Program :=
  ⟨[.function
      { name := "f", params := [⟨"a", .param⟩, ⟨"b", .param⟩], returnType := .void
        paramTypes := Dict.ofList [("a", .string), ("b", .unknown)]
        paramFacts := Dict.ofList [("b", Dict.ofList [("unit", "kg")])] }
      [.cond (.load "a")
        [.assign { target := ⟨"x", .store⟩, value := .lit (.int 1), type := .number }]
        [.assign { target := ⟨"x", .store⟩, value := .list [.lit (.bool true)] .any false }]],
    .classDef "C" []
      [.assign { target := ⟨"y", .store⟩, value := .tuple [.lit (.str "s"), .load "x"] [.string, .unknown] }],
    .assign { target := ⟨"z", .store⟩, value := .listOf [.lit (.int 1), .lit (.int 2)] }]⟩

theorem attach_gather_erase_declared :
    declaredProgram.restorable = true ∧
    Stmt.attachAll declaredProgram.erase.body ⟨declaredProgram.gather⟩ = (declaredProgram.body, {}) ∧
    declaredProgram.erase.attach ⟨declaredProgram.gather⟩ = (declaredProgram, {}) := by
  have h : declaredProgram.restorable = true := by decide
  exact ⟨h, declaredProgram.attach_gather_erase h⟩

end Interlingua

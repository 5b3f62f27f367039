import Interlingua.Program.Mentions

/-!
# Conditions on every node of a program

`every` asks a condition of an expression or statement and of all that is inside it. Statements have
a condition of their own, and the expressions in them another. What is asked of every assignment
holds of those that escape a branch.
-/

namespace Interlingua

section

variable (q : Expr → Bool)

mutual

def Expr.every : Expr → Bool
  | .call callee args => q (.call callee args) && Expr.every callee && Expr.everyAll args
  | .member object property => q (.member object property) && Expr.every object
  | .binary left op right => q (.binary left op right) && Expr.every left && Expr.every right
  | .compare left op right => q (.compare left op right) && Expr.every left && Expr.every right
  | .list elements element homogeneous =>
    q (.list elements element homogeneous) && Expr.everyAll elements
  | .tuple elements types => q (.tuple elements types) && Expr.everyAll elements
  | .name n => q (.name n)
  | .const value type => q (.const value type)
  | .unknown description => q (.unknown description)

def Expr.everyAll : List Expr → Bool
  | [] => true
  | e :: es => Expr.every e && Expr.everyAll es

end

variable (p : Stmt → Bool)

mutual

def Stmt.every : Stmt → Bool
  | .expr value => p (.expr value) && value.every q
  | .print value => p (.print value) && value.every q
  | .function f body => p (.function f body) && Stmt.everyAll body
  | .classDef name bases body =>
    p (.classDef name bases body) && Expr.everyAll q bases && Stmt.everyAll body
  | .assign a => p (.assign a) && a.value.every q
  | .call callee args => p (.call callee args) && callee.every q && Expr.everyAll q args
  | .ret none => p (.ret none)
  | .ret (some value) => p (.ret (some value)) && value.every q
  | .cond test body orelse =>
    p (.cond test body orelse) && test.every q && Stmt.everyAll body && Stmt.everyAll orelse
  | .unknown description => p (.unknown description)

def Stmt.everyAll : List Stmt → Bool
  | [] => true
  | s :: ss => Stmt.every s && Stmt.everyAll ss

end

def Program.every (program : Program) : Bool :=
  Stmt.everyAll q p program.body

end

/-- A constant that has the type of its literal; all else passes. -/
def Expr.ownTyped : Expr → Bool
  | .const value type => type = value.baseType
  | _ => true

theorem Expr.everyAll_iff (q : Expr → Bool) (es : List Expr) :
    Expr.everyAll q es = true ↔ ∀ e ∈ es, e.every q = true := by
  induction es with
  | nil => simp [Expr.everyAll]
  | cons e es ih => simp [Expr.everyAll, ih]

theorem Stmt.everyAll_iff (q : Expr → Bool) (p : Stmt → Bool) (ss : List Stmt) :
    Stmt.everyAll q p ss = true ↔ ∀ s ∈ ss, s.every q p = true := by
  induction ss with
  | nil => simp [Stmt.everyAll]
  | cons s ss ih => simp [Stmt.everyAll, ih]

theorem Expr.every_self {q : Expr → Bool} {e : Expr} (h : e.every q = true) : q e = true := by
  cases e <;> simp_all [Expr.every]

theorem Stmt.every_self {q : Expr → Bool} {p : Stmt → Bool} {s : Stmt} (h : s.every q p = true) :
    p s = true := by
  cases s with
  | ret value => cases value <;> simp_all [Stmt.every]
  | _ => simp_all [Stmt.every]

mutual

/-- A condition may also rest on what is asked of all that is inside. -/
theorem Expr.every_mono {q q' : Expr → Bool} (le : ∀ e, e.every q = true → q' e = true) (e : Expr)
    (h : e.every q = true) : e.every q' = true :=
  match e with
  | .call callee args => by
    have own := le _ h
    simp only [Expr.every, Bool.and_eq_true] at h ⊢
    exact ⟨⟨own, Expr.every_mono le callee h.1.2⟩, Expr.everyAll_mono le args h.2⟩
  | .member object property => by
    have own := le _ h
    simp only [Expr.every, Bool.and_eq_true] at h ⊢
    exact ⟨own, Expr.every_mono le object h.2⟩
  | .binary left op right | .compare left op right => by
    have own := le _ h
    simp only [Expr.every, Bool.and_eq_true] at h ⊢
    exact ⟨⟨own, Expr.every_mono le left h.1.2⟩, Expr.every_mono le right h.2⟩
  | .list elements element homogeneous | .tuple elements types => by
    have own := le _ h
    simp only [Expr.every, Bool.and_eq_true] at h ⊢
    exact ⟨own, Expr.everyAll_mono le elements h.2⟩
  | .name _ | .const _ _ | .unknown _ => le _ h

theorem Expr.everyAll_mono {q q' : Expr → Bool} (le : ∀ e, e.every q = true → q' e = true)
    (es : List Expr) (h : Expr.everyAll q es = true) : Expr.everyAll q' es = true :=
  match es with
  | [] => rfl
  | e :: es => by
    simp only [Expr.everyAll, Bool.and_eq_true] at h ⊢
    exact ⟨Expr.every_mono le e h.1, Expr.everyAll_mono le es h.2⟩

end

mutual

theorem Stmt.every_mono {q q' : Expr → Bool} {p p' : Stmt → Bool}
    (le : ∀ e, e.every q = true → q' e = true) (le' : ∀ s, s.every q p = true → p' s = true)
    (s : Stmt) (h : s.every q p = true) : s.every q' p' = true :=
  match s with
  | .expr value | .print value | .ret (some value) => by
    have own := le' _ h
    simp only [Stmt.every, Bool.and_eq_true] at h ⊢
    exact ⟨own, Expr.every_mono le value h.2⟩
  | .function f body => by
    have own := le' _ h
    simp only [Stmt.every, Bool.and_eq_true] at h ⊢
    exact ⟨own, Stmt.everyAll_mono le le' body h.2⟩
  | .classDef name bases body => by
    have own := le' _ h
    simp only [Stmt.every, Bool.and_eq_true] at h ⊢
    exact ⟨⟨own, Expr.everyAll_mono le bases h.1.2⟩, Stmt.everyAll_mono le le' body h.2⟩
  | .assign a => by
    have own := le' _ h
    simp only [Stmt.every, Bool.and_eq_true] at h ⊢
    exact ⟨own, Expr.every_mono le a.value h.2⟩
  | .call callee args => by
    have own := le' _ h
    simp only [Stmt.every, Bool.and_eq_true] at h ⊢
    exact ⟨⟨own, Expr.every_mono le callee h.1.2⟩, Expr.everyAll_mono le args h.2⟩
  | .cond test body orelse => by
    have own := le' _ h
    simp only [Stmt.every, Bool.and_eq_true] at h ⊢
    exact ⟨⟨⟨own, Expr.every_mono le test h.1.1.2⟩, Stmt.everyAll_mono le le' body h.1.2⟩,
      Stmt.everyAll_mono le le' orelse h.2⟩
  | .ret none | .unknown _ => le' _ h

theorem Stmt.everyAll_mono {q q' : Expr → Bool} {p p' : Stmt → Bool}
    (le : ∀ e, e.every q = true → q' e = true) (le' : ∀ s, s.every q p = true → p' s = true)
    (ss : List Stmt) (h : Stmt.everyAll q p ss = true) : Stmt.everyAll q' p' ss = true :=
  match ss with
  | [] => rfl
  | s :: ss => by
    simp only [Stmt.everyAll, Bool.and_eq_true] at h ⊢
    exact ⟨Stmt.every_mono le le' s h.1, Stmt.everyAll_mono le le' ss h.2⟩

end

section

variable {q : Expr → Bool} {p : Stmt → Bool} {P : Assign → Prop}

theorem Firsts.note_forall {st : Firsts} (h : ∀ e ∈ st.found, P e.1) (block : Option (List Stmt))
    {a : Assign} (own : P a) : ∀ e ∈ (st.note block a).found, P e.1 := by
  unfold note
  split
  · exact h
  · cases block with
    | none => exact h
    | some block => exact List.forall_mem_append.2 ⟨h, List.forall_mem_singleton.2 own⟩

mutual

theorem Firsts.visit_forall (asked : ∀ a, p (.assign a) = true → P a) (block : Option (List Stmt))
    (s : Stmt) (every : s.every q p = true) (st : Firsts) (h : ∀ e ∈ st.found, P e.1) :
    ∀ e ∈ (Firsts.visit block s st).found, P e.1 :=
  match s with
  | .assign a => by
    simp only [Stmt.every, Bool.and_eq_true] at every
    exact Firsts.note_forall h block (asked a every.1)
  | .cond test body orelse => by
    simp only [Stmt.every, Bool.and_eq_true] at every
    exact Firsts.through_forall asked _ orelse every.2 _
      (Firsts.through_forall asked _ body every.1.2 st h)
  | .expr _ | .print _ | .function _ _ | .classDef _ _ _ | .call _ _ | .ret _ | .unknown _ => h

theorem Firsts.through_forall (asked : ∀ a, p (.assign a) = true → P a)
    (block : Option (List Stmt)) (ss : List Stmt) (every : Stmt.everyAll q p ss = true) (st : Firsts)
    (h : ∀ e ∈ st.found, P e.1) : ∀ e ∈ (Firsts.through block ss st).found, P e.1 :=
  match ss with
  | [] => h
  | s :: ss => by
    simp only [Stmt.everyAll, Bool.and_eq_true] at every
    exact Firsts.through_forall asked block ss every.2 _
      (Firsts.visit_forall asked block s every.1 st h)

end

theorem escaping_forall (asked : ∀ a, p (.assign a) = true → P a) {body : List Stmt}
    (every : Stmt.everyAll q p body = true) : ∀ a ∈ escaping body, P a := by
  have found := Firsts.through_forall asked none body every {} (by simp)
  simp only [escaping, List.mem_map, List.mem_filter]
  rintro a ⟨e, ⟨mem, _⟩, rfl⟩
  exact found e mem

end

end Interlingua

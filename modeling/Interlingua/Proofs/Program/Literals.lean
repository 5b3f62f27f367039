import Interlingua.Program.Agreement
import Mathlib.Data.List.Forall2

/-!
# Programs and their literals

A program is made of what it is without its literals and of the literals in the order of the text.
Two programs agree when the first is the same for both and the literals, taken in order, are related:
whatever is asked of an agreement is then a question about pairs of literals.
-/

namespace Interlingua

mutual

def Expr.literals : Expr → List Literal
  | .call callee args => Expr.literals callee ++ Expr.literalsAll args
  | .name _ => []
  | .const value _ => [value]
  | .member object _ => Expr.literals object
  | .binary left _ right => Expr.literals left ++ Expr.literals right
  | .compare left _ right => Expr.literals left ++ Expr.literals right
  | .list elements _ _ => Expr.literalsAll elements
  | .tuple elements _ => Expr.literalsAll elements
  | .unknown _ => []

def Expr.literalsAll : List Expr → List Literal
  | [] => []
  | e :: es => Expr.literals e ++ Expr.literalsAll es

end

mutual

def Stmt.literals : Stmt → List Literal
  | .expr value => value.literals
  | .print value => value.literals
  | .function _ body => Stmt.literalsAll body
  | .classDef _ bases body => Expr.literalsAll bases ++ Stmt.literalsAll body
  | .assign a => a.value.literals
  | .call callee args => callee.literals ++ Expr.literalsAll args
  | .ret none => []
  | .ret (some value) => value.literals
  | .cond test body orelse => test.literals ++ Stmt.literalsAll body ++ Stmt.literalsAll orelse
  | .unknown _ => []

def Stmt.literalsAll : List Stmt → List Literal
  | [] => []
  | s :: ss => Stmt.literals s ++ Stmt.literalsAll ss

end

def Program.literals (p : Program) : List Literal :=
  Stmt.literalsAll p.body

def Fragment.literals : Fragment → List Literal
  | .program p => p.literals
  | .stmt s => s.literals
  | .expr e => e.literals

mutual

/-- The expression with nothing in the places of its literals. -/
def Expr.hollow : Expr → Expr
  | .call callee args => .call (Expr.hollow callee) (Expr.hollowAll args)
  | .name n => .name n
  | .const _ type => .const .null type
  | .member object property => .member (Expr.hollow object) property
  | .binary left op right => .binary (Expr.hollow left) op (Expr.hollow right)
  | .compare left op right => .compare (Expr.hollow left) op (Expr.hollow right)
  | .list elements element homogeneous => .list (Expr.hollowAll elements) element homogeneous
  | .tuple elements types => .tuple (Expr.hollowAll elements) types
  | .unknown description => .unknown description

def Expr.hollowAll : List Expr → List Expr
  | [] => []
  | e :: es => Expr.hollow e :: Expr.hollowAll es

end

mutual

def Stmt.hollow : Stmt → Stmt
  | .expr value => .expr value.hollow
  | .print value => .print value.hollow
  | .function f body => .function f (Stmt.hollowAll body)
  | .classDef name bases body => .classDef name (Expr.hollowAll bases) (Stmt.hollowAll body)
  | .assign a => .assign { a with value := a.value.hollow }
  | .call callee args => .call callee.hollow (Expr.hollowAll args)
  | .ret value => .ret (value.map Expr.hollow)
  | .cond test body orelse => .cond test.hollow (Stmt.hollowAll body) (Stmt.hollowAll orelse)
  | .unknown description => .unknown description

def Stmt.hollowAll : List Stmt → List Stmt
  | [] => []
  | s :: ss => Stmt.hollow s :: Stmt.hollowAll ss

end

def Program.hollow (p : Program) : Program :=
  ⟨Stmt.hollowAll p.body⟩

/-! What is hollow shows how many literals there were. -/

mutual

theorem Expr.length_literals_hollow (e : Expr) : e.hollow.literals.length = e.literals.length :=
  match e with
  | .call callee args => by
    simp [hollow, literals, length_literals_hollow callee, length_literalsAll_hollowAll args]
  | .member object _ => length_literals_hollow object
  | .binary left _ right | .compare left _ right => by
    simp [hollow, literals, length_literals_hollow left, length_literals_hollow right]
  | .list elements _ _ | .tuple elements _ => length_literalsAll_hollowAll elements
  | .name _ | .const _ _ | .unknown _ => rfl

theorem Expr.length_literalsAll_hollowAll (es : List Expr) :
    (literalsAll (hollowAll es)).length = (literalsAll es).length :=
  match es with
  | [] => rfl
  | e :: es => by
    simp [hollowAll, literalsAll, length_literals_hollow e, length_literalsAll_hollowAll es]

end

mutual

theorem Stmt.length_literals_hollow (s : Stmt) : s.hollow.literals.length = s.literals.length :=
  match s with
  | .expr value | .print value | .ret (some value) => value.length_literals_hollow
  | .assign a => a.value.length_literals_hollow
  | .function _ body => length_literalsAll_hollowAll body
  | .classDef _ bases body => by
    simp [hollow, literals, Expr.length_literalsAll_hollowAll bases, length_literalsAll_hollowAll body]
  | .call callee args => by
    simp [hollow, literals, callee.length_literals_hollow, Expr.length_literalsAll_hollowAll args]
  | .cond test body orelse => by
    simp [hollow, literals, test.length_literals_hollow, length_literalsAll_hollowAll body,
      length_literalsAll_hollowAll orelse]
  | .ret none | .unknown _ => rfl

theorem Stmt.length_literalsAll_hollowAll (ss : List Stmt) :
    (literalsAll (hollowAll ss)).length = (literalsAll ss).length :=
  match ss with
  | [] => rfl
  | s :: ss => by
    simp [hollowAll, literalsAll, length_literals_hollow s, length_literalsAll_hollowAll ss]

end

/-! Agreement. -/

section

variable {R : Literal → Literal → Prop} {as as' bs bs' : List Literal}

theorem Literal.forall₂_append_iff (length : as.length = as'.length) :
    List.Forall₂ R (as ++ bs) (as' ++ bs') ↔ List.Forall₂ R as as' ∧ List.Forall₂ R bs bs' := by
  induction as generalizing as' with
  | nil =>
    obtain rfl : as' = [] := List.length_eq_zero_iff.1 length.symm
    simp
  | cons a as ih =>
    cases as' with
    | nil => cases length
    | cons a' as' => simp [ih (Nat.succ.inj length), and_assoc]

/-- Two parts with equal hollow forms and related literals are so together. -/
theorem Literal.forall₂_parts_iff {P Q : Prop} (length : P → as.length = as'.length) :
    (P ∧ List.Forall₂ R as as') ∧ (Q ∧ List.Forall₂ R bs bs') ↔
      (P ∧ Q) ∧ List.Forall₂ R (as ++ bs) (as' ++ bs') := by
  constructor
  · rintro ⟨⟨left, first⟩, right, second⟩
    exact ⟨⟨left, right⟩, (forall₂_append_iff (length left)).2 ⟨first, second⟩⟩
  · rintro ⟨⟨left, right⟩, both⟩
    obtain ⟨first, second⟩ := (forall₂_append_iff (length left)).1 both
    exact ⟨⟨left, first⟩, right, second⟩

end

section

variable {related : Literal → Literal → Bool}

theorem Expr.length_literals_of_hollow_eq {e e' : Expr} (h : e.hollow = e'.hollow) :
    e.literals.length = e'.literals.length := by
  rw [← e.length_literals_hollow, h, e'.length_literals_hollow]

theorem Expr.length_literalsAll_of_hollowAll_eq {es es' : List Expr} (h : hollowAll es = hollowAll es') :
    (literalsAll es).length = (literalsAll es').length := by
  rw [← length_literalsAll_hollowAll es, h, length_literalsAll_hollowAll es']

theorem Stmt.length_literals_of_hollow_eq {s s' : Stmt} (h : s.hollow = s'.hollow) :
    s.literals.length = s'.literals.length := by
  rw [← s.length_literals_hollow, h, s'.length_literals_hollow]

theorem Stmt.length_literalsAll_of_hollowAll_eq {ss ss' : List Stmt} (h : hollowAll ss = hollowAll ss') :
    (literalsAll ss).length = (literalsAll ss').length := by
  rw [← length_literalsAll_hollowAll ss, h, length_literalsAll_hollowAll ss']

mutual

theorem Expr.agree_iff (e e' : Expr) :
    e.agree related e' = true ↔
      e.hollow = e'.hollow ∧ List.Forall₂ (fun a b => related a b) e.literals e'.literals :=
  match e with
  | .call callee args => by
    cases e' with
    | call callee' args' =>
      rw [agree, Bool.and_eq_true, agree_iff callee callee', agreeAll_iff args args',
        Literal.forall₂_parts_iff length_literals_of_hollow_eq]
      simp [hollow, literals]
    | _ => simp [agree, hollow]
  | .member object property => by
    cases e' with
    | member object' property' =>
      rw [agree, Bool.and_eq_true, agree_iff object object', decide_eq_true_eq]
      simp [hollow, literals, and_assoc, and_left_comm]
    | _ => simp [agree, hollow]
  | .binary left op right => by
    cases e' with
    | binary left' op' right' =>
      rw [agree, Bool.and_assoc, Bool.and_eq_true, Bool.and_eq_true, agree_iff left left',
        agree_iff right right', Literal.forall₂_parts_iff length_literals_of_hollow_eq,
        decide_eq_true_eq]
      simp [hollow, literals, and_assoc, and_left_comm]
    | _ => simp [agree, hollow]
  | .compare left op right => by
    cases e' with
    | compare left' op' right' =>
      rw [agree, Bool.and_assoc, Bool.and_eq_true, Bool.and_eq_true, agree_iff left left',
        agree_iff right right', Literal.forall₂_parts_iff length_literals_of_hollow_eq,
        decide_eq_true_eq]
      simp [hollow, literals, and_assoc, and_left_comm]
    | _ => simp [agree, hollow]
  | .list elements element homogeneous => by
    cases e' with
    | list elements' element' homogeneous' =>
      rw [agree, Bool.and_eq_true, agreeAll_iff elements elements']
      simp [hollow, literals, and_assoc, and_comm]
    | _ => simp [agree, hollow]
  | .tuple elements types => by
    cases e' with
    | tuple elements' types' =>
      rw [agree, Bool.and_eq_true, agreeAll_iff elements elements']
      simp [hollow, literals, and_assoc, and_comm]
    | _ => simp [agree, hollow]
  | .name _ | .const _ _ | .unknown _ => by cases e' <;> simp [agree, hollow, literals]

theorem Expr.agreeAll_iff (es es' : List Expr) :
    agreeAll related es es' = true ↔ hollowAll es = hollowAll es' ∧
      List.Forall₂ (fun a b => related a b) (literalsAll es) (literalsAll es') :=
  match es with
  | [] => by cases es' <;> simp [agreeAll, hollowAll, literalsAll]
  | e :: es => by
    cases es' with
    | nil => simp [agreeAll, hollowAll]
    | cons e' es' =>
      rw [agreeAll, Bool.and_eq_true, agree_iff e e', agreeAll_iff es es',
        Literal.forall₂_parts_iff length_literals_of_hollow_eq]
      simp [hollowAll, literalsAll]

end

mutual

theorem Stmt.agree_iff (s s' : Stmt) :
    s.agree related s' = true ↔
      s.hollow = s'.hollow ∧ List.Forall₂ (fun a b => related a b) s.literals s'.literals :=
  match s with
  | .expr value | .print value => by
    cases s' with
    | expr value' | print value' => simp [agree, hollow, literals, value.agree_iff value']
    | _ => simp [agree, hollow]
  | .function f body => by
    cases s' with
    | function f' body' =>
      rw [agree, Bool.and_eq_true, agreeAll_iff body body', decide_eq_true_eq]
      simp [hollow, literals, and_assoc]
    | _ => simp [agree, hollow]
  | .classDef name bases body => by
    cases s' with
    | classDef name' bases' body' =>
      rw [agree, Bool.and_assoc, Bool.and_eq_true, Bool.and_eq_true, Expr.agreeAll_iff bases bases',
        agreeAll_iff body body',
        Literal.forall₂_parts_iff Expr.length_literalsAll_of_hollowAll_eq, decide_eq_true_eq]
      simp [hollow, literals, and_assoc]
    | _ => simp [agree, hollow]
  | .assign a => by
    cases s' with
    | assign a' =>
      rw [agree, Assign.agree, Bool.and_eq_true, a.value.agree_iff a'.value]
      simp [hollow, literals, and_assoc, and_left_comm]
    | _ => simp [agree, hollow]
  | .call callee args => by
    cases s' with
    | call callee' args' =>
      rw [agree, Bool.and_eq_true, callee.agree_iff callee', Expr.agreeAll_iff args args',
        Literal.forall₂_parts_iff Expr.length_literals_of_hollow_eq]
      simp [hollow, literals]
    | _ => simp [agree, hollow]
  | .ret none => by
    cases s' with
    | ret value' => cases value' <;> simp [agree, hollow, literals]
    | _ => simp [agree, hollow]
  | .ret (some value) => by
    cases s' with
    | ret value' =>
      cases value' with
      | none => simp [agree, hollow]
      | some value' => simp [agree, hollow, literals, value.agree_iff value']
    | _ => simp [agree, hollow]
  | .cond test body orelse => by
    cases s' with
    | cond test' body' orelse' =>
      have front : (test.hollow = test'.hollow ∧ hollowAll body = hollowAll body') →
          (test.literals ++ literalsAll body).length =
            (test'.literals ++ literalsAll body').length := by
        rintro ⟨tests, bodies⟩
        rw [List.length_append, List.length_append, Expr.length_literals_of_hollow_eq tests,
          length_literalsAll_of_hollowAll_eq bodies]
      rw [agree, Bool.and_eq_true, Bool.and_eq_true, test.agree_iff test', agreeAll_iff body body',
        agreeAll_iff orelse orelse', Literal.forall₂_parts_iff Expr.length_literals_of_hollow_eq,
        Literal.forall₂_parts_iff front]
      simp [hollow, literals, and_assoc]
    | _ => simp [agree, hollow]
  | .unknown _ => by
    cases s' with
    | unknown _ => simp [agree, hollow, literals]
    | _ => simp [agree, hollow]

theorem Stmt.agreeAll_iff (ss ss' : List Stmt) :
    agreeAll related ss ss' = true ↔ hollowAll ss = hollowAll ss' ∧
      List.Forall₂ (fun a b => related a b) (literalsAll ss) (literalsAll ss') :=
  match ss with
  | [] => by cases ss' <;> simp [agreeAll, hollowAll, literalsAll]
  | s :: ss => by
    cases ss' with
    | nil => simp [agreeAll, hollowAll]
    | cons s' ss' =>
      rw [agreeAll, Bool.and_eq_true, agree_iff s s', agreeAll_iff ss ss',
        Literal.forall₂_parts_iff length_literals_of_hollow_eq]
      simp [hollowAll, literalsAll]

end

/-- Programs agree if they are the same without their literals, and the literals are related in
order. -/
theorem Program.agree_iff (p q : Program) :
    p.agree related q = true ↔
      p.hollow = q.hollow ∧ List.Forall₂ (fun a b => related a b) p.literals q.literals := by
  rw [agree, Stmt.agreeAll_iff, hollow, hollow, Program.mk.injEq]
  rfl

end

end Interlingua

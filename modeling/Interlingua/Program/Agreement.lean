import Interlingua.Program.Basic

/-!
# Agreement of programs

Two programs agree when they have the same shape and the literals at corresponding places are
related. `same` relates literals of equal value; `alike` also relates a whole number to a double
that is equal to it, since a writer spells both the same way.
-/

namespace Interlingua

namespace Literal

/-- Equality of value: the two zeros among the doubles are equal. -/
def same : Literal → Literal → Bool
  | float x, float y => x.eq y
  | a, b => a = b

def wholeIs (n : Int64) (x : Binary64) : Bool :=
  x.toInt?.isSome && x.eq (Binary64.ofInt n.toInt)

/-- Equality of the numbers that a writer's text can tell apart. -/
def alike : Literal → Literal → Bool
  | int n, float x => wholeIs n x
  | float x, int n => wholeIs n x
  | a, b => same a b

end Literal

section

variable (related : Literal → Literal → Bool)

mutual

def Expr.agree : Expr → Expr → Bool
  | .call callee args, .call callee' args' =>
    Expr.agree callee callee' && Expr.agreeAll args args'
  | .name n, .name n' => n = n'
  | .const value type, .const value' type' => type = type' && related value value'
  | .member object property, .member object' property' =>
    property = property' && Expr.agree object object'
  | .binary left op right, .binary left' op' right' =>
    op = op' && Expr.agree left left' && Expr.agree right right'
  | .compare left op right, .compare left' op' right' =>
    op = op' && Expr.agree left left' && Expr.agree right right'
  | .list elements type homogeneous, .list elements' type' homogeneous' =>
    type = type' && homogeneous = homogeneous' && Expr.agreeAll elements elements'
  | .tuple elements types, .tuple elements' types' =>
    types = types' && Expr.agreeAll elements elements'
  | .unknown description, .unknown description' => description = description'
  | _, _ => false

def Expr.agreeAll : List Expr → List Expr → Bool
  | [], [] => true
  | e :: es, e' :: es' => Expr.agree e e' && Expr.agreeAll es es'
  | _, _ => false

end

def Assign.agree (a b : Assign) : Bool :=
  a.target = b.target && a.type = b.type && a.value.agree related b.value

mutual

def Stmt.agree : Stmt → Stmt → Bool
  | .expr value, .expr value' => value.agree related value'
  | .print value, .print value' => value.agree related value'
  | .function signature body, .function signature' body' =>
    signature = signature' && Stmt.agreeAll body body'
  | .classDef name bases body, .classDef name' bases' body' =>
    name = name' && Expr.agreeAll related bases bases' && Stmt.agreeAll body body'
  | .assign a, .assign a' => a.agree related a'
  | .call callee args, .call callee' args' =>
    callee.agree related callee' && Expr.agreeAll related args args'
  | .ret none, .ret none => true
  | .ret (some value), .ret (some value') => value.agree related value'
  | .cond test body orelse, .cond test' body' orelse' =>
    test.agree related test' && Stmt.agreeAll body body' && Stmt.agreeAll orelse orelse'
  | .unknown description, .unknown description' => description = description'
  | _, _ => false

def Stmt.agreeAll : List Stmt → List Stmt → Bool
  | [], [] => true
  | s :: ss, s' :: ss' => Stmt.agree s s' && Stmt.agreeAll ss ss'
  | _, _ => false

end

def Program.agree (p q : Program) : Bool :=
  Stmt.agreeAll related p.body q.body

/-- Agreement of two parts of programs of one kind, nothing for parts of different kinds. -/
def Fragment.agree? : Fragment → Fragment → Option Bool
  | .program p, .program q => some (p.agree related q)
  | .stmt s, .stmt t => some (s.agree related t)
  | .expr e, .expr f => some (e.agree related f)
  | _, _ => none

end

def Program.same : Program → Program → Bool :=
  Program.agree Literal.same

def Program.alike : Program → Program → Bool :=
  Program.agree Literal.alike

end Interlingua

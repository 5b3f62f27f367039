import Interlingua.Proofs.Number.Value
import Interlingua.Proofs.Program.Literals

/-!
# Programs that are alike

Being alike is symmetric, it holds of a program and itself where every double is a number, and it
holds wherever two programs are the same. Where moreover the whole numbers have at most fifty-three
bits, two programs are alike exactly if they are the same without their literals, and the literals at
corresponding places have the same meaning: the same number, or the same literal of another kind. A
greater whole number may be nearest to the same double as another one.
-/

namespace Interlingua

namespace Literal

/-- What a literal stands for, however it is written. -/
inductive Meaning where
  | number (value : Binary64.Quantity)
  | other (value : Literal)

def meaning : Literal → Meaning
  | int n => .number (.finite n.toInt)
  | float x => if x.isNumber then .number x.quantity else .other (float x)
  | value => .other value

/-- Whether a literal stands for a value. -/
def hasValue : Literal → Bool
  | float x => x.isNumber
  | _ => true

/-- Whether a literal stands for a value, and one that a double can have if it is a whole number. -/
def isExact : Literal → Bool
  | int n => n.toInt.natAbs ≤ Nat.pow 2 53
  | value => value.hasValue

theorem alike_self (a : Literal) : alike a a = a.hasValue := by
  cases a <;> simp [alike, same, hasValue, Binary64.eq]

theorem alike_comm (a b : Literal) : alike a b = alike b a := by
  have doubles (x y : Binary64) : x.eq y = y.eq x := by
    simp only [Binary64.eq, Bool.and_comm, Bool.beq_comm]
  cases a <;> cases b <;> simp [alike, same, doubles, eq_comm]

theorem alike_of_same {a b : Literal} (h : same a b = true) : alike a b = true := by
  cases a <;> cases b <;> simp_all [alike, same]

theorem wholeIs_iff {n : Int64} {x : Binary64} (exact : n.toInt.natAbs ≤ Nat.pow 2 53)
    (number : x.isNumber = true) : wholeIs n x = true ↔ x.quantity = .finite n.toInt := by
  have denoted := Binary64.quantity_ofInt exact
  have equal := Binary64.eq_iff_quantity number (Binary64.isNumber_of_quantity denoted)
  rw [wholeIs, Bool.and_eq_true, equal, denoted, and_iff_right_iff_imp]
  exact Binary64.isSome_toInt?_of_quantity

theorem alike_iff_meaning {a b : Literal} (ha : a.isExact = true) (hb : b.isExact = true) :
    alike a b = true ↔ a.meaning = b.meaning := by
  cases a with
  | int n =>
    have small : n.toInt.natAbs ≤ Nat.pow 2 53 := by simpa [isExact] using ha
    cases b with
    | int m => simp [alike, same, meaning, Int64.toInt_inj]
    | float x =>
      have number : x.isNumber = true := hb
      simp [alike, meaning, number, wholeIs_iff small number, eq_comm]
    | _ => simp [alike, same, meaning]
  | float x =>
    have number : x.isNumber = true := ha
    cases b with
    | int m =>
      have small : m.toInt.natAbs ≤ Nat.pow 2 53 := by simpa [isExact] using hb
      simp [alike, meaning, number, wholeIs_iff small number]
    | float y =>
      have number' : y.isNumber = true := hb
      simp [alike, same, meaning, number, number', Binary64.eq_iff_quantity number number']
    | _ => simp [alike, same, meaning, number]
  | _ =>
    cases b with
    | float y =>
      have number' : y.isNumber = true := hb
      simp [alike, same, meaning, number']
    | _ => simp [alike, same, meaning]

theorem forall₂_alike_iff {as bs : List Literal} (ha : ∀ a ∈ as, a.isExact = true)
    (hb : ∀ b ∈ bs, b.isExact = true) :
    List.Forall₂ (fun a b => alike a b) as bs ↔ as.map meaning = bs.map meaning := by
  induction as generalizing bs with
  | nil => cases bs <;> simp
  | cons a as ih =>
    cases bs with
    | nil => simp
    | cons b bs =>
      obtain ⟨first, others⟩ := List.forall_mem_cons.1 ha
      obtain ⟨first', others'⟩ := List.forall_mem_cons.1 hb
      rw [List.forall₂_cons, alike_iff_meaning first first', ih others others', List.map_cons,
        List.map_cons, List.cons.injEq]

end Literal

namespace Program

/-- Whether every double of a program is a number. -/
def hasValues (p : Program) : Bool :=
  p.literals.all Literal.hasValue

/-- Whether every double is a number, and no whole number is beyond those that all are doubles. -/
def isExact (p : Program) : Bool :=
  p.literals.all Literal.isExact

theorem alike_self_iff (p : Program) : p.alike p = true ↔ p.hasValues = true := by
  rw [alike, agree_iff, List.forall₂_same, hasValues, List.all_eq_true]
  simp [Literal.alike_self]

theorem alike_symm {p q : Program} (h : p.alike q = true) : q.alike p = true := by
  obtain ⟨hollow, literals⟩ := (agree_iff p q).1 h
  have turned := literals.imp fun a b related => (Literal.alike_comm b a).trans related
  exact (agree_iff q p).2 ⟨hollow.symm, turned.flip⟩

theorem alike_of_same {p q : Program} (h : p.same q = true) : p.alike q = true := by
  obtain ⟨hollow, literals⟩ := (agree_iff p q).1 h
  exact (agree_iff p q).2 ⟨hollow, literals.imp fun _ _ => Literal.alike_of_same⟩

theorem alike_iff_meaning {p q : Program} (hp : p.isExact = true) (hq : q.isExact = true) :
    p.alike q = true ↔ p.hollow = q.hollow ∧
      p.literals.map Literal.meaning = q.literals.map Literal.meaning := by
  rw [alike, agree_iff, Literal.forall₂_alike_iff (List.all_eq_true.1 hp) (List.all_eq_true.1 hq)]

/-- Being alike is an equivalence where it is exact, and there it says that programs of one form have
literals of the same meaning. -/
theorem equivalence_alike :
    (∀ p : Program, p.alike p = true ↔ p.hasValues = true) ∧
    (∀ p q : Program, p.alike q = q.alike p) ∧
    (∀ p q : Program, p.same q = true → p.alike q = true) ∧
    (∀ p q r : Program, p.isExact = true → q.isExact = true → r.isExact = true →
      p.alike q = true → q.alike r = true → p.alike r = true) ∧
    ∀ p q : Program, p.isExact = true → q.isExact = true →
      (p.alike q = true ↔ p.hollow = q.hollow ∧
        p.literals.map Literal.meaning = q.literals.map Literal.meaning) := by
  refine ⟨alike_self_iff, fun p q => ?_, fun _ _ => alike_of_same, fun p q r hp hq hr first second => ?_,
    fun _ _ => alike_iff_meaning⟩
  · exact Bool.eq_iff_iff.2 ⟨alike_symm, alike_symm⟩
  · obtain ⟨hollow, literals⟩ := (alike_iff_meaning hp hq).1 first
    obtain ⟨hollow', literals'⟩ := (alike_iff_meaning hq hr).1 second
    exact (alike_iff_meaning hp hr).2 ⟨hollow.trans hollow', literals.trans literals'⟩

/-- The two zeros among the doubles, by way of the whole number. -/
theorem equivalence_alike_zeros :
    let zero : Program := ⟨[.print (.lit (.float ⟨0⟩))]⟩
    let whole : Program := ⟨[.print (.lit (.int 0))]⟩
    let minus : Program := ⟨[.print (.lit (.float ⟨0x8000000000000000⟩))]⟩
    zero.isExact = true ∧ whole.isExact = true ∧ minus.isExact = true ∧
    zero.alike minus = true ∧
    zero.literals.map Literal.meaning = minus.literals.map Literal.meaning := by
  intro zero whole minus
  have exact : zero.isExact = true ∧ whole.isExact = true ∧ minus.isExact = true := by decide
  obtain ⟨-, -, -, trans, meaning⟩ := equivalence_alike
  have same := trans zero whole minus exact.1 exact.2.1 exact.2.2 (by decide +kernel) (by decide +kernel)
  exact ⟨exact.1, exact.2.1, exact.2.2, same, ((meaning zero minus exact.1 exact.2.2).1 same).2⟩

/-- Beyond the exact numbers a double can be alike to two whole numbers. -/
example :
    let double : Program := ⟨[.print (.lit (.float (.ofInt 9007199254740993)))]⟩
    let print (n : Int64) : Program := ⟨[.print (.lit (.int n))]⟩
    (print 9007199254740992).alike double = true ∧ double.alike (print 9007199254740993) = true ∧
      (print 9007199254740992).alike (print 9007199254740993) = false := by
  decide +kernel

end Program

end Interlingua

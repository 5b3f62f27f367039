import Interlingua.Program.Basic

/-!
# The grammar of expressions

Expressions as sequences of lexemes, by the usual rules of precedence. Disjunctions, conjunctions,
comparisons, sums and products bind ever tighter; operators group to the left and comparisons do not
chain. A minus in front of a number belongs to the number and binds tighter than every operator. What
follows an operand, a dot with a property or arguments in parentheses, binds tightest.

The grammar is unambiguous: `parse` reads from left to right and settles an operator as soon as one
that binds no tighter follows it, and it finds the result of every derivation.
-/

namespace Interlingua

inductive Lexeme where
  | word (id : String)
  | number (value : Nat)
  | text (value : String)
  | truth (value : Bool)
  | null
  | operator (op : BinaryOp)
  | comparison (op : CompareOp)
  | dot
  | comma
  | opening
  | closing
  deriving DecidableEq

/-- The places of the grammar, the loosest first. -/
inductive Tier where
  | disjunction
  | conjunction
  | comparison
  | sum
  | product
  | sign
  | suffix
  | atom
  deriving DecidableEq

namespace Tier

def rank : Tier → Nat
  | disjunction => 1
  | conjunction => 2
  | comparison => 3
  | sum => 4
  | product => 5
  | sign => 6
  | suffix => 7
  | atom => 8

/-- The place that binds just tighter. -/
def next : Tier → Tier
  | disjunction => conjunction
  | conjunction => comparison
  | comparison => sum
  | sum => product
  | product => sign
  | sign => suffix
  | suffix => atom
  | atom => atom

end Tier

def BinaryOp.tier : BinaryOp → Tier
  | or => .disjunction
  | and => .conjunction
  | add | sub => .sum
  | mul | div | mod => .product

mutual

/-- The lexemes of an expression that stands in a place. -/
inductive Derives : Tier → List Lexeme → Expr → Prop
  | tighter {t u : Tier} {ts : List Lexeme} {e : Expr} (le : t.rank ≤ u.rank) :
      Derives u ts e → Derives t ts e
  | binary (op : BinaryOp) {ts us : List Lexeme} {left right : Expr} :
      Derives op.tier ts left → Derives op.tier.next us right →
      Derives op.tier (ts ++ .operator op :: us) (.binary left op right)
  | compare (op : CompareOp) {ts us : List Lexeme} {left right : Expr} :
      Derives .sum ts left → Derives .sum us right →
      Derives .comparison (ts ++ .comparison op :: us) (.compare left op right)
  | minus {size : Nat} {n : Int64} (value : n.toInt = -size) :
      Derives .sign [.operator .sub, .number size] (.lit (.int n))
  | member (property : String) {ts : List Lexeme} {object : Expr} :
      Derives .suffix ts object →
      Derives .suffix (ts ++ [.dot, .word property]) (.member object property)
  | call {ts us : List Lexeme} {callee : Expr} {args : List Expr} :
      Derives .suffix ts callee → DerivesAll us args →
      Derives .suffix (ts ++ .opening :: us ++ [.closing]) (.call callee args)
  | word (id : String) : Derives .atom [.word id] (.load id)
  | number {size : Nat} {n : Int64} (value : n.toInt = size) :
      Derives .atom [.number size] (.lit (.int n))
  | text (value : String) : Derives .atom [.text value] (.lit (.str value))
  | truth (value : Bool) : Derives .atom [.truth value] (.lit (.bool value))
  | null : Derives .atom [.null] (.lit .null)
  | paren {ts : List Lexeme} {e : Expr} :
      Derives .disjunction ts e → Derives .atom (.opening :: ts ++ [.closing]) e

/-- The lexemes of arguments with commas between them. -/
inductive DerivesAll : List Lexeme → List Expr → Prop
  | nil : DerivesAll [] []
  | one {ts : List Lexeme} {e : Expr} : Derives .disjunction ts e → DerivesAll ts [e]
  | more {ts us : List Lexeme} {e next : Expr} {rest : List Expr} :
      Derives .disjunction ts e → DerivesAll us (next :: rest) →
      DerivesAll (ts ++ .comma :: us) (e :: next :: rest)

end

/-- What waits for the operand that is read next. -/
inductive Pending where
  | binary (left : Expr) (op : BinaryOp)
  | compare (left : Expr) (op : CompareOp)
  | paren
  | args (callee : Expr) (before : List Expr)

namespace Pending

/-- How tight an operator binds, nothing for what only a closing parenthesis can end. -/
def rank : Pending → Nat
  | binary _ op => op.tier.rank
  | compare _ _ => Tier.comparison.rank
  | paren | args _ _ => 0

/-- The operation with its right operand. -/
def close : Pending → Expr → Expr
  | binary left op, right => .binary left op right
  | compare left op, right => .compare left op right
  | paren, e | args _ _, e => e

/-- Give the operand to all operators that bind at least as tight as a place. -/
def settle (t : Tier) : List Pending → Expr → List Pending × Expr
  | [], e => ([], e)
  | p :: ps, e => if t.rank ≤ p.rank then settle t ps (p.close e) else (p :: ps, e)

/-- Whether what waits binds looser than a place, so that an operand there is none of its own. -/
def Below (t : Tier) (ps : List Pending) : Prop :=
  ∀ p ∈ ps.head?, p.rank < t.rank

theorem Below.mono {t u : Tier} {ps : List Pending} (h : Below t ps) (le : t.rank ≤ u.rank) :
    Below u ps := by
  intro p mem
  have below := h p mem
  omega

theorem settle_of_below {t : Tier} {ps : List Pending} (h : Below t ps) (e : Expr) :
    settle t ps e = (ps, e) := by
  cases ps with
  | nil => rfl
  | cons p ps =>
    have below := h p rfl
    rw [settle, if_neg (by omega)]

theorem settle_cons_self {t : Tier} {p : Pending} (le : t.rank ≤ p.rank) {ps : List Pending}
    (h : Below t ps) (e : Expr) : settle t (p :: ps) e = (ps, p.close e) := by
  rw [settle, if_pos le, settle_of_below h]

theorem rank_lt_sign (p : Pending) : p.rank < Tier.sign.rank := by
  cases p with
  | binary left op => cases op <;> simp [rank, BinaryOp.tier, Tier.rank]
  | _ => simp [rank, Tier.rank]

/-- What only a closing parenthesis can end takes no operand before. -/
theorem below_of_rank_eq_zero {p : Pending} (unbound : p.rank = 0) (ps : List Pending) :
    Below .disjunction (p :: ps) := by
  rintro _ ⟨⟩
  exact unbound ▸ Nat.zero_lt_one

/-- What binds tighter is settled on the way. -/
theorem settle_settle {t u : Tier} (le : t.rank ≤ u.rank) (ps : List Pending) (e : Expr) :
    settle t (settle u ps e).1 (settle u ps e).2 = settle t ps e := by
  induction ps generalizing e with
  | nil => rfl
  | cons p ps ih =>
    by_cases tight : u.rank ≤ p.rank
    · have all : t.rank ≤ p.rank := by omega
      rw [settle, if_pos tight, ih, settle, if_pos all]
    · rw [settle, if_neg tight]

end Pending

/-- A sequence of lexemes that has been read in part. -/
inductive Parse where
  /-- An operand is to come. -/
  | want (pending : List Pending)
  /-- A number is to come after its minus. -/
  | minus (pending : List Pending)
  | operand (pending : List Pending) (e : Expr)
  /-- A property is to come after its dot. -/
  | dot (pending : List Pending) (e : Expr)
  | stuck

namespace Parse

open Pending

def wanted (ps : List Pending) : Lexeme → Parse
  | .word id => operand ps (.load id)
  | .number size => operand ps (.lit (.int (.ofInt size)))
  | .text value => operand ps (.lit (.str value))
  | .truth value => operand ps (.lit (.bool value))
  | .null => operand ps (.lit .null)
  | .operator .sub => minus ps
  | .opening => want (.paren :: ps)
  | .closing =>
    match ps with
    | .args callee before :: ps => operand ps (.call callee before)
    | _ => stuck
  | _ => stuck

/-- The next argument is to come. -/
def afterComma : List Pending × Expr → Parse
  | (.args callee before :: ps, e) => want (.args callee (before ++ [e]) :: ps)
  | _ => stuck

def afterClosing : List Pending × Expr → Parse
  | (.paren :: ps, e) => operand ps e
  | (.args callee before :: ps, e) => operand ps (.call callee (before ++ [e]))
  | _ => stuck

def extended (ps : List Pending) (e : Expr) : Lexeme → Parse
  | .dot => dot ps e
  | .opening => want (.args e [] :: ps)
  | .operator op => want (.binary (settle op.tier ps e).2 op :: (settle op.tier ps e).1)
  | .comparison op =>
    want (.compare (settle .comparison ps e).2 op :: (settle .comparison ps e).1)
  | .comma => afterComma (settle .disjunction ps e)
  | .closing => afterClosing (settle .disjunction ps e)
  | _ => stuck

def step : Parse → Lexeme → Parse
  | want ps, t => wanted ps t
  | minus ps, .number size => operand ps (.lit (.int (.ofInt (-size))))
  | operand ps e, t => extended ps e t
  | dot ps e, .word property => operand ps (.member e property)
  | _, _ => stuck

def run (p : Parse) (ts : List Lexeme) : Parse :=
  ts.foldl step p

theorem run_append (p : Parse) (ts us : List Lexeme) : p.run (ts ++ us) = (p.run ts).run us :=
  List.foldl_append

theorem run_cons (p : Parse) (t : Lexeme) (ts : List Lexeme) : p.run (t :: ts) = (p.step t).run ts :=
  rfl

/-- The expression that has been read, if nothing is left open. -/
def result? : Parse → Option Expr
  | operand ps e =>
    match settle .disjunction ps e with
    | ([], e) => some e
    | _ => none
  | _ => none

end Parse

/-- The expression of a sequence of lexemes. -/
def Lexeme.parse (ts : List Lexeme) : Option Expr :=
  ((Parse.want []).run ts).result?

/-- Lexemes that are read, whatever waits for an operand in a place, as an operand for it. -/
def Settles (t : Tier) (ts : List Lexeme) (e : Expr) : Prop :=
  ∀ ps, Pending.Below t ps →
    ∃ qs x, (Parse.want ps).run ts = .operand qs x ∧ Pending.settle t qs x = (ps, e)

/-- Lexemes that are read, after a callee and arguments, as more arguments up to the end. -/
def SettlesAll (ts : List Lexeme) (es : List Expr) : Prop :=
  ∀ callee before ps, (Parse.want (.args callee before :: ps)).run (ts ++ [.closing]) =
    .operand ps (.call callee (before ++ es))

namespace Settles

open Pending Parse

theorem tighter {t u : Tier} {ts : List Lexeme} {e : Expr} (le : t.rank ≤ u.rank)
    (h : Settles u ts e) : Settles t ts e := by
  intro ps below
  obtain ⟨qs, x, read, settled⟩ := h ps (below.mono le)
  refine ⟨qs, x, read, ?_⟩
  rw [← settle_settle le, settled, settle_of_below below]

/-- What stands between two operands in a place: its left operand settles, waits for the right one,
which stands in a tighter place, and is closed by it. -/
theorem between {t u : Tier} {o : Lexeme} (wait : Expr → Pending) (lt : t.rank < u.rank)
    (waits : ∀ left, (wait left).rank = t.rank)
    (opens : ∀ qs x, extended qs x o = .want (wait (settle t qs x).2 :: (settle t qs x).1))
    {ts us : List Lexeme} {left right : Expr} (first : Settles t ts left)
    (second : Settles u us right) : Settles t (ts ++ o :: us) ((wait left).close right) := by
  intro ps below
  obtain ⟨qs, x, read, settled⟩ := first ps below
  have above : Below u (wait left :: ps) := by
    rintro _ ⟨⟩
    exact waits left ▸ lt
  obtain ⟨rs, y, readRight, settledRight⟩ := second _ above
  refine ⟨rs, y, ?_, ?_⟩
  · rw [run_append, read, run_cons, step, opens, settled, readRight]
  · rw [← settle_settle (Nat.le_of_lt lt), settledRight,
      settle_cons_self (Nat.le_of_eq (waits left).symm) below]

theorem binary (op : BinaryOp) {ts us : List Lexeme} {left right : Expr}
    (first : Settles op.tier ts left) (second : Settles op.tier.next us right) :
    Settles op.tier (ts ++ .operator op :: us) (.binary left op right) := by
  have lt : op.tier.rank < op.tier.next.rank := by cases op <;> decide
  exact between (.binary · op) lt (fun _ => rfl) (fun _ _ => rfl) first second

theorem compare (op : CompareOp) {ts us : List Lexeme} {left right : Expr}
    (first : Settles .sum ts left) (second : Settles .sum us right) :
    Settles .comparison (ts ++ .comparison op :: us) (.compare left op right) := by
  have lt : Tier.comparison.rank < Tier.sum.rank := by decide
  exact between (.compare · op) lt (fun _ => rfl) (fun _ _ => rfl) (first.tighter (Nat.le_of_lt lt))
    second

/-- In a place tighter than every operator, an operand is read as it is. -/
theorem tight_iff {t : Tier} (tight : Tier.sign.rank ≤ t.rank) {ts : List Lexeme} {e : Expr} :
    Settles t ts e ↔ ∀ ps, (Parse.want ps).run ts = .operand ps e := by
  have below : ∀ ps, Below t ps := fun ps p _ => Nat.lt_of_lt_of_le p.rank_lt_sign tight
  constructor
  · intro h ps
    obtain ⟨qs, x, read, settled⟩ := h ps (below ps)
    rw [settle_of_below (below qs), Prod.mk.injEq] at settled
    rw [read, settled.1, settled.2]
  · intro h ps _
    exact ⟨ps, e, h ps, settle_of_below (below ps) e⟩

theorem minus {size : Nat} {n : Int64} (value : n.toInt = -size) :
    Settles .sign [.operator .sub, .number size] (.lit (.int n)) := by
  have same : Int64.ofInt (-size) = n := by rw [← value, Int64.ofInt_toInt]
  rw [tight_iff (by decide), ← same]
  exact fun _ => rfl

theorem number {size : Nat} {n : Int64} (value : n.toInt = size) :
    Settles .atom [.number size] (.lit (.int n)) := by
  have same : Int64.ofInt size = n := by rw [← value, Int64.ofInt_toInt]
  rw [tight_iff (by decide), ← same]
  exact fun _ => rfl

theorem member (property : String) {ts : List Lexeme} {object : Expr}
    (h : Settles .suffix ts object) :
    Settles .suffix (ts ++ [.dot, .word property]) (.member object property) := by
  rw [tight_iff (by decide)] at h ⊢
  intro ps
  rw [run_append, h]
  rfl

theorem call {ts us : List Lexeme} {callee : Expr} {args : List Expr}
    (h : Settles .suffix ts callee) (all : SettlesAll us args) :
    Settles .suffix (ts ++ .opening :: us ++ [.closing]) (.call callee args) := by
  rw [tight_iff (by decide)] at h ⊢
  intro ps
  rw [List.append_assoc, run_append, h]
  exact all callee [] ps

theorem paren {ts : List Lexeme} {e : Expr} (h : Settles .disjunction ts e) :
    Settles .atom (.opening :: ts ++ [.closing]) e := by
  rw [tight_iff (by decide)]
  intro ps
  obtain ⟨qs, x, read, settled⟩ := h _ (below_of_rank_eq_zero (p := .paren) rfl ps)
  rw [List.cons_append, run_cons, run_append]
  change ((want (.paren :: ps)).run ts).run [.closing] = _
  rw [read, run_cons, step, extended, settled]
  rfl

end Settles

namespace SettlesAll

open Pending Parse

theorem nil : SettlesAll [] [] := by
  intro callee before ps
  rw [List.append_nil]
  rfl

theorem one {ts : List Lexeme} {e : Expr} (h : Settles .disjunction ts e) : SettlesAll ts [e] := by
  intro callee before ps
  obtain ⟨qs, x, read, settled⟩ := h _ (below_of_rank_eq_zero (p := .args callee before) rfl ps)
  rw [run_append, read, run_cons, step, extended, settled]
  rfl

theorem more {ts us : List Lexeme} {e : Expr} {es : List Expr} (h : Settles .disjunction ts e)
    (all : SettlesAll us es) : SettlesAll (ts ++ .comma :: us) (e :: es) := by
  intro callee before ps
  obtain ⟨qs, x, read, settled⟩ := h _ (below_of_rank_eq_zero (p := .args callee before) rfl ps)
  have rest := all callee (before ++ [e]) ps
  rw [List.append_assoc, List.singleton_append] at rest
  rw [List.append_assoc, run_append, read, List.cons_append, run_cons, step, extended, settled]
  exact rest

end SettlesAll

mutual

theorem Derives.settles {t : Tier} {ts : List Lexeme} {e : Expr} (h : Derives t ts e) :
    Settles t ts e :=
  match h with
  | .tighter le h => (Derives.settles h).tighter le
  | .binary op left right => .binary op (Derives.settles left) (Derives.settles right)
  | .compare op left right => .compare op (Derives.settles left) (Derives.settles right)
  | .minus value => .minus value
  | .member property object => (Derives.settles object).member property
  | .call callee args => (Derives.settles callee).call (DerivesAll.settlesAll args)
  | .number value => .number value
  | .word _ | .text _ | .truth _ | .null => (Settles.tight_iff (by decide)).2 fun _ => rfl
  | .paren h => (Derives.settles h).paren

theorem DerivesAll.settlesAll {ts : List Lexeme} {es : List Expr} (h : DerivesAll ts es) :
    SettlesAll ts es :=
  match h with
  | .nil => .nil
  | .one h => .one (Derives.settles h)
  | .more h all => .more (Derives.settles h) (DerivesAll.settlesAll all)

end

/-- What the grammar derives from lexemes is what they are read as, so there is one result at
most. -/
theorem Derives.parse_eq {ts : List Lexeme} {e : Expr} (h : Derives .disjunction ts e) :
    Lexeme.parse ts = some e := by
  obtain ⟨ps, x, read, settled⟩ := h.settles [] (by rintro _ ⟨⟩)
  rw [Lexeme.parse, read, Parse.result?, settled]

end Interlingua

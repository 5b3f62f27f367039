import Interlingua.Proofs.Number.Positional
import Interlingua.Proofs.Number.Signs
import Interlingua.Proofs.Reading.Expressions
import Interlingua.Proofs.Reading.Phrases

/-!
# Numbers in trees

A number is a node of its own, and a sign is an operator over one. Whole numbers come back from their
numerals, and no sign before a number goes beyond 64 bits. What a language takes for an octal number is
read as a decimal one, which is the same only for a single digit.
-/

namespace Interlingua

open Reading

namespace Language

/-- The grammar's view of expressions, if the language can be read. -/
def exprGrammar? : Language → Option ExprGrammar
  | python => some Python.exprForm
  | javascript | typescript => some Script.exprForm
  | java => some Java.exprForm
  | haskell => none

/-- The kind of nodes that are an operator with one operand. -/
def unaryKind : Language → String
  | python => "unary_operator"
  | _ => "unary_expression"

/-- The field of the one operand. -/
def operandField : Language → String
  | java => "operand"
  | _ => "argument"

section

variable {l : Language} {g : ExprGrammar} (readable : l.exprGrammar? = some g) {t : Tree}

include readable

theorem exprForm_number (kind : t.kind ∈ l.numberKinds) : g t = .ok (numberForm t) := by
  have named {name : String} (same : t.kind = name) {form : ExprGrammar}
      (all : ∀ (label : Label) children, form (.node { label with kind := name } children) =
        .ok (numberForm (.node { label with kind := name } children))) :
      form t = .ok (numberForm t) := by
    obtain ⟨label, children, rfl⟩ := Tree.eq_of_kind same
    exact all label children
  cases l with
  | python =>
    cases readable
    simp only [numberKinds, List.mem_cons, List.not_mem_nil, or_false] at kind
    rcases kind with same | same <;> exact named same fun _ _ => rfl
  | javascript | typescript =>
    cases readable
    exact named (List.mem_singleton.1 kind) fun _ _ => rfl
  | java =>
    cases readable
    simp only [numberKinds, List.mem_cons, List.not_mem_nil, or_false] at kind
    rcases kind with same | same | same | same | same <;> exact named same fun _ _ => rfl
  | haskell => cases readable

theorem exprForm_unary {symbol : String} (kind : t.kind = l.unaryKind)
    (operator : t.childText? "operator" = some symbol) :
    g t = .ok (.unary (signOf symbol) (.field l.operandField)) := by
  have text : childText t "operator" = .ok symbol := by rw [childText, operator]
  have form : g t = (childText t "operator" >>= fun symbol =>
      .ok (.unary (signOf symbol) (.field l.operandField))) := by
    obtain ⟨label, children, rfl⟩ := Tree.eq_of_kind kind
    cases l with
    | haskell => cases readable
    | _ =>
      cases readable
      rfl
  rw [form, text]
  rfl

/-- A number is read from the text of its node. -/
theorem reads_number {value : Literal} (kind : t.kind ∈ l.numberKinds)
    (numeral : Literal.ofNumeral? t.text.toList = some value) : Reads g (.lit value) t := by
  refine readExpr_leaf ((exprForm_number readable kind).trans ?_)
  rw [numberForm, numeral]

/-- A sign before a number is the number with the opposite sign. -/
theorem reads_minus {value opposite : Literal} (kind : t.kind = l.unaryKind)
    (operator : t.childText? "operator" = some "-")
    (operand : t.Has l.operandField (Reads g (.lit value)))
    (negated : value.negate? = some opposite) : Reads g (.lit opposite) t := by
  have read := readExpr_unary (exprForm_unary readable kind operator) operand
  simpa [signOf, signed, Expr.lit, negated] using read

end

/-! Whole numbers and their signs. -/

/-- How a parser shows a numeral: a node without a sign, or a minus sign over what follows it. -/
inductive Shows (l : Language) : List Char → Tree → Prop
  | number {t : Tree} : t.kind ∈ l.numberKinds → t.text.toList.head? ≠ some '-' →
    Shows l t.text.toList t
  | minus {t operand : Tree} {cs : List Char} : t.kind = l.unaryKind →
    t.childText? "operator" = some "-" → t.child? l.operandField = some operand →
    Shows l cs operand → Shows l ('-' :: cs) t

/-- Without a sign, a numeral is the text of a node. -/
theorem Shows.of_head {l : Language} {cs : List Char} {t : Tree} (h : l.Shows cs t)
    (unsigned : cs.head? ≠ some '-') : t.kind ∈ l.numberKinds ∧ t.text.toList = cs := by
  cases h with
  | number kind _ => exact ⟨kind, rfl⟩
  | minus _ _ _ _ => exact absurd rfl unsigned

/-- With one, it is an operator and an operand. -/
theorem Shows.of_cons {l : Language} {cs : List Char} {t : Tree} (h : l.Shows ('-' :: cs) t) :
    t.kind = l.unaryKind ∧ t.childText? "operator" = some "-" ∧ t.Has l.operandField (l.Shows cs) := by
  generalize shown : '-' :: cs = signed at h
  cases h with
  | number _ unsigned => exact absurd (by rw [← shown]; rfl) unsigned
  | minus kind operator operand inner =>
    cases shown
    exact ⟨kind, operator, _, operand, inner⟩

theorem head_toDigits (n : Nat) : (Nat.toDigits 10 n).head? ≠ some '-' := by
  intro first
  have digit := Radix.isDigit_of_mem_toDigits (List.mem_of_head? first)
  cases digit

theorem reads_int {l : Language} {g : ExprGrammar} (readable : l.exprGrammar? = some g) {n : Int64}
    {t : Tree} (h : l.Shows (Literal.int n).numeral t) :
    Reads g (.lit (Literal.int n).reread) t := by
  have sign : n < 0 ↔ n.toInt < 0 := by simp [Int64.lt_iff_toInt_lt]
  rw [Literal.numeral, Literal.intNumeral] at h
  by_cases negative : n < 0
  · rw [if_pos (sign.1 negative)] at h
    obtain ⟨kind, operator, inner⟩ := h.of_cons
    obtain ⟨size, numeral, negated⟩ := Option.bind_eq_some_iff.1 (Literal.reread_of_neg negative)
    refine reads_minus readable kind operator (inner.mono fun operand shown => ?_) negated
    obtain ⟨number, text⟩ := shown.of_head (head_toDigits _)
    exact reads_number readable number (text ▸ numeral)
  · rw [if_neg fun below => negative (sign.2 below)] at h
    obtain ⟨number, text⟩ := h.of_head (head_toDigits _)
    exact reads_number readable number (text ▸ Literal.reread_of_nonneg (Int64.not_lt.1 negative))

/-- Whether a node has no sign in it if it is a number. -/
def unsignedAt (l : Language) (t : Tree) : Bool :=
  t.kind ∉ l.numberKinds || Literal.isUnsigned t.text.toList

end Language

/-- Whether the opposite of a whole number fits in 64 bits, if the expression is one. -/
def Expr.isReversible : Expr → Bool
  | .const value _ => value.isReversible
  | _ => true

theorem Reading.keeps_isReversible : Keeps Expr.isReversible fun _ => true where
  load _ := rfl
  str _ := rfl
  bool _ := rfl
  null := rfl
  unknown _ := rfl
  member _ _ := rfl
  call _ _ := rfl
  binary _ _ _ := rfl
  compare _ _ _ := rfl
  listOf _ := rfl
  tupleOf _ := rfl
  negated own negated := Literal.isReversible_negate? own negated
  retyped _ _ _ := rfl

namespace Language

section

variable {l : Language} {g : ExprGrammar} (readable : l.exprGrammar? = some g)

theorem numberMeets_isReversible {t : Tree} (h : l.unsignedAt t = true)
    (kind : t.kind ∈ l.numberKinds) : NumberMeets Expr.isReversible t := by
  intro value read
  have unsigned : Literal.isUnsigned t.text.toList = true := by simpa [unsignedAt, kind] using h
  cases value with
  | int n => exact Literal.isReversible_of_nonneg (Literal.nonneg_of_ofNumeral? unsigned read)
  | _ => rfl

include readable

theorem meets_isReversible {t : Tree} (h : l.unsignedAt t = true) :
    Gives (g t) fun form => form.meets Expr.isReversible (fun _ => true) = true := by
  have number := numberMeets_isReversible h
  cases l with
  | python =>
    cases readable
    exact Python.exprForm_meets keeps_isReversible number
  | javascript | typescript =>
    cases readable
    exact Script.exprForm_meets keeps_isReversible number
  | java =>
    cases readable
    exact Java.exprForm_meets keeps_isReversible number rfl
  | haskell => cases readable

theorem every_isReversible {t : Tree} (unsigned : t.every l.unsignedAt = true) :
    Gives (readExpr g t) fun e => e.every Expr.isReversible = true :=
  readExpr_every keeps_isReversible (fun _ own => meets_isReversible readable own) t unsigned

end

/-- Whole numbers come back from their numerals, the lowest as a double that is alike. Where no number
has a sign in it, no whole number that is read lacks its opposite, so that a sign before an operand
never goes beyond 64 bits. -/
theorem read_signs {l : Language} {g : ExprGrammar} (readable : l.exprGrammar? = some g) :
    (∀ (n : Int64) (t : Tree), l.Shows (Literal.int n).numeral t →
      ∃ value, readExpr g t = .ok (.lit value) ∧ Literal.alike (.int n) value = true ∧
        if n = Int64.minValue then ∃ x, value = .float x else value = .int n) ∧
    (∀ (t : Tree) (e : Expr), t.every l.unsignedAt = true → readExpr g t = .ok e →
      e.every Expr.isReversible = true) ∧
    ∀ (t operand : Tree) (field : String) (n : Int64) (type : BaseType),
      t.every l.unsignedAt = true → t.child? field = some operand →
      readExpr g operand = .ok (.const (.int n) type) → (-n).toInt = -n.toInt := by
  refine ⟨fun n t shown => ⟨_, reads_int readable shown, Literal.alike_reread _ (by simp), ?_⟩,
    fun t e unsigned read => every_isReversible readable unsigned e read, ?_⟩
  · by_cases lowest : n = Int64.minValue <;> simp [Literal.reread, lowest]
  · intro t operand field n type unsigned found read
    have below := Tree.every_child? unsigned found
    exact Literal.toInt_neg_of_isReversible (every_isReversible readable below _ read)

/-- The digits of the lowest number in Java. -/
def lowestDigits : Tree :=
  .node ⟨"decimal_integer_literal", true, some "operand", "9223372036854775808", 0⟩ []

def lowestTree : Tree :=
  .node ⟨"unary_expression", true, none, "-9223372036854775808", 0⟩
    [.node ⟨"-", false, some "operator", "-", 0⟩ [], lowestDigits]

/-- The greatest number in JavaScript, with its sign in parentheses. -/
def signedOperand : Tree :=
  .node ⟨"parenthesized_expression", true, some "argument", "(+9223372036854775807)", 0⟩
    [.node ⟨"unary_expression", true, none, "+9223372036854775807", 0⟩
      [.node ⟨"+", false, some "operator", "+", 0⟩ [],
       .node ⟨"number", true, some "argument", "9223372036854775807", 0⟩ []]]

def signedTree : Tree :=
  .node ⟨"unary_expression", true, none, "-(+9223372036854775807)", 0⟩
    [.node ⟨"-", false, some "operator", "-", 0⟩ [], signedOperand]

theorem read_signs_extremes :
    (java.Shows (Literal.int Int64.minValue).numeral lowestTree ∧
      ∃ x, readExpr Java.exprForm lowestTree = .ok (.lit (.float x)) ∧
        Literal.alike (.int Int64.minValue) (.float x) = true) ∧
    signedTree.every javascript.unsignedAt = true ∧
    readExpr Script.exprForm signedTree = .ok (.lit (.int (-Int64.maxValue))) ∧
    (Expr.lit (.int (-Int64.maxValue))).every Expr.isReversible = true ∧
    signedTree.child? "argument" = some signedOperand ∧
    readExpr Script.exprForm signedOperand = .ok (.lit (.int Int64.maxValue)) ∧
    (-Int64.maxValue).toInt = -Int64.maxValue.toInt := by
  have digits : java.Shows lowestDigits.text.toList lowestDigits := .number (by decide) (by decide)
  have shown : java.Shows (Literal.int Int64.minValue).numeral lowestTree := .minus rfl rfl rfl digits
  obtain ⟨_, read, alike, x, rfl⟩ := (read_signs (l := java) rfl).1 Int64.minValue lowestTree shown
  have unsigned : signedTree.every javascript.unsignedAt = true := by decide
  have signs : readExpr Script.exprForm signedTree = .ok (.lit (.int (-Int64.maxValue))) := rfl
  obtain ⟨-, reversible, exact⟩ := read_signs (l := javascript) rfl
  exact ⟨⟨shown, x, read, alike⟩, unsigned, signs, reversible signedTree _ unsigned signs, rfl, rfl,
    exact signedTree signedOperand "argument" _ _ unsigned rfl rfl⟩

end Language

/-! Octal numbers. -/

/-- A zero, octal digits with separators, and perhaps the letter of a width. -/
inductive OctalNumeral (digits : List Nat) : List Char → Prop
  | intro {body suffix : List Char} : Digits 8 body digits → digits ≠ [] →
    suffix ∈ [[], ['l'], ['L']] → OctalNumeral digits ('0' :: body ++ suffix)

/-- In two radixes, digits denote the same number only if all but the last are zero. -/
theorem ofDigits_ten_eq_iff {ds : List Nat} (h : ∀ d ∈ ds, d < 8) :
    Nat.ofDigits 10 ds = Nat.ofDigits 8 ds ↔ Nat.ofDigits 8 ds < 8 := by
  induction ds with
  | nil => simp
  | cons d ds ih =>
    obtain ⟨low, high⟩ := List.forall_mem_cons.1 h
    have le : Nat.ofDigits 8 ds ≤ Nat.ofDigits 10 ds := Nat.ofDigits_monotone ds (by decide)
    have rest := ih high
    rw [Nat.ofDigits_cons, Nat.ofDigits_cons]
    omega

namespace OctalNumeral

variable {digits : List Nat} {text : List Char}

theorem lt_eight (h : OctalNumeral digits text) : ∀ d ∈ digits, d < 8 := by
  cases h with
  | intro shown _ _ => exact shown.lt_radix

/-- Without the mark of a radix, the zero is one of the digits of a decimal numeral. -/
theorem wholeNumeral (h : OctalNumeral digits text) : WholeNumeral .decimal (0 :: digits) text := by
  cases h with
  | @intro body suffix shown _ width =>
    have decimal : Digits 10 ('0' :: body) (0 :: digits) :=
      .digit (by decide) (by decide) (shown.mono (by decide))
    have letters : ∀ c ∈ suffix, c ∈ ['l', 'L', '_'] := by
      simp only [List.mem_cons, List.not_mem_nil, or_false] at width
      rcases width with rfl | rfl | rfl <;> simp
    have whole : WholeNumeral .decimal (0 :: digits) ([] ++ '0' :: body ++ suffix) :=
      .intro rfl decimal (List.cons_ne_nil _ _) letters
    exact whole

theorem ofNumeral? (h : OctalNumeral digits text) : Literal.ofNumeral? text =
    some (if Base.decimal.value digits < 2 ^ 63
      then .int (Int64.ofNat (Base.decimal.value digits))
      else .float (Binary64.ofDecimal false (Base.decimal.value digits) 0)) := by
  have zero : Base.decimal.value (0 :: digits) = Base.decimal.value digits :=
    Nat.ofDigits_reverse_zero_cons digits
  rw [Literal.ofNumeral?_digits h.wholeNumeral, zero, if_pos rfl, apply_ite some]

theorem value_eq_iff (h : OctalNumeral digits text) :
    Base.decimal.value digits = Base.octal.value digits ↔ Base.octal.value digits < 8 :=
  ofDigits_ten_eq_iff fun d mem => h.lt_eight d (List.mem_reverse.1 mem)

end OctalNumeral

/-- Below the bound, what a number is read as determines it. -/
theorem Literal.ite_eq_int_iff {m n : Nat} {x : Binary64} (fits : n < 2 ^ 63) :
    (if m < 2 ^ 63 then Literal.int (Int64.ofNat m) else .float x) = .int (Int64.ofNat n) ↔ m = n := by
  constructor
  · intro same
    by_cases small : m < 2 ^ 63
    · rw [if_pos small] at same
      have values := congrArg Int64.toInt (Literal.int.inj same)
      rw [Int64.toInt_ofNat_of_lt small, Int64.toInt_ofNat_of_lt fits] at values
      exact Int.ofNat.inj values
    · rw [if_neg small] at same
      cases same
  · rintro rfl
    rw [if_pos fits]

theorem Expr.lit_inj {value value' : Literal} : Expr.lit value = Expr.lit value' ↔ value = value' := by
  constructor
  · intro same
    exact (Expr.const.inj same).1
  · rintro rfl
    rfl

namespace Reading

/-- An octal number of Java is read as if it were decimal, which gives its value only below eight. -/
theorem Java.expr_octal {t : Tree} {digits : List Nat}
    (kind : t.kind = "octal_integer_literal") (text : OctalNumeral digits t.text.toList) :
    Java.expr t = .ok (.lit (if Base.decimal.value digits < 2 ^ 63
      then .int (Int64.ofNat (Base.decimal.value digits))
      else .float (Binary64.ofDecimal false (Base.decimal.value digits) 0))) ∧
    (Base.octal.value digits < 2 ^ 63 →
      (Java.expr t = .ok (.lit (.int (Int64.ofNat (Base.octal.value digits)))) ↔
        Base.octal.value digits < 8)) := by
  have number : t.kind ∈ Language.java.numberKinds := by
    rw [kind]
    decide
  have read : Java.expr t = .ok (.lit _) := Language.reads_number (l := .java) rfl number text.ofNumeral?
  refine ⟨read, fun fits => ?_⟩
  rw [read, Except.ok.injEq, Expr.lit_inj, Literal.ite_eq_int_iff fits, text.value_eq_iff]

def greatestOctal : Tree :=
  .node ⟨"octal_integer_literal", true, none, "0777_777_777_777_777_777_777L", 0⟩ []

/-- The greatest octal number that fits in 64 bits comes back as a double. -/
theorem Java.expr_octal_greatest :
    Base.octal.value (List.replicate 21 7) = 2 ^ 63 - 1 ∧
    Java.expr greatestOctal =
      .ok (.lit (.float (Binary64.ofDecimal false (Base.decimal.value (List.replicate 21 7)) 0))) ∧
    Java.expr greatestOctal ≠ .ok (.lit (.int Int64.maxValue)) := by
  have shown : OctalNumeral (List.replicate 21 7) greatestOctal.text.toList := by
    have body : Digits 8 "777_777_777_777_777_777_777".toList (List.replicate 21 7) := by
      repeat (first | exact .nil | apply Digits.separator | refine .digit (by decide) (by decide) ?_)
    exact .intro body (by decide) (.tail _ (.tail _ (.head _)))
  obtain ⟨read, same⟩ := Java.expr_octal rfl shown
  exact ⟨by decide, read, fun equal => absurd ((same (by decide)).1 equal) (by decide)⟩

/-- Fifteen in octal digits. -/
def fifteen : Tree :=
  .node ⟨"octal_integer_literal", true, none, "017", 0⟩ []

theorem Java.expr_octal_fifteen :
    OctalNumeral [1, 7] fifteen.text.toList ∧ Base.octal.value [1, 7] = 15 ∧
    Java.expr fifteen = .ok (.lit (.int 17)) ∧ Java.expr fifteen ≠ .ok (.lit (.int 15)) := by
  have body : Digits 8 ['1', '7'] [1, 7] :=
    .digit (by decide) (by decide) (.digit (by decide) (by decide) .nil)
  have read : Java.expr fifteen = .ok (.lit (.int 17)) := rfl
  refine ⟨.intro body (by decide) (.head _), by decide, read, ?_⟩
  rw [read]
  simp [Expr.lit]

end Reading

end Interlingua

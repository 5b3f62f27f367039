import Interlingua.Language
import Interlingua.Proofs.Number.Reread
import Interlingua.Proofs.Program.Everywhere
import Interlingua.Proofs.Syntax.Precedence
import Interlingua.Proofs.Text.Quoting
import Interlingua.Writing.Expression

/-!
# Parentheses

Expressions are written with the parentheses they need: the lexemes of what is written derive the
expression, and nothing else. A lexeme is what a piece of text is to the grammar; where names cannot
be taken for anything else, the texts of the pieces leave no choice.
-/

namespace Interlingua

namespace Lexeme

/-- The text of a lexeme in a dialect with arguments in parentheses. -/
def shown (d : Dialect) : Lexeme → String
  | word id => id
  | number value => String.ofList (Nat.toDigits 10 value)
  | text value => quoted d.delimiter value
  | truth true => d.trueText
  | truth false => d.falseText
  | null => d.nullText
  | operator op => d.binarySymbol op
  | comparison op => d.compareSymbol op
  | dot => "."
  | comma => ","
  | opening => "("
  | closing => ")"

/-- Put parentheses around lexemes where they are needed. -/
def group (needed : Bool) (ts : List Lexeme) : List Lexeme :=
  if needed then opening :: ts ++ [closing] else ts

end Lexeme

/-- Pieces that put the texts of lexemes in place. A minus and the digits after it are one piece. -/
inductive Puts (d : Dialect) : List Piece → List Lexeme → Prop
  | nil : Puts d [] []
  | gap {ps : List Piece} {ts : List Lexeme} : Puts d ps ts → Puts d (.gap :: ps) ts
  | token (t : Lexeme) {ps : List Piece} {ts : List Lexeme} :
      Puts d ps ts → Puts d (.token (t.shown d) :: ps) (t :: ts)
  | signed (size : Nat) {ps : List Piece} {ts : List Lexeme} : Puts d ps ts →
      Puts d (.token ((Lexeme.operator .sub).shown d ++ (Lexeme.number size).shown d) :: ps)
        (.operator .sub :: .number size :: ts)

/-- The lexemes of a literal. Doubles are left out. -/
def Literal.lexemes : Literal → List Lexeme
  | .str value => [.text value]
  | .int n =>
    if n < 0 then [.operator .sub, .number n.toInt.natAbs] else [.number n.toInt.natAbs]
  | .float _ => []
  | .bool value => [.truth value]
  | .null => [.null]

namespace Expr

mutual

/-- The lexemes of an expression, with parentheses where an operand binds looser than its place asks
for. -/
def lexemes : Expr → List Lexeme
  | call callee args =>
    Lexeme.group (callee.strength < atom) (lexemes callee) ++ .opening :: lexemesAll args ++ [.closing]
  | name n => [.word n.id]
  | const value _ => value.lexemes
  | member object property =>
    Lexeme.group (object.strength < atom) (lexemes object) ++ [.dot, .word property]
  | binary left op right =>
    Lexeme.group (left.strength < op.strength) (lexemes left) ++
      .operator op :: Lexeme.group (right.strength < op.strength + 1) (lexemes right)
  | compare left op right =>
    Lexeme.group (left.strength < CompareOp.strength + 1) (lexemes left) ++
      .comparison op :: Lexeme.group (right.strength < CompareOp.strength + 1) (lexemes right)
  | list _ _ _ | tuple _ _ | unknown _ => []

def lexemesAll : List Expr → List Lexeme
  | [] => []
  | [e] => lexemes e
  | e :: next :: rest => lexemes e ++ .comma :: lexemesAll (next :: rest)

end

mutual

/-- The expression as it is written: the roles of names and the types noted with constants do not
show. -/
def bare : Expr → Expr
  | call callee args => call (bare callee) (bareAll args)
  | name n => load n.id
  | const value _ => lit value
  | member object property => member (bare object) property
  | binary left op right => binary (bare left) op (bare right)
  | compare left op right => compare (bare left) op (bare right)
  | e => e

def bareAll : List Expr → List Expr
  | [] => []
  | e :: es => bare e :: bareAll es

end

/-- Whether an expression itself is a name, a constant other than a double, a member, a call of
something else than `print`, or an operation. -/
def isOperational : Expr → Bool
  | name _ | member _ _ | binary _ _ _ | compare _ _ _ => true
  | const (.float _) _ => false
  | const _ _ => true
  | call (name n) _ => n.id ≠ "print"
  | call _ _ => true
  | list _ _ _ | tuple _ _ | unknown _ => false

/-- The place of the grammar that an expression fills. -/
def tier : Expr → Tier
  | binary _ op _ => op.tier
  | compare _ _ _ => .comparison
  | const value _ => if value.isNegative then .sign else .suffix
  | _ => .suffix

/-- Strengths follow the places of the grammar. -/
theorem rank_tier (e : Expr) : e.tier.rank = min e.strength Tier.suffix.rank := by
  cases e with
  | binary left op right => cases op <;> rfl
  | const value type =>
    simp only [tier, strength]
    split <;> rfl
  | _ => rfl

end Expr

/-- An operand stands in its place, in parentheses if it binds looser. -/
theorem Derives.group {e : Expr} {ts : List Lexeme} {x : Expr} (h : Derives e.tier ts x)
    {t : Tier} {least : Nat} (place : t.rank = min least Tier.suffix.rank) :
    Derives t (Lexeme.group (e.strength < least) ts) x := by
  have rank := e.rank_tier
  by_cases weak : e.strength < least
  · have inside : Derives .disjunction ts x := .tighter (by cases e.tier <;> decide) h
    have around : t.rank ≤ Tier.atom.rank := by cases t <;> decide
    simpa [Lexeme.group, weak] using Derives.tighter around inside.paren
  · have tight : t.rank ≤ e.tier.rank := by omega
    simpa [Lexeme.group, weak] using Derives.tighter tight h

theorem Literal.derives_lexemes (value : Literal) (type : BaseType)
    (h : (Expr.const value type).isOperational = true) :
    Derives (Expr.const value type).tier value.lexemes (.lit value) := by
  have loose : Tier.suffix.rank ≤ Tier.atom.rank := by decide
  cases value with
  | str value => exact .tighter loose (.text value)
  | bool value => exact .tighter loose (.truth value)
  | null => exact .tighter loose .null
  | float value => cases h
  | int n =>
    by_cases negative : n < 0
    · have size : n.toInt = -n.toInt.natAbs := by
        have below := Int64.lt_iff_toInt_lt.1 negative
        rw [Int64.toInt_zero] at below
        omega
      simpa [Expr.tier, Literal.isNegative, Literal.lexemes, negative] using Derives.minus size
    · have size : n.toInt = n.toInt.natAbs := by
        have above := Int64.not_lt.1 negative
        rw [Int64.le_iff_toInt_le, Int64.toInt_zero] at above
        omega
      simpa [Expr.tier, Literal.isNegative, Literal.lexemes, negative] using
        Derives.tighter loose (Derives.number size)

namespace Expr

mutual

theorem derives_lexemes (e : Expr) (h : e.every isOperational = true) :
    Derives e.tier e.lexemes e.bare :=
  match e with
  | call callee args => by
    simp only [every, Bool.and_eq_true] at h
    have own := derives_lexemes callee h.1.2
    exact .call (own.group rfl) (derives_lexemesAll args h.2)
  | name n => .tighter (u := .atom) (Nat.le_succ _) (.word n.id)
  | const value type => value.derives_lexemes type (every_self h)
  | member object property => by
    simp only [every, Bool.and_eq_true] at h
    exact .member property ((derives_lexemes object h.2).group rfl)
  | binary left op right => by
    simp only [every, Bool.and_eq_true] at h
    have first : Derives op.tier (Lexeme.group (left.strength < op.strength) left.lexemes) left.bare :=
      (derives_lexemes left h.1.2).group (by cases op <;> rfl)
    have second : Derives op.tier.next (Lexeme.group (right.strength < op.strength + 1) right.lexemes)
        right.bare :=
      (derives_lexemes right h.2).group (by cases op <;> rfl)
    exact .binary op first second
  | compare left op right => by
    simp only [every, Bool.and_eq_true] at h
    exact .compare op ((derives_lexemes left h.1.2).group rfl) ((derives_lexemes right h.2).group rfl)
  | list _ _ _ | tuple _ _ | unknown _ => by simp [every, isOperational] at h

theorem derives_lexemesAll (es : List Expr) (h : everyAll isOperational es = true) :
    DerivesAll (lexemesAll es) (bareAll es) :=
  match es with
  | [] => .nil
  | [e] => by
    simp only [everyAll, Bool.and_true] at h
    exact .one (.tighter (by cases e.tier <;> decide) (derives_lexemes e h))
  | e :: next :: rest => by
    simp only [everyAll, Bool.and_eq_true] at h
    have tail := derives_lexemesAll (next :: rest) (by simp [everyAll, h.2])
    exact .more (.tighter (by cases e.tier <;> decide) (derives_lexemes e h.1)) tail

end

end Expr

namespace Lexeme

/-- The lexemes that are always the same. -/
def fixed : List Lexeme :=
  [dot, comma, opening, closing, null, truth true, truth false,
    operator .add, operator .sub, operator .mul, operator .div, operator .mod, operator .and,
    operator .or, comparison .eq, comparison .notEq, comparison .lt, comparison .ltE, comparison .gt,
    comparison .gtE]

/-- Whether a word cannot be taken for another lexeme in a dialect. -/
def isDistinct (d : Dialect) : Lexeme → Bool
  | word id => id ∉ fixed.map (shown d) &&
      id.toList.head?.all fun c => c ≠ '-' && c ≠ d.delimiter && !c.isDigit
  | _ => true

/-- The lexeme with a text. -/
def ofShown (d : Dialect) (shown' : String) : Lexeme :=
  match fixed.find? (·.shown d = shown') with
  | some t => t
  | none =>
    if shown'.toList.head? = some d.delimiter then
      text (String.ofList (Text.unescape shown'.toList.tail.dropLast))
    else if shown'.toList.head?.any Char.isDigit then number (Nat.ofDigitChars 10 shown'.toList 0)
    else word shown'

end Lexeme

/-- A dialect with arguments in parentheses in which the lexemes can be told apart. -/
structure Dialect.Legible (d : Dialect) : Prop where
  listed : d.application = .listed
  link : d.memberLink = "."
  minus : d.binarySymbol .sub = "-"
  delimits : Text.escaped? d.delimiter = some d.delimiter ∧ d.delimiter.isDigit = false ∧ d.delimiter ≠ '-'
  apart : ∀ t ∈ Lexeme.fixed, Lexeme.fixed.find? (·.shown d = t.shown d) = some t
  heads : ∀ t ∈ Lexeme.fixed, (t.shown d).toList.head?.all fun c => c ≠ d.delimiter && !c.isDigit
  alone : ∀ t ∈ Lexeme.fixed, (t.shown d).toList.head? = some '-' → (t.shown d).toList.tail = []

theorem Language.legible {l : Language} (h : l ≠ .haskell) : l.dialect.Legible := by
  cases l with
  | haskell => exact absurd rfl h
  | python => exact ⟨rfl, rfl, rfl, by decide, by decide, by decide, by decide⟩
  | javascript => exact ⟨rfl, rfl, rfl, by decide, by decide, by decide, by decide⟩
  | typescript => exact ⟨rfl, rfl, rfl, by decide, by decide, by decide, by decide⟩
  | java => exact ⟨rfl, rfl, rfl, by decide, by decide, by decide, by decide⟩

namespace Puts

variable {d : Dialect}

theorem append {ps qs : List Piece} {ts us : List Lexeme} (h : Puts d ps ts) (h' : Puts d qs us) :
    Puts d (ps ++ qs) (ts ++ us) := by
  induction h with
  | nil => exact h'
  | gap _ ih => exact .gap ih
  | token t _ ih => exact .token t ih
  | signed size _ ih => exact .signed size ih

theorem group {ps : List Piece} {ts : List Lexeme} (h : Puts d ps ts) (needed : Bool) :
    Puts d (Piece.group needed ps) (Lexeme.group needed ts) := by
  cases needed with
  | false => exact h
  | true => exact (Puts.token .opening h).append (.token .closing .nil)

/-- An operator stands between spaces. -/
theorem infixed {ps qs : List Piece} {ts us : List Lexeme} (h : Puts d ps ts) (t : Lexeme)
    (h' : Puts d qs us) :
    Puts d (ps ++ [.gap, .token (t.shown d), .gap] ++ qs) (ts ++ t :: us) := by
  rw [List.append_assoc]
  exact h.append (.gap (.token t (.gap h')))

theorem literal (legible : d.Legible) {value : Literal} {type : BaseType}
    (h : (Expr.const value type).isOperational = true) :
    Puts d [.token (d.literal value)] value.lexemes := by
  cases value with
  | str value => exact .token (.text value) .nil
  | bool value =>
    cases value with
    | true => exact .token (.truth true) .nil
    | false => exact .token (.truth false) .nil
  | null => exact .token .null .nil
  | float value => cases h
  | int n =>
    have sign : n < 0 ↔ n.toInt < 0 := by rw [Int64.lt_iff_toInt_lt, Int64.toInt_zero]
    by_cases negative : n < 0
    · have numeral : d.literal (.int n) =
          (Lexeme.operator .sub).shown d ++ (Lexeme.number n.toInt.natAbs).shown d := by
        simp [Dialect.literal, Literal.numeral, Literal.intNumeral, sign.1 negative, Lexeme.shown,
          legible.minus, String.ofList_cons]
      rw [numeral, Literal.lexemes, if_pos negative]
      exact .signed _ .nil
    · have numeral : d.literal (.int n) = (Lexeme.number n.toInt.natAbs).shown d := by
        simp [Dialect.literal, Literal.numeral, Literal.intNumeral, mt sign.2 negative, Lexeme.shown]
      rw [numeral, Literal.lexemes, if_neg negative]
      exact .token _ .nil

end Puts

namespace Expr

variable {d : Dialect}

mutual

theorem puts_lexemes (legible : d.Legible) (e : Expr) (h : e.every isOperational = true) :
    Puts d (d.exprPieces e) e.lexemes :=
  match e with
  | call callee args => by
    simp only [every, Bool.and_eq_true] at h
    have front := puts_callee legible callee args h.1.1 h.1.2
    have all := front.append ((Puts.token .opening (puts_lexemesAll legible args h.2)).append
      (.token .closing .nil))
    cases callee <;> simpa [Dialect.exprPieces, legible.listed, lexemes, Lexeme.shown] using all
  | name n => .token (.word n.id) .nil
  | const value type => .literal legible (every_self h)
  | member object property => by
    simp only [every, Bool.and_eq_true] at h
    have own := (puts_lexemes legible object h.2).group (object.strength < atom)
    rw [Dialect.exprPieces, legible.link]
    exact own.append (.token .dot (.token (.word property) .nil))
  | binary left op right => by
    simp only [every, Bool.and_eq_true] at h
    exact .infixed ((puts_lexemes legible left h.1.2).group _) (.operator op)
      ((puts_lexemes legible right h.2).group _)
  | compare left op right => by
    simp only [every, Bool.and_eq_true] at h
    exact .infixed ((puts_lexemes legible left h.1.2).group _) (.comparison op)
      ((puts_lexemes legible right h.2).group _)
  | list _ _ _ | tuple _ _ | unknown _ => by simp [every, isOperational] at h

theorem puts_callee (legible : d.Legible) (callee : Expr) (args : List Expr)
    (own : (call callee args).isOperational = true) (h : callee.every isOperational = true) :
    Puts d (match callee with
      | name n => [.token (d.functionName n.id)]
      | _ => Dialect.operand atom callee (d.exprPieces callee))
      (Lexeme.group (callee.strength < atom) callee.lexemes) := by
  have pieces := (puts_lexemes legible callee h).group (callee.strength < atom)
  cases callee with
  | name n =>
    have other : n.id ≠ "print" := by simpa [isOperational] using own
    change Puts d [.token (d.functionName n.id)] [.word n.id]
    rw [Dialect.functionName, if_neg other]
    exact .token (.word n.id) .nil
  | _ => exact pieces

theorem puts_lexemesAll (legible : d.Legible) (es : List Expr) (h : everyAll isOperational es = true) :
    Puts d (d.listedPieces es) (lexemesAll es) :=
  match es with
  | [] => .nil
  | [e] => by
    simp only [everyAll, Bool.and_true] at h
    exact puts_lexemes legible e h
  | e :: next :: rest => by
    simp only [everyAll, Bool.and_eq_true] at h
    have tail := puts_lexemesAll legible (next :: rest) (by simp [everyAll, h.2])
    exact (puts_lexemes legible e h.1).append (.token .comma (.gap tail))

end

end Expr

namespace Lexeme

variable {d : Dialect} (legible : d.Legible)

include legible

/-- No lexeme that is always the same starts like a text or a number. -/
theorem find?_fixed_eq_none {s : String} {c : Char} (first : s.toList.head? = some c)
    (h : c = d.delimiter ∨ c.isDigit = true) : fixed.find? (·.shown d = s) = none := by
  rw [List.find?_eq_none]
  intro t mem same
  have head := legible.heads t mem
  rw [decide_eq_true_eq] at same
  simp only [same, first, Option.all_some, Bool.and_eq_true, decide_eq_true_eq,
    Bool.not_eq_true'] at head
  rcases h with rfl | digit
  · exact head.1 rfl
  · simp [digit] at head

theorem ofShown_of_fixed {t : Lexeme} (h : t ∈ fixed) : ofShown d (t.shown d) = t := by
  rw [ofShown, legible.apart t h]

theorem ofShown_number (value : Nat) : ofShown d ((number value).shown d) = number value := by
  have digits : ((number value).shown d).toList = Nat.toDigits 10 value := String.toList_ofList
  obtain ⟨c, cs, split⟩ := List.exists_cons_of_ne_nil (Nat.toDigits_ne_nil (n := value) (b := 10))
  have first : ((number value).shown d).toList.head? = some c := by rw [digits, split]; rfl
  have digit : c.isDigit = true := Radix.isDigit_of_mem_toDigits (n := value) (by simp [split])
  have other : some c ≠ some d.delimiter := by
    rintro ⟨⟩
    simp [legible.delimits.2.1] at digit
  have any : (some c).any Char.isDigit = true := digit
  rw [ofShown, find?_fixed_eq_none legible first (.inr digit), first, if_neg other, if_pos any,
    digits, Nat.ofDigitChars_ten_toDigits]

theorem ofShown_text (value : String) : ofShown d ((text value).shown d) = text value := by
  have quote : ((text value).shown d).toList =
      d.delimiter :: value.toList.flatMap (Text.escape d.delimiter) ++ [d.delimiter] :=
    String.toList_ofList
  have first : ((text value).shown d).toList.head? = some d.delimiter := by rw [quote]; rfl
  have inner : ((text value).shown d).toList.tail.dropLast =
      value.toList.flatMap (Text.escape d.delimiter) := by
    rw [quote, List.cons_append, List.tail_cons, List.dropLast_concat]
  rw [ofShown, find?_fixed_eq_none legible first (.inl rfl), if_pos first, inner,
    Text.unescape_flatMap legible.delimits.1, String.ofList_toList]

omit legible in
theorem ofShown_word {id : String} (h : (word id).isDistinct d = true) :
    ofShown d ((word id).shown d) = word id := by
  simp only [isDistinct, Bool.and_eq_true, decide_eq_true_eq] at h
  obtain ⟨unused, head⟩ := h
  have none : fixed.find? (·.shown d = id) = none := by
    rw [List.find?_eq_none]
    intro t mem same
    exact unused (List.mem_map.2 ⟨t, mem, by simpa using same⟩)
  rw [shown, ofShown, none]
  cases first : id.toList.head? with
  | none => simp
  | some c =>
    simp only [first, Option.all_some, Bool.and_eq_true, decide_eq_true_eq, Bool.not_eq_true'] at head
    simp [head.1.2, head.2]

/-- The text of a lexeme tells which it is. -/
theorem ofShown_shown {t : Lexeme} (h : t.isDistinct d = true) : ofShown d (t.shown d) = t := by
  cases t with
  | word id => exact ofShown_word h
  | number value => exact ofShown_number legible value
  | text value => exact ofShown_text legible value
  | truth value => exact ofShown_of_fixed legible (by cases value <;> decide)
  | operator op => exact ofShown_of_fixed legible (by cases op <;> decide)
  | comparison op => exact ofShown_of_fixed legible (by cases op <;> decide)
  | null | dot | comma | opening | closing => exact ofShown_of_fixed legible (by decide)

theorem shown_injective {t u : Lexeme} (ht : t.isDistinct d = true) (hu : u.isDistinct d = true)
    (same : t.shown d = u.shown d) : t = u := by
  rw [← ofShown_shown legible ht, same, ofShown_shown legible hu]

/-- A minus with digits after it is not the text of one lexeme. -/
theorem shown_ne_signed {t : Lexeme} (h : t.isDistinct d = true) (size : Nat) :
    t.shown d ≠ (operator .sub).shown d ++ (number size).shown d := by
  intro same
  have whole : (t.shown d).toList = '-' :: Nat.toDigits 10 size := by
    rw [same, String.toList_append]
    simp [shown, legible.minus]
  have first : (t.shown d).toList.head? = some '-' := by rw [whole]; rfl
  have notFixed : t ∉ fixed := by
    intro mem
    have rest := legible.alone t mem first
    rw [whole, List.tail_cons] at rest
    exact Nat.toDigits_ne_nil rest
  cases t with
  | word id =>
    rw [shown] at first
    simp [isDistinct, first] at h
  | number value =>
    have digit : '-'.isDigit = true := by
      refine Radix.isDigit_of_mem_toDigits (n := value) ?_
      rw [shown, String.toList_ofList] at whole
      simp [whole]
    exact absurd digit (by decide)
  | text value =>
    rw [shown, quoted, Text.quote, String.toList_ofList] at first
    exact legible.delimits.2.2 (Option.some.inj first)
  | truth value => exact notFixed (by cases value <;> decide)
  | operator op => exact notFixed (by cases op <;> decide)
  | comparison op => exact notFixed (by cases op <;> decide)
  | null | dot | comma | opening | closing => exact notFixed (by decide)

end Lexeme

namespace Puts

variable {d : Dialect}

/-- A piece of text is one lexeme, or a minus with a number. -/
theorem token_cases {s : String} {ps : List Piece} {ts : List Lexeme}
    (h : Puts d (.token s :: ps) ts) :
    (∃ t us, s = t.shown d ∧ ts = t :: us ∧ Puts d ps us) ∨
      ∃ size us, s = (Lexeme.operator .sub).shown d ++ (Lexeme.number size).shown d ∧
        ts = .operator .sub :: .number size :: us ∧ Puts d ps us := by
  cases h with
  | token t rest => exact .inl ⟨t, _, rfl, rfl, rest⟩
  | signed size rest => exact .inr ⟨size, _, rfl, rfl, rest⟩

theorem unique (legible : d.Legible) {ps : List Piece} {ts us : List Lexeme} (h : Puts d ps ts)
    (h' : Puts d ps us) (hts : ∀ t ∈ ts, t.isDistinct d = true)
    (hus : ∀ u ∈ us, u.isDistinct d = true) : ts = us := by
  induction h generalizing us with
  | nil =>
    cases h'
    rfl
  | gap _ ih =>
    cases h' with
    | gap rest => exact ih rest hts hus
  | token t _ ih =>
    obtain ⟨own, others⟩ := List.forall_mem_cons.1 hts
    rcases h'.token_cases with ⟨u, vs, same, rfl, rest⟩ | ⟨size, vs, same, _, _⟩
    · obtain ⟨other, tail⟩ := List.forall_mem_cons.1 hus
      rw [Lexeme.shown_injective legible own other same, ih rest others tail]
    · exact absurd same (Lexeme.shown_ne_signed legible own size)
  | signed size _ ih =>
    rcases h'.token_cases with ⟨u, vs, same, rfl, _⟩ | ⟨size', vs, same, rfl, rest⟩
    · exact absurd same.symm (Lexeme.shown_ne_signed legible (hus u List.mem_cons_self) size)
    · have digits : (Lexeme.number size).shown d = (Lexeme.number size').shown d :=
        (String.append_right_inj _).1 same
      have number := Lexeme.shown_injective legible (d := d) rfl rfl digits
      rw [number, ih rest (fun t mem => hts t (by simp [mem])) fun u mem => hus u (by simp [mem])]

end Puts

namespace Expr

/-- Whether the name or property of an expression itself cannot be taken for another lexeme. -/
def isDistinct (d : Dialect) : Expr → Bool
  | name n => (Lexeme.word n.id).isDistinct d
  | member _ property => (Lexeme.word property).isDistinct d
  | _ => true

variable {d : Dialect}

theorem distinct_group {ts : List Lexeme} (h : ∀ t ∈ ts, t.isDistinct d = true) (needed : Bool) :
    ∀ t ∈ Lexeme.group needed ts, t.isDistinct d = true := by
  cases needed with
  | false => exact h
  | true =>
    intro t mem
    simp only [Lexeme.group, if_true, List.cons_append, List.mem_cons, List.mem_append,
      List.not_mem_nil, or_false] at mem
    rcases mem with rfl | mem | rfl
    · rfl
    · exact h t mem
    · rfl

theorem distinct_literal (value : Literal) : ∀ t ∈ value.lexemes, t.isDistinct d = true := by
  cases value with
  | int n =>
    rw [Literal.lexemes]
    split <;> simp [Lexeme.isDistinct]
  | _ => simp [Literal.lexemes, Lexeme.isDistinct]

mutual

theorem distinct_lexemes (e : Expr) (h : e.every (isDistinct d) = true) :
    ∀ t ∈ e.lexemes, t.isDistinct d = true :=
  match e with
  | call callee args => by
    simp only [every, Bool.and_eq_true] at h
    have front := distinct_group (distinct_lexemes callee h.1.2) (callee.strength < atom)
    have inner := distinct_lexemesAll args h.2
    exact List.forall_mem_append.2 ⟨List.forall_mem_append.2
      ⟨front, List.forall_mem_cons.2 ⟨rfl, inner⟩⟩, List.forall_mem_singleton.2 rfl⟩
  | name n => List.forall_mem_singleton.2 h
  | const value _ => distinct_literal value
  | member object property => by
    simp only [every, Bool.and_eq_true] at h
    have own := distinct_group (distinct_lexemes object h.2) (object.strength < atom)
    exact List.forall_mem_append.2
      ⟨own, List.forall_mem_cons.2 ⟨rfl, List.forall_mem_singleton.2 h.1⟩⟩
  | binary left op right => by
    simp only [every, Bool.and_eq_true] at h
    exact List.forall_mem_append.2 ⟨distinct_group (distinct_lexemes left h.1.2) _,
      List.forall_mem_cons.2 ⟨rfl, distinct_group (distinct_lexemes right h.2) _⟩⟩
  | compare left op right => by
    simp only [every, Bool.and_eq_true] at h
    exact List.forall_mem_append.2 ⟨distinct_group (distinct_lexemes left h.1.2) _,
      List.forall_mem_cons.2 ⟨rfl, distinct_group (distinct_lexemes right h.2) _⟩⟩
  | list _ _ _ | tuple _ _ | unknown _ => by simp [lexemes]

theorem distinct_lexemesAll (es : List Expr) (h : everyAll (isDistinct d) es = true) :
    ∀ t ∈ lexemesAll es, t.isDistinct d = true :=
  match es with
  | [] => by simp [lexemesAll]
  | [e] => by
    simp only [everyAll, Bool.and_true] at h
    exact distinct_lexemes e h
  | e :: next :: rest => by
    simp only [everyAll, Bool.and_eq_true] at h
    have tail := distinct_lexemesAll (next :: rest) (by simp [everyAll, h.2])
    exact List.forall_mem_append.2
      ⟨distinct_lexemes e h.1, List.forall_mem_cons.2 ⟨rfl, tail⟩⟩

end

/-- Whether all of an expression itself shows when it is written: names are read, and constants have
the types of their literals. -/
def isBare : Expr → Bool
  | name n => n.role = .load
  | const value type => type = value.baseType
  | _ => true

mutual

theorem bare_eq_self (e : Expr) (h : e.every isBare = true) : e.bare = e :=
  match e with
  | call callee args => by
    simp only [every, Bool.and_eq_true] at h
    rw [bare, bare_eq_self callee h.1.2, bareAll_eq_self args h.2]
  | name n => by
    have role : n.role = .load := by simpa [every, isBare] using h
    rw [bare, load, ← role]
  | const value type => by
    have own : type = value.baseType := by simpa [every, isBare] using h
    rw [bare, lit, ← own]
  | member object property => by
    simp only [every, Bool.and_eq_true] at h
    rw [bare, bare_eq_self object h.2]
  | binary left op right => by
    simp only [every, Bool.and_eq_true] at h
    rw [bare, bare_eq_self left h.1.2, bare_eq_self right h.2]
  | compare left op right => by
    simp only [every, Bool.and_eq_true] at h
    rw [bare, bare_eq_self left h.1.2, bare_eq_self right h.2]
  | list _ _ _ | tuple _ _ | unknown _ => rfl

theorem bareAll_eq_self (es : List Expr) (h : everyAll isBare es = true) : bareAll es = es :=
  match es with
  | [] => rfl
  | e :: es => by
    simp only [everyAll, Bool.and_eq_true] at h
    rw [bareAll, bare_eq_self e h.1, bareAll_eq_self es h.2]

end

/-- The lexemes of an expression derive the expression as it is written, and nothing else. -/
theorem derives_lexemes_iff {e : Expr} (h : e.every isOperational = true) (x : Expr) :
    Derives .disjunction e.lexemes x ↔ x = e.bare := by
  have own : Derives .disjunction e.lexemes e.bare :=
    .tighter (by cases e.tier <;> decide) (e.derives_lexemes h)
  constructor
  · intro other
    exact Option.some.inj (other.parse_eq.symm.trans own.parse_eq)
  · rintro rfl
    exact own

end Expr

/-- What is written for an expression in a language with arguments in parentheses has the expression
as its only parse. If no name can be taken for another lexeme, the pieces of text are these lexemes
and no others. -/
theorem Language.derives_written_iff {l : Language} (hl : l ∈ [.python, .javascript, .typescript, .java])
    {e : Expr} (h : e.every Expr.isOperational = true) :
    Puts l.dialect (l.dialect.exprPieces e) e.lexemes ∧
    (∀ x, Derives .disjunction e.lexemes x ↔ x = e.bare) ∧
    (e.every Expr.isBare = true → e.bare = e) ∧
    (e.every (Expr.isDistinct l.dialect) = true → ∀ ts, (∀ t ∈ ts, t.isDistinct l.dialect = true) →
      Puts l.dialect (l.dialect.exprPieces e) ts → ts = e.lexemes) := by
  have legible : l.dialect.Legible := Language.legible (by rintro rfl; simp at hl)
  have written := e.puts_lexemes legible h
  refine ⟨written, Expr.derives_lexemes_iff h, e.bare_eq_self, ?_⟩
  intro named ts distinct read
  exact read.unique legible written distinct (e.distinct_lexemes named)

/-- `(a - -5) * o.f(b || c, null) == (d < 'e')`: operands that bind looser than their place, a number
with a sign, and a comparison that is compared. -/
def looseOperands : Expr :=
  .compare
    (.binary (.binary (.load "a") .sub (.lit (.int (-5)))) .mul
      (.call (.member (.load "o") "f") [.binary (.load "b") .or (.load "c"), .lit .null]))
    .eq
    (.compare (.load "d") .lt (.lit (.str "e")))

theorem Language.derives_written_iff_looseOperands :
    Language.java ∈ [.python, .javascript, .typescript, .java] ∧
    looseOperands.every Expr.isOperational = true ∧
    looseOperands.every (Expr.isDistinct Language.java.dialect) = true ∧
    Puts Language.java.dialect (Language.java.dialect.exprPieces looseOperands) looseOperands.lexemes ∧
    ∀ ts, (∀ t ∈ ts, t.isDistinct Language.java.dialect = true) →
      Puts Language.java.dialect (Language.java.dialect.exprPieces looseOperands) ts →
      ∀ x, Derives .disjunction ts x ↔ x = looseOperands := by
  have listed : Language.java ∈ [.python, .javascript, .typescript, .java] := by decide
  have operational : looseOperands.every Expr.isOperational = true := by decide
  have named : looseOperands.every (Expr.isDistinct Language.java.dialect) = true := by decide
  have bare : looseOperands.every Expr.isBare = true := by decide
  obtain ⟨written, only, same, unique⟩ := Language.derives_written_iff listed operational
  refine ⟨listed, operational, named, written, ?_⟩
  intro ts distinct read x
  rw [unique named ts distinct read, only, same bare]

end Interlingua

import Interlingua.Proofs.Syntax.Munch
import Interlingua.Proofs.Syntax.Phrase
import Interlingua.Proofs.Writing.Parentheses
import Interlingua.Writing.Statement

/-!
# Written expressions, token by token

The tokens of a written expression are found again by longest match, with one exception: a numeral
without sign in front of the point of a property takes the point for its fraction. A numeral with a
sign stands in parentheses there.

What is written is a chain of tokens. Each form of an expression joins the chains of its parts, and the
only joint that can fail is the one in front of a point.
-/

namespace Interlingua

open Munch Text

namespace Language

def pythonMarks : List String :=
  ["+", "-", "*", "**", "/", "//", "%", "@", "<<", ">>", "&", "|", "^", "~", ":=", "<", ">", "<=", ">=", "==",
    "!=", "!", "(", ")", "[", "]", "\x7b", "\x7d", ",", ":", ".", "...", ";", "=", "->", "+=", "-=", "*=",
    "/=", "//=", "%=", "@=", "&=", "|=", "^=", ">>=", "<<=", "**="]

def scriptMarks : List String :=
  ["\x7b", "\x7d", "(", ")", "[", "]", ".", "...", ";", ",", "<", ">", "<=", ">=", "==", "!=", "===", "!==",
    "+", "-", "*", "/", "%", "**", "++", "--", "<<", ">>", ">>>", "&", "|", "^", "!", "~", "&&", "||", "??",
    "?", "?.", ":", "=", "+=", "-=", "*=", "/=", "%=", "**=", "<<=", ">>=", ">>>=", "&=", "|=", "^=", "&&=",
    "||=", "??=", "=>"]

def javaMarks : List String :=
  ["(", ")", "\x7b", "\x7d", "[", "]", ";", ",", ".", "...", "@", "::", "=", ">", "<", "!", "~", "?", ":",
    "->", "==", ">=", "<=", "!=", "&&", "||", "++", "--", "+", "-", "*", "/", "&", "|", "^", "%", "<<", ">>",
    ">>>", "+=", "-=", "*=", "/=", "&=", "|=", "^=", "%=", "<<=", ">>=", ">>>="]

/-- The operators and the punctuation of a language with arguments in parentheses. -/
def marks? : Language → Option (List String)
  | python => some pythonMarks
  | javascript => some scriptMarks
  | typescript => some ("@" :: scriptMarks)
  | java => some javaMarks
  | haskell => none

end Language

/-- A dialect with arguments in parentheses whose symbols are tokens. -/
structure Dialect.Lexical (d : Dialect) (marks : List String) : Prop where
  legible : d.Legible
  regular : Regular marks
  symbols : ∀ t ∈ Lexeme.fixed, t.shown d ∈ marks ∨ isIdentifier (t.shown d).toList = true

theorem Language.lexical {l : Language} {marks : List String} (known : l.marks? = some marks) :
    l.dialect.Lexical marks := by
  have written : l ≠ .haskell := by
    rintro rfl
    cases known
  refine ⟨l.legible written, ?_, ?_⟩
  all_goals
    cases l with
    | haskell => cases known
    | _ =>
      cases known
      first | decide | exact ⟨by decide, by decide, by decide⟩

theorem isDigits_toDigits (n : Nat) : isDigits (Nat.toDigits 10 n) = true :=
  isDigits_iff.2 ⟨Nat.toDigits_ne_nil, fun _ => Radix.isDigit_of_mem_toDigits⟩

namespace Piece

/-- The tokens of a piece, and a gap as a blank. A minus in front of digits is a token of its own. -/
def units : Piece → List (List Char)
  | token text =>
    match text.toList with
    | '-' :: cs => if isDigits cs then [['-'], cs] else ['-' :: cs]
    | cs => [cs]
  | gap => [[' ']]
  | note _ => []

/-- The tokens that pieces put in place. -/
def tokens (pieces : List Piece) : List (List Char) :=
  (pieces.flatMap units).filter (· ≠ [' '])

theorem flatten_units (pieces : List Piece) :
    (pieces.flatMap units).flatten = (text pieces).toList := by
  have own : ∀ p : Piece, p.units.flatten = p.inPlace.toList := by
    intro p
    cases p with
    | token text =>
      rw [units, inPlace]
      split
      · rename_i cs shown
        rw [shown]
        split <;> simp
      · simp
    | gap => rfl
    | note text => rfl
  induction pieces with
  | nil => rfl
  | cons p pieces ih =>
    rw [text] at ih
    simp [text, String.join_cons, own, ih]

theorem units_of_alone {text : String} (h : text.toList.head? = some '-' → text.toList.tail = []) :
    units (.token text) = [text.toList] := by
  rw [units]
  split
  · rename_i cs shown
    rw [shown] at h
    obtain rfl : cs = [] := h rfl
    rw [shown]
    rfl
  · rfl

theorem units_of_isIdentifier {text : String} (word : isIdentifier text.toList = true) :
    units (.token text) = [text.toList] := by
  refine units_of_alone fun minus => ?_
  have letter := (isIdentifier_iff.1 word).2 _ (List.mem_of_head? minus)
  cases letter

theorem units_of_isDigits {cs : List Char} (digits : isDigits cs = true) :
    units (.token (String.ofList cs)) = [cs] ∧
      units (.token (String.ofList ('-' :: cs))) = [['-'], cs] := by
  constructor
  · have own : units (.token (String.ofList cs)) = [(String.ofList cs).toList] := by
      refine units_of_alone fun minus => ?_
      rw [String.toList_ofList] at minus
      have digit := (isDigits_iff.1 digits).2 _ (List.mem_of_head? minus)
      cases digit
    rwa [String.toList_ofList] at own
  · rw [units, String.toList_ofList]
    exact if_pos digits

theorem units_int (d : Dialect) (n : Int64) :
    units (.token (d.literal (.int n))) =
      if n < 0 then [['-'], Nat.toDigits 10 n.toInt.natAbs] else [Nat.toDigits 10 n.toInt.natAbs] := by
  obtain ⟨unsigned, signed⟩ := units_of_isDigits (isDigits_toDigits n.toInt.natAbs)
  have sign : n < 0 ↔ n.toInt < 0 := by rw [Int64.lt_iff_toInt_lt, Int64.toInt_zero]
  by_cases negative : n < 0
  · simpa [Dialect.literal, Literal.numeral, Literal.intNumeral, negative, sign.1 negative] using signed
  · simpa [Dialect.literal, Literal.numeral, Literal.intNumeral, negative, mt sign.2 negative]
      using unsigned

end Piece

/-! Chains of tokens. -/

/-- How an expression ends. -/
def Ending (t : List Char) : Prop :=
  t = [')'] ∨ isIdentifier t = true ∨ isDigits t = true

/-- Two texts in a row stay two or, where that is allowed, merge. -/
def Seam (marks : List String) (lenient : Bool) (t u : List Char) : Prop :=
  Stands marks t u ∨ lenient = true ∧ Merges marks t u

/-- Tokens that end like an expression, and whether they are told apart. -/
structure Linked (marks : List String) (lenient : Bool) (us : List (List Char)) (good : Bool) : Prop where
  units : ∀ u ∈ us, u = [' '] ∨ IsUnit marks u
  chain : us.IsChain (Seam marks lenient) ↔ good = true
  ending : ∃ t, us.getLast? = some t ∧ Ending t

namespace Linked

variable {marks : List String} {lenient : Bool}

theorem isChain_gap (us : List (List Char)) :
    ([' '] :: us).IsChain (Seam marks lenient) ↔ us.IsChain (Seam marks lenient) := by
  rw [List.isChain_cons, and_iff_right]
  exact fun _ _ => .inl (.inl rfl)

variable (regular : Regular marks)

include regular

theorem isChain_opening (us : List (List Char)) :
    (['('] :: us).IsChain (Seam marks lenient) ↔ us.IsChain (Seam marks lenient) := by
  rw [List.isChain_cons, and_iff_right]
  exact fun _ _ => .inl (.inr fun c _ => apart_parenthesis regular (.inl rfl) c)

theorem stands_of_ending {t : List Char} (h : Ending t) {c : Char} (other : isWordChar c = false)
    (point : c ≠ '.') (rest : List Char) : Stands marks t (c :: rest) := by
  refine .inr fun d first => ?_
  cases first
  rcases h with rfl | word | digits
  · exact apart_parenthesis regular (.inr rfl) c
  · exact apart_of_isIdentifier regular word other
  · exact apart_of_isDigits regular digits other point

theorem isChain_append {us : List (List Char)} {good : Bool} (h : Linked marks lenient us good) {c : Char}
    (other : isWordChar c = false) (point : c ≠ '.') (rest : List Char) (others : List (List Char)) :
    (us ++ (c :: rest) :: others).IsChain (Seam marks lenient) ↔
      good = true ∧ ((c :: rest) :: others).IsChain (Seam marks lenient) := by
  obtain ⟨t, last, ending⟩ := h.ending
  have seam : Seam marks lenient t (c :: rest) := .inl (stands_of_ending regular ending other point rest)
  rw [List.isChain_append, h.chain, last]
  simp [seam]

/-- Parentheses around an expression or around nothing. -/
theorem isChain_enclosed {us : List (List Char)} {good : Bool}
    (h : us = [] ∧ good = true ∨ Linked marks lenient us good) :
    (['('] :: us ++ [[')']]).IsChain (Seam marks lenient) ↔ good = true := by
  rw [List.cons_append, isChain_opening regular]
  rcases h with ⟨rfl, rfl⟩ | h
  · simp
  · rw [h.isChain_append regular (by decide) (by decide) [] [], and_iff_left (.singleton _)]

variable (opening : "(" ∈ marks) (closing : ")" ∈ marks)

include opening closing

theorem units_enclosed {us : List (List Char)} (h : ∀ u ∈ us, u = [' '] ∨ IsUnit marks u) :
    ∀ u ∈ ['('] :: us ++ [[')']], u = [' '] ∨ IsUnit marks u := by
  rw [List.forall_mem_append, List.forall_mem_cons, List.forall_mem_singleton]
  exact ⟨⟨.inr (isUnit_of_mem regular opening), h⟩, .inr (isUnit_of_mem regular closing)⟩

theorem enclosed {us : List (List Char)} {good : Bool} (h : Linked marks lenient us good) :
    Linked marks lenient (['('] :: us ++ [[')']]) good where
  units := units_enclosed regular opening closing h.units
  chain := isChain_enclosed regular (.inr h)
  ending := ⟨_, List.getLast?_concat, .inl rfl⟩

/-- Arguments behind what is called. -/
theorem arguments {us args : List (List Char)} {good fine : Bool} (h : Linked marks lenient us good)
    (inner : args = [] ∧ fine = true ∨ Linked marks lenient args fine) :
    Linked marks lenient (us ++ (['('] :: args ++ [[')']])) (good && fine) where
  units := by
    have each : ∀ u ∈ args, u = [' '] ∨ IsUnit marks u := by
      rcases inner with ⟨rfl, -⟩ | inner
      · simp
      · exact inner.units
    exact List.forall_mem_append.2 ⟨h.units, units_enclosed regular opening closing each⟩
  chain := by
    rw [List.cons_append, h.isChain_append regular (by decide) (by decide), ← List.cons_append,
      isChain_enclosed regular inner, Bool.and_eq_true]
  ending := by
    rw [← List.append_assoc]
    exact ⟨_, List.getLast?_concat, .inl rfl⟩

omit opening closing

/-- Two expressions with something between them that does not depend on them. -/
theorem separated {us vs : List (List Char)} {good fine : Bool} (h : Linked marks lenient us good)
    (h' : Linked marks lenient vs fine) {c : Char} (other : isWordChar c = false) (point : c ≠ '.')
    {rest : List Char} {between : List (List Char)}
    (units : ∀ u ∈ (c :: rest) :: between, u = [' '] ∨ IsUnit marks u)
    (chain : ((c :: rest) :: between ++ vs).IsChain (Seam marks lenient) ↔
      vs.IsChain (Seam marks lenient)) :
    Linked marks lenient (us ++ ((c :: rest) :: between ++ vs)) (good && fine) where
  units := List.forall_mem_append.2 ⟨h.units, List.forall_mem_append.2 ⟨units, h'.units⟩⟩
  chain := by
    rw [List.cons_append, h.isChain_append regular other point, ← List.cons_append, chain, h'.chain,
      Bool.and_eq_true]
  ending := by
    obtain ⟨t, last, ending⟩ := h'.ending
    exact ⟨t, by simp [List.getLast?_append, List.getLast?_cons, last], ending⟩

/-- A symbol between spaces. -/
theorem infixed {us vs : List (List Char)} {good fine : Bool} (h : Linked marks lenient us good)
    (h' : Linked marks lenient vs fine) {op : List Char} (unit : IsUnit marks op)
    (stands : Stands marks op [' ']) :
    Linked marks lenient (us ++ ([[' '], op, [' ']] ++ vs)) (good && fine) := by
  refine h.separated regular h' (by decide) (by decide) (by simp [unit]) ?_
  have seam : Seam marks lenient op [' '] := .inl stands
  rw [List.cons_append, isChain_gap, List.cons_append, List.cons_append, List.isChain_cons_cons,
    and_iff_right seam, isChain_gap, List.nil_append]

theorem comma {us vs : List (List Char)} {good fine : Bool} (h : Linked marks lenient us good)
    (h' : Linked marks lenient vs fine) (mem : "," ∈ marks) :
    Linked marks lenient (us ++ ([[','], [' ']] ++ vs)) (good && fine) := by
  have unit : IsUnit marks [','] := isUnit_of_mem regular mem
  refine h.separated regular h' (by decide) (by decide) (by simp [unit]) ?_
  have apart : Apart marks [','] ' ' := apart_of_mem regular mem (.inr (by decide))
  have seam : Seam marks lenient [','] [' '] := .inl (.inr fun c first => by cases first; exact apart)
  rw [List.cons_append, List.cons_append, List.isChain_cons_cons, and_iff_right seam, isChain_gap,
    List.nil_append]

/-- A property behind a point: whether the point stays one depends on what stands in front of it. -/
theorem property {us : List (List Char)} {good own : Bool} (h : Linked marks lenient us good)
    (seam : ∀ t, us.getLast? = some t → (Seam marks lenient t ['.'] ↔ own = true)) (mem : "." ∈ marks)
    {id : List Char} (word : isIdentifier id = true) :
    Linked marks lenient (us ++ [['.'], id]) (own && good) where
  units := by
    simp only [List.forall_mem_append, List.forall_mem_cons]
    exact ⟨h.units, .inr (isUnit_of_mem regular mem), .inr (isUnit_of_isIdentifier word),
      List.forall_mem_nil _⟩
  chain := by
    obtain ⟨t, last, -⟩ := h.ending
    have apart : Seam marks lenient ['.'] id := .inl (.inr fun c first =>
      apart_of_mem regular mem (.inl ((isIdentifier_iff.1 word).2 c (List.mem_of_head? first))))
    rw [List.isChain_append, h.chain, last]
    simp [seam t last, apart, and_comm]
  ending := ⟨id, by simp, .inr (.inl word)⟩

end Linked

namespace Expr

/-- Whether an expression itself is an identifier, an integer, a property with such a name, a call of
something else than `print`, or an operation. -/
def isLexical : Expr → Bool
  | name n => isIdentifier n.id.toList
  | const (.int _) _ => true
  | member _ property => isIdentifier property.toList
  | call (name n) _ => n.id ≠ "print"
  | call _ _ | binary _ _ _ | compare _ _ _ => true
  | const _ _ | list _ _ _ | tuple _ _ | unknown _ => false

/-- Whether an expression itself is not a property of a numeral without sign. -/
def isDetached : Expr → Bool
  | member (const (.int n) _) _ => n < 0
  | _ => true

theorem isOperational_of_isLexical {e : Expr} (h : e.isLexical = true) : e.isOperational = true := by
  fun_cases isLexical e <;> simp_all [isLexical, isOperational]

end Expr

namespace Dialect.Lexical

variable {d : Dialect} {marks : List String} (h : d.Lexical marks)

include h

theorem mem_of_shown {t : Lexeme} (mem : t ∈ Lexeme.fixed) {m : String} (shown : t.shown d = m)
    (other : isIdentifier m.toList = false) : m ∈ marks := by
  rcases h.symbols t mem with mark | word
  · exact shown ▸ mark
  · rw [shown, other] at word
    cases word

theorem isUnit_shown {t : Lexeme} (mem : t ∈ Lexeme.fixed) : IsUnit marks (t.shown d).toList := by
  rcases h.symbols t mem with mark | word
  · exact isUnit_of_mem h.regular mark
  · exact isUnit_of_isIdentifier word

theorem stands_shown {t : Lexeme} (mem : t ∈ Lexeme.fixed) : Stands marks (t.shown d).toList [' '] := by
  refine .inr fun c first => ?_
  cases first
  rcases h.symbols t mem with mark | word
  · exact apart_of_mem h.regular mark (.inr (by decide))
  · exact apart_of_isIdentifier h.regular word (by decide)

theorem units_shown {t : Lexeme} (mem : t ∈ Lexeme.fixed) :
    Piece.units (.token (t.shown d)) = [(t.shown d).toList] :=
  Piece.units_of_alone (h.legible.alone t mem)

theorem dot_mem : "." ∈ marks :=
  h.mem_of_shown (t := .dot) (by decide) rfl (by decide)

theorem comma_mem : "," ∈ marks :=
  h.mem_of_shown (t := .comma) (by decide) rfl (by decide)

theorem opening_mem : "(" ∈ marks :=
  h.mem_of_shown (t := .opening) (by decide) rfl (by decide)

theorem closing_mem : ")" ∈ marks :=
  h.mem_of_shown (t := .closing) (by decide) rfl (by decide)

theorem minus_mem : "-" ∈ marks :=
  h.mem_of_shown (t := .operator .sub) (by decide) h.legible.minus (by decide)

variable (lenient : Bool)

theorem linked_int (n : Int64) :
    Linked marks lenient (Piece.units (.token (d.literal (.int n)))) true := by
  have digits := isDigits_toDigits n.toInt.natAbs
  have unit : IsUnit marks (Nat.toDigits 10 n.toInt.natAbs) := isUnit_of_isDigits digits
  have ending : Ending (Nat.toDigits 10 n.toInt.natAbs) := .inr (.inr digits)
  rw [Piece.units_int]
  split
  · refine ⟨?_, ?_, ⟨_, rfl, ending⟩⟩
    · have minus : IsUnit marks ['-'] := isUnit_of_mem h.regular h.minus_mem
      simp [minus, unit]
    · have seam : Seam marks lenient ['-'] (Nat.toDigits 10 n.toInt.natAbs) :=
        .inl (.inr fun c first => apart_of_mem h.regular h.minus_mem
          (.inl (isWordChar_of_isDigit ((isDigits_iff.1 digits).2 c (List.mem_of_head? first)))))
      simpa using seam
  · exact ⟨by simp [unit], by simp, ⟨_, rfl, ending⟩⟩

theorem linked_operand {e : Expr} {pieces : List Piece} {good : Bool}
    (inner : Linked marks lenient (pieces.flatMap Piece.units) good) (least : Nat) :
    Linked marks lenient ((operand least e pieces).flatMap Piece.units) good := by
  by_cases weak : e.strength < least
  · have around := inner.enclosed h.regular h.opening_mem h.closing_mem
    simpa [operand, Piece.group, weak, Piece.units] using around
  · simpa [operand, Piece.group, weak] using inner

omit h in
theorem seam_digits {t : List Char} (digits : isDigits t = true) :
    Seam marks lenient t ['.'] ↔ lenient = true := by
  have unit : IsUnit marks t := isUnit_of_isDigits digits
  have merges : Merges marks t ['.'] := ⟨unit.2, '.', rfl, isToken_point digits⟩
  simp [Seam, merges, merges.not_stands]

theorem seam_point {t : List Char} (ending : t = [')'] ∨ isIdentifier t = true) :
    Seam marks lenient t ['.'] := by
  refine .inl (.inr fun c first => ?_)
  cases first
  rcases ending with rfl | word
  · exact apart_parenthesis h.regular (.inr rfl) '.'
  · exact apart_of_isIdentifier h.regular word (by decide)

/-- What is called stands in its place like any operand. -/
theorem exprPieces_call {callee : Expr} {args : List Expr}
    (own : (Expr.call callee args).isLexical = true) :
    d.exprPieces (.call callee args) =
      operand Expr.atom callee (d.exprPieces callee) ++
        (.token "(" :: d.listedPieces args ++ [.token ")"]) := by
  cases callee with
  | name n =>
    have other : n.id ≠ "print" := by simpa [Expr.isLexical] using own
    simp [exprPieces, functionName, other, h.legible.listed, operand, Piece.group, Expr.strength]
  | _ => simp [exprPieces, h.legible.listed]

theorem seam_of_weak {e : Expr} {pieces : List Piece} {t : List Char}
    (last : ((operand Expr.atom e pieces).flatMap Piece.units).getLast? = some t)
    (weak : e.strength < Expr.atom) : Seam marks lenient t ['.'] := by
  obtain rfl : [')'] = t := by
    simpa [operand, Piece.group, weak, Piece.units, List.getLast?_cons] using last
  exact h.seam_point lenient (.inl rfl)

/-- Whether a point stays one behind an operand. -/
theorem seam_operand {e : Expr} (own : e.isLexical = true) (property : String) {t : List Char}
    (last : ((operand Expr.atom e (d.exprPieces e)).flatMap Piece.units).getLast? = some t) :
    Seam marks lenient t ['.'] ↔ (lenient || (Expr.member e property).isDetached) = true := by
  cases e with
  | name n =>
    have word : isIdentifier n.id.toList = true := own
    obtain rfl : n.id.toList = t := by
      simpa [operand, Piece.group, Expr.strength, exprPieces, Piece.units_of_isIdentifier word] using last
    simp [Expr.isDetached, h.seam_point lenient (.inr word)]
  | const value type =>
    cases value with
    | int n =>
      by_cases negative : n < 0
      · have weak : (Expr.const (.int n) type).strength < Expr.atom := by
          simp [Expr.strength, Literal.isNegative, negative, Expr.atom]
        simp [Expr.isDetached, negative, h.seam_of_weak lenient last weak]
      · obtain rfl : Nat.toDigits 10 n.toInt.natAbs = t := by
          simpa [operand, Piece.group, Expr.strength, Literal.isNegative, negative, exprPieces,
            Piece.units_int] using last
        rw [seam_digits lenient (isDigits_toDigits _)]
        simp [Expr.isDetached, negative]
    | _ => cases own
  | member object property =>
    have word : isIdentifier property.toList = true := own
    obtain rfl : property.toList = t := by
      simpa [operand, Piece.group, Expr.strength, exprPieces, Piece.units_of_isIdentifier word] using last
    simp [Expr.isDetached, h.seam_point lenient (.inr word)]
  | call callee args =>
    rw [h.exprPieces_call own] at last
    obtain rfl : [')'] = t := by
      simpa [operand, Piece.group, Expr.strength, Piece.units, List.getLast?_cons] using last
    simp [Expr.isDetached, h.seam_point lenient (.inl rfl)]
  | binary left op right =>
    have weak : op.strength < Expr.atom := by cases op <;> decide
    simp [Expr.isDetached, h.seam_of_weak lenient last weak]
  | compare left op right =>
    have weak : CompareOp.strength < Expr.atom := by decide
    simp [Expr.isDetached, h.seam_of_weak lenient last weak]
  | _ => cases own

theorem linked_infixed {t : Lexeme} (mem : t ∈ Lexeme.fixed) (left right : Expr) {ps qs : List Piece}
    {good fine : Bool} (first : Linked marks lenient (ps.flatMap Piece.units) good)
    (second : Linked marks lenient (qs.flatMap Piece.units) fine) (m n : Nat) :
    Linked marks lenient
      (List.flatMap Piece.units
        (operand m left ps ++ [.gap, .token (t.shown d), .gap] ++ operand n right qs))
      (good && fine) := by
  have gap : Piece.units .gap = [[' ']] := rfl
  have all := (h.linked_operand lenient (e := left) first m).infixed h.regular
    (h.linked_operand lenient (e := right) second n) (h.isUnit_shown mem) (h.stands_shown mem)
  simpa [h.units_shown mem, gap] using all

mutual

theorem linked (e : Expr) (lexical : e.every Expr.isLexical = true) :
    Linked marks lenient ((d.exprPieces e).flatMap Piece.units)
      (e.every fun x => lenient || x.isDetached) :=
  match e with
  | .call callee args => by
    simp only [Expr.every, Bool.and_eq_true] at lexical
    have front := h.linked_operand lenient (e := callee) (linked callee lexical.1.2) Expr.atom
    have inner : (d.listedPieces args).flatMap Piece.units = [] ∧
          Expr.everyAll (fun x => lenient || x.isDetached) args = true ∨
        Linked marks lenient ((d.listedPieces args).flatMap Piece.units)
          (Expr.everyAll (fun x => lenient || x.isDetached) args) := by
      by_cases none : args = []
      · exact .inl (none ▸ ⟨rfl, rfl⟩)
      · exact .inr (linkedAll args lexical.2 none)
    have all := front.arguments h.regular h.opening_mem h.closing_mem inner
    rw [h.exprPieces_call lexical.1.1]
    simpa [Expr.every, Expr.isDetached, Piece.units] using all
  | .name n => by
    have word : isIdentifier n.id.toList = true := lexical
    have unit : IsUnit marks n.id.toList := isUnit_of_isIdentifier word
    have ending : Ending n.id.toList := .inr (.inl word)
    rw [exprPieces, List.flatMap_singleton, Piece.units_of_isIdentifier word]
    exact ⟨by simp [unit], by simp [Expr.every, Expr.isDetached], ⟨_, rfl, ending⟩⟩
  | .const (.int n) _ => by
    simpa [exprPieces, Expr.every, Expr.isDetached] using h.linked_int lenient n
  | .member object property => by
    simp only [Expr.every, Bool.and_eq_true] at lexical
    have word : isIdentifier property.toList = true := lexical.1
    have point : Piece.units (.token ".") = [['.']] := by decide
    have own := h.linked_operand lenient (e := object) (linked object lexical.2) Expr.atom
    have all := own.property h.regular
      (fun t last => h.seam_operand lenient (Expr.every_self lexical.2) property last) h.dot_mem word
    simpa [exprPieces, h.legible.link, Expr.every, Piece.units_of_isIdentifier word, point] using all
  | .binary left op right => by
    simp only [Expr.every, Bool.and_eq_true] at lexical
    have mem : Lexeme.operator op ∈ Lexeme.fixed := by cases op <;> decide
    have all := h.linked_infixed lenient mem left right (linked left lexical.1.2)
      (linked right lexical.2) op.strength (op.strength + 1)
    simpa [exprPieces, Expr.every, Expr.isDetached, Lexeme.shown] using all
  | .compare left op right => by
    simp only [Expr.every, Bool.and_eq_true] at lexical
    have mem : Lexeme.comparison op ∈ Lexeme.fixed := by cases op <;> decide
    have all := h.linked_infixed lenient mem left right (linked left lexical.1.2)
      (linked right lexical.2) (CompareOp.strength + 1) (CompareOp.strength + 1)
    simpa [exprPieces, Expr.every, Expr.isDetached, Lexeme.shown] using all
  | .const (.str _) _ | .const (.float _) _ | .const (.bool _) _ | .const .null _ | .list _ _ _
  | .tuple _ _ | .unknown _ => by simp [Expr.every, Expr.isLexical] at lexical

theorem linkedAll (es : List Expr) (lexical : Expr.everyAll Expr.isLexical es = true)
    (some : es ≠ []) :
    Linked marks lenient ((d.listedPieces es).flatMap Piece.units)
      (Expr.everyAll (fun x => lenient || x.isDetached) es) :=
  match es with
  | [] => absurd rfl some
  | [e] => by
    simp only [Expr.everyAll, Bool.and_true] at lexical
    simpa [listedPieces, Expr.everyAll] using linked e lexical
  | e :: next :: rest => by
    simp only [Expr.everyAll, Bool.and_eq_true] at lexical
    have tail := linkedAll (next :: rest) (by simp [Expr.everyAll, lexical.2]) (List.cons_ne_nil _ _)
    have all := (linked e lexical.1).comma h.regular tail h.comma_mem
    simpa [listedPieces, Expr.everyAll, Piece.units] using all

end

end Dialect.Lexical

theorem Puts.write_eq {d : Dialect} {ps : List Piece} {ts : List Lexeme} (h : Puts d ps ts) (s : Sheet) :
    s.write ps = s.push (Piece.text ps) := by
  induction h generalizing s with
  | nil => simp [Sheet.write, Piece.text]
  | gap _ ih =>
    have later := ih (s.push " ")
    simp_all [Sheet.write, Sheet.put, Piece.text, Piece.inPlace]
  | token t _ ih =>
    have later := ih (s.push (t.shown d))
    simp_all [Sheet.write, Sheet.put, Piece.text, Piece.inPlace]
  | signed size _ ih =>
    have later := ih (s.push ((Lexeme.operator .sub).shown d ++ (Lexeme.number size).shown d))
    simp_all [Sheet.write, Sheet.put, Piece.text, Piece.inPlace]

namespace Language

variable {l : Language} {marks : List String}

theorem renderFragment_eq_text (known : l.marks? = some marks) {e : Expr}
    (lexical : e.every Expr.isLexical = true) (mode : RecordMode) :
    l.dialect.renderFragment mode (.expr e) = Piece.text (l.dialect.exprPieces e) := by
  have operational : e.every Expr.isOperational = true :=
    Expr.every_mono (fun _ own => Expr.isOperational_of_isLexical (Expr.every_self own)) e lexical
  have written := (Expr.puts_lexemes (Language.lexical known).legible e operational).write_eq {}
  rw [Dialect.renderFragment, written]
  simp [Sheet.flush, Sheet.push, String.join]

/-- The tokens that are written for an expression are those found in its text, unless a property is
taken of a numeral without sign. -/
theorem lex_renderFragment_iff (known : l.marks? = some marks) {e : Expr}
    (lexical : e.every Expr.isLexical = true) (mode : RecordMode) :
    lex marks (l.dialect.renderFragment mode (.expr e)).toList =
        some (Piece.tokens (l.dialect.exprPieces e)) ↔
      e.every Expr.isDetached = true := by
  -- the lenient chain always holds: whatever does not stand apart merges
  have lax := (Language.lexical known).linked true e lexical
  have strict := (Language.lexical known).linked false e lexical
  have either : Seam marks true = fun t u => Stands marks t u ∨ Merges marks t u := by
    funext t u
    simp [Seam]
  have only : Seam marks false = Stands marks := by
    funext t u
    simp [Seam]
  have seams := lax.chain.2 (Expr.every_mono (fun _ _ => rfl) e lexical)
  have chain := strict.chain
  rw [either] at seams
  simp only [only, Bool.false_or] at chain
  rw [renderFragment_eq_text known lexical, ← Piece.flatten_units, Piece.tokens,
    lex_flatten_iff lax.units seams, chain]

/-- `f((-1).x, n)(a - 2)` -/
def signedProperty : Expr :=
  .call (.call (.load "f") [.member (.lit (.int (-1))) "x", .load "n"])
    [.binary (.load "a") .sub (.lit (.int 2))]

theorem lex_renderFragment_signedProperty :
    signedProperty.every Expr.isLexical = true ∧ signedProperty.every Expr.isDetached = true ∧
    lex pythonMarks (Language.python.dialect.renderFragment .inline (.expr signedProperty)).toList =
      some (["f", "(", "(", "-", "1", ")", ".", "x", ",", "n", ")", "(", "a", "-", "2", ")"].map
        String.toList) := by
  have tokens : Piece.tokens (Language.python.dialect.exprPieces signedProperty) =
      ["f", "(", "(", "-", "1", ")", ".", "x", ",", "n", ")", "(", "a", "-", "2", ")"].map
        String.toList := by decide +kernel
  have found := (lex_renderFragment_iff (l := .python) rfl (e := signedProperty) (by decide) .inline).2
    (by decide)
  rw [tokens] at found
  exact ⟨by decide, by decide, found⟩

/-- `1.x` -/
def numeralProperty : Expr :=
  .member (.lit (.int 1)) "x"

/-- Two tokens are found where three are written. -/
theorem lex_renderFragment_numeralProperty :
    numeralProperty.every Expr.isLexical = true ∧
    Language.python.dialect.renderFragment .inline (.expr numeralProperty) = "1.x" ∧
    Piece.tokens (Language.python.dialect.exprPieces numeralProperty) = [['1'], ['.'], ['x']] ∧
    lex pythonMarks "1.x".toList = some [['1', '.'], ['x']] := by
  decide +kernel

end Language

end Interlingua

import Interlingua.Language
import Interlingua.Proofs.Program.Everywhere
import Interlingua.Writing.Expression
import Interlingua.Writing.Sheet

/-!
# Expressions as they are written

A phrase is an expression on a line: parentheses are part of it, and types are not. Every modelled
expression has a phrase in each of the two languages that cannot spell types, and writing the
expression gives the text of the phrase.
-/

namespace Interlingua

/-- The languages that are read as well as written and cannot spell types. -/
inductive Untyped where
  | python
  | javascript
  deriving DecidableEq

namespace Untyped

def language : Untyped → Language
  | python => .python
  | javascript => .javascript

def dialect (u : Untyped) : Dialect :=
  u.language.dialect

end Untyped

inductive Phrase where
  | name (id : String)
  | literal (value : Literal)
  | paren (inner : Phrase)
  | member (object : Phrase) (property : String)
  | call (callee : Phrase) (args : List Phrase)
  | binary (left : Phrase) (op : BinaryOp) (right : Phrase)
  | compare (left : Phrase) (op : CompareOp) (right : Phrase)
  | list (elements : List Phrase)
  | tuple (elements : List Phrase)

/-- Texts with commas between them. -/
def commas (texts : List (List Char)) : List Char :=
  [',', ' '].intercalate texts

namespace Phrase

section

variable (u : Untyped)

mutual

def text : Phrase → List Char
  | name id => id.toList
  | literal value => (u.dialect.literal value).toList
  | paren inner => '(' :: text inner ++ [')']
  | member object property => text object ++ '.' :: property.toList
  | call callee args => text callee ++ '(' :: commas (texts args) ++ [')']
  | binary left op right =>
    text left ++ ' ' :: (u.dialect.binarySymbol op).toList ++ ' ' :: text right
  | compare left op right =>
    text left ++ ' ' :: (u.dialect.compareSymbol op).toList ++ ' ' :: text right
  | list elements => '[' :: commas (texts elements) ++ [']']
  | tuple elements =>
    '(' :: commas (texts elements) ++ if elements.length = 1 then [',', ')'] else [')']

def texts : List Phrase → List (List Char)
  | [] => []
  | e :: es => text e :: texts es

end

end

/-- Binding strength: the higher binds tighter. -/
def strength : Phrase → Nat
  | binary _ op _ => op.strength
  | compare _ _ _ => CompareOp.strength
  | literal value => if value.isNegative then 6 else Expr.atom
  | _ => Expr.atom

/-- The phrase in a place that asks for a binding strength. -/
def atLeast (least : Nat) (e : Phrase) : Phrase :=
  if e.strength < least then paren e else e

end Phrase

namespace Untyped

/-- The function that prints. -/
def printer : Untyped → Phrase
  | python => .name "print"
  | javascript => .member (.name "console") "log"

/-- A function that is called by its name. -/
def named (u : Untyped) (id : String) : Phrase :=
  if id = "print" then u.printer else .name id

/-- What is called, given its phrase as an expression. -/
def calleePhrase (u : Untyped) (callee : Expr) (own : Phrase) : Phrase :=
  match callee with
  | .name n => u.named n.id
  | _ => own.atLeast Expr.atom

/-- Only in Python do tuples differ from lists. -/
def tuplePhrase : Untyped → List Phrase → Phrase
  | python => .tuple
  | javascript => .list

section

variable (u : Untyped)

mutual

/-- The phrase of a modelled expression. -/
def phrase : Expr → Phrase
  | .call callee args =>
    .call (u.calleePhrase callee (phrase callee)) (phrases args)
  | .name n => .name n.id
  | .const value _ => .literal value
  | .member object property => .member ((phrase object).atLeast Expr.atom) property
  | .binary left op right =>
    .binary ((phrase left).atLeast op.strength) op ((phrase right).atLeast (op.strength + 1))
  | .compare left op right =>
    .compare ((phrase left).atLeast (CompareOp.strength + 1)) op
      ((phrase right).atLeast (CompareOp.strength + 1))
  | .list elements _ _ => .list (phrases elements)
  | .tuple elements _ => u.tuplePhrase (phrases elements)
  | .unknown _ => .literal .null

def phrases : List Expr → List Phrase
  | [] => []
  | e :: es => phrase e :: phrases es

end

end

end Untyped

/-- Whether the expression itself is modelled. -/
def Expr.isModelled : Expr → Bool
  | .unknown _ => false
  | _ => true

theorem Phrase.texts_eq_map (u : Untyped) (es : List Phrase) :
    Phrase.texts u es = es.map (Phrase.text u) := by
  induction es with
  | nil => rfl
  | cons e es ih => simp [Phrase.texts, ih]

theorem Untyped.phrases_eq_map (u : Untyped) (es : List Expr) :
    u.phrases es = es.map u.phrase := by
  induction es with
  | nil => rfl
  | cons e es ih => simp [Untyped.phrases, ih]

theorem Untyped.strength_phrase (u : Untyped) (e : Expr) (h : e.isModelled = true) :
    (u.phrase e).strength = e.strength := by
  cases e with
  | tuple elements types => cases u <;> rfl
  | unknown description => cases h
  | _ => rfl

namespace Sheet

@[simp] theorem push_push (s : Sheet) (a b : String) : (s.push a).push b = s.push (a ++ b) := by
  simp [push, String.append_assoc]

@[simp] theorem push_empty (s : Sheet) : s.push "" = s := by
  simp [push]

end Sheet

/-- Pieces that put a text in place, whatever the sheet, and owe nothing to the end of the line. -/
structure Spells (pieces : List Piece) (text : List Char) : Prop where
  text_eq : Piece.text pieces = String.ofList text
  write_eq : ∀ s : Sheet, s.write pieces = s.push (String.ofList text)

namespace Spells

theorem nil : Spells [] [] :=
  ⟨rfl, fun s => by simp [Sheet.write]⟩

theorem token (text : String) : Spells [.token text] text.toList :=
  ⟨by simp [Piece.text, Piece.inPlace], fun s => by simp [Sheet.write, Sheet.put]⟩

theorem gap : Spells [.gap] [' '] :=
  ⟨rfl, fun _ => rfl⟩

theorem append {a b : List Piece} {s t : List Char} (ha : Spells a s) (hb : Spells b t) :
    Spells (a ++ b) (s ++ t) where
  text_eq := by
    have first := ha.text_eq
    have second := hb.text_eq
    simp_all [Piece.text, String.join_append, String.ofList_append]
  write_eq sheet := by
    have first := ha.write_eq sheet
    have second := hb.write_eq (sheet.push (String.ofList s))
    simp_all [Sheet.write, String.ofList_append]

theorem cons {p : Piece} {b : List Piece} {s t : List Char} (hp : Spells [p] s)
    (hb : Spells b t) : Spells (p :: b) (s ++ t) :=
  hp.append hb

theorem group {pieces : List Piece} {e : Phrase} {u : Untyped} (h : Spells pieces (e.text u))
    (least : Nat) : Spells (Piece.group (e.strength < least) pieces) ((e.atLeast least).text u) := by
  by_cases weak : e.strength < least
  · have inner := ((token "(").append h).append (token ")")
    simpa [Piece.group, Phrase.atLeast, Phrase.text, weak] using inner
  · simpa [Piece.group, Phrase.atLeast, weak] using h

end Spells

namespace Untyped

variable (u : Untyped)

theorem application : u.dialect.application = .listed := by
  cases u <;> rfl

theorem memberLink : u.dialect.memberLink = "." := by
  cases u <;> rfl

theorem listOpen (element : BaseType) : u.dialect.listOpen element = [.token "["] := by
  cases u <;> rfl

theorem listClose : u.dialect.listClose = "]" := by
  cases u <;> rfl

theorem spells_named (id : String) :
    Spells [.token (u.dialect.functionName id)] ((u.named id).text u) := by
  have name : (u.dialect.functionName id).toList = (u.named id).text u := by
    rw [Dialect.functionName, named]
    split
    · cases u <;> rfl
    · rfl
  exact name ▸ Spells.token _

mutual

theorem spells_phrase (e : Expr) (h : e.every Expr.isModelled = true) :
    Spells (u.dialect.exprPieces e) ((u.phrase e).text u) :=
  match e with
  | .call callee args => by
    simp only [Expr.every, Bool.and_eq_true] at h
    have front := spells_callee callee h.1.2
    have all := front.append
      (((Spells.token "(").append (spells_phrases args h.2)).append (Spells.token ")"))
    cases callee <;> simpa [Dialect.exprPieces, application, phrase, Phrase.text] using all
  | .name n => Spells.token n.id
  | .const value _ => Spells.token _
  | .member object property => by
    simp only [Expr.every, Bool.and_eq_true] at h
    have own := spells_operand object h.2 Expr.atom
    have all := own.append ((Spells.token u.dialect.memberLink).append (Spells.token property))
    simpa [Dialect.exprPieces, phrase, Phrase.text, memberLink] using all
  | .binary left op right => by
    simp only [Expr.every, Bool.and_eq_true] at h
    have middle := (Spells.gap.append (Spells.token (u.dialect.binarySymbol op))).append Spells.gap
    have all := ((spells_operand left h.1.2 op.strength).append middle).append
      (spells_operand right h.2 (op.strength + 1))
    simpa [Dialect.exprPieces, phrase, Phrase.text] using all
  | .compare left op right => by
    simp only [Expr.every, Bool.and_eq_true] at h
    have middle := (Spells.gap.append (Spells.token (u.dialect.compareSymbol op))).append Spells.gap
    have all := ((spells_operand left h.1.2 (CompareOp.strength + 1)).append middle).append
      (spells_operand right h.2 (CompareOp.strength + 1))
    simpa [Dialect.exprPieces, phrase, Phrase.text] using all
  | .list elements element homogeneous => by
    simp only [Expr.every, Bool.and_eq_true] at h
    have all := ((Spells.token "[").append (spells_phrases elements h.2)).append (Spells.token "]")
    simpa [Dialect.exprPieces, phrase, Phrase.text, listOpen, listClose] using all
  | .tuple elements types => by
    simp only [Expr.every, Bool.and_eq_true] at h
    have inner := spells_phrases elements h.2
    cases u with
    | python =>
      have close : (if elements.length = 1 then ",)" else ")").toList =
          if (phrases .python elements).length = 1 then [',', ')'] else [')'] := by
        simp [phrases_eq_map, apply_ite String.toList]
      exact ((Spells.token "(").append inner).append (close ▸ Spells.token _)
    | javascript => exact ((Spells.token "[").append inner).append (Spells.token "]")
  | .unknown description => by cases h

theorem spells_callee (callee : Expr) (h : callee.every Expr.isModelled = true) :
    Spells (match callee with
      | .name n => [.token (u.dialect.functionName n.id)]
      | _ => Dialect.operand Expr.atom callee (u.dialect.exprPieces callee))
      ((u.calleePhrase callee (u.phrase callee)).text u) := by
  have own := spells_operand callee h Expr.atom
  cases callee with
  | name n => exact spells_named u n.id
  | _ => exact own

theorem spells_operand (e : Expr) (h : e.every Expr.isModelled = true) (least : Nat) :
    Spells (Dialect.operand least e (u.dialect.exprPieces e)) (((u.phrase e).atLeast least).text u) := by
  rw [Dialect.operand, ← strength_phrase u e (Expr.every_self h)]
  exact (spells_phrase e h).group least

theorem spells_phrases (es : List Expr) (h : Expr.everyAll Expr.isModelled es = true) :
    Spells (u.dialect.listedPieces es) (commas (Phrase.texts u (u.phrases es))) :=
  match es with
  | [] => Spells.nil
  | [e] => by
    simp only [Expr.everyAll, Bool.and_true] at h
    simpa [Dialect.listedPieces, phrases, Phrase.texts, commas] using spells_phrase e h
  | e :: next :: rest => by
    simp only [Expr.everyAll, Bool.and_eq_true] at h
    have tail := spells_phrases (next :: rest) (by simp [Expr.everyAll, h.2])
    have all := (spells_phrase e h.1).append ((Spells.token ",").append (Spells.gap.append tail))
    simpa [Dialect.listedPieces, phrases, Phrase.texts, commas] using all

end

end Untyped

end Interlingua

import Interlingua.Dialect.Applicative
import Interlingua.Proofs.Program.Everywhere
import Interlingua.Proofs.Syntax.Phrase
import Interlingua.Writing.Statement

/-!
# Applications without commas

Where arguments follow their function one by one, the text of an application is a row of chunks with
spaces between them. A chunk is a word or a row in parentheses, with the properties that are taken of
it. The text tells exactly which chunks an expression has. Chunks tell the expression as long as no
property is taken of a call: a call is not put in parentheses there, so that its last argument gets the
property.
-/

namespace Interlingua

/-- What stands between two spaces. -/
inductive Chunk where
  | word (id : String) (properties : List String)
  | group (row : List Chunk) (properties : List String)

namespace Chunk

/-- The properties that are taken one of the other. -/
def suffix (properties : List String) : List Char :=
  properties.flatMap fun property => '_' :: property.toList

mutual

def text : Chunk → List Char
  | word id properties => id.toList ++ suffix properties
  | group row properties => '(' :: rowText row ++ ')' :: suffix properties

/-- Chunks with spaces between them. -/
def rowText : List Chunk → List Char
  | [] => []
  | chunk :: row => text chunk ++ restText row

/-- Chunks, each after a space. -/
def restText : List Chunk → List Char
  | [] => []
  | chunk :: row => ' ' :: text chunk ++ restText row

end

def extend (property : String) : Chunk → Chunk
  | word id properties => word id (properties ++ [property])
  | group row properties => group row (properties ++ [property])

/-- Take a property of the last chunk. -/
def extendLast (property : String) : List Chunk → List Chunk
  | [] => []
  | [chunk] => [chunk.extend property]
  | chunk :: next :: row => chunk :: extendLast property (next :: row)

/-- The characters that separate words. -/
def marks : List Char :=
  [' ', '(', ')', '_']

/-- Whether a text is not empty and has no mark in it: letters and digits, among others. -/
def isUnmarked (s : String) : Bool :=
  !s.toList.isEmpty && s.toList.all (· ∉ marks)

mutual

def unmarked : Chunk → Bool
  | word id properties => isUnmarked id && properties.all isUnmarked
  | group row properties => unmarkedAll row && properties.all isUnmarked

def unmarkedAll : List Chunk → Bool
  | [] => true
  | chunk :: row => unmarked chunk && unmarkedAll row

end

/-! The text of chunks tells which they are. -/

/-- A text is at its end or goes on with one of these characters. -/
def Stops (stops rest : List Char) : Prop :=
  ∀ c, rest.head? = some c → c ∈ stops

/-- What can follow a chunk. -/
def ends : List Char :=
  [' ', ')']

theorem ends_subset_marks : ends ⊆ marks := by
  simp [ends, marks]

theorem closing_subset_ends : [')'] ⊆ ends := by
  simp [ends]

theorem stops_cons {stops : List Char} {c : Char} (h : c ∈ stops) (rest : List Char) :
    Stops stops (c :: rest) := by
  rintro d ⟨⟩
  exact h

theorem Stops.mono {stops more rest : List Char} (h : Stops stops rest) (le : stops ⊆ more) :
    Stops more rest :=
  fun c first => le (h c first)

theorem unmarked_iff {id : String} :
    isUnmarked id = true ↔ id.toList ≠ [] ∧ ∀ c ∈ id.toList, c ∉ marks := by
  simp [isUnmarked]

theorem word_append_inj {u v r s : List Char} (hu : ∀ c ∈ u, c ∉ marks) (hv : ∀ c ∈ v, c ∉ marks)
    (hr : Stops marks r) (hs : Stops marks s) (same : u ++ r = v ++ s) : u = v ∧ r = s := by
  induction u generalizing v with
  | nil =>
    cases v with
    | nil => exact ⟨rfl, same⟩
    | cons c v =>
      have first : c ∈ marks := hr c (by rw [← List.nil_append r, same]; rfl)
      exact absurd first (hv c List.mem_cons_self)
  | cons c u ih =>
    cases v with
    | nil =>
      have first : c ∈ marks := hs c (by rw [← List.nil_append s, ← same]; rfl)
      exact absurd first (hu c List.mem_cons_self)
    | cons d v =>
      obtain ⟨rfl, tails⟩ := List.cons.inj same
      obtain ⟨rfl, rests⟩ := ih (fun x mem => hu x (List.mem_cons_of_mem _ mem))
        (fun x mem => hv x (List.mem_cons_of_mem _ mem)) tails
      exact ⟨rfl, rests⟩

theorem stops_suffix (properties : List String) {r : List Char} (hr : Stops ends r) :
    Stops marks (suffix properties ++ r) := by
  cases properties with
  | nil => exact hr.mono ends_subset_marks
  | cons property properties => exact stops_cons (by decide) _

theorem suffix_append_inj {ps qs : List String} (hp : ps.all isUnmarked = true)
    (hq : qs.all isUnmarked = true) {r s : List Char} (hr : Stops ends r) (hs : Stops ends s)
    (same : suffix ps ++ r = suffix qs ++ s) : ps = qs ∧ r = s := by
  have other : '_' ∉ ends := by decide
  induction ps generalizing qs with
  | nil =>
    cases qs with
    | nil => exact ⟨rfl, same⟩
    | cons q qs => exact absurd (hr '_' (by rw [← List.nil_append r]; exact same ▸ rfl)) other
  | cons p ps ih =>
    cases qs with
    | nil => exact absurd (hs '_' (by rw [← List.nil_append s]; exact same ▸ rfl)) other
    | cons q qs =>
      simp only [List.all_cons, Bool.and_eq_true] at hp hq
      simp only [suffix, List.flatMap_cons, List.cons_append, List.append_assoc, List.cons.injEq,
        true_and] at same
      obtain ⟨word, tails⟩ := word_append_inj (unmarked_iff.1 hp.1).2 (unmarked_iff.1 hq.1).2
        (stops_suffix ps hr) (stops_suffix qs hs) same
      obtain ⟨rfl, rests⟩ := ih hp.2 hq.2 tails
      exact ⟨by rw [String.toList_inj.1 word], rests⟩

theorem word_text_ne_group_text {id : String} (h : isUnmarked id = true) (ps qs : List String)
    (row : List Chunk) (r s : List Char) : (word id ps).text ++ r ≠ (group row qs).text ++ s := by
  intro same
  obtain ⟨c, rest, shown⟩ := List.exists_cons_of_ne_nil (unmarked_iff.1 h).1
  have first : c ∉ marks := (unmarked_iff.1 h).2 c (by rw [shown]; exact List.mem_cons_self)
  rw [text, text, shown] at same
  rw [(List.cons.inj same).1] at first
  exact absurd first (by decide)

/-- A row starts neither with a space nor with its end. -/
theorem not_stops_rowText {x : Chunk} (h : x.unmarked = true) (xs : List Chunk) (r : List Char) :
    ¬ Stops ends (rowText (x :: xs) ++ r) := by
  intro stops
  cases x with
  | word id properties =>
    simp only [unmarked, Bool.and_eq_true, unmarked_iff] at h
    obtain ⟨c, rest, shown⟩ := List.exists_cons_of_ne_nil h.1.1
    have first : c ∉ marks := h.1.2 c (by rw [shown]; exact List.mem_cons_self)
    exact first (ends_subset_marks (stops c (by rw [rowText, text, shown]; rfl)))
  | group row properties => exact absurd (stops '(' rfl) (by decide)

theorem stops_restText (xs : List Chunk) {r : List Char} (hr : Stops [')'] r) :
    Stops ends (restText xs ++ r) := by
  cases xs with
  | nil => exact hr.mono closing_subset_ends
  | cons x xs => exact stops_cons (by decide) _

mutual

theorem text_append_inj (x y : Chunk) (hx : x.unmarked = true) (hy : y.unmarked = true)
    {r s : List Char} (hr : Stops ends r) (hs : Stops ends s) (same : x.text ++ r = y.text ++ s) :
    x = y ∧ r = s :=
  match x, y with
  | word id ps, word id' qs => by
    simp only [unmarked, Bool.and_eq_true, unmarked_iff] at hx hy
    simp only [text, List.append_assoc] at same
    obtain ⟨word, tails⟩ := word_append_inj hx.1.2 hy.1.2 (stops_suffix ps hr) (stops_suffix qs hs) same
    obtain ⟨rfl, rests⟩ := suffix_append_inj hx.2 hy.2 hr hs tails
    exact ⟨by rw [String.toList_inj.1 word], rests⟩
  | word id ps, group row qs => by
    simp only [unmarked, Bool.and_eq_true] at hx
    exact absurd same (word_text_ne_group_text hx.1 ps qs row r s)
  | group row ps, word id qs => by
    simp only [unmarked, Bool.and_eq_true] at hy
    exact absurd same.symm (word_text_ne_group_text hy.1 qs ps row s r)
  | group row ps, group row' qs => by
    simp only [unmarked, Bool.and_eq_true] at hx hy
    simp only [text, List.append_assoc, List.cons_append, List.cons.injEq, true_and] at same
    obtain ⟨rfl, tails⟩ := rowText_append_inj row row' hx.1 hy.1 (stops_cons (by decide) _)
      (stops_cons (by decide) _) same
    obtain ⟨rfl, rests⟩ := suffix_append_inj hx.2 hy.2 hr hs (List.cons.inj tails).2
    exact ⟨rfl, rests⟩

theorem rowText_append_inj (xs ys : List Chunk) (hx : unmarkedAll xs = true)
    (hy : unmarkedAll ys = true) {r s : List Char} (hr : Stops [')'] r) (hs : Stops [')'] s)
    (same : rowText xs ++ r = rowText ys ++ s) : xs = ys ∧ r = s :=
  match xs, ys with
  | [], [] => ⟨rfl, same⟩
  | [], y :: ys => by
    simp only [unmarkedAll, Bool.and_eq_true] at hy
    rw [show r = rowText (y :: ys) ++ s from same] at hr
    exact absurd (hr.mono closing_subset_ends) (not_stops_rowText hy.1 ys s)
  | x :: xs, [] => by
    simp only [unmarkedAll, Bool.and_eq_true] at hx
    rw [show s = rowText (x :: xs) ++ r from same.symm] at hs
    exact absurd (hs.mono closing_subset_ends) (not_stops_rowText hx.1 xs r)
  | x :: xs, y :: ys => by
    simp only [unmarkedAll, Bool.and_eq_true] at hx hy
    simp only [rowText, List.append_assoc] at same
    obtain ⟨rfl, tails⟩ := text_append_inj x y hx.1 hy.1 (stops_restText xs hr) (stops_restText ys hs)
      same
    match xs, ys with
    | [], [] => exact ⟨rfl, tails⟩
    | [], y' :: ys => exact absurd (hr ' ' (by rw [← List.nil_append r]; exact tails ▸ rfl)) (by decide)
    | x' :: xs, [] => exact absurd (hs ' ' (by rw [← List.nil_append s]; exact tails ▸ rfl)) (by decide)
    | x' :: xs, y' :: ys =>
      obtain ⟨others, rests⟩ := rowText_append_inj (x' :: xs) (y' :: ys) hx.2 hy.2 hr hs
        (List.cons.inj tails).2
      exact ⟨by rw [others], rests⟩

end

/-! Rows that are put together. -/

theorem restText_append (xs ys : List Chunk) : restText (xs ++ ys) = restText xs ++ restText ys := by
  induction xs with
  | nil => rfl
  | cons x xs ih => simp [restText, ih]

theorem rowText_append {xs : List Chunk} (some : xs ≠ []) (ys : List Chunk) :
    rowText (xs ++ ys) = rowText xs ++ restText ys := by
  cases xs with
  | nil => exact absurd rfl some
  | cons x xs => simp [rowText, restText_append]

theorem restText_eq {xs : List Chunk} (some : xs ≠ []) : restText xs = ' ' :: rowText xs := by
  cases xs with
  | nil => exact absurd rfl some
  | cons x xs => rfl

theorem text_extend (property : String) (x : Chunk) :
    (x.extend property).text = x.text ++ '_' :: property.toList := by
  cases x <;> simp [extend, text, suffix]

theorem extendLast_ne_nil (property : String) {xs : List Chunk} (some : xs ≠ []) :
    extendLast property xs ≠ [] := by
  fun_cases extendLast property xs <;> simp_all

theorem rowText_extendLast (property : String) {xs : List Chunk} (some : xs ≠ []) :
    rowText (extendLast property xs) = rowText xs ++ '_' :: property.toList := by
  fun_induction extendLast property xs with
  | case1 => exact absurd rfl some
  | case2 x => simp [rowText, restText, text_extend]
  | case3 x next row ih =>
    have more : next :: row ≠ [] := List.cons_ne_nil next row
    rw [rowText, rowText, restText_eq (extendLast_ne_nil property more), restText_eq more, ih more]
    simp

theorem unmarkedAll_append (xs ys : List Chunk) :
    unmarkedAll (xs ++ ys) = (unmarkedAll xs && unmarkedAll ys) := by
  induction xs with
  | nil => rfl
  | cons x xs ih => simp [unmarkedAll, ih, Bool.and_assoc]

theorem unmarkedAll_extendLast {property : String} (h : isUnmarked property = true) {xs : List Chunk}
    (all : unmarkedAll xs = true) : unmarkedAll (extendLast property xs) = true := by
  fun_induction extendLast property xs with
  | case1 => rfl
  | case2 x => cases x <;> simp_all [unmarkedAll, unmarked, extend]
  | case3 x next row ih =>
    rw [unmarkedAll, Bool.and_eq_true] at all ⊢
    exact ⟨all.1, ih all.2⟩

end Chunk

namespace Expr

open Chunk Dialect

/-- The chunks of an argument, which are a single one in parentheses if it is an application. -/
def argument (e : Expr) (row : List Chunk) : List Chunk :=
  if isCompound e then [.group row []] else row

mutual

/-- The chunks of an expression. -/
def chunks : Expr → List Chunk
  | call callee args => argument callee (chunks callee) ++ chunksAll args
  | name n => [.word n.id []]
  | member object property => extendLast property (chunks object)
  | _ => []

def chunksAll : List Expr → List Chunk
  | [] => []
  | e :: es => argument e (chunks e) ++ chunksAll es

end

/-- Whether an expression itself is a name that is read, a property or a call with arguments, and its
name or property has no mark in it. A function of the name `print` is called by another name. -/
def isApplicative : Expr → Bool
  | name n => n.role = .load && n.id ≠ "print" && isUnmarked n.id
  | member _ property => isUnmarked property
  | call _ args => !args.isEmpty
  | _ => false

/-- Whether an expression itself does not take a property of a call. -/
def takesNoResult : Expr → Bool
  | member (call _ _) _ => false
  | _ => true

theorem strength_of_isApplicative {e : Expr} (h : e.isApplicative = true) : e.strength = atom := by
  cases e <;> simp_all [isApplicative, strength]

theorem isCompound_eq {e : Expr} (h : e.isApplicative = true) :
    isCompound e = true ↔ ∃ callee args, e = call callee args := by
  cases e <;> simp_all [isApplicative, isCompound, strength]

theorem argument_ne_nil (e : Expr) {row : List Chunk} (some : row ≠ []) : argument e row ≠ [] := by
  unfold argument
  split <;> simp [some]

theorem chunks_ne_nil (e : Expr) (h : e.every isApplicative = true) : e.chunks ≠ [] :=
  match e with
  | call callee args => by
    simp only [every, Bool.and_eq_true] at h
    simp [chunks, argument_ne_nil callee (chunks_ne_nil callee h.1.2)]
  | name n => by simp [chunks]
  | member object property => by
    simp only [every, Bool.and_eq_true] at h
    exact extendLast_ne_nil property (chunks_ne_nil object h.2)
  | const _ _ | binary _ _ _ | compare _ _ _ | list _ _ _ | tuple _ _ | unknown _ => by
    simp [every, isApplicative] at h

theorem unmarkedAll_argument (e : Expr) {row : List Chunk} (h : unmarkedAll row = true) :
    unmarkedAll (argument e row) = true := by
  unfold argument
  split <;> simp [unmarkedAll, unmarked, h]

mutual

theorem unmarkedAll_chunks (e : Expr) (h : e.every isApplicative = true) :
    unmarkedAll e.chunks = true :=
  match e with
  | call callee args => by
    simp only [every, Bool.and_eq_true] at h
    rw [chunks, unmarkedAll_append, unmarkedAll_argument callee (unmarkedAll_chunks callee h.1.2),
      unmarkedAll_chunksAll args h.2]
    rfl
  | name n => by
    simp only [every, isApplicative, Bool.and_eq_true] at h
    simp [chunks, unmarkedAll, unmarked, h.2]
  | member object property => by
    simp only [every, isApplicative, Bool.and_eq_true] at h
    exact unmarkedAll_extendLast h.1 (unmarkedAll_chunks object h.2)
  | const _ _ | binary _ _ _ | compare _ _ _ | list _ _ _ | tuple _ _ | unknown _ => by
    simp [every, isApplicative] at h

theorem unmarkedAll_chunksAll (es : List Expr) (h : everyAll isApplicative es = true) :
    unmarkedAll (chunksAll es) = true :=
  match es with
  | [] => rfl
  | e :: es => by
    simp only [everyAll, Bool.and_eq_true] at h
    rw [chunksAll, unmarkedAll_append, unmarkedAll_argument e (unmarkedAll_chunks e h.1),
      unmarkedAll_chunksAll es h.2]
    rfl

end

/-! What is written is the row of chunks. -/

/-- A function is written like an argument, whatever it is. -/
theorem haskell_call {callee : Expr} (h : callee.isApplicative = true) (args : List Expr) :
    haskell.exprPieces (call callee args) =
      Piece.group (isCompound callee) (haskell.exprPieces callee) ++ haskell.juxtaposedPieces args := by
  cases callee with
  | name n =>
    simp only [isApplicative, Bool.and_eq_true, decide_eq_true_eq] at h
    have named : haskell.functionName n.id = n.id := if_neg h.1.2
    rw [exprPieces, named]
    rfl
  | _ => rfl

theorem haskell_member {object : Expr} (h : object.isApplicative = true) (property : String) :
    haskell.exprPieces (member object property) =
      haskell.exprPieces object ++ [.token "_", .token property] := by
  have strong : ¬ object.strength < atom := by simp [strength_of_isApplicative h]
  rw [exprPieces, operand, decide_eq_false strong]
  rfl

theorem spells_argument {e : Expr} {pieces : List Piece} {row : List Chunk}
    (h : Spells pieces (rowText row)) :
    Spells (Piece.group (isCompound e) pieces) (rowText (argument e row)) := by
  unfold argument
  split
  · rename_i compound
    rw [compound]
    simpa [Piece.group, rowText, restText, text, suffix] using
      ((Spells.token "(").append h).append (Spells.token ")")
  · rename_i simple
    rw [Bool.eq_false_iff.2 simple]
    exact h

mutual

theorem spells_chunks (e : Expr) (h : e.every isApplicative = true) :
    Spells (haskell.exprPieces e) (rowText e.chunks) :=
  match e with
  | call callee args => by
    simp only [every, Bool.and_eq_true] at h
    have some := argument_ne_nil callee (chunks_ne_nil callee h.1.2)
    rw [haskell_call (every_self h.1.2), chunks, rowText_append some]
    exact (spells_argument (spells_chunks callee h.1.2)).append (spells_chunksAll args h.2)
  | name n => by
    simpa [chunks, rowText, restText, text, suffix, exprPieces] using Spells.token n.id
  | member object property => by
    simp only [every, Bool.and_eq_true] at h
    rw [haskell_member (every_self h.2), chunks, rowText_extendLast property (chunks_ne_nil object h.2)]
    exact (spells_chunks object h.2).append ((Spells.token "_").append (Spells.token property))
  | const _ _ | binary _ _ _ | compare _ _ _ | list _ _ _ | tuple _ _ | unknown _ => by
    simp [every, isApplicative] at h

theorem spells_chunksAll (es : List Expr) (h : everyAll isApplicative es = true) :
    Spells (haskell.juxtaposedPieces es) (restText (chunksAll es)) :=
  match es with
  | [] => .nil
  | e :: es => by
    simp only [everyAll, Bool.and_eq_true] at h
    have some := argument_ne_nil e (chunks_ne_nil e h.1)
    have own := Spells.gap.append (spells_argument (e := e) (spells_chunks e h.1))
    rw [chunksAll, restText_append, restText_eq some]
    simpa [juxtaposedPieces] using own.append (spells_chunksAll es h.2)

end

/-- Chunks and expressions have the same text. -/
theorem render_chunks {e : Expr} (h : e.every isApplicative = true) (mode : RecordMode) :
    (haskell.renderFragment mode (.expr e)).toList = rowText e.chunks := by
  have written := (spells_chunks e h).write_eq {}
  rw [renderFragment, written]
  simp [Sheet.flush, Sheet.push, String.join]

/-! Reading chunks as an expression. -/

/-- An application from a function and its arguments. -/
def applied : List Expr → Expr
  | [] => default
  | [e] => e
  | callee :: args => call callee args

mutual

/-- The expression of a chunk. -/
def ofChunk : Chunk → Expr
  | .word id properties => properties.foldl member (load id)
  | .group row properties => properties.foldl member (applied (ofChunks row))

def ofChunks : List Chunk → List Expr
  | [] => []
  | chunk :: row => ofChunk chunk :: ofChunks row

end

theorem ofChunks_append (xs ys : List Chunk) : ofChunks (xs ++ ys) = ofChunks xs ++ ofChunks ys := by
  induction xs with
  | nil => rfl
  | cons x xs ih => simp [ofChunks, ih]

theorem ofChunk_extend (property : String) (x : Chunk) :
    ofChunk (x.extend property) = member (ofChunk x) property := by
  cases x <;> simp [extend, ofChunk]

theorem ofChunks_extendLast {row : List Chunk} {e : Expr} (h : ofChunks row = [e]) (property : String) :
    ofChunks (extendLast property row) = [member e property] := by
  match row with
  | [x] =>
    have own : ofChunk x = e := by simpa [ofChunks] using h
    rw [extendLast, ofChunks, ofChunk_extend, own]
    rfl
  | [] | _ :: _ :: _ => simp [ofChunks] at h

theorem applied_call {callee : Expr} {args : List Expr} (some : args ≠ [])
    (front : ofChunks (argument callee callee.chunks) = [callee])
    (rest : ofChunks (chunksAll args) = args) :
    applied (ofChunks (call callee args).chunks) = call callee args := by
  obtain ⟨first, others, rfl⟩ := List.exists_cons_of_ne_nil some
  rw [chunks, ofChunks_append, front, rest]
  rfl

mutual

/-- The chunks of an argument give it back, if no property is taken of a call. -/
theorem ofChunks_argument (e : Expr) (h : e.every isApplicative = true)
    (plain : e.every takesNoResult = true) : ofChunks (argument e e.chunks) = [e] :=
  match e with
  | call callee args => by
    have compound : isCompound (call callee args) = true := (isCompound_eq (every_self h)).2 ⟨_, _, rfl⟩
    have some : args ≠ [] := by simpa [isApplicative] using every_self h
    simp only [every, Bool.and_eq_true] at h plain
    rw [argument, if_pos compound, ofChunks, ofChunk, List.foldl_nil, applied_call some
      (ofChunks_argument callee h.1.2 plain.1.2) (ofChunks_chunksAll args h.2 plain.2)]
    rfl
  | name n => by
    simp only [every, isApplicative, Bool.and_eq_true, decide_eq_true_eq] at h
    simp [argument, isCompound, strength, chunks, ofChunks, ofChunk, load, ← h.1.1]
  | member object property => by
    simp only [every, Bool.and_eq_true] at h plain
    have simple : ¬ isCompound object = true := by
      rw [isCompound_eq (every_self h.2)]
      rintro ⟨callee, args, rfl⟩
      cases plain.1
    have own := ofChunks_argument object h.2 plain.2
    rw [argument, if_neg simple] at own
    rw [argument, if_neg (by simp [isCompound, strength])]
    exact ofChunks_extendLast own property
  | const _ _ | binary _ _ _ | compare _ _ _ | list _ _ _ | tuple _ _ | unknown _ => by
    simp [every, isApplicative] at h

theorem ofChunks_chunksAll (es : List Expr) (h : everyAll isApplicative es = true)
    (plain : everyAll takesNoResult es = true) : ofChunks (chunksAll es) = es :=
  match es with
  | [] => rfl
  | e :: es => by
    simp only [everyAll, Bool.and_eq_true] at h plain
    rw [chunksAll, ofChunks_append, ofChunks_argument e h.1 plain.1, ofChunks_chunksAll es h.2 plain.2]
    rfl

end

theorem applied_chunks {e : Expr} (h : e.every isApplicative = true)
    (plain : e.every takesNoResult = true) : applied (ofChunks e.chunks) = e := by
  have own := ofChunks_argument e h plain
  by_cases compound : isCompound e = true
  · rw [argument, if_pos compound] at own
    exact (List.cons.inj own).1
  · rw [argument, if_neg compound] at own
    rw [own]
    rfl

end Expr

namespace Dialect

open Interlingua.Expr

/-- Two applications have the same text exactly if they have the same chunks. As long as no property is
taken of a call, they are then the same. -/
theorem haskell_render_eq_iff {e₁ e₂ : Expr} (h₁ : e₁.every isApplicative = true)
    (h₂ : e₂.every isApplicative = true) (mode : RecordMode) :
    (haskell.renderFragment mode (.expr e₁) = haskell.renderFragment mode (.expr e₂) ↔
      e₁.chunks = e₂.chunks) ∧
    (e₁.every takesNoResult = true → e₂.every takesNoResult = true →
      (haskell.renderFragment mode (.expr e₁) = haskell.renderFragment mode (.expr e₂) ↔ e₁ = e₂)) := by
  have texts : haskell.renderFragment mode (.expr e₁) = haskell.renderFragment mode (.expr e₂) ↔
      e₁.chunks = e₂.chunks := by
    rw [← String.toList_inj, render_chunks h₁, render_chunks h₂]
    refine ⟨fun same => ?_, congrArg _⟩
    have nothing : Chunk.Stops [')'] [] := fun _ none => by cases none
    exact (Chunk.rowText_append_inj _ _ (unmarkedAll_chunks e₁ h₁) (unmarkedAll_chunks e₂ h₂) nothing
      nothing (by rw [same])).1
  refine ⟨texts, fun plain₁ plain₂ => texts.trans ⟨fun same => ?_, congrArg _⟩⟩
  rw [← applied_chunks h₁ plain₁, same, applied_chunks h₂ plain₂]

/-- `math_max a (f b)`, where an argument is an application. -/
def nestedCall : Expr :=
  .call (.member (.load "math") "max") [.load "a", .call (.load "f") [.load "b"]]

/-- `math_max a f b` -/
def flatCall : Expr :=
  .call (.member (.load "math") "max") [.load "a", .load "f", .load "b"]

theorem haskell_render_eq_iff_nested :
    nestedCall.every isApplicative = true ∧ flatCall.every isApplicative = true ∧
    nestedCall.every takesNoResult = true ∧ flatCall.every takesNoResult = true ∧
    haskell.renderFragment .inline (.expr nestedCall) ≠
      haskell.renderFragment .inline (.expr flatCall) := by
  refine ⟨by decide, by decide, by decide, by decide, ?_⟩
  rw [ne_eq, (haskell_render_eq_iff (by decide) (by decide) .inline).2 (by decide) (by decide)]
  exact nofun

/-- The property of a call. -/
def resultProperty : Expr :=
  .member (.call (.load "f") [.load "x"]) "name"

/-- A call with a property. -/
def argumentProperty : Expr :=
  .call (.load "f") [.member (.load "x") "name"]

/-- Both are written `f x_name`. -/
theorem haskell_render_resultProperty :
    resultProperty.every isApplicative = true ∧ argumentProperty.every isApplicative = true ∧
    haskell.renderFragment .inline (.expr resultProperty) = "f x_name" ∧
    haskell.renderFragment .inline (.expr argumentProperty) = "f x_name" ∧
    resultProperty ≠ argumentProperty :=
  ⟨by decide, by decide, by decide +kernel, by decide +kernel, nofun⟩

end Dialect

end Interlingua

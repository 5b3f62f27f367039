import Interlingua.Proofs.Number.Numerals
import Interlingua.Proofs.Syntax.Conditions
import Interlingua.Proofs.Text.Quoting

/-!
# Tidy lines

The lines of a program whose names are words are tidy: no line is broken, and none ends in a blank
or, unless it does nothing but end a block, in a brace. Strings may hold anything.
-/

namespace Interlingua

open Text

/-- Whether the names that an expression itself has are words. -/
def Expr.isWorded : Expr → Bool
  | .name n => isWord n.id
  | .member _ property => isWord property
  | .unknown _ => false
  | _ => true

/-- Whether the names that a statement itself has are words. -/
def Stmt.isWorded : Stmt → Bool
  | .assign a => isWord a.target.id
  | .function f _ => isWord f.name && f.paramNames.all isWord
  | .classDef name _ _ => isWord name
  | .unknown _ => false
  | _ => true

theorem notMem_commas {c : Char} (outside : c ∉ [',', ' ']) {texts : List (List Char)}
    (h : ∀ t ∈ texts, c ∉ t) : c ∉ commas texts := by
  induction texts with
  | nil => simp [commas]
  | cons t rest ih =>
    obtain ⟨first, others⟩ := List.forall_mem_cons.1 h
    cases rest with
    | nil => simpa [commas] using first
    | cons next rest =>
      have inside : c ∉ t ++ [',', ' '] ++ commas (next :: rest) := by
        simp only [List.mem_append, not_or]
        exact ⟨⟨first, outside⟩, ih others⟩
      simpa [commas] using inside

theorem Phrase.neat_atLeast {u : Untyped} {e : Phrase} (h : Neat (e.text u)) (least : Nat) :
    Neat ((e.atLeast least).text u) := by
  rw [atLeast]
  split
  · have inside : '\n' ∉ '(' :: e.text u := by simp [h.unbroken]
    exact Neat.concat inside ')' (by decide)
  · exact h

/-- A line that is neat, or ends a block and does no more. -/
inductive Line.Tidy : Line → Prop where
  | neat {depth : Nat} {text : List Char} {record : Option Record} (h : Neat text) :
    Tidy ⟨depth, text, record⟩
  | brace (depth : Nat) : Tidy ⟨depth, ['\x7d'], none⟩

theorem Line.Tidy.unbroken {l : Line} (h : l.Tidy) : '\n' ∉ l.text := by
  cases h with
  | neat neat => exact neat.unbroken
  | brace depth => simp

theorem Line.Tidy.ends {l : Line} (h : l.Tidy) : ∃ c, EndsIn c l.text := by
  cases h with
  | neat neat =>
    obtain ⟨c, ends, _⟩ := neat.ends
    exact ⟨c, ends⟩
  | brace depth => exact ⟨'\x7d', rfl, by decide⟩

namespace Untyped

variable (u : Untyped)

theorem literal_str (s : String) : (u.dialect.literal (.str s)).toList = quote '\'' s.toList := by
  cases u <;> exact String.toList_ofList

theorem neat_literal (value : Literal) : Neat (u.dialect.literal value).toList := by
  cases value with
  | str s => exact u.literal_str s ▸ neat_quote _
  | bool b => cases u <;> cases b <;> exact Neat.of_all (by decide) (by decide)
  | null => cases u <;> exact Neat.of_all (by decide) (by decide)
  | int n =>
    have text : (u.dialect.literal (.int n)).toList = (Literal.int n).numeral := String.toList_ofList
    exact text ▸ Literal.neat_numeral rfl
  | float x =>
    have text : (u.dialect.literal (.float x)).toList = (Literal.float x).numeral :=
      String.toList_ofList
    exact text ▸ Literal.neat_numeral rfl

theorem neat_named {id : String} (h : isWord id = true) : Neat ((u.named id).text u) := by
  rw [named]
  split
  · cases u <;> exact Neat.of_all (by decide) (by decide)
  · exact Neat.of_isWord h

theorem newline_notMem_binarySymbol (op : BinaryOp) :
    '\n' ∉ (u.dialect.binarySymbol op).toList := by
  cases u <;> cases op <;> decide

theorem newline_notMem_compareSymbol (op : CompareOp) :
    '\n' ∉ (u.dialect.compareSymbol op).toList := by
  cases u <;> cases op <;> decide

/-- Two operands and a symbol between them. -/
theorem neat_infix {left symbol right : List Char} (hl : Neat left) (hs : '\n' ∉ symbol)
    (hr : Neat right) : Neat (left ++ ' ' :: symbol ++ ' ' :: right) := by
  have front : '\n' ∉ left ++ ' ' :: symbol ++ [' '] := by simp [hl.unbroken, hs]
  simpa using Neat.append front hr

mutual

theorem neat_phrase (e : Expr) (h : e.every Expr.isWorded = true) : Neat ((u.phrase e).text u) :=
  match e with
  | .call callee args => by
    simp only [Expr.every, Bool.and_eq_true] at h
    have called : Neat ((u.calleePhrase callee (u.phrase callee)).text u) := by
      have own := Phrase.neat_atLeast (neat_phrase callee h.1.2) Expr.atom
      cases callee with
      | name n => exact u.neat_named (Expr.every_self h.1.2)
      | _ => exact own
    exact Neat.concat (by simp [called.unbroken, unbroken_phrases args h.2]) ')' (by decide)
  | .member object property => by
    simp only [Expr.every, Bool.and_eq_true] at h
    have own := Phrase.neat_atLeast (neat_phrase object h.2) Expr.atom
    have front : '\n' ∉ ((u.phrase object).atLeast Expr.atom).text u ++ ['.'] := by
      simp [own.unbroken]
    have all := Neat.append front (Neat.of_isWord h.1)
    simpa [phrase, Phrase.text] using all
  | .binary left op right => by
    simp only [Expr.every, Bool.and_eq_true] at h
    exact neat_infix (Phrase.neat_atLeast (neat_phrase left h.1.2) _)
      (u.newline_notMem_binarySymbol op) (Phrase.neat_atLeast (neat_phrase right h.2) _)
  | .compare left op right => by
    simp only [Expr.every, Bool.and_eq_true] at h
    exact neat_infix (Phrase.neat_atLeast (neat_phrase left h.1.2) _)
      (u.newline_notMem_compareSymbol op) (Phrase.neat_atLeast (neat_phrase right h.2) _)
  | .list elements element homogeneous => by
    simp only [Expr.every, Bool.and_eq_true] at h
    exact Neat.concat (by simp [unbroken_phrases elements h.2]) ']' (by decide)
  | .tuple elements types => by
    simp only [Expr.every, Bool.and_eq_true] at h
    have inside := unbroken_phrases elements h.2
    cases u with
    | python =>
      rw [phrase, tuplePhrase, Phrase.text]
      split
      · have front : '\n' ∉ '(' :: commas (Phrase.texts python (phrases python elements)) ++ [','] := by
          simp [inside]
        simpa using Neat.concat front ')' (by decide)
      · exact Neat.concat (by simp [inside]) ')' (by decide)
    | javascript => exact Neat.concat (by simp [inside]) ']' (by decide)
  | .name n => Neat.of_isWord h
  | .const value _ => u.neat_literal value
  | .unknown _ => by cases h

theorem unbroken_phrases (es : List Expr) (h : Expr.everyAll Expr.isWorded es = true) :
    '\n' ∉ commas (Phrase.texts u (u.phrases es)) :=
  notMem_commas (by decide) (unbroken_texts es h)

theorem unbroken_texts (es : List Expr) (h : Expr.everyAll Expr.isWorded es = true) :
    ∀ t ∈ Phrase.texts u (u.phrases es), '\n' ∉ t :=
  match es with
  | [] => by simp [phrases, Phrase.texts]
  | e :: es => by
    simp only [Expr.everyAll, Bool.and_eq_true] at h
    simp only [phrases, Phrase.texts, List.forall_mem_cons]
    exact ⟨(neat_phrase e h.1).unbroken, unbroken_texts es h.2⟩

end

/-- A statement with its terminator. -/
theorem neat_terminated {text : List Char} (h : Neat text) : Neat (text ++ u.terminator) := by
  cases u with
  | python => simpa [terminator] using h
  | javascript => exact Neat.concat h.unbroken ';' (by decide)

/-- The header of a block. -/
theorem neat_opened {text : List Char} (h : '\n' ∉ text) : Neat (text ++ u.opener) := by
  cases u with
  | python => exact Neat.concat h ':' (by decide)
  | javascript =>
    have front : '\n' ∉ text ++ [' '] := by simp [h]
    simpa [opener] using Neat.concat front '\x7b' (by decide)

theorem unbroken_tested {test : Phrase} (h : Neat (test.text u)) : '\n' ∉ u.tested test := by
  cases u <;> simp [tested, h.unbroken]

theorem unbroken_heritage {bases : List (List Char)} (h : ∀ t ∈ bases, '\n' ∉ t) :
    '\n' ∉ u.heritage bases := by
  cases u with
  | python =>
    have inside := notMem_commas (by decide) h
    rw [heritage]
    split <;> simp [inside]
  | javascript => cases bases <;> simp_all [heritage]

theorem neat_signature (method : Bool) {name : String} {params : List String}
    (h : isWord name = true) (words : ∀ id ∈ params, isWord id = true) :
    Neat ((u.functionWord method).toList ++ name.toList ++
      '(' :: commas (params.map String.toList) ++ ')' :: u.opener) := by
  have word : '\n' ∉ (u.functionWord method).toList := by cases u <;> cases method <;> decide
  have inside : '\n' ∉ commas (params.map String.toList) :=
    notMem_commas (by decide) (List.forall_mem_map.2 fun id mem => (Neat.of_isWord (words id mem)).unbroken)
  have front : '\n' ∉ (u.functionWord method).toList ++ name.toList ++
      '(' :: commas (params.map String.toList) ++ [')'] := by
    simp [word, inside, (Neat.of_isWord h).unbroken]
  simpa using u.neat_opened front

/-- What is asked of words makes phrases neat. -/
theorem grants_neat :
    u.Grants Expr.isWorded Stmt.isWorded (fun e => Neat (e.text u)) (isWord · = true) where
  phrase h := u.neat_phrase _ h
  print {value} h := by
    have printer : Expr.isWorded (.load "print") = true := by decide
    refine u.neat_phrase (.call (.load "print") [value]) ?_
    simp only [Expr.every, Expr.everyAll, h, Bool.and_true]
    exact printer
  call {callee args} h := by
    simp only [Stmt.every, Bool.and_eq_true] at h
    exact u.neat_phrase (.call callee args) (by simp [Expr.every, Expr.isWorded, h])
  target h := h
  signature h := by simpa [Stmt.isWorded] using h
  object := by decide
  className h := h
  modelled := rfl

theorem heads_tidy : u.Heads (fun e => Neat (e.text u)) (isWord · = true) Line.Tidy where
  expr _ h := .neat (u.neat_terminated h)
  assign _ _ declares word h := by
    have id := (Neat.of_isWord word).unbroken
    refine .neat (u.neat_terminated (Neat.append ?_ h))
    split <;> simp [id]
  declare _ _ word := .neat (u.neat_terminated (Neat.append (by decide) (Neat.of_isWord word)))
  pass _ _ := .neat (Neat.of_all (by decide) (by decide))
  retNone _ := .neat (u.neat_terminated (Neat.of_all (by decide) (by decide)))
  ret _ h := .neat (u.neat_terminated (Neat.append (by decide) h))
  function _ _ method word words := .neat (u.neat_signature method word words)
  classDef {_ bases} _ word h := by
    refine .neat (u.neat_opened ?_)
    have texts : ∀ t ∈ Phrase.texts u bases, '\n' ∉ t := by
      rw [Phrase.texts_eq_map]
      exact List.forall_mem_map.2 fun e mem => (h e mem).unbroken
    simp [(Neat.of_isWord word).unbroken, u.unbroken_heritage texts]
  cond _ h := .neat (u.neat_opened (by simp [u.unbroken_tested h]))
  elseIf _ h := by
    have word : '\n' ∉ u.elseIf.toList := by cases u <;> decide
    exact .neat (u.neat_opened (by simp [u.unbroken_tested h, word]))
  otherwise _ := .neat (u.neat_opened (by cases u <;> decide))
  closing depth := by
    cases u with
    | python => simp [closing]
    | javascript => simpa [closing] using Line.Tidy.brace depth

theorem tidy_lines {p : Program} (h : p.every Expr.isWorded Stmt.isWorded = true) :
    ∀ l ∈ u.lines p, l.Tidy :=
  u.heads_tidy.forall_linesAll _ (u.grants_neat.every_program h) 0

end Untyped

end Interlingua

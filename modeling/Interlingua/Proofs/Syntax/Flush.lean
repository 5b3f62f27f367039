import Interlingua.Proofs.Layout
import Interlingua.Proofs.Syntax.Core

/-!
# Python as it is written is laid out regularly

Every line of a core program in Python starts with a visible character that starts no comment. Long
quotes occur in no line: a string ends with its line, and quotes in it are escaped or do not stand
three in a row.
-/

namespace Interlingua

open Text

namespace Layout

def isPlainChar (c : Char) : Bool :=
  c ≠ '"' && c ≠ '\''

section

variable {xs ys : List Char} {c : Char}

theorem short_append_cons (plain : isPlainChar c = true) (hx : Short xs) (hy : Short ys) :
    Short (xs ++ c :: ys) := by
  intro quote mem occurs
  have outside : c ∉ quote := by
    simp only [longQuotes, List.mem_cons, List.not_mem_nil, or_false] at mem
    rcases mem with rfl | rfl <;> simp_all [isPlainChar]
  rcases infix_append_cons outside occurs with left | right
  · exact hx quote mem left
  · exact hy quote mem right

theorem short_nil : Short [] := by
  unfold Short
  decide

theorem short_append {f : List Char} (plain : f.all isPlainChar = true) (h : Short ys) :
    Short (f ++ ys) := by
  induction f with
  | nil => exact h
  | cons c f ih =>
    simp only [List.all_cons, Bool.and_eq_true] at plain
    exact short_append_cons plain.1 short_nil (ih plain.2)

theorem short_of_plain (plain : xs.all isPlainChar = true) : Short xs := by
  have whole := short_append plain short_nil
  rwa [List.append_nil] at whole

theorem short_commas {texts : List (List Char)} (h : ∀ t ∈ texts, Short t) : Short (commas texts) := by
  induction texts with
  | nil => exact short_nil
  | cons t rest ih =>
    obtain ⟨first, others⟩ := List.forall_mem_cons.1 h
    cases rest with
    | nil => simpa [commas] using first
    | cons next rest =>
      have all : Short (t ++ ',' :: ([' '] ++ commas (next :: rest))) :=
        short_append_cons (by decide) first (short_append (by decide) (ih others))
      simpa [commas] using all

theorem isPlainChar_of_isWord {id : String} (h : isWord id = true) :
    id.toList.all isPlainChar = true := by
  rw [List.all_eq_true]
  intro c mem
  have word := (isWord_iff.1 h).2 c mem
  have double : c ≠ '"' := ne_of_isWordChar word (by decide)
  have single : c ≠ '\'' := ne_of_isWordChar word (by decide)
  simp [isPlainChar, double, single]

theorem short_quote {value : List Char} (h : ¬ ['"', '"', '"'] <:+: value) :
    Short (quote '\'' value) := by
  intro delimiter mem occurs
  simp only [longQuotes, List.mem_cons, List.not_mem_nil, or_false] at mem
  rcases mem with rfl | rfl
  · have outside : '\'' ∉ ['"', '"', '"'] := by decide
    rw [quote, List.cons_append, ← List.nil_append ('\'' :: _)] at occurs
    rcases infix_append_cons outside occurs with left | inner
    · exact absurd left (by decide)
    · rcases infix_append_cons outside inner with escaped | right
      · refine h (infix_of_infix_flatMap (fun c => ?_) (by decide) escaped)
        rcases escape_cases c with ⟨same, _⟩ | ⟨e, mark, same, _⟩
        · exact .inl same
        · have other : '"' ≠ e := fun same => absurd (same ▸ mark) (by decide)
          exact .inr ⟨by simp [same], by simp [same, other]⟩
      · exact absurd right (by decide)
  · exact not_infix_quote value occurs

end

namespace Flush

variable {xs ys f : List Char} {c : Char}

theorem append_cons (h : Flush xs) (plain : isPlainChar c = true) (hy : Short ys) :
    Flush (xs ++ c :: ys) where
  opens := by
    obtain ⟨d, rest, rfl, visible⟩ := h.opens
    exact ⟨d, rest ++ c :: ys, rfl, visible⟩
  short := short_append_cons plain h.short hy

/-- A text after some plain characters. -/
theorem append (first : f.head?.any (fun c => !isBlank c && c ≠ '#') = true)
    (plain : f.all isPlainChar = true) (hy : Short ys) : Flush (f ++ ys) where
  opens := by
    cases f with
    | nil => cases first
    | cons d rest => exact ⟨d, rest ++ ys, rfl, by simpa using first⟩
  short := short_append plain hy

theorem of_plain (first : f.head?.any (fun c => !isBlank c && c ≠ '#') = true)
    (plain : f.all isPlainChar = true) : Flush f := by
  have whole := append first plain short_nil
  rwa [List.append_nil] at whole

theorem of_isWord {id : String} (h : isWord id = true) : Flush id.toList := by
  obtain ⟨nonempty, words⟩ := isWord_iff.1 h
  refine of_plain ?_ (isPlainChar_of_isWord h)
  obtain ⟨c, rest, same⟩ := List.exists_cons_of_ne_nil nonempty
  have word := words c (by simp [same])
  have mark : c ≠ '#' := ne_of_isWordChar word (by decide)
  simp [same, isBlank_of_isWordChar word, mark]

end Flush

end Layout

namespace Untyped

open Layout

theorem flush_literal {value : Literal} (h : value.isCore = true) :
    Flush (python.dialect.literal value).toList := by
  cases value with
  | str s =>
    have short : Short (quote '\'' s.toList) := short_quote (by simpa [Literal.isCore] using h)
    exact python.literal_str s ▸ ⟨⟨'\'', _, rfl, by decide, by decide⟩, short⟩
  | bool b => cases b <;> exact Flush.of_plain (by decide) (by decide)
  | null => exact Flush.of_plain (by decide) (by decide)
  | int n =>
    have text : (python.dialect.literal (.int n)).toList = (Literal.int n).numeral :=
      String.toList_ofList
    have chars : ∀ c ∈ (Literal.int n).numeral, isPlainChar c = true ∧ isBlank c = false ∧ c ≠ '#' := by
      intro c mem
      have own := Literal.isNumeralChar_of_mem mem
      simp only [isNumeralChar, Bool.or_eq_true, decide_eq_true_eq] at own
      rcases own with (word | rfl) | rfl
      · have double : c ≠ '"' := ne_of_isWordChar word (by decide)
        have single : c ≠ '\'' := ne_of_isWordChar word (by decide)
        exact ⟨by simp [isPlainChar, double, single], isBlank_of_isWordChar word,
          ne_of_isWordChar word (by decide)⟩
      · decide
      · decide
    rw [text]
    have nonempty : (Literal.int n).numeral ≠ [] := Literal.numeral_ne_nil rfl
    obtain ⟨c, rest, same⟩ := List.exists_cons_of_ne_nil nonempty
    refine ⟨⟨c, rest, same, (chars c (by simp [same])).2⟩, short_of_plain ?_⟩
    exact List.all_eq_true.2 fun c mem => (chars c mem).1
  | float x => cases h

theorem flush_atLeast {e : Phrase} (h : Flush (e.text python)) (least : Nat) :
    Flush ((e.atLeast least).text python) := by
  rw [Phrase.atLeast]
  split
  · have inner : Short (e.text python ++ [')']) := short_append_cons (by decide) h.short short_nil
    exact Flush.append (f := ['(']) (by decide) (by decide) inner
  · exact h

section

variable {lex : Lexicon}

mutual

theorem flush_phrase (e : Expr) (h : e.every (Expr.isCore lex) = true) :
    Flush ((python.phrase e).text python) :=
  match e with
  | .call callee args => by
    simp only [Expr.every, Bool.and_eq_true] at h
    have called : Flush ((python.calleePhrase callee (python.phrase callee)).text python) := by
      have own := flush_atLeast (flush_phrase callee h.1.2) Expr.atom
      cases callee with
      | name n =>
        have word := Expr.isWorded_of_isCore h.1.2
        change Flush ((python.named n.id).text python)
        rw [named]
        split
        · exact Flush.of_plain (f := "print".toList) (by decide) (by decide)
        · exact Flush.of_isWord word
      | _ => exact own
    have front := called.append_cons (c := '(') (by decide) (short_phrases args h.2)
    exact front.append_cons (by decide) short_nil
  | .name n => Flush.of_isWord (Expr.isWorded_of_isCore h)
  | .const value type => by
    simp only [Expr.every, Expr.isCore, Bool.and_eq_true] at h
    exact flush_literal h.2
  | .member object property => by
    have word := Expr.isWorded_of_isCore h
    simp only [Expr.every, Bool.and_eq_true] at h
    have own := flush_atLeast (flush_phrase object h.2) Expr.atom
    exact own.append_cons (by decide) (short_of_plain (isPlainChar_of_isWord word))
  | .binary left op right => by
    simp only [Expr.every, Bool.and_eq_true] at h
    have symbol : Short (python.dialect.binarySymbol op).toList := by
      cases op <;> exact short_of_plain (by decide)
    have front := (flush_atLeast (flush_phrase left h.1.2) op.strength).append_cons (c := ' ')
      (by decide) symbol
    have back := flush_atLeast (flush_phrase right h.2) (op.strength + 1)
    exact front.append_cons (by decide) back.short
  | .compare left op right => by
    simp only [Expr.every, Bool.and_eq_true] at h
    have symbol : Short (python.dialect.compareSymbol op).toList := by
      cases op <;> exact short_of_plain (by decide)
    have front := (flush_atLeast (flush_phrase left h.1.2) (CompareOp.strength + 1)).append_cons
      (c := ' ') (by decide) symbol
    have back := flush_atLeast (flush_phrase right h.2) (CompareOp.strength + 1)
    exact front.append_cons (by decide) back.short
  | .list elements element homogeneous => by
    simp only [Expr.every, Bool.and_eq_true] at h
    have inner : Short (commas (Phrase.texts python (python.phrases elements)) ++ [']']) :=
      short_append_cons (by decide) (short_phrases elements h.2) short_nil
    exact Flush.append (f := ['[']) (by decide) (by decide) inner
  | .tuple _ _ | .unknown _ => by simp [Expr.every, Expr.isCore] at h

theorem short_phrases (es : List Expr) (h : Expr.everyAll (Expr.isCore lex) es = true) :
    Short (commas (Phrase.texts python (python.phrases es))) :=
  short_commas (short_texts es h)

theorem short_texts (es : List Expr) (h : Expr.everyAll (Expr.isCore lex) es = true) :
    ∀ t ∈ Phrase.texts python (python.phrases es), Short t :=
  match es with
  | [] => by simp [phrases, Phrase.texts]
  | e :: es => by
    simp only [Expr.everyAll, Bool.and_eq_true] at h
    simp only [phrases, Phrase.texts, List.forall_mem_cons]
    exact ⟨(flush_phrase e h.1).short, short_texts es h.2⟩

end

theorem grants_flush : python.Grants (Expr.isCore lex) (Stmt.isCore lex)
    (fun e => Flush (e.text python)) (isWord · = true) where
  phrase h := flush_phrase _ h
  print {value} h := by
    have printer : lex.known "print" = true := lex.own "print" (by decide)
    have printed : (Expr.call (.load "print") [value]).every (Expr.isCore lex) = true := by
      simp [Expr.every, Expr.everyAll, Expr.isCore, Expr.isCallable, Expr.load, printer, h]
    exact flush_phrase _ printed
  call {callee args} h := by
    simp only [Stmt.every, Stmt.isCore, Bool.and_eq_true] at h
    obtain ⟨⟨⟨callable, _⟩, inner⟩, others⟩ := h
    have called : (Expr.call callee args).every (Expr.isCore lex) = true := by
      simp [Expr.every, Expr.isCore, callable, inner, others]
    exact flush_phrase _ called
  target h := by
    simp only [Stmt.isCore, Bool.and_eq_true] at h
    exact lex.isWord_of_known _ h.2
  signature h := by
    simp only [Stmt.isCore, Bool.and_eq_true, List.all_eq_true] at h
    refine ⟨lex.isWord_of_known _ h.1.1, fun id mem => ?_⟩
    obtain ⟨n, param, rfl⟩ := List.mem_map.1 mem
    exact lex.isWord_of_known n.id (h.1.2 n param).2
  object := by decide
  className h := by
    simp only [Stmt.isCore, Bool.and_eq_true] at h
    exact lex.isWord_of_known _ h.1.1.1
  modelled := rfl

end

theorem heads_flush : python.Heads (fun e => Flush (e.text python)) (isWord · = true)
    (fun l => Flush l.text) where
  expr _ h := by simpa [terminator] using h
  assign {id value} _ _ declares word h := by
    have assigned : Short (' ' :: ("= ".toList ++ (value.text python ++ []))) :=
      short_append (f := " = ".toList) (by decide) (by simpa using h.short)
    cases declares with
    | true =>
      have rest := short_append (isPlainChar_of_isWord word) assigned
      simpa [terminator] using Flush.append (f := "let ".toList) (by decide) (by decide) rest
    | false =>
      have first := (Flush.of_isWord word).append_cons (c := ' ') (by decide)
        (short_append (f := "= ".toList) (by decide) h.short)
      simpa [terminator] using first
  declare _ language := by cases language
  pass _ _ := Flush.of_plain (f := "pass".toList) (by decide) (by decide)
  retNone _ := Flush.of_plain (f := "return".toList) (by decide) (by decide)
  ret _ h := by
    simpa [terminator] using Flush.append (f := "return ".toList) (by decide) (by decide) h.short
  function {name params} _ _ _ word words := by
    have names : Short (commas (params.map String.toList)) :=
      short_commas (List.forall_mem_map.2 fun id mem =>
        short_of_plain (isPlainChar_of_isWord (words id mem)))
    have front := Flush.append (f := "def ".toList) (by decide) (by decide)
      (short_of_plain (isPlainChar_of_isWord word))
    have colon : Short [':'] := short_of_plain (by decide)
    have listed := (front.append_cons (c := '(') (by decide) names).append_cons (c := ')') (by decide)
      colon
    simpa [functionWord, opener] using listed
  classDef {name bases} _ word h := by
    have texts : ∀ t ∈ Phrase.texts python bases, Short t := by
      rw [Phrase.texts_eq_map]
      exact List.forall_mem_map.2 fun e mem => (h e mem).short
    have inherited : Short (python.heritage (Phrase.texts python bases) ++ [':']) := by
      refine short_append_cons (by decide) ?_ short_nil
      rw [heritage]
      split
      · exact short_nil
      · have front := short_append (f := ['(']) (by decide) (short_commas texts)
        exact short_append_cons (c := ')') (by decide) front short_nil
    have rest := short_append (isPlainChar_of_isWord word) inherited
    simpa [opener] using Flush.append (f := "class ".toList) (by decide) (by decide) rest
  cond _ h := by
    have rest := short_append_cons (c := ':') (by decide) h.short short_nil
    simpa [tested, opener] using Flush.append (f := "if ".toList) (by decide) (by decide) rest
  elseIf _ h := by
    have rest := short_append_cons (c := ':') (by decide) h.short short_nil
    simpa [tested, opener, elseIf] using Flush.append (f := "elif ".toList) (by decide) (by decide) rest
  otherwise _ := Flush.of_plain (f := "else:".toList) (by decide) (by decide)
  closing _ := by simp [closing]

section

variable (u : Untyped)

theorem climbs_closing {depth : Nat} {rest : List Line} (next : ∀ e, depth ≤ e + 1 → Climbs e rest)
    (above : Nat) (h : depth ≤ above + 1) : Climbs above (u.closing depth ++ rest) := by
  cases u with
  | python => exact next above h
  | javascript => exact ⟨h, next depth (by omega)⟩

mutual

/-- A clause goes down from any depth that is not too far above it, and what follows may do so from
where it ends. -/
theorem climbs_clause (c : Clause) (depth above : Nat) (h : depth ≤ above + 1) (rest : List Line)
    (next : ∀ e, depth ≤ e + 1 → Climbs e rest) : Climbs above (c.lines u depth ++ rest) :=
  match c with
  | .expr _ | .assign _ _ _ _ | .declare _ | .pass | .ret none | .ret (some _) =>
    ⟨h, next depth (by omega)⟩
  | .function _ _ _ _ body | .classDef _ _ body => by
    simp only [Clause.lines, List.cons_append, List.append_assoc]
    exact ⟨h, climbs_clauses body (depth + 1) depth (Nat.le_refl _) _
      fun e deep => u.climbs_closing next e (by omega)⟩
  | .cond _ body more => by
    simp only [Clause.lines, List.cons_append, List.append_assoc]
    exact ⟨h, climbs_clauses body (depth + 1) depth (Nat.le_refl _) _
      fun e deep => climbs_alternative more depth e (by omega) rest next⟩

theorem climbs_alternative (more : Alternative) (depth above : Nat) (h : depth ≤ above + 1)
    (rest : List Line) (next : ∀ e, depth ≤ e + 1 → Climbs e rest) :
    Climbs above (more.lines u depth ++ rest) :=
  match more with
  | .none => u.climbs_closing next above h
  | .elseIf _ body more => by
    simp only [Alternative.lines, List.cons_append, List.append_assoc]
    exact ⟨h, climbs_clauses body (depth + 1) depth (Nat.le_refl _) _
      fun e deep => climbs_alternative more depth e (by omega) rest next⟩
  | .otherwise body => by
    simp only [Alternative.lines, List.cons_append, List.append_assoc]
    exact ⟨h, climbs_clauses body (depth + 1) depth (Nat.le_refl _) _
      fun e deep => u.climbs_closing next e (by omega)⟩

theorem climbs_clauses (cs : List Clause) (depth above : Nat) (h : depth ≤ above + 1)
    (rest : List Line) (next : ∀ e, depth ≤ e + 1 → Climbs e rest) :
    Climbs above (Clause.linesAll u depth cs ++ rest) :=
  match cs with
  | [] => next above h
  | c :: cs => by
    rw [Clause.linesAll, List.append_assoc]
    exact climbs_clause c depth above h _ fun e near => climbs_clauses cs depth e near rest next

end

theorem climbs_lines (p : Program) : Climbs 0 (u.lines p) := by
  have climbs := u.climbs_clauses (u.program p) 0 0 (by omega) [] fun _ _ => trivial
  rwa [List.append_nil] at climbs

/-- A core program as it is written needs no preparation. -/
theorem prepare_code {lex : Lexicon} {p : Program} (h : p.isCore lex = true) :
    u.language.prepare (joinLines ((u.lines p).map Line.plain)) =
      joinLines ((u.lines p).map Line.plain) := by
  cases u with
  | javascript => rfl
  | python =>
    have tidy := python.tidy_lines (Program.isWorded_of_isCore h)
    have flush := heads_flush.forall_linesAll _ (grants_flush.every_program h) 0
    exact reindent_plain flush (fun l mem => (tidy l mem).unbroken) (fun l mem => (tidy l mem).ends)
      (python.climbs_lines p)

end

end Untyped

end Interlingua

import Interlingua.Proofs.Syntax.Flush

/-!
# The text that stands for an unreadable source

A core program is never written as this text, with one exception: in Python, a program that does
nothing but evaluate the name which the text spells.
-/

namespace Interlingua

open Text Layout

namespace Line

/-- A comment stands after a space and ends in a brace. -/
theorem comment_cases (mark : List Char) (mode : RecordMode) (record : Option Record) :
    comment mark mode record = [] ∨
      ∃ inside, comment mark mode record = ' ' :: inside ++ ['\x7d'] := by
  cases mode with
  | sidecar => cases record <;> exact .inl rfl
  | inline =>
    cases record with
    | none => exact .inl rfl
    | some r =>
      rw [comment]
      split
      · exact .inl rfl
      · obtain ⟨inside, braced⟩ := r.text_eq
        refine .inr ⟨Record.opening mark ++ ' ' :: '\x7b' :: inside, ?_⟩
        simp [Record.encode, braced]

/-- A line ends as its text does, or in the brace of a comment. -/
theorem shown_ends {l : Line} {c : Char} (h : EndsIn c l.text) (mark : List Char)
    (mode : RecordMode) :
    EndsIn c (l.shown mark mode) ∨ EndsIn '\x7d' (l.shown mark mode) := by
  rcases comment_cases mark mode l.record with none | ⟨inside, same⟩
  · left
    rw [shown, none, List.append_nil]
    exact endsIn_append _ h
  · right
    rw [shown, same]
    exact endsIn_append _ (endsIn_append (' ' :: inside) ⟨rfl, by decide⟩)

/-- A source ends as one of its lines does, or in the brace of a comment. -/
theorem source_ends {P : Char → Prop} {ls : List Line} (nonempty : ls ≠ [])
    (h : ∀ l ∈ ls, ∃ c, P c ∧ EndsIn c l.text) (brace : P '\x7d') (mark : List Char)
    (mode : RecordMode) : ∃ c, P c ∧ EndsIn c (joinLines (ls.map (shown mark mode))) := by
  obtain ⟨front, l, rfl⟩ : ∃ front l, ls = front ++ [l] :=
    ⟨_, _, (List.dropLast_concat_getLast nonempty).symm⟩
  obtain ⟨c, own, ends⟩ := h l (by simp)
  have last : ∃ d, P d ∧ EndsIn d (l.shown mark mode) := by
    rcases shown_ends ends mark mode with same | closed
    · exact ⟨c, own, same⟩
    · exact ⟨'\x7d', brace, closed⟩
  obtain ⟨d, closer, final⟩ := last
  refine ⟨d, closer, ?_⟩
  rw [List.map_append, List.map_singleton]
  exact endsIn_joinLines _ final

end Line

namespace Untyped

/-- The characters in which a statement or a block ends in JavaScript. -/
def closers : List Char :=
  [';', '\x7b', '\x7d']

theorem ends_terminated (text : List Char) :
    ∃ c ∈ closers, EndsIn c (text ++ javascript.terminator) :=
  ⟨';', by decide, endsIn_append _ ⟨rfl, by decide⟩⟩

theorem ends_opened (text : List Char) : ∃ c ∈ closers, EndsIn c (text ++ javascript.opener) :=
  ⟨'\x7b', by decide, endsIn_append _ ⟨rfl, by decide⟩⟩

theorem heads_closed : javascript.Heads (fun _ => True) (fun _ => True)
    (fun l => ∃ c ∈ closers, EndsIn c l.text) where
  expr _ _ := ends_terminated _
  assign _ _ _ _ _ := ends_terminated _
  declare _ _ _ := ends_terminated _
  pass _ language := by cases language
  retNone _ := ends_terminated _
  ret _ _ := ends_terminated _
  function _ _ _ _ _ := ⟨'\x7b', by decide, endsIn_append _ ⟨rfl, by decide⟩⟩
  classDef _ _ _ := ends_opened _
  cond _ _ := ends_opened _
  elseIf _ _ := ends_opened _
  otherwise _ := ends_opened _
  closing _ := List.forall_mem_singleton.2 ⟨'\x7d', by decide, rfl, by decide⟩

theorem grants_any : javascript.Grants Expr.isModelled Stmt.isModelled (fun _ => True)
    (fun _ => True) where
  phrase _ := trivial
  print _ := trivial
  call _ := trivial
  target _ := trivial
  signature _ := ⟨trivial, fun _ _ => trivial⟩
  object := trivial
  className _ := trivial
  modelled := rfl

theorem isSentinel_javascript {p : Program} (h : p.isModelled = true) (mode : RecordMode) :
    Language.javascript.isSentinel
      (joinLines ((javascript.lines p).map (Line.shown javascript.mark mode))) = false := by
  have closed : ∀ l ∈ javascript.lines p, ∃ c ∈ closers, EndsIn c l.text :=
    heads_closed.forall_linesAll _ (grants_any.every_program h) 0
  rw [Language.isSentinel, decide_eq_false_iff_not]
  intro same
  cases found : javascript.lines p with
  | nil =>
    rw [found] at same
    cases same
  | cons l ls =>
    have nonempty : javascript.lines p ≠ [] := by simp [found]
    obtain ⟨c, closer, ends⟩ :=
      Line.source_ends nonempty closed (by decide) javascript.mark mode
    have last := same ▸ endsIn_trim ends
    have final : (Language.sentinel Language.javascript.name).toList.getLast? = some 't' := by decide
    obtain rfl : c = 't' := Option.some.inj (last.1.symm.trans final)
    exact absurd closer (by decide)

/-- The name that a Python source must not consist of. -/
def reserved : String :=
  Language.sentinel Language.python.name

theorem ne_reserved_of_mem {c : Char} {text : List Char} (mem : c ∈ text)
    (outside : c ∉ reserved.toList) : text ≠ reserved.toList :=
  fun same => outside (same ▸ mem)

theorem literal_ne_reserved {value : Literal} (h : value.isCore = true) :
    (python.dialect.literal value).toList ≠ reserved.toList := by
  cases value with
  | str s =>
    rw [literal_str]
    exact ne_reserved_of_mem (c := '\'') (by simp [quote]) (by decide)
  | bool b => cases b <;> decide
  | null => decide
  | int n =>
    intro same
    have text : (python.dialect.literal (.int n)).toList = Literal.intNumeral n.toInt :=
      String.toList_ofList
    have letter : 't' ∈ Literal.intNumeral n.toInt := by
      rw [← text, same]
      decide
    have digits : 't' ∉ Nat.toDigits 10 n.toInt.natAbs := fun mem =>
      absurd (Nat.isDigit_of_mem_toDigits (by decide) (by decide) mem) (by decide)
    rw [Literal.intNumeral] at letter
    split at letter
    · exact digits (List.mem_of_ne_of_mem (by decide) letter)
    · exact digits letter
  | float x => cases h

section

variable {lex : Lexicon}

/-- Only the name itself is written like the name. -/
theorem eq_load_of_text {e : Expr} (h : e.every (Expr.isCore lex) = true)
    (same : (python.phrase e).text python = reserved.toList) : e = .load reserved := by
  have own := Expr.every_self h
  cases e with
  | name n =>
    obtain ⟨id, role⟩ := n
    simp only [Expr.isCore, Bool.and_eq_true, decide_eq_true_eq] at own
    obtain rfl : role = .load := own.1
    rw [Expr.load, String.toList_inj.1 (show id.toList = _ from same)]
  | const value type =>
    simp only [Expr.isCore, Bool.and_eq_true] at own
    exact absurd same (literal_ne_reserved own.2)
  | member object property =>
    exact absurd same (ne_reserved_of_mem (c := '.') (by simp [phrase, Phrase.text]) (by decide))
  | call callee args =>
    exact absurd same (ne_reserved_of_mem (c := '(') (by simp [phrase, Phrase.text]) (by decide))
  | binary left op right | compare left op right =>
    exact absurd same (ne_reserved_of_mem (c := ' ') (by simp [phrase, Phrase.text]) (by decide))
  | list elements element homogeneous =>
    exact absurd same (ne_reserved_of_mem (c := '[') (by simp [phrase, Phrase.text]) (by decide))
  | tuple elements types | unknown description => cases own

theorem eq_expr_of_text {s : Stmt} (h : s.every (Expr.isCore lex) (Stmt.isCore lex) = true) {l : Line}
    {declared : List String} {depth : Nat}
    (line : l ∈ ((python.clause false s declared).1.lines python depth).head?)
    (same : l.text = reserved.toList) : s = .expr (.load reserved) := by
  have space : ' ' ∉ l.text := by
    rw [same]
    decide
  have paren : '(' ∉ l.text := by
    rw [same]
    decide
  cases s with
  | expr value =>
    obtain rfl := Option.some.inj line
    simp only [Stmt.every, Bool.and_eq_true] at h
    rw [eq_load_of_text h.2 (by simpa [terminator] using same)]
  | ret value =>
    cases value with
    | none =>
      obtain rfl := Option.some.inj line
      exact absurd (show "return".toList = reserved.toList from same) (by decide)
    | some value =>
      obtain rfl := Option.some.inj line
      simp at space
  | print value | call callee args =>
    obtain rfl := Option.some.inj line
    simp [phrase, Phrase.text] at paren
  | assign a | classDef name bases body | cond test body orelse =>
    obtain rfl := Option.some.inj line
    simp at space
  | function f body =>
    obtain rfl := Option.some.inj line
    simp at paren
  | unknown description => cases Stmt.every_self h

theorem lines_eq_cons (u : Untyped) (c : Clause) (depth : Nat) :
    ∃ l ls, c.lines u depth = l :: ls ∧ l.depth = depth := by
  cases c with
  | ret value => cases value <;> exact ⟨_, _, rfl, rfl⟩
  | _ => exact ⟨_, _, rfl, rfl⟩

theorem lines_python (s : Stmt) (ss : List Stmt) : ∃ declared after,
    python.lines ⟨s :: ss⟩ = (python.clause false s declared).1.lines python 0 ++
      Clause.linesAll python 0 (python.clauses false ss after).1 := by
  have none := hoist_python (s :: ss) []
  generalize found : python.hoist (s :: ss) [] = names at none
  obtain ⟨ahead, declared⟩ := names
  obtain rfl : ahead = [] := none
  refine ⟨declared, (python.clause false s declared).2, ?_⟩
  simp only [lines, program, found]
  rfl

/-- A source that is the name is one line with the name in it. -/
theorem single_of_trim {l : Line} {ls : List Line} (depth : l.depth = 0) (flush : Flush l.text)
    (ends : ∀ m ∈ l :: ls, ∃ c, EndsIn c m.text) (mark : List Char) (mode : RecordMode)
    (same : trim (joinLines ((l :: ls).map (Line.shown mark mode))) = reserved.toList) :
    ls = [] ∧ l.text = reserved.toList := by
  have plain : l.shown mark mode = l.text ++ Line.comment mark mode l.record := by
    simp [Line.shown, Line.plain, depth]
  have front : l.text <+: joinLines ((l :: ls).map (Line.shown mark mode)) := by
    cases ls with
    | nil => simp [joinLines, plain]
    | cons m ms => simp [joinLines, plain]
  have whole : trim (joinLines ((l :: ls).map (Line.shown mark mode))) =
      joinLines ((l :: ls).map (Line.shown mark mode)) := by
    obtain ⟨c, _, last⟩ := Line.source_ends (P := fun _ => True) (List.cons_ne_nil l ls)
      (fun m mem => (ends m mem).imp fun _ last => ⟨trivial, last⟩) trivial mark mode
    obtain ⟨d, rest, opens, visible, _⟩ := flush.opens
    obtain ⟨back, split⟩ := front
    rw [← split, opens, List.cons_append] at last ⊢
    exact trim_of_visible visible last
  rw [whole] at same
  cases ls with
  | nil =>
    rw [List.map_singleton, joinLines, List.intercalate_singleton, plain] at same
    refine ⟨rfl, ?_⟩
    rcases Line.comment_cases mark mode l.record with none | ⟨inside, comment⟩
    · rwa [none, List.append_nil] at same
    · rw [comment] at same
      exact absurd same (ne_reserved_of_mem (c := ' ') (by simp) (by decide))
  | cons m ms =>
    exact absurd same (ne_reserved_of_mem (c := '\n') (by simp [joinLines]) (by decide))

theorem isSentinel_python {p : Program} (h : p.isCore lex = true)
    (other : p.body ≠ [.expr (.load reserved)]) (mode : RecordMode) :
    Language.python.isSentinel
      (joinLines ((python.lines p).map (Line.shown python.mark mode))) = false := by
  have flush : ∀ l ∈ python.lines p, Flush l.text :=
    heads_flush.forall_linesAll _ (grants_flush.every_program h) 0
  have tidy := python.tidy_lines (Program.isWorded_of_isCore h)
  rw [Language.isSentinel, decide_eq_false_iff_not]
  intro same
  obtain ⟨body⟩ := p
  cases body with
  | nil => cases same
  | cons s rest =>
    obtain ⟨declared, after, found⟩ := lines_python s rest
    obtain ⟨l, ls, lines, depth⟩ := python.lines_eq_cons (python.clause false s declared).1 0
    rw [lines, List.cons_append] at found
    rw [found] at same flush tidy
    obtain ⟨none, text⟩ := single_of_trim depth (flush l List.mem_cons_self)
      (fun m mem => (tidy m mem).ends) python.mark mode same
    have single : rest = [] := by
      cases rest with
      | nil => rfl
      | cons next rest =>
        obtain ⟨m, ms, more, _⟩ := python.lines_eq_cons (python.clause false next after).1 0
        simp [clauses, Clause.linesAll, more] at none
    subst single
    simp only [Program.isCore, Program.every, Stmt.everyAll, Bool.and_true] at h
    have head : l ∈ ((python.clause false s declared).1.lines python 0).head? := by simp [lines]
    exact other (congrArg (fun s => [s]) (eq_expr_of_text h head text))

/-- A core program is not written as the text that stands for an unreadable source. -/
theorem isSentinel_render (u : Untyped) {p : Program} (h : p.isCore lex = true)
    (other : u = python → p.body ≠ [.expr (.load reserved)]) (mode : RecordMode) :
    u.language.isSentinel (Dialect.render u.dialect mode p).toList = false := by
  have modelled := isModelled_of_isWorded (Program.isWorded_of_isCore h)
  rw [u.render_eq mode p modelled]
  cases u with
  | python => exact isSentinel_python h (other rfl) mode
  | javascript => exact isSentinel_javascript modelled mode

end

end Untyped

end Interlingua

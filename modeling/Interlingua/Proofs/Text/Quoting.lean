import Interlingua.Proofs.Text.Words
import Interlingua.Text.Quoted

/-!
# Quoted text

A quoted text fits on a line whatever it holds, never has three quotes in a row, and is read back as
what it was. It ends where the first quote stands that is not escaped, so what follows it is not in it.
-/

namespace Interlingua.Text

/-- The characters that stand behind a backslash in a text between single quotes. -/
def escapeMarks : List Char :=
  ['\\', 'n', 't', 'r', '\'']

/-- A character stands for itself, or is escaped by a mark that stands for it. -/
theorem escape_cases (c : Char) :
    escape '\'' c = [c] ∧ c ∉ ['\\', '\n', '\r', '\''] ∨
      ∃ e ∈ escapeMarks, escape '\'' c = ['\\', e] ∧ escaped? e = some c := by
  unfold escape
  split
  · exact .inr ⟨'\\', by decide, rfl, rfl⟩
  · exact .inr ⟨'n', by decide, rfl, rfl⟩
  · exact .inr ⟨'t', by decide, rfl, rfl⟩
  · exact .inr ⟨'r', by decide, rfl, rfl⟩
  · rename_i slash newline _ carriage
    by_cases quote : c = '\''
    · subst quote
      exact .inr ⟨'\'', by decide, rfl, rfl⟩
    · refine .inl ⟨if_neg quote, ?_⟩
      simp only [List.mem_cons, List.not_mem_nil, or_false, not_or]
      exact ⟨slash, newline, carriage, quote⟩

/-- An escaped character breaks no line. -/
theorem notMem_escape {d b : Char} (breaks : b = '\n' ∨ b = '\r') (other : b ≠ d) (c : Char) :
    b ∉ escape d c := by
  unfold escape
  rcases breaks with rfl | rfl <;> grind

theorem notMem_quote {d b : Char} (breaks : b = '\n' ∨ b = '\r') (other : b ≠ d) (value : List Char) :
    b ∉ quote d value := by
  simp [quote, notMem_escape breaks other, other]

theorem neat_quote (value : List Char) : Neat (quote '\'' value) := by
  have inside : '\n' ∉ '\'' :: value.flatMap (escape '\'') := by
    simp [notMem_escape (.inl rfl) (by decide : '\n' ≠ '\'')]
  exact Neat.concat inside '\'' (by decide)

theorem unescape_cons {c : Char} (plain : c ≠ '\\') (cs : List Char) :
    unescape (c :: cs) = c :: unescape cs := by
  rw [unescape] <;> simp [plain]

section

variable {d : Char} (own : escaped? d = some d)

include own

theorem unescape_escape (c : Char) (cs : List Char) :
    unescape (escape d c ++ cs) = c :: unescape cs := by
  unfold escape
  split
  · rfl
  · rfl
  · rfl
  · rfl
  · rename_i slash _ _ _
    by_cases same : c = d
    · subst same
      rw [if_pos rfl, List.cons_append, List.singleton_append, unescape, own]
    · rw [if_neg same, List.singleton_append, unescape_cons slash]

theorem unescape_flatMap (value : List Char) : unescape (value.flatMap (escape d)) = value := by
  induction value with
  | nil => rfl
  | cons c value ih => rw [List.flatMap_cons, unescape_escape own, ih]

end

theorem escape_ne_nil (d c : Char) : escape d c ≠ [] := by
  unfold escape
  grind

theorem head_escape {d : Char} (slash : d ≠ '\\') (c : Char) : (escape d c).head? ≠ some d := by
  unfold escape
  grind

/-- The text between the quotes never starts with one. -/
theorem head_flatMap {d : Char} (slash : d ≠ '\\') (value : List Char) :
    (value.flatMap (escape d)).head? ≠ some d := by
  cases value with
  | nil => simp
  | cons c value =>
    obtain ⟨e, rest, shown⟩ := List.exists_cons_of_ne_nil (escape_ne_nil d c)
    have first := head_escape slash c
    rw [shown] at first
    rw [List.flatMap_cons, shown]
    exact first

/-- Inside a quoted text every quote is escaped, so there are never two in a row. -/
theorem not_infix_flatMap (value : List Char) :
    ¬ ['\'', '\''] <:+: value.flatMap (escape '\'') := by
  induction value with
  | nil => simp
  | cons c value ih =>
    rw [List.flatMap_cons]
    intro occurs
    rcases escape_cases c with ⟨same, other⟩ | ⟨e, _, same, _⟩
    · have plain : '\'' ∉ [c] := fun mem => other (by simp [← List.mem_singleton.1 mem])
      rw [same] at occurs
      exact ih (infix_of_infix_append plain occurs)
    · rw [same, List.cons_append, List.singleton_append] at occurs
      have outside : '\'' ∉ ['\\'] := by decide
      have later := infix_of_infix_append outside occurs
      rcases List.infix_cons_iff.1 later with prefixed | inside
      · have second := (List.cons_prefix_cons.1 prefixed).2
        obtain ⟨rest, found⟩ := second
        exact head_flatMap (d := '\'') (by decide) value (by simp [← found])
      · exact ih inside

theorem not_infix_quote (value : List Char) : ¬ ['\'', '\'', '\''] <:+: quote '\'' value := by
  have start := head_flatMap (d := '\'') (by decide) value
  have inside := not_infix_flatMap value
  rw [quote, List.cons_append]
  generalize value.flatMap (escape '\'') = body at start inside
  intro occurs
  rcases List.infix_cons_iff.1 occurs with prefixed | later
  · obtain ⟨rest, found⟩ := (List.cons_prefix_cons.1 prefixed).2
    cases body with
    | nil => simp at found
    | cons c body =>
      have first : '\'' = c := List.head_eq_of_cons_eq found
      exact start (by rw [← first]; rfl)
  · rcases List.infix_concat_iff.1 later with ⟨front, found⟩ | within
    · have whole : front ++ ['\'', '\''] ++ ['\''] = body ++ ['\''] := by simpa using found
      exact inside ⟨front, [], by simpa using List.append_cancel_right whole⟩
    · exact inside (List.IsInfix.trans ⟨['\''], [], rfl⟩ within)

/-! Reading a text between quotes. -/

/-- A literal starts with one copy of a quote or with three. -/
theorem exists_of_mem_delimiters {e : List Char} (h : e ∈ delimiters) :
    ∃ q, e = [q] ∨ e = [q, q, q] := by
  simp only [delimiters, List.mem_cons, List.not_mem_nil, or_false] at h
  rcases h with rfl | rfl | rfl | rfl | rfl
  · exact ⟨'"', .inr rfl⟩
  · exact ⟨'\'', .inr rfl⟩
  · exact ⟨'"', .inl rfl⟩
  · exact ⟨'\'', .inl rfl⟩
  · exact ⟨'\x60', .inl rfl⟩

section

variable {d : Char} (h : isQuote d = true)

include h

theorem isQuote_cases : d = '\'' ∨ d = '"' ∨ d = '\x60' := by
  simpa [isQuote, or_assoc] using h

theorem singleton_mem_delimiters : [d] ∈ delimiters := by
  rcases isQuote_cases h with rfl | rfl | rfl <;> simp [delimiters]

theorem escaped?_of_isQuote : escaped? d = some d := by
  rcases isQuote_cases h with rfl | rfl | rfl <;> rfl

theorem ne_slash_of_isQuote : d ≠ '\\' := by
  rcases isQuote_cases h with rfl | rfl | rfl <;> decide

omit h in
/-- No other delimiter stands around a text that does not start with the quote. -/
theorem between?_eq_none {e body : List Char} (mem : e ∈ delimiters) (other : e ≠ [d])
    (first : body.head? ≠ some d) : between? e (d :: body ++ [d]) = none := by
  obtain ⟨q, rfl | rfl⟩ := exists_of_mem_delimiters mem
  · have apart : q ≠ d := fun same => other (by rw [same])
    simp [between?, stripFront, apart]
  · by_cases same : q = d
    · cases body with
      | nil => simp [between?, stripFront]
      | cons c body =>
        have plain : d ≠ c := fun start => first (by rw [start]; rfl)
        simp [between?, stripFront, same, plain]
    · simp [between?, stripFront, same]

/-- A text between two quotes is taken from between them, unless it starts with the quote. -/
theorem unquote_delimited {body : List Char} (first : body.head? ≠ some d) :
    unquote (d :: body ++ [d]) = unescape body := by
  have noLead : lead (d :: body ++ [d]) = [] := by simp [lead, h]
  have own : between? [d] (d :: body ++ [d]) = some body := by
    have front : stripFront [d] (d :: body ++ [d]) = some (body ++ [d]) := by simp [stripFront]
    rw [between?, front, Option.bind_some, stripBack_eq_some]
  have inner : (delimiters.findSome? fun e => between? e (d :: body ++ [d])) = some body := by
    -- Three quotes are tried before one, so the delimiter that is found has to be looked at.
    have fits : (delimiters.findSome? fun e => between? e (d :: body ++ [d])).isSome = true :=
      List.findSome?_isSome_iff.2 ⟨[d], singleton_mem_delimiters h, by rw [own]; rfl⟩
    obtain ⟨text, found⟩ := Option.isSome_iff_exists.1 fits
    obtain ⟨e, mem, taken⟩ := List.exists_of_findSome?_eq_some found
    by_cases same : e = [d]
    · rw [found, ← taken, same, own]
    · rw [between?_eq_none mem same first] at taken
      cases taken
  simp only [unquote, noLead, List.length_nil, List.drop_zero, inner, Option.getD_some, List.any_nil,
    Bool.false_eq_true, if_false]

end

/-- Every text comes back from its quoted form, whatever the quotes are. -/
theorem unquote_quote {d : Char} (h : isQuote d = true) (value : List Char) :
    unquote (quote d value) = value := by
  have first := head_flatMap (ne_slash_of_isQuote h) value
  rw [quote, unquote_delimited h first, unescape_flatMap (escaped?_of_isQuote h)]

/-- Three quotes and a backslash. -/
theorem unquote_quote_quotes :
    isQuote '"' = true ∧ quote '"' ['"', '"', '"', '\\'] =
      ['"', '\\', '"', '\\', '"', '\\', '"', '\\', '\\', '"'] ∧
    unquote ['"', '\\', '"', '\\', '"', '\\', '"', '\\', '\\', '"'] = ['"', '"', '"', '\\'] :=
  ⟨by decide, by decide, unquote_quote (by decide) ['"', '"', '"', '\\']⟩

/-! Where a quoted text ends. -/

/-- Cut a text at its first quote. The character behind a backslash is not looked at. -/
def closing? (d : Char) : List Char → Option (List Char × List Char)
  | [] => none
  | '\\' :: c :: cs => (closing? d cs).map fun found => ('\\' :: c :: found.1, found.2)
  | c :: cs => if c = d then some ([], cs) else (closing? d cs).map fun found => (c :: found.1, found.2)

theorem closing?_cons {d c : Char} (slash : c ≠ '\\') (cs : List Char) :
    closing? d (c :: cs) =
      if c = d then some ([], cs) else (closing? d cs).map fun found => (c :: found.1, found.2) := by
  rw [closing?]
  exact fun _ _ same _ => slash same

/-- No quote is met in what stands for a character. -/
theorem closing?_escape (d c : Char) (cs : List Char) :
    closing? d (escape d c ++ cs) =
      (closing? d cs).map fun found => (escape d c ++ found.1, found.2) := by
  unfold escape
  split
  · rfl
  · rfl
  · rfl
  · rfl
  · rename_i slash _ _ _
    by_cases same : c = d
    · rw [if_pos same]
      rfl
    · rw [if_neg same, List.singleton_append, closing?_cons slash, if_neg same]
      rfl

theorem closing?_flatMap {d : Char} (slash : d ≠ '\\') (value rest : List Char) :
    closing? d (value.flatMap (escape d) ++ d :: rest) = some (value.flatMap (escape d), rest) := by
  induction value with
  | nil => rw [List.flatMap_nil, List.nil_append, closing?_cons slash, if_pos rfl]
  | cons c value ih =>
    rw [List.flatMap_cons, List.append_assoc, closing?_escape, ih]
    rfl

/-- A quoted text is on one line, and the first quote behind the one it starts with is its last
character: what is between them is the text, and what is put behind it makes no difference. -/
theorem closing?_quote {d : Char} (h : isQuote d = true) (value : List Char) :
    '\n' ∉ quote d value ∧ '\r' ∉ quote d value ∧
      ∃ body, quote d value = d :: body ++ [d] ∧ unescape body = value ∧
        ∀ rest, closing? d (body ++ d :: rest) = some (body, rest) := by
  have newline : '\n' ≠ d := by rcases isQuote_cases h with rfl | rfl | rfl <;> decide
  have carriage : '\r' ≠ d := by rcases isQuote_cases h with rfl | rfl | rfl <;> decide
  refine ⟨notMem_quote (.inl rfl) newline value, notMem_quote (.inr rfl) carriage value, ?_⟩
  exact ⟨value.flatMap (escape d), rfl, unescape_flatMap (escaped?_of_isQuote h) value,
    closing?_flatMap (ne_slash_of_isQuote h) value⟩

/-- A quote and a line break between two backslashes. -/
theorem closing?_quote_backslashes :
    isQuote '"' = true ∧ '\n' ∉ quote '"' ['\\', '"', '\n', '\\'] ∧
      '\r' ∉ quote '"' ['\\', '"', '\n', '\\'] ∧
      ∃ body, quote '"' ['\\', '"', '\n', '\\'] = '"' :: body ++ ['"'] ∧
        unescape body = ['\\', '"', '\n', '\\'] ∧
        ∀ rest, closing? '"' (body ++ '"' :: rest) = some (body, rest) :=
  ⟨by decide, closing?_quote (by decide) ['\\', '"', '\n', '\\']⟩

end Interlingua.Text

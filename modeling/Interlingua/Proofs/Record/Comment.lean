import Interlingua.Proofs.Record.Text
import Interlingua.Proofs.Syntax.Tidy
import Interlingua.Record.Comment
import Mathlib.Data.List.Infix

/-!
# Lines with and without records

A line that ends in the comment of a record is cut at that comment, whatever the code before it holds,
if the strings of the record do not have the start of such a comment in them. If the code is tidy, it
is given back as it is. A tidy line by itself has no record, whatever the strings in it hold.
-/

namespace Interlingua

open Text

theorem Json.newline_notMem_escapeChar (c : Char) : '\n' ∉ escapeChar c := by
  have digits : ∀ k < 16, hexDigit k ≠ '\n' := by decide
  have high := digits (c.toNat / 16)
  have low := digits (c.toNat % 16) (by omega)
  unfold escapeChar
  grind

theorem Json.newline_notMem_flatMap_text {ts : List Token} (h : ∀ t ∈ ts, t.isTextual = true) :
    '\n' ∉ ts.flatMap Token.text := by
  rw [List.mem_flatMap]
  rintro ⟨t, mem, broken⟩
  have textual := h t mem
  cases t with
  | scalar value =>
    cases value with
    | str s => simp [Token.text, scalarText, stringText, newline_notMem_escapeChar] at broken
    | _ => cases textual
  | _ => simp [Token.text] at broken

/-- Only a nominal type is spelled with other characters than those of the vocabulary. -/
theorem DeclaredType.notMem_spelling (type : DeclaredType) (h : ∀ name, type ≠ .named name)
    {c : Char} (outside : c ∈ Json.commentStarts) : c ∉ type.spelling.toList := by
  rw [Json.mem_commentStarts] at outside
  have base : ∀ t : BaseType, c ∉ t.spelling.toList := by
    rcases outside with rfl | rfl | rfl <;> intro t <;> cases t <;> decide
  cases type with
  | base t => exact base t
  | tuple types =>
    have text : (tuple types).spelling.toList =
        '[' :: commas (types.map fun t => t.spelling.toList) ++ [']'] := by
      simp [spelling, commas, Function.comp_def]
    have inside : c ∉ commas (types.map fun t => t.spelling.toList) :=
      notMem_commas (by rcases outside with rfl | rfl | rfl <;> decide)
        (List.forall_mem_map.2 fun t _ => base t)
    rw [text]
    rcases outside with rfl | rfl | rfl <;> simp [inside]
  | array element homogeneous =>
    rcases outside with rfl | rfl | rfl <;> simp [spelling, base]
  | named name => exact absurd rfl (h name)
  | unknown => rcases outside with rfl | rfl | rfl <;> decide

namespace Record

/-- Whether no key and no value of a record has the needle. -/
def lacks (needle : List Char) (r : Record) : Bool :=
  r.paramTypes.entries.all (fun e => ¬ needle <:+: e.1.toList) &&
    r.paramFacts.entries.all fun e =>
      ¬ needle <:+: e.1.toList && e.2.entries.all fun fact =>
        ¬ needle <:+: fact.1.toList && ¬ needle <:+: fact.2.toList

section

variable {n : Char} {rest : List Char} (h : n ∈ Json.commentStarts) {r : Record}
  (lacking : r.lacks (n :: rest) = true)
  (named : ∀ name, r.variableType = some (.named name) → ¬ n :: rest <:+: name.toList)

include h lacking named

theorem lacks_toJson : Json.Lacks (n :: rest) r.toJson := by
  have base : ∀ t : BaseType, ¬ n :: rest <:+: t.spelling.toList := fun t =>
    not_infix_of_notMem ((DeclaredType.base t).notMem_spelling (by simp) h)
  have unused : ∀ key ∈ fieldNames, n ∉ key.toList := by
    rcases Json.mem_commentStarts.1 h with rfl | rfl | rfl <;> decide
  have keys : ∀ key ∈ fieldNames, ¬ n :: rest <:+: key.toList := fun key mem =>
    not_infix_of_notMem (unused key mem)
  simp only [lacks, Bool.and_eq_true, List.all_eq_true, decide_eq_true_eq] at lacking
  obtain ⟨types, facts⟩ := lacking
  rw [toJson, Json.Lacks, Json.lacksAll_iff]
  refine forall_mem_members ?_ ?_ ?_ ?_
  · exact fun type _ => ⟨keys _ (by simp [fieldNames]), base type⟩
  · refine ⟨keys _ (by simp [fieldNames]), Json.lacksAll_iff.2 (List.forall_mem_map.2 fun e mem => ?_)⟩
    exact ⟨types e mem, base e.2⟩
  · intro type known
    refine ⟨keys _ (by simp [fieldNames]), ?_⟩
    by_cases nominal : ∃ name, type = .named name
    · obtain ⟨name, rfl⟩ := nominal
      exact named name known
    · exact not_infix_of_notMem (type.notMem_spelling (not_exists.1 nominal) h)
  · refine ⟨keys _ (by simp [fieldNames]), Json.lacksAll_iff.2 (List.forall_mem_map.2 fun e mem => ?_)⟩
    refine ⟨(facts e mem).1, Json.lacksAll_iff.2 (List.forall_mem_map.2 fun fact own => ?_)⟩
    exact (facts e mem).2 fact own

/-- The text of a record has what marks a record only where its strings have it. -/
theorem not_infix_text (quote : '"' ∉ n :: rest) (slash : '\\' ∉ n :: rest) :
    ¬ n :: rest <:+: r.text :=
  Json.not_infix_flatMap_text h quote slash (Json.tokens_isTextual _ r.toJson_isTextual)
    (Json.lacks_of_mem_tokens _ r.toJson_isTextual (lacks_toJson h lacking named))

end

theorem newline_notMem_text (r : Record) : '\n' ∉ r.text :=
  Json.newline_notMem_flatMap_text (Json.tokens_isTextual _ r.toJson_isTextual)

/-- The text of a record is in braces. -/
theorem text_eq (r : Record) : ∃ inside, r.text = '\x7b' :: inside ++ ['\x7d'] := by
  refine ⟨(Json.memberTokens r.members).flatMap Json.Token.text, ?_⟩
  simp [text, toJson, Json.compact, Json.tokens, Json.Token.text]

theorem trim_text (r : Record) : trim (' ' :: r.text) = r.text := by
  obtain ⟨inside, braced⟩ := r.text_eq
  have ends : EndsIn '\x7d' ('\x7b' :: (inside ++ ['\x7d'])) :=
    endsIn_append ('\x7b' :: inside) ⟨rfl, by decide⟩
  have blank : isBlank ' ' = true := by decide
  rw [trim, trimStart, List.dropWhile_cons_of_pos blank, braced]
  exact trim_of_visible (by decide) ends

theorem isBraced_text (r : Record) : isBraced r.text = true := by
  obtain ⟨inside, braced⟩ := r.text_eq
  rw [isBraced, braced, List.getLast?_concat]
  rfl

/-- The starts of comments that records travel in. -/
def commentMarks : List (List Char) :=
  [['#'], ['/', '/'], ['-', '-']]

/-- A mark is one character, once or twice. -/
theorem exists_commentStart {mark : List Char} (h : mark ∈ commentMarks) :
    ∃ n ∈ Json.commentStarts, mark = [n] ∨ mark = [n, n] := by
  simp only [commentMarks, List.mem_cons, List.not_mem_nil, or_false] at h
  rcases h with rfl | rfl | rfl
  · exact ⟨'#', Json.mem_commentStarts.2 (.inl rfl), .inl rfl⟩
  · exact ⟨'/', Json.mem_commentStarts.2 (.inr (.inl rfl)), .inr rfl⟩
  · exact ⟨'-', Json.mem_commentStarts.2 (.inr (.inr rfl)), .inr rfl⟩

section

variable {mark : List Char} (known : mark ∈ commentMarks) {r : Record}
  (lacking : r.lacks (opening mark) = true)
  (named : ∀ name, r.variableType = some (.named name) → ¬ opening mark <:+: name.toList)

include known lacking named

/-- The start of a record occurs once in its comment. -/
theorem not_infix_encode :
    ∃ n rest, opening mark = n :: rest ∧ ¬ opening mark <:+: rest ++ ' ' :: r.text := by
  have unquoted : ∀ mark ∈ commentMarks, '"' ∉ opening mark ∧ '\\' ∉ opening mark := by decide
  have joined : ' ' :: marker ++ ' ' :: r.text = ' ' :: marker ++ [' '] ++ r.text := by simp
  obtain ⟨quote, slash⟩ := unquoted mark known
  obtain ⟨n, start, shape⟩ := exists_commentStart known
  have unmarked : n ∉ ' ' :: marker ++ [' '] := by
    rcases Json.mem_commentStarts.1 start with rfl | rfl | rfl <;> decide
  rcases shape with rfl | rfl
  · refine ⟨n, ' ' :: marker, rfl, fun occurs => ?_⟩
    rw [joined] at occurs
    exact not_infix_text start lacking named quote slash
      (infix_of_infix_append unmarked occurs)
  · refine ⟨n, n :: ' ' :: marker, rfl, fun occurs => ?_⟩
    rw [List.cons_append, joined] at occurs
    rcases List.infix_cons_iff.1 occurs with prefixed | later
    · -- the second character of the mark is followed by a blank
      have same : n = ' ' := (List.cons_prefix_cons.1 (List.cons_prefix_cons.1 prefixed).2).1
      exact absurd (by simp [same]) unmarked
    · exact not_infix_text start lacking named quote slash
        (infix_of_infix_append unmarked later)

/-- A line is cut at the comment of its record, whatever the code before it holds. -/
theorem decodeLine_append_encode (code : List Char) :
    decodeLine mark (code ++ ' ' :: encode mark r) =
      some (trimEnd code, salvage? r.toJson) := by
  obtain ⟨n, rest, start, once⟩ := not_infix_encode known lacking named
  have cut := cutLast_append n rest start once (code ++ [' '])
  have line : code ++ ' ' :: encode mark r = code ++ [' '] ++ opening mark ++ ' ' :: r.text := by
    simp [encode]
  rw [line, decodeLine, cut]
  simp [r.trim_text, r.isBraced_text, r.parse_text, trimEnd_space]

end

end Record

namespace Untyped

variable (u : Untyped)

/-- Whether a record can travel in a comment: its text says it all, and does not have the start of
such a comment in it. -/
def carries (r : Record) : Bool :=
  r.isSpelled && r.lacks (Record.opening u.mark)

/-- A line is read back from the line with a record. -/
theorem decodeLine_encode {code : List Char} (h : Neat code) {r : Record} (carried : u.carries r = true)
    (vocabulary : ∀ name, r.variableType ≠ some (.named name)) :
    Record.decodeLine u.mark (code ++ ' ' :: Record.encode u.mark r) = some (code, some r) := by
  have known : u.mark ∈ Record.commentMarks := by cases u <;> decide
  rw [carries, Bool.and_eq_true] at carried
  obtain ⟨c, ends, _⟩ := h.ends
  rw [Record.decodeLine_append_encode known carried.2 (fun name nominal => absurd nominal (vocabulary name)),
    trimEnd_of_endsIn ends, Record.salvage?_toJson carried.1]

/-- A neat line has no record, whatever it holds: the record would end in a brace. -/
theorem decodeLine_neat {code : List Char} (h : Neat code) :
    Record.decodeLine u.mark code = none := by
  rw [Record.decodeLine]
  cases found : cutLast (Record.opening u.mark) code with
  | none => rfl
  | some parts =>
    obtain ⟨before, after⟩ := parts
    obtain ⟨c, ends, other⟩ := h.ends
    have unbraced : Record.isBraced (trim after) = false := by
      cases after with
      | nil => rfl
      | cons d after =>
        rw [eq_of_cutLast found] at ends
        have last := (endsIn_trim (endsIn_of_append _ (by simp) ends)).1
        simp [Record.isBraced, last, other]
    simp [unbraced]

theorem decodeLine_plain {l : Line} (h : l.Tidy) : Record.decodeLine u.mark l.plain = none := by
  cases h with
  | neat h => exact u.decodeLine_neat (Neat.append (by simp) h)
  | brace depth =>
    obtain ⟨n, rest, opening, outside⟩ : ∃ n rest, Record.opening u.mark = n :: rest ∧
        (n = '#' ∨ n = '/') := by
      cases u
      · exact ⟨'#', _, rfl, .inl rfl⟩
      · exact ⟨'/', _, rfl, .inr rfl⟩
    have unmarked : n ∉ Line.plain ⟨depth, ['\x7d'], none⟩ := by
      rcases outside with rfl | rfl <;> simp [Line.plain]
    rw [Record.decodeLine, opening, cutLast_eq_none (not_infix_of_notMem unmarked)]
    rfl

end Untyped

end Interlingua

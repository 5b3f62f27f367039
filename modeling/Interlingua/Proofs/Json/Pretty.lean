import Interlingua.Proofs.Json.Compact

/-!
# Reading indented text back

The indented text of a value has the tokens of its compact text, with blanks between them. A list of
textual values is read back from it.
-/

namespace Interlingua.Json

/-! The tokens of indented text. -/

theorem lex_blank {c : Char} (h : isSpace c = true) (cs : List Char) : lex (c :: cs) = lex cs := by
  rw [lex.eq_def]
  simp only [h, if_true]

theorem lex_space (rest : List Char) : lex (' ' :: rest) = lex rest :=
  lex_blank (by decide) rest

theorem lex_newline (depth : Nat) (rest : List Char) : lex (newline depth ++ rest) = lex rest := by
  rw [newline, List.cons_append, lex_blank (by decide)]
  induction 2 * depth with
  | zero => rfl
  | succ n ih => rw [List.replicate_succ, List.cons_append, lex_space, ih]

theorem lex_marks (rest : List Char) :
    lex ('[' :: rest) = (lex rest).map (.openArr :: ·) ∧
    lex (']' :: rest) = (lex rest).map (.closeArr :: ·) ∧
    lex ('{' :: rest) = (lex rest).map (.openObj :: ·) ∧
    lex ('}' :: rest) = (lex rest).map (.closeObj :: ·) ∧
    lex (':' :: rest) = (lex rest).map (.colon :: ·) ∧
    lex (',' :: rest) = (lex rest).map (.comma :: ·) :=
  ⟨lex_cons rfl rfl, lex_cons rfl rfl, lex_cons rfl rfl, lex_cons rfl rfl, lex_cons rfl rfl,
    lex_cons rfl rfl⟩

theorem lex_stringText (s : String) (rest : List Char) :
    lex (stringText s ++ rest) = (lex rest).map (.scalar (.str s) :: ·) :=
  lex_text_append (show (Token.scalar (.str s)).isTextual = true from rfl) rest

/-- Tokens after others of their list or object: a comma in front, unless there are none. -/
def separated : List Token → List Token
  | [] => []
  | ts => .comma :: ts

theorem separated_of_ne_nil {ts : List Token} (h : ts ≠ []) : separated ts = .comma :: ts := by
  cases ts with
  | nil => exact absurd rfl h
  | cons => rfl

theorem tokens_ne_nil (v : Json) : tokens v ≠ [] := by
  cases v <;> simp [tokens]

theorem itemTokens_cons (item : Json) (items : List Json) :
    itemTokens (item :: items) = tokens item ++ separated (itemTokens items) := by
  cases items with
  | nil => simp [itemTokens, separated]
  | cons next rest =>
    have some : itemTokens (next :: rest) ≠ [] := by
      cases rest <;> simp [itemTokens, tokens_ne_nil]
    rw [itemTokens, separated_of_ne_nil some]

theorem memberTokens_cons (key : String) (value : Json) (members : List (String × Json)) :
    memberTokens ((key, value) :: members) =
      .scalar (.str key) :: .colon :: tokens value ++ separated (memberTokens members) := by
  cases members with
  | nil => simp [memberTokens, separated]
  | cons next rest =>
    have some : memberTokens (next :: rest) ≠ [] := by
      cases rest <;> simp [memberTokens]
    rw [memberTokens, separated_of_ne_nil some]

mutual

theorem lex_prettyAt (v : Json) (h : v.isTextual = true) (depth : Nat) (rest : List Char) :
    lex (prettyAt depth v ++ rest) = (lex rest).map (tokens v ++ ·) :=
  match v with
  | str s => lex_stringText s rest
  | obj [] => by
    simp [prettyAt, tokens, memberTokens, lex_marks]
    rfl
  | obj ((key, value) :: members) => by
    rw [isTextual, areTextual, Bool.and_eq_true, Bool.and_eq_true] at h
    have inner := lex_prettyAt value h.1.1 (depth + 1)
    have later := lex_prettyMembers members h.2 (depth + 1)
    simp only [prettyAt, List.append_assoc, List.cons_append, List.nil_append, lex_marks,
      lex_newline, lex_stringText, lex_space, inner, later]
    simp [tokens, memberTokens_cons, Function.comp_def]
  | null | bool _ | int _ | float _ | arr _ => by cases h

theorem lex_prettyMembers (members : List (String × Json)) (h : areTextual members = true)
    (depth : Nat) (rest : List Char) :
    lex (prettyMembers depth members ++ rest) =
      (lex rest).map (separated (memberTokens members) ++ ·) :=
  match members with
  | [] => by simp [prettyMembers, memberTokens, separated]
  | (key, value) :: members => by
    rw [areTextual, Bool.and_eq_true, Bool.and_eq_true] at h
    have inner := lex_prettyAt value h.1.1 depth
    have later := lex_prettyMembers members h.2 depth rest
    simp only [prettyMembers, List.append_assoc, List.cons_append, List.nil_append, lex_marks,
      lex_newline, lex_stringText, lex_space, inner, later]
    simp [memberTokens_cons, separated, Function.comp_def]

end

theorem lex_prettyItems (items : List Json) (h : ∀ v ∈ items, v.isTextual = true) (depth : Nat)
    (rest : List Char) :
    lex (prettyItems depth items ++ rest) =
      (lex rest).map (separated (itemTokens items) ++ ·) := by
  induction items with
  | nil => simp [prettyItems, itemTokens, separated]
  | cons item items ih =>
    obtain ⟨first, others⟩ := List.forall_mem_cons.1 h
    have some : itemTokens (item :: items) ≠ [] := by simp [itemTokens_cons, tokens_ne_nil]
    simp only [prettyItems, List.append_assoc, List.cons_append, lex_marks, lex_newline,
      lex_prettyAt item first, ih others]
    rw [separated_of_ne_nil some, itemTokens_cons]
    simp [Function.comp_def]

theorem lex_pretty_arr {items : List Json} (h : ∀ v ∈ items, v.isTextual = true) :
    lex (pretty (.arr items)) = some (tokens (.arr items)) := by
  cases items with
  | nil =>
    simp [pretty, prettyAt, tokens, itemTokens, lex_marks, lex]
  | cons item items =>
    obtain ⟨first, others⟩ := List.forall_mem_cons.1 h
    simp only [pretty, prettyAt, List.append_assoc, List.cons_append, lex_marks, lex_newline,
      lex_prettyAt item first, lex_prettyItems items others]
    rw [lex]
    simp [tokens, itemTokens_cons]

/-! The machine. -/

/-- The tokens of items, read where a value may come, and the end of their list. -/
theorem foldlM_items (limit : Nat) (item : Json) (items : List Json)
    (h : ∀ v ∈ item :: items, v.isTextual = true) (low : ∀ v ∈ item :: items, v.height < limit)
    (earlier : List Json) :
    (itemTokens (item :: items) ++ [Token.closeArr]).foldlM (step limit)
        (.inside [.arr earlier] .value) =
      some (.done (.arr (earlier.reverse ++ item :: items))) := by
  have fits (earlier : List Json) {v : Json} (low : v.height < limit) :
      [Frame.arr earlier].length + v.height ≤ limit := by
    rw [List.length_singleton]
    omega
  induction items generalizing item earlier with
  | nil =>
    have delivered := foldlM_tokens limit item (h item List.mem_cons_self) _
      (fits earlier (low item List.mem_cons_self))
    rw [itemTokens, delivered]
    simp [deliver, step, closeArr]
  | cons next items ih =>
    have delivered := foldlM_tokens limit item (h item List.mem_cons_self) _
      (fits earlier (low item List.mem_cons_self))
    have later := ih next (List.forall_mem_cons.1 h).2 (List.forall_mem_cons.1 low).2
      (item :: earlier)
    rw [itemTokens, List.append_assoc, delivered, List.cons_append, List.foldlM_cons]
    simpa [deliver, step, afterComma] using later

/-- A value may come where a list may also end. -/
theorem foldlM_valueOrClose (limit : Nat) {v : Json} (h : v.isTextual = true) (stack : List Frame)
    (rest : List Token) :
    (tokens v ++ rest).foldlM (step limit) (.inside stack .valueOrClose) =
      (tokens v ++ rest).foldlM (step limit) (.inside stack .value) := by
  cases v with
  | str | obj => rfl
  | null | bool | int | float | arr => cases h

/-- A list of textual values is read back from its indented text. -/
theorem parse_pretty_arr {items : List Json} (h : ∀ v ∈ items, v.isTextual = true)
    (low : ∀ v ∈ items, v.height < depthLimit) :
    parse (pretty (.arr items)) = some (.arr items) := by
  rw [parse, parseWithin, lex_pretty_arr h]
  cases items with
  | nil => rfl
  | cons item items =>
    have read := foldlM_items depthLimit item items h low []
    have opened : step depthLimit (.inside [] .value) .openArr =
        some (.inside [.arr []] .valueOrClose) := rfl
    have run : (tokens (.arr (item :: items))).foldlM (step depthLimit) (.inside [] .value) =
        some (.done (.arr (item :: items))) := by
      rw [itemTokens_cons, List.append_assoc,
        ← foldlM_valueOrClose depthLimit (h item List.mem_cons_self)] at read
      rw [tokens, List.cons_append, List.foldlM_cons, opened, itemTokens_cons, List.append_assoc]
      exact read
    simp [run]

end Interlingua.Json

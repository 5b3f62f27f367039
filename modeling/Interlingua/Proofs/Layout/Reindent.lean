import Interlingua.Proofs.Layout.Balance

/-!
# Regular indentation keeps the stream

A source with regular indentation has a line for every line of the source it was made from, with the
same text behind the leading blanks. Passing over it once more gives the same stream: where the first
pass has some widths on its stack, the second one has as many multiples of four, and both are inside
the same long string.
-/

namespace Interlingua

namespace Text

section

variable {source last : List Char} {front : List (List Char)}
  (parts : splitOn '\n' source = front ++ [last])

include parts

/-- The lines of a source whose parts between line feeds are known. -/
theorem lines_of_parts :
    lines source = front.map dropReturn ++ if last = [] then [] else [last] := by
  rw [lines, parts, endLines_append front (List.cons_ne_nil last []), endLines]
  cases last <;> rfl

/-- A source ends in a line feed if nothing stands behind the last one. -/
theorem getLast?_of_parts : source.getLast? = some '\n' ↔ last = [] ∧ front ≠ [] := by
  have whole := joinLines_splitOn source
  rw [parts] at whole
  by_cases empty : last = []
  · by_cases single : front = []
    · simp [← whole, empty, single, joinLines]
    · rw [← whole, joinLines_concat single, empty, List.getLast?_concat]
      simp [single]
  · have mem : last ∈ splitOn '\n' source := by simp [parts]
    have unbroken := (of_mem_splitOn mem).1
    rw [← whole, getLast?_joinLines front empty]
    simp only [empty, false_and, iff_false]
    exact fun ends => unbroken (List.mem_of_getLast? ends)

end

theorem exists_parts (source : List Char) : ∃ front last, splitOn '\n' source = front ++ [last] :=
  ⟨_, _, (List.dropLast_append_getLast (splitOn_ne_nil '\n' source)).symm⟩

theorem dropReturn_subset (line : List Char) : dropReturn line ⊆ line := by
  unfold dropReturn
  split
  · exact List.dropLast_subset line
  · exact List.Subset.refl line

/-- A line has no line feed, and only characters of the source. -/
theorem of_mem_lines {source line : List Char} (h : line ∈ lines source) :
    '\n' ∉ line ∧ line ⊆ source := by
  obtain ⟨front, last, parts⟩ := exists_parts source
  have inside : ∃ part ∈ splitOn '\n' source, line ⊆ part := by
    rw [lines_of_parts parts, List.mem_append] at h
    rw [parts]
    rcases h with above | ends
    · obtain ⟨part, mem, rfl⟩ := List.mem_map.1 above
      exact ⟨part, List.mem_append_left _ mem, dropReturn_subset part⟩
    · split at ends
      · cases ends
      · obtain rfl := List.mem_singleton.1 ends
        exact ⟨line, by simp, List.Subset.refl line⟩
  obtain ⟨part, mem, subset⟩ := inside
  obtain ⟨unbroken, chars⟩ := of_mem_splitOn mem
  exact ⟨fun feed => unbroken (subset feed), List.Subset.trans subset chars⟩

end Text

namespace Layout

open Text

/-! Lines of the text with regular indentation. -/

/-- How a line is shown: with the same text behind blanks, and no other characters than those of the
line and of the unit. -/
structure Realigned (unit line shown : List Char) : Prop where
  text : trimStart shown = trimStart line
  chars : ∀ c ∈ shown, c ∈ line ∨ c ∈ unit

theorem notMem_of_realigned {unit : List Char} {ls rows : List (List Char)}
    (h : List.Forall₂ (Realigned unit) ls rows) {c : Char} (outside : c ∉ unit)
    (absent : ∀ l ∈ ls, c ∉ l) : ∀ row ∈ rows, c ∉ row := by
  induction h with
  | nil => simp
  | cons own _ ih =>
    obtain ⟨first, others⟩ := List.forall_mem_cons.1 absent
    refine List.forall_mem_cons.2 ⟨fun mem => ?_, ih others⟩
    exact (own.chars c mem).elim first outside

section

variable {unit : List Char} (blanks : ∀ c ∈ unit, isBlank c = true)

include blanks

theorem Indented.realigned {line content : List Char} (h : Indented line content) (depth : Nat) :
    Realigned unit line ((List.replicate depth unit).flatten ++ content) where
  text := by
    have led : ∀ c ∈ (List.replicate depth unit).flatten, isBlank c = true := by
      intro c mem
      obtain ⟨part, found, own⟩ := List.mem_flatten.1 mem
      exact blanks c (List.eq_of_mem_replicate found ▸ own)
    rw [trimStart_append led, h.trimStart_eq]
    obtain ⟨_, c, rest, -, rfl, -, visible⟩ := h
    exact trimStart_cons visible rest
  chars := by
    intro c mem
    rcases List.mem_append.1 mem with led | own
    · obtain ⟨part, found, own⟩ := List.mem_flatten.1 led
      exact .inr (List.eq_of_mem_replicate found ▸ own)
    · obtain ⟨indent, _, _, rfl, -⟩ := h
      exact .inl (List.mem_append_right indent own)

/-- A step is rendered as one line. -/
theorem Steps.realigned {comment : Option (List Char)} {state next : State} {line : List Char}
    {ts : List Token} (h : Steps comment state line ts next) (depth : Nat) :
    ∃ shown, render unit depth ts = [shown] ∧ Realigned unit line shown := by
  cases h with
  | inside => exact ⟨line, rfl, rfl, fun c mem => .inl mem⟩
  | blank _ h =>
    have content : trimStart line = [] := List.dropWhile_eq_nil_iff.2 h
    exact ⟨[], rfl, content.symm, by simp⟩
  | remark _ h => exact ⟨_, rfl, h.realigned blanks depth⟩
  | deeper _ h => exact ⟨_, rfl, h.realigned blanks (depth + 1)⟩
  | back closed kept h => exact ⟨_, render_blockEnds unit depth _ _, h.realigned blanks _⟩

theorem realigned_render (comment : Option (List Char)) (state : State) (depth : Nat)
    (ls : List (List Char)) :
    List.Forall₂ (Realigned unit) ls (render unit depth (tokensFrom comment state ls)) := by
  induction ls generalizing state depth with
  | nil =>
    rw [tokensFrom, render_replicate_blockEnd]
    exact .nil
  | cons line ls ih =>
    obtain ⟨shown, row, own⟩ := (steps comment state line).realigned blanks depth
    rw [tokensFrom_cons, render_append, row]
    exact .cons own (ih _ _)

/-- The parts of the text between line feeds are the lines that are rendered, and an empty one at the
end if the source had one there. -/
theorem splitOn_reindent (comment : Option (List Char)) (feed : '\n' ∉ unit)
    {source last : List Char} {front : List (List Char)}
    (parts : splitOn '\n' source = front ++ [last]) :
    splitOn '\n' (reindent comment unit source) =
      render unit 0 (tokens comment source) ++ if last = [] then [[]] else [] := by
  have rows : List.Forall₂ (Realigned unit) (lines source) (render unit 0 (tokens comment source)) :=
    realigned_render blanks comment {} 0 _
  have unbroken := notMem_of_realigned rows feed fun l mem => (of_mem_lines mem).1
  have ended := getLast?_of_parts parts
  rw [lines_of_parts parts] at rows
  rw [reindent]
  generalize render unit 0 (tokens comment source) = shown at rows unbroken ⊢
  -- An empty last part is no line and is not rendered: it comes back with the last line feed, unless
  -- the source was empty.
  by_cases empty : last = []
  · rw [if_pos empty]
    cases front with
    | nil =>
      obtain rfl : shown = [] := by simpa [empty] using rows
      rw [if_neg (mt ended.1 (by simp))]
      rfl
    | cons line front =>
      rw [List.map_cons, List.cons_append] at rows
      cases rows
      rw [if_pos (ended.2 ⟨empty, List.cons_ne_nil line front⟩), splitOn_append,
        splitOn_joinLines unbroken]
      rfl
  · have full : shown ≠ [] := by
      rintro rfl
      simp [empty] at rows
    obtain ⟨row, later, rfl⟩ := List.exists_cons_of_ne_nil full
    rw [if_neg empty, if_neg (mt ended.1 (by simp [empty])), List.append_nil, List.append_nil,
      splitOn_joinLines unbroken]

end

/-! The second pass. -/

/-- A line that was rendered from a step makes the same step: the blocks it enters and leaves are now
the multiples of four. -/
theorem Steps.again {comment : Option (List Char)} {state next : State} {line : List Char}
    {ts : List Token} (h : Steps comment state line ts next) :
    ∃ shown, render [' ', ' ', ' ', ' '] state.levels.length ts = [shown] ∧
      step comment ⟨levels state.levels.length, state.quote⟩ shown =
        (ts, ⟨levels next.levels.length, next.quote⟩) := by
  cases h with
  | inside widths quote =>
    exact ⟨line, rfl, step_inside comment _ quote line⟩
  | blank widths => exact ⟨[], rfl, rfl⟩
  | remark widths h starts =>
    obtain ⟨_, c, rest, -, rfl, -, visible⟩ := h
    refine ⟨_, rfl, ?_⟩
    rw [flatten_replicate_spaces]
    simp [step, trimStart_spaces _ visible, starts]
  | deeper widths h code =>
    obtain ⟨_, c, rest, -, rfl, -, visible⟩ := h
    refine ⟨_, rfl, ?_⟩
    rw [flatten_replicate_spaces, step_spaces comment _ _ visible code, shift_deeper]
    rfl
  | back closed kept h code =>
    obtain ⟨_, c, rest, -, rfl, -, visible⟩ := h
    -- The line may have stood between two widths. Now it stands on one, and closes as many blocks.
    have inner : (closed ++ kept).length - closed.length = kept.length := by simp
    have count : (closed ++ kept).length - kept.length = closed.length := by simp
    refine ⟨_, render_blockEnds _ _ _ _, ?_⟩
    rw [flatten_replicate_spaces, inner, step_spaces comment _ _ visible code,
      shift_back (by simp), count]

theorem tokensFrom_render (comment : Option (List Char)) (state : State) (ls : List (List Char)) :
    tokensFrom comment ⟨levels state.levels.length, state.quote⟩
      (render [' ', ' ', ' ', ' '] state.levels.length (tokensFrom comment state ls)) =
      tokensFrom comment state ls := by
  induction ls generalizing state with
  | nil =>
    simp only [tokensFrom, render_replicate_blockEnd, length_levels]
  | cons line ls ih =>
    have done := steps comment state line
    obtain ⟨shown, row, again⟩ := done.again
    rw [tokensFrom_cons, render_append, row, done.depth, List.singleton_append, tokensFrom_cons, again]
    exact congrArg _ (ih _)

theorem isBlank_of_mem_spaces : ∀ c ∈ [' ', ' ', ' ', ' '], isBlank c = true := by
  intro c mem
  obtain rfl : c = ' ' := by simpa using mem
  decide

section

variable (comment : Option (List Char)) {source : List Char}

theorem getLast?_reindent (unit : List Char) (ended : source.getLast? = some '\n') :
    (reindent comment unit source).getLast? = some '\n' := by
  rw [reindent, if_pos ended, List.getLast?_concat]

theorem lines_reindent (returns : '\r' ∉ source) (ended : source.getLast? = some '\n') :
    lines (reindent comment [' ', ' ', ' ', ' '] source) =
      render [' ', ' ', ' ', ' '] 0 (tokens comment source) := by
  obtain ⟨front, last, parts⟩ := exists_parts source
  obtain ⟨rfl, -⟩ := (getLast?_of_parts parts).1 ended
  have rows := splitOn_reindent isBlank_of_mem_spaces comment (by decide) parts
  have carriage : ∀ row ∈ render [' ', ' ', ' ', ' '] 0 (tokens comment source), '\r' ∉ row :=
    notMem_of_realigned (realigned_render isBlank_of_mem_spaces comment {} 0 _) (by decide)
      fun l mem found => returns ((of_mem_lines mem).2 found)
  have kept : ∀ row ∈ render [' ', ' ', ' ', ' '] 0 (tokens comment source), dropReturn row = row :=
    fun row mem => if_neg fun ends => carriage row mem (List.mem_of_getLast? ends)
  rw [lines_of_parts rows, if_pos rfl, List.append_nil, List.map_congr_left kept, List.map_id']

/-- A source without carriage returns that ends in a line feed has the stream of its regular form, and
that form is its own. -/
theorem tokens_reindent (returns : '\r' ∉ source) (ended : source.getLast? = some '\n') :
    tokens comment (reindent comment [' ', ' ', ' ', ' '] source) = tokens comment source ∧
    reindent comment [' ', ' ', ' ', ' '] (reindent comment [' ', ' ', ' ', ' '] source) =
      reindent comment [' ', ' ', ' ', ' '] source := by
  have same : tokens comment (reindent comment [' ', ' ', ' ', ' '] source) = tokens comment source := by
    rw [tokens, lines_reindent comment returns ended]
    exact tokensFrom_render comment {} (lines source)
  refine ⟨same, ?_⟩
  rw [reindent, same, if_pos (getLast?_reindent comment _ ended), reindent, if_pos ended]

/-- Tabs, a line between two widths, a comment and a string without an end. -/
theorem tokens_reindent_uneven :
    let source := "  a:\n\tb:\n     c\n# d\ne = \"\"\"\n   f\n".toList
    let regular := "    a:\n        b:\n    c\n    # d\ne = \"\"\"\n   f\n".toList
    '\r' ∉ source ∧ source.getLast? = some '\n' ∧
    reindent (some ['#']) [' ', ' ', ' ', ' '] source = regular ∧
    tokens (some ['#']) regular = tokens (some ['#']) source ∧
    reindent (some ['#']) [' ', ' ', ' ', ' '] regular = regular := by
  intro source regular
  have returns : '\r' ∉ source := by decide
  have ended : source.getLast? = some '\n' := by decide
  have shown : reindent (some ['#']) [' ', ' ', ' ', ' '] source = regular := by decide
  have same := tokens_reindent (some ['#']) returns ended
  rw [shown] at same
  exact ⟨returns, ended, shown, same⟩

end

end Layout

end Interlingua

import Interlingua.Proofs.Layout.Balance
import Interlingua.Proofs.Text.Quoting

/-!
# Literals and the blocks below them

The stream of a source is made line by line, so that a line acts on those below it only through the
state it leaves. A line that assigns a quoted text leaves the same state whatever the text is, as long
as three double quotes in a row occur in it an even number of times. If they occur an odd number of
times the lines below are taken for the inside of a string.
-/

namespace Interlingua

namespace Text

/-! Double quotes in a text between single quotes. -/

theorem escape_double : escape '\'' '"' = ['"'] := by
  decide

theorem notMem_escape_of_ne {c : Char} (h : c ≠ '"') : '"' ∉ escape '\'' c := by
  have marks : ∀ e ∈ escapeMarks, '"' ∉ ['\\', e] := by simp [escapeMarks]
  rcases escape_cases c with ⟨same, -⟩ | ⟨e, mark, same, -⟩
  · rw [same, List.mem_singleton]
    exact h.symm
  · exact same ▸ marks e mark

/-- A quoted text starts with as many double quotes as the text itself. -/
theorem startsWith_flatMap_escape (k : Nat) (value : List Char) :
    startsWith (List.replicate k '"') (value.flatMap (escape '\'') ++ ['\'']) =
      startsWith (List.replicate k '"') value := by
  induction value generalizing k with
  | nil => cases k <;> simp [startsWith, stripFront, List.replicate_succ]
  | cons c value ih =>
    cases k with
    | zero => simp [startsWith, stripFront]
    | succ k =>
      rw [List.flatMap_cons, List.append_assoc, List.replicate_succ]
      by_cases double : c = '"'
      · simpa [double, escape_double, startsWith, stripFront] using ih k
      · have none : '"' ∉ escape '\'' c := notMem_escape_of_ne double
        obtain ⟨e, rest, shown⟩ := List.exists_cons_of_ne_nil (escape_ne_nil '\'' c)
        rw [shown, List.mem_cons, not_or] at none
        simp [shown, startsWith, stripFront, none.1, Ne.symm double]

/-- Quoting neither makes nor breaks three double quotes in a row. -/
theorem countFrom_flatMap_escape (value : List Char) (skip : Nat)
    (skipped : startsWith (List.replicate skip '"') value = true) :
    countFrom ['"', '"', '"'] skip (value.flatMap (escape '\'') ++ ['\'']) =
      countFrom ['"', '"', '"'] skip value := by
  induction value generalizing skip with
  | nil => cases skip <;> simp [countFrom, startsWith, stripFront]
  | cons c value ih =>
    rw [List.flatMap_cons, List.append_assoc]
    cases skip with
    | succ skip =>
      have parts : '"' = c ∧ startsWith (List.replicate skip '"') value = true := by
        simpa [startsWith_iff, List.replicate_succ] using skipped
      obtain ⟨rfl, skipped⟩ := parts
      rw [escape_double]
      exact ih skip skipped
    | zero =>
      by_cases double : c = '"'
      · subst double
        have same : startsWith ['"', '"', '"'] ('"' :: (value.flatMap (escape '\'') ++ ['\''])) =
            startsWith ['"', '"', '"'] ('"' :: value) := by
          simpa [escape_double] using startsWith_flatMap_escape 3 ('"' :: value)
        rw [escape_double, List.singleton_append, countFrom, countFrom, same]
        split
        · rename_i found
          have more : startsWith (List.replicate 2 '"') value = true := by
            simpa [startsWith_iff] using found
          exact congrArg (· + 1) (ih 2 more)
        · exact ih 0 rfl
      · have none : '"' ∉ escape '\'' c := notMem_escape_of_ne double
        have own : '"' ∉ [c] := by simpa using Ne.symm double
        have later := ih 0 rfl
        rw [show countFrom _ 0 _ = _ from count_append_of_notMem none _]
        exact later.trans (count_append_of_notMem own value).symm

theorem count_quote (value : List Char) :
    count ['"', '"', '"'] (quote '\'' value) = count ['"', '"', '"'] value := by
  have opening : '"' ∉ ['\''] := by decide
  exact (count_append_of_notMem opening _).trans (countFrom_flatMap_escape value 0 rfl)

end Text

namespace Layout

open Text

variable (comment : Option (List Char))

/-- What the lines of `back` give in a source in which they stand below `front`: the stream without
the tokens of the lines above. -/
def tokensBelow (front back : List Char) : List Token :=
  (tokens comment (front ++ '\n' :: back)).drop (lineTokens comment {} (lines (front ++ ['\n']))).length

theorem tokensBelow_eq (front back : List Char) :
    tokensBelow comment front back =
      tokensFrom comment (stateAfter comment {} (lines (front ++ ['\n']))) (lines back) := by
  rw [tokensBelow, tokens, lines_append front back, tokensFrom_append, List.drop_left]

theorem Steps.quote_mem {comment : Option (List Char)} {state next : State} {line : List Char}
    {ts : List Token} (h : Steps comment state line ts next)
    (long : ∀ q ∈ state.quote, q ∈ longQuotes) : ∀ q ∈ next.quote, q ∈ longQuotes := by
  cases h with
  | inside levels quote =>
    intro q opened
    dsimp only at opened
    split at opened
    · cases opened
    · exact long q opened
  | blank | remark => exact long
  | deeper | back => exact fun q (found : leftOpen? _ = some q) => List.mem_of_find?_eq_some found

/-- The delimiter that is open in a state is a long one, if it was at the start. -/
theorem quote_mem_stateAfter {state : State} (h : ∀ q ∈ state.quote, q ∈ longQuotes)
    (ls : List (List Char)) : ∀ q ∈ (stateAfter comment state ls).quote, q ∈ longQuotes := by
  induction ls generalizing state with
  | nil => exact h
  | cons line ls ih => exact ih ((steps comment state line).quote_mem h)

/-- Outside of long strings no line is kept as it is. -/
theorem head_step {state : State} (h : state.quote = none) (line : List Char) :
    ∃ token rest, (step comment state line).1 = token :: rest ∧ ∀ raw, token ≠ .verbatim raw := by
  have done := steps comment state line
  generalize step comment state line = result at done ⊢
  obtain ⟨ts, next⟩ := result
  cases done with
  | inside => cases h
  | blank | remark | deeper => exact ⟨_, _, rfl, by simp⟩
  | back closed => cases closed <;> exact ⟨_, _, rfl, by simp⟩

/-- The first of some lines shows whether they stand in a long string. -/
theorem tokensFrom_ne {outside inside : State} (closed : outside.quote = none) {q : List Char}
    (opened : inside.quote = some q) {ls : List (List Char)} (h : ls ≠ []) :
    tokensFrom comment inside ls ≠ tokensFrom comment outside ls := by
  obtain ⟨line, ls, rfl⟩ := List.exists_cons_of_ne_nil h
  obtain ⟨token, rest, shown, other⟩ := head_step comment closed line
  have first : (step comment inside line).1 = [.verbatim line] := by simp [step, opened]
  intro same
  have heads : Token.verbatim line = token := by
    simpa [tokensFrom, first, shown] using congrArg List.head? same
  exact other line heads.symm

/-- States of the same blocks give the same block ends, and tell lines apart if a long string is open
in one of them only. -/
theorem tokensFrom_eq_iff (outside inside : State) (closed : outside.quote = none) {q : List Char}
    (opened : inside.quote = some q) (levels : inside.levels = outside.levels) (back : List Char) :
    tokensFrom comment inside (lines back) = tokensFrom comment outside (lines back) ↔ back = [] := by
  constructor
  · intro same
    cases back with
    | nil => rfl
    | cons c rest =>
      exact absurd same (tokensFrom_ne comment closed opened (lines_ne_nil (List.cons_ne_nil c rest)))
  · rintro rfl
    simp [lines, splitOn, endLines, tokensFrom, levels]

/-! A line with a quoted text. -/

/-- A line that gives a variable the text `value`. -/
def assignmentLine (indent : Nat) (value : List Char) : List Char :=
  List.replicate indent ' ' ++ 'x' :: ' ' :: '=' :: ' ' :: quote '\'' value

section

variable (indent : Nat) (value : List Char)

theorem lines_assignmentLine (front : List Char) :
    lines (front ++ '\n' :: assignmentLine indent value ++ ['\n']) =
      lines (front ++ ['\n']) ++ [assignmentLine indent value] := by
  have unbroken : '\n' ∉ assignmentLine indent value := by
    simp [assignmentLine, notMem_quote (.inl rfl) (by decide : '\n' ≠ '\'')]
  have last : (assignmentLine indent value).getLast? = some '\'' := by
    have whole : assignmentLine indent value = (List.replicate indent ' ' ++
        'x' :: ' ' :: '=' :: ' ' :: '\'' :: value.flatMap (escape '\'')) ++ ['\''] := by
      simp [assignmentLine, quote]
    rw [whole, List.getLast?_concat]
  have single : lines (assignmentLine indent value ++ ['\n']) = [assignmentLine indent value] := by
    rw [lines, splitOn_append, splitOn_of_notMem unbroken]
    simp [splitOn, endLines, dropReturn, last]
  rw [List.append_assoc, List.cons_append, lines_append, single]

/-- Long quotes in the line are those of its text. -/
theorem count_assignmentLine {n : Char} (h : n ∉ [' ', 'x', '=']) (needle : List Char) :
    count (n :: needle) (assignmentLine indent value) = count (n :: needle) (quote '\'' value) := by
  have before : n ∉ List.replicate indent ' ' ++ ['x', ' ', '=', ' '] := by
    simp only [List.mem_cons, List.not_mem_nil, or_false, not_or] at h
    simp [h]
  have whole : assignmentLine indent value =
      (List.replicate indent ' ' ++ ['x', ' ', '=', ' ']) ++ quote '\'' value := by
    simp [assignmentLine]
  rw [whole, count_append_of_notMem before]

theorem count_double_assignmentLine :
    count ['"', '"', '"'] (assignmentLine indent value) = count ['"', '"', '"'] value :=
  (count_assignmentLine indent value (by decide) _).trans (count_quote value)

theorem count_single_assignmentLine :
    count ['\'', '\'', '\''] (assignmentLine indent value) = 0 :=
  (count_assignmentLine indent value (by decide) _).trans (count_eq_zero (not_infix_quote value))

theorem leftOpen?_assignmentLine :
    leftOpen? (assignmentLine 0 value) =
      if isOdd (count ['"', '"', '"'] value) then some ['"', '"', '"'] else none := by
  have even : isOdd 0 = false := by decide
  rw [leftOpen?, longQuotes, List.find?_cons, count_double_assignmentLine]
  cases isOdd (count ['"', '"', '"'] value) with
  | true => rfl
  | false => simp [count_single_assignmentLine, even]

/-- Outside of long strings the line opens one if its text has an odd number of long quotes. -/
theorem step_assignmentLine {state : State} (h : state.quote = none) :
    (step (some ['#']) state (assignmentLine indent value)).2 =
      { levels := (shift state.levels indent).2
        quote := if isOdd (count ['"', '"', '"'] value) then some ['"', '"', '"'] else none } := by
  have visible : isBlank 'x' = false := by decide
  have code : startsWith ['#'] ('x' :: ' ' :: '=' :: ' ' :: quote '\'' value) = false := by
    simp [startsWith, stripFront]
  obtain ⟨levels, quote⟩ := state
  obtain rfl : quote = none := h
  have done := step_spaces (some ['#']) levels indent visible code
  rw [assignmentLine, done, ← leftOpen?_assignmentLine value]
  rfl

/-- Where a long string is open, the line closes it or stays inside. -/
theorem step_assignmentLine_inside {state : State} {q : List Char} (h : state.quote = some q) :
    (step (some ['#']) state (assignmentLine indent value)).2 =
      if isOdd (count q (assignmentLine indent value)) then { state with quote := none }
      else state := by
  simp only [step, h]

/-- The delimiter that is open below the lines of a source. -/
def openBelow (front : List Char) : Option (List Char) :=
  (stateAfter (some ['#']) {} (lines (front ++ ['\n']))).quote

variable (front back : List Char)

/-- The tokens below a line do not depend on the text that it assigns, unless three double quotes in
a row occur in the text an odd number of times. Then they differ as soon as there is a line below,
except inside a string between three single quotes. -/
theorem tokensBelow_assignmentLine_eq_iff :
    tokensBelow (some ['#']) (front ++ '\n' :: assignmentLine indent value) back =
        tokensBelow (some ['#']) (front ++ '\n' :: assignmentLine indent []) back ↔
      back = [] ∨ isOdd (count ['"', '"', '"'] value) = false ∨
        openBelow front = some ['\'', '\'', '\''] := by
  rw [tokensBelow_eq, tokensBelow_eq, lines_assignmentLine, lines_assignmentLine,
    stateAfter_append, stateAfter_append, openBelow]
  have long : ∀ q ∈ (stateAfter (some ['#']) {} (lines (front ++ ['\n']))).quote, q ∈ longQuotes :=
    quote_mem_stateAfter _ (by simp) _
  generalize stateAfter (some ['#']) {} (lines (front ++ ['\n'])) = state at long ⊢
  have even : isOdd (count ['"', '"', '"'] []) = false := by decide
  simp only [stateAfter]
  cases opened : state.quote with
  | none =>
    rw [step_assignmentLine _ _ opened, step_assignmentLine _ _ opened, even]
    cases odd : isOdd (count ['"', '"', '"'] value) with
    | false => simp
    | true =>
      have apart := tokensFrom_eq_iff (some ['#']) ⟨(shift state.levels indent).2, none⟩
        ⟨(shift state.levels indent).2, some ['"', '"', '"']⟩ rfl rfl rfl back
      simpa using apart
  | some q =>
    rw [step_assignmentLine_inside _ _ opened, step_assignmentLine_inside _ _ opened]
    have cases : q = ['"', '"', '"'] ∨ q = ['\'', '\'', '\''] := by
      simpa [longQuotes] using long q opened
    rcases cases with rfl | rfl
    · rw [count_double_assignmentLine, count_double_assignmentLine, even]
      cases odd : isOdd (count ['"', '"', '"'] value) with
      | false => simp
      | true =>
        have apart := tokensFrom_eq_iff (some ['#']) ⟨state.levels, none⟩ state rfl opened rfl back
        simpa [eq_comm] using apart
    · simp [count_single_assignmentLine]

/-- Below a text of three double quotes a line that leaves the block does not close it. -/
theorem tokensBelow_assignmentLine_swallowed :
    let front := ['i', 'f', ' ', 'a', ':']
    openBelow front = none ∧
    tokensBelow (some ['#']) (front ++ '\n' :: assignmentLine 4 []) ['y'] = [.blockEnd, .line ['y']] ∧
    tokensBelow (some ['#']) (front ++ '\n' :: assignmentLine 4 ['"', '"', '"']) ['y'] =
      [.verbatim ['y'], .blockEnd] := by
  decide

end

end Layout

end Interlingua

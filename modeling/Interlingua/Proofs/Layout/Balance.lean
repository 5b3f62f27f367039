import Interlingua.Proofs.Layout
import Mathlib.Data.List.Forall2
import Mathlib.Data.List.TakeWhile

/-!
# Blocks and lines of the stream

All that a line can do in the pass is said once, and the rest follows from it. Block tokens are in
balance and a block starts with a line, so that rendering a stream never closes more blocks than it
has opened: its depth is the number of widths on the stack. The other tokens are the lines of the
source, one for each.
-/

namespace Interlingua.Layout

open Text

/-- A line with blanks before its content, which starts with a character that is not blank. -/
def Indented (line content : List Char) : Prop :=
  ∃ indent c rest, line = indent ++ content ∧ content = c :: rest ∧
    (∀ b ∈ indent, isBlank b = true) ∧ isBlank c = false

theorem Indented.trimStart_eq {line content : List Char} (h : Indented line content) :
    trimStart line = content := by
  obtain ⟨indent, c, rest, rfl, rfl, blanks, visible⟩ := h
  rw [trimStart_append blanks, trimStart_cons visible]

/-- A line is blank, or has a content. -/
theorem blank_or_indented (line : List Char) :
    (∀ c ∈ line, isBlank c = true) ∧ trimStart line = [] ∨ Indented line (trimStart line) := by
  cases content : trimStart line with
  | nil => exact .inl ⟨List.dropWhile_eq_nil_iff.1 content, rfl⟩
  | cons c rest =>
    have visible : isBlank c = false := by
      have first := List.head?_dropWhile_not isBlank line
      rw [show line.dropWhile isBlank = c :: rest from content] at first
      simpa using first
    have parts : line.takeWhile isBlank ++ c :: rest = line := by
      rw [← content]
      exact List.takeWhile_append_dropWhile
    exact .inr ⟨_, c, rest, parts.symm, rfl, fun b mem => List.mem_takeWhile_imp mem, visible⟩

/-- A width opens a block, or closes those that are wider and goes on in the first that is not. -/
theorem shift_cases (levels : List Nat) (width : Nat) :
    levels.head?.getD 0 < width ∧ shift levels width = ([.blockStart], width :: levels) ∨
      ∃ closed kept, levels = closed ++ kept ∧ (∀ w ∈ closed, width < w) ∧
        (∀ w ∈ kept.head?, w ≤ width) ∧
        shift levels width = (List.replicate closed.length .blockEnd, kept) := by
  by_cases wider : levels.head?.getD 0 < width
  · exact .inl ⟨wider, by simp only [shift, if_pos wider]⟩
  · have parts : levels = levels.takeWhile (width < ·) ++ levels.dropWhile (width < ·) :=
      List.takeWhile_append_dropWhile.symm
    have count : levels.length - (levels.dropWhile (width < ·)).length =
        (levels.takeWhile (width < ·)).length := by
      have lengths := congrArg List.length parts
      rw [List.length_append] at lengths
      omega
    refine .inr ⟨_, _, parts, fun w mem => ?_, fun w mem => ?_, ?_⟩
    · simpa using List.mem_takeWhile_imp mem
    · have first := List.head?_dropWhile_not (fun w => decide (width < w)) levels
      rw [mem] at first
      simpa using first
    · simp only [shift, if_neg wider, count]

section

variable (comment : Option (List Char))

/-- All that a line can do: from a state it gives tokens and leaves a state. -/
inductive Steps : State → List Char → List Token → State → Prop where
  /-- Inside a long string a line is kept, and may close the string. -/
  | inside (levels : List Nat) (quote line : List Char) :
    Steps ⟨levels, some quote⟩ line [.verbatim line]
      ⟨levels, if isOdd (count quote line) then none else some quote⟩
  | blank (levels : List Nat) {line : List Char} (h : ∀ c ∈ line, isBlank c = true) :
    Steps ⟨levels, none⟩ line [.blank] ⟨levels, none⟩
  /-- A comment stays in the block of the line above. -/
  | remark (levels : List Nat) {line content : List Char} (h : Indented line content)
    (starts : comment.any (startsWith · content) = true) :
    Steps ⟨levels, none⟩ line [.line content] ⟨levels, none⟩
  | deeper (levels : List Nat) {line content : List Char} (h : Indented line content)
    (code : comment.any (startsWith · content) = false) (wider : levels.head?.getD 0 < width line) :
    Steps ⟨levels, none⟩ line [.blockStart, .line content] ⟨width line :: levels, leftOpen? content⟩
  /-- A line closes the blocks that are wider than it, often none. It need not have the width of the
  block in which it goes on. -/
  | back (closed kept : List Nat) {line content : List Char} (h : Indented line content)
    (code : comment.any (startsWith · content) = false) (wider : ∀ w ∈ closed, width line < w)
    (fits : ∀ w ∈ kept.head?, w ≤ width line) :
    Steps ⟨closed ++ kept, none⟩ line (List.replicate closed.length .blockEnd ++ [.line content])
      ⟨kept, leftOpen? content⟩

theorem step_inside (levels : List Nat) (quote line : List Char) :
    step comment ⟨levels, some quote⟩ line =
      ([.verbatim line], ⟨levels, if isOdd (count quote line) then none else some quote⟩) := by
  simp only [step]
  split <;> rfl

theorem steps (state : State) (line : List Char) :
    Steps comment state line (step comment state line).1 (step comment state line).2 := by
  obtain ⟨levels, quote⟩ := state
  cases quote with
  | some quote =>
    rw [step_inside]
    exact .inside levels quote line
  | none =>
    rcases blank_or_indented line with ⟨blank, content⟩ | h
    · simp only [step, content]
      exact .blank levels blank
    · have full : (trimStart line).isEmpty = false := by
        obtain ⟨_, c, rest, -, content, -⟩ := h
        rw [content]
        rfl
      simp only [step, full, Bool.false_eq_true, if_false]
      split
      · next starts => exact .remark levels h starts
      · next code =>
        rw [Bool.not_eq_true] at code
        rcases shift_cases levels (width line) with
          ⟨wider, shifted⟩ | ⟨closed, kept, rfl, wider, fits, shifted⟩
        · rw [shifted]
          exact .deeper levels h code wider
        · rw [shifted]
          exact .back closed kept h code wider fits

/-- The state in which lines leave the pass. -/
def stateAfter : State → List (List Char) → State
  | state, [] => state
  | state, line :: rest => stateAfter (step comment state line).2 rest

/-- The tokens of lines, without the block ends at the end of a source. -/
def lineTokens : State → List (List Char) → List Token
  | _, [] => []
  | state, line :: rest => (step comment state line).1 ++ lineTokens (step comment state line).2 rest

theorem stateAfter_append (state : State) (front back : List (List Char)) :
    stateAfter comment state (front ++ back) =
      stateAfter comment (stateAfter comment state front) back := by
  induction front generalizing state with
  | nil => rfl
  | cons line front ih => exact ih _

theorem tokensFrom_cons (state : State) (line : List Char) (rest : List (List Char)) :
    tokensFrom comment state (line :: rest) =
      (step comment state line).1 ++ tokensFrom comment (step comment state line).2 rest :=
  rfl

theorem tokensFrom_append (state : State) (front back : List (List Char)) :
    tokensFrom comment state (front ++ back) =
      lineTokens comment state front ++ tokensFrom comment (stateAfter comment state front) back := by
  induction front generalizing state with
  | nil => rfl
  | cons line front ih =>
    rw [List.cons_append, tokensFrom_cons, ih, lineTokens, stateAfter, List.append_assoc]

end

/-! Depth. -/

/-- The depth after a token. No block is closed at the outermost depth. -/
def Token.depth (depth : Nat) : Token → Nat
  | blockStart => depth + 1
  | blockEnd => depth - 1
  | _ => depth

/-- The depth at which a stream goes on behind tokens. -/
def depthAfter (depth : Nat) (ts : List Token) : Nat :=
  ts.foldl Token.depth depth

theorem depthAfter_append (depth : Nat) (front rest : List Token) :
    depthAfter depth (front ++ rest) = depthAfter (depthAfter depth front) rest :=
  List.foldl_append

/-- Rendering goes on at the depth after the tokens in front. -/
theorem render_append (unit : List Char) (depth : Nat) (front rest : List Token) :
    render unit depth (front ++ rest) =
      render unit depth front ++ render unit (depthAfter depth front) rest := by
  induction front generalizing depth with
  | nil => rfl
  | cons token front ih => cases token <;> simp [render, ih, depthAfter, Token.depth]

theorem depthAfter_blockEnds (depth n : Nat) :
    depthAfter depth (List.replicate n .blockEnd) = depth - n := by
  induction n generalizing depth with
  | zero => rfl
  | succ n ih =>
    have rest : depthAfter (depth - 1) (List.replicate n .blockEnd) = depth - 1 - n := ih (depth - 1)
    rw [List.replicate_succ]
    exact rest.trans (by omega)

section

variable {comment : Option (List Char)} {state next : State} {line : List Char} {ts : List Token}

/-- The depth follows the number of widths on the stack. -/
theorem Steps.depth (h : Steps comment state line ts next) :
    depthAfter state.levels.length ts = next.levels.length := by
  cases h with
  | inside | blank | remark | deeper => rfl
  | back closed kept =>
    rw [depthAfter_append, depthAfter_blockEnds, List.length_append, Nat.add_sub_cancel_left]
    rfl

theorem depthAfter_lineTokens (comment : Option (List Char)) (state : State)
    (ls : List (List Char)) :
    depthAfter state.levels.length (lineTokens comment state ls) =
      (stateAfter comment state ls).levels.length := by
  induction ls generalizing state with
  | nil => rfl
  | cons line ls ih =>
    rw [lineTokens, stateAfter, depthAfter_append, (steps comment state line).depth, ih]

end

/-! Balance. -/

/-- Whether a token stands for a line of the source. -/
def Token.isRow : Token → Bool
  | blockStart | blockEnd => false
  | line _ | blank | verbatim _ => true

/-- Streams that close the blocks that are open, and those they open. -/
inductive Closes : Nat → List Token → Prop where
  | nil : Closes 0 []
  | row {depth : Nat} {token : Token} {rest : List Token} (h : token.isRow = true)
    (tail : Closes depth rest) : Closes depth (token :: rest)
  | opening {depth : Nat} {content : List Char} {rest : List Token}
    (tail : Closes (depth + 1) (.line content :: rest)) :
    Closes depth (.blockStart :: .line content :: rest)
  | closing {depth : Nat} {rest : List Token} (tail : Closes depth rest) :
    Closes (depth + 1) (.blockEnd :: rest)

namespace Closes

variable {depth : Nat} {token : Token} {front rest : List Token}

theorem blockEnds (n : Nat) (h : Closes depth rest) :
    Closes (n + depth) (List.replicate n .blockEnd ++ rest) := by
  induction n with
  | zero => simpa using h
  | succ n ih =>
    rw [Nat.add_right_comm]
    exact ih.closing

theorem tail (h : Closes depth (token :: rest)) : Closes (token.depth depth) rest := by
  cases h with
  | row row tail =>
    cases token with
    | line | blank | verbatim => exact tail
    | blockStart | blockEnd => cases row
  | opening tail => exact tail
  | closing tail => exact tail

/-- A stream closes its blocks from any token on. -/
theorem split (h : Closes depth (front ++ rest)) : Closes (depthAfter depth front) rest := by
  induction front generalizing depth with
  | nil => exact h
  | cons token front ih => exact ih h.tail

theorem pos (h : Closes depth (.blockEnd :: rest)) : 0 < depth := by
  cases h with
  | row row => cases row
  | closing => exact Nat.succ_pos _

theorem opened (h : Closes depth (.blockStart :: rest)) :
    ∃ content later, rest = .line content :: later := by
  cases h with
  | row row => cases row
  | opening => exact ⟨_, _, rfl⟩

/-- The depth counts the blocks that were opened and not closed. -/
theorem count (h : Closes depth (front ++ rest)) :
    depthAfter depth front + front.count .blockEnd = depth + front.count .blockStart := by
  induction front generalizing depth with
  | nil => rfl
  | cons token front ih =>
    have own : token.depth depth + [token].count .blockEnd = depth + [token].count .blockStart := by
      cases token with
      | blockEnd => simpa [Token.depth] using Nat.sub_add_cancel h.pos
      | blockStart | line | blank | verbatim => simp [Token.depth]
    have later : depthAfter depth ([token] ++ front) + front.count .blockEnd =
        token.depth depth + front.count .blockStart := ih h.tail
    rw [← List.singleton_append, List.count_append, List.count_append]
    omega

theorem depth_eq_zero (h : Closes depth rest) : depthAfter depth rest = 0 := by
  have whole : Closes depth (rest ++ []) := by simpa using h
  have ends := whole.split
  generalize depthAfter depth rest = last at ends
  cases ends
  rfl

end Closes

theorem Steps.closes {comment : Option (List Char)} {state next : State} {line : List Char}
    {ts rest : List Token} (h : Steps comment state line ts next)
    (tail : Closes next.levels.length rest) : Closes state.levels.length (ts ++ rest) := by
  cases h with
  | inside | blank | remark => exact .row rfl tail
  | deeper => exact .opening (.row rfl tail)
  | back closed kept =>
    rw [List.append_assoc, List.length_append]
    exact .blockEnds closed.length (.row rfl tail)

theorem closes_tokensFrom (comment : Option (List Char)) (state : State) (ls : List (List Char)) :
    Closes state.levels.length (tokensFrom comment state ls) := by
  induction ls generalizing state with
  | nil => simpa [tokensFrom] using Closes.nil.blockEnds state.levels.length
  | cons line ls ih => exact (steps comment state line).closes (ih _)

/-! Lines. -/

/-- What a token tells of the line that it stands for. -/
inductive Carries : List Char → Token → Prop where
  | verbatim (line : List Char) : Carries line (.verbatim line)
  | blank {line : List Char} (h : ∀ c ∈ line, isBlank c = true) : Carries line .blank
  | line {line content : List Char} (h : Indented line content) : Carries line (.line content)

theorem Steps.carries {comment : Option (List Char)} {state next : State} {line : List Char}
    {ts : List Token} (h : Steps comment state line ts next) :
    ∃ token, ts.filter Token.isRow = [token] ∧ Carries line token := by
  cases h with
  | inside => exact ⟨_, rfl, .verbatim line⟩
  | blank _ h => exact ⟨_, rfl, .blank h⟩
  | remark _ h => exact ⟨_, rfl, .line h⟩
  | deeper _ h => exact ⟨_, rfl, .line h⟩
  | back closed kept h => exact ⟨_, by simp [Token.isRow], .line h⟩

theorem carries_tokensFrom (comment : Option (List Char)) (state : State) (ls : List (List Char)) :
    List.Forall₂ Carries ls ((tokensFrom comment state ls).filter Token.isRow) := by
  induction ls generalizing state with
  | nil => simp [tokensFrom, Token.isRow]
  | cons line ls ih =>
    obtain ⟨token, row, carries⟩ := (steps comment state line).carries
    rw [tokensFrom_cons, List.filter_append, row]
    exact .cons carries (ih _)

/-- Block tokens in balance: at no place more blocks are closed than were opened, so that the depth is
the difference of the two and there is always a block to close, and a block starts with a line. -/
structure Balanced (ts : List Token) : Prop where
  count_le : ∀ front, front <+: ts → front.count .blockEnd ≤ front.count .blockStart
  count_eq : ts.count .blockEnd = ts.count .blockStart
  depth_eq : ∀ front, front <+: ts → depthAfter 0 front = front.count .blockStart - front.count .blockEnd
  depth_pos : ∀ front rest, ts = front ++ .blockEnd :: rest → 0 < depthAfter 0 front
  opened : ∀ front rest, ts = front ++ .blockStart :: rest → ∃ content later, rest = .line content :: later

theorem Closes.balanced {ts : List Token} (h : Closes 0 ts) : Balanced ts where
  count_le := by
    rintro front ⟨rest, rfl⟩
    have counts := h.count
    omega
  count_eq := by
    have whole : Closes 0 (ts ++ []) := by simpa using h
    have counts := whole.count
    rw [h.depth_eq_zero] at counts
    omega
  depth_eq := by
    rintro front ⟨rest, rfl⟩
    have counts := h.count
    omega
  depth_pos := by
    rintro front rest rfl
    exact h.split.pos
  opened := by
    rintro front rest rfl
    exact h.split.opened

/-- The stream of a source is in balance, has one token for every line, and is rendered at the depth
that is on the stack: below some lines it goes on with as many blocks as they have left open. -/
theorem balanced_tokens (comment : Option (List Char)) (source : List Char) :
    Balanced (tokens comment source) ∧
    List.Forall₂ Carries (lines source) ((tokens comment source).filter Token.isRow) ∧
    ∀ front back, lines source = front ++ back →
      tokens comment source =
        lineTokens comment {} front ++ tokensFrom comment (stateAfter comment {} front) back ∧
      depthAfter 0 (lineTokens comment {} front) = (stateAfter comment {} front).levels.length ∧
      ∀ unit, render unit 0 (tokens comment source) =
        render unit 0 (lineTokens comment {} front) ++
          render unit (stateAfter comment {} front).levels.length
            (tokensFrom comment (stateAfter comment {} front) back) := by
  refine ⟨(closes_tokensFrom comment {} _).balanced, carries_tokensFrom comment {} _, ?_⟩
  intro front back split
  have parts : tokens comment source =
      lineTokens comment {} front ++ tokensFrom comment (stateAfter comment {} front) back := by
    rw [tokens, split, tokensFrom_append]
  have depth : depthAfter 0 (lineTokens comment {} front) =
      (stateAfter comment {} front).levels.length := depthAfter_lineTokens comment {} front
  refine ⟨parts, depth, fun unit => ?_⟩
  rw [parts, render_append, depth]

end Interlingua.Layout

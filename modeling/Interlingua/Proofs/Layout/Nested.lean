import Interlingua.Proofs.Layout

/-!
# Nested lines

An item is a line by itself, or a header with items in a block of their own under it. Items that are
written with four spaces for every block are taken apart into the block tokens of their nesting, and
those tokens are written back as the same lines.
-/

namespace Interlingua.Layout

open Text

/-- A line, or a header and the items of the block under it. A block is never empty. -/
inductive Item where
  | line (text : List Char)
  | block (header : List Char) (first : Item) (rest : List Item)

namespace Item

mutual

/-- The lines of an item at a depth. -/
def lines (depth : Nat) : Item → List Line
  | line text => [{ depth, text }]
  | block header first rest =>
    { depth, text := header } :: (lines (depth + 1) first ++ linesAll (depth + 1) rest)

def linesAll (depth : Nat) : List Item → List Line
  | [] => []
  | item :: rest => lines depth item ++ linesAll depth rest

end

mutual

/-- The stream of an item: the tokens of its block stand between block tokens. -/
def tokens : Item → List Token
  | line text => [.line text]
  | block header first rest =>
    .line header :: .blockStart :: (tokens first ++ tokensAll rest) ++ [.blockEnd]

def tokensAll : List Item → List Token
  | [] => []
  | item :: rest => tokens item ++ tokensAll rest

end

theorem linesAll_append (depth : Nat) (is js : List Item) :
    linesAll depth (is ++ js) = linesAll depth is ++ linesAll depth js := by
  induction is with
  | nil => rfl
  | cons i is ih => simp [linesAll, ih]

theorem head_lines (depth : Nat) (item : Item) :
    ∃ text rest, item.lines depth = { depth, text } :: rest := by
  cases item with
  | line text => exact ⟨text, [], rfl⟩
  | block header first rest => exact ⟨header, _, rfl⟩

end Item

/-- A text that can be part of a line. -/
structure Inline (text : List Char) : Prop where
  short : Short text
  newline : '\n' ∉ text
  carriage : '\r' ∉ text

/-- A text whose first character is neither blank nor the start of a comment. -/
def Opens (text : List Char) : Prop :=
  ∃ c rest, text = c :: rest ∧ isBlank c = false ∧ c ≠ '#'

/-- A text that makes up a line. -/
structure Standing (text : List Char) : Prop extends Inline text where
  opens : Opens text

theorem Standing.flush {text : List Char} (h : Standing text) : Flush text :=
  ⟨h.opens, h.short⟩

/-- Lines that go on at a depth or leave it. -/
def Leaves (depth : Nat) (ls : List Line) : Prop :=
  ∀ l ∈ ls.head?, l.depth ≤ depth

section

variable {depth : Nat} {ls : List Line}

/-- The first line of a block opens it. -/
theorem tokensFrom_opening {l : Line} (deeper : l.depth = depth + 1) (h : Flush l.text) :
    tokensFrom (some ['#']) { levels := levels depth } ((l :: ls).map Line.plain) =
      .blockStart ::
        tokensFrom (some ['#']) { levels := levels (depth + 1) } ((l :: ls).map Line.plain) := by
  have stays := shift_back (Nat.le_refl (depth + 1))
  rw [List.map_cons, tokensFrom, tokensFrom, step_plain _ h, step_plain _ h, deeper, shift_deeper,
    stays, Nat.sub_self]
  rfl

/-- A block ends before a line that leaves it, and at the end. -/
theorem tokensFrom_closing (flush : ∀ l ∈ ls, Flush l.text) (leaves : Leaves depth ls) :
    tokensFrom (some ['#']) { levels := levels (depth + 1) } (ls.map Line.plain) =
      .blockEnd :: tokensFrom (some ['#']) { levels := levels depth } (ls.map Line.plain) := by
  cases ls with
  | nil => simp [tokensFrom, length_levels, List.replicate_succ]
  | cons l ls =>
    have back : l.depth ≤ depth := leaves l rfl
    have own := flush l (by simp)
    have closed : depth + 1 - l.depth = depth - l.depth + 1 := by omega
    rw [List.map_cons, tokensFrom, tokensFrom, step_plain _ own, step_plain _ own,
      shift_back (Nat.le_succ_of_le back), shift_back back, closed, List.replicate_succ]
    rfl

theorem tokensFrom_line {text : List Char} (h : Flush text) :
    tokensFrom (some ['#']) { levels := levels depth }
        ((({ depth, text } : Line) :: ls).map Line.plain) =
      .line text :: tokensFrom (some ['#']) { levels := levels depth } (ls.map Line.plain) := by
  have step := step_plain (levels depth) (l := { depth, text }) h
  rw [shift_back (Nat.le_refl depth), Nat.sub_self] at step
  rw [List.map_cons, tokensFrom, step]
  rfl

end

namespace Item

theorem leaves_linesAll {depth : Nat} {rest : List Line} (leaves : Leaves depth rest)
    (items : List Item) : Leaves depth (linesAll depth items ++ rest) := by
  cases items with
  | nil => exact leaves
  | cons item items =>
    obtain ⟨text, more, starts⟩ := head_lines depth item
    intro l found
    rw [linesAll, starts] at found
    obtain rfl : ({ depth, text } : Line) = l := Option.some.inj found
    exact Nat.le_refl depth

mutual

/-- The lines of an item give its tokens, whatever follows at its depth or outside it. -/
theorem tokensFrom_lines (item : Item) (depth : Nat) (rest : List Line)
    (flush : ∀ l ∈ item.lines depth ++ rest, Flush l.text) (leaves : Leaves depth rest) :
    tokensFrom (some ['#']) { levels := levels depth } ((item.lines depth ++ rest).map Line.plain) =
      item.tokens ++ tokensFrom (some ['#']) { levels := levels depth } (rest.map Line.plain) :=
  match item with
  | .line text => tokensFrom_line (flush { depth, text } (by simp [lines]))
  | .block header first others => by
    -- The first line inside opens the block. What follows is outside of it, so the tokens of the
    -- block are found one level deeper, and only then is it closed.
    have outside : Leaves (depth + 1) rest := fun l mem => Nat.le_succ_of_le (leaves l mem)
    rw [lines, List.cons_append, List.append_assoc] at flush ⊢
    obtain ⟨own, inner⟩ := List.forall_mem_cons.1 flush
    obtain ⟨text, more, starts⟩ := head_lines (depth + 1) first
    have opening : tokensFrom (some ['#']) { levels := levels depth }
        ((lines (depth + 1) first ++ (linesAll (depth + 1) others ++ rest)).map Line.plain) =
        .blockStart :: tokensFrom (some ['#']) { levels := levels (depth + 1) }
          ((lines (depth + 1) first ++ (linesAll (depth + 1) others ++ rest)).map Line.plain) := by
      rw [starts]
      exact tokensFrom_opening rfl (inner { depth := depth + 1, text } (by simp [starts]))
    have nested := tokensFrom_lines first (depth + 1) _ inner (leaves_linesAll outside others)
    have later := tokensFrom_linesAll others (depth + 1) rest
      (fun l mem => inner l (List.mem_append_right _ mem)) outside
    have closing := tokensFrom_closing (fun l mem => inner l (by simp [mem])) leaves
    rw [tokensFrom_line own, opening, nested, later, closing]
    simp [tokens]

theorem tokensFrom_linesAll (items : List Item) (depth : Nat) (rest : List Line)
    (flush : ∀ l ∈ linesAll depth items ++ rest, Flush l.text) (leaves : Leaves depth rest) :
    tokensFrom (some ['#']) { levels := levels depth } ((linesAll depth items ++ rest).map Line.plain) =
      tokensAll items ++ tokensFrom (some ['#']) { levels := levels depth } (rest.map Line.plain) :=
  match items with
  | [] => rfl
  | item :: items => by
    rw [linesAll, List.append_assoc] at flush ⊢
    rw [tokensFrom_lines item depth _ flush (leaves_linesAll leaves items),
      tokensFrom_linesAll items depth rest (fun l mem => flush l (List.mem_append_right _ mem)) leaves,
      tokensAll, List.append_assoc]

end

mutual

/-- The tokens of an item are written as its lines. -/
theorem render_tokens (item : Item) (depth : Nat) (rest : List Token) :
    render [' ', ' ', ' ', ' '] depth (item.tokens ++ rest) =
      (item.lines depth).map Line.plain ++ render [' ', ' ', ' ', ' '] depth rest :=
  match item with
  | .line text => render_line { depth, text } rest
  | .block header first others => by
    have own := render_line { depth, text := header }
      (.blockStart :: (tokens first ++ (tokensAll others ++ .blockEnd :: rest)))
    have same : depth + 1 - 1 = depth := rfl
    simp only [tokens, lines, List.cons_append, List.append_assoc, List.nil_append, List.map_cons,
      List.map_append]
    rw [own, render, render_tokens first, render_tokensAll others, render, same]

theorem render_tokensAll (items : List Item) (depth : Nat) (rest : List Token) :
    render [' ', ' ', ' ', ' '] depth (tokensAll items ++ rest) =
      (linesAll depth items).map Line.plain ++ render [' ', ' ', ' ', ' '] depth rest :=
  match items with
  | [] => rfl
  | item :: items => by
    rw [tokensAll, linesAll, List.append_assoc, render_tokens item, render_tokensAll items,
      List.map_append, List.append_assoc]

end

section

variable {items : List Item} (h : ∀ l ∈ linesAll 0 items, Standing l.text)

include h

theorem lines_source :
    Text.lines (joinLines ((linesAll 0 items).map Line.plain)) = (linesAll 0 items).map Line.plain := by
  refine lines_joinLines (List.forall_mem_map.2 fun l mem => ?_)
    (List.forall_mem_map.2 fun l mem => ⟨?_, fun last => ?_⟩)
  · simp [Line.plain, (h l mem).newline]
  · obtain ⟨c, rest, text, -⟩ := (h l mem).opens
    simp [Line.plain, text]
  · have ends := List.mem_of_getLast? last
    simp [Line.plain, (h l mem).carriage] at ends

/-- The source of items gives the tokens of their nesting. -/
theorem tokens_source :
    Layout.tokens (some ['#']) (joinLines ((linesAll 0 items).map Line.plain)) = tokensAll items := by
  have run := tokensFrom_linesAll items 0 [] (fun l mem => (h l (by simpa using mem)).flush)
    (by simp [Leaves])
  rw [List.append_nil] at run
  rw [Layout.tokens, lines_source h]
  refine run.trans ?_
  simp [tokensFrom, levels]

/-- The source of items is indented as it would be. -/
theorem reindent_source :
    reindent (some ['#']) [' ', ' ', ' ', ' '] (joinLines ((linesAll 0 items).map Line.plain)) =
      joinLines ((linesAll 0 items).map Line.plain) := by
  have last : (joinLines ((linesAll 0 items).map Line.plain)).getLast? ≠ some '\n' := by
    refine getLast?_joinLines_ne (List.forall_mem_map.2 fun l mem => ?_)
      (List.forall_mem_map.2 fun l mem => ?_)
    · simp [Line.plain, (h l mem).newline]
    · obtain ⟨c, rest, text, -⟩ := (h l mem).opens
      simp [Line.plain, text]
  have written := render_tokensAll items 0 []
  rw [List.append_nil, render, List.append_nil] at written
  rw [reindent, tokens_source h, if_neg last, written, List.append_nil]

end

end Item

end Interlingua.Layout

import Interlingua.Layout
import Interlingua.Proofs.Syntax.Clause
import Interlingua.Proofs.Text.Occurrences

/-!
# Regular indentation stays as it is

Lines that are indented by four spaces for every block, and go no more than one block deeper at a
time, are not changed by making their indentation regular. No line may be taken for a comment or
leave a string open.
-/

namespace Interlingua

namespace Text

theorem endLines_eq {ls : List (List Char)} (h : ∀ l ∈ ls, l ≠ [] ∧ l.getLast? ≠ some '\r') :
    endLines ls = ls := by
  induction ls with
  | nil => rfl
  | cons l ls ih =>
    obtain ⟨⟨nonempty, other⟩, others⟩ := List.forall_mem_cons.1 h
    cases ls with
    | nil => simp [endLines, nonempty]
    | cons next rest => rw [endLines, dropReturn, if_neg other, ih others]

theorem lines_joinLines {ls : List (List Char)} (unbroken : ∀ l ∈ ls, '\n' ∉ l)
    (ends : ∀ l ∈ ls, l ≠ [] ∧ l.getLast? ≠ some '\r') : lines (joinLines ls) = ls := by
  cases ls with
  | nil => rfl
  | cons l ls => rw [lines, splitOn_joinLines unbroken, endLines_eq ends]

theorem endLines_append (front : List (List Char)) {back : List (List Char)} (h : back ≠ []) :
    endLines (front ++ back) = front.map dropReturn ++ endLines back := by
  induction front with
  | nil => rfl
  | cons line front ih =>
    obtain ⟨next, rest, shown⟩ : ∃ next rest, front ++ back = next :: rest :=
      List.exists_cons_of_ne_nil (by simp [h])
    rw [List.cons_append, shown, endLines, ← shown, ih, List.map_cons, List.cons_append]

theorem lines_append (front back : List Char) :
    lines (front ++ '\n' :: back) = lines (front ++ ['\n']) ++ lines back := by
  have one : endLines (splitOn '\n' []) = [] := rfl
  rw [lines, lines, lines, splitOn_append, splitOn_append,
    endLines_append _ (splitOn_ne_nil '\n' back), endLines_append _ (splitOn_ne_nil '\n' []), one,
    List.append_nil]

theorem lines_ne_nil {cs : List Char} (h : cs ≠ []) : lines cs ≠ [] := by
  obtain ⟨c, rest, rfl⟩ := List.exists_cons_of_ne_nil h
  obtain ⟨part, parts, shown⟩ := List.exists_cons_of_ne_nil (splitOn_ne_nil '\n' rest)
  rw [lines, splitOn, shown]
  split
  · simp [endLines]
  · cases parts <;> simp [consHead, endLines]

/-- A joined text ends like its last line. -/
theorem getLast?_joinLines (front : List (List Char)) {last : List Char} (h : last ≠ []) :
    (joinLines (front ++ [last])).getLast? = last.getLast? := by
  induction front with
  | nil => simp [joinLines]
  | cons l front ih =>
    have whole : joinLines (l :: front ++ [last]) = (l ++ ['\n']) ++ joinLines (front ++ [last]) := by
      cases front <;> simp [joinLines]
    obtain ⟨c, found⟩ := Option.isSome_iff_exists.1 (List.getLast?_isSome.2 h)
    rw [whole, List.getLast?_append, ih, found]
    rfl

theorem endsIn_joinLines {c : Char} (front : List (List Char)) {last : List Char}
    (h : EndsIn c last) : EndsIn c (joinLines (front ++ [last])) := by
  have nonempty : last ≠ [] := by
    rintro rfl
    cases h.1
  exact ⟨(getLast?_joinLines front nonempty).trans h.1, h.2⟩

/-- Lines with something on them make a text that ends in no line feed. -/
theorem getLast?_joinLines_ne {ls : List (List Char)} (unbroken : ∀ l ∈ ls, '\n' ∉ l)
    (nonempty : ∀ l ∈ ls, l ≠ []) : (joinLines ls).getLast? ≠ some '\n' := by
  rcases List.eq_nil_or_concat ls with none | ⟨front, l, found⟩
  · simp [none, joinLines]
  · rw [found, List.concat_eq_append] at unbroken nonempty ⊢
    rw [getLast?_joinLines front (nonempty l (by simp))]
    exact fun last => unbroken l (by simp) (List.mem_of_getLast? last)

end Text

namespace Layout

open Text

/-- A text without long quotes. -/
def Short (cs : List Char) : Prop :=
  ∀ quote ∈ longQuotes, ¬ quote <:+: cs

/-- A text that stands on a line of its own: it starts with a character that is neither blank nor
the start of a comment, and no long quote is in it. -/
structure Flush (cs : List Char) : Prop where
  opens : ∃ c rest, cs = c :: rest ∧ isBlank c = false ∧ c ≠ '#'
  short : Short cs

/-- Lines of which none is more than one block deeper than the line before it, the first after a
line at this depth. -/
def Climbs (depth : Nat) : List Line → Prop
  | [] => True
  | l :: ls => l.depth ≤ depth + 1 ∧ Climbs l.depth ls

/-- The widths of open blocks that are all indented by four spaces. -/
def levels : Nat → List Nat
  | 0 => []
  | depth + 1 => 4 * (depth + 1) :: levels depth

theorem length_levels (depth : Nat) : (levels depth).length = depth := by
  induction depth with
  | zero => rfl
  | succ depth ih => simp [levels, ih]

theorem head_levels (depth : Nat) : (levels depth).head?.getD 0 = 4 * depth := by
  cases depth <;> rfl

theorem shift_deeper (depth : Nat) :
    shift (levels depth) (4 * (depth + 1)) = ([.blockStart], levels (depth + 1)) := by
  have deeper : 4 * depth < 4 * (depth + 1) := by omega
  simp only [shift, head_levels, if_pos deeper, levels]

theorem shift_back {depth inner : Nat} (h : depth ≤ inner) :
    shift (levels inner) (4 * depth) = (List.replicate (inner - depth) .blockEnd, levels depth) := by
  have kept : (levels inner).dropWhile (4 * depth < ·) = levels depth := by
    induction inner with
    | zero =>
      obtain rfl : depth = 0 := by omega
      rfl
    | succ inner ih =>
      by_cases same : depth = inner + 1
      · subst same
        simp [levels]
      · have below : 4 * depth < 4 * (inner + 1) := by omega
        rw [levels, List.dropWhile_cons_of_pos (by simpa using below)]
        exact ih (by omega)
  have notDeeper : ¬ 4 * inner < 4 * depth := by omega
  simp only [shift, head_levels, if_neg notDeeper, kept, length_levels]

theorem widthFrom_spaces (width n : Nat) {c : Char} (visible : isBlank c = false)
    (rest : List Char) : widthFrom width (List.replicate n ' ' ++ c :: rest) = width + n := by
  induction n generalizing width with
  | zero =>
    have space : c ≠ ' ' := by
      rintro rfl
      exact absurd visible (by decide)
    have tab : c ≠ '\t' := by
      rintro rfl
      exact absurd visible (by decide)
    rw [List.replicate_zero, List.nil_append, widthFrom]
    · rfl
    · simp [space]
    · simp [tab]
  | succ n ih =>
    rw [List.replicate_succ, List.cons_append, widthFrom, ih]
    omega

theorem trimStart_spaces (n : Nat) {c : Char} (visible : isBlank c = false) (rest : List Char) :
    trimStart (List.replicate n ' ' ++ c :: rest) = c :: rest := by
  have blanks : ∀ b ∈ List.replicate n ' ', isBlank b = true := by
    intro b mem
    rw [List.eq_of_mem_replicate mem]
    decide
  rw [trimStart_append blanks, trimStart_cons visible]

/-- A line behind spaces enters or leaves blocks by their number. -/
theorem step_spaces (comment : Option (List Char)) (levels : List Nat) (n : Nat) {c : Char}
    {rest : List Char} (visible : isBlank c = false)
    (code : comment.any (startsWith · (c :: rest)) = false) :
    step comment { levels } (List.replicate n ' ' ++ c :: rest) =
      ((shift levels n).1 ++ [.line (c :: rest)],
        { levels := (shift levels n).2, quote := leftOpen? (c :: rest) }) := by
  have wide : width (List.replicate n ' ' ++ c :: rest) = n := by
    rw [width, widthFrom_spaces 0 n visible, Nat.zero_add]
  simp [step, trimStart_spaces n visible, wide, code]

theorem leftOpen?_eq_none {cs : List Char} (h : Short cs) : leftOpen? cs = none := by
  rw [leftOpen?, List.find?_eq_none]
  intro quote mem
  rw [count_eq_zero (h quote mem)]
  decide

/-- A line by itself only opens or closes blocks. -/
theorem step_plain (levels : List Nat) {l : Line} (h : Flush l.text) :
    step (some ['#']) { levels } l.plain =
      ((shift levels (4 * l.depth)).1 ++ [.line l.text],
        { levels := (shift levels (4 * l.depth)).2 }) := by
  obtain ⟨c, rest, text, visible, mark⟩ := h.opens
  have code : startsWith ['#'] (c :: rest) = false := by simp [startsWith, stripFront, Ne.symm mark]
  have closed : leftOpen? (c :: rest) = none := text ▸ leftOpen?_eq_none h.short
  have done := step_spaces (some ['#']) levels (4 * l.depth) visible code
  rw [closed] at done
  rw [Line.plain, text]
  exact done

theorem render_blockEnds (unit : List Char) (depth n : Nat) (rest : List Token) :
    render unit depth (List.replicate n .blockEnd ++ rest) = render unit (depth - n) rest := by
  induction n generalizing depth with
  | zero => rfl
  | succ n ih =>
    rw [List.replicate_succ, List.cons_append, render, ih]
    congr 1
    omega

theorem render_replicate_blockEnd (unit : List Char) (depth n : Nat) :
    render unit depth (List.replicate n .blockEnd) = [] := by
  simpa [render] using render_blockEnds unit depth n []

theorem flatten_replicate_spaces (depth : Nat) :
    (List.replicate depth [' ', ' ', ' ', ' ']).flatten = List.replicate (4 * depth) ' ' := by
  rw [show [' ', ' ', ' ', ' '] = List.replicate 4 ' ' from rfl, List.flatten_replicate_replicate,
    Nat.mul_comm]

theorem render_line (l : Line) (rest : List Token) :
    render [' ', ' ', ' ', ' '] l.depth (.line l.text :: rest) =
      l.plain :: render [' ', ' ', ' ', ' '] l.depth rest := by
  rw [render, flatten_replicate_spaces]
  rfl

/-- From a depth on, the stream of regular lines is rendered as the lines. -/
theorem render_tokensFrom {ls : List Line} (flush : ∀ l ∈ ls, Flush l.text) (depth : Nat)
    (climbs : Climbs depth ls) :
    render [' ', ' ', ' ', ' '] depth
      (tokensFrom (some ['#']) { levels := levels depth } (ls.map Line.plain)) =
      ls.map Line.plain := by
  induction ls generalizing depth with
  | nil => exact render_replicate_blockEnd _ depth _
  | cons l ls ih =>
    obtain ⟨own, others⟩ := List.forall_mem_cons.1 flush
    obtain ⟨near, rest⟩ := climbs
    have later := ih others l.depth rest
    rw [List.map_cons, tokensFrom, step_plain _ own]
    by_cases deeper : l.depth = depth + 1
    · rw [deeper, shift_deeper, ← deeper]
      dsimp only
      rw [List.append_assoc, List.singleton_append, render, ← deeper, List.singleton_append,
        render_line, later]
    · have back : l.depth ≤ depth := by omega
      have same : depth - (depth - l.depth) = l.depth := by omega
      rw [shift_back back]
      dsimp only
      rw [List.append_assoc, render_blockEnds, same, List.singleton_append, render_line, later]

theorem reindent_plain {ls : List Line} (flush : ∀ l ∈ ls, Flush l.text)
    (unbroken : ∀ l ∈ ls, '\n' ∉ l.text) (ends : ∀ l ∈ ls, ∃ c, EndsIn c l.text)
    (climbs : Climbs 0 ls) :
    reindent (some ['#']) [' ', ' ', ' ', ' '] (joinLines (ls.map Line.plain)) =
      joinLines (ls.map Line.plain) := by
  have whole : ∀ l ∈ ls.map Line.plain, '\n' ∉ l := by
    refine List.forall_mem_map.2 fun l mem => ?_
    have own := unbroken l mem
    simp [Line.plain, own]
  have visible : ∀ l ∈ ls.map Line.plain, l ≠ [] ∧ l.getLast? ≠ some '\r' := by
    refine List.forall_mem_map.2 fun l mem => ?_
    obtain ⟨c, own⟩ := ends l mem
    have last := (endsIn_append (List.replicate (4 * l.depth) ' ') own).1
    refine ⟨fun none => ?_, fun same => ?_⟩
    · rw [Line.plain] at none
      rw [none] at last
      cases last
    · obtain rfl : c = '\r' := Option.some.inj (last.symm.trans same)
      exact absurd own.2 (by decide)
  have last := getLast?_joinLines_ne whole fun l mem => (visible l mem).1
  rw [reindent, if_neg last, tokens, lines_joinLines whole visible, List.append_nil]
  exact congrArg joinLines (render_tokensFrom flush 0 climbs)

end Layout

end Interlingua

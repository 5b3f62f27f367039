import Interlingua.Number.Radix
import Interlingua.Proofs.Text.Quoting

/-!
# Literals and what they denote

A literal between single or double quotes is a sequence of glyphs: ordinary characters, backslashes with a
mark, and code points. Every glyph denotes one character, the same in all languages. Reading resolves the
marks that writing uses; those of the backspace and the form feed, and code points, are kept as they are
written. So reading gives what is denoted exactly if none of these occurs, and only then does the text
denote the same when it is quoted again.
-/

namespace Interlingua.Text

/-- The characters with an escape of one letter or mark. -/
inductive Mark where
  | backslash
  | single
  | double
  | newline
  | tab
  | carriageReturn
  | backspace
  | formFeed
  deriving DecidableEq

namespace Mark

/-- What stands behind the backslash. -/
def letter : Mark → Char
  | backslash => '\\'
  | single => '\''
  | double => '"'
  | newline => 'n'
  | tab => 't'
  | carriageReturn => 'r'
  | backspace => 'b'
  | formFeed => 'f'

def char : Mark → Char
  | backslash => '\\'
  | single => '\''
  | double => '"'
  | newline => '\n'
  | tab => '\t'
  | carriageReturn => '\r'
  | backspace => '\x08'
  | formFeed => '\x0c'

theorem letter_inj {m m' : Mark} (h : m.letter = m'.letter) : m = m' := by
  revert h
  cases m <;> cases m' <;> decide

theorem letter_ne_code (m : Mark) : m.letter ≠ 'u' := by
  cases m <;> decide

end Mark

/-- Four hexadecimal digits and the character with their value. No surrogate is a character. -/
structure CodePoint where
  digits : List Char
  char : Char
  length_digits : digits.length = 4
  value_digits : Radix.nat? 16 digits = some char.toNat

/-- A part of a literal between two delimiters that denotes one character. -/
inductive Glyph (delimiter : Char) where
  | plain (c : Char) (ordinary : c ∉ [delimiter, '\\', '\n', '\r'])
  | mark (m : Mark)
  | code (point : CodePoint)

namespace Glyph

variable {d : Char}

def text : Glyph d → List Char
  | plain c _ => [c]
  | mark m => ['\\', m.letter]
  | code point => '\\' :: 'u' :: point.digits

/-- The character that is denoted. -/
def char : Glyph d → Char
  | plain c _ => c
  | mark m => m.char
  | code point => point.char

/-- Whether reading knows the glyph. -/
def isResolved : Glyph d → Bool
  | plain _ _ => true
  | mark m => m ≠ .backspace && m ≠ .formFeed
  | code _ => false

/-- What a glyph is read as. -/
def read (g : Glyph d) : List Char :=
  if g.isResolved then [g.char] else g.text

end Glyph

def literal (d : Char) (gs : List (Glyph d)) : List Char :=
  d :: gs.flatMap Glyph.text ++ [d]

/-- The text is a literal for the value. -/
def Denotes (d : Char) (text value : List Char) : Prop :=
  ∃ gs : List (Glyph d), text = literal d gs ∧ value = gs.map Glyph.char

/-! What a literal denotes is determined by its text. -/

theorem notMem_of_natFrom? {radix value n : Nat} {c : Char} (other : Radix.digit? radix c = none)
    {cs : List Char} (h : Radix.natFrom? radix value cs = some n) : c ∉ cs := by
  induction cs generalizing value with
  | nil => simp
  | cons e cs ih =>
    obtain ⟨digit, own, later⟩ := Option.bind_eq_some_iff.1 h
    rintro (_ | ⟨_, mem⟩)
    · rw [other] at own
      cases own
    · exact ih later mem

theorem CodePoint.slash_notMem (point : CodePoint) : '\\' ∉ point.digits := by
  have value := point.value_digits
  unfold Radix.nat? at value
  split at value
  · cases value
  · exact notMem_of_natFrom? rfl value

namespace Glyph

variable {d : Char}

theorem head_text (slash : d ≠ '\\') (g : Glyph d) : g.text.head? ≠ some d := by
  cases g with
  | plain c ordinary =>
    rintro ⟨⟩
    simp at ordinary
  | mark m => simpa [text] using slash.symm
  | code point => simpa [text] using slash.symm

theorem text_ne_nil (g : Glyph d) : g.text ≠ [] := by
  cases g <;> simp [text]

/-- No glyph is the beginning of another. -/
theorem eq_of_append {g g' : Glyph d} {rest rest' : List Char}
    (h : g.text ++ rest = g'.text ++ rest') : g.char = g'.char ∧ rest = rest' := by
  have apart {c : Char} (ordinary : c ∉ [d, '\\', '\n', '\r']) : c ≠ '\\' := by
    rintro rfl
    simp at ordinary
  cases g with
  | plain c ordinary =>
    cases g' with
    | plain c' _ => exact List.cons.inj h
    | mark m => exact absurd (List.cons.inj h).1 (apart ordinary)
    | code point => exact absurd (List.cons.inj h).1 (apart ordinary)
  | mark m =>
    cases g' with
    | plain c' ordinary => exact absurd (List.cons.inj h).1.symm (apart ordinary)
    | mark m' =>
      obtain ⟨same, rest⟩ := List.cons.inj (List.cons.inj h).2
      exact ⟨congrArg Mark.char (Mark.letter_inj same), rest⟩
    | code point => exact absurd (List.cons.inj (List.cons.inj h).2).1 m.letter_ne_code
  | code point =>
    cases g' with
    | plain c' ordinary => exact absurd (List.cons.inj h).1.symm (apart ordinary)
    | mark m => exact absurd (List.cons.inj (List.cons.inj h).2).1.symm m.letter_ne_code
    | code point' =>
      have tails : point.digits ++ rest = point'.digits ++ rest' :=
        (List.cons.inj (List.cons.inj h).2).2
      obtain ⟨same, rest⟩ := List.append_inj tails (point.length_digits.trans point'.length_digits.symm)
      have values := point.value_digits
      rw [same, point'.value_digits] at values
      exact ⟨(Char.toNat_inj.1 (Option.some.inj values)).symm, rest⟩

theorem map_char_of_flatMap {gs gs' : List (Glyph d)} (h : gs.flatMap text = gs'.flatMap text) :
    gs.map char = gs'.map char := by
  induction gs generalizing gs' with
  | nil =>
    cases gs' with
    | nil => rfl
    | cons g' gs' => exact absurd (List.append_eq_nil_iff.1 h.symm).1 g'.text_ne_nil
  | cons g gs ih =>
    cases gs' with
    | nil => exact absurd (List.append_eq_nil_iff.1 h).1 g.text_ne_nil
    | cons g' gs' =>
      obtain ⟨same, rest⟩ := eq_of_append h
      rw [List.map_cons, List.map_cons, same, ih rest]

end Glyph

theorem Denotes.unique {d : Char} {text value value' : List Char} (h : Denotes d text value)
    (h' : Denotes d text value') : value = value' := by
  obtain ⟨gs, rfl, rfl⟩ := h
  obtain ⟨gs', same, rfl⟩ := h'
  exact Glyph.map_char_of_flatMap (List.append_cancel_right (List.cons.inj same).2)

/-! What is written. -/

section

variable {d : Char} (h : d = '\'' ∨ d = '"')

include h

/-- An escaped character is a glyph for the character. -/
theorem exists_glyph (c : Char) : ∃ g : Glyph d, g.text = escape d c ∧ g.char = c := by
  unfold escape
  split
  · exact ⟨.mark .backslash, rfl, rfl⟩
  · exact ⟨.mark .newline, rfl, rfl⟩
  · exact ⟨.mark .tab, rfl, rfl⟩
  · exact ⟨.mark .carriageReturn, rfl, rfl⟩
  · rename_i slash newline _ carriage
    by_cases own : c = d
    · rw [if_pos own, own]
      rcases h with rfl | rfl
      · exact ⟨.mark .single, rfl, rfl⟩
      · exact ⟨.mark .double, rfl, rfl⟩
    · rw [if_neg own]
      refine ⟨.plain c ?_, rfl, rfl⟩
      simp only [List.mem_cons, List.not_mem_nil, or_false, not_or]
      exact ⟨own, slash, newline, carriage⟩

/-- A quoted text is a literal for the text. -/
theorem denotes_quote (value : List Char) : Denotes d (quote d value) value := by
  suffices glyphs : ∃ gs : List (Glyph d),
      gs.flatMap Glyph.text = value.flatMap (escape d) ∧ gs.map Glyph.char = value by
    obtain ⟨gs, text, chars⟩ := glyphs
    exact ⟨gs, by rw [quote, literal, text], chars.symm⟩
  induction value with
  | nil => exact ⟨[], rfl, rfl⟩
  | cons c value ih =>
    obtain ⟨g, text, char⟩ := exists_glyph h c
    obtain ⟨gs, texts, chars⟩ := ih
    exact ⟨g :: gs, by simp [text, texts], by simp [char, chars]⟩

/-- A quoted text is a literal for what was meant exactly if that is the text. -/
theorem denotes_quote_iff {value meant : List Char} :
    Denotes d (quote d value) meant ↔ value = meant := by
  constructor
  · exact fun other => (denotes_quote h value).unique other
  · rintro rfl
    exact denotes_quote h value

end

/-! What is read. -/

theorem unescape_append {plain : List Char} (h : '\\' ∉ plain) (cs : List Char) :
    unescape (plain ++ cs) = plain ++ unescape cs := by
  induction plain with
  | nil => rfl
  | cons c plain ih =>
    obtain ⟨first, others⟩ := not_or.1 (fun mem => h (List.mem_cons.2 mem))
    rw [List.cons_append, unescape_cons (Ne.symm first), ih others, List.cons_append]

namespace Glyph

variable {d : Char}

theorem unescape_text (g : Glyph d) (cs : List Char) :
    unescape (g.text ++ cs) = g.read ++ unescape cs := by
  cases g with
  | plain c ordinary =>
    refine unescape_cons ?_ cs
    rintro rfl
    simp at ordinary
  | mark m => cases m <;> rfl
  | code point =>
    change '\\' :: 'u' :: unescape (point.digits ++ cs) = _
    rw [unescape_append point.slash_notMem]
    rfl

theorem unescape_flatMap_text (gs : List (Glyph d)) :
    unescape (gs.flatMap text) = gs.flatMap read := by
  induction gs with
  | nil => rfl
  | cons g gs ih => rw [List.flatMap_cons, unescape_text, ih, List.flatMap_cons]

theorem head_flatMap_text (slash : d ≠ '\\') (gs : List (Glyph d)) :
    (gs.flatMap text).head? ≠ some d := by
  cases gs with
  | nil => simp
  | cons g gs =>
    obtain ⟨c, rest, shown⟩ := List.exists_cons_of_ne_nil g.text_ne_nil
    have first := g.head_text slash
    rw [shown] at first
    rw [List.flatMap_cons, shown]
    exact first

/-- A glyph that is kept is longer than what it denotes. -/
theorem length_read (g : Glyph d) :
    1 ≤ g.read.length ∧ (g.read.length = 1 → g.isResolved = true) := by
  by_cases known : g.isResolved = true
  · rw [read, if_pos known]
    exact ⟨Nat.le_refl 1, fun _ => known⟩
  · have long : 2 ≤ g.text.length := by
      cases g with
      | plain c ordinary => exact absurd rfl known
      | mark m => exact Nat.le_refl 2
      | code point => simp [text]
    rw [read, if_neg known]
    exact ⟨by omega, by omega⟩

/-- What is read has the length of what is denoted only if every glyph is known. -/
theorem length_flatMap_read (gs : List (Glyph d)) :
    gs.length ≤ (gs.flatMap read).length ∧
      ((gs.flatMap read).length = gs.length → ∀ g ∈ gs, g.isResolved = true) := by
  induction gs with
  | nil => simp
  | cons g gs ih =>
    obtain ⟨least, known⟩ := g.length_read
    rw [List.flatMap_cons, List.length_append, List.length_cons]
    refine ⟨by omega, fun same => List.forall_mem_cons.2 ⟨known (by omega), ih.2 (by omega)⟩⟩

theorem flatMap_read_eq_iff (gs : List (Glyph d)) :
    gs.flatMap read = gs.map char ↔ ∀ g ∈ gs, g.isResolved = true := by
  constructor
  · intro same
    exact (length_flatMap_read gs).2 (by rw [same, List.length_map])
  · intro known
    induction gs with
    | nil => rfl
    | cons g gs ih =>
      obtain ⟨own, others⟩ := List.forall_mem_cons.1 known
      rw [List.flatMap_cons, read, if_pos own, ih others, List.map_cons, List.singleton_append]

end Glyph

/-- A literal is read as what it denotes, or denotes it when it is quoted again, exactly if it has no
glyph that reading keeps. -/
theorem unquote_literal {d : Char} (h : d = '\'' ∨ d = '"') (gs : List (Glyph d)) :
    unquote (literal d gs) = gs.flatMap Glyph.read ∧
    (unquote (literal d gs) = gs.map Glyph.char ↔ ∀ g ∈ gs, g.isResolved = true) ∧
    ∀ e, e = '\'' ∨ e = '"' →
      (Denotes e (quote e (unquote (literal d gs))) (gs.map Glyph.char) ↔
        ∀ g ∈ gs, g.isResolved = true) := by
  have delimiter : isQuote d = true := by
    rcases h with rfl | rfl <;> decide
  have first := Glyph.head_flatMap_text (ne_slash_of_isQuote delimiter) gs
  have body : unquote (literal d gs) = gs.flatMap Glyph.read := by
    rw [literal, unquote_delimited delimiter first, Glyph.unescape_flatMap_text]
  refine ⟨body, ?_, fun e quotes => ?_⟩
  · rw [body, Glyph.flatMap_read_eq_iff]
  · rw [denotes_quote_iff quotes, body, Glyph.flatMap_read_eq_iff]

def resolvedGlyphs : List (Glyph '\'') :=
  [.mark .newline, .plain '"' (by decide), .mark .backslash]

def keptGlyphs : List (Glyph '\'') :=
  [.mark .formFeed, .code ⟨['0', '0', 'E', '9'], 'é', rfl, by decide⟩]

theorem unquote_literal_mixed :
    unquote "'\\n\"\\\\'".toList = ['\n', '"', '\\'] ∧
    Denotes '"' (quote '"' (unquote "'\\n\"\\\\'".toList)) ['\n', '"', '\\'] ∧
    unquote "'\\f\\u00E9'".toList = "\\f\\u00E9".toList ∧
    ¬ Denotes '"' (quote '"' (unquote "'\\f\\u00E9'".toList)) ['\x0c', 'é'] := by
  obtain ⟨-, read, quoted⟩ := unquote_literal (.inl rfl) resolvedGlyphs
  obtain ⟨kept, -, changed⟩ := unquote_literal (.inl rfl) keptGlyphs
  have known : ∀ g ∈ resolvedGlyphs, g.isResolved = true := by
    simp [resolvedGlyphs, Glyph.isResolved]
  have unknown : ¬ ∀ g ∈ keptGlyphs, g.isResolved = true := by
    simp [keptGlyphs, Glyph.isResolved]
  exact ⟨read.2 known, (quoted '"' (.inr rfl)).2 known, kept,
    fun same => unknown ((changed '"' (.inr rfl)).1 same)⟩

/-- A backspace becomes a backslash and a letter. -/
theorem unquote_literal_backspace :
    Denotes '\'' ['\'', '\\', 'b', '\''] ['\x08'] ∧
    unquote ['\'', '\\', 'b', '\''] = ['\\', 'b'] ∧
    ¬ Denotes '"' (quote '"' (unquote ['\'', '\\', 'b', '\''])) ['\x08'] := by
  have read : unquote ['\'', '\\', 'b', '\''] = ['\\', 'b'] := by decide
  refine ⟨⟨[.mark .backspace], rfl, rfl⟩, read, ?_⟩
  rw [denotes_quote_iff (.inr rfl), read]
  decide

end Interlingua.Text

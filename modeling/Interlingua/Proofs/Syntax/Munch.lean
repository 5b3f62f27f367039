import Interlingua.Proofs.Number.Reread
import Interlingua.Proofs.Text.Words
import Mathlib.Data.List.Chain
import Mathlib.Data.List.TakeWhile

/-!
# Tokens by longest match

A text is taken apart into tokens from the left, each as long as can be, with blanks between them left
out. A token is an identifier, a number without sign, or one of the marks of a language: its operators
and punctuation. Two tokens that follow each other stay two exactly if the first does not go on with the
first character of the second.
-/

namespace Interlingua.Munch

open Text

def isIdentifier (cs : List Char) : Bool :=
  cs.head?.any (!·.isDigit) && cs.all isWordChar

def isDigits (cs : List Char) : Bool :=
  !cs.isEmpty && cs.all Char.isDigit

def dropSign : List Char → List Char
  | '+' :: cs | '-' :: cs => cs
  | cs => cs

/-- Whether a text is an exponent or nothing. -/
def isExponent : List Char → Bool
  | [] => true
  | c :: cs => (c = 'e' || c = 'E') && isDigits (dropSign cs)

/-- Digits with an optional fraction, which may be a point alone, and an optional exponent. -/
def isNumber (cs : List Char) : Bool :=
  cs.head?.any Char.isDigit &&
    match cs.dropWhile Char.isDigit with
    | '.' :: rest => isExponent (rest.dropWhile Char.isDigit)
    | rest => isExponent rest

section

variable (marks : List String)

def isToken (cs : List Char) : Bool :=
  isIdentifier cs || isNumber cs || marks.any (·.toList = cs)

/-- The longest token at the start of a text that has at most so many characters. -/
def longest? (cs : List Char) : Nat → Option (List Char)
  | 0 => none
  | n + 1 => if isToken marks (cs.take (n + 1)) then some (cs.take (n + 1)) else longest? cs n

/-- The tokens of a text after the next `skip` characters, none if something in it is no token. -/
def lexFrom : Nat → List Char → Option (List (List Char))
  | _, [] => some []
  | skip + 1, _ :: cs => lexFrom skip cs
  | 0, c :: cs =>
    if isBlank c then lexFrom 0 cs
    else
      match longest? marks (c :: cs) (cs.length + 1) with
      | none => none
      | some t => (lexFrom (t.length - 1) cs).map (t :: ·)

def lex (cs : List Char) : Option (List (List Char)) :=
  lexFrom marks 0 cs

end

/-! The longest match. -/

section

variable {marks : List String}

/-- No token goes on from a text with a character. -/
def Apart (marks : List String) (t : List Char) (c : Char) : Prop :=
  ∀ rest, isToken marks (t ++ c :: rest) = false

/-- What stands behind a text does not belong to a token that starts with it. -/
def Leaves (marks : List String) (t rest : List Char) : Prop :=
  ∀ c, rest.head? = some c → Apart marks t c

theorem longest?_append {t rest : List Char} (token : isToken marks t = true) (some : t ≠ [])
    (leaves : Leaves marks t rest) (n : Nat) :
    longest? marks (t ++ rest) (t.length + n) = .some t := by
  induction n with
  | zero =>
    obtain ⟨c, cs, rfl⟩ := List.exists_cons_of_ne_nil some
    rw [Nat.add_zero, List.length_cons, longest?, ← List.length_cons, List.take_left, if_pos token]
  | succ n ih =>
    have front : (t ++ rest).take (t.length + (n + 1)) = t ++ rest.take (n + 1) :=
      List.take_length_add_append (n + 1)
    rw [← Nat.add_assoc, longest?, Nat.add_assoc, front]
    cases rest with
    | nil => simp [token]
    | cons c rest =>
      have longer : isToken marks (t ++ c :: rest.take n) = false := leaves c rfl _
      rw [List.take_succ_cons, longer, if_neg Bool.false_ne_true, ih]

theorem exists_longest? {t cs : List Char} (token : isToken marks t = true) (some : t ≠ [])
    (front : t <+: cs) {n : Nat} (le : t.length ≤ n) :
    ∃ u, longest? marks cs n = .some u ∧ t.length ≤ u.length := by
  induction n with
  | zero => exact absurd (List.eq_nil_of_length_eq_zero (Nat.le_zero.1 le)) some
  | succ n ih =>
    rw [longest?]
    split
    · refine ⟨_, rfl, ?_⟩
      rw [List.length_take]
      exact Nat.le_min.2 ⟨le, front.length_le⟩
    · rename_i other
      have shorter : t.length ≠ n + 1 := by
        intro same
        rw [← same, ← List.prefix_iff_eq_take.1 front] at other
        exact other token
      exact ih (by omega)

theorem lexFrom_append (front rest : List Char) :
    lexFrom marks front.length (front ++ rest) = lex marks rest := by
  induction front with
  | nil => rfl
  | cons c front ih => exact ih

theorem lex_blank {c : Char} (blank : isBlank c = true) (rest : List Char) :
    lex marks (c :: rest) = lex marks rest := by
  rw [lex, lexFrom, if_pos blank]
  rfl

theorem lex_token {t rest : List Char} (token : isToken marks t = true)
    (visible : t.head?.any (!isBlank ·) = true) (leaves : Leaves marks t rest) :
    lex marks (t ++ rest) = (lex marks rest).map (t :: ·) := by
  cases t with
  | nil => cases visible
  | cons c t =>
    have shown : ¬ isBlank c = true := by simpa using visible
    have found := longest?_append token (List.cons_ne_nil c t) leaves rest.length
    rw [← List.length_append, List.cons_append, List.length_cons] at found
    rw [lex, List.cons_append, lexFrom, if_neg shown, found]
    exact congrArg (Option.map ((c :: t) :: ·)) (lexFrom_append t rest)

/-- A token that goes on with the character behind it is not found. -/
theorem lex_ne_of_isToken {t rest : List Char} {c : Char} (token : isToken marks (t ++ [c]) = true)
    (visible : t.head?.any (!isBlank ·) = true) (ts : List (List Char)) :
    lex marks (t ++ c :: rest) ≠ some (t :: ts) := by
  cases t with
  | nil => cases visible
  | cons d t =>
    have shown : ¬ isBlank d = true := by simpa using visible
    have front : d :: t ++ [c] <+: d :: t ++ c :: rest := ⟨rest, by simp⟩
    obtain ⟨u, found, longer⟩ := exists_longest? token (by simp) front front.length_le
    rw [List.cons_append, List.length_cons] at found
    rw [lex, List.cons_append, lexFrom, if_neg shown, found]
    intro same
    obtain ⟨_, -, same⟩ := Option.map_eq_some_iff.1 same
    rw [(List.cons.inj same).1, List.length_append] at longer
    exact absurd longer (Nat.not_succ_le_self _)

/-- Whether a text can be a token that is looked for: it does not start with a blank. -/
def IsUnit (marks : List String) (t : List Char) : Prop :=
  isToken marks t = true ∧ t.head?.any (!isBlank ·) = true

/-- A blank, or a text to which nothing of the next one belongs. -/
def Stands (marks : List String) (t u : List Char) : Prop :=
  t = [' '] ∨ Leaves marks t u

/-- A token that goes on with the first character of the next text. -/
def Merges (marks : List String) (t u : List Char) : Prop :=
  t.head?.any (!isBlank ·) = true ∧ ∃ c, u.head? = some c ∧ isToken marks (t ++ [c]) = true

theorem Merges.not_stands {t u : List Char} (h : Merges marks t u) : ¬ Stands marks t u := by
  obtain ⟨visible, c, first, token⟩ := h
  rintro (rfl | leaves)
  · cases visible
  · rw [leaves c first []] at token
    cases token

/-- Texts one after the other are told apart exactly if no token goes on into the next text. -/
theorem lex_flatten_iff {us : List (List Char)} (units : ∀ u ∈ us, u = [' '] ∨ IsUnit marks u)
    (seams : us.IsChain fun t u => Stands marks t u ∨ Merges marks t u) :
    lex marks us.flatten = some (us.filter (· ≠ [' '])) ↔ us.IsChain (Stands marks) := by
  induction us with
  | nil => exact ⟨fun _ => .nil, fun _ => rfl⟩
  | cons t us ih =>
    have ⟨own, others⟩ := List.forall_mem_cons.1 units
    have ⟨seam, seams⟩ := List.isChain_cons.1 seams
    have later := ih others seams
    rw [List.isChain_cons, ← later, List.flatten_cons]
    rcases own with rfl | ⟨token, visible⟩
    · have next : ∀ u ∈ us.head?, Stands marks [' '] u := fun _ _ => .inl rfl
      rw [List.singleton_append, lex_blank (by decide)]
      simpa using fun _ => next
    · have full : t ≠ [' '] := by
        rintro rfl
        cases visible
      rw [List.filter_cons_of_pos (by simpa using full)]
      cases us with
      | nil =>
        rw [List.flatten_nil, lex_token token visible (fun _ none => by cases none)]
        simp
      | cons u us =>
        have some : u ≠ [] := by
          rintro rfl
          rcases others [] List.mem_cons_self with blank | ⟨-, shown⟩
          · cases blank
          · cases shown
        have first : (u :: us).flatten.head? = u.head? := by
          rw [List.flatten_cons, List.head?_append_of_ne_nil _ some]
        rcases seam u rfl with stands | merges
        · have leaves : Leaves marks t (u :: us).flatten := by
            rw [Leaves, first]
            exact stands.resolve_left full
          rw [lex_token token visible leaves]
          simp [stands]
        · have ⟨_, c, front, longer⟩ := merges
          obtain ⟨rest, split⟩ := List.head?_eq_some_iff.1 (first.trans front)
          refine iff_of_false ?_ fun stands => merges.not_stands (stands.1 u rfl)
          rw [split]
          exact lex_ne_of_isToken longer visible _

/-! Which tokens stay apart. -/

/-- Marks are made of characters that stand neither in words nor between tokens, and none starts with a
parenthesis but the parentheses themselves. -/
structure Regular (marks : List String) : Prop where
  full : ∀ m ∈ marks, m.toList ≠ []
  plain : ∀ m ∈ marks, m.toList.all (fun c => !isWordChar c && !isBlank c) = true
  alone : ∀ m ∈ marks, (m.toList.head? = some '(' ∨ m.toList.head? = some ')') → m.toList.length = 1

theorem isWordChar_of_isDigit {c : Char} (h : c.isDigit = true) : isWordChar c = true :=
  forall_isDigit (P := isWordChar) (by decide +kernel) h

theorem isDigits_iff {t : List Char} : isDigits t = true ↔ t ≠ [] ∧ ∀ c ∈ t, c.isDigit = true := by
  simp [isDigits]

theorem isIdentifier_iff {t : List Char} :
    isIdentifier t = true ↔ t.head?.any (!·.isDigit) = true ∧ ∀ c ∈ t, isWordChar c = true := by
  simp [isIdentifier]

theorem isToken_of_mem {m : String} (mem : m ∈ marks) : isToken marks m.toList = true := by
  have found : marks.any (·.toList = m.toList) = true := List.any_eq_true.2 ⟨m, mem, by simp⟩
  simp [isToken, found]

theorem isToken_of_isIdentifier {t : List Char} (h : isIdentifier t = true) : isToken marks t = true := by
  simp [isToken, h]

theorem head?_isDigits {t : List Char} (h : isDigits t = true) (rest : List Char) :
    (t ++ rest).head?.any Char.isDigit = true := by
  obtain ⟨some, all⟩ := isDigits_iff.1 h
  obtain ⟨c, t, rfl⟩ := List.exists_cons_of_ne_nil some
  exact all c List.mem_cons_self

theorem isNumber_of_isDigits {t : List Char} (h : isDigits t = true) : isNumber t = true := by
  have first := head?_isDigits h []
  have none : t.dropWhile Char.isDigit = [] := List.dropWhile_eq_nil_iff.2 (isDigits_iff.1 h).2
  rw [List.append_nil] at first
  rw [isNumber, first, none]
  rfl

/-- A number goes on with a point. -/
theorem isNumber_point {t : List Char} (h : isDigits t = true) : isNumber (t ++ ['.']) = true := by
  rw [isNumber, head?_isDigits h, List.dropWhile_append_of_pos (isDigits_iff.1 h).2]
  rfl

theorem isNumber_cons_eq_false {t : List Char} (h : isDigits t = true) {c : Char}
    (other : isWordChar c = false) (point : c ≠ '.') (rest : List Char) :
    isNumber (t ++ c :: rest) = false := by
  have digit : ¬ c.isDigit = true := by
    intro digit
    rw [isWordChar_of_isDigit digit] at other
    cases other
  have small : c ≠ 'e' := by
    rintro rfl
    cases other
  have great : c ≠ 'E' := by
    rintro rfl
    cases other
  rw [isNumber, head?_isDigits h, List.dropWhile_append_of_pos (isDigits_iff.1 h).2,
    List.dropWhile_cons_of_neg digit, Bool.true_and]
  split
  · rename_i same
    exact absurd (List.cons.inj same).1 point
  · simp [isExponent, small, great]

theorem isToken_of_isDigits {t : List Char} (h : isDigits t = true) : isToken marks t = true := by
  simp [isToken, isNumber_of_isDigits h]

theorem isToken_point {t : List Char} (h : isDigits t = true) : isToken marks (t ++ ['.']) = true := by
  simp [isToken, isNumber_point h]

theorem isUnit_of_isIdentifier {t : List Char} (h : isIdentifier t = true) : IsUnit marks t := by
  refine ⟨isToken_of_isIdentifier h, ?_⟩
  obtain ⟨first, letters⟩ := isIdentifier_iff.1 h
  cases t with
  | nil => cases first
  | cons c t => simp [isBlank_of_isWordChar (letters c List.mem_cons_self)]

theorem isUnit_of_isDigits {t : List Char} (h : isDigits t = true) : IsUnit marks t := by
  refine ⟨isToken_of_isDigits h, ?_⟩
  obtain ⟨some, all⟩ := isDigits_iff.1 h
  obtain ⟨c, t, rfl⟩ := List.exists_cons_of_ne_nil some
  simp [isBlank_of_isWordChar (isWordChar_of_isDigit (all c List.mem_cons_self))]

/-- What starts with no character of a word is a mark or no token. -/
theorem isToken_cons {c : Char} (h : isWordChar c = false) (cs : List Char) :
    isToken marks (c :: cs) = marks.any (·.toList = c :: cs) := by
  have digit : c.isDigit = false := Bool.eq_false_iff.2 fun digit => by
    rw [isWordChar_of_isDigit digit] at h
    cases h
  simp [isToken, isIdentifier, isNumber, h, digit]

section

variable (regular : Regular marks)

include regular

/-- A text with a blank or a character of a word in it is no mark. -/
theorem any_marks_eq_false (cs : List Char) {c : Char} (mem : c ∈ cs)
    (h : isWordChar c = true ∨ isBlank c = true) : marks.any (·.toList = cs) = false := by
  rw [List.any_eq_false]
  intro m among same
  rw [decide_eq_true_eq] at same
  have own := List.all_eq_true.1 (regular.plain m among) c (same ▸ mem)
  rcases h with h | h <;> simp [h] at own

theorem isUnit_of_mem {m : String} (mem : m ∈ marks) : IsUnit marks m.toList := by
  refine ⟨isToken_of_mem mem, ?_⟩
  obtain ⟨c, cs, shown⟩ := List.exists_cons_of_ne_nil (regular.full m mem)
  have own := List.all_eq_true.1 (regular.plain m mem) c (by rw [shown]; exact List.mem_cons_self)
  rw [Bool.and_eq_true] at own
  simpa [shown] using own.2

theorem apart_of_mem {m : String} (mem : m ∈ marks) {c : Char}
    (h : isWordChar c = true ∨ isBlank c = true) : Apart marks m.toList c := by
  intro rest
  obtain ⟨d, cs, shown⟩ := List.exists_cons_of_ne_nil (regular.full m mem)
  have own := List.all_eq_true.1 (regular.plain m mem) d (by rw [shown]; exact List.mem_cons_self)
  rw [Bool.and_eq_true, Bool.not_eq_true'] at own
  rw [shown, List.cons_append, isToken_cons own.1]
  exact any_marks_eq_false regular _ (by simp) h

theorem apart_parenthesis {p : Char} (h : p = '(' ∨ p = ')') (c : Char) : Apart marks [p] c := by
  intro rest
  have plain : isWordChar p = false := by rcases h with rfl | rfl <;> decide
  rw [List.singleton_append, isToken_cons plain, List.any_eq_false]
  intro m among same
  rw [decide_eq_true_eq] at same
  have alone := regular.alone m among
  rw [same] at alone
  have short := alone (h.imp (congrArg some) (congrArg some))
  simp at short

theorem apart_of_isIdentifier {t : List Char} (word : isIdentifier t = true) {c : Char}
    (h : isWordChar c = false) : Apart marks t c := by
  intro rest
  obtain ⟨first, letters⟩ := isIdentifier_iff.1 word
  cases t with
  | nil => cases first
  | cons d t =>
    have digit : d.isDigit = false := by simpa using first
    have mark := any_marks_eq_false regular (d :: t ++ c :: rest) List.mem_cons_self
      (.inl (letters d List.mem_cons_self))
    have name : isIdentifier (d :: t ++ c :: rest) = false := by simp [isIdentifier, h]
    have number : isNumber (d :: t ++ c :: rest) = false := by simp [isNumber, digit]
    rw [isToken, name, number, mark, Bool.or_self, Bool.or_self]

theorem apart_of_isDigits {t : List Char} (digits : isDigits t = true) {c : Char}
    (h : isWordChar c = false) (point : c ≠ '.') : Apart marks t c := by
  intro rest
  obtain ⟨some, all⟩ := isDigits_iff.1 digits
  have number := isNumber_cons_eq_false digits h point rest
  cases t with
  | nil => exact absurd rfl some
  | cons d t =>
    have digit : d.isDigit = true := all d List.mem_cons_self
    have mark := any_marks_eq_false regular (d :: t ++ c :: rest) List.mem_cons_self
      (.inl (isWordChar_of_isDigit digit))
    have name : isIdentifier (d :: t ++ c :: rest) = false := by simp [isIdentifier, digit]
    rw [isToken, name, number, mark, Bool.or_self, Bool.or_self]

end

end

end Interlingua.Munch

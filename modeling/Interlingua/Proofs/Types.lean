import Interlingua.Proofs.Text.Occurrences
import Interlingua.Types

/-!
# Types that can be spelled

Not every declared type comes from a spelling. A spelled base type is known, a spelled tuple has a
component, and a spelled array is homogeneous exactly if its elements are of a closed type. A tuple is
read back from its spelling unless it has no component, or a single one of which nothing is known.
-/

namespace Interlingua

@[simp] theorem BaseType.ofSpelling_spelling (t : BaseType) : ofSpelling t.spelling.toList = t := by
  cases t <;> decide

namespace DeclaredType

inductive Spelled : DeclaredType → Prop where
  | base {type : BaseType} (known : type.isKnown = true) : Spelled (base type)
  | tuple {types : List BaseType} (inhabited : types ≠ []) : Spelled (tuple types)
  | arrayOf (element : BaseType) : Spelled (arrayOf element)
  | named (name : String) : Spelled (named name)
  | unknown : Spelled unknown

open Text in
theorem spelled_split (sep : Char) (text : List Char) (read : List Char → BaseType) :
    Spelled (tuple ((splitOn sep text).map read)) :=
  .tuple fun empty => splitOn_ne_nil sep text (List.map_eq_nil_iff.1 empty)

theorem spelled_of_known (type : BaseType) (name : String) :
    Spelled (if type.isKnown then base type else named name) := by
  split
  · exact .base ‹_›
  · exact .named name

theorem spelled_tuple? {text : List Char} {type : DeclaredType} (h : tuple? text = some type) :
    Spelled type := by
  obtain ⟨inner, -, found⟩ := Option.bind_eq_some_iff.1 h
  split at found
  · cases found
    exact spelled_split ',' inner _
  · split at found
    · cases found
      exact .tuple (List.cons_ne_nil _ _)
    · cases found

theorem spelled_array? {text : List Char} {type : DeclaredType} (h : array? text = some type) :
    Spelled type := by
  obtain ⟨element, -, rfl⟩ := Option.map_eq_some_iff.1 h
  exact .arrayOf _

theorem spelled_parse (spelling : List Char) : Spelled (parse spelling) := by
  rw [parse]
  split
  · exact .unknown
  · cases found : tuple? (Text.trim spelling) with
    | some type => exact spelled_tuple? found
    | none =>
      cases found' : array? (Text.trim spelling) with
      | some type => exact spelled_array? found'
      | none =>
        change Spelled (Option.getD none (plain (Text.trim spelling)))
        rw [Option.getD_none, plain]
        exact spelled_of_known _ _

/-! Tuples. -/

open Text

theorem spelling_tuple (types : List BaseType) :
    (tuple types).spelling.toList =
      '[' :: [',', ' '].intercalate (types.map fun t => t.spelling.toList) ++ [']'] := by
  simp [spelling, Function.comp_def]

theorem bracketed?_eq (inner : List Char) : bracketed? ('[' :: inner ++ [']']) = some inner := by
  have front : stripFront ['['] ('[' :: inner ++ [']']) = some (inner ++ [']']) := by
    simp [stripFront]
  rw [bracketed?, front]
  exact stripBack_eq_some.2 rfl

/-- A text in square brackets is read as a tuple if it can be. -/
theorem parse_bracketed (inner : List Char) :
    parse ('[' :: inner ++ [']']) =
      (tuple? ('[' :: inner ++ [']']) <|> array? ('[' :: inner ++ [']'])).getD
        (plain ('[' :: inner ++ [']'])) := by
  have closed : EndsIn ']' ('[' :: inner ++ [']']) := endsIn_append ('[' :: inner) ⟨rfl, by decide⟩
  have trimmed : trim ('[' :: inner ++ [']']) = '[' :: inner ++ [']'] :=
    trim_of_visible (by decide) closed
  rw [parse, trimmed, if_neg]
  simp

theorem ofSpelling_padded (type : BaseType) {pad : List Char} (blank : pad = [] ∨ pad = [' ']) :
    ',' ∉ pad ++ type.spelling.toList ∧ BaseType.ofSpelling (pad ++ type.spelling.toList) = type := by
  rcases blank with rfl | rfl <;> cases type <;> decide

/-- The components of a tuple, each read from its part of the spelling. -/
theorem ofSpelling_components (type : BaseType) (types : List BaseType) {pad : List Char}
    (blank : pad = [] ∨ pad = [' ']) :
    (splitOn ',' (pad ++ [',', ' '].intercalate ((type :: types).map fun t => t.spelling.toList))).map
      BaseType.ofSpelling = type :: types := by
  obtain ⟨comma, read⟩ := ofSpelling_padded type blank
  induction types generalizing type pad with
  | nil => simp [splitOn_of_notMem comma, read]
  | cons next types ih =>
    obtain ⟨comma', read'⟩ := ofSpelling_padded next (.inr rfl)
    have later := ih next (.inr rfl) comma' read'
    rw [List.map_cons, List.map_cons, List.intercalate_cons_cons, List.append_assoc,
      ← List.append_assoc, List.cons_append, splitOn_append_cons comma, List.map_cons, read]
    exact congrArg _ later

/-- A tuple is read back from its spelling, unless nothing is known of its only component. -/
theorem parse_spelling_tuple {types : List BaseType} (some : types ≠ []) :
    parse (tuple types).spelling.toList = tuple types ↔ types ≠ [.unknown] := by
  match types with
  | [] => exact absurd rfl some
  | [type] => cases type <;> decide
  | type :: next :: rest =>
    have components := ofSpelling_components type (next :: rest) (.inl rfl)
    have comma : ',' ∈ [',', ' '].intercalate
        ((type :: next :: rest).map fun t => t.spelling.toList) := by
      simp
    rw [spelling_tuple, parse_bracketed, tuple?, bracketed?_eq, Option.bind_some, if_pos comma]
    rw [List.nil_append] at components
    rw [components]
    simp

end DeclaredType

end Interlingua

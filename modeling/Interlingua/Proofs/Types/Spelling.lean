import Interlingua.Proofs.Types
import Mathlib.Data.List.DropRight

/-!
# Stable spellings

The types that spellings denote are described without a spelling: a base type is known, a tuple has a
component and is not the one of which nothing is known, and the name of a nominal type is a text that is
read in no other way. Each of these types is read back from its own spelling, so that spelling a type
that was read and reading it again changes nothing, however it was written at first.
-/

namespace Interlingua

namespace Text

theorem trimEnd_cons {c : Char} (visible : isBlank c = false) (cs : List Char) :
    trimEnd (c :: cs) = c :: trimEnd cs := by
  rw [trimEnd, List.reverse_cons, List.dropWhile_append]
  split
  · rename_i none
    simp [trimEnd, visible, List.isEmpty_iff.1 none]
  · simp [trimEnd]

/-- Nothing is left to trim. -/
theorem trim_trim (cs : List Char) : trim (trim cs) = trim cs := by
  have front : trimStart (trim cs) = trim cs := by
    cases first : trimStart cs with
    | nil =>
      rw [trim, first]
      rfl
    | cons c rest =>
      have visible : isBlank c = false := by
        have head := List.head?_dropWhile_not isBlank cs
        rw [show cs.dropWhile isBlank = c :: rest from first] at head
        exact head
      rw [trim, first, trimEnd_cons visible, trimStart_cons visible]
  have back : trimEnd (trim cs) = trim cs := List.rdropWhile_idempotent isBlank (trimStart cs)
  rw [trim, front, back]

end Text

open Text

namespace DeclaredType

/-- A text that is read as a name: there are no blanks around it, it is no base type, and its brackets
make neither a tuple nor an array. -/
structure IsName (text : List Char) : Prop where
  trimmed : trim text = text
  visible : text ≠ []
  unknown : text.map Char.toLower ≠ "unknown".toList
  base : (BaseType.ofSpelling text).isKnown = false
  tuple : ∀ inner, text = '[' :: inner ++ [']'] →
    ',' ∉ inner ∧ (BaseType.ofSpelling inner).isKnown = false
  array : ∀ element, text ≠ element ++ ['[', ']']

/-- The types that spellings denote. -/
inductive Denoted : DeclaredType → Prop where
  | base {type : BaseType} (known : type.isKnown = true) : Denoted (base type)
  | tuple {types : List BaseType} (inhabited : types ≠ []) (known : types ≠ [.unknown]) :
    Denoted (tuple types)
  | arrayOf (element : BaseType) : Denoted (arrayOf element)
  | named {text : List Char} (name : IsName text) : Denoted (named (String.ofList text))
  | unknown : Denoted unknown

theorem bracketed?_eq_some {text inner : List Char} :
    bracketed? text = some inner ↔ text = '[' :: inner ++ [']'] := by
  simp only [bracketed?, Option.bind_eq_some_iff, stripFront_eq_some, stripBack_eq_some]
  constructor
  · rintro ⟨_, rfl, rfl⟩
    rfl
  · rintro rfl
    exact ⟨_, rfl, rfl⟩

theorem tuple?_eq_none_iff {text : List Char} :
    tuple? text = none ↔ ∀ inner, text = '[' :: inner ++ [']'] →
      ',' ∉ inner ∧ (BaseType.ofSpelling inner).isKnown = false := by
  simp only [tuple?, Option.bind_eq_none_iff, bracketed?_eq_some]
  refine forall₂_congr fun inner _ => ?_
  by_cases comma : ',' ∈ inner <;> simp [comma]

theorem array?_eq_none_iff {text : List Char} :
    array? text = none ↔ ∀ element, text ≠ element ++ ['[', ']'] := by
  rw [array?, Option.map_eq_none_iff, Option.eq_none_iff_forall_ne_some]
  simp only [ne_eq, stripBack_eq_some]

/-- A tuple with a comma in its spelling has more than one component. -/
theorem denoted_split {inner : List Char} (comma : ',' ∈ inner) :
    Denoted (tuple ((splitOn ',' inner).map BaseType.ofSpelling)) := by
  have several : 2 ≤ (splitOn ',' inner).length := by
    rw [length_splitOn]
    have := List.count_pos_iff.2 comma
    omega
  refine .tuple (fun none => ?_) (fun one => ?_)
  · simp [List.map_eq_nil_iff.1 none] at several
  · have length := congrArg List.length one
    simp only [List.length_map, List.length_singleton] at length
    omega

theorem denoted_tuple? {text : List Char} {type : DeclaredType} (h : tuple? text = some type) :
    Denoted type := by
  obtain ⟨inner, -, found⟩ := Option.bind_eq_some_iff.1 h
  split at found
  · cases found
    exact denoted_split ‹_›
  · split at found
    · rename_i known
      cases found
      refine .tuple (List.cons_ne_nil _ _) fun same => ?_
      rw [List.head_eq_of_cons_eq same] at known
      cases known
    · cases found

theorem denoted_plain {text : List Char} (trimmed : trim text = text) (visible : text ≠ [])
    (unknown : text.map Char.toLower ≠ "unknown".toList) (noTuple : tuple? text = none)
    (noArray : array? text = none) : Denoted (plain text) := by
  rw [plain]
  split
  · exact .base ‹_›
  · rename_i base
    exact .named ⟨trimmed, visible, unknown, Bool.eq_false_iff.2 base,
      tuple?_eq_none_iff.1 noTuple, array?_eq_none_iff.1 noArray⟩

theorem denoted_parse (spelling : List Char) : Denoted (parse spelling) := by
  simp only [parse]
  split
  · exact .unknown
  · rename_i readable
    simp only [Bool.or_eq_true, List.isEmpty_iff, decide_eq_true_eq, not_or] at readable
    cases tuple : tuple? (trim spelling) with
    | some type => exact denoted_tuple? tuple
    | none =>
      cases array : array? (trim spelling) with
      | some type =>
        obtain ⟨element, -, rfl⟩ := Option.map_eq_some_iff.1 array
        exact .arrayOf _
      | none =>
        rw [Option.orElse_eq_orElse, Option.orElse_eq_or, Option.or_self, Option.getD_none]
        exact denoted_plain (trim_trim spelling) readable.1 readable.2 tuple array

/-- A name is spelled as it is, and nothing else is read from it. -/
theorem parse_of_isName {text : List Char} (name : IsName text) :
    parse text = named (String.ofList text) := by
  have readable : ¬ ((text.isEmpty || text.map Char.toLower = "unknown".toList) = true) := by
    simpa only [Bool.or_eq_true, List.isEmpty_iff, decide_eq_true_eq, not_or] using
      ⟨name.visible, name.unknown⟩
  have tuple : tuple? text = none := tuple?_eq_none_iff.2 name.tuple
  have array : array? text = none := array?_eq_none_iff.2 name.array
  simp only [parse, name.trimmed, if_neg readable, tuple, array]
  simp [plain, name.base]

theorem parse_spelling_of_denoted {type : DeclaredType} (h : Denoted type) :
    parse type.spelling.toList = type := by
  cases h with
  | @base base known =>
    revert known
    cases base <;> decide
  | tuple inhabited known => exact (parse_spelling_tuple inhabited).2 known
  | arrayOf element => cases element <;> decide
  | @named text name =>
    rw [spelling, String.toList_ofList]
    exact parse_of_isName name
  | unknown => decide

/-- A type that was read from some spelling is read back from its own, and the types that are read
from a spelling are those that are denoted. -/
theorem parse_spelling_parse :
    (∀ spelling : List Char, parse (parse spelling).spelling.toList = parse spelling) ∧
    ∀ type : DeclaredType, (∃ spelling, parse spelling = type) ↔ Denoted type := by
  have stable : ∀ spelling : List Char, parse (parse spelling).spelling.toList = parse spelling :=
    fun spelling => parse_spelling_of_denoted (denoted_parse spelling)
  refine ⟨stable, fun type => ⟨?_, fun denoted => ⟨_, parse_spelling_of_denoted denoted⟩⟩⟩
  rintro ⟨spelling, rfl⟩
  exact denoted_parse spelling

end DeclaredType

end Interlingua

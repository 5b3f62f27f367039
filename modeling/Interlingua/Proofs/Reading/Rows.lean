import Interlingua.Proofs.Layout.Reindent
import Interlingua.Record.Comment
import Mathlib.Data.List.DropRight

/-!
# Rows of a prepared source

Before a source is parsed the comments of its records are cut off, and where blocks are marked by
indentation it is made regular. Both keep every line on its row: the first cuts a line at the end, the
second changes the blanks at its start and may drop a carriage return. So the row that is found with a
record is the row of the parsed text on which its consumer starts.
-/

namespace Interlingua

open Text

namespace Record

variable {mark line : List Char}

/-- A line with the comment of a record: the last start of such a comment, followed by a text in
braces. -/
structure Commented (mark line code payload : List Char) : Prop where
  line_eq : line = code ++ opening mark ++ payload
  last : ∀ front back, line = front ++ opening mark ++ back → front.length ≤ code.length
  braced : isBraced (trim payload) = true

theorem commented_iff {code payload : List Char} :
    Commented mark line code payload ↔
      cutLast (opening mark) line = some (code, payload) ∧ isBraced (trim payload) = true := by
  have full : opening mark ≠ [] := by simp [opening]
  rw [cutLast_eq_some_iff full, and_assoc]
  exact ⟨fun h => ⟨h.line_eq, h.last, h.braced⟩, fun ⟨whole, last, braced⟩ => ⟨whole, last, braced⟩⟩

/-- A line is cut at the comment of its record, and the record is read behind the start of it. -/
theorem decodeLine_eq_some_iff {kept : List Char} {record : Option Record} :
    decodeLine mark line = some (kept, record) ↔
      ∃ code payload, Commented mark line code payload ∧ kept = trimEnd code ∧
        record = (Json.parse (trim payload)).bind salvage? := by
  rw [decodeLine, Option.bind_eq_some_iff]
  constructor
  · rintro ⟨⟨code, payload⟩, cut, found⟩
    dsimp only at found
    split at found
    · next braced =>
      cases found
      exact ⟨code, payload, commented_iff.2 ⟨cut, braced⟩, rfl, rfl⟩
    · cases found
  · rintro ⟨code, payload, h, rfl, rfl⟩
    obtain ⟨cut, braced⟩ := commented_iff.1 h
    exact ⟨(code, payload), cut, if_pos braced⟩

/-- What is left of a line: all of it, or its code without the blanks before the comment. -/
inductive Kept (mark line : List Char) : List Char → Prop where
  | whole (h : ∀ code payload, ¬ Commented mark line code payload) : Kept mark line line
  | cut {code payload : List Char} (h : Commented mark line code payload) :
    Kept mark line (trimEnd code)

theorem kept_strip (mark line : List Char) : Kept mark line (strip mark line) := by
  rw [strip]
  cases found : decodeLine mark line with
  | none =>
    refine .whole fun code payload h => ?_
    have decoded := decodeLine_eq_some_iff.2 ⟨code, payload, h, rfl, rfl⟩
    rw [found] at decoded
    cases decoded
  | some parts =>
    obtain ⟨kept, record⟩ := parts
    obtain ⟨code, payload, h, rfl, -⟩ := decodeLine_eq_some_iff.1 found
    exact .cut h

theorem Kept.subset {kept : List Char} (h : Kept mark line kept) : kept ⊆ line := by
  cases h with
  | whole => exact List.Subset.refl line
  | @cut code payload h =>
    intro c mem
    have own : c ∈ code := by
      have inside := (List.dropWhile_sublist isBlank).subset (List.mem_reverse.1 mem)
      exact List.mem_reverse.1 inside
    rw [h.line_eq, List.append_assoc]
    exact List.mem_append_left _ own

theorem splitOn_scan (mark source : List Char) :
    splitOn '\n' (scan mark source).code = (splitOn '\n' source).map (strip mark) := by
  have unbroken : ∀ l ∈ (splitOn '\n' source).map (strip mark), '\n' ∉ l :=
    List.forall_mem_map.2 fun l mem feed => (of_mem_splitOn mem).1 ((kept_strip mark l).subset feed)
  obtain ⟨line, ls, shown⟩ := List.exists_cons_of_ne_nil (splitOn_ne_nil '\n' source)
  rw [scan]
  rw [shown] at unbroken ⊢
  exact splitOn_joinLines unbroken

theorem recordAt?_eq_some_iff {index row : Nat} {r : Record} :
    recordAt? mark (line, index) = some (row, r) ↔
      index = row ∧ ∃ code payload, Commented mark line code payload ∧
        (Json.parse (trim payload)).bind salvage? = some r := by
  constructor
  · intro found
    obtain ⟨⟨kept, record⟩, decoded, mapped⟩ := Option.bind_eq_some_iff.1 found
    obtain ⟨r, rfl, same⟩ := Option.map_eq_some_iff.1 mapped
    cases same
    obtain ⟨code, payload, h, -, read⟩ := decodeLine_eq_some_iff.1 decoded
    exact ⟨rfl, code, payload, h, read.symm⟩
  · rintro ⟨rfl, code, payload, h, read⟩
    have decoded := decodeLine_eq_some_iff.2 ⟨code, payload, h, rfl, rfl⟩
    simp [recordAt?, decoded, read]

/-- The records that are found, each with the row of its line. -/
theorem mem_records_scan {source : List Char} {row : Nat} {r : Record} :
    (row, r) ∈ (scan mark source).records ↔
      ∃ line code payload, (splitOn '\n' source)[row]? = some line ∧
        Commented mark line code payload ∧ (Json.parse (trim payload)).bind salvage? = some r := by
  rw [scan, List.mem_filterMap]
  constructor
  · rintro ⟨⟨line, index⟩, place, found⟩
    obtain ⟨rfl, code, payload, h, read⟩ := recordAt?_eq_some_iff.1 found
    exact ⟨line, code, payload, List.mem_zipIdx_iff_getElem?.1 place, h, read⟩
  · rintro ⟨line, code, payload, place, h, read⟩
    exact ⟨(line, row), List.mem_zipIdx_iff_getElem?.2 place,
      recordAt?_eq_some_iff.2 ⟨rfl, code, payload, h, read⟩⟩

theorem pairwise_records_scan (mark source : List Char) :
    (scan mark source).records.Pairwise (·.1 < ·.1) := by
  have rows : (splitOn '\n' source).zipIdx.Pairwise (·.2 < ·.2) := by
    rw [← List.pairwise_map, List.zipIdx_map_snd]
    exact List.pairwise_lt_range'
  rw [scan, List.pairwise_filterMap]
  refine rows.imp ?_
  rintro ⟨line, index⟩ ⟨later, next⟩ less ⟨row, r⟩ found ⟨row', r'⟩ found'
  obtain ⟨rfl, -⟩ := recordAt?_eq_some_iff.1 found
  obtain ⟨rfl, -⟩ := recordAt?_eq_some_iff.1 found'
  exact less

end Record

namespace Layout

/-- Texts that differ only in the blanks at the start and the carriage returns at the end. -/
def SameText (a b : List Char) : Prop :=
  (trimStart a).rdropWhile (· = '\r') = (trimStart b).rdropWhile (· = '\r')

theorem sameText_dropReturn (line : List Char) : SameText line (dropReturn line) := by
  unfold dropReturn
  split
  · next ends =>
    obtain ⟨front, rfl⟩ := List.getLast?_eq_some_iff.1 ends
    rw [List.dropLast_concat, SameText]
    -- After blanks alone the carriage return counts as one of them.
    rcases blank_or_indented front with ⟨blanks, empty⟩ | ⟨indent, c, rest, whole, content, blanks, visible⟩
    · have carriage : trimStart ['\r'] = [] := by decide
      rw [trimStart_append blanks, carriage, empty]
    · have longer : trimStart (front ++ ['\r']) = trimStart front ++ ['\r'] := by
        rw [whole, List.append_assoc, trimStart_append blanks, trimStart_append blanks, content,
          List.cons_append, trimStart_cons visible, trimStart_cons visible, List.cons_append]
      rw [longer, List.rdropWhile_concat_pos _ _ _ (by simp)]
  · rfl

theorem sameText_of_map_dropReturn {front tail rows : List (List Char)}
    (h : List.Forall₂ SameText (front.map dropReturn ++ tail) rows) :
    List.Forall₂ SameText (front ++ tail) rows := by
  induction front generalizing rows with
  | nil => exact h
  | cons line front ih =>
    cases h with
    | cons own rest => exact .cons ((sameText_dropReturn line).trans own) (ih rest)

theorem sameText_reindent (comment : Option (List Char)) {unit : List Char}
    (blanks : ∀ c ∈ unit, isBlank c = true) (feed : '\n' ∉ unit) (source : List Char) :
    List.Forall₂ SameText (splitOn '\n' source) (splitOn '\n' (reindent comment unit source)) := by
  obtain ⟨front, last, parts⟩ := exists_parts source
  have rows : List.Forall₂ (Realigned unit) (lines source) (render unit 0 (tokens comment source)) :=
    realigned_render blanks comment {} 0 _
  have texts := rows.imp fun a b own => show SameText a b from congrArg _ own.text.symm
  rw [lines_of_parts parts] at texts
  rw [splitOn_reindent blanks comment feed parts, parts]
  by_cases empty : last = []
  · rw [if_pos empty, List.append_nil] at texts
    rw [if_pos empty, empty]
    exact sameText_of_map_dropReturn (List.rel_append texts (.cons rfl .nil))
  · rw [if_neg empty] at texts
    rw [if_neg empty, List.append_nil]
    exact sameText_of_map_dropReturn texts

end Layout

/-- The rows of a source stay as they are when it is prepared. No line is added or lost; a line loses
at most its record comment, and then has other blanks before its text; the records found are those of
the comments, in the order of their rows. -/
theorem Record.rows_reindent_scan (source : List Char) :
    ((scan ['#'] source).code.count '\n' = source.count '\n' ∧
      (Layout.reindent (some ['#']) [' ', ' ', ' ', ' '] (scan ['#'] source).code).count '\n' =
        source.count '\n') ∧
    List.Forall₂ (Kept ['#']) (splitOn '\n' source) (splitOn '\n' (scan ['#'] source).code) ∧
    List.Forall₂ Layout.SameText (splitOn '\n' (scan ['#'] source).code)
      (splitOn '\n' (Layout.reindent (some ['#']) [' ', ' ', ' ', ' '] (scan ['#'] source).code)) ∧
    (∀ row r, (row, r) ∈ (scan ['#'] source).records ↔
      ∃ line code payload, (splitOn '\n' source)[row]? = some line ∧
        Commented ['#'] line code payload ∧ (Json.parse (trim payload)).bind salvage? = some r) ∧
    (scan ['#'] source).records.Pairwise (·.1 < ·.1) := by
  have kept : List.Forall₂ (Kept ['#']) (splitOn '\n' source)
      (splitOn '\n' (scan ['#'] source).code) := by
    rw [splitOn_scan, List.forall₂_map_right_iff, List.forall₂_same]
    exact fun line _ => kept_strip ['#'] line
  have same := Layout.sameText_reindent (some ['#']) Layout.isBlank_of_mem_spaces (by decide)
    (scan ['#'] source).code
  have first := kept.length_eq
  have second := same.length_eq
  simp only [length_splitOn, Nat.add_right_cancel_iff] at first second
  exact ⟨⟨first.symm, (first.trans second).symm⟩, kept, same, fun _ _ => mem_records_scan,
    pairwise_records_scan _ _⟩

end Interlingua

import Interlingua.Proofs.Record.Comment
import Interlingua.Proofs.Record.Listing

/-!
# Records in transit

A record travels in a comment at the end of a line, or in a list of records in a file of its own. The
comment is found whatever the code before it holds, and the record arrives whole exactly if its text
says it all. The record of an assignment has the same effect after either way as before it, with one
exception: a tuple with a single component of which nothing is known arrives as the name of a type,
and declares nothing.
-/

namespace Interlingua

open Text

namespace Record

/-- A record in a comment is read back, with the code before it, if and only if its text says it
all. -/
theorem decodeLine_encode_iff {mark : List Char} (known : mark ∈ commentMarks) (code : List Char)
    {r : Record} (lacking : r.lacks (opening mark) = true)
    (named : ∀ name, r.variableType = some (.named name) → ¬ opening mark <:+: name.toList) :
    decodeLine mark (code ++ ' ' :: encode mark r) = some (trimEnd code, some r) ↔
      r.isSpelled = true := by
  rw [decodeLine_append_encode known lacking named code, ← salvage?_toJson_iff]
  simp

/-- A record with quotes, a line break and a part of a marker in its strings. -/
def crowded : Record where
  returnType := some .void
  paramTypes := .ofList [("a\"b", .unknown), ("__META__:", .number)]
  variableType := some (.named "Map<-- , Foo>")
  paramFacts := .ofList [("x", .ofList [("-- __META__", "\\\n\u0001 # __META__: \x7b\x7d")])]

theorem decodeLine_encode_iff_crowded :
    let code := "f('-- __META__: \x7b\x7d') -- __META__: \x7bnot json\x7d - ".toList
    ['-', '-'] ∈ commentMarks ∧ crowded.lacks (opening ['-', '-']) = true ∧
      crowded.isSpelled = true ∧
      decodeLine ['-', '-'] (code ++ ' ' :: encode ['-', '-'] crowded) =
        some ("f('-- __META__: \x7b\x7d') -- __META__: \x7bnot json\x7d -".toList, some crowded) := by
  intro code
  have known : ['-', '-'] ∈ commentMarks := by decide
  have lacking : crowded.lacks (opening ['-', '-']) = true := by decide +kernel
  have spelled : crowded.isSpelled = true := by decide +kernel
  have named : ∀ name, crowded.variableType = some (.named name) →
      ¬ opening ['-', '-'] <:+: name.toList := by
    intro name nominal
    obtain rfl : "Map<-- , Foo>" = name := by simpa [crowded] using nominal
    decide +kernel
  have trimmed : trimEnd code = "f('-- __META__: \x7b\x7d') -- __META__: \x7bnot json\x7d -".toList := by
    decide +kernel
  refine ⟨known, lacking, spelled, ?_⟩
  rw [← trimmed]
  exact (decodeLine_encode_iff known code lacking named).2 spelled

/-- The type on record for an assignment is of the vocabulary. -/
theorem not_named_ofAssign (a : Assign) (name : String) :
    (ofAssign a).variableType ≠ some (.named name) := by
  intro nominal
  rcases variableType_ofAssign nominal with ⟨_, _, other⟩ | ⟨_, other⟩ | ⟨_, _, other⟩ <;> cases other

/-- A record is in its place in the list that is read back. -/
theorem getElem?_recordList? {rs : List Record} {i : Nat} {r arrived : Record} (h : rs[i]? = some r)
    (salvaged : salvage? r.toJson = some arrived) :
    ∃ rs', Job.recordList? (Job.recordsText rs) = some rs' ∧ rs'[i]? = some arrived := by
  refine ⟨_, Job.recordList?_recordsText rs, ?_⟩
  rw [List.getElem?_map, h, Option.map_some, salvaged, Option.getD_some]

end Record

namespace Assign

/-- The record of an assignment in transit: the type on record is read back from its spelling, and
what arrives, in a comment or in a list of records, has the effect of the record itself on every
assignment, unless the type is a tuple with a single component of which nothing is known. The record
of such a tuple arrives without effect. -/
theorem declareRecord_travelled (a : Assign) {mark : List Char} (known : mark ∈ Record.commentMarks)
    (code : List Char) :
    (∀ type, (Record.ofAssign a).variableType = some type →
      (DeclaredType.parse type.spelling.toList = type ↔ type ≠ .tuple [.unknown])) ∧
    ∃ arrived,
      Record.decodeLine mark (code ++ ' ' :: Record.encode mark (Record.ofAssign a)) =
        some (trimEnd code, some arrived) ∧
      (∀ (rs : List Record) (i : Nat), rs[i]? = some (Record.ofAssign a) →
        ∃ rs', Job.recordList? (Job.recordsText rs) = some rs' ∧ rs'[i]? = some arrived) ∧
      ∀ b : Assign, b.declareRecord arrived =
        if (Record.ofAssign a).variableType = some (.tuple [.unknown]) then b
        else b.declareRecord (Record.ofAssign a) := by
  refine ⟨fun type => Record.parse_spelling_ofAssign, ?_⟩
  obtain ⟨arrived, salvaged, read⟩ := (Record.ofAssign a).variableType_salvage?_toJson
  refine ⟨arrived, ?_, fun rs i h => Record.getElem?_recordList? h salvaged, fun b => ?_⟩
  · have lacking : (Record.ofAssign a).lacks (Record.opening mark) = true := rfl
    rw [Record.decodeLine_append_encode known lacking
      (fun name nominal => absurd nominal (Record.not_named_ofAssign a name)), salvaged]
  · cases declared : (Record.ofAssign a).variableType with
    | none =>
      rw [declared] at read
      simp [declareRecord, read, declared]
    | some type =>
      rw [declared, Option.map_some] at read
      by_cases lone : type = .tuple [.unknown]
      · subst lone
        have nominal : DeclaredType.parse (DeclaredType.tuple [.unknown]).spelling.toList =
            .named "[unknown]" := by decide
        rw [nominal] at read
        simp [declareRecord, read, declare]
      · have same := (Record.parse_spelling_ofAssign declared).2 lone
        simp [declareRecord, read, declared, same, lone]

theorem declareRecord_travelled_pair :
    let pair := store "p" (.tuple [.name ⟨"a", .load⟩, .name ⟨"b", .load⟩] [.unknown, .unknown])
    let listed := store "p" (.list [.name ⟨"a", .load⟩, .name ⟨"b", .load⟩] .unknown false)
    ['#'] ∈ Record.commentMarks ∧
      (Record.ofAssign pair).variableType = some (.tuple [.unknown, .unknown]) ∧
      ∃ arrived,
        Record.decodeLine ['#'] ("p = [a, b]".toList ++ ' ' :: Record.encode ['#'] (Record.ofAssign pair)) =
          some ("p = [a, b]".toList, some arrived) ∧
        listed.declareRecord arrived = pair := by
  intro pair listed
  have known : ['#'] ∈ Record.commentMarks := by decide
  obtain ⟨-, arrived, decoded, -, effect⟩ := declareRecord_travelled pair known "p = [a, b]".toList
  exact ⟨known, rfl, arrived, decoded, effect listed⟩

/-- A tuple of one variable, with one type for its one component, does not come back: its record
arrives as that of a nominal type, and the list in its place stays a list. -/
theorem declareRecord_travelled_lone :
    let lone := store "x" (.tuple [.name ⟨"a", .load⟩] [.unknown])
    let listed := store "x" (.list [.name ⟨"a", .load⟩] .unknown false)
    (Record.ofAssign lone).variableType = some (.tuple [.unknown]) ∧
      DeclaredType.parse (DeclaredType.tuple [.unknown]).spelling.toList ≠ .tuple [.unknown] ∧
      listed.declareRecord (Record.ofAssign lone) = lone ∧
      (Record.salvage? (Record.ofAssign lone).toJson).map listed.declareRecord = some listed ∧
      listed ≠ lone := by
  refine ⟨rfl, by decide, rfl, rfl, ?_⟩
  intro same
  cases same

end Assign

end Interlingua

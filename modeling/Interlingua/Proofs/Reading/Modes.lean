import Interlingua.Proofs.Record.Aligning
import Interlingua.Reading.Source

/-!
# The two ways records travel

Records in comments are found by the rows of their consumers, and records apart by their position
alone. Comments say nothing of a consumer with an empty record, and there may be comments on rows
without a consumer; aligned with the rows of the consumers, the records are the same in both ways, in
whatever order the comments are found.
-/

namespace Interlingua

namespace Language

variable {l : Language} {parse : Parser} {source : String} {program : Program} {rows : List Nat}
  (readable : l.isSentinel source.toList = false)

include readable

theorem readWith_eq (records : List Record)
    (prepared : l.readPrepared parse source.toList = .ok (program, rows)) :
    l.readWith parse records source = .ok (program.attach ⟨records⟩).1 := by
  rw [readWith, readable, prepared]
  rfl

theorem read_eq {scanned : Record.Scanned}
    (same : Record.scan l.commentMark source.toList = scanned)
    (prepared : l.readPrepared parse scanned.code = .ok (program, rows)) :
    l.read parse source = .ok (program.attach (.aligned scanned.records rows)).1 := by
  rw [read, readable]
  simp only [same, prepared]
  rfl

end Language

/-- The two ways agree. Records of consumers with different rows, found in comments in any order and
among others on rows without a consumer, are aligned with the rows as they would stand in a list apart.
A program gets the same from both, and so does a source whose comments hold these records. -/
theorem Language.read_eq_readWith {rows : List Nat} {rs : List Record}
    {records strays : List (Nat × Record)} (distinct : rows.Nodup) (length : rs.length = rows.length)
    (off : ∀ e ∈ strays, e.1 ∉ rows)
    (perm : records.Perm ((rows.zip rs).filter (!·.2.isEmpty) ++ strays)) :
    Queue.aligned records rows = ⟨rs⟩ ∧
    (∀ p : Program, p.attach (.aligned records rows) = p.attach ⟨rs⟩) ∧
    ∀ (l : Language) (parse : Parser) (source : String) (code : List Char) (p : Program),
      Record.scan l.commentMark source.toList = ⟨code, records⟩ →
      l.isSentinel source.toList = false → l.isSentinel code = false →
      l.readPrepared parse code = .ok (p, rows) →
      l.read parse source = l.readWith parse rs (String.ofList code) := by
  have aligned : Queue.aligned records rows = ⟨rs⟩ :=
    congrArg Queue.mk (Queue.alignedRecords_of_perm distinct length off perm)
  refine ⟨aligned, fun p => by rw [aligned], ?_⟩
  intro l parse source code p scanned readable readableCode prepared
  have apart : l.readWith parse rs (String.ofList code) = .ok (p.attach ⟨rs⟩).1 :=
    Language.readWith_eq (by rwa [String.toList_ofList]) rs (by rwa [String.toList_ofList])
  rw [Language.read_eq readable scanned prepared, apart, aligned]

/-- Three consumers whose rows are not in order, one of them with an empty record, and comments in
another order with a stray one among them. -/
theorem Language.read_eq_readWith_unordered :
    let number : Record := { variableType := some (.base .number) }
    let void : Record := { returnType := some .void }
    [4, 0, 2].Nodup ∧
    [(2, void), (7, void), (4, number)].Perm
      (([4, 0, 2].zip [number, {}, void]).filter (!·.2.isEmpty) ++ [(7, void)]) ∧
    Queue.aligned [(2, void), (7, void), (4, number)] [4, 0, 2] = ⟨[number, {}, void]⟩ ∧
    ∀ p : Program, p.attach (.aligned [(2, void), (7, void), (4, number)] [4, 0, 2]) =
      p.attach ⟨[number, {}, void]⟩ := by
  intro number void
  have distinct : [4, 0, 2].Nodup := by decide
  have perm : [(2, void), (7, void), (4, number)].Perm
      (([4, 0, 2].zip [number, {}, void]).filter (!·.2.isEmpty) ++ [(7, void)]) := by decide
  obtain ⟨aligned, attached, _⟩ := Language.read_eq_readWith distinct rfl (by decide) perm
  exact ⟨distinct, perm, aligned, attached⟩

end Interlingua

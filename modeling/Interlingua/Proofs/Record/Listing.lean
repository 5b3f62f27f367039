import Interlingua.Proofs.Json.Pretty
import Interlingua.Proofs.Reading.Signatures
import Interlingua.Proofs.Record.Text
import Interlingua.Session.Transpile

/-!
# Records in a file of their own

A record is salvaged whole exactly if its text says it all. The records of a program are read back from
the text of their list, all but one kind: a tuple with a single component of which nothing is known is
spelled like a name. No record of a program that was read has a parameter without facts among those
with facts, since such are not kept.
-/

namespace Interlingua

namespace Record

/-- Every parameter with facts has some. -/
def Stated (r : Record) : Prop :=
  ∀ e ∈ r.paramFacts.entries, e.2.isEmpty = false

theorem stated_empty : Stated {} := by
  simp [Stated]

theorem stated_salvage? {v : Json} {r : Record} (h : salvage? v = some r) : r.Stated := by
  obtain ⟨members, -, rfl⟩ := Option.map_eq_some_iff.1 h
  refine Dict.forall_foldl_insert (by simp) fun e mem => ?_
  obtain ⟨⟨key, value⟩, -, found⟩ := List.mem_filterMap.1 mem
  obtain ⟨facts, decoded, rfl⟩ := Option.map_eq_some_iff.1 found
  obtain ⟨-, -, some⟩ := Option.bind_eq_some_iff.1 decoded
  dsimp only at some
  split at some
  · cases some
  · rename_i nonempty
    cases some
    exact Bool.eq_false_iff.2 nonempty

/-- The type on record for an assignment. -/
theorem variableType_ofAssign {a : Assign} {type : DeclaredType}
    (h : (ofAssign a).variableType = some type) :
    (∃ base, base.isKnown = true ∧ type = .base base) ∨
    (∃ element, type = .arrayOf element) ∨ ∃ types, types ≠ [] ∧ type = .tuple types := by
  simp only [ofAssign] at h
  split at h
  · rename_i known
    cases h
    exact .inl ⟨_, known, rfl⟩
  · unfold containerType? at h
    split at h
    · split at h
      · cases h
        exact .inr (.inl ⟨_, rfl⟩)
      · cases h
    · split at h
      · cases h
      · rename_i some
        cases h
        exact .inr (.inr ⟨_, by simpa using some, rfl⟩)
    · cases h

/-- The type on record for an assignment is read back from its spelling, unless it is a tuple with a
single component of which nothing is known. -/
theorem parse_spelling_ofAssign {a : Assign} {type : DeclaredType}
    (h : (ofAssign a).variableType = some type) :
    DeclaredType.parse type.spelling.toList = type ↔ type ≠ .tuple [.unknown] := by
  rcases variableType_ofAssign h with ⟨base, known, rfl⟩ | ⟨element, rfl⟩ | ⟨types, some, rfl⟩
  · revert known
    cases base <;> decide
  · cases element <;> decide
  · rw [DeclaredType.parse_spelling_tuple some]
    simp

theorem variableType_salvage?_toJson (r : Record) :
    ∃ r', salvage? r.toJson = some r' ∧
      r'.variableType = r.variableType.map fun type => .parse type.spelling.toList := by
  refine ⟨_, rfl, ?_⟩
  cases known : r.variableType <;>
    simp [members, List.lookup_append, lookup_memberOf, lookup_dictMember, known,
      DeclaredType.ofJson?, DeclaredType.toJson, Json.str?]

theorem isSpelled_iff {r : Record} :
    r.isSpelled = true ↔ r.Stated ∧
      ∀ type, r.variableType = some type → DeclaredType.parse type.spelling.toList = type := by
  simp only [isSpelled, Stated, Bool.and_eq_true, List.all_eq_true, Bool.not_eq_true',
    Option.all_eq_true, decide_eq_true_eq]

/-- A record is salvaged whole if and only if its text says it all. -/
theorem salvage?_toJson_iff {r : Record} : salvage? r.toJson = some r ↔ r.isSpelled = true := by
  refine ⟨fun whole => isSpelled_iff.2 ⟨stated_salvage? whole, fun type declared => ?_⟩, salvage?_toJson⟩
  obtain ⟨r', salvaged, read⟩ := r.variableType_salvage?_toJson
  cases whole.symm.trans salvaged
  rw [declared, Option.map_some, Option.some.injEq] at read
  exact read.symm

/-- A stated record of a statement is salvaged whole, unless its type is the one that cannot be
spelled. -/
theorem salvage?_toJson_record_iff {s : Stmt} (stated : s.record.Stated) :
    salvage? s.record.toJson = some s.record ↔
      s.record.variableType ≠ some (.tuple [.unknown]) := by
  rw [salvage?_toJson_iff, isSpelled_iff, and_iff_right stated]
  cases s with
  | assign a =>
    constructor
    · intro spelled declared
      exact (parse_spelling_ofAssign declared).1 (spelled _ declared) rfl
    · intro other type declared
      refine (parse_spelling_ofAssign declared).2 ?_
      rintro rfl
      exact other declared
  | _ => simp [Stmt.record, ofSignature]

end Record

theorem Program.stated_gather {p : Program}
    (h : Stmt.Signed (fun f => (Record.ofSignature f).Stated) p.body) : ∀ r ∈ p.gather, r.Stated := by
  intro r mem
  rw [gather, Stmt.gatherAll_eq_consumers] at mem
  obtain ⟨s, consumer, rfl⟩ := List.mem_map.1 mem
  cases s with
  | function f body => exact h f (List.mem_filterMap.2 ⟨_, consumer, rfl⟩)
  | _ => exact Record.stated_empty

namespace Job

theorem recordList?_recordsText (rs : List Record) :
    recordList? (recordsText rs) = some (rs.map fun r => (Record.salvage? r.toJson).getD {}) := by
  have textual : ∀ v ∈ rs.map Record.toJson, v.isTextual = true :=
    List.forall_mem_map.2 fun r _ => r.toJson_isTextual
  have low : ∀ v ∈ rs.map Record.toJson, v.height < Json.depthLimit :=
    List.forall_mem_map.2 fun r _ => Nat.lt_of_le_of_lt r.height_toJson_le (by decide)
  rw [recordList?, recordsText, String.toList_ofList, Json.parse_pretty_arr textual low]
  simp [Json.arr?, Function.comp_def]

/-- The records of a program are read back from the text of their list if and only if none of them is
of a tuple with a single component of which nothing is known. -/
theorem recordList?_recordsText_gather_iff {p : Program} (stated : ∀ r ∈ p.gather, r.Stated) :
    recordList? (recordsText p.gather) = some p.gather ↔
      ∀ r ∈ p.gather, r.variableType ≠ some (.tuple [.unknown]) := by
  have each : ∀ r ∈ p.gather, (Record.salvage? r.toJson).getD {} = id r ↔
      r.variableType ≠ some (.tuple [.unknown]) := by
    intro r mem
    obtain ⟨r', salvaged, -⟩ := r.variableType_salvage?_toJson
    have own := stated r mem
    rw [Program.gather, Stmt.gatherAll_eq_consumers] at mem
    obtain ⟨s, -, rfl⟩ := List.mem_map.1 mem
    rw [← Record.salvage?_toJson_record_iff own, salvaged, Option.getD_some, id, Option.some.injEq]
  have fixed (f : Record → Record) : p.gather.map f = p.gather ↔ ∀ r ∈ p.gather, f r = id r := by
    rw [← List.map_inj_left, List.map_id]
  rw [recordList?_recordsText, Option.some.injEq, fixed]
  exact forall₂_congr each

theorem stated_recordList? {content : String} {rs : List Record} (h : recordList? content = some rs) :
    ∀ r ∈ rs, r.Stated := by
  obtain ⟨items, -, rfl⟩ := Option.map_eq_some_iff.1 h
  refine List.forall_mem_map.2 fun item _ => ?_
  cases salvaged : Record.salvage? item with
  | none => exact Record.stated_empty
  | some r => exact Record.stated_salvage? salvaged

/-- Whatever is read has stated records, if the records beside it are stated. -/
theorem stated_of_readProgram {language : Language} {parse : Parser} {input content : String}
    {records : Option (List Record)} {program : Program}
    (given : ∀ rs, records = some rs → ∀ r ∈ rs, r.Stated)
    (h : readProgram language parse input content records = .ok program) :
    ∀ r ∈ program.gather, r.Stated := by
  have typed (name : String) (params : List (String × BaseType)) (returnType : BaseType) :
      (Record.ofSignature (Reading.typedSignature name params returnType)).Stated := by
    simp [Record.Stated, Record.ofSignature, Reading.typedSignature]
  have declared (f : Signature) (r : Record) (own : (Record.ofSignature f).Stated)
      (stated : r.Stated) : (Record.ofSignature (f.declare r)).Stated :=
    Dict.forall_foldl_insert own fun e mem => stated e (List.mem_filter.1 mem).1
  refine Program.stated_gather ?_
  unfold readProgram at h
  dsimp only at h
  split at h
  · rename_i read
    cases h
    split at read
    · exact Language.readWith_signed typed declared language parse (given _ rfl) _ _ read
    · exact Language.read_signed typed declared Record.stated_empty
        (fun _ _ => Record.stated_salvage?) language parse _ _ read
  · cases h

end Job

end Interlingua

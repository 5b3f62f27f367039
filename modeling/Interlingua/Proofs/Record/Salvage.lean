import Interlingua.Proofs.Dict.Lookup
import Interlingua.Proofs.Json.Keyed
import Interlingua.Record.Json

/-!
# The two ways to read a record

A record is read strictly or salvaged. To salvage a record from an object is to remove what has a wrong
shape, member by member, and to read the rest strictly. Where there is nothing to remove, the two ways
differ only in parameters without facts, which are not salvaged.
-/

namespace Interlingua

namespace Json

/-- A string, and nothing of any other value. -/
def onlyString? : Json → Option Json
  | str s => some (str s)
  | _ => none

/-- An object with what is left of its members, and nothing of any other value. -/
def onlyMembers? (left? : Json → Option Json) : Json → Option Json
  | obj members =>
    some (obj (members.filterMap fun m => (left? m.2).map fun value => (m.1, value)))
  | _ => none

/-- Nothing of an object without members. -/
def inhabited? : Json → Option Json
  | obj [] => none
  | v => some v

end Json

namespace Record

open Json

/-- What is left of a member of a record when all that has a wrong shape is removed from it. Members
under other keys are not looked at. -/
def mendMember? : String → Json → Option Json
  | "returnType" => onlyString?
  | "paramTypes" => onlyMembers? onlyString?
  | "variableType" => onlyString?
  | "individualParamMetadata" =>
    onlyMembers? fun facts => (onlyMembers? onlyString? facts).bind inhabited?
  | _ => some

/-- The members of an object without all that has a wrong shape for a record. -/
def mend (members : List (String × Json)) : List (String × Json) :=
  members.filterMap fun m => (mendMember? m.1 m.2).map fun value => (m.1, value)

/-- The record without the parameters that have no facts. -/
def withoutBlanks (r : Record) : Record :=
  { r with paramFacts := r.paramFacts.filter fun _ facts => !facts.isEmpty }

theorem ofJson?_obj_eq_some_iff {members : List (String × Json)} {r : Record} :
    ofJson? (.obj members) = some r ↔
      optional? BaseType.ofJson? (members.lookup "returnType") = some r.returnType ∧
      optionalDict? BaseType.ofJson? (members.lookup "paramTypes") = some r.paramTypes ∧
      optional? DeclaredType.ofJson? (members.lookup "variableType") = some r.variableType ∧
      optionalDict? (Json.dict? Json.str?) (members.lookup "individualParamMetadata") =
        some r.paramFacts := by
  simp only [ofJson?, Json.fields?, Option.bind_eq_bind, Option.bind_some, Option.bind_eq_some_iff,
    Option.pure_def, Option.some.injEq]
  constructor
  · rintro ⟨_, returned, _, types, _, declared, _, facts, rfl⟩
    exact ⟨returned, types, declared, facts⟩
  · rintro ⟨returned, types, declared, facts⟩
    exact ⟨_, returned, _, types, _, declared, _, facts, rfl⟩

/-! What is read strictly is salvaged. -/

section

variable {α β : Type}

theorem bind_of_optional? {decode? : Json → Option α} (null : decode? .null = none)
    {v : Option Json} {value : Option α} (h : optional? decode? v = some value) :
    v.bind decode? = value := by
  cases v with
  | none => exact Option.some.inj h
  | some v =>
    cases v with
    | null => exact null.trans (Option.some.inj h)
    | _ =>
      obtain ⟨a, read, rfl⟩ := Option.map_eq_some_iff.1 h
      exact read

theorem filterMap_of_mapM {f g : α → Option β} (keep : β → Bool)
    (kept : ∀ a b, f a = some b → g a = (some b).filter keep) {as : List α} {bs : List β}
    (h : as.mapM f = some bs) : as.filterMap g = bs.filter keep := by
  induction as generalizing bs with
  | nil =>
    cases h
    rfl
  | cons a as ih =>
    rw [List.mapM_cons] at h
    obtain ⟨b, own, h⟩ := Option.bind_eq_some_iff.1 h
    obtain ⟨rest, others, h⟩ := Option.bind_eq_some_iff.1 h
    cases h
    rw [List.filterMap_cons, kept a b own, ih others]
    by_cases chosen : keep b <;> simp [chosen, Option.filter_some]

/-- Read the value of a member. -/
def entryOf? (decode? : Json → Option α) (m : String × Json) : Option (String × α) :=
  (decode? m.2).map fun value => (m.1, value)

theorem keys_of_mapM {decode? : Json → Option α} {members : List (String × Json)}
    {entries : List (String × α)} (h : members.mapM (entryOf? decode?) = some entries) :
    entries.map Prod.fst = members.map Prod.fst := by
  induction members generalizing entries with
  | nil =>
    cases h
    rfl
  | cons m rest ih =>
    rw [List.mapM_cons] at h
    obtain ⟨e, own, h⟩ := Option.bind_eq_some_iff.1 h
    obtain ⟨others, read, h⟩ := Option.bind_eq_some_iff.1 h
    obtain ⟨value, -, rfl⟩ := Option.map_eq_some_iff.1 own
    cases h
    rw [List.map_cons, List.map_cons, ih read]

theorem dict?_eq_some_iff {decode? : Json → Option α} {v : Json} {d : Dict α} :
    v.dict? decode? = some d ↔ ∃ (members : List (String × Json)) (entries : List (String × α)),
      v = .obj members ∧ members.mapM (entryOf? decode?) = some entries ∧
        Dict.ofList entries = d := by
  constructor
  · intro h
    obtain ⟨members, object, h⟩ := Option.bind_eq_some_iff.1 h
    obtain ⟨entries, read, same⟩ := Option.bind_eq_some_iff.1 h
    cases v with
    | obj own =>
      cases object
      exact ⟨members, entries, rfl, read, Option.some.inj same⟩
    | _ => cases object
  · rintro ⟨members, entries, rfl, read, rfl⟩
    exact Option.bind_eq_some_iff.2 ⟨entries, read, rfl⟩

theorem salvageDict_of_optionalDict? {decode? : Json → Option α} {v : Option Json} {d : Dict α}
    (h : optionalDict? decode? v = some d) : salvageDict decode? v = d := by
  cases v with
  | none => exact Option.some.inj h
  | some v =>
    obtain ⟨members, entries, rfl, read, rfl⟩ := dict?_eq_some_iff.1 h
    have all := filterMap_of_mapM (fun _ => true) (fun _ _ own => own) read
    rw [List.filter_eq_self.2 fun _ _ => rfl] at all
    exact congrArg Dict.ofList all

end

theorem salvageFacts?_obj (members : List (String × Json)) :
    salvageFacts? (.obj members) =
      (some (salvageDict Json.str? (some (.obj members)))).filter fun facts => !facts.isEmpty := by
  change (if (salvageDict Json.str? (some (.obj members))).isEmpty then none else some _) = _
  by_cases empty : (salvageDict Json.str? (some (.obj members))).isEmpty = true <;>
    simp [empty, Option.filter_some]

theorem salvageFacts?_of_dict? {v : Json} {facts : Dict String}
    (h : v.dict? Json.str? = some facts) :
    salvageFacts? v = (some facts).filter fun facts => !facts.isEmpty := by
  have salvaged : salvageDict Json.str? (some v) = facts := salvageDict_of_optionalDict? (v := some v) h
  obtain ⟨members, _, rfl, -, -⟩ := dict?_eq_some_iff.1 h
  rw [salvageFacts?_obj, salvaged]

/-- Parameters without facts are left out; where keys differ, no other facts take their place. -/
theorem salvageDict_facts {v : Option Json} {d : Dict (Dict String)}
    (keyed : ∀ members, v = some (.obj members) → (members.map Prod.fst).Nodup)
    (h : optionalDict? (Json.dict? Json.str?) v = some d) :
    salvageDict salvageFacts? v = d.filter fun _ facts => !facts.isEmpty := by
  cases v with
  | none =>
    cases h
    rfl
  | some v =>
    obtain ⟨members, entries, rfl, read, rfl⟩ := dict?_eq_some_iff.1 h
    have kept := filterMap_of_mapM (g := entryOf? salvageFacts?) (fun e => !e.2.isEmpty)
      (fun m e own => ?_) read
    · rw [← Dict.ofList_filter (keys_of_mapM read ▸ keyed members rfl), ← kept]
      rfl
    · obtain ⟨facts, found, rfl⟩ := Option.map_eq_some_iff.1 own
      rw [entryOf?, salvageFacts?_of_dict? found, Option.filter_some, Option.filter_some]
      cases facts.isEmpty <;> rfl

/-! What is salvaged is read strictly from what is left. -/

section

variable {α : Type}

/-- What is left of a value is read strictly, and gives what is salvaged from the value. -/
def Mends (left? : Json → Option Json) (strict? salvaged? : Json → Option α) : Prop :=
  ∀ v, (left? v).map strict? = (salvaged? v).map some

theorem mends_string (read : String → α) :
    Mends onlyString? (fun v => v.str?.map read) fun v => v.str?.map read := by
  intro v
  cases v <;> rfl

theorem Mends.mapM {left? : Json → Option Json} {strict? salvaged? : Json → Option α}
    (h : Mends left? strict? salvaged?) (members : List (String × Json)) :
    (members.filterMap (entryOf? left?)).mapM (entryOf? strict?) =
      some (members.filterMap (entryOf? salvaged?)) := by
  induction members with
  | nil => rfl
  | cons m rest ih =>
    have own := h m.2
    cases left : left? m.2 with
    | none =>
      have none : salvaged? m.2 = none := by simpa [left] using own.symm
      simpa [entryOf?, left, none] using ih
    | some v =>
      obtain ⟨a, found, read⟩ : ∃ a, salvaged? m.2 = some a ∧ strict? v = some a := by
        simpa [left, eq_comm] using own
      simp [entryOf?, left, found, read] at ih ⊢
      simp [ih]

theorem Mends.members {left? : Json → Option Json} {strict? salvaged? : Json → Option α}
    (h : Mends left? strict? salvaged?) :
    Mends (onlyMembers? left?) (Json.dict? strict?)
      fun v => v.obj?.map fun _ => salvageDict salvaged? (some v) := by
  intro v
  cases v with
  | obj members => exact congrArg some (dict?_eq_some_iff.2 ⟨_, _, rfl, h.mapM members, rfl⟩)
  | _ => rfl

/-- A dictionary is salvaged by reading strictly what is left of it. -/
theorem Mends.optionalDict? {left? : Json → Option Json} {strict? salvaged? : Json → Option α}
    (h : Mends left? strict? salvaged?) (v : Option Json) :
    Record.optionalDict? strict? (v.bind (onlyMembers? left?)) = some (salvageDict salvaged? v) := by
  cases v with
  | none => rfl
  | some v =>
    have own := h.members v
    cases v with
    | obj members => exact Option.some.inj own
    | _ => rfl

theorem optional?_string (read : String → α) (v : Option Json) :
    Record.optional? (fun v => v.str?.map read) (v.bind onlyString?) =
      some (v.bind fun v => v.str?.map read) := by
  cases v with
  | none => rfl
  | some v => cases v <;> rfl

end

theorem mends_facts :
    Mends (fun facts => (onlyMembers? onlyString? facts).bind inhabited?) (Json.dict? Json.str?)
      salvageFacts? := by
  intro v
  cases v with
  | obj members =>
    have read : (members.filterMap (entryOf? onlyString?)).mapM (entryOf? Json.str?) =
        some (members.filterMap (entryOf? Json.str?)) := by
      simpa using (mends_string id).mapM members
    have salvaged : salvageDict Json.str? (some (.obj members)) =
        Dict.ofList (members.filterMap (entryOf? Json.str?)) := rfl
    have strict := dict?_eq_some_iff.2 ⟨_, _, rfl, read, salvaged.symm⟩
    have keys := congrArg List.isEmpty (keys_of_mapM read)
    rw [List.isEmpty_map, List.isEmpty_map, ← Dict.isEmpty_ofList, ← salvaged] at keys
    rw [salvageFacts?_obj, Option.filter_some, keys]
    change (inhabited? (.obj (members.filterMap (entryOf? onlyString?)))).map _ = _
    cases left : members.filterMap (entryOf? onlyString?) with
    | nil => rfl
    | cons m rest =>
      rw [left] at strict
      exact congrArg some strict
  | _ => rfl

section

variable {members : List (String × Json)} (keyed : (Json.obj members).isKeyed = true)

include keyed

theorem salvage?_of_ofJson? {r : Record} (h : ofJson? (.obj members) = some r) :
    salvage? (.obj members) = some r.withoutBlanks := by
  obtain ⟨inner, distinct⟩ := Json.membersKeyed_iff.1 keyed
  obtain ⟨returned, types, declared, facts⟩ := ofJson?_obj_eq_some_iff.1 h
  have factsKeyed : ∀ found, members.lookup "individualParamMetadata" = some (.obj found) →
      (found.map Prod.fst).Nodup := fun found listed =>
    (Json.membersKeyed_iff.1 (inner _ ((Dict.lookup_eq_some_iff_mem distinct).1 listed))).2
  have fields : salvage? (.obj members) = some
      { returnType := (members.lookup "returnType").bind BaseType.ofJson?
        paramTypes := salvageDict BaseType.ofJson? (members.lookup "paramTypes")
        variableType := (members.lookup "variableType").bind DeclaredType.ofJson?
        paramFacts := salvageDict salvageFacts? (members.lookup "individualParamMetadata") } := rfl
  rw [fields, bind_of_optional? rfl returned, salvageDict_of_optionalDict? types,
    bind_of_optional? rfl declared, salvageDict_facts factsKeyed facts]
  rfl

theorem ofJson?_mend : ofJson? (.obj (mend members)) = salvage? (.obj members) := by
  have distinct := (Json.membersKeyed_iff.1 keyed).2
  have left : ∀ key, (mend members).lookup key = (members.lookup key).bind (mendMember? key) :=
    fun key => Dict.lookup_filterMap distinct mendMember? key
  refine ofJson?_obj_eq_some_iff.2 ?_
  simp only [left]
  exact ⟨optional?_string _ _, (mends_string _).optionalDict? _, optional?_string _ _,
    mends_facts.optionalDict? _⟩

end

/-- To salvage a record is to remove what has a wrong shape and to read the rest strictly. What is read
strictly from an object is also salvaged from it, without the parameters that have no facts. All this is
about objects whose members have different keys, as those have that are read from a text. -/
theorem salvage?_eq_ofJson?_mend :
    (∀ (text : List Char) (v : Json), Json.parse text = some v → v.isKeyed = true) ∧
    ∀ members : List (String × Json), (Json.obj members).isKeyed = true →
      (∀ r, ofJson? (.obj members) = some r → salvage? (.obj members) = some r.withoutBlanks) ∧
      ∃ r, salvage? (.obj members) = some r ∧ ofJson? (.obj (mend members)) = some r :=
  ⟨fun _ _ => Json.isKeyed_of_parse, fun _ keyed =>
    ⟨fun _ => salvage?_of_ofJson? keyed, _, rfl, ofJson?_mend keyed⟩⟩

/-- An object with something of a wrong shape at every level. -/
def misshapen : List (String × Json) :=
  [("returnType", .int 3),
   ("paramTypes", .obj [("a", .str "int"), ("b", .null)]),
   ("variableType", .str " [string, Point] "),
   ("extra", .bool true),
   ("individualParamMetadata", .obj
     [("a", .obj [("origin", .str "ts"), ("line", .int 1)]), ("b", .obj [("line", .int 2)]),
      ("c", .arr [])])]

/-- An object that is read strictly, though a parameter in it has no facts. -/
def factless : List (String × Json) :=
  [("returnType", .null),
   ("individualParamMetadata", .obj [("a", .obj []), ("b", .obj [("origin", .str "ts")])])]

theorem salvage?_eq_ofJson?_mend_misshapen :
    (Json.obj misshapen).isKeyed = true ∧ ofJson? (.obj misshapen) = none ∧
    ofJson? (.obj (mend misshapen)) = some
      { paramTypes := Dict.ofList [("a", .number)]
        variableType := some (.tuple [.string, .unknown])
        paramFacts := Dict.ofList [("a", Dict.ofList [("origin", "ts")])] } ∧
    (Json.obj factless).isKeyed = true ∧
    ofJson? (.obj factless) = some
      { paramFacts := Dict.ofList [("a", {}), ("b", Dict.ofList [("origin", "ts")])] } ∧
    salvage? (.obj factless) = some
      { paramFacts := Dict.ofList [("b", Dict.ofList [("origin", "ts")])] } := by
  have keyed : (Json.obj misshapen).isKeyed = true := by decide
  have keyed' : (Json.obj factless).isKeyed = true := by decide
  have strict : ofJson? (.obj factless) = some
      { paramFacts := Dict.ofList [("a", {}), ("b", Dict.ofList [("origin", "ts")])] } := by
    decide +kernel
  obtain ⟨-, agree⟩ := salvage?_eq_ofJson?_mend
  obtain ⟨r, salvaged, mended⟩ := (agree misshapen keyed).2
  refine ⟨keyed, rfl, mended.trans (salvaged.symm.trans ?_), keyed', strict,
    ((agree factless keyed').1 _ strict).trans ?_⟩ <;> decide +kernel

end Record

end Interlingua

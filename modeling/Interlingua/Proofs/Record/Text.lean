import Interlingua.Proofs.Dict
import Interlingua.Proofs.Json.Compact
import Interlingua.Proofs.Program.Json
import Interlingua.Proofs.Text.Occurrences
import Interlingua.Proofs.Types
import Interlingua.Record.Comment

/-!
# Records as text

A record is read back from its text if every parameter with facts has some, and the type of the
variable is one that its spelling denotes. What a record does not say is not in its text: a needle
that could mark a comment occurs there only inside one of the strings.
-/

namespace Interlingua

namespace Json

theorem areTextual_iff {members : List (String × Json)} :
    areTextual members = true ↔
      (∀ m ∈ members, m.2.isTextual = true) ∧ (members.map Prod.fst).Nodup := by
  induction members with
  | nil => simp [areTextual]
  | cons m rest ih =>
    obtain ⟨key, value⟩ := m
    simp only [areTextual, Bool.and_eq_true, ih, List.forall_mem_cons, List.map_cons,
      List.nodup_cons, Bool.not_eq_true', List.any_eq_false, decide_eq_true_eq, List.mem_map,
      not_exists, not_and]
    exact and_and_and_comm

theorem height_le {members : List (String × Json)} {n : Nat}
    (h : ∀ m ∈ members, m.2.height ≤ n) : (obj members).height ≤ n + 1 := by
  rw [height]
  suffices inner : heights members ≤ n by omega
  induction members with
  | nil => simp [heights]
  | cons m rest ih =>
    obtain ⟨first, others⟩ := List.forall_mem_cons.1 h
    rw [heights]
    exact Nat.max_le.2 ⟨first, ih others⟩

section

variable {α : Type} {encode : α → Json}

theorem ofDict_isTextual (d : Dict α) (h : ∀ value, (encode value).isTextual = true) :
    (ofDict encode d).isTextual = true := by
  rw [ofDict, isTextual, areTextual_iff]
  refine ⟨List.forall_mem_map.2 fun entry _ => h entry.2, ?_⟩
  rw [List.map_map]
  exact List.pairwise_map.2 (d.sorted.imp fun lt same => String.ne_of_lt lt same)

theorem height_ofDict_le (d : Dict α) {n : Nat} (h : ∀ value, (encode value).height ≤ n) :
    (ofDict encode d).height ≤ n + 1 :=
  height_le (List.forall_mem_map.2 fun entry _ => h entry.2)

end

/-! Where a needle can occur in the text of a value. -/

/-- The characters that a comment can start with. -/
def commentStarts : List Char :=
  ['#', '/', '-']

theorem mem_commentStarts {n : Char} : n ∈ commentStarts ↔ n = '#' ∨ n = '/' ∨ n = '-' := by
  simp [commentStarts]

section

variable (needle : List Char)

mutual

/-- No string of the value and no key in it has the needle. -/
def Lacks : Json → Prop
  | str s => ¬ needle <:+: s.toList
  | obj members => LacksAll members
  | _ => True

def LacksAll : List (String × Json) → Prop
  | [] => True
  | (key, value) :: rest => ¬ needle <:+: key.toList ∧ Lacks value ∧ LacksAll rest

end

end

theorem lacksAll_iff {needle : List Char} {members : List (String × Json)} :
    LacksAll needle members ↔ ∀ m ∈ members, ¬ needle <:+: m.1.toList ∧ Lacks needle m.2 := by
  induction members with
  | nil => simp [LacksAll]
  | cons m rest ih =>
    obtain ⟨key, value⟩ := m
    simp [LacksAll, ih, and_assoc]

section

variable {n : Char} {rest : List Char}

theorem escapeChar_plain (h : n ∈ commentStarts) (c : Char) :
    escapeChar c = [c] ∨ (escapeChar c).head? = some '\\' ∧ n ∉ escapeChar c := by
  have digits : ∀ k < 16, hexDigit k ≠ '#' ∧ hexDigit k ≠ '/' ∧ hexDigit k ≠ '-' := by decide
  by_cases control : c.toNat < 0x20
  · have high := digits (c.toNat / 16) (by omega)
    have low := digits (c.toNat % 16) (by omega)
    rcases mem_commentStarts.1 h with rfl | rfl | rfl <;> unfold escapeChar <;> grind
  · rcases mem_commentStarts.1 h with rfl | rfl | rfl <;> unfold escapeChar <;> grind

/-- The strings of tokens are the only places where the needle can occur in their text. -/
theorem not_infix_flatMap_text (h : n ∈ commentStarts) (quote : '"' ∉ n :: rest)
    (slash : '\\' ∉ n :: rest) {ts : List Token} (textual : ∀ t ∈ ts, t.isTextual = true)
    (lacks : ∀ s, .scalar (.str s) ∈ ts → ¬ n :: rest <:+: s.toList) :
    ¬ n :: rest <:+: ts.flatMap Token.text := by
  induction ts with
  | nil => simp
  | cons t ts ih =>
    intro occurs
    refine ih (fun t mem => textual t (List.mem_cons_of_mem _ mem))
      (fun s mem => lacks s (List.mem_cons_of_mem _ mem)) ?_
    rw [List.flatMap_cons] at occurs
    cases t with
    | scalar value =>
      cases value with
      | str s =>
        have opened : n :: rest <:+: s.toList.flatMap escapeChar ++ '"' :: ts.flatMap Token.text := by
          have outside : n ∉ ['"'] := by
            rcases mem_commentStarts.1 h with rfl | rfl | rfl <;> decide
          refine Text.infix_of_infix_append outside ?_
          simpa [Token.text, scalarText, stringText] using occurs
        rcases Text.infix_append_cons quote opened with inside | later
        · exact absurd (Text.infix_of_infix_flatMap (escapeChar_plain h) slash inside)
            (lacks s List.mem_cons_self)
        · exact later
      | _ => exact absurd (textual _ List.mem_cons_self) Bool.false_ne_true
    | _ =>
      refine Text.infix_of_infix_append ?_ occurs
      rcases mem_commentStarts.1 h with rfl | rfl | rfl <;> decide

end

mutual

theorem lacks_of_mem_tokens {needle : List Char} (v : Json) (textual : v.isTextual = true)
    (h : Lacks needle v) (s : String) (mem : .scalar (.str s) ∈ tokens v) :
    ¬ needle <:+: s.toList :=
  match v with
  | str s' => by
    obtain rfl : s = s' := by simpa [tokens] using mem
    exact h
  | obj members => lacks_of_mem_memberTokens members textual h s (by simpa [tokens] using mem)
  | null | bool _ | int _ | float _ | arr _ => by cases textual

theorem lacks_of_mem_memberTokens {needle : List Char} (members : List (String × Json))
    (textual : areTextual members = true) (h : LacksAll needle members) (s : String)
    (mem : .scalar (.str s) ∈ memberTokens members) : ¬ needle <:+: s.toList :=
  match members with
  | [] => by simp [memberTokens] at mem
  | [(key, value)] => by
    simp only [areTextual, Bool.and_eq_true] at textual
    have inside := lacks_of_mem_tokens value textual.1.1 h.2.1 s
    simp only [memberTokens, List.mem_cons, Token.scalar.injEq, Json.str.injEq, reduceCtorEq,
      false_or] at mem
    rcases mem with rfl | mem
    · exact h.1
    · exact inside mem
  | (key, value) :: next :: rest => by
    rw [areTextual, Bool.and_eq_true, Bool.and_eq_true] at textual
    have inside := lacks_of_mem_tokens value textual.1.1 h.2.1 s
    have later := lacks_of_mem_memberTokens (next :: rest) textual.2 h.2.2 s
    simp only [memberTokens, List.cons_append, List.mem_append, List.mem_cons, Token.scalar.injEq,
      Json.str.injEq, reduceCtorEq, false_or] at mem
    rcases mem with rfl | mem | mem
    · exact h.1
    · exact inside mem
    · exact later mem

end

end Json

namespace Record

/-- Whether the text of a record says it all: every parameter with facts has some, and the type of
the variable is one that its spelling denotes. -/
def isSpelled (r : Record) : Bool :=
  r.paramFacts.entries.all (fun e => !e.2.isEmpty) &&
    r.variableType.all fun type => DeclaredType.parse type.spelling.toList = type

section

variable {α : Type} (key key' : String) (encode : α → Json)

theorem lookup_memberOf (value : Option α) :
    (memberOf key encode value).lookup key' = if key' = key then value.map encode else none := by
  cases value with
  | none => simp [memberOf]
  | some value =>
    by_cases same : key' = key
    · simp [memberOf, same]
    · simp [memberOf, List.lookup_cons, same, beq_false_of_ne same]

theorem lookup_dictMember (d : Dict α) :
    (dictMember key encode d).lookup key' =
      if key' = key then (if d.isEmpty then none else some (.ofDict encode d)) else none := by
  by_cases empty : d.isEmpty
  · simp [dictMember, empty]
  · by_cases same : key' = key
    · simp [dictMember, empty, same]
    · simp [dictMember, List.lookup_cons, empty, same, beq_false_of_ne same]

variable {encode}

/-- A dictionary is salvaged whole from its members. -/
theorem salvageDict_ofDict {decode? : Json → Option α} {d : Dict α}
    (h : ∀ e ∈ d.entries, decode? (encode e.2) = some e.2) :
    salvageDict decode? (some (.ofDict encode d)) = d := by
  have kept : (d.entries.map fun e => (e.1, encode e.2)).filterMap
      (fun e => (decode? e.2).map fun value => (e.1, value)) = d.entries := by
    generalize d.entries = entries at h
    induction entries with
    | nil => rfl
    | cons e rest ih =>
      obtain ⟨first, others⟩ := List.forall_mem_cons.1 h
      simp [first, ih others]
  exact (congrArg Dict.ofList kept).trans d.ofList_entries

/-- A dictionary that is left out when it is empty. -/
theorem salvageDict_ofDict? {decode? : Json → Option α} {d : Dict α}
    (h : ∀ e ∈ d.entries, decode? (encode e.2) = some e.2) :
    salvageDict decode? (if d.isEmpty then none else some (.ofDict encode d)) = d := by
  by_cases empty : d.isEmpty
  · rw [if_pos empty, Dict.isEmpty_iff.1 empty]
    rfl
  · rw [if_neg empty, salvageDict_ofDict h]

end

theorem salvageFacts?_ofDict {d : Dict String} (h : d.isEmpty = false) :
    salvageFacts? (.ofDict .str d) = some d := by
  have facts : salvageDict Json.str? (some (.ofDict .str d)) = d :=
    salvageDict_ofDict fun _ _ => rfl
  have object : (Json.ofDict .str d).obj?.isSome := rfl
  obtain ⟨members, found⟩ := Option.isSome_iff_exists.1 object
  simp [salvageFacts?, found, facts, h]

theorem salvage?_toJson {r : Record} (h : r.isSpelled = true) : salvage? r.toJson = some r := by
  simp only [isSpelled, Bool.and_eq_true, List.all_eq_true, Bool.not_eq_true', Option.all_eq_true,
    decide_eq_true_eq] at h
  have returned : (r.members.lookup "returnType").bind BaseType.ofJson? = r.returnType := by
    cases known : r.returnType <;>
      simp [members, List.lookup_append, lookup_memberOf, lookup_dictMember, known]
  have types : salvageDict BaseType.ofJson? (r.members.lookup "paramTypes") = r.paramTypes := by
    simp only [members, List.lookup_append, lookup_memberOf, lookup_dictMember]
    simpa using salvageDict_ofDict? fun _ _ => BaseType.ofJson?_toJson _
  have declared : (r.members.lookup "variableType").bind DeclaredType.ofJson? = r.variableType := by
    cases known : r.variableType with
    | none => simp [members, List.lookup_append, lookup_memberOf, lookup_dictMember, known]
    | some type =>
      simp [members, List.lookup_append, lookup_memberOf, lookup_dictMember, known,
        DeclaredType.ofJson?, DeclaredType.toJson, Json.str?, h.2 type known]
  have facts : salvageDict salvageFacts? (r.members.lookup "individualParamMetadata") =
      r.paramFacts := by
    simp only [members, List.lookup_append, lookup_memberOf, lookup_dictMember]
    simpa using salvageDict_ofDict? fun e mem => salvageFacts?_ofDict (h.1 e mem)
  simp [salvage?, toJson, Json.obj?, returned, types, declared, facts]

/-- What holds of each of the four members holds of those that are there. -/
theorem forall_mem_members {r : Record} {P : String × Json → Prop}
    (returned : ∀ type, r.returnType = some type → P ("returnType", type.toJson))
    (types : P ("paramTypes", .ofDict BaseType.toJson r.paramTypes))
    (declared : ∀ type, r.variableType = some type → P ("variableType", type.toJson))
    (facts : P ("individualParamMetadata", .ofDict (.ofDict .str) r.paramFacts)) :
    ∀ m ∈ r.members, P m := by
  intro m mem
  simp only [members, memberOf, dictMember, List.mem_append, Option.mem_toList,
    Option.map_eq_some_iff] at mem
  rcases mem with ((⟨type, known, rfl⟩ | mem) | ⟨type, known, rfl⟩) | mem
  · exact returned type known
  · split at mem
    · cases mem
    · exact List.mem_singleton.1 mem ▸ types
  · exact declared type known
  · split at mem
    · cases mem
    · exact List.mem_singleton.1 mem ▸ facts

theorem toJson_isTextual (r : Record) : r.toJson.isTextual = true := by
  rw [toJson, Json.isTextual, Json.areTextual_iff]
  constructor
  · exact forall_mem_members (fun _ _ => rfl) (Json.ofDict_isTextual _ fun _ => rfl) (fun _ _ => rfl)
      (Json.ofDict_isTextual _ fun _ => Json.ofDict_isTextual _ fun _ => rfl)
  · have distinct : fieldNames.Nodup := by decide
    refine distinct.sublist ?_
    simp only [members, memberOf, dictMember, List.map_append]
    have first {α : Type} (key : String) (encode : α → Json) (value : Option α) :
        ((value.map fun value => (key, encode value)).toList.map Prod.fst).Sublist [key] := by
      cases value <;> simp
    have second {α : Type} (key : String) (encode : α → Json) (d : Dict α) :
        ((if d.isEmpty then [] else [(key, Json.ofDict encode d)]).map Prod.fst).Sublist [key] := by
      split <;> simp
    exact (((first _ _ _).append (second _ _ _)).append (first _ _ _)).append (second _ _ _)

theorem height_toJson_le (r : Record) : r.toJson.height ≤ 3 := by
  refine Json.height_le (forall_mem_members (fun _ _ => Nat.zero_le _) ?_ (fun _ _ => Nat.zero_le _) ?_)
  · exact Nat.le_succ_of_le (Json.height_ofDict_le _ fun _ => Nat.le_refl 0)
  · exact Json.height_ofDict_le _ fun _ => Json.height_ofDict_le _ fun _ => Nat.le_refl 0

theorem parse_text (r : Record) : Json.parse r.text = some r.toJson := by
  have low : r.toJson.height ≤ Json.depthLimit := Nat.le_trans r.height_toJson_le (by decide)
  exact Json.parse_compact r.toJson_isTextual low

end Record

end Interlingua

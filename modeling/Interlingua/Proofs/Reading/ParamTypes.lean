import Interlingua.Proofs.Dict.Lookup
import Interlingua.Proofs.Reading.ConsumerRows
import Interlingua.Proofs.Reading.Modes
import Interlingua.Proofs.Reading.Signatures

/-!
# The parameter types of what is read

A signature lists the types of those parameters whose type is known, so that a parameter of unknown type
has one representation. Every function that is read from a tree does so. A record is merged as it
stands: a type that it spells in an unknown way is listed too, if it is about a parameter. So whether
the functions of a source list known types only is decided by the records of the functions.
-/

namespace Interlingua

namespace Signature

variable {f g : Signature}

/-- Only known types are listed. -/
def KnowsParams (f : Signature) : Prop :=
  ∀ e ∈ f.paramTypes.entries, e.2.isKnown = true

instance (f : Signature) : Decidable f.KnowsParams :=
  inferInstanceAs (Decidable (∀ e ∈ f.paramTypes.entries, e.2.isKnown = true))

theorem KnowsParams.find?_eq_some_iff (h : f.KnowsParams) {id : String} {type : BaseType} :
    f.paramTypes.find? id = some type ↔ f.paramType id = type ∧ type.isKnown = true := by
  rw [paramType]
  cases found : f.paramTypes.find? id with
  | none =>
    refine ⟨nofun, fun ⟨own, known⟩ => ?_⟩
    rw [← own] at known
    cases known
  | some own =>
    have known : own.isKnown = true := Dict.of_find? h found
    refine ⟨?_, fun listed => congrArg some listed.1⟩
    rintro ⟨⟩
    exact ⟨rfl, known⟩

/-- The types of the parameters decide what is listed. -/
theorem KnowsParams.paramTypes_eq (hf : f.KnowsParams) (hg : g.KnowsParams)
    (same : ∀ id, f.paramType id = g.paramType id) : f.paramTypes = g.paramTypes := by
  refine Dict.ext_find? fun id => Option.ext fun type => ?_
  rw [hf.find?_eq_some_iff, hg.find?_eq_some_iff, same]

/-- What is found under a name once a record is merged: what the record says of it, if it is the name of
a parameter, and else what was found before. -/
theorem find?_paramTypes_declare (f : Signature) (r : Record) (id : String) :
    (f.declare r).paramTypes.find? id =
      ((r.paramTypes.find? id).filter fun _ => f.hasParam id).or (f.paramTypes.find? id) := by
  have fewer : ((r.paramTypes.entries.filter fun e => f.hasParam e.1).map Prod.fst).Nodup :=
    r.paramTypes.nodup_keys.sublist (List.filter_sublist.map _)
  have merged := Dict.find?_foldl_insert fewer f.paramTypes id
  refine merged.trans (congrArg (Option.or · _) (Option.ext fun type => ?_))
  rw [Dict.lookup_eq_some_iff_mem fewer, List.mem_filter, Option.filter_eq_some_iff,
    Dict.find?_eq_some_iff]

/-- Merging keeps the list to known types exactly if the record spells the types of the parameters
so. -/
theorem KnowsParams.declare_iff (h : f.KnowsParams) (r : Record) :
    (f.declare r).KnowsParams ↔
      ∀ e ∈ r.paramTypes.entries, f.hasParam e.1 = true → e.2.isKnown = true := by
  constructor
  · intro merged e mem isParam
    have found : (f.declare r).paramTypes.find? e.1 = some e.2 := by
      rw [find?_paramTypes_declare, Dict.find?_eq_some_iff.2 mem, Option.filter_some, if_pos isParam]
      rfl
    exact Dict.of_find? merged found
  · intro spelled
    refine Dict.forall_foldl_insert h fun e mem => ?_
    obtain ⟨mem, isParam⟩ := List.mem_filter.1 mem
    exact spelled e mem isParam

end Signature

theorem Reading.typedSignature_knowsParams (name : String) (params : List (String × BaseType))
    (returnType : BaseType) : (typedSignature name params returnType).KnowsParams :=
  Dict.forall_foldl_insert nofun fun _ mem => (List.mem_filter.1 mem).2

theorem Subject.declareAt_eq (rs : List Record) (k : Nat) (c : Subject) :
    c.declareAt rs k = c.declare (rs[k]?.getD {}) := by
  rw [declareAt]
  cases rs[k]? with
  | none => exact c.declare_empty.symm
  | some r => rfl

/-- Once records are attached, the functions are those that were there, each with the record at its
position. -/
theorem Stmt.signed_attachAll_iff {P : Signature → Prop} {ss : List Stmt} {rs : List Record} :
    Signed P (attachAll ss ⟨rs⟩).1 ↔
      ∀ (k : Nat) (f : Signature), (subjects ss)[k]? = some (.function f) →
        P (f.declare (rs[k]?.getD {})) := by
  have position : ∀ k, (subjects (attachAll ss ⟨rs⟩).1)[k]? =
      (subjects ss)[k]?.map (Subject.declareAt rs k) := by
    intro k
    rw [(attachedAll ss rs).subjects, Subject.getElem?_declareAll]
  constructor
  · intro signed k f here
    refine signed _ (List.mem_iff_getElem?.2 ⟨k, ?_⟩)
    rw [position, here, Option.map_some, Subject.declareAt_eq]
    rfl
  · intro declared f mem
    obtain ⟨k, here⟩ := List.mem_iff_getElem?.1 mem
    rw [position] at here
    obtain ⟨c, own, same⟩ := Option.map_eq_some_iff.1 here
    rw [Subject.declareAt_eq] at same
    cases c with
    | assign a => cases same
    | function g =>
      cases same
      exact declared k g own

namespace Program

/-- Every function lists known types only. -/
def KnowsParams (p : Program) : Prop :=
  Stmt.Signed Signature.KnowsParams p.body

/-- The record at the position of a function knows the types that it gives to the parameters. -/
def GivesKnown (p : Program) (rs : List Record) : Prop :=
  ∀ (k : Nat) (f : Signature) (r : Record), p.subjects[k]? = some (.function f) → rs[k]? = some r →
    ∀ e ∈ r.paramTypes.entries, f.hasParam e.1 = true → e.2.isKnown = true

theorem KnowsParams.attach_iff {p : Program} (h : p.KnowsParams) (rs : List Record) :
    (p.attach ⟨rs⟩).1.KnowsParams ↔ p.GivesKnown rs := by
  have own {k : Nat} {f : Signature} (here : p.subjects[k]? = some (.function f)) : f.KnowsParams :=
    h f (List.mem_of_getElem? here)
  refine Stmt.signed_attachAll_iff.trans ⟨fun declared k f r here given => ?_,
    fun known k f here => ((own here).declare_iff _).2 ?_⟩
  · have merged := declared k f here
    rw [given] at merged
    exact ((own here).declare_iff r).1 merged
  · cases given : rs[k]? with
    | none => nofun
    | some r => exact known k f r here given

end Program

namespace Language

variable {l : Language} {parse : Parser} {source : String} {q : Program}

theorem readPrepared_knowsParams (l : Language) (parse : Parser) (code : List Char) :
    Reading.Gives (l.readPrepared parse code) fun out => out.1.KnowsParams :=
  readPrepared_signed Reading.typedSignature_knowsParams l parse code

/-- What is read with records apart is what is read without, with the records attached. -/
theorem readWith_eq_ok {records : List Record} (h : l.readWith parse records source = .ok q) :
    ∃ p rows, l.readPrepared parse source.toList = .ok (p, rows) ∧ q = (p.attach ⟨records⟩).1 := by
  cases readable : l.isSentinel source.toList with
  | true =>
    rw [readWith, readable] at h
    cases h
  | false =>
    cases prepared : l.readPrepared parse source.toList with
    | error e =>
      rw [readWith, readable, prepared] at h
      cases h
    | ok out =>
      rw [readWith_eq readable records prepared] at h
      cases h
      exact ⟨out.1, out.2, rfl, rfl⟩

/-- What is read with records in comments is what is read without, with the records attached that are
found on the rows of the consumers. -/
theorem read_eq_ok (h : l.read parse source = .ok q) :
    ∃ p rows, l.readPrepared parse (Record.scan l.commentMark source.toList).code = .ok (p, rows) ∧
      q = (p.attach (.aligned (Record.scan l.commentMark source.toList).records rows)).1 := by
  cases readable : l.isSentinel source.toList with
  | true =>
    rw [read, readable] at h
    cases h
  | false =>
    cases prepared : l.readPrepared parse (Record.scan l.commentMark source.toList).code with
    | error e =>
      rw [read, readable] at h
      simp only [prepared] at h
      cases h
    | ok out =>
      rw [read_eq readable rfl prepared] at h
      cases h
      exact ⟨out.1, out.2, rfl, rfl⟩

/-- The parameter types of what is read. Without records, every function lists known types only, and
then the types of its parameters decide what it lists. With records, apart or in comments, this is so
exactly if no record at the position of a function gives one of its parameters an unknown type. -/
theorem read_knowsParams (l : Language) (parse : Parser) (source : String) :
    (∀ code p rows, l.readPrepared parse code = .ok (p, rows) → p.KnowsParams) ∧
    (∀ records q, l.readWith parse records source = .ok q →
      ∃ p rows, l.readPrepared parse source.toList = .ok (p, rows) ∧
        (q.KnowsParams ↔ p.GivesKnown records)) ∧
    (∀ q, l.read parse source = .ok q →
      ∃ p rows, l.readPrepared parse (Record.scan l.commentMark source.toList).code = .ok (p, rows) ∧
        (q.KnowsParams ↔
          p.GivesKnown (Queue.aligned (Record.scan l.commentMark source.toList).records rows).records)) ∧
    ∀ p q : Program, p.KnowsParams → q.KnowsParams → ∀ f g, .function f ∈ p.subjects →
      .function g ∈ q.subjects → (∀ id, f.paramType id = g.paramType id) →
      f.paramTypes = g.paramTypes := by
  refine ⟨fun code p rows prepared => l.readPrepared_knowsParams parse code _ prepared, ?_, ?_, ?_⟩
  · intro records q h
    obtain ⟨p, rows, prepared, rfl⟩ := readWith_eq_ok h
    exact ⟨p, rows, prepared, (l.readPrepared_knowsParams parse _ _ prepared).attach_iff records⟩
  · intro q h
    obtain ⟨p, rows, prepared, rfl⟩ := read_eq_ok h
    exact ⟨p, rows, prepared, (l.readPrepared_knowsParams parse _ _ prepared).attach_iff _⟩
  · intro p q hp hq f g hf hg same
    exact (hp f hf).paramTypes_eq (hq g hg) same

/-- A function of two parameters with annotations, one of them with a name that is no known type. -/
def annotatedTree : Tree :=
  branch "program" none 0 [branch "function_declaration" none 0
    [token "identifier" (some "name") "f",
     branch "formal_parameters" (some "parameters") 0
       [branch "required_parameter" none 0
          [token "identifier" (some "pattern") "x", token "type_annotation" (some "type") ": number"],
        branch "required_parameter" none 0
          [token "identifier" (some "pattern") "y", token "type_annotation" (some "type") ": Point"]],
     branch "statement_block" (some "body") 0 []]]

def annotated : Signature :=
  { name := "f", params := [⟨"x", .param⟩, ⟨"y", .param⟩], paramTypes := .ofList [("x", .number)] }

/-- A record that knows the types of both parameters and not the one of another name. -/
def knowingRecord : Record :=
  { paramTypes := .ofList [("x", .string), ("y", .boolean), ("z", .unknown)] }

theorem read_knowsParams_annotated :
    typescript.readPrepared (fun _ => some annotatedTree) [] = .ok (⟨[.function annotated []]⟩, [0]) ∧
    ∃ q, typescript.readWith (fun _ => some annotatedTree) [knowingRecord] "" = .ok q ∧
      q.KnowsParams := by
  have prepared : typescript.readPrepared (fun _ => some annotatedTree) [] =
      .ok (⟨[.function annotated []]⟩, [0]) := rfl
  obtain ⟨-, apart, -⟩ := read_knowsParams typescript (fun _ => some annotatedTree) ""
  obtain ⟨p, rows, same, iff⟩ := apart [knowingRecord] _ rfl
  cases same.symm.trans prepared
  refine ⟨prepared, _, rfl, iff.2 ?_⟩
  intro k f r here given
  cases k with
  | zero =>
    cases here
    cases given
    decide
  | succ k => cases given

/-- A function of one parameter without an annotation. -/
def plainTree : Tree :=
  branch "module" none 0 [branch "function_definition" none 0
    [token "identifier" (some "name") "f",
     branch "parameters" (some "parameters") 0 [token "identifier" none "x"],
     branch "block" (some "body") 1 [branch "pass_statement" none 1 []]]]

/-- The function with an unknown type listed. -/
def unspelled : Signature :=
  { name := "f", params := [⟨"x", .param⟩], paramTypes := .ofList [("x", .unknown)] }

/-- The source of the function with a record that gives its parameter the name of a class as type. -/
def commentedSource : String :=
  "def f(x): # __META__: \x7b\"paramTypes\":\x7b\"x\":\"Point\"\x7d\x7d\n    pass"

theorem scan_commentedSource :
    Record.scan python.commentMark commentedSource.toList =
      ⟨"def f(x):\n    pass".toList, [(0, { paramTypes := .ofList [("x", .unknown)] })]⟩ :=
  congrArg₂ Record.Scanned.mk (by decide +kernel) (by decide +kernel)

/-- The same record apart and in the comment: the unknown type is listed. -/
theorem read_knowsParams_unspelled :
    (∃ r, Record.salvage? (.obj [("paramTypes", .obj [("x", .str "Point")])]) = some r ∧
      python.readWith (fun _ => some plainTree) [r] "def f(x):\n    pass" =
        .ok ⟨[.function unspelled []]⟩) ∧
    python.read (fun _ => some plainTree) commentedSource = .ok ⟨[.function unspelled []]⟩ ∧
    ¬ (⟨[.function unspelled []]⟩ : Program).KnowsParams := by
  have prepared : python.readPrepared (fun _ => some plainTree) "def f(x):\n    pass".toList =
      .ok (⟨[.function { name := "f", params := [⟨"x", .param⟩] } []]⟩, [0]) := rfl
  have readable : python.isSentinel commentedSource.toList = false := by decide +kernel
  refine ⟨⟨_, rfl, rfl⟩, read_eq readable scan_commentedSource prepared, fun known => ?_⟩
  have own : unspelled.KnowsParams := known unspelled (by simp)
  revert own
  decide

end Language

end Interlingua

import Interlingua.Program.Json
import Interlingua.Proofs.Dict
import Interlingua.Proofs.Program.Literals
import Interlingua.Proofs.Types

/-!
# Programs read back from JSON

A part of a program is read back from its JSON form exactly if all its doubles are finite. There is no
JSON number for the others: they are written as null, and null is not read as a double.
-/

namespace Interlingua

namespace BaseType

@[simp] theorem ofJson?_toJson (t : BaseType) : ofJson? t.toJson = some t := by
  simp [ofJson?, toJson, Json.str?]

end BaseType

namespace Json

variable {α : Type} {encode : α → Json} {decode? : Json → Option α}

theorem list?_arr_map {items : List α} (h : ∀ a ∈ items, decode? (encode a) = some a) :
    list? decode? (.arr (items.map encode)) = some items := by
  change (items.map encode).mapM decode? = some items
  induction items with
  | nil => rfl
  | cons a items ih =>
    obtain ⟨first, others⟩ := List.forall_mem_cons.1 h
    rw [List.map_cons, List.mapM_cons, first, ih others]
    rfl

theorem dict?_ofDict {d : Dict α} (h : ∀ e ∈ d.entries, decode? (encode e.2) = some e.2) :
    dict? decode? (.ofDict encode d) = some d := by
  have entries : (d.entries.map fun e => (e.1, encode e.2)).mapM
      (fun e => (decode? e.2).map fun value => (e.1, value)) = some d.entries := by
    generalize d.entries = entries at h
    induction entries with
    | nil => rfl
    | cons e entries ih =>
      obtain ⟨first, others⟩ := List.forall_mem_cons.1 h
      rw [List.map_cons, List.mapM_cons, first, ih others]
      rfl
  change ((d.entries.map fun e => (e.1, encode e.2)).mapM
    (fun e => (decode? e.2).map fun value => (e.1, value))).bind _ = some d
  rw [entries]
  exact congrArg some d.ofList_entries

end Json

theorem BinaryOp.ofJson?_variantName (op : BinaryOp) : ofJson? (.str op.variantName) = some op := by
  cases op <;> rfl

theorem CompareOp.ofJson?_variantName (op : CompareOp) : ofJson? (.str op.variantName) = some op := by
  cases op <;> rfl

theorem Name.ofJson?_toJson (n : Name) : ofJson? n.toJson = some n := by
  obtain ⟨id, role⟩ := n
  cases role <;> rfl

section

variable {α β : Type} (c d : Bool)

private theorem bind_ite (a : α) (f : α → Option β) :
    (if c then some a else none).bind f = if c then f a else none := by
  cases c <;> rfl

private theorem map_ite (a : α) (f : α → β) :
    (if c then some a else none).map f = if c then some (f a) else none := by
  cases c <;> rfl

private theorem ite_ite (a : Option α) :
    (if c then (if d then a else none) else none) = if c && d then a else none := by
  cases c <;> cases d <;> rfl

end

/-- Whether a literal is no double that is infinite or not a number. -/
def Literal.isFinite : Literal → Bool
  | float x => x.isFinite
  | _ => true

section

variable {code : FloatCode}

/-- Exactly the finite doubles are read back. -/
def FloatCode.Faithful (code : FloatCode) : Prop :=
  ∀ x, code.decode? (code.encode x) = if x.isFinite then some x else none

theorem FloatCode.number_faithful : number.Faithful := by
  intro x
  cases finite : x.isFinite <;> simp [number, finite]

/-- A list is not looked for under another key, whatever stands there. -/
theorem Expr.listField?_of_ne {key other : String} (ne : key ≠ other) (v : Json)
    (members : List (String × Json)) :
    Expr.listField? code key ((other, v) :: members) = Expr.listField? code key members := by
  cases v <;> simp [Expr.listField?, ne]

theorem Stmt.listField?_of_ne {key other : String} (ne : key ≠ other) (v : Json)
    (members : List (String × Json)) :
    Stmt.listField? code key ((other, v) :: members) = Stmt.listField? code key members := by
  cases v <;> simp [Stmt.listField?, ne]

theorem Expr.list?_ofJson? (items : List Json) :
    Json.list? (Expr.ofJson? code) (.arr items) = Expr.listOfJson? code items := by
  change items.mapM (Expr.ofJson? code) = _
  induction items with
  | nil => rfl
  | cons v items ih =>
    rw [List.mapM_cons, ih]
    rfl

theorem Stmt.list?_ofJson? (items : List Json) :
    Json.list? (Stmt.ofJson? code) (.arr items) = Stmt.listOfJson? code items := by
  change items.mapM (Stmt.ofJson? code) = _
  induction items with
  | nil => rfl
  | cons v items ih =>
    rw [List.mapM_cons, ih]
    rfl

/-- The statements that hold a single expression. -/
theorem Stmt.ofVariant?_toJson (value : Expr) :
    Stmt.ofVariant? code "ExprStatement" (value.toJson code) =
      (Expr.ofJson? code (value.toJson code)).map .expr ∧
    Stmt.ofVariant? code "Print" (value.toJson code) =
      (Expr.ofJson? code (value.toJson code)).map .print ∧
    Stmt.ofVariant? code "Return" (value.toJson code) =
      (Expr.ofJson? code (value.toJson code)).map fun value => .ret (some value) := by
  cases value <;> exact ⟨rfl, rfl, rfl⟩

theorem Signature.ofJson?_functionToJson (f : Signature) (body : List Json) :
    Signature.ofJson? (functionToJson f body) = some f := by
  have params : Json.list? Name.ofJson? (.arr (f.params.map Name.toJson)) = some f.params :=
    Json.list?_arr_map fun n _ => n.ofJson?_toJson
  have types : Json.dict? BaseType.ofJson? (.ofDict BaseType.toJson f.paramTypes) =
      some f.paramTypes :=
    Json.dict?_ofDict fun e _ => e.2.ofJson?_toJson
  have facts : Json.dict? (Json.dict? Json.str?) (.ofDict (.ofDict .str) f.paramFacts) =
      some f.paramFacts :=
    Json.dict?_ofDict fun _ _ => Json.dict?_ofDict fun _ _ => rfl
  change ((Json.list? Name.ofJson? (.arr (f.params.map Name.toJson))).bind fun params =>
    (BaseType.ofJson? f.returnType.toJson).bind fun returnType =>
      (Json.dict? BaseType.ofJson? (.ofDict BaseType.toJson f.paramTypes)).bind fun paramTypes =>
        (Json.dict? (Json.dict? Json.str?) (.ofDict (.ofDict .str) f.paramFacts)).bind fun paramFacts =>
          some ⟨f.name, params, returnType, paramTypes, paramFacts⟩) = some f
  rw [params, types, facts, f.returnType.ofJson?_toJson]
  rfl

theorem Literal.ofJson?_toJson (faithful : code.Faithful) (value : Literal) :
    ofJson? code (value.toJson code) = if value.isFinite then some value else none := by
  cases value with
  | str value | bool value => rfl
  | int n =>
    have fits : Radix.inInt64 n.toInt = true := by
      have low := n.le_toInt
      have high := n.toInt_lt
      simp only [Radix.inInt64, Bool.and_eq_true, decide_eq_true_eq]
      omega
    change ((some n.toInt).filter Radix.inInt64).map (fun n => int (Int64.ofInt n)) = some (int n)
    simp [Option.filter_some, fits]
  | float x =>
    change (code.decode? (code.encode x)).map float = if x.isFinite then some (float x) else none
    rw [faithful]
    split <;> rfl
  | null => rfl

mutual

theorem Expr.ofJson?_toJson (faithful : code.Faithful) (e : Expr) :
    Expr.ofJson? code (e.toJson code) = if e.literals.all Literal.isFinite then some e else none :=
  match e with
  | .call callee args => by
    have inner : Expr.listField? code "args"
        [("func", callee.toJson code), ("args", .arr (Expr.listToJson code args))] =
          Expr.listOfJson? code (Expr.listToJson code args) :=
      Expr.listField?_of_ne (by decide) _ _
    change ((Expr.ofJson? code (callee.toJson code)).bind fun callee' =>
      (Expr.listField? code "args"
        [("func", callee.toJson code), ("args", .arr (Expr.listToJson code args))]).bind fun args' =>
          some (Expr.call callee' args')) = _
    simp only [inner, Expr.ofJson?_toJson faithful callee, Expr.listOfJson?_listToJson faithful args,
      bind_ite, ite_ite, Expr.literals, List.all_append]
  | .name n => congrArg (Option.map Expr.name) n.ofJson?_toJson
  | .const value type => by
    change ((Literal.ofJson? code (value.toJson code)).bind fun value =>
      (BaseType.ofJson? type.toJson).bind fun type => some (Expr.const value type)) = _
    simp [Literal.ofJson?_toJson faithful value, bind_ite, Expr.literals]
  | .member object property => by
    change ((Expr.ofJson? code (object.toJson code)).bind fun object =>
      some (Expr.member object property)) = _
    rw [Expr.ofJson?_toJson faithful object, bind_ite, Expr.literals]
  | .binary left op right => by
    change ((BinaryOp.ofJson? (.str op.variantName)).bind fun op =>
      (Expr.ofJson? code (left.toJson code)).bind fun left =>
        (Expr.ofJson? code (right.toJson code)).bind fun right => some (Expr.binary left op right)) = _
    simp only [op.ofJson?_variantName, Option.bind_some, Expr.ofJson?_toJson faithful left,
      Expr.ofJson?_toJson faithful right, bind_ite, ite_ite, Expr.literals, List.all_append]
  | .compare left op right => by
    change ((CompareOp.ofJson? (.str op.variantName)).bind fun op =>
      (Expr.ofJson? code (left.toJson code)).bind fun left =>
        (Expr.ofJson? code (right.toJson code)).bind fun right => some (Expr.compare left op right)) = _
    simp only [op.ofJson?_variantName, Option.bind_some, Expr.ofJson?_toJson faithful left,
      Expr.ofJson?_toJson faithful right, bind_ite, ite_ite, Expr.literals, List.all_append]
  | .list elements element homogeneous => by
    change ((BaseType.ofJson? element.toJson).bind fun element =>
      (Expr.listOfJson? code (Expr.listToJson code elements)).bind fun elements =>
        some (Expr.list elements element homogeneous)) = _
    rw [BaseType.ofJson?_toJson, Option.bind_some, Expr.listOfJson?_listToJson faithful elements,
      bind_ite, Expr.literals]
  | .tuple elements types => by
    change ((Json.list? BaseType.ofJson? (.arr (types.map BaseType.toJson))).bind fun types =>
      (Expr.listOfJson? code (Expr.listToJson code elements)).bind fun elements =>
        some (Expr.tuple elements types)) = _
    rw [Json.list?_arr_map fun type _ => type.ofJson?_toJson, Option.bind_some,
      Expr.listOfJson?_listToJson faithful elements, bind_ite, Expr.literals]
  | .unknown _ => rfl

theorem Expr.listOfJson?_listToJson (faithful : code.Faithful) (es : List Expr) :
    Expr.listOfJson? code (Expr.listToJson code es) =
      if (Expr.literalsAll es).all Literal.isFinite then some es else none :=
  match es with
  | [] => rfl
  | e :: es => by
    change ((Expr.ofJson? code (e.toJson code)).bind fun e =>
      (Expr.listOfJson? code (Expr.listToJson code es)).bind fun es => some (e :: es)) = _
    simp only [Expr.ofJson?_toJson faithful e, Expr.listOfJson?_listToJson faithful es, bind_ite,
      ite_ite, Expr.literalsAll, List.all_append]

end

theorem callOfJson?_callToJson (faithful : code.Faithful) (callee : Expr) (args : List Expr) :
    callOfJson? code (callToJson code callee args) =
      if (callee.literals ++ Expr.literalsAll args).all Literal.isFinite then some (callee, args)
      else none := by
  change ((Expr.ofJson? code (callee.toJson code)).bind fun callee =>
    (Json.list? (Expr.ofJson? code) (.arr (Expr.listToJson code args))).bind fun args =>
      some (callee, args)) = _
  simp only [Expr.list?_ofJson?, callee.ofJson?_toJson faithful,
    Expr.listOfJson?_listToJson faithful args, bind_ite, ite_ite, List.all_append]

theorem Assign.ofJson?_toJson (faithful : code.Faithful) (a : Assign) :
    ofJson? code (a.toJson code) =
      if a.value.literals.all Literal.isFinite then some a else none := by
  change ((Name.ofJson? a.target.toJson).bind fun target =>
    (Expr.ofJson? code (a.value.toJson code)).bind fun value =>
      (BaseType.ofJson? a.type.toJson).bind fun type => some (Assign.mk target value type)) = _
  simp only [Name.ofJson?_toJson, BaseType.ofJson?_toJson, Option.bind_some,
    a.value.ofJson?_toJson faithful, bind_ite]

mutual

theorem Stmt.ofJson?_toJson (faithful : code.Faithful) (s : Stmt) :
    Stmt.ofJson? code (s.toJson code) = if s.literals.all Literal.isFinite then some s else none :=
  match s with
  | .expr value => by
    refine (Stmt.ofVariant?_toJson value).1.trans ?_
    rw [value.ofJson?_toJson faithful, map_ite, Stmt.literals]
  | .print value => by
    refine (Stmt.ofVariant?_toJson value).2.1.trans ?_
    rw [value.ofJson?_toJson faithful, map_ite, Stmt.literals]
  | .function f body => by
    change ((Signature.ofJson? (functionToJson f (Stmt.listToJson code body))).bind fun f =>
      (Stmt.listOfJson? code (Stmt.listToJson code body)).bind fun body =>
        some (Stmt.function f body)) = _
    rw [f.ofJson?_functionToJson, Option.bind_some, Stmt.listOfJson?_listToJson faithful body, bind_ite,
      Stmt.literals]
  | .classDef name bases body => by
    change (((Json.list? (Expr.ofJson? code) (.arr (Expr.listToJson code bases))).bind fun bases =>
      some (name, bases)).bind fun (name, bases) =>
        (Stmt.listOfJson? code (Stmt.listToJson code body)).bind fun body =>
          some (Stmt.classDef name bases body)) = _
    simp only [Expr.list?_ofJson?, Expr.listOfJson?_listToJson faithful bases,
      Stmt.listOfJson?_listToJson faithful body, bind_ite, ite_ite, Stmt.literals, List.all_append]
  | .assign a => by
    change (Assign.ofJson? code (a.toJson code)).map Stmt.assign = _
    rw [a.ofJson?_toJson faithful, map_ite, Stmt.literals]
  | .call callee args => by
    change (callOfJson? code (callToJson code callee args)).map (fun call => Stmt.call call.1 call.2) = _
    rw [callOfJson?_callToJson faithful, map_ite, Stmt.literals]
  | .ret none => rfl
  | .ret (some value) => by
    refine (Stmt.ofVariant?_toJson value).2.2.trans ?_
    rw [value.ofJson?_toJson faithful, map_ite, Stmt.literals]
  | .cond test body orelse => by
    have bodies : Stmt.listField? code "body" [("test", test.toJson code),
        ("body", .arr (Stmt.listToJson code body)), ("orelse", .arr (Stmt.listToJson code orelse))] =
          Stmt.listOfJson? code (Stmt.listToJson code body) :=
      Stmt.listField?_of_ne (by decide) _ _
    have branches : Stmt.listField? code "orelse" [("test", test.toJson code),
        ("body", .arr (Stmt.listToJson code body)), ("orelse", .arr (Stmt.listToJson code orelse))] =
          Stmt.listOfJson? code (Stmt.listToJson code orelse) :=
      Stmt.listField?_of_ne (by decide) _ _
    change ((Expr.ofJson? code (test.toJson code)).bind fun test' =>
      (Stmt.listField? code "body" [("test", test.toJson code),
        ("body", .arr (Stmt.listToJson code body)),
        ("orelse", .arr (Stmt.listToJson code orelse))]).bind fun body' =>
          (Stmt.listField? code "orelse" [("test", test.toJson code),
            ("body", .arr (Stmt.listToJson code body)),
            ("orelse", .arr (Stmt.listToJson code orelse))]).bind fun orelse' =>
              some (Stmt.cond test' body' orelse')) = _
    simp only [bodies, branches, test.ofJson?_toJson faithful,
      Stmt.listOfJson?_listToJson faithful body, Stmt.listOfJson?_listToJson faithful orelse, bind_ite,
      ite_ite, Stmt.literals, List.all_append, Bool.and_assoc]
  | .unknown _ => rfl

theorem Stmt.listOfJson?_listToJson (faithful : code.Faithful) (ss : List Stmt) :
    Stmt.listOfJson? code (Stmt.listToJson code ss) =
      if (Stmt.literalsAll ss).all Literal.isFinite then some ss else none :=
  match ss with
  | [] => rfl
  | s :: ss => by
    change ((Stmt.ofJson? code (s.toJson code)).bind fun s =>
      (Stmt.listOfJson? code (Stmt.listToJson code ss)).bind fun ss => some (s :: ss)) = _
    simp only [Stmt.ofJson?_toJson faithful s, Stmt.listOfJson?_listToJson faithful ss, bind_ite,
      ite_ite, Stmt.literalsAll, List.all_append]

end

theorem Program.ofJson?_toJson (faithful : code.Faithful) (p : Program) :
    Program.ofJson? code (p.toJson code) =
      if p.literals.all Literal.isFinite then some p else none := by
  change ((Json.list? (Stmt.ofJson? code) (.arr (Stmt.listToJson code p.body))).bind fun body =>
    some (Program.mk body)) = _
  rw [Stmt.list?_ofJson?, Stmt.listOfJson?_listToJson faithful, bind_ite]
  rfl

end

/-- A part of a program is read back from its JSON form exactly if its doubles are finite. -/
theorem Fragment.ofJson?_toJson_number (f : Fragment) :
    ofJson? .number (f.toJson .number) =
      if f.literals.all Literal.isFinite then some f else none := by
  cases f with
  | program p =>
    change (Program.ofJson? .number (p.toJson .number)).map Fragment.program = _
    rw [p.ofJson?_toJson FloatCode.number_faithful, map_ite, literals]
  | stmt s =>
    change (Stmt.ofJson? .number (s.toJson .number)).map Fragment.stmt = _
    rw [s.ofJson?_toJson FloatCode.number_faithful, map_ite, literals]
  | expr e =>
    change (Expr.ofJson? .number (e.toJson .number)).map Fragment.expr = _
    rw [e.ofJson?_toJson FloatCode.number_faithful, map_ite, literals]

end Interlingua

import Interlingua.Proofs.Syntax.Clause

/-!
# Conditions on clauses and on their lines

`Clause.Every` asks one condition of all phrases of a clause and another of all its names. What is
asked of every expression and statement of a program becomes such conditions on its clauses, and
these a condition on every line, given what it takes for each kind of line.
-/

namespace Interlingua

section

variable (u : Untyped) (Q : Phrase → Prop) (W : String → Prop)

mutual

/-- Only Python has fillers, and only JavaScript declarations. -/
def Clause.Every : Clause → Prop
  | .expr value => Q value
  | .assign _ _ id value => W id ∧ Q value
  | .declare id => u = .javascript ∧ W id
  | .pass => u = .python
  | .ret value => ∀ e ∈ value, Q e
  | .function _ _ name params body => W name ∧ (∀ id ∈ params, W id) ∧ Clause.EveryAll body
  | .classDef name bases body => W name ∧ (∀ e ∈ bases, Q e) ∧ Clause.EveryAll body
  | .cond test body rest => Q test ∧ Clause.EveryAll body ∧ Alternative.Every rest

def Alternative.Every : Alternative → Prop
  | .none => True
  | .elseIf test body rest => Q test ∧ Clause.EveryAll body ∧ Alternative.Every rest
  | .otherwise body => Clause.EveryAll body

def Clause.EveryAll : List Clause → Prop
  | [] => True
  | c :: cs => Clause.Every c ∧ Clause.EveryAll cs

end

end

/-- What conditions on expressions and statements say of phrases and names. -/
structure Untyped.Grants (u : Untyped) (q : Expr → Bool) (p : Stmt → Bool) (Q : Phrase → Prop)
    (W : String → Prop) : Prop where
  phrase {e : Expr} : e.every q = true → Q (u.phrase e)
  print {value : Expr} : value.every q = true → Q (u.phrase (.call (.load "print") [value]))
  call {callee : Expr} {args : List Expr} :
    (Stmt.call callee args).every q p = true → Q (u.phrase (.call callee args))
  target {a : Assign} : p (.assign a) = true → W a.target.id
  signature {f : Signature} {body : List Stmt} :
    p (.function f body) = true → W f.name ∧ ∀ id ∈ f.paramNames, W id
  object : W "self"
  className {name : String} {bases : List Expr} {body : List Stmt} :
    p (.classDef name bases body) = true → W name
  modelled {description : String} : p (.unknown description) = false

/-- What it takes for a condition to hold of each kind of line. -/
structure Untyped.Heads (u : Untyped) (Q : Phrase → Prop) (W : String → Prop) (P : Line → Prop) :
    Prop where
  expr {value : Phrase} (depth : Nat) : Q value → P ⟨depth, value.text u ++ u.terminator, none⟩
  assign {id : String} {value : Phrase} (depth : Nat) (record : Record) (declares : Bool) :
    W id → Q value → P ⟨depth, (if declares then "let ".toList else []) ++ id.toList ++ " = ".toList
      ++ value.text u ++ u.terminator, some record⟩
  declare {id : String} (depth : Nat) :
    u = .javascript → W id → P ⟨depth, "let ".toList ++ id.toList ++ u.terminator, none⟩
  pass (depth : Nat) : u = .python → P ⟨depth, "pass".toList, none⟩
  retNone (depth : Nat) : P ⟨depth, "return".toList ++ u.terminator, none⟩
  ret {value : Phrase} (depth : Nat) :
    Q value → P ⟨depth, "return ".toList ++ value.text u ++ u.terminator, none⟩
  function {name : String} {params : List String} (depth : Nat) (record : Record) (method : Bool) :
    W name → (∀ id ∈ params, W id) →
      P ⟨depth, (u.functionWord method).toList ++ name.toList
        ++ '(' :: commas (params.map String.toList) ++ ')' :: u.opener, some record⟩
  classDef {name : String} {bases : List Phrase} (depth : Nat) : W name → (∀ e ∈ bases, Q e) →
    P ⟨depth, "class ".toList ++ name.toList ++ u.heritage (Phrase.texts u bases) ++ u.opener, none⟩
  cond {test : Phrase} (depth : Nat) :
    Q test → P ⟨depth, "if ".toList ++ u.tested test ++ u.opener, none⟩
  elseIf {test : Phrase} (depth : Nat) :
    Q test → P ⟨depth, u.elseIf.toList ++ "if ".toList ++ u.tested test ++ u.opener, none⟩
  otherwise (depth : Nat) : P ⟨depth, u.orElse.toList ++ u.opener, none⟩
  closing (depth : Nat) : ∀ l ∈ u.closing depth, P l

namespace Untyped

variable {u : Untyped} {Q : Phrase → Prop} {W : String → Prop}

theorem everyAll_append {cs ds : List Clause} (hc : Clause.EveryAll u Q W cs)
    (hd : Clause.EveryAll u Q W ds) : Clause.EveryAll u Q W (cs ++ ds) := by
  induction cs with
  | nil => exact hd
  | cons c cs ih => exact ⟨hc.1, ih hc.2⟩

theorem everyAll_block {body : List Clause} (h : Clause.EveryAll u Q W body) :
    Clause.EveryAll u Q W (u.block body) := by
  cases u with
  | python =>
    cases body with
    | nil => exact ⟨rfl, trivial⟩
    | cons c cs => exact h
  | javascript => exact h

theorem hoist_python (body : List Stmt) (declared : List String) :
    (python.hoist body declared).1 = [] := by
  unfold hoist
  induction escaping body with
  | nil => rfl
  | cons a rest ih => exact ih

theorem everyAll_hoist (u : Untyped) {body : List Stmt} (h : ∀ a ∈ escaping body, W a.target.id)
    (declared : List String) : Clause.EveryAll u Q W ((u.hoist body declared).1.map .declare) := by
  cases u with
  | python =>
    rw [hoist_python]
    trivial
  | javascript =>
    have names := javascript.hoist_forall h declared
    generalize (javascript.hoist body declared).1 = ids at names ⊢
    induction ids with
    | nil => trivial
    | cons id ids ih =>
      obtain ⟨first, others⟩ := List.forall_mem_cons.1 names
      exact ⟨⟨rfl, first⟩, ih others⟩

namespace Grants

variable {q : Expr → Bool} {p : Stmt → Bool}

theorem phrases (grants : u.Grants q p Q W) {es : List Expr} (h : Expr.everyAll q es = true) :
    ∀ e ∈ u.phrases es, Q e := by
  rw [phrases_eq_map]
  exact List.forall_mem_map.2 fun e mem => grants.phrase ((Expr.everyAll_iff q es).1 h e mem)

theorem paramNames (grants : u.Grants q p Q W) (inClass : Bool) {f : Signature}
    (h : ∀ id ∈ f.paramNames, W id) : ∀ id ∈ u.paramNames inClass f, W id := by
  have object := grants.object
  cases u <;> cases inClass <;> simp_all [Untyped.paramNames]

mutual

theorem every_clause (grants : u.Grants q p Q W) (s : Stmt) (h : s.every q p = true)
    (inClass : Bool) (declared : List String) :
    (u.clause inClass s declared).1.Every u Q W :=
  match s with
  | .expr value => by
    simp only [Stmt.every, Bool.and_eq_true] at h
    exact grants.phrase h.2
  | .print value => by
    simp only [Stmt.every, Bool.and_eq_true] at h
    exact grants.print h.2
  | .call callee args => grants.call h
  | .ret none => by simp [clause, Clause.Every]
  | .ret (some value) => by
    simp only [Stmt.every, Bool.and_eq_true] at h
    simpa [clause, Clause.Every] using grants.phrase h.2
  | .assign a => by
    simp only [Stmt.every, Bool.and_eq_true] at h
    exact ⟨grants.target h.1, grants.phrase h.2⟩
  | .function f body => by
    simp only [Stmt.every, Bool.and_eq_true] at h
    obtain ⟨name, params⟩ := grants.signature h.1
    have names := escaping_forall (fun _ => grants.target) h.2
    have ahead := u.everyAll_hoist (Q := Q) names f.paramNames
    have inner := grants.every_clauses body h.2 false (u.hoist body f.paramNames).2
    exact ⟨name, grants.paramNames inClass params, everyAll_block (everyAll_append ahead inner)⟩
  | .classDef name bases body => by
    simp only [Stmt.every, Bool.and_eq_true] at h
    have inner := grants.every_clauses body h.2 true []
    exact ⟨grants.className h.1.1, grants.phrases h.1.2, everyAll_block inner⟩
  | .cond test body orelse => by
    simp only [Stmt.every, Bool.and_eq_true] at h
    have first := grants.every_clauses body h.1.2 inClass declared
    have second := grants.every_alternative orelse h.2 inClass (u.clauses inClass body declared).2
    exact ⟨grants.phrase h.1.1.2, everyAll_block first, second⟩
  | .unknown description => by
    have none := grants.modelled.symm.trans h
    cases none

theorem every_clauses (grants : u.Grants q p Q W) (ss : List Stmt)
    (h : Stmt.everyAll q p ss = true) (inClass : Bool) (declared : List String) :
    Clause.EveryAll u Q W (u.clauses inClass ss declared).1 :=
  match ss with
  | [] => trivial
  | s :: ss => by
    simp only [Stmt.everyAll, Bool.and_eq_true] at h
    exact ⟨grants.every_clause s h.1 inClass declared, grants.every_clauses ss h.2 inClass _⟩

theorem every_alternative (grants : u.Grants q p Q W) (ss : List Stmt)
    (h : Stmt.everyAll q p ss = true) (inClass : Bool) (declared : List String) :
    (u.alternative inClass ss declared).1.Every u Q W :=
  match ss with
  | [] => trivial
  | [s] => by
    simp only [Stmt.everyAll, Bool.and_true] at h
    have own := grants.every_clause s h inClass declared
    cases s with
    | cond test body orelse => exact own
    | _ => exact ⟨own, trivial⟩
  | s :: next :: rest => by
    simp only [Stmt.everyAll, Bool.and_eq_true] at h
    have own := grants.every_clause s h.1 inClass declared
    have others := grants.every_clauses (next :: rest) (by simp [Stmt.everyAll, h.2]) inClass
      (u.clause inClass s declared).2
    rw [alternative_cons_cons]
    exact ⟨own, others⟩

end

theorem every_program (grants : u.Grants q p Q W) {program : Program} (h : program.every q p = true) :
    Clause.EveryAll u Q W (u.program program) :=
  everyAll_append (u.everyAll_hoist (escaping_forall (fun _ => grants.target) h) [])
    (grants.every_clauses program.body h false _)

end Grants

namespace Heads

variable {P : Line → Prop}

/-- A header, the lines of a block and what comes after it. -/
theorem headed {l : Line} {body rest : List Line} (header : P l) (inner : ∀ l ∈ body, P l)
    (after : ∀ l ∈ rest, P l) : ∀ m ∈ l :: body ++ rest, P m :=
  List.forall_mem_append.2 ⟨List.forall_mem_cons.2 ⟨header, inner⟩, after⟩

mutual

theorem forall_lines (heads : u.Heads Q W P) (c : Clause) (h : c.Every u Q W) (depth : Nat) :
    ∀ l ∈ c.lines u depth, P l :=
  match c with
  | .expr _ => List.forall_mem_singleton.2 (heads.expr depth h)
  | .assign record declares _ _ =>
    List.forall_mem_singleton.2 (heads.assign depth record declares h.1 h.2)
  | .declare _ => List.forall_mem_singleton.2 (heads.declare depth h.1 h.2)
  | .pass => List.forall_mem_singleton.2 (heads.pass depth h)
  | .ret none => List.forall_mem_singleton.2 (heads.retNone depth)
  | .ret (some value) => List.forall_mem_singleton.2 (heads.ret depth (h value rfl))
  | .function record method _ _ body =>
    headed (heads.function depth record method h.1 h.2.1)
      (heads.forall_linesAll body h.2.2 (depth + 1)) (heads.closing depth)
  | .classDef _ _ body =>
    headed (heads.classDef depth h.1 h.2.1) (heads.forall_linesAll body h.2.2 (depth + 1))
      (heads.closing depth)
  | .cond _ body rest =>
    headed (heads.cond depth h.1) (heads.forall_linesAll body h.2.1 (depth + 1))
      (heads.forall_linesOf rest h.2.2 depth)

theorem forall_linesOf (heads : u.Heads Q W P) (rest : Alternative) (h : rest.Every u Q W) (depth : Nat) :
    ∀ l ∈ rest.lines u depth, P l :=
  match rest with
  | .none => heads.closing depth
  | .elseIf _ body rest =>
    headed (heads.elseIf depth h.1) (heads.forall_linesAll body h.2.1 (depth + 1))
      (heads.forall_linesOf rest h.2.2 depth)
  | .otherwise body =>
    headed (heads.otherwise depth) (heads.forall_linesAll body h (depth + 1)) (heads.closing depth)

theorem forall_linesAll (heads : u.Heads Q W P) (cs : List Clause)
    (h : Clause.EveryAll u Q W cs) (depth : Nat) : ∀ l ∈ Clause.linesAll u depth cs, P l :=
  match cs with
  | [] => by simp [Clause.linesAll]
  | c :: cs => List.forall_mem_append.2
    ⟨heads.forall_lines c h.1 depth, heads.forall_linesAll cs h.2 depth⟩

end

end Heads

end Untyped

end Interlingua

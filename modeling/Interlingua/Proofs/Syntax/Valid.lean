import Interlingua.Proofs.Syntax.Core

/-!
# Core programs have valid clauses

Parentheses stand wherever an operand would bind too weakly, every block has a body, and variables
are declared only where the language has declarations. So the grammars give the text of a core
program the structure of its clauses.
-/

namespace Interlingua

variable (u : Untyped) {lex : Lexicon}

namespace Phrase

theorem isValid_atLeast {e : Phrase} (h : e.isValid lex = true) (least : Nat) :
    (e.atLeast least).isValid lex = true := by
  unfold atLeast
  split <;> exact h

theorem le_strength_atLeast (e : Phrase) (least : Nat) (h : least ≤ Expr.atom) :
    least ≤ (e.atLeast least).strength := by
  unfold atLeast
  split
  · exact h
  · omega

end Phrase

namespace BinaryOp

theorem strength_lt (op : BinaryOp) : op.strength < Expr.atom := by
  cases op <;> decide

end BinaryOp

namespace Untyped

theorem isValid_named {id : String} (h : lex.known id = true) :
    (u.named id).isValid lex = true ∧ (u.named id).isCallee = true := by
  unfold named
  split
  · cases u with
    | python => exact ⟨lex.own "print" (by decide), rfl⟩
    | javascript =>
      have console := lex.own "console" (by decide)
      have log := lex.own "log" (by decide)
      simp [printer, Phrase.isValid, Phrase.isCallee, Phrase.isObject, Phrase.strength, console, log]
  · exact ⟨h, rfl⟩

/-- Without parentheses, a literal in front of a dot is no number. -/
theorem isObject_phrase {object : Expr} (own : object.isCore lex = true)
    (other : object.constType ≠ .number) :
    ((u.phrase object).atLeast Expr.atom).isObject = true := by
  unfold Phrase.atLeast
  split
  · rfl
  · rename_i strong
    cases object with
    | const value type =>
      obtain ⟨rfl, _⟩ : type = value.baseType ∧ value.isCore = true := by
        simpa [Expr.isCore] using own
      simpa [phrase, Phrase.isObject, Expr.constType] using other
    | tuple elements types => simp [Expr.isCore] at own
    | unknown description => simp [Expr.isCore] at own
    | _ => simpa [phrase, Phrase.isObject] using strong

mutual

theorem isValid_phrase (e : Expr) (h : e.every (Expr.isCore lex) = true) :
    (u.phrase e).isValid lex = true :=
  match e with
  | .call callee args => by
    simp only [Expr.every, Bool.and_eq_true] at h
    obtain ⟨⟨callable, inner⟩, others⟩ := h
    have own := Expr.every_self inner
    have called : (u.calleePhrase callee (u.phrase callee)).isValid lex = true ∧
        (u.calleePhrase callee (u.phrase callee)).isCallee = true := by
      have valid := Phrase.isValid_atLeast (isValid_phrase callee inner) Expr.atom
      cases callee with
      | name n =>
        simp only [Expr.isCore, Bool.and_eq_true] at own
        exact u.isValid_named own.2
      | call _ _ | member _ _ => exact ⟨valid, rfl⟩
      | _ => cases callable
    simp [phrase, Phrase.isValid, called, areValid_phrases args others]
  | .name n => by
    simp only [Expr.every, Expr.isCore, Bool.and_eq_true] at h
    exact h.2
  | .const value type => by
    simp only [Expr.every, Expr.isCore, Bool.and_eq_true] at h
    cases value with
    | float x => cases h.2
    | _ => rfl
  | .member object property => by
    simp only [Expr.every, Expr.isCore, Bool.and_eq_true, decide_eq_true_eq] at h
    obtain ⟨⟨known, other⟩, inner⟩ := h
    have valid := Phrase.isValid_atLeast (isValid_phrase object inner) Expr.atom
    simp [phrase, Phrase.isValid, valid, u.isObject_phrase (Expr.every_self inner) other, known]
  | .binary left op right => by
    simp only [Expr.every, Bool.and_eq_true] at h
    have low := op.strength_lt
    have front := (u.phrase left).le_strength_atLeast op.strength (by omega)
    have back := (u.phrase right).le_strength_atLeast (op.strength + 1) low
    simp [phrase, Phrase.isValid, Phrase.isValid_atLeast (isValid_phrase left h.1.2),
      Phrase.isValid_atLeast (isValid_phrase right h.2), front]
    omega
  | .compare left op right => by
    simp only [Expr.every, Bool.and_eq_true] at h
    have front := (u.phrase left).le_strength_atLeast (CompareOp.strength + 1) (by decide)
    have back := (u.phrase right).le_strength_atLeast (CompareOp.strength + 1) (by decide)
    simp [phrase, Phrase.isValid, Phrase.isValid_atLeast (isValid_phrase left h.1.2),
      Phrase.isValid_atLeast (isValid_phrase right h.2)]
    omega
  | .list elements element homogeneous => by
    simp only [Expr.every, Bool.and_eq_true] at h
    exact areValid_phrases elements h.2
  | .tuple _ _ | .unknown _ => by simp [Expr.every, Expr.isCore] at h

theorem areValid_phrases (es : List Expr) (h : Expr.everyAll (Expr.isCore lex) es = true) :
    Phrase.areValid lex (u.phrases es) = true :=
  match es with
  | [] => rfl
  | e :: es => by
    simp only [Expr.everyAll, Bool.and_eq_true] at h
    simp [phrases, Phrase.areValid, isValid_phrase e h.1, areValid_phrases es h.2]

end

theorem isBody_block (body : List Clause) : u.isBody (u.block body) = true := by
  cases u with
  | python => cases body <;> rfl
  | javascript => rfl

theorem areValid_append {inClass : Bool} {cs ds : List Clause}
    (hc : Clause.areValid u lex inClass cs = true) (hd : Clause.areValid u lex inClass ds = true) :
    Clause.areValid u lex inClass (cs ++ ds) = true := by
  induction cs with
  | nil => exact hd
  | cons c cs ih =>
    simp only [Clause.areValid, Bool.and_eq_true] at hc
    simp [Clause.areValid, hc.1, ih hc.2]

theorem areValid_block {inClass : Bool} {body : List Clause}
    (h : Clause.areValid u lex inClass body = true) :
    Clause.areValid u lex inClass (u.block body) = true := by
  cases u with
  | python =>
    cases body with
    | nil => rfl
    | cons c cs => exact h
  | javascript => exact h

/-- Only JavaScript has declarations, and it has those of known names. -/
theorem areValid_hoist {body : List Stmt} (h : ∀ a ∈ escaping body, lex.known a.target.id = true)
    (declared : List String) :
    Clause.areValid u lex false ((u.hoist body declared).1.map .declare) = true := by
  cases u with
  | python =>
    rw [hoist_python]
    rfl
  | javascript =>
    have known := hoist_forall javascript (P := fun id => lex.known id = true) h declared
    generalize (javascript.hoist body declared).1 = names at known ⊢
    induction names with
    | nil => rfl
    | cons id rest ih =>
      obtain ⟨first, others⟩ := List.forall_mem_cons.1 known
      simp [Clause.areValid, Clause.isValid, first, ih others]

theorem isValid_assign {inClass : Bool} {a : Assign} (known : lex.known a.target.id = true)
    (h : a.value.every (Expr.isCore lex) = true) (declared : List String) :
    (u.assignClause inClass a declared).1.isValid u lex inClass = true := by
  have valid := u.isValid_phrase a.value h
  cases u <;> cases inClass <;> simp [assignClause, Clause.isValid, known, valid]

/-- The object of a method is a known name like those of the parameters. -/
theorem known_paramNames (inClass : Bool) {f : Signature}
    (h : ∀ n ∈ f.params, lex.known n.id = true) : (u.paramNames inClass f).all lex.known = true := by
  have own : f.paramNames.all lex.known = true := by simpa [Signature.paramNames] using h
  have object := lex.own "self" (by decide)
  cases u <;> cases inClass <;> simp [paramNames, own, object]

mutual

theorem isValid_clause (inClass : Bool) (s : Stmt)
    (h : s.every (Expr.isCore lex) (Stmt.isCore lex) = true)
    (fits : inClass = true → s.isMember = true) (declared : List String) :
    (u.clause inClass s declared).1.isValid u lex inClass = true :=
  match s with
  | .assign a => by
    simp only [Stmt.every, Stmt.isCore, Bool.and_eq_true] at h
    exact u.isValid_assign h.1.2 h.2 declared
  | .function f body => by
    simp only [Stmt.every, Stmt.isCore, Bool.and_eq_true, List.all_eq_true] at h
    obtain ⟨⟨⟨name, params⟩, _⟩, inner⟩ := h
    have ahead := u.areValid_hoist (escaping_forall (P := fun a => lex.known a.target.id = true)
      (fun a own => (Bool.and_eq_true_iff.1 own).2) inner) f.paramNames
    have valid := u.areValid_append ahead
      (areValid_clauses false body inner (by simp) (u.hoist body f.paramNames).2)
    have known := u.known_paramNames inClass fun n mem => (params n mem).2
    simp [clause, Clause.isValid, name, known, isBody_block]
    exact u.areValid_block valid
  | .expr value => by
    have outside : inClass = false := by simpa [Stmt.isMember] using fits
    simp only [Stmt.every, Bool.and_eq_true] at h
    simp [outside, clause, Clause.isValid, u.isValid_phrase value h.2]
  | .print value => by
    have outside : inClass = false := by simpa [Stmt.isMember] using fits
    simp only [Stmt.every, Bool.and_eq_true] at h
    have printer : lex.known "print" = true := lex.own "print" (by decide)
    have printed : (Expr.call (.load "print") [value]).every (Expr.isCore lex) = true := by
      simp [Expr.every, Expr.everyAll, Expr.isCore, Expr.isCallable, Expr.load, printer, h.2]
    simp [outside, clause, Clause.isValid, u.isValid_phrase _ printed]
  | .call callee args => by
    have outside : inClass = false := by simpa [Stmt.isMember] using fits
    simp only [Stmt.every, Stmt.isCore, Bool.and_eq_true] at h
    obtain ⟨⟨⟨callable, _⟩, inner⟩, others⟩ := h
    have called : (Expr.call callee args).every (Expr.isCore lex) = true := by
      simp [Expr.every, Expr.isCore, callable, inner, others]
    simp [outside, clause, Clause.isValid, u.isValid_phrase _ called]
  | .ret none => by
    have outside : inClass = false := by simpa [Stmt.isMember] using fits
    simp [outside, clause, Clause.isValid]
  | .ret (some value) => by
    have outside : inClass = false := by simpa [Stmt.isMember] using fits
    simp only [Stmt.every, Bool.and_eq_true] at h
    simp [outside, clause, Clause.isValid, u.isValid_phrase value h.2]
  | .classDef name bases body => by
    have outside : inClass = false := by simpa [Stmt.isMember] using fits
    simp only [Stmt.every, Stmt.isCore, Bool.and_eq_true, decide_eq_true_eq] at h
    obtain ⟨⟨⟨⟨⟨known, single⟩, named⟩, members⟩, valid⟩, inner⟩ := h
    have names : (u.phrases bases).all Phrase.isName = true := by
      rw [phrases_eq_map, List.all_map]
      refine List.all_eq_true.2 fun e mem => ?_
      have own := List.all_eq_true.1 named e mem
      cases e <;> first | rfl | cases own
    have length : (u.phrases bases).length ≤ 1 := by simpa [phrases_eq_map] using single
    have all := u.areValid_block (areValid_clauses true body inner (fun _ => members) [])
    simp [outside, clause, Clause.isValid, known, length, names, u.areValid_phrases bases valid,
      isBody_block, all]
  | .cond test body orelse => by
    have outside : inClass = false := by simpa [Stmt.isMember] using fits
    subst outside
    simp only [Stmt.every, Bool.and_eq_true] at h
    have first := u.areValid_block (areValid_clauses false body h.1.2 (by simp) declared)
    have second := isValid_alternative orelse h.2 (u.clauses false body declared).2
    simp [clause, Clause.isValid, u.isValid_phrase test h.1.1.2, isBody_block, first, second]
  | .unknown _ => by simp [Stmt.every, Stmt.isCore] at h

theorem areValid_clauses (inClass : Bool) (ss : List Stmt)
    (h : Stmt.everyAll (Expr.isCore lex) (Stmt.isCore lex) ss = true)
    (fits : inClass = true → ss.all Stmt.isMember = true) (declared : List String) :
    Clause.areValid u lex inClass (u.clauses inClass ss declared).1 = true :=
  match ss with
  | [] => rfl
  | s :: ss => by
    simp only [Stmt.everyAll, Bool.and_eq_true] at h
    simp only [List.all_cons, Bool.and_eq_true] at fits
    have first := isValid_clause inClass s h.1 (fun own => (fits own).1) declared
    have rest := areValid_clauses inClass ss h.2 (fun own => (fits own).2)
      (u.clause inClass s declared).2
    simp [clauses, Clause.areValid, first, rest]

theorem isValid_alternative (ss : List Stmt)
    (h : Stmt.everyAll (Expr.isCore lex) (Stmt.isCore lex) ss = true) (declared : List String) :
    (u.alternative false ss declared).1.isValid u lex false = true :=
  match ss with
  | [] => rfl
  | [s] => by
    simp only [Stmt.everyAll, Bool.and_true] at h
    have own := isValid_clause false s h (by simp) declared
    cases s with
    | cond test body orelse => exact own
    | _ => cases u <;> exact (Bool.and_true _).trans own
  | s :: next :: rest => by
    simp only [Stmt.everyAll, Bool.and_eq_true] at h
    have first := isValid_clause false s h.1 (by simp) declared
    have others := areValid_clauses false (next :: rest) (by simp [Stmt.everyAll, h.2]) (by simp)
      (u.clause false s declared).2
    rw [u.alternative_cons_cons]
    have all : Clause.areValid u lex false (u.clauses false (s :: next :: rest) declared).1 = true :=
      Bool.and_eq_true_iff.2 ⟨first, others⟩
    cases u <;> exact all

end

theorem areValid_program {p : Program} (h : p.isCore lex = true) :
    Clause.areValid u lex false (u.program p) = true := by
  have ahead := u.areValid_hoist (escaping_forall (P := fun a => lex.known a.target.id = true)
    (fun a own => (Bool.and_eq_true_iff.1 own).2) h) []
  exact u.areValid_append ahead (u.areValid_clauses false p.body h (by simp) (u.hoist p.body []).2)

end Untyped

end Interlingua

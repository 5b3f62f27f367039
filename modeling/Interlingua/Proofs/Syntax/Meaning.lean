import Interlingua.Proofs.Number.Reread
import Interlingua.Proofs.Program.Agreement
import Interlingua.Proofs.Syntax.Core

/-!
# What clauses say

A phrase says an expression and a clause says statements: parentheses, declarations and fillers say
nothing, and the function that prints has one name. The clauses of a core program say the program
without its types, up to literals that are alike.
-/

namespace Interlingua

namespace Untyped

/-- What is called, under the name it has in every program. -/
def folded : Untyped → Expr → Expr
  | python => id
  | javascript => Reading.foldPrint

/-- The parameters of a function; the object of a method is none of them. -/
def ownParams (u : Untyped) (method : Bool) (params : List String) : List String :=
  match u, params with
  | python, first :: rest => if method && first = "self" then rest else first :: rest
  | _, params => params

end Untyped

section

variable (u : Untyped)

namespace Phrase

mutual

def value : Phrase → Expr
  | name id => .load id
  | literal value => .lit value.reread
  | paren inner => value inner
  | member object property => .member (value object) property
  | call callee args => .call (u.folded (value callee)) (values args)
  | binary left op right => .binary (value left) op (value right)
  | compare left op right => .compare (value left) op (value right)
  | list elements => .listOf (values elements)
  | tuple elements => .tupleOf (values elements)

def values : List Phrase → List Expr
  | [] => []
  | e :: es => value e :: values es

end

@[simp] theorem value_atLeast (least : Nat) (e : Phrase) : (e.atLeast least).value u = e.value u := by
  unfold atLeast
  split <;> rfl

end Phrase

mutual

def Clause.meaning : Clause → List Stmt
  | .expr value => [.ofExpr (value.value u)]
  | .assign _ _ id value => [.assign (.store id (value.value u))]
  | .declare _ | .pass => []
  | .ret value => [.ret (value.map (Phrase.value u))]
  | .function _ method name params body =>
    [.function { name, params := (u.ownParams method params).map (⟨·, .param⟩) }
      (Clause.meaningAll body)]
  | .classDef name bases body => [.classDef name (Phrase.values u bases) (Clause.meaningAll body)]
  | .cond test body rest =>
    [.cond (test.value u) (Clause.meaningAll body) (Alternative.meaning rest)]

def Alternative.meaning : Alternative → List Stmt
  | .none => []
  | .elseIf test body rest =>
    [.cond (test.value u) (Clause.meaningAll body) (Alternative.meaning rest)]
  | .otherwise body => Clause.meaningAll body

def Clause.meaningAll : List Clause → List Stmt
  | [] => []
  | c :: cs => Clause.meaning c ++ Clause.meaningAll cs

end

end

namespace Untyped

variable (u : Untyped)

@[simp] theorem meaningAll_block (body : List Clause) :
    Clause.meaningAll u (u.block body) = Clause.meaningAll u body := by
  cases u with
  | python =>
    cases body with
    | nil => rfl
    | cons c cs => rfl
  | javascript => rfl

@[simp] theorem meaningAll_declare (names : List String) (cs : List Clause) :
    Clause.meaningAll u (names.map .declare ++ cs) = Clause.meaningAll u cs := by
  induction names with
  | nil => rfl
  | cons id names ih => exact ih

/-- The object that is added to the parameters of a method is taken away again. -/
theorem ownParams_paramNames (inClass : Bool) (f : Signature) :
    u.ownParams inClass (u.paramNames inClass f) = f.paramNames := by
  cases u with
  | python =>
    cases inClass with
    | true => rfl
    | false => cases names : f.paramNames <;> simp [ownParams, paramNames, names]
  | javascript => rfl

end Untyped

namespace Expr

theorem isConsoleLog_of_agree {e e' : Expr} (h : e.agree Literal.alike e' = true) :
    e'.isConsoleLog = e.isConsoleLog := by
  cases e with
  | member object property =>
    cases e' with
    | member object' property' =>
      obtain ⟨same, objects⟩ : property = property' ∧ object.agree Literal.alike object' = true := by
        simpa [agree] using h
      subst same
      cases object <;> cases object' <;> simp_all [agree, isConsoleLog]
    | _ => cases h
  | _ => cases e' <;> first | rfl | cases h

theorem foldPrint_of_not {e : Expr} (h : e.isConsoleLog = false) : Reading.foldPrint e = e := by
  cases e with
  | member object property =>
    cases object <;> simp_all [isConsoleLog, Reading.foldPrint]
  | _ => rfl

end Expr

namespace Literal

theorem agree_reread {value : Literal} (h : value.isCore = true) :
    (Expr.lit value).agree alike (.lit value.reread) = true := by
  have type : value.baseType = value.reread.baseType := by
    cases value with
    | int n => by_cases lowest : n = Int64.minValue <;> simp [reread, lowest, baseType]
    | _ => rfl
  have related : alike value value.reread = true :=
    alike_reread value fun x float => by simp [float, isCore] at h
  simp [Expr.lit, Expr.agree, ← type, related]

end Literal

section

variable (u : Untyped) {lex : Lexicon}

namespace Untyped

/-- What is called keeps its meaning: the function that prints gets its name back, and nothing else
is taken for it. -/
theorem agree_callee {callee : Expr} (own : callee.isCore lex = true)
    (callable : callee.isCallable = true)
    (h : callee.agree Literal.alike ((u.phrase callee).value u) = true) :
    callee.agree Literal.alike
      (u.folded ((u.calleePhrase callee (u.phrase callee)).value u)) = true := by
  cases callee with
  | name n =>
    obtain ⟨id, role⟩ := n
    obtain ⟨rfl, _⟩ : role = .load ∧ lex.known id = true := by simpa [Expr.isCore] using own
    by_cases printer : id = "print"
    · subst printer
      cases u <;> rfl
    · cases u <;> simp [calleePhrase, named, printer, folded, Phrase.value, Reading.foldPrint,
        Expr.load, Expr.agree]
  | call inner args => cases u <;> exact h
  | member object property =>
    have other : (Expr.member object property).isConsoleLog = false := by
      simpa [Expr.isCallable] using callable
    cases u with
    | python => exact h
    | javascript =>
      have kept := Expr.foldPrint_of_not ((Expr.isConsoleLog_of_agree h).trans other)
      change Expr.agree _ _ (Reading.foldPrint _) = true
      rw [show (calleePhrase javascript (.member object property)
        (javascript.phrase (.member object property))).value javascript =
        (javascript.phrase (.member object property)).value javascript from rfl, kept]
      exact h
  | _ => cases callable

mutual

theorem agree_value (e : Expr) (h : e.every (Expr.isCore lex) = true) :
    e.agree Literal.alike ((u.phrase e).value u) = true :=
  match e with
  | .call callee args => by
    simp only [Expr.every, Bool.and_eq_true] at h
    obtain ⟨⟨own, inner⟩, others⟩ := h
    have called := u.agree_callee (Expr.every_self inner) own (agree_value callee inner)
    simp [phrase, Phrase.value, Expr.agree, called, agree_values args others]
  | .name n => by
    obtain ⟨id, role⟩ := n
    obtain ⟨rfl, _⟩ : role = .load ∧ lex.known id = true := by
      simpa [Expr.every, Expr.isCore] using h
    simp [phrase, Phrase.value, Expr.load, Expr.agree]
  | .const value type => by
    obtain ⟨rfl, core⟩ : type = value.baseType ∧ value.isCore = true := by
      simpa [Expr.every, Expr.isCore] using h
    exact Literal.agree_reread core
  | .member object property => by
    simp only [Expr.every, Bool.and_eq_true] at h
    simp [phrase, Phrase.value, Expr.agree, agree_value object h.2]
  | .binary left op right => by
    simp only [Expr.every, Bool.and_eq_true] at h
    simp [phrase, Phrase.value, Expr.agree, agree_value left h.1.2, agree_value right h.2]
  | .compare left op right => by
    simp only [Expr.every, Bool.and_eq_true] at h
    simp [phrase, Phrase.value, Expr.agree, agree_value left h.1.2, agree_value right h.2]
  | .list elements element homogeneous => by
    simp only [Expr.every, Expr.isCore, Bool.and_eq_true, decide_eq_true_eq] at h
    obtain ⟨⟨rfl, rfl⟩, others⟩ := h
    exact Expr.agree_listOf (agree_values elements others)
  | .tuple _ _ | .unknown _ => by simp [Expr.every, Expr.isCore] at h

theorem agree_values (es : List Expr) (h : Expr.everyAll (Expr.isCore lex) es = true) :
    Expr.agreeAll Literal.alike es (Phrase.values u (u.phrases es)) = true :=
  match es with
  | [] => rfl
  | e :: es => by
    simp only [Expr.everyAll, Bool.and_eq_true] at h
    simp [phrases, Phrase.values, Expr.agreeAll, agree_value e h.1, agree_values es h.2]

end

theorem agree_expr {value e' : Expr} (h : value.agree Literal.alike e' = true)
    (other : value.isCall = false) : (Stmt.expr value).agree Literal.alike (.ofExpr e') = true := by
  cases value <;> cases e' <;> first | exact h | cases h | cases other

/-- A call by itself is a statement of its own unless it prints one value. -/
theorem agree_call {callee e' : Expr} {args : List Expr}
    (h : (Expr.call callee args).agree Literal.alike e' = true)
    (other : ¬ ((Expr.call callee args).calleeName? = some "print" ∧ args.length = 1)) :
    (Stmt.call callee args).agree Literal.alike (.ofExpr e') = true := by
  cases e' with
  | call callee' args' =>
    have called : Stmt.ofExpr (.call callee' args') = .call callee' args' := by
      obtain ⟨callees, all⟩ := (Bool.and_eq_true _ _).mp h
      have lengths := Expr.length_of_agreeAll all
      cases callee' with
      | name n =>
        cases callee with
        | name n' =>
          obtain rfl : n' = n := by simpa [Expr.agree] using callees
          match args' with
          | [arg] => simpa [Stmt.ofExpr, Expr.calleeName?, lengths] using other
          | [] | _ :: _ :: _ => rfl
        | _ => cases callees
      | _ => rfl
    rw [called]
    exact h
  | _ => cases h

theorem agree_function {f : Signature} {inClass : Bool} {body body' : List Stmt}
    (params : ∀ n ∈ f.params, n.role = .param) (h : Stmt.agreeAll Literal.alike body body' = true) :
    (Stmt.function f.erase body).agree Literal.alike
      (.function { name := f.name
                   params := (u.ownParams inClass (u.paramNames inClass f)).map (⟨·, .param⟩) }
        body') = true := by
  have same : f.paramNames.map (fun id => (⟨id, .param⟩ : Name)) = f.params := by
    rw [Signature.paramNames, List.map_map]
    refine (List.map_congr_left fun n mem => ?_).trans (List.map_id f.params)
    simp [← params n mem]
  rw [u.ownParams_paramNames, same]
  simp [Stmt.agree, Signature.erase, h]

mutual

theorem agree_clause (inClass : Bool) (s : Stmt)
    (h : s.every (Expr.isCore lex) (Stmt.isCore lex) = true) (declared : List String) :
    ∃ t, Clause.meaning u (u.clause inClass s declared).1 = [t] ∧
      s.erase.agree Literal.alike t = true :=
  match s with
  | .expr value => by
    simp only [Stmt.every, Stmt.isCore, Bool.and_eq_true, Bool.not_eq_true'] at h
    exact ⟨_, rfl, agree_expr (u.agree_value value h.2) h.1⟩
  | .print value => by
    simp only [Stmt.every, Bool.and_eq_true] at h
    have printed : Clause.meaning u (u.clause inClass (.print value) declared).1 =
        [.print ((u.phrase value).value u)] := by
      cases u <;> rfl
    exact ⟨_, printed, u.agree_value value h.2⟩
  | .call callee args => by
    simp only [Stmt.every, Stmt.isCore, Bool.and_eq_true, Bool.not_eq_true', Bool.and_eq_false_iff,
      decide_eq_false_iff_not] at h
    obtain ⟨⟨⟨callable, other⟩, inner⟩, others⟩ := h
    have own : (Expr.call callee args).every (Expr.isCore lex) = true := by
      simp [Expr.every, Expr.isCore, callable, inner, others]
    exact ⟨_, rfl, agree_call (u.agree_value _ own) fun printing => by simp [printing] at other⟩
  | .ret none => ⟨_, rfl, rfl⟩
  | .ret (some value) => by
    simp only [Stmt.every, Bool.and_eq_true] at h
    exact ⟨_, rfl, u.agree_value value h.2⟩
  | .assign a => by
    obtain ⟨⟨id, role⟩, value, type⟩ := a
    simp only [Stmt.every, Stmt.isCore, Bool.and_eq_true, decide_eq_true_eq] at h
    obtain ⟨⟨rfl, _⟩, inner⟩ := h
    have kept : Assign.eraseValue value = value := by
      have own := Expr.every_self inner
      cases value <;> simp_all [Expr.isCore, Assign.eraseValue, Expr.listOf]
    refine ⟨_, rfl, ?_⟩
    simp [Stmt.erase, Assign.erase, kept, Stmt.agree, Assign.agree, Assign.store,
      u.agree_value value inner]
  | .function f body => by
    simp only [Stmt.every, Stmt.isCore, Bool.and_eq_true, List.all_eq_true, decide_eq_true_eq] at h
    have inner := agree_clauses false body h.2 (u.hoist body f.paramNames).2
    refine ⟨_, rfl, u.agree_function (fun n mem => (h.1.1.2 n mem).1) ?_⟩
    rw [meaningAll_block, meaningAll_declare]
    exact inner
  | .classDef name bases body => by
    simp only [Stmt.every, Bool.and_eq_true] at h
    have inner := agree_clauses true body h.2 []
    refine ⟨_, rfl, ?_⟩
    simp [Stmt.erase, Stmt.agree, u.agree_values bases h.1.2, inner]
  | .cond test body orelse => by
    simp only [Stmt.every, Bool.and_eq_true] at h
    have first := agree_clauses inClass body h.1.2 declared
    have second := agree_alternative inClass orelse h.2 (u.clauses inClass body declared).2
    refine ⟨_, rfl, ?_⟩
    simp [Stmt.erase, Stmt.agree, u.agree_value test h.1.1.2, first, second]
  | .unknown _ => by simp [Stmt.every, Stmt.isCore] at h

theorem agree_clauses (inClass : Bool) (ss : List Stmt)
    (h : Stmt.everyAll (Expr.isCore lex) (Stmt.isCore lex) ss = true) (declared : List String) :
    Stmt.agreeAll Literal.alike (Stmt.eraseAll ss)
      (Clause.meaningAll u (u.clauses inClass ss declared).1) = true :=
  match ss with
  | [] => rfl
  | s :: ss => by
    simp only [Stmt.everyAll, Bool.and_eq_true] at h
    obtain ⟨t, said, first⟩ := agree_clause inClass s h.1 declared
    have rest := agree_clauses inClass ss h.2 (u.clause inClass s declared).2
    simp [clauses, Clause.meaningAll, said, Stmt.eraseAll, Stmt.agreeAll, first, rest]

theorem agree_alternative (inClass : Bool) (ss : List Stmt)
    (h : Stmt.everyAll (Expr.isCore lex) (Stmt.isCore lex) ss = true) (declared : List String) :
    Stmt.agreeAll Literal.alike (Stmt.eraseAll ss)
      (Alternative.meaning u (u.alternative inClass ss declared).1) = true :=
  match ss with
  | [] => rfl
  | [s] => by
    simp only [Stmt.everyAll, Bool.and_true] at h
    obtain ⟨t, said, own⟩ := agree_clause inClass s h declared
    have alone : Alternative.meaning u (u.alternative inClass [s] declared).1 = [t] := by
      cases s with
      | cond test body orelse => exact said
      | _ => exact (List.append_nil _).trans said
    simp [alone, Stmt.eraseAll, Stmt.agreeAll, own]
  | s :: next :: rest => by
    simp only [Stmt.everyAll, Bool.and_eq_true] at h
    obtain ⟨t, said, first⟩ := agree_clause inClass s h.1 declared
    have others := agree_clauses inClass (next :: rest) (by simp [Stmt.everyAll, h.2])
      (u.clause inClass s declared).2
    rw [u.alternative_cons_cons]
    simp only [Alternative.meaning, clauses, Clause.meaningAll, said]
    simpa [Stmt.eraseAll, Stmt.agreeAll, first, clauses, Clause.meaningAll] using others

end

/-- The clauses of a core program say the program without its types. -/
theorem agree_program {p : Program} (h : p.isCore lex = true) :
    p.erase.agree Literal.alike ⟨Clause.meaningAll u (u.program p)⟩ = true := by
  have own := u.agree_clauses false p.body h (u.hoist p.body []).2
  simpa [Program.agree, Program.erase, program] using own

end Untyped

end

end Interlingua

import Interlingua.Proofs.Record.Restoring
import Interlingua.Proofs.Record.Scanning
import Interlingua.Proofs.Syntax.Shape

/-!
# The common core

The programs that keep their structure through every language: what is not modelled is left out, and
so is what two languages write alike but mean differently. Names are identifiers, constants and lists
have the types that readers give them, and printing is only what is called `print`.
-/

namespace Interlingua

/-- Whether a literal is read back as one that is alike. Texts with a long quote in them would be
taken for strings over several lines. -/
def Literal.isCore : Literal → Bool
  | .str s => ¬ ['"', '"', '"'] <:+: s.toList
  | .float _ => false
  | _ => true

namespace Expr

def isCall : Expr → Bool
  | .call _ _ => true
  | _ => false

def isName : Expr → Bool
  | .name _ => true
  | _ => false

/-- Whether an expression is the function that prints in scripts. -/
def isConsoleLog : Expr → Bool
  | .member (.name n) property => n.id = "console" && property = "log"
  | _ => false

/-- Whether an expression can be called. -/
def isCallable : Expr → Bool
  | .name _ | .call _ _ => true
  | .member object property => !(member object property).isConsoleLog
  | _ => false

/-- Whether an expression itself belongs to the core. -/
def isCore (lex : Lexicon) : Expr → Bool
  | .name n => n.role = .load && lex.known n.id
  | .const value type => type = value.baseType && value.isCore
  | .member object property => lex.known property && object.constType ≠ .number
  | .call callee _ => callee.isCallable
  | .binary _ _ _ | .compare _ _ _ => true
  | .list elements element homogeneous =>
    element = sharedType elements && homogeneous = (sharedType elements).isKnown
  | .tuple _ _ | .unknown _ => false

end Expr

namespace Stmt

/-- Whether a statement can stand in the body of a class. -/
def isMember : Stmt → Bool
  | .function _ _ | .assign _ => true
  | _ => false

/-- Whether a statement itself belongs to the core. -/
def isCore (lex : Lexicon) : Stmt → Bool
  | .print _ | .ret _ | .cond _ _ _ => true
  | .expr value => !value.isCall
  | .call callee args =>
    callee.isCallable && !((Expr.call callee args).calleeName? = some "print" && args.length = 1)
  | .assign a => a.target.role = .store && lex.known a.target.id
  | .function f _ =>
    lex.known f.name && f.params.all (fun n => n.role = .param && lex.known n.id) && f.declaresParams
  | .classDef name bases body =>
    lex.known name && bases.length ≤ 1 && bases.all Expr.isName && body.all isMember
  | .unknown _ => false

end Stmt

/-- Whether a program belongs to the core. -/
def Program.isCore (lex : Lexicon) (p : Program) : Bool :=
  p.every (Expr.isCore lex) (Stmt.isCore lex)

/-- Whether the facts about the parameters of a function can travel in a comment: there are some of
every parameter that is named, and none has the start of such a comment in it. -/
def Untyped.carriesFacts (u : Untyped) : Stmt → Bool
  | .function f _ => f.paramFacts.entries.all fun e =>
      !e.2.isEmpty && e.2.entries.all fun fact =>
        ¬ Record.opening u.mark <:+: fact.1.toList && ¬ Record.opening u.mark <:+: fact.2.toList
  | _ => true

section

variable {lex : Lexicon}

namespace Expr

theorem isWorded_of_isCore {e : Expr} (h : e.every (isCore lex) = true) : e.isWorded = true := by
  have own := every_self h
  cases e with
  | name n =>
    simp only [isCore, Bool.and_eq_true] at own
    exact lex.isWord_of_known n.id own.2
  | member object property =>
    simp only [isCore, Bool.and_eq_true] at own
    exact lex.isWord_of_known property own.1
  | unknown description => simp [isCore] at own
  | _ => rfl

theorem ownTyped_of_isCore {e : Expr} (h : e.every (isCore lex) = true) : e.ownTyped = true := by
  have own := every_self h
  cases e with
  | const value type =>
    simp only [isCore, Bool.and_eq_true] at own
    exact own.1
  | _ => rfl

end Expr

namespace Stmt

theorem isWorded_of_isCore {s : Stmt} (h : s.every (Expr.isCore lex) (isCore lex) = true) :
    s.isWorded = true := by
  have own := every_self h
  cases s with
  | assign a =>
    simp only [isCore, Bool.and_eq_true] at own
    exact lex.isWord_of_known a.target.id own.2
  | function f body =>
    simp only [isCore, Bool.and_eq_true, List.all_eq_true] at own
    obtain ⟨⟨name, params⟩, _⟩ := own
    have words : ∀ id ∈ f.paramNames, Text.isWord id = true := by
      intro id mem
      obtain ⟨n, param, rfl⟩ := List.mem_map.1 mem
      exact lex.isWord_of_known n.id (params n param).2
    simp [isWorded, lex.isWord_of_known f.name name, List.all_eq_true.2 words]
  | classDef name bases body =>
    simp only [isCore, Bool.and_eq_true] at own
    exact lex.isWord_of_known name own.1.1.1
  | unknown description => simp [isCore] at own
  | _ => rfl

/-- The types of core lists are those that follow from the elements. -/
theorem restorable_of_isCore {s : Stmt} (h : s.every (Expr.isCore lex) (isCore lex) = true) :
    s.restorable = true := by
  cases s with
  | function f body =>
    have own := every_self h
    simp only [isCore, Bool.and_eq_true] at own
    exact own.2
  | assign a =>
    obtain ⟨target, value, type⟩ := a
    simp only [every, Bool.and_eq_true] at h
    have own := Expr.every_self h.2
    cases value with
    | list elements element homogeneous =>
      simp only [Expr.isCore, Bool.and_eq_true, decide_eq_true_eq] at own
      simp [restorable, Assign.restorable, own]
    | tuple elements types => simp [Expr.isCore] at own
    | _ => rfl
  | _ => rfl

end Stmt

namespace Program

variable {p : Program} (h : p.isCore lex = true)

include h

theorem isWorded_of_isCore : p.every Expr.isWorded Stmt.isWorded = true :=
  Stmt.everyAll_mono (fun _ => Expr.isWorded_of_isCore) (fun _ => Stmt.isWorded_of_isCore) p.body h

theorem restorable_of_isCore : p.restorable = true :=
  Stmt.everyAll_mono (fun _ => Expr.ownTyped_of_isCore) (fun _ => Stmt.restorable_of_isCore) p.body h

end Program

namespace Untyped

open Text

variable (u : Untyped)

/-- The start of a comment occurs in no word. -/
theorem not_infix_word {id : String} (h : isWord id = true) : ¬ Record.opening u.mark <:+: id.toList := by
  have start : ∃ n rest, Record.opening u.mark = n :: rest ∧ isWordChar n = false := by
    cases u with
    | python => exact ⟨'#', " __META__:".toList, rfl, by decide⟩
    | javascript => exact ⟨'/', '/' :: " __META__:".toList, rfl, by decide⟩
  obtain ⟨n, rest, same, other⟩ := start
  rw [same]
  exact not_infix_of_notMem (notMem_of_isWord h other)

theorem carries_ofSignature {f : Signature} {body : List Stmt}
    (words : f.paramNames.all isWord = true) (declared : f.declaresParams = true)
    (facts : u.carriesFacts (.function f body) = true) : u.carries (Record.ofSignature f) = true := by
  simp only [carriesFacts, List.all_eq_true, Bool.and_eq_true] at facts
  obtain ⟨types, params⟩ := (Bool.and_eq_true _ _).mp declared
  have lacking : ∀ id, f.hasParam id = true → ¬ Record.opening u.mark <:+: id.toList := by
    intro id param
    obtain ⟨n, mem, same⟩ := List.any_eq_true.1 param
    obtain rfl : n.id = id := by simpa using same
    exact u.not_infix_word (List.all_eq_true.1 words n.id (List.mem_map_of_mem mem))
  simp only [carries, Record.isSpelled, Record.lacks, Record.ofSignature, Bool.and_eq_true,
    List.all_eq_true, Option.all_none, and_true]
  refine ⟨fun e mem => (facts e mem).1, fun e mem => ?_, fun e mem => ⟨?_, (facts e mem).2⟩⟩
  · exact decide_eq_true (lacking e.1 (List.all_eq_true.1 types e mem))
  · exact decide_eq_true (lacking e.1 (List.all_eq_true.1 params e mem))

theorem carries_ofAssign {a : Assign} (h : a.value.isCore lex = true) :
    u.carries (Record.ofAssign a) = true := by
  have spelled : ∀ t : BaseType, t.isKnown = true →
      DeclaredType.parse (DeclaredType.base t).spelling.toList = .base t := by
    intro t known
    cases t <;> first | rfl | cases known
  have noContainer : Record.containerType? a.value = none := by
    cases value : a.value <;> simp_all [Expr.isCore, Record.containerType?]
  have lacking : (Record.ofAssign a).lacks (Record.opening u.mark) = true := rfl
  rw [carries, lacking]
  by_cases known : a.type.isKnown
  · simp [Record.isSpelled, Record.ofAssign, known, spelled]
  · simp [Record.isSpelled, Record.ofAssign, known, noContainer]

/-- The records of a core program travel in comments if the facts about parameters do. -/
theorem carries_of_isCore {p : Program} (h : p.isCore lex = true)
    (facts : ∀ s ∈ p.consumers, u.carriesFacts s = true) :
    ∀ s ∈ p.consumers, u.carries s.record = true := by
  intro s mem
  have core := Stmt.consumersAll_forall p.body h s mem
  cases s with
  | function f body =>
    have words := Stmt.isWorded_of_isCore core
    have declared := Stmt.restorable_of_isCore core
    exact u.carries_ofSignature ((Bool.and_eq_true _ _).mp words).2 declared (facts _ mem)
  | assign a =>
    simp only [Stmt.every, Bool.and_eq_true] at core
    exact u.carries_ofAssign (Expr.every_self core.2)
  | _ => simp [Stmt.record, carries, Record.isSpelled, Record.lacks]

end Untyped

end

end Interlingua

import Interlingua.Language
import Interlingua.Proofs.Program.Blocks
import Interlingua.Proofs.Writing.Outline

/-!
# Declarations are sound

In a body whose variables are local to blocks, every variable that is assigned is declared once, or
not at all if it is a parameter. The declaration is written before all assignments to the variable,
and in a block that holds every mention of it. The writer keeps track of the declared variables of a
whole body, so that a variable that is declared in one branch and mentioned in another would not be
in scope there. Such variables escape, and are declared ahead.
-/

namespace Interlingua

/-- An assignment in a block of a body, with its mark. -/
structure Placed where
  path : BlockPath
  mark : Mark
  assign : Assign

namespace Placed

def id (q : Placed) : String :=
  q.assign.target.id

def under (step : BranchStep) (q : Placed) : Placed :=
  { q with path := step :: q.path }

end Placed

namespace Marked

mutual

/-- The assignments in the statement at a position of a block, in the order in which they are
written. -/
def placed (k : Nat) : Marked → List Placed
  | assign mark a => [⟨[], mark, a⟩]
  | cond _ body orelse =>
    (placedAll 0 body).map (.under ⟨k, false⟩) ++ (placedAll 0 orelse).map (.under ⟨k, true⟩)
  | _ => []

def placedAll (k : Nat) : List Marked → List Placed
  | [] => []
  | s :: ss => placed k s ++ placedAll (k + 1) ss

end

mutual

/-- The bodies of the functions in a statement. -/
def bodies : Marked → List MarkedBody
  | function f ahead body => ⟨f.paramNames, ahead, body⟩ :: bodiesAll body
  | classDef _ _ body => bodiesAll body
  | cond _ body orelse => bodiesAll body ++ bodiesAll orelse
  | _ => []

def bodiesAll : List Marked → List MarkedBody
  | [] => []
  | s :: ss => bodies s ++ bodiesAll ss

end

end Marked

namespace MarkedBody

/-- The body and those of the functions in it, at any depth. -/
def bodies (b : MarkedBody) : List MarkedBody :=
  b :: Marked.bodiesAll b.stmts

def assigns (b : MarkedBody) : List Placed :=
  Marked.placedAll 0 b.stmts

def mentions (b : MarkedBody) : List Mention :=
  bodyMentions (Marked.eraseAll b.stmts)

/-- How often a variable is declared: ahead of the body, and by assignments in its blocks. -/
def declarations (b : MarkedBody) (id : String) : Nat :=
  b.ahead.countP (fun a => a.target.id = id)
    + b.assigns.countP fun q => q.mark = .declares ∧ q.id = id

/-- A variable comes into scope in a block of a body, after some of the assignments are written. -/
inductive Introduces (b : MarkedBody) (id : String) : BlockPath → List Placed → Prop
  | param : id ∈ b.params → Introduces b id [] []
  | ahead {a : Assign} : a ∈ b.ahead → a.target.id = id → Introduces b id [] []
  | assign {before after : List Placed} {q : Placed} : b.assigns = before ++ q :: after →
      q.mark = .declares → q.id = id → Introduces b id q.path before

/-- A variable is declared at most once, before it is assigned and around all its mentions. -/
structure Declares (b : MarkedBody) (id : String) : Prop where
  le_one : b.declarations id ≤ 1
  param : id ∈ b.params → b.declarations id = 0
  introduced : ∃ block before, b.Introduces id block before ∧ (∀ q ∈ before, q.id ≠ id) ∧
    (∀ q ∈ b.assigns, q.id = id → block <+: q.path) ∧
    ∀ m ∈ b.mentions, m.id = id → block <+: m.block

/-- All variables that are assigned in the blocks of a body are declared as they should be. -/
def Sound (b : MarkedBody) : Prop :=
  ∀ q ∈ b.assigns, b.Declares q.id

end MarkedBody

/-- The assignments of a body with their marks, after variables are declared. -/
def Own.marked : List String → List Own → List Placed
  | _, [] => []
  | declared, o :: os =>
    ⟨o.path, (o.assign.mark false declared).1, o.assign⟩
      :: marked (o.assign.mark false declared).2 os

/-- The variables that are declared after the assignments of a body. -/
def Own.declaredAfter (declared : List String) (os : List Own) : List String :=
  os.foldl (fun declared o => (o.assign.mark false declared).2) declared

namespace Own

theorem marked_append (declared : List String) (os us : List Own) :
    marked declared (os ++ us) = marked declared os ++ marked (declaredAfter declared os) us := by
  induction os generalizing declared with
  | nil => rfl
  | cons o os ih =>
    rw [List.cons_append, marked, marked, ih, List.cons_append]
    rfl

theorem declaredAfter_append (declared : List String) (os us : List Own) :
    declaredAfter declared (os ++ us) = declaredAfter (declaredAfter declared os) us :=
  List.foldl_append

theorem marked_under (step : BranchStep) (declared : List String) (os : List Own) :
    marked declared (os.map (.under step)) = (marked declared os).map (.under step) := by
  induction os generalizing declared with
  | nil => rfl
  | cons o os ih =>
    rw [List.map_cons, marked, marked, List.map_cons, ← ih]
    rfl

theorem declaredAfter_under (step : BranchStep) (declared : List String) (os : List Own) :
    declaredAfter declared (os.map (.under step)) = declaredAfter declared os :=
  List.foldl_map

theorem mem_marked {declared : List String} {os : List Own} {q : Placed}
    (mem : q ∈ marked declared os) : ∃ o ∈ os, o.path = q.path ∧ o.id = q.id := by
  induction os generalizing declared with
  | nil => cases mem
  | cons o os ih =>
    rcases List.mem_cons.1 mem with rfl | later
    · exact ⟨o, List.mem_cons_self, rfl, rfl⟩
    · obtain ⟨u, inner, same⟩ := ih later
      exact ⟨u, List.mem_cons_of_mem _ inner, same⟩

/-- A variable that is declared is not declared again. -/
theorem countP_marked_of_mem {declared : List String} {id : String} (known : id ∈ declared)
    (os : List Own) :
    (marked declared os).countP (fun q => q.mark = .declares ∧ q.id = id) = 0 := by
  induction os generalizing declared with
  | nil => rfl
  | cons o os ih =>
    rw [marked]
    by_cases same : o.id ∈ declared
    · rw [Assign.mark_of_mem same, List.countP_cons_of_neg (by simp)]
      exact ih known
    · have other : o.id ≠ id := by
        rintro rfl
        exact same known
      rw [Assign.mark_of_notMem same, List.countP_cons_of_neg]
      · exact ih (List.mem_cons_of_mem _ known)
      · intro declares
        exact other (of_decide_eq_true declares).2

/-- The first assignment to a variable that is not declared declares it. -/
theorem exists_first {declared : List String} {id : String} (new : id ∉ declared) {os : List Own}
    (assigned : ∃ o ∈ os, o.id = id) :
    ∃ before o after, os = before ++ o :: after ∧ o.id = id ∧ (∀ u ∈ before, u.id ≠ id) ∧
      marked declared os = marked declared before ++ ⟨o.path, .declares, o.assign⟩
        :: marked (id :: declaredAfter declared before) after := by
  induction os generalizing declared with
  | nil =>
    obtain ⟨o, none, _⟩ := assigned
    cases none
  | cons o os ih =>
    by_cases first : o.id = id
    · subst first
      refine ⟨[], o, os, rfl, rfl, by simp, ?_⟩
      rw [marked.eq_2, Assign.mark_of_notMem new]
      rfl
    · have later : ∃ u ∈ os, u.id = id := by
        obtain ⟨u, mem, same⟩ := assigned
        rcases List.mem_cons.1 mem with rfl | mem
        · exact absurd same first
        · exact ⟨u, mem, same⟩
      have still : id ∉ (o.assign.mark false declared).2 := by
        by_cases known : o.id ∈ declared
        · rw [Assign.mark_of_mem known]
          exact new
        · rw [Assign.mark_of_notMem known]
          exact List.not_mem_cons_of_ne_of_not_mem (Ne.symm first) new
      obtain ⟨before, u, after, split, same, none, marks⟩ := ih still later
      refine ⟨o :: before, u, after, by rw [split]; rfl, same, ?_, ?_⟩
      · exact List.forall_mem_cons.2 ⟨first, none⟩
      · rw [marked, marks]
        rfl

theorem countP_marked_le_one (declared : List String) (id : String) (os : List Own) :
    (marked declared os).countP (fun q => q.mark = .declares ∧ q.id = id) ≤ 1 := by
  by_cases known : id ∈ declared
  · rw [countP_marked_of_mem known]
    exact Nat.zero_le 1
  by_cases assigned : ∃ o ∈ os, o.id = id
  · obtain ⟨before, o, after, _, _, first, marks⟩ := exists_first known assigned
    have none : (marked declared before).countP (fun q => q.mark = .declares ∧ q.id = id) = 0 := by
      rw [List.countP_eq_zero]
      intro q mem declares
      obtain ⟨u, inner, _, same⟩ := mem_marked mem
      exact first u inner (same.trans (of_decide_eq_true declares).2)
    rw [marks, List.countP_append, none, List.countP_cons,
      countP_marked_of_mem List.mem_cons_self]
    split <;> omega
  · have none : (marked declared os).countP (fun q => q.mark = .declares ∧ q.id = id) = 0 := by
      rw [List.countP_eq_zero]
      intro q mem declares
      obtain ⟨u, inner, _, same⟩ := mem_marked mem
      exact assigned ⟨u, inner, same.trans (of_decide_eq_true declares).2⟩
    omega

end Own

namespace Stmt

mutual

/-- The marks of an outline are those of the assignments, one after the other. -/
theorem placed_outline (block : List Stmt) (k : Nat) (s : Stmt) (declared : List String) :
    (s.outline false declared).1.placed k = Own.marked declared (s.own block k) ∧
      (s.outline false declared).2 = Own.declaredAfter declared (s.own block k) :=
  match s with
  | assign a => ⟨rfl, rfl⟩
  | cond test body orelse => by
    obtain ⟨first, between⟩ := placedAll_outlineAll body 0 body declared
    obtain ⟨second, after⟩ := placedAll_outlineAll orelse 0 orelse
      (Own.declaredAfter declared (ownAll body 0 body))
    simp only [outline, Marked.placed, own, Own.marked_append, Own.declaredAfter_append,
      Own.marked_under, Own.declaredAfter_under, between, first, second, after, and_self]
  | expr _ | print _ | ret _ | call _ _ | function _ _ | classDef _ _ _ | unknown _ => ⟨rfl, rfl⟩

theorem placedAll_outlineAll (block : List Stmt) (k : Nat) (ss : List Stmt)
    (declared : List String) :
    Marked.placedAll k (outlineAll false ss declared).1 = Own.marked declared (ownAll block k ss) ∧
      (outlineAll false ss declared).2 = Own.declaredAfter declared (ownAll block k ss) :=
  match ss with
  | [] => ⟨rfl, rfl⟩
  | s :: ss => by
    obtain ⟨first, between⟩ := placed_outline block k s declared
    obtain ⟨second, after⟩ := placedAll_outlineAll block (k + 1) ss
      (Own.declaredAfter declared (s.own block k))
    simp only [outlineAll, Marked.placedAll, ownAll, Own.marked_append, Own.declaredAfter_append,
      between, first, second, after, and_self]

end

end Stmt

namespace Assign

/-- Variables that are declared stay so. -/
theorem mem_hoist_of_mem {declared : List String} {id : String} (known : id ∈ declared)
    (as : List Assign) : id ∈ (hoist as declared).2 := by
  induction as generalizing declared with
  | nil => exact known
  | cons a as ih =>
    rw [hoist]
    split
    · exact ih known
    · exact ih (List.mem_cons_of_mem _ known)

/-- Every variable that is to be declared ahead is declared then. -/
theorem mem_hoist {as : List Assign} {a : Assign} (mem : a ∈ as) (declared : List String) :
    a.target.id ∈ (hoist as declared).2 := by
  induction as generalizing declared with
  | nil => cases mem
  | cons b as ih =>
    rw [hoist]
    rcases List.mem_cons.1 mem with rfl | later
    · split
      · rename_i known
        exact mem_hoist_of_mem known as
      · exact mem_hoist_of_mem List.mem_cons_self as
    · split
      · exact ih later declared
      · exact ih later _

theorem mem_or_ahead {as : List Assign} {declared : List String} {id : String}
    (known : id ∈ (hoist as declared).2) :
    id ∈ declared ∨ ∃ a ∈ (hoist as declared).1, a.target.id = id := by
  induction as generalizing declared with
  | nil => exact .inl known
  | cons a as ih =>
    rw [hoist] at known ⊢
    split at known
    · rename_i same
      rw [if_pos same]
      exact ih known
    · rename_i new
      rw [if_neg new]
      rcases ih known with before | ⟨b, mem, same⟩
      · rcases List.mem_cons.1 before with rfl | before
        · exact .inr ⟨a, List.mem_cons_self, rfl⟩
        · exact .inl before
      · exact .inr ⟨b, List.mem_cons_of_mem _ mem, same⟩

theorem countP_hoist_of_mem {declared : List String} {id : String} (known : id ∈ declared)
    (as : List Assign) : (hoist as declared).1.countP (fun a => a.target.id = id) = 0 := by
  induction as generalizing declared with
  | nil => rfl
  | cons a as ih =>
    rw [hoist]
    split
    · exact ih known
    · rename_i new
      have other : a.target.id ≠ id := by
        rintro rfl
        exact new known
      simp [ih (List.mem_cons_of_mem _ known), other]

theorem countP_hoist_le_one (declared : List String) (id : String) (as : List Assign) :
    (hoist as declared).1.countP (fun a => a.target.id = id) ≤ 1 := by
  induction as generalizing declared with
  | nil => exact Nat.zero_le 1
  | cons a as ih =>
    rw [hoist]
    split
    · exact ih declared
    · by_cases same : a.target.id = id
      · have own : id ∈ a.target.id :: declared := by
          rw [same]
          exact List.mem_cons_self
        rw [List.countP_cons, countP_hoist_of_mem own]
        split <;> omega
      · rw [List.countP_cons_of_neg (by simpa using same)]
        exact ih (a.target.id :: declared)

theorem mem_of_ahead {as : List Assign} {declared : List String} {a : Assign}
    (mem : a ∈ (hoist as declared).1) : a ∈ as := by
  induction as generalizing declared with
  | nil => exact mem
  | cons b as ih =>
    rw [hoist] at mem
    split at mem
    · exact List.mem_cons_of_mem _ (ih mem)
    · rcases List.mem_cons.1 mem with rfl | later
      · exact List.mem_cons_self
      · exact List.mem_cons_of_mem _ (ih later)

end Assign

section

variable (params : List String) (body : List Stmt)

theorem assigns_outlineBody : (outlineBody params body).assigns =
    Own.marked (Assign.hoist (escaping body) params).2 (ownAssigns body) :=
  (Stmt.placedAll_outlineAll body 0 body _).1

theorem mentions_outlineBody : (outlineBody params body).mentions = bodyMentions body :=
  congrArg bodyMentions (Stmt.eraseAll_outlineAll false body _)

variable {params body} {id : String}

/-- A variable that is declared before the first statement is in scope in the whole body. -/
theorem declares_of_mem (known : id ∈ (Assign.hoist (escaping body) params).2) :
    (outlineBody params body).Declares id := by
  have inside : (outlineBody params body).assigns.countP
      (fun q => q.mark = .declares ∧ q.id = id) = 0 := by
    rw [assigns_outlineBody]
    exact Own.countP_marked_of_mem known _
  have counted : (outlineBody params body).declarations id =
      (Assign.hoist (escaping body) params).1.countP (fun a => a.target.id = id) := by
    rw [MarkedBody.declarations, inside]
    rfl
  have introduced : (outlineBody params body).Introduces id [] [] := by
    rcases Assign.mem_or_ahead known with param | ⟨a, mem, same⟩
    · exact .param param
    · exact .ahead mem same
  constructor
  · rw [counted]
    exact Assign.countP_hoist_le_one params id (escaping body)
  · intro param
    rw [counted]
    exact Assign.countP_hoist_of_mem param (escaping body)
  · exact ⟨[], [], introduced, by simp, fun _ _ _ => List.nil_prefix, fun _ _ _ => List.nil_prefix⟩

/-- A variable that is not declared before the first statement is declared by its first assignment,
and does not escape the block of that. -/
theorem declares_of_notMem (new : id ∉ (Assign.hoist (escaping body) params).2)
    (assigned : ∃ o ∈ ownAssigns body, o.id = id) : (outlineBody params body).Declares id := by
  have ahead : (outlineBody params body).ahead.countP (fun a => a.target.id = id) = 0 := by
    rw [List.countP_eq_zero]
    intro a mem same
    rw [← of_decide_eq_true same] at new
    exact new (Assign.mem_hoist (Assign.mem_of_ahead mem) params)
  have stays : ∀ a ∈ escaping body, a.target.id ≠ id := by
    rintro a mem rfl
    exact new (Assign.mem_hoist mem params)
  obtain ⟨before, o, after, own, same, first, marks⟩ := Own.exists_first new assigned
  have around : ∀ m ∈ bodyMentions body, m.id = id → o.path <+: m.block := by
    subst same
    exact fun m mem same => path_isPrefix_of_first own first stays mem same
  constructor
  · rw [MarkedBody.declarations, ahead, Nat.zero_add, assigns_outlineBody]
    exact Own.countP_marked_le_one _ id _
  · intro param
    exact absurd (Assign.mem_hoist_of_mem param (escaping body)) new
  · refine ⟨o.path, _, .assign ((assigns_outlineBody params body).trans marks) rfl same, ?_, ?_, ?_⟩
    · intro q mem
      obtain ⟨u, inner, _, named⟩ := Own.mem_marked mem
      exact named ▸ first u inner
    · intro q mem named
      rw [assigns_outlineBody] at mem
      obtain ⟨u, inner, place, name⟩ := Own.mem_marked mem
      rw [← place]
      exact around _ (Stmt.mention_of_ownAll body 0 body inner) (name.trans named)
    · rw [mentions_outlineBody]
      exact around

theorem sound_outlineBody : (outlineBody params body).Sound := by
  intro q mem
  by_cases known : q.id ∈ (Assign.hoist (escaping body) params).2
  · exact declares_of_mem known
  · rw [assigns_outlineBody] at mem
    obtain ⟨o, own, _, same⟩ := Own.mem_marked mem
    exact declares_of_notMem known ⟨o, own, same⟩

end

namespace Stmt

mutual

/-- Every function in an outline has an outlined body. -/
theorem bodies_outline (inClass : Bool) (s : Stmt) (declared : List String) :
    ∀ b ∈ (s.outline inClass declared).1.bodies, ∃ params body, b = outlineBody params body :=
  match s with
  | function f body => by
    intro b mem
    rcases List.mem_cons.1 mem with rfl | inner
    · exact ⟨f.paramNames, body, rfl⟩
    · exact bodiesAll_outlineAll false body _ b inner
  | classDef _ _ body => bodiesAll_outlineAll true body []
  | cond _ body orelse => by
    intro b mem
    rcases List.mem_append.1 mem with first | second
    · exact bodiesAll_outlineAll inClass body declared b first
    · exact bodiesAll_outlineAll inClass orelse _ b second
  | assign _ | expr _ | print _ | ret _ | call _ _ | unknown _ => by
    intro b mem
    cases mem

theorem bodiesAll_outlineAll (inClass : Bool) (ss : List Stmt) (declared : List String) :
    ∀ b ∈ Marked.bodiesAll (outlineAll inClass ss declared).1,
      ∃ params body, b = outlineBody params body :=
  match ss with
  | [] => by
    intro b mem
    cases mem
  | s :: ss => by
    intro b mem
    rcases List.mem_append.1 mem with first | second
    · exact bodies_outline inClass s declared b first
    · exact bodiesAll_outlineAll inClass ss _ b second

end

end Stmt

/-- The languages in which a variable belongs to the block of its declaration. -/
def Language.blockScoped : List Language :=
  [.javascript, .typescript]

theorem Language.isBlockScoped {l : Language} (h : l ∈ blockScoped) : l.dialect.BlockScoped := by
  simp only [blockScoped, List.mem_cons, List.not_mem_nil, or_false] at h
  rcases h with rfl | rfl
  · exact Dialect.blockScoped_javascript
  · exact Dialect.blockScoped_typescript

/-- The text of a program is the program with marks that say what it declares and where. In the body
of the program and of every function in it, they declare each variable that is assigned at most
once, before it is assigned and in a block around everything that mentions it. -/
theorem Language.sound_declarations {l : Language} (h : l ∈ blockScoped) (mode : RecordMode)
    (p : Program) :
    l.dialect.render mode p = p.outline.text l.dialect mode ∧
      Marked.eraseAll p.outline.stmts = p.body ∧ ∀ b ∈ p.outline.bodies, b.Sound := by
  refine ⟨(isBlockScoped h).render_eq mode p, Stmt.eraseAll_outlineAll false p.body _, ?_⟩
  intro b mem
  rcases List.mem_cons.1 mem with rfl | inner
  · exact sound_outlineBody
  · obtain ⟨params, body, rfl⟩ := Stmt.bodiesAll_outlineAll false p.body _ b inner
    exact sound_outlineBody

/-- A program whose function assigns its parameter in a branch, a variable in both branches that a
nested function reads, and one that stays in its branch. -/
def branching : Program :=
  ⟨[.function ⟨"f", [⟨"a", .param⟩], .unknown, {}, {}⟩
    [.cond (.load "a")
      [.assign (.store "a" (.lit (.int 1))), .assign (.store "x" (.load "a"))]
      [.assign (.store "y" (.lit (.int 2))), .cond (.load "y") [.assign (.store "x" (.load "y"))] []],
    .function ⟨"g", [], .unknown, {}, {}⟩ [.ret (some (.load "x"))]],
  .cond (.lit (.bool true)) [.assign (.store "z" (.lit (.int 3))), .print (.load "z")] []]⟩

/-- What is declared ahead of a body, and what its assignments do to their variables. -/
def MarkedBody.decisions (b : MarkedBody) : List String × List (String × Mark) :=
  (b.ahead.map (·.target.id), b.assigns.map fun q => (q.id, q.mark))

theorem Language.sound_declarations_branching :
    .typescript ∈ blockScoped ∧
      branching.outline.bodies.map MarkedBody.decisions =
        [([], [("z", .declares)]),
          (["x"], [("a", .updates), ("x", .updates), ("y", .declares), ("x", .updates)]),
          ([], [])] ∧
      Language.typescript.dialect.render .inline branching =
        branching.outline.text Language.typescript.dialect .inline ∧
      Marked.eraseAll branching.outline.stmts = branching.body ∧
      ∀ b ∈ branching.outline.bodies, b.Sound :=
  ⟨by decide, by decide, sound_declarations (by decide) .inline branching⟩

end Interlingua

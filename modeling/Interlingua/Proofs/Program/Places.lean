import Interlingua.Proofs.Program.Everywhere

/-!
# Places in a program

A place is a program with a hole in it, for a statement or for an expression. What is around the hole is
given frame by frame, the outermost first: the blocks around a statement, then the slot of the
statement that an expression stands in, then the expressions around it. What holds everywhere in a
program holds of what it has at a place, and what fails somewhere fails at a place.
-/

namespace Interlingua

namespace Expr

/-- An expression with a hole for a part of it. -/
inductive Frame where
  | callee (args : List Expr)
  | argument (callee : Expr) (before after : List Expr)
  | object (property : String)
  | left (op : BinaryOp) (right : Expr)
  | right (left : Expr) (op : BinaryOp)
  | compareLeft (op : CompareOp) (right : Expr)
  | compareRight (left : Expr) (op : CompareOp)
  | element (before after : List Expr) (type : BaseType) (homogeneous : Bool)
  | component (before after : List Expr) (types : List BaseType)

def Frame.plug : Frame → Expr → Expr
  | callee args, e => call e args
  | argument called before after, e => call called (before ++ e :: after)
  | object property, e => member e property
  | left op other, e => binary e op other
  | right other op, e => binary other op e
  | compareLeft op other, e => compare e op other
  | compareRight other op, e => compare other op e
  | element before after type homogeneous, e => list (before ++ e :: after) type homogeneous
  | component before after types, e => tuple (before ++ e :: after) types

/-- An expression in frames. -/
def plugAll (frames : List Frame) (e : Expr) : Expr :=
  frames.foldr Frame.plug e

end Expr

namespace Stmt

/-- A statement with a hole for one of its own expressions. -/
inductive Slot where
  | value
  | printed
  | assigned (target : Name) (type : BaseType)
  | callee (args : List Expr)
  | argument (callee : Expr) (before after : List Expr)
  | returned
  | test (body orelse : List Stmt)
  | base (name : String) (before after : List Expr) (body : List Stmt)

namespace Slot

def fill : Slot → Expr → Stmt
  | value, e => expr e
  | printed, e => print e
  | assigned target type, e => assign { target, value := e, type }
  | callee args, e => call e args
  | argument called before after, e => call called (before ++ e :: after)
  | returned, e => ret (some e)
  | test body orelse, e => cond e body orelse
  | base name before after body, e => classDef name (before ++ e :: after) body

def isBase : Slot → Bool
  | base _ _ _ _ => true
  | _ => false

end Slot

/-- A statement with a hole for a statement in one of its blocks. -/
inductive Frame where
  | function (signature : Signature) (before after : List Stmt)
  | classDef (name : String) (bases : List Expr) (before after : List Stmt)
  | body (test : Expr) (before after orelse : List Stmt)
  | orelse (test : Expr) (body before after : List Stmt)

def Frame.plug : Frame → Stmt → Stmt
  | function f before after, s => .function f (before ++ s :: after)
  | classDef name bases before after, s => .classDef name bases (before ++ s :: after)
  | body test before after others, s => cond test (before ++ s :: after) others
  | orelse test first before after, s => cond test first (before ++ s :: after)

/-- A statement in frames. -/
def plugAll (frames : List Frame) (s : Stmt) : Stmt :=
  frames.foldr Frame.plug s

/-- A program with a hole for a statement. -/
structure Place where
  before : List Stmt
  frames : List Frame
  after : List Stmt

def Place.fill (place : Place) (s : Stmt) : Program :=
  ⟨place.before ++ plugAll place.frames s :: place.after⟩

end Stmt

/-- A program with a hole for an expression. -/
structure Expr.Place extends Stmt.Place where
  slot : Stmt.Slot
  inner : List Expr.Frame

def Expr.Place.fill (place : Expr.Place) (e : Expr) : Program :=
  place.toPlace.fill (place.slot.fill (Expr.plugAll place.inner e))

/-! What holds everywhere holds at every place. -/

section

variable {q : Expr → Bool} {p : Stmt → Bool}

theorem Expr.everyAll_append (es fs : List Expr) :
    everyAll q (es ++ fs) = (everyAll q es && everyAll q fs) := by
  induction es with
  | nil => rfl
  | cons e es ih => simp [everyAll, ih, Bool.and_assoc]

theorem Stmt.everyAll_append (ss ts : List Stmt) :
    everyAll q p (ss ++ ts) = (everyAll q p ss && everyAll q p ts) := by
  induction ss with
  | nil => rfl
  | cons s ss ih => simp [everyAll, ih, Bool.and_assoc]

theorem Stmt.every_of_fill {slot : Slot} {e : Expr} (h : (slot.fill e).every q p = true) :
    e.every q = true := by
  cases slot <;> simp_all [Slot.fill, every, Expr.everyAll, Expr.everyAll_append]

theorem Stmt.every_of_plug {frame : Frame} {s : Stmt} (h : (frame.plug s).every q p = true) :
    s.every q p = true := by
  cases frame <;> simp_all [Frame.plug, every, everyAll, everyAll_append]

theorem Stmt.every_of_plugAll {frames : List Frame} {s : Stmt}
    (h : (plugAll frames s).every q p = true) : s.every q p = true := by
  induction frames with
  | nil => exact h
  | cons frame frames ih => exact ih (every_of_plug h)

theorem Stmt.Place.every_of_fill {place : Place} {s : Stmt} (h : (place.fill s).every q p = true) :
    s.every q p = true := by
  have own := (everyAll_iff q p _).1 h (plugAll place.frames s) (by simp [fill])
  exact every_of_plugAll own

end

/-! What fails somewhere fails at a place. -/

section

variable {q : Expr → Bool} {p : Stmt → Bool}

mutual

theorem Expr.exists_plugAll (e : Expr) (h : e.every q = false) :
    ∃ frames part, e = plugAll frames part ∧ q part = false := by
  by_cases own : q e = true
  · match e with
    | .call callee args =>
      simp only [every, own, Bool.true_and, Bool.and_eq_false_iff] at h
      rcases h with h | h
      · obtain ⟨frames, part, rfl, fails⟩ := Expr.exists_plugAll callee h
        exact ⟨.callee args :: frames, part, rfl, fails⟩
      · obtain ⟨before, frames, part, after, rfl, fails⟩ := Expr.exists_plugAll_of_list args h
        exact ⟨.argument callee before after :: frames, part, rfl, fails⟩
    | .member object property =>
      simp only [every, own, Bool.true_and] at h
      obtain ⟨frames, part, rfl, fails⟩ := Expr.exists_plugAll object h
      exact ⟨.object property :: frames, part, rfl, fails⟩
    | .binary left op right =>
      simp only [every, own, Bool.true_and, Bool.and_eq_false_iff] at h
      rcases h with h | h
      · obtain ⟨frames, part, rfl, fails⟩ := Expr.exists_plugAll left h
        exact ⟨.left op right :: frames, part, rfl, fails⟩
      · obtain ⟨frames, part, rfl, fails⟩ := Expr.exists_plugAll right h
        exact ⟨.right left op :: frames, part, rfl, fails⟩
    | .compare left op right =>
      simp only [every, own, Bool.true_and, Bool.and_eq_false_iff] at h
      rcases h with h | h
      · obtain ⟨frames, part, rfl, fails⟩ := Expr.exists_plugAll left h
        exact ⟨.compareLeft op right :: frames, part, rfl, fails⟩
      · obtain ⟨frames, part, rfl, fails⟩ := Expr.exists_plugAll right h
        exact ⟨.compareRight left op :: frames, part, rfl, fails⟩
    | .list elements type homogeneous =>
      simp only [every, own, Bool.true_and] at h
      obtain ⟨before, frames, part, after, rfl, fails⟩ := Expr.exists_plugAll_of_list elements h
      exact ⟨.element before after type homogeneous :: frames, part, rfl, fails⟩
    | .tuple elements types =>
      simp only [every, own, Bool.true_and] at h
      obtain ⟨before, frames, part, after, rfl, fails⟩ := Expr.exists_plugAll_of_list elements h
      exact ⟨.component before after types :: frames, part, rfl, fails⟩
    | .name _ | .const _ _ | .unknown _ =>
      simp only [every, own, Bool.true_eq_false] at h
  · exact ⟨[], e, rfl, Bool.eq_false_iff.2 own⟩

theorem Expr.exists_plugAll_of_list (es : List Expr) (h : everyAll q es = false) :
    ∃ before frames part after, es = before ++ plugAll frames part :: after ∧ q part = false :=
  match es with
  | [] => nomatch h
  | e :: es => by
    simp only [everyAll, Bool.and_eq_false_iff] at h
    rcases h with h | h
    · obtain ⟨frames, part, rfl, fails⟩ := Expr.exists_plugAll e h
      exact ⟨[], frames, part, es, rfl, fails⟩
    · obtain ⟨before, frames, part, after, rfl, fails⟩ := Expr.exists_plugAll_of_list es h
      exact ⟨e :: before, frames, part, after, rfl, fails⟩

end

/-- A statement has a part that fails: a statement in blocks, or an expression in a slot of one. -/
def Stmt.Fails (q : Expr → Bool) (p : Stmt → Bool) (s : Stmt) : Prop :=
  ∃ frames, (∃ part, s = plugAll frames part ∧ p part = false) ∨
    ∃ slot inner part, s = plugAll frames (Slot.fill slot (Expr.plugAll inner part)) ∧ q part = false

namespace Stmt

theorem Fails.of_slot (slot : Slot) {e : Expr} (h : e.every q = false) : Fails q p (slot.fill e) := by
  obtain ⟨inner, part, rfl, fails⟩ := e.exists_plugAll h
  exact ⟨[], .inr ⟨slot, inner, part, rfl, fails⟩⟩

theorem Fails.plug {s : Stmt} (h : Fails q p s) (frame : Frame) : Fails q p (frame.plug s) := by
  obtain ⟨frames, ⟨part, rfl, fails⟩ | ⟨slot, inner, part, rfl, fails⟩⟩ := h
  · exact ⟨frame :: frames, .inl ⟨part, rfl, fails⟩⟩
  · exact ⟨frame :: frames, .inr ⟨slot, inner, part, rfl, fails⟩⟩

mutual

theorem fails_of_every (s : Stmt) (h : s.every q p = false) : Fails q p s := by
  by_cases own : p s = true
  · match s with
    | .expr e =>
      simp only [every, own, Bool.true_and] at h
      exact .of_slot .value h
    | .print e =>
      simp only [every, own, Bool.true_and] at h
      exact .of_slot .printed h
    | .assign ⟨target, e, type⟩ =>
      simp only [every, own, Bool.true_and] at h
      exact .of_slot (.assigned target type) h
    | .ret (some e) =>
      simp only [every, own, Bool.true_and] at h
      exact .of_slot .returned h
    | .ret none | .unknown _ => simp only [every, own, Bool.true_eq_false] at h
    | .call callee args =>
      simp only [every, own, Bool.true_and, Bool.and_eq_false_iff] at h
      rcases h with h | h
      · exact .of_slot (.callee args) h
      · obtain ⟨before, frames, part, after, rfl, fails⟩ := Expr.exists_plugAll_of_list args h
        exact ⟨[], .inr ⟨.argument callee before after, frames, part, rfl, fails⟩⟩
    | .function f body =>
      simp only [every, own, Bool.true_and] at h
      obtain ⟨before, s, after, rfl, fails⟩ := fails_of_everyAll body h
      exact fails.plug (.function f before after)
    | .classDef name bases body =>
      simp only [every, own, Bool.true_and, Bool.and_eq_false_iff] at h
      rcases h with h | h
      · obtain ⟨before, frames, part, after, rfl, fails⟩ := Expr.exists_plugAll_of_list bases h
        exact ⟨[], .inr ⟨.base name before after body, frames, part, rfl, fails⟩⟩
      · obtain ⟨before, s, after, rfl, fails⟩ := fails_of_everyAll body h
        exact fails.plug (.classDef name bases before after)
    | .cond test body orelse =>
      simp only [every, own, Bool.true_and, Bool.and_eq_false_iff] at h
      rcases h with (h | h) | h
      · exact .of_slot (.test body orelse) h
      · obtain ⟨before, s, after, rfl, fails⟩ := fails_of_everyAll body h
        exact fails.plug (.body test before after orelse)
      · obtain ⟨before, s, after, rfl, fails⟩ := fails_of_everyAll orelse h
        exact fails.plug (.orelse test body before after)
  · exact ⟨[], .inl ⟨s, rfl, Bool.eq_false_iff.2 own⟩⟩

theorem fails_of_everyAll (ss : List Stmt) (h : everyAll q p ss = false) :
    ∃ before s after, ss = before ++ s :: after ∧ Fails q p s :=
  match ss with
  | [] => nomatch h
  | s :: ss => by
    simp only [everyAll, Bool.and_eq_false_iff] at h
    rcases h with h | h
    · exact ⟨[], s, ss, rfl, fails_of_every s h⟩
    · obtain ⟨before, t, after, rfl, fails⟩ := fails_of_everyAll ss h
      exact ⟨s :: before, t, after, rfl, fails⟩

end

end Stmt

theorem Program.exists_place {program : Program} (h : program.every q p = false) :
    (∃ (place : Stmt.Place) (s : Stmt), program = place.fill s ∧ p s = false) ∨
    ∃ (place : Expr.Place) (e : Expr), program = place.fill e ∧ q e = false := by
  obtain ⟨body⟩ := program
  obtain ⟨before, s, after, rfl, frames, own⟩ := Stmt.fails_of_everyAll body h
  rcases own with ⟨part, rfl, fails⟩ | ⟨slot, inner, part, rfl, fails⟩
  · exact .inl ⟨⟨before, frames, after⟩, part, rfl, fails⟩
  · exact .inr ⟨⟨⟨before, frames, after⟩, slot, inner⟩, part, rfl, fails⟩

end

end Interlingua

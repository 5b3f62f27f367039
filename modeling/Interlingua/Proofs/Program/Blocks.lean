import Interlingua.Program.Mentions
import Mathlib.Data.List.Basic

/-!
# The blocks of a body

The blocks of a body are the body itself and the branches of its conditionals, at any depth. A block
is named by the way that leads to it, and what stands in a nested function or class stands in the
block of that statement. A variable whose first assignment is inside a branch, and which does not
escape, is mentioned nowhere but in the block of that assignment: the mentions in the block are as
many as those in the whole body.
-/

namespace Interlingua

/-- A branch of the conditional at a position in a block. -/
structure BranchStep where
  index : Nat
  orelse : Bool
  deriving DecidableEq

/-- The way from a body to one of its blocks, the outermost branch first. -/
abbrev BlockPath := List BranchStep

mutual

/-- The names that an expression mentions. -/
def Expr.names : Expr → List String
  | .name n => [n.id]
  | .call callee args => Expr.names callee ++ Expr.namesAll args
  | .member object _ => Expr.names object
  | .binary left _ right => Expr.names left ++ Expr.names right
  | .compare left _ right => Expr.names left ++ Expr.names right
  | .list elements _ _ => Expr.namesAll elements
  | .tuple elements _ => Expr.namesAll elements
  | .const _ _ => []
  | .unknown _ => []

def Expr.namesAll : List Expr → List String
  | [] => []
  | e :: es => Expr.names e ++ Expr.namesAll es

end

mutual

/-- The names that a statement mentions, in expressions and as targets of assignments. -/
def Stmt.names : Stmt → List String
  | .expr value => value.names
  | .print value => value.names
  | .ret none => []
  | .ret (some value) => value.names
  | .assign a => a.target.id :: a.value.names
  | .call callee args => callee.names ++ Expr.namesAll args
  | .cond test body orelse => test.names ++ Stmt.namesAll body ++ Stmt.namesAll orelse
  | .function _ body => Stmt.namesAll body
  | .classDef _ bases body => Expr.namesAll bases ++ Stmt.namesAll body
  | .unknown _ => []

def Stmt.namesAll : List Stmt → List String
  | [] => []
  | s :: ss => Stmt.names s ++ Stmt.namesAll ss

end

section

variable (id : String)

mutual

theorem Expr.count_names (e : Expr) : e.names.count id = e.mentions id :=
  match e with
  | .name n => by
    rw [Expr.names, Expr.mentions, List.count_singleton]
    simp only [beq_iff_eq]
  | .call callee args => by
    rw [Expr.names, Expr.mentions, List.count_append, Expr.count_names callee,
      Expr.count_namesAll args]
  | .member object _ => Expr.count_names object
  | .binary left _ right | .compare left _ right => by
    rw [Expr.names, Expr.mentions, List.count_append, Expr.count_names left, Expr.count_names right]
  | .list elements _ _ | .tuple elements _ => Expr.count_namesAll elements
  | .const _ _ | .unknown _ => List.count_nil

theorem Expr.count_namesAll (es : List Expr) : (Expr.namesAll es).count id = Expr.mentionsAll id es :=
  match es with
  | [] => List.count_nil
  | e :: es => by
    rw [Expr.namesAll, Expr.mentionsAll, List.count_append, Expr.count_names e,
      Expr.count_namesAll es]

end

mutual

theorem Stmt.count_names (s : Stmt) : s.names.count id = s.mentions id :=
  match s with
  | .expr value | .print value | .ret (some value) => value.count_names id
  | .ret none | .unknown _ => List.count_nil
  | .assign a => by
    rw [Stmt.names, Stmt.mentions, List.count_cons, a.value.count_names id, Nat.add_comm]
    simp only [beq_iff_eq]
  | .call callee args => by
    rw [Stmt.names, Stmt.mentions, List.count_append, callee.count_names id,
      Expr.count_namesAll id args]
  | .cond test body orelse => by
    rw [Stmt.names, Stmt.mentions, List.count_append, List.count_append, test.count_names id,
      Stmt.count_namesAll body, Stmt.count_namesAll orelse]
  | .function _ body => Stmt.count_namesAll body
  | .classDef _ bases body => by
    rw [Stmt.names, Stmt.mentions, List.count_append, Expr.count_namesAll id bases,
      Stmt.count_namesAll body]

theorem Stmt.count_namesAll (ss : List Stmt) : (Stmt.namesAll ss).count id = Stmt.mentionsAll id ss :=
  match ss with
  | [] => List.count_nil
  | s :: ss => by
    rw [Stmt.namesAll, Stmt.mentionsAll, List.count_append, Stmt.count_names s,
      Stmt.count_namesAll ss]

end

end

/-- A name that is mentioned, with the block it is mentioned in. -/
structure Mention where
  block : BlockPath
  id : String

def Mention.under (step : BranchStep) (m : Mention) : Mention :=
  { m with block := step :: m.block }

mutual

/-- The names that the statement at a position of a block mentions. -/
def Stmt.mentioned (k : Nat) : Stmt → List Mention
  | .cond test body orelse =>
    test.names.map (Mention.mk []) ++ (Stmt.mentionedAll 0 body).map (.under ⟨k, false⟩)
      ++ (Stmt.mentionedAll 0 orelse).map (.under ⟨k, true⟩)
  | s => s.names.map (Mention.mk [])

/-- The names that statements of a block mention, the first of them at a position. -/
def Stmt.mentionedAll (k : Nat) : List Stmt → List Mention
  | [] => []
  | s :: ss => Stmt.mentioned k s ++ Stmt.mentionedAll (k + 1) ss

end

/-- An assignment in a block of a body. -/
structure Own where
  path : BlockPath
  block : List Stmt
  assign : Assign

namespace Own

def id (o : Own) : String :=
  o.assign.target.id

def under (step : BranchStep) (o : Own) : Own :=
  { o with path := step :: o.path }

end Own

mutual

/-- The assignments in a statement of a block, in the order in which they are written. -/
def Stmt.own (block : List Stmt) (k : Nat) : Stmt → List Own
  | .assign a => [⟨[], block, a⟩]
  | .cond _ body orelse =>
    (Stmt.ownAll body 0 body).map (.under ⟨k, false⟩)
      ++ (Stmt.ownAll orelse 0 orelse).map (.under ⟨k, true⟩)
  | _ => []

def Stmt.ownAll (block : List Stmt) (k : Nat) : List Stmt → List Own
  | [] => []
  | s :: ss => Stmt.own block k s ++ Stmt.ownAll block (k + 1) ss

end

/-- The assignments in the blocks of a body. -/
def ownAssigns (body : List Stmt) : List Own :=
  Stmt.ownAll body 0 body

/-- Everything that a body mentions. -/
def bodyMentions (body : List Stmt) : List Mention :=
  Stmt.mentionedAll 0 body

/-- Whether a mention is one of a name inside a block. -/
def Mention.isIn (path : BlockPath) (id : String) (m : Mention) : Bool :=
  decide (path <+: m.block) && m.id == id

namespace Stmt

mutual

theorem ids_mentioned (k : Nat) (s : Stmt) : (s.mentioned k).map Mention.id = s.names :=
  match s with
  | .cond test body orelse => by
    have under : ∀ step, Mention.id ∘ Mention.under step = Mention.id := fun _ => rfl
    simp only [mentioned, List.map_append, List.map_map, under, ids_mentionedAll 0 body,
      ids_mentionedAll 0 orelse, names]
    exact congrArg (· ++ namesAll body ++ namesAll orelse) (List.map_id _)
  | .expr _ | .print _ | .ret _ | .assign _ | .call _ _ | .function _ _ | .classDef _ _ _
  | .unknown _ => by
    rw [mentioned, List.map_map]
    · exact List.map_id _
    · simp

theorem ids_mentionedAll (k : Nat) (ss : List Stmt) :
    (mentionedAll k ss).map Mention.id = namesAll ss :=
  match ss with
  | [] => rfl
  | s :: ss => by
    rw [mentionedAll, namesAll, List.map_append, ids_mentioned k s, ids_mentionedAll (k + 1) ss]

end

theorem countP_mentionedAll (id : String) (k : Nat) (ss : List Stmt) :
    (mentionedAll k ss).countP (Mention.isIn [] id) = mentionsAll id ss := by
  have all : ∀ m : Mention, m.isIn [] id = (m.id == id) := by
    intro m
    simp [Mention.isIn]
  rw [← count_namesAll, ← ids_mentionedAll k, List.count, List.countP_map]
  exact List.countP_congr fun m _ => by rw [all]; rfl

/-- A mention by the statement at a position is in the block itself or in a branch of that
statement. -/
theorem index_mentioned {k : Nat} {s : Stmt} {m : Mention} (mem : m ∈ s.mentioned k) :
    ∀ c ∈ m.block.head?, c.index = k := by
  cases s with
  | cond test body orelse =>
    simp only [mentioned, List.mem_append, List.mem_map] at mem
    rintro c head
    rcases mem with (⟨_, _, rfl⟩ | ⟨_, _, rfl⟩) | ⟨_, _, rfl⟩
    · simp at head
    · obtain rfl : _ = c := Option.some.inj head
      rfl
    · obtain rfl : _ = c := Option.some.inj head
      rfl
  | _ =>
    simp only [mentioned, List.mem_map] at mem
    obtain ⟨_, _, rfl⟩ := mem
    simp

theorem index_mentionedAll {k : Nat} {ss : List Stmt} {m : Mention} (mem : m ∈ mentionedAll k ss) :
    ∀ c ∈ m.block.head?, k ≤ c.index := by
  induction ss generalizing k with
  | nil => simp [mentionedAll] at mem
  | cons s ss ih =>
    intro c head
    rcases List.mem_append.1 mem with own | later
    · exact Nat.le_of_eq (index_mentioned own c head).symm
    · exact Nat.le_of_succ_le (ih later c head)

mutual

/-- The variable of an assignment is mentioned where the assignment stands. -/
theorem mention_of_own (block : List Stmt) (k : Nat) (s : Stmt) {o : Own} (mem : o ∈ s.own block k) :
    ⟨o.path, o.id⟩ ∈ s.mentioned k :=
  match s with
  | .assign a => by
    obtain rfl := List.mem_singleton.1 mem
    exact List.mem_map_of_mem List.mem_cons_self
  | .cond test body orelse => by
    simp only [own, List.mem_append, List.mem_map] at mem
    rw [mentioned]
    rcases mem with ⟨u, inner, rfl⟩ | ⟨u, inner, rfl⟩
    · have written := mention_of_ownAll body 0 body inner
      exact List.mem_append_left _ (List.mem_append_right _ (List.mem_map_of_mem written))
    · have written := mention_of_ownAll orelse 0 orelse inner
      exact List.mem_append_right _ (List.mem_map_of_mem written)
  | .expr _ | .print _ | .ret _ | .call _ _ | .function _ _ | .classDef _ _ _ | .unknown _ => by
    simp [own] at mem

theorem mention_of_ownAll (block : List Stmt) (k : Nat) (ss : List Stmt) {o : Own}
    (mem : o ∈ ownAll block k ss) : ⟨o.path, o.id⟩ ∈ mentionedAll k ss :=
  match ss with
  | [] => by simp [ownAll] at mem
  | s :: ss => by
    rw [mentionedAll]
    rcases List.mem_append.1 mem with here | later
    · exact List.mem_append_left _ (mention_of_own block k s here)
    · exact List.mem_append_right _ (mention_of_ownAll block (k + 1) ss later)

end

/-- An assignment that is in no branch is in the block itself. -/
theorem block_of_path_nil {block : List Stmt} {k : Nat} {ss : List Stmt} {o : Own}
    (mem : o ∈ ownAll block k ss) (direct : o.path = []) : o.block = block := by
  induction ss generalizing k with
  | nil => simp [ownAll] at mem
  | cons s ss ih =>
    rcases List.mem_append.1 mem with here | later
    · cases s with
      | assign a => rw [List.mem_singleton.1 here]
      | cond test body orelse =>
        simp only [own, List.mem_append, List.mem_map] at here
        rcases here with ⟨_, _, rfl⟩ | ⟨_, _, rfl⟩ <;> cases direct
      | _ => simp [own] at here
    · exact ih later

/-- Below a branch of the statement at one position there are no mentions by the others. -/
theorem countP_eq_zero_of_index {id : String} {path : BlockPath} {ms : List Mention} {c : BranchStep}
    (head : path.head? = some c) (apart : ∀ m ∈ ms, ∀ c' ∈ m.block.head?, c'.index ≠ c.index) :
    ms.countP (Mention.isIn path id) = 0 := by
  rw [List.countP_eq_zero]
  intro m mem inside
  simp only [Mention.isIn, Bool.and_eq_true, decide_eq_true_eq] at inside
  obtain ⟨rest, block⟩ := inside.1
  have same : m.block.head? = some c := by
    rw [← block]
    cases path with
    | nil => cases head
    | cons c' path => exact head
  exact apart m mem c same rfl

theorem countP_under (id : String) (step : BranchStep) (path : BlockPath) (ms : List Mention) :
    (ms.map (Mention.under step)).countP (Mention.isIn (step :: path) id) =
      ms.countP (Mention.isIn path id) := by
  rw [List.countP_map]
  refine List.countP_congr fun m _ => ?_
  simp [Mention.isIn, Mention.under]

theorem countP_under_ne (id : String) {step step' : BranchStep} (ne : step' ≠ step)
    (path : BlockPath) (ms : List Mention) :
    (ms.map (Mention.under step)).countP (Mention.isIn (step' :: path) id) = 0 := by
  simp [List.countP_map, List.countP_eq_zero, Mention.isIn, Mention.under, ne]

theorem countP_direct (id : String) (step : BranchStep) (path : BlockPath) (ids : List String) :
    (ids.map (Mention.mk [])).countP (Mention.isIn (step :: path) id) = 0 := by
  simp [List.countP_map, List.countP_eq_zero, Mention.isIn]

mutual

/-- The mentions inside the block of an assignment are the mentions by its statements. -/
theorem countP_own (id : String) (block : List Stmt) (k : Nat) (s : Stmt) {o : Own}
    (mem : o ∈ s.own block k) (nested : o.path ≠ []) :
    (s.mentioned k).countP (Mention.isIn o.path id) = mentionsAll id o.block :=
  match s with
  | .cond test body orelse => by
    simp only [own, List.mem_append, List.mem_map] at mem
    rcases mem with ⟨u, inner, rfl⟩ | ⟨u, inner, rfl⟩
    · change List.countP (Mention.isIn (⟨k, false⟩ :: u.path) id) _ = mentionsAll id u.block
      rw [mentioned, List.countP_append, List.countP_append, countP_direct, countP_under,
        countP_under_ne id (by simp), Nat.zero_add, Nat.add_zero]
      exact countP_branch id body inner
    · change List.countP (Mention.isIn (⟨k, true⟩ :: u.path) id) _ = mentionsAll id u.block
      rw [mentioned, List.countP_append, List.countP_append, countP_direct, countP_under,
        countP_under_ne id (by simp), Nat.zero_add]
      exact countP_branch id orelse inner
  | .assign a => by
    obtain rfl := List.mem_singleton.1 mem
    exact absurd rfl nested
  | .expr _ | .print _ | .ret _ | .call _ _ | .function _ _ | .classDef _ _ _ | .unknown _ => by
    simp [own] at mem

theorem countP_ownAll (id : String) (block : List Stmt) (k : Nat) (ss : List Stmt) {o : Own}
    (mem : o ∈ ownAll block k ss) (nested : o.path ≠ []) :
    (mentionedAll k ss).countP (Mention.isIn o.path id) = mentionsAll id o.block :=
  match ss with
  | [] => by simp [ownAll] at mem
  | s :: ss => by
    obtain ⟨c, head⟩ : ∃ c, o.path.head? = some c :=
      Option.isSome_iff_exists.1 (List.isSome_head?.2 nested)
    rw [mentionedAll, List.countP_append]
    rcases List.mem_append.1 mem with here | later
    · have position := index_mentioned (mention_of_own block k s here) c head
      have others : (mentionedAll (k + 1) ss).countP (Mention.isIn o.path id) = 0 := by
        refine countP_eq_zero_of_index head fun m hm c' hc' => ?_
        have above := index_mentionedAll hm c' hc'
        omega
      rw [others, Nat.add_zero]
      exact countP_own id block k s here nested
    · have position := index_mentionedAll (mention_of_ownAll block (k + 1) ss later) c head
      have others : (s.mentioned k).countP (Mention.isIn o.path id) = 0 := by
        refine countP_eq_zero_of_index head fun m hm c' hc' => ?_
        have here := index_mentioned hm c' hc'
        omega
      rw [others, Nat.zero_add]
      exact countP_ownAll id block (k + 1) ss later nested

theorem countP_branch (id : String) (body : List Stmt) {o : Own} (mem : o ∈ ownAll body 0 body) :
    (mentionedAll 0 body).countP (Mention.isIn o.path id) = mentionsAll id o.block := by
  by_cases direct : o.path = []
  · rw [direct, countP_mentionedAll, block_of_path_nil mem direct]
  · exact countP_ownAll id body 0 body mem direct

end

end Stmt

namespace Firsts

/-- Note an assignment of a body of which `block` is the whole, if it is a branch. -/
def noteOwn (block : Option (List Stmt)) (st : Firsts) (o : Own) : Firsts :=
  st.note (if o.path = [] then block else some o.block) o.assign

/-- A branch is gone through as a block of its own. -/
theorem foldl_under (step : BranchStep) (block : Option (List Stmt)) (body : List Stmt)
    (st : Firsts) : ((Stmt.ownAll body 0 body).map (.under step)).foldl (noteOwn block) st =
      (Stmt.ownAll body 0 body).foldl (noteOwn (some body)) st := by
  rw [List.foldl_map]
  refine List.foldl_ext _ _ _ fun st o mem => ?_
  have nested : (o.under step).path ≠ [] := List.cons_ne_nil _ _
  rw [noteOwn, noteOwn, if_neg nested]
  split
  · rename_i direct
    rw [← Stmt.block_of_path_nil mem direct]
    rfl
  · rfl

mutual

/-- Going through a body is noting its assignments one by one. -/
theorem visit_eq (whole : List Stmt) (k : Nat) (block : Option (List Stmt)) (s : Stmt)
    (st : Firsts) : visit block s st = (s.own whole k).foldl (noteOwn block) st :=
  match s with
  | .assign _ => rfl
  | .cond _ body orelse => by
    rw [visit, through_eq body 0 _ body, through_eq orelse 0 _ orelse, Stmt.own, List.foldl_append,
      foldl_under, foldl_under]
  | .expr _ | .print _ | .ret _ | .call _ _ | .function _ _ | .classDef _ _ _ | .unknown _ => rfl

theorem through_eq (whole : List Stmt) (k : Nat) (block : Option (List Stmt)) (ss : List Stmt)
    (st : Firsts) : through block ss st = (Stmt.ownAll whole k ss).foldl (noteOwn block) st :=
  match ss with
  | [] => rfl
  | s :: ss => by
    rw [through, visit_eq whole k block s, through_eq whole (k + 1) block ss, Stmt.ownAll,
      List.foldl_append]

end

variable {block : Option (List Stmt)}

theorem mem_seen_noteOwn {st : Firsts} {o : Own} {id : String} (seen : id ∈ (noteOwn block st o).seen) :
    id ∈ st.seen ∨ o.id = id := by
  unfold noteOwn note at seen
  split at seen
  · exact .inl seen
  · rcases List.mem_cons.1 seen with rfl | before
    · exact .inr rfl
    · exact .inl before

theorem mem_seen_foldl {st : Firsts} {os : List Own} {id : String}
    (seen : id ∈ (os.foldl (noteOwn block) st).seen) : id ∈ st.seen ∨ ∃ o ∈ os, o.id = id := by
  induction os generalizing st with
  | nil => exact .inl seen
  | cons o os ih =>
    rcases ih seen with first | ⟨u, mem, same⟩
    · rcases mem_seen_noteOwn first with before | same
      · exact .inl before
      · exact .inr ⟨o, List.mem_cons_self, same⟩
    · exact .inr ⟨u, List.mem_cons_of_mem _ mem, same⟩

theorem mem_found_noteOwn {st : Firsts} {entry : Assign × List Stmt} (found : entry ∈ st.found)
    (o : Own) : entry ∈ (noteOwn block st o).found := by
  unfold noteOwn note
  split
  · exact found
  · dsimp only
    split
    · exact List.mem_append_left _ found
    · exact found

theorem mem_found_foldl {st : Firsts} {entry : Assign × List Stmt} (found : entry ∈ st.found)
    (os : List Own) : entry ∈ (os.foldl (noteOwn block) st).found := by
  induction os generalizing st with
  | nil => exact found
  | cons o os ih => exact ih (mem_found_noteOwn found o)

/-- The first assignment to a variable is found if it is inside a branch. -/
theorem mem_found {before after : List Own} {o : Own} (first : ∀ u ∈ before, u.id ≠ o.id)
    (nested : o.path ≠ []) :
    (o.assign, o.block) ∈ ((before ++ o :: after).foldl (noteOwn block) {}).found := by
  have unseen : o.assign.target.id ∉ (before.foldl (noteOwn block) {}).seen := by
    intro seen
    rcases mem_seen_foldl seen with none | ⟨u, mem, same⟩
    · cases none
    · exact first u mem same
  rw [List.foldl_append, List.foldl_cons]
  apply mem_found_foldl
  rw [noteOwn, if_neg nested, note, if_neg unseen]
  exact List.mem_append_right _ List.mem_cons_self

end Firsts

/-- A variable that is mentioned in a block as often as in the whole body is mentioned nowhere
else. -/
theorem path_isPrefix_of_mentionsAll_le {body : List Stmt} {o : Own} (mem : o ∈ ownAssigns body)
    {id : String} (all : Stmt.mentionsAll id body ≤ Stmt.mentionsAll id o.block) {m : Mention}
    (mention : m ∈ bodyMentions body) (same : m.id = id) : o.path <+: m.block := by
  have inside := Stmt.countP_branch id body mem
  have total := Stmt.countP_mentionedAll id 0 body
  have weaker : ∀ m, Mention.isIn o.path id m = true → Mention.isIn [] id m = true := by
    intro m inner
    simp only [Mention.isIn, Bool.and_eq_true] at inner
    simp [Mention.isIn, beq_iff_eq.1 inner.2]
  have both : (bodyMentions body).countP (Mention.isIn o.path id) =
      ((bodyMentions body).filter (Mention.isIn [] id)).countP (Mention.isIn o.path id) := by
    rw [List.countP_filter]
    refine List.countP_congr fun m _ => ?_
    rw [Bool.and_eq_true]
    exact ⟨fun inner => ⟨inner, weaker m inner⟩, And.left⟩
  have every : ((bodyMentions body).filter (Mention.isIn [] id)).countP (Mention.isIn o.path id) =
      ((bodyMentions body).filter (Mention.isIn [] id)).length := by
    apply Nat.le_antisymm List.countP_le_length
    rw [← both, ← List.countP_eq_length_filter, bodyMentions, inside, total]
    exact all
  have member : m ∈ (bodyMentions body).filter (Mention.isIn [] id) := by
    simp [mention, Mention.isIn, same]
  have inner := List.countP_eq_length.1 every m member
  simp only [Mention.isIn, Bool.and_eq_true, decide_eq_true_eq] at inner
  exact inner.1

/-- A variable that does not escape is mentioned only in the block of its first assignment. -/
theorem path_isPrefix_of_first {body : List Stmt} {before after : List Own} {o : Own}
    (own : ownAssigns body = before ++ o :: after) (first : ∀ u ∈ before, u.id ≠ o.id)
    (stays : ∀ a ∈ escaping body, a.target.id ≠ o.id) {m : Mention} (mention : m ∈ bodyMentions body)
    (same : m.id = o.id) : o.path <+: m.block := by
  by_cases direct : o.path = []
  · rw [direct]
    exact List.nil_prefix
  have mem : o ∈ ownAssigns body := by simp [own]
  have found : (o.assign, o.block) ∈ (Firsts.through none body {}).found := by
    rw [Firsts.through_eq body 0, ← ownAssigns, own]
    exact Firsts.mem_found first direct
  refine path_isPrefix_of_mentionsAll_le mem ?_ mention same
  -- otherwise the assignment would be among those that escape
  apply Nat.le_of_not_lt
  intro fewer
  refine stays o.assign ?_ rfl
  simp only [escaping, List.mem_map, List.mem_filter, decide_eq_true_eq]
  exact ⟨(o.assign, o.block), ⟨found, fewer⟩, rfl⟩

end Interlingua

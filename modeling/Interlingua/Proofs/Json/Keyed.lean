import Interlingua.Json.Parser
import Mathlib.Data.List.Nodup

/-!
# Objects with different keys

No object in a value that is read from a text has two members with one key. It is an invariant of the
machine that reads the tokens: what it holds in open arrays and objects are such values, and an object
that is closed keeps only the last of the members with one key.
-/

namespace Interlingua.Json

mutual

/-- Whether no object in a value has two members with one key. -/
def isKeyed : Json → Bool
  | arr items => itemsKeyed items
  | obj members => membersKeyed members
  | _ => true

def itemsKeyed : List Json → Bool
  | [] => true
  | item :: rest => isKeyed item && itemsKeyed rest

def membersKeyed : List (String × Json) → Bool
  | [] => true
  | (key, value) :: rest => isKeyed value && !rest.any (·.1 = key) && membersKeyed rest

end

theorem itemsKeyed_iff {items : List Json} :
    itemsKeyed items = true ↔ ∀ item ∈ items, item.isKeyed = true := by
  induction items with
  | nil => simp [itemsKeyed]
  | cons item rest ih => simp [itemsKeyed, ih]

theorem membersKeyed_iff {members : List (String × Json)} :
    membersKeyed members = true ↔
      (∀ m ∈ members, m.2.isKeyed = true) ∧ (members.map Prod.fst).Nodup := by
  induction members with
  | nil => simp [membersKeyed]
  | cons m rest ih =>
    obtain ⟨key, value⟩ := m
    simp only [membersKeyed, Bool.and_eq_true, ih, List.forall_mem_cons, List.map_cons,
      List.nodup_cons, Bool.not_eq_true', List.any_eq_false, decide_eq_true_eq, List.mem_map,
      not_exists, not_and]
    exact and_and_and_comm

/-! Tokens. -/

/-- A token that is no array or object by itself. -/
def Token.isKeyed : Token → Bool
  | .scalar value => value.isKeyed
  | _ => true

theorem isKeyed_of_unsigned? {minus : Bool} {cs : List Char} {v : Json}
    (h : unsigned? minus cs = some v) : v.isKeyed = true := by
  obtain ⟨d, -, h⟩ := Option.bind_eq_some_iff.1 h
  obtain ⟨-, -, found⟩ := Option.bind_eq_some_iff.1 h
  dsimp only at found
  split at found
  · cases found
    rfl
  · split at found
    · cases found
      rfl
    · obtain ⟨x, -, same⟩ := Option.bind_eq_some_iff.1 found
      cases same
      rfl

theorem isKeyed_of_number? {cs : List Char} {v : Json} (h : number? cs = some v) :
    v.isKeyed = true := by
  unfold number? at h
  split at h <;> exact isKeyed_of_unsigned? h

theorem isKeyed_of_next {c : Char} {cs rest : List Char} {t : Token}
    (h : next c cs = some (t, rest)) : t.isKeyed = true := by
  unfold next at h
  split at h
  iterate 6
    · cases h
      rfl
  iterate 4
    · obtain ⟨_, -, same⟩ := Option.map_eq_some_iff.1 h
      cases same
      rfl
  · obtain ⟨_, found, same⟩ := Option.map_eq_some_iff.1 h
    cases same
    exact isKeyed_of_number? found

theorem isKeyed_of_lex {cs : List Char} {ts : List Token} (h : lex cs = some ts) :
    ∀ t ∈ ts, t.isKeyed = true := by
  fun_induction lex cs generalizing ts with
  | case1 =>
    cases h
    simp
  | case2 c cs space ih => exact ih h
  | case3 => cases h
  | case4 c cs _ t rest found _ ih =>
    obtain ⟨others, later, rfl⟩ := Option.map_eq_some_iff.1 h
    exact List.forall_mem_cons.2 ⟨isKeyed_of_next found, ih later⟩

/-! The machine. -/

/-- What an open array or object holds. -/
def Frame.held : Frame → List Json
  | .arr items => items
  | .obj members _ => members.map Prod.snd

/-- The values of a machine: those it holds, or the one it is done with. -/
def Progress.held : Progress → List Json
  | .inside stack _ => stack.flatMap Frame.held
  | .done value => [value]

def Progress.Keyed (p : Progress) : Prop :=
  ∀ v ∈ p.held, v.isKeyed = true

theorem membersKeyed_lastMembers {members : List (String × Json)}
    (h : ∀ m ∈ members, m.2.isKeyed = true) : membersKeyed (lastMembers members) = true := by
  suffices run : ∀ kept, membersKeyed kept = true →
      membersKeyed (members.foldl (fun kept m => if kept.any (·.1 = m.1) then kept else m :: kept)
        kept) = true from run [] rfl
  induction members with
  | nil => exact fun _ keyed => keyed
  | cons m rest ih =>
    obtain ⟨own, others⟩ := List.forall_mem_cons.1 h
    intro kept keyed
    refine ih others _ ?_
    dsimp only
    by_cases known : kept.any (·.1 = m.1)
    · rwa [if_pos known]
    · rw [if_neg known, membersKeyed, own, keyed, Bool.eq_false_iff.2 known]
      rfl

section

variable {value : Json} {stack : List Frame} {p p' : Progress}

theorem keyed_deliver (own : value.isKeyed = true)
    (h : ∀ v ∈ stack.flatMap Frame.held, v.isKeyed = true) : (deliver value stack).Keyed := by
  cases stack with
  | nil => exact List.forall_mem_singleton.2 own
  | cons frame stack =>
    have together : ∀ v ∈ value :: (frame :: stack).flatMap Frame.held, v.isKeyed = true :=
      List.forall_mem_cons.2 ⟨own, h⟩
    cases frame <;> exact together

theorem keyed_closeArr (h : ∀ v ∈ stack.flatMap Frame.held, v.isKeyed = true)
    (closed : closeArr stack = some p) : p.Keyed := by
  match stack, closed with
  | .arr items :: stack, rfl =>
    obtain ⟨inner, outer⟩ := List.forall_mem_append.1 h
    refine keyed_deliver (itemsKeyed_iff.2 fun item mem => ?_) outer
    exact inner item (List.mem_reverse.1 mem)

theorem keyed_closeObj (h : ∀ v ∈ stack.flatMap Frame.held, v.isKeyed = true)
    (closed : closeObj stack = some p) : p.Keyed := by
  match stack, closed with
  | .obj members key :: stack, rfl =>
    obtain ⟨inner, outer⟩ := List.forall_mem_append.1 h
    exact keyed_deliver (membersKeyed_lastMembers fun m mem => inner m.2 (List.mem_map_of_mem mem)) outer

/-- Values are held as they were: a frame is opened or a key is set. -/
theorem keyed_of_held (h : p.Keyed) (same : p'.held = p.held) : p'.Keyed := by
  rwa [Progress.Keyed, same]

theorem held_openFrame {limit : Nat} {frame : Frame} {want : Want} (empty : frame.held = [])
    (opened : openFrame limit frame want stack = some p) : p.held = stack.flatMap Frame.held := by
  unfold openFrame at opened
  split at opened
  · cases opened
    simp [Progress.held, empty]
  · cases opened

theorem held_setKey {key : String} (set : setKey key stack = some p) :
    p.held = stack.flatMap Frame.held := by
  match stack, set with
  | .obj members _ :: stack, rfl => rfl

theorem held_afterComma (next : afterComma stack = some p) : p.held = stack.flatMap Frame.held := by
  match stack, next with
  | .arr items :: stack, rfl => rfl
  | .obj members key :: stack, rfl => rfl

end

theorem keyed_step {limit : Nat} {p p' : Progress} {t : Token} (h : p.Keyed)
    (own : t.isKeyed = true) (next : step limit p t = some p') : p'.Keyed := by
  unfold step at next
  split at next
  · cases next
    exact keyed_deliver own h
  · cases next
    exact keyed_deliver own h
  · exact keyed_of_held h (held_openFrame rfl next)
  · exact keyed_of_held h (held_openFrame rfl next)
  · exact keyed_of_held h (held_openFrame rfl next)
  · exact keyed_of_held h (held_openFrame rfl next)
  · exact keyed_closeArr h next
  · exact keyed_of_held h (held_setKey next)
  · exact keyed_of_held h (held_setKey next)
  · exact keyed_closeObj h next
  · cases next
    exact h
  · exact keyed_of_held h (held_afterComma next)
  · exact keyed_closeArr h next
  · exact keyed_closeObj h next
  · cases next

theorem keyed_foldlM {limit : Nat} {ts : List Token} (own : ∀ t ∈ ts, t.isKeyed = true)
    {p p' : Progress} (h : p.Keyed) (run : ts.foldlM (step limit) p = some p') : p'.Keyed := by
  induction ts generalizing p with
  | nil =>
    cases run
    exact h
  | cons t ts ih =>
    obtain ⟨first, others⟩ := List.forall_mem_cons.1 own
    obtain ⟨q, next, later⟩ := Option.bind_eq_some_iff.1 run
    exact ih others (keyed_step h first next) later

/-- No object that is read from a text has two members with one key. -/
theorem isKeyed_of_parse {cs : List Char} {v : Json} (h : parse cs = some v) : v.isKeyed = true := by
  obtain ⟨ts, lexed, h⟩ := Option.bind_eq_some_iff.1 h
  obtain ⟨p, run, h⟩ := Option.bind_eq_some_iff.1 h
  have keyed : p.Keyed :=
    keyed_foldlM (isKeyed_of_lex lexed) (by simp [Progress.Keyed, Progress.held]) run
  cases p with
  | inside stack want => cases h
  | done value =>
    cases h
    exact keyed v (List.mem_singleton.2 rfl)

end Interlingua.Json

import Interlingua.Dict

/-!
# Dictionaries from their entries

The entries of a dictionary, inserted in order into an empty one, give the dictionary back. What
holds of the entries of a dictionary, and of those that are inserted, holds of all entries then; and
what is found under a key is what was last inserted there.
-/

namespace Interlingua.Dict

variable {α : Type}

@[simp] theorem entries_empty : (∅ : Dict α).entries = [] :=
  rfl

private theorem insertEntry_above (key : String) (value : α) :
    ∀ (entries : List (String × α)), (∀ e ∈ entries, e.1 < key) →
      insertEntry key value entries = entries ++ [(key, value)]
  | [], _ => rfl
  | head :: rest, h => by
    have lt : head.1 < key := h head List.mem_cons_self
    have notLt : ¬ key < head.1 := fun gt => String.lt_irrefl _ (String.lt_trans lt gt)
    have tail := insertEntry_above key value rest fun e mem => h e (List.mem_cons_of_mem _ mem)
    simp [insertEntry, lt, notLt, tail]

private theorem foldl_insert_above (d : Dict α) (entries : List (String × α))
    (sorted : (d.entries ++ entries).Pairwise fun a b => a.1 < b.1) :
    (entries.foldl (fun d e => d.insert e.1 e.2) d).entries = d.entries ++ entries := by
  induction entries generalizing d with
  | nil => simp
  | cons e rest ih =>
    obtain ⟨_, _, above⟩ := List.pairwise_append.1 sorted
    have step : (d.insert e.1 e.2).entries = d.entries ++ [e] :=
      insertEntry_above e.1 e.2 d.entries fun a mem => above a mem e List.mem_cons_self
    have next := ih (d.insert e.1 e.2) (by rw [step]; simpa using sorted)
    rw [List.foldl_cons, next, step]
    simp

/-- Inserting the entries of a dictionary one by one rebuilds it. -/
theorem foldl_insert_entries (d : Dict α) :
    d.entries.foldl (fun d e => d.insert e.1 e.2) {} = d :=
  ext (foldl_insert_above {} d.entries d.sorted)

theorem ofList_entries (d : Dict α) : ofList d.entries = d :=
  foldl_insert_entries d

section

variable {P : String × α → Prop} {d : Dict α}

theorem forall_insert (h : ∀ e ∈ d.entries, P e) {key : String} {value : α} (own : P (key, value)) :
    ∀ e ∈ (d.insert key value).entries, P e := by
  intro e mem
  rcases mem_insertEntry mem with rfl | mem
  · exact own
  · exact h e mem

theorem forall_foldl_insert {entries : List (String × α)} (h : ∀ e ∈ d.entries, P e)
    (inserted : ∀ e ∈ entries, P e) :
    ∀ e ∈ (entries.foldl (fun d e => d.insert e.1 e.2) d).entries, P e := by
  induction entries generalizing d with
  | nil => exact h
  | cons e rest ih =>
    obtain ⟨own, others⟩ := List.forall_mem_cons.1 inserted
    exact ih (forall_insert h own) others

theorem forall_erase (h : ∀ e ∈ d.entries, P e) (key : String) : ∀ e ∈ (d.erase key).entries, P e :=
  fun e mem => h e (List.mem_filter.1 mem).1

theorem of_find? (h : ∀ e ∈ d.entries, P e) {key : String} {value : α}
    (found : d.find? key = some value) : P (key, value) := by
  obtain ⟨before, after, split, -⟩ := List.lookup_eq_some_iff.1 found
  exact h (key, value) (by simp [split])

end

private theorem lookup_entry (id : String) (entry : String × α) (rest : List (String × α)) :
    (entry :: rest).lookup id = if id = entry.1 then some entry.2 else rest.lookup id := by
  obtain ⟨key, value⟩ := entry
  by_cases here : id = key
  · simp [here]
  · have unequal : (id == key) = false := beq_false_of_ne here
    simp [List.lookup_cons, here, unequal]

private theorem lookup_insertEntry (key id : String) (value : α) (entries : List (String × α)) :
    (insertEntry key value entries).lookup id =
      if id = key then some value else entries.lookup id := by
  induction entries with
  | nil => rw [insertEntry, lookup_entry]
  | cons head rest ih =>
    rw [insertEntry]
    split
    · rw [lookup_entry]
    · split
      · rename_i lt
        have ne : head.1 ≠ key := fun same => String.lt_irrefl _ (same ▸ lt)
        rw [lookup_entry, ih, lookup_entry]
        by_cases here : id = head.1 <;> simp [here, ne]
      · rename_i notLt notGt
        have same : key = head.1 :=
          String.le_antisymm (String.not_lt.1 notGt) (String.not_lt.1 notLt)
        rw [lookup_entry, lookup_entry, same]
        split <;> rfl

theorem find?_insert (d : Dict α) (key id : String) (value : α) :
    (d.insert key value).find? id = if id = key then some value else d.find? id :=
  lookup_insertEntry key id value d.entries

theorem find?_erase (d : Dict α) (key id : String) :
    (d.erase key).find? id = if id = key then none else d.find? id := by
  change (d.entries.filter (·.1 ≠ key)).lookup id = if id = key then none else d.entries.lookup id
  induction d.entries with
  | nil => simp
  | cons head rest ih =>
    by_cases dropped : head.1 = key
    · rw [List.filter_cons_of_neg (by simp [dropped]), ih, lookup_entry, dropped]
      split <;> rfl
    · rw [List.filter_cons_of_pos (by simp [dropped]), lookup_entry, ih, lookup_entry]
      by_cases here : id = head.1 <;> simp [here, dropped]

@[simp] theorem isEmpty_iff {d : Dict α} : d.isEmpty = true ↔ d = {} := by
  rw [isEmpty, List.isEmpty_iff]
  exact ⟨fun h => ext h, fun h => h ▸ rfl⟩

end Interlingua.Dict

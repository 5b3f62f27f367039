import Interlingua.Proofs.Dict
import Mathlib.Data.List.Sort

/-!
# Dictionaries by what is found in them

An entry is found under its key, and a dictionary is determined by what is found under every key. Of
entries with different keys, those that are kept before a dictionary is made of them are those that are
kept after.
-/

namespace Interlingua.Dict

variable {α β : Type}

/-! Entries with different keys. -/

theorem lookup_eq_none_of_notMem {entries : List (String × α)} {key : String}
    (fresh : key ∉ entries.map Prod.fst) : entries.lookup key = none := by
  refine List.lookup_eq_none_iff.2 fun e mem => ?_
  have other : key ≠ e.1 := fun same => fresh (List.mem_map.2 ⟨e, mem, same.symm⟩)
  simpa using other

section

variable {entries : List (String × α)} (distinct : (entries.map Prod.fst).Nodup)

include distinct

theorem lookup_eq_some_iff_mem {key : String} {value : α} :
    entries.lookup key = some value ↔ (key, value) ∈ entries := by
  constructor
  · intro found
    obtain ⟨before, after, split, -⟩ := List.lookup_eq_some_iff.1 found
    simp [split]
  · intro mem
    obtain ⟨before, after, rfl⟩ := List.append_of_mem mem
    refine List.lookup_eq_some_iff.2 ⟨before, after, rfl, fun e listed => ?_⟩
    rw [List.map_append, List.nodup_append] at distinct
    have other := distinct.2.2 e.1 (List.mem_map_of_mem listed) key (by simp)
    simpa using other.symm

/-- What is found among entries that are changed or left out one by one. -/
theorem lookup_filterMap (change : String → α → Option β) (key : String) :
    (entries.filterMap fun e => (change e.1 e.2).map fun value => (e.1, value)).lookup key =
      (entries.lookup key).bind (change key) := by
  induction entries with
  | nil => rfl
  | cons e rest ih =>
    obtain ⟨id, value⟩ := e
    obtain ⟨fresh, others⟩ := List.nodup_cons.1 distinct
    rw [List.filterMap_cons, List.lookup_cons]
    by_cases here : key = id
    · subst here
      have later := ih others
      rw [lookup_eq_none_of_notMem fresh, Option.bind_none] at later
      cases changed : change key value <;> simp [changed, later]
    · have unequal : (key == id) = false := beq_false_of_ne here
      cases change id value <;> simp [List.lookup_cons, unequal, ih others]

theorem find?_foldl_insert (d : Dict α) (key : String) :
    (entries.foldl (fun d e => d.insert e.1 e.2) d).find? key =
      (entries.lookup key).or (d.find? key) := by
  induction entries generalizing d with
  | nil => simp
  | cons e rest ih =>
    obtain ⟨id, value⟩ := e
    obtain ⟨fresh, others⟩ := List.nodup_cons.1 distinct
    rw [List.foldl_cons, ih others, find?_insert, List.lookup_cons]
    by_cases here : key = id
    · simp [here, lookup_eq_none_of_notMem fresh]
    · simp [here, beq_false_of_ne here]

theorem find?_ofList (key : String) : (ofList entries).find? key = entries.lookup key := by
  rw [ofList, find?_foldl_insert distinct]
  exact Option.or_none

end

/-! Dictionaries. -/

theorem nodup_keys (d : Dict α) : (d.entries.map Prod.fst).Nodup :=
  List.pairwise_map.2 (d.sorted.imp fun below => String.ne_of_lt below)

theorem find?_eq_some_iff {d : Dict α} {key : String} {value : α} :
    d.find? key = some value ↔ (key, value) ∈ d.entries :=
  lookup_eq_some_iff_mem d.nodup_keys

theorem ext_find? {d e : Dict α} (h : ∀ key, d.find? key = e.find? key) : d = e := by
  have irrefl : Std.Irrefl fun a b : String × α => a.1 < b.1 := ⟨fun a => String.lt_irrefl a.1⟩
  have antisymm : Std.Antisymm fun a b : String × α => a.1 < b.1 :=
    ⟨fun a _ below above => absurd (String.lt_trans below above) (String.lt_irrefl a.1)⟩
  refine ext (d.sorted.eq_of_mem_iff e.sorted fun entry => ?_)
  rw [← find?_eq_some_iff, ← find?_eq_some_iff, h]

theorem isEmpty_foldl_insert (d : Dict α) (entries : List (String × α)) :
    (entries.foldl (fun d e => d.insert e.1 e.2) d).isEmpty = (d.isEmpty && entries.isEmpty) := by
  induction entries generalizing d with
  | nil => simp
  | cons e rest ih =>
    have inhabited : (d.insert e.1 e.2).isEmpty = false := by
      refine Bool.eq_false_iff.2 fun empty => ?_
      have found := find?_insert d e.1 e.1 e.2
      rw [isEmpty_iff.1 empty, if_pos rfl] at found
      cases found
    rw [List.foldl_cons, ih, inhabited]
    simp

theorem isEmpty_ofList (entries : List (String × α)) : (ofList entries).isEmpty = entries.isEmpty :=
  isEmpty_foldl_insert {} entries

/-- Of entries with different keys, some can be left out before or after. -/
theorem ofList_filter {entries : List (String × α)} (distinct : (entries.map Prod.fst).Nodup)
    (keep : String → α → Bool) :
    ofList (entries.filter fun e => keep e.1 e.2) = (ofList entries).filter keep := by
  have fewer : ((entries.filter fun e => keep e.1 e.2).map Prod.fst).Nodup :=
    distinct.sublist (List.filter_sublist.map _)
  refine ext_find? fun key => Option.ext fun value => ?_
  rw [find?_ofList fewer, lookup_eq_some_iff_mem fewer, find?_eq_some_iff, filter, List.mem_filter,
    List.mem_filter, ← find?_eq_some_iff, find?_ofList distinct, lookup_eq_some_iff_mem distinct]

end Interlingua.Dict

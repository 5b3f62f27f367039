/-!
# Dictionaries

Finite maps from strings, as entry lists in strictly increasing order of the keys. The order is
that of code points, and two dictionaries with the same entries are equal.
-/

namespace Interlingua

structure Dict (α : Type) where
  entries : List (String × α)
  sorted : entries.Pairwise (fun a b => a.1 < b.1)
  deriving DecidableEq

namespace Dict

variable {α β : Type}

instance : EmptyCollection (Dict α) := ⟨⟨[], .nil⟩⟩

instance : Inhabited (Dict α) := ⟨∅⟩

@[ext] theorem ext {d e : Dict α} (h : d.entries = e.entries) : d = e := by
  cases d; cases e; simpa using h

def insertEntry (key : String) (value : α) : List (String × α) → List (String × α)
  | [] => [(key, value)]
  | entry :: rest =>
    if key < entry.1 then (key, value) :: entry :: rest
    else if entry.1 < key then entry :: insertEntry key value rest
    else (key, value) :: rest

theorem mem_insertEntry {key : String} {value : α} {entry : String × α} :
    ∀ {entries : List (String × α)},
      entry ∈ insertEntry key value entries → entry = (key, value) ∨ entry ∈ entries
  | [], h => by simpa [insertEntry] using h
  | head :: rest, h => by
    rw [insertEntry] at h
    split at h
    · simpa using h
    · split at h
      · rcases List.mem_cons.1 h with rfl | h
        · simp
        · rcases mem_insertEntry h with h | h <;> simp [h]
      · rcases List.mem_cons.1 h with rfl | h <;> simp [*]

theorem sorted_insertEntry (key : String) (value : α) :
    ∀ {entries : List (String × α)}, entries.Pairwise (fun a b => a.1 < b.1) →
      (insertEntry key value entries).Pairwise (fun a b => a.1 < b.1)
  | [], _ => by simp [insertEntry]
  | head :: rest, h => by
    obtain ⟨above, tail⟩ := List.pairwise_cons.1 h
    rw [insertEntry]
    split
    · rename_i lt
      refine List.pairwise_cons.2 ⟨fun entry mem => ?_, h⟩
      rcases List.mem_cons.1 mem with rfl | mem
      · exact lt
      · exact String.lt_trans lt (above entry mem)
    · split
      · rename_i lt
        refine List.pairwise_cons.2 ⟨fun entry mem => ?_, sorted_insertEntry key value tail⟩
        rcases mem_insertEntry mem with rfl | mem
        · exact lt
        · exact above entry mem
      · rename_i notLt notGt
        have same : key = head.1 :=
          String.le_antisymm (String.not_lt.1 notGt) (String.not_lt.1 notLt)
        exact List.pairwise_cons.2 ⟨fun entry mem => same ▸ above entry mem, tail⟩

/-- Set the value of a key, replacing an earlier one. -/
def insert (d : Dict α) (key : String) (value : α) : Dict α :=
  ⟨insertEntry key value d.entries, sorted_insertEntry key value d.sorted⟩

def erase (d : Dict α) (key : String) : Dict α :=
  ⟨d.entries.filter (·.1 ≠ key), d.sorted.filter _⟩

def find? (d : Dict α) (key : String) : Option α :=
  d.entries.lookup key

def contains (d : Dict α) (key : String) : Bool :=
  (d.find? key).isSome

def isEmpty (d : Dict α) : Bool :=
  d.entries.isEmpty

/-- The dictionary of a list of entries; of two entries with one key the later holds. -/
def ofList (entries : List (String × α)) : Dict α :=
  entries.foldl (fun d entry => d.insert entry.1 entry.2) {}

def filter (d : Dict α) (keep : String → α → Bool) : Dict α :=
  ⟨d.entries.filter fun entry => keep entry.1 entry.2, d.sorted.filter _⟩

def map (d : Dict α) (f : α → β) : Dict β :=
  ⟨d.entries.map fun entry => (entry.1, f entry.2), by
    simpa [List.pairwise_map] using d.sorted⟩

/-- Whether two dictionaries have the same keys and related values. -/
def agree (related : α → α → Bool) (d e : Dict α) : Bool :=
  d.entries.length = e.entries.length &&
    (d.entries.zip e.entries).all fun (a, b) => a.1 = b.1 && related a.2 b.2

end Dict

end Interlingua

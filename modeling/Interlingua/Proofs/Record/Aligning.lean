import Interlingua.Proofs.Record.Scanning

/-!
# Records and the rows of their consumers

Records that are found on rows are given to the consumers that start there: a row without a record
stands for an empty one, no two consumers start on one row, and the order in which records are found
does not matter. So the records found on the lines of a program, aligned with the rows on which
consumers start, are the records of these consumers.
-/

namespace Interlingua

namespace Line

theorem le_of_mem_starts {ls : List Line} {row start : Nat} (mem : start ∈ starts ls row) :
    row ≤ start := by
  obtain ⟨⟨l, i⟩, place, found⟩ := List.mem_filterMap.1 mem
  obtain ⟨_, _, rfl⟩ := Option.map_eq_some_iff.1 found
  exact (List.mem_zipIdx place).1

/-- No two consumers start on one line. -/
theorem nodup_starts (ls : List Line) (row : Nat) : (starts ls row).Nodup := by
  induction ls generalizing row with
  | nil => exact List.nodup_nil
  | cons l ls ih =>
    cases known : l.record with
    | none => simpa [starts, known] using ih (row + 1)
    | some r =>
      have rows : starts (l :: ls) row = row :: starts ls (row + 1) := by simp [starts, known]
      rw [rows, List.nodup_cons]
      constructor
      · intro mem
        have above := le_of_mem_starts mem
        omega
      · exact ih (row + 1)

theorem length_starts (ls : List Line) (row : Nat) :
    (ls.filterMap record).length = (starts ls row).length := by
  induction ls generalizing row with
  | nil => rfl
  | cons l ls ih =>
    have rest := ih (row + 1)
    cases known : l.record <;> simp_all [starts]

end Line

namespace Queue

variable {records rest : List (Nat × Record)} {row : Nat} {r : Record}

/-- A row takes the record that is the only one on it, or an empty one where there is none. -/
theorem lookup_reverse_getD (perm : records.Perm ([(row, r)].filter (!·.2.isEmpty) ++ rest))
    (off : ∀ e ∈ rest, e.1 ≠ row) : (records.reverse.lookup row).getD {} = r := by
  have own : ∀ x, (row, x) ∈ records.reverse ↔ r.isEmpty = false ∧ x = r := by
    intro x
    rw [List.mem_reverse, perm.mem_iff, List.mem_append, List.mem_filter]
    constructor
    · rintro (⟨mem, speaks⟩ | stray)
      · obtain rfl : x = r := by simpa using mem
        exact ⟨by simpa using speaks, rfl⟩
      · exact absurd rfl (off _ stray)
    · rintro ⟨speaks, rfl⟩
      exact .inl ⟨List.mem_singleton_self _, by simp [speaks]⟩
  cases found : records.reverse.lookup row with
  | none =>
    have silent : ¬ r.isEmpty = false := by
      intro speaks
      have absent := List.lookup_eq_none_iff.1 found (row, r) ((own r).2 ⟨speaks, rfl⟩)
      simp at absent
    exact (Record.isEmpty_iff.1 (by simpa using silent)).symm
  | some x =>
    obtain ⟨front, back, split, _⟩ := List.lookup_eq_some_iff.1 found
    have mem : (row, x) ∈ records.reverse := by simp [split]
    exact ((own x).1 mem).2

theorem filter_perm (perm : records.Perm ([(row, r)].filter (!·.2.isEmpty) ++ rest))
    (off : ∀ e ∈ rest, e.1 ≠ row) : (records.filter (·.1 ≠ row)).Perm rest := by
  have kept : rest.filter (·.1 ≠ row) = rest :=
    List.filter_eq_self.2 fun e mem => decide_eq_true (off e mem)
  have own : ([(row, r)].filter (!·.2.isEmpty)).filter (·.1 ≠ row) = [] := by
    rw [List.filter_eq_nil_iff]
    intro e mem
    obtain rfl := List.mem_singleton.1 (List.mem_filter.1 mem).1
    simp
  have filtered := perm.filter (·.1 ≠ row)
  rwa [List.filter_append, own, kept] at filtered

/-- The records of consumers, found in any order and among others on rows without a consumer, are
aligned with their rows. -/
theorem alignedRecords_of_perm {strays : List (Nat × Record)} {rows : List Nat} {rs : List Record}
    (distinct : rows.Nodup) (length : rs.length = rows.length) (off : ∀ e ∈ strays, e.1 ∉ rows)
    (perm : records.Perm ((rows.zip rs).filter (!·.2.isEmpty) ++ strays)) :
    alignedRecords records rows = rs := by
  induction rows generalizing rs records with
  | nil => exact (List.eq_nil_of_length_eq_zero length).symm
  | cons row rows ih =>
    obtain ⟨r, rs, rfl⟩ := List.exists_cons_of_length_eq_add_one length
    obtain ⟨fresh, distinct⟩ := List.nodup_cons.1 distinct
    have others : ∀ e ∈ (rows.zip rs).filter (!·.2.isEmpty) ++ strays, e.1 ≠ row := by
      rintro e mem rfl
      rcases List.mem_append.1 mem with later | stray
      · exact fresh (List.of_mem_zip (List.mem_filter.1 later).1).1
      · exact off e stray List.mem_cons_self
    have split : ((row :: rows).zip (r :: rs)).filter (!·.2.isEmpty) =
        [(row, r)].filter (!·.2.isEmpty) ++ (rows.zip rs).filter (!·.2.isEmpty) := by
      rw [← List.filter_append]
      rfl
    rw [split, List.append_assoc] at perm
    have later : ∀ e ∈ strays, e.1 ∉ rows := fun e mem => List.not_mem_of_not_mem_cons (off e mem)
    have tail := ih distinct (Nat.succ.inj length) later (filter_perm perm others)
    rw [alignedRecords, lookup_reverse_getD perm others, tail]

/-- The records of the lines of a program come back to the rows on which consumers start. -/
theorem alignedRecords_spoken (ls : List Line) (row : Nat) :
    alignedRecords (Line.spoken ls row) (Line.starts ls row) = ls.filterMap Line.record := by
  have found : (Line.spoken ls row).Perm
      (((Line.starts ls row).zip (ls.filterMap Line.record)).filter (!·.2.isEmpty) ++ []) := by
    rw [List.append_nil, Line.spoken]
  exact alignedRecords_of_perm (Line.nodup_starts ls row) (Line.length_starts ls row) (by simp) found

end Queue

end Interlingua

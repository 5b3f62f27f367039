import Interlingua.Text.Find
import Interlingua.Text.Lines

/-!
# Occurrences, ends and lines of a text

A needle occurs in a text when it is an infix of it. What is said here of `cutLast`, `trim` and
`splitOn` is what a text composed of known parts gives.
-/

namespace Interlingua.Text

theorem stripFront_eq_some {front cs rest : List Char} :
    stripFront front cs = some rest ↔ cs = front ++ rest := by
  fun_induction stripFront front cs with
  | case1 cs => simp [eq_comm]
  | case2 => simp
  | case3 front c cs ih => simp [ih]
  | case4 f front c cs ne =>
    simp only [List.cons_append, List.cons.injEq, reduceCtorEq, false_iff, not_and]
    exact fun e => absurd e.symm ne

theorem stripFront_append (front rest : List Char) : stripFront front (front ++ rest) = some rest :=
  stripFront_eq_some.2 rfl

theorem startsWith_iff {front cs : List Char} : startsWith front cs = true ↔ front <+: cs := by
  rw [startsWith, Option.isSome_iff_exists]
  exact ⟨fun ⟨rest, h⟩ => ⟨rest, (stripFront_eq_some.1 h).symm⟩,
    fun ⟨rest, h⟩ => ⟨rest, stripFront_eq_some.2 h.symm⟩⟩

theorem stripBack_eq_some {back cs rest : List Char} :
    stripBack back cs = some rest ↔ cs = rest ++ back := by
  rw [stripBack, Option.map_eq_some_iff]
  constructor
  · rintro ⟨before, h, rfl⟩
    have reversed := congrArg List.reverse (stripFront_eq_some.1 h)
    simpa using reversed
  · rintro rfl
    exact ⟨rest.reverse, stripFront_eq_some.2 (by simp), by simp⟩

theorem eq_of_cutLast {needle cs before after : List Char}
    (h : cutLast needle cs = some (before, after)) : cs = before ++ needle ++ after := by
  induction cs generalizing before after with
  | nil => simp [cutLast] at h
  | cons c cs ih =>
    rw [cutLast] at h
    split at h
    · next found =>
      simp only [Option.some.injEq, Prod.mk.injEq] at h
      obtain ⟨rfl, rfl⟩ := h
      simp [ih found]
    · obtain ⟨rest, found, h⟩ := Option.map_eq_some_iff.1 h
      simp only [Prod.mk.injEq] at h
      obtain ⟨rfl, rfl⟩ := h
      simpa using stripFront_eq_some.1 found

theorem cutLast_eq_none {needle : List Char} {cs : List Char} (h : ¬ needle <:+: cs) :
    cutLast needle cs = none := by
  cases found : cutLast needle cs with
  | none => rfl
  | some parts =>
    obtain ⟨before, after⟩ := parts
    exact absurd ⟨before, after, (eq_of_cutLast found).symm⟩ h

theorem not_infix_of_cutLast {needle cs : List Char} (full : needle ≠ [])
    (h : cutLast needle cs = none) : ¬ needle <:+: cs := by
  induction cs with
  | nil => simpa using full
  | cons c cs ih =>
    rw [cutLast] at h
    split at h
    · cases h
    · next none =>
      rw [List.infix_cons_iff, not_or]
      refine ⟨fun starts => ?_, ih none⟩
      have found : startsWith needle (c :: cs) = true := startsWith_iff.2 starts
      rw [startsWith, Option.map_eq_none_iff.1 h] at found
      cases found

/-- A needle is cut at its last occurrence. -/
theorem length_le_of_cutLast {needle cs before after : List Char} (full : needle ≠ [])
    (h : cutLast needle cs = some (before, after)) {front back : List Char}
    (occurs : cs = front ++ needle ++ back) : front.length ≤ before.length := by
  induction cs generalizing before after front with
  | nil => cases h
  | cons c cs ih =>
    cases front with
    | nil => exact Nat.zero_le _
    | cons f front =>
      have later : cs = front ++ needle ++ back := (List.cons.inj occurs).2
      rw [cutLast] at h
      split at h
      · next found =>
        cases h
        exact Nat.succ_le_succ (ih found later)
      · next none => exact absurd ⟨front, back, later.symm⟩ (not_infix_of_cutLast full none)

theorem cutLast_eq_some_iff {needle cs before after : List Char} (full : needle ≠ []) :
    cutLast needle cs = some (before, after) ↔ cs = before ++ needle ++ after ∧
      ∀ front back, cs = front ++ needle ++ back → front.length ≤ before.length := by
  constructor
  · exact fun h => ⟨eq_of_cutLast h, fun front back => length_le_of_cutLast full h⟩
  · rintro ⟨whole, last⟩
    cases found : cutLast needle cs with
    | none => exact absurd ⟨before, after, whole.symm⟩ (not_infix_of_cutLast full found)
    | some cut =>
      obtain ⟨front, back⟩ := cut
      have same := eq_of_cutLast found
      have length : front.length = before.length :=
        Nat.le_antisymm (last front back same) (length_le_of_cutLast full found whole)
      rw [List.append_assoc] at whole same
      obtain ⟨rfl, rest⟩ := List.append_inj (same.symm.trans whole) length
      rw [List.append_cancel_left rest]

/-- The last occurrence is the one after which the needle starts no more. -/
theorem cutLast_append {needle after : List Char} (n : Char) (rest : List Char)
    (start : needle = n :: rest) (h : ¬ needle <:+: rest ++ after) (before : List Char) :
    cutLast needle (before ++ needle ++ after) = some (before, after) := by
  induction before with
  | nil =>
    subst start
    have found := stripFront_append (n :: rest) after
    rw [List.cons_append] at found
    rw [List.nil_append, List.cons_append, cutLast, cutLast_eq_none h, found]
    rfl
  | cons c before ih => rw [List.cons_append, List.cons_append, cutLast, ih]

section

variable {needle : List Char}

/-- A character that is not in the needle separates its occurrences. -/
theorem infix_append_cons {c : Char} (h : c ∉ needle) {xs ys : List Char}
    (occurs : needle <:+: xs ++ c :: ys) : needle <:+: xs ∨ needle <:+: ys := by
  rcases List.infix_append_iff.1 occurs with first | second | ⟨front, back, rfl, _, prefixed⟩
  · exact .inl first
  · rcases List.infix_cons_iff.1 second with prefixed | second
    · rcases List.prefix_cons_iff.1 prefixed with rfl | ⟨rest, rfl, _⟩
      · exact .inl List.nil_infix
      · exact absurd List.mem_cons_self h
    · exact .inr second
  · rcases List.prefix_cons_iff.1 prefixed with rfl | ⟨rest, rfl, _⟩
    · rename_i suffixed
      exact .inl (by simpa using suffixed.isInfix)
    · exact absurd (by simp) h

/-- A needle does not start in a text without its first character. -/
theorem infix_of_infix_append {n : Char} {rest : List Char} {xs ys : List Char} (h : n ∉ xs)
    (occurs : n :: rest <:+: xs ++ ys) : n :: rest <:+: ys := by
  induction xs with
  | nil => exact occurs
  | cons x xs ih =>
    simp only [List.mem_cons, not_or] at h
    rcases List.infix_cons_iff.1 occurs with prefixed | later
    · exact absurd (List.cons_prefix_cons.1 prefixed).1 h.1
    · exact ih h.2 later

theorem not_infix_of_notMem {n : Char} {rest xs : List Char} (h : n ∉ xs) : ¬ n :: rest <:+: xs :=
  fun occurs => h (occurs.subset List.mem_cons_self)

/-- A needle that occurs in escaped text occurs in the text itself, if no escape has its first
character or ends in the middle of it. -/
theorem infix_of_infix_flatMap {escape : Char → List Char} {n : Char} {rest : List Char}
    (plain : ∀ c, escape c = [c] ∨ (escape c).head? = some '\\' ∧ n ∉ escape c)
    (h : '\\' ∉ n :: rest) {cs : List Char} (occurs : n :: rest <:+: cs.flatMap escape) :
    n :: rest <:+: cs := by
  have front : ∀ (needle cs : List Char), '\\' ∉ needle → needle <+: cs.flatMap escape →
      needle <+: cs := by
    intro needle cs h prefixed
    induction cs generalizing needle with
    | nil => exact prefixed
    | cons c cs ih =>
      rw [List.flatMap_cons] at prefixed
      rcases plain c with same | ⟨slash, _⟩
      · rw [same] at prefixed
        rcases List.prefix_cons_iff.1 prefixed with rfl | ⟨tail, rfl, inner⟩
        · exact List.nil_prefix
        · exact List.cons_prefix_cons.2 ⟨rfl, ih tail (fun mem => h (List.mem_cons_of_mem _ mem)) inner⟩
      · obtain ⟨tail, escaped⟩ : ∃ tail, escape c = '\\' :: tail := by
          cases e : escape c <;> simp_all
        rw [escaped] at prefixed
        rcases List.prefix_cons_iff.1 prefixed with rfl | ⟨_, rfl, _⟩
        · exact List.nil_prefix
        · exact absurd List.mem_cons_self h
  induction cs with
  | nil => exact occurs
  | cons c cs ih =>
    have prefixed := front (n :: rest) (c :: cs) h
    rw [List.flatMap_cons] at occurs prefixed
    rcases plain c with same | ⟨_, without⟩
    · rw [same] at occurs prefixed
      rcases List.infix_cons_iff.1 occurs with start | later
      · exact (prefixed start).isInfix
      · exact (ih later).trans (List.suffix_cons c cs).isInfix
    · exact (ih (infix_of_infix_append without occurs)).trans (List.suffix_cons c cs).isInfix

end

/-! Counting. -/

theorem count_eq_zero {needle cs : List Char} (h : ¬ needle <:+: cs) : count needle cs = 0 := by
  unfold count
  induction cs with
  | nil => rfl
  | cons c cs ih =>
    rw [List.infix_cons_iff, not_or] at h
    have absent : startsWith needle (c :: cs) = false :=
      Bool.eq_false_iff.2 fun found => h.1 (startsWith_iff.1 found)
    rw [countFrom, absent]
    exact ih h.2

theorem count_append_of_notMem {n : Char} {needle xs : List Char} (h : n ∉ xs) (ys : List Char) :
    count (n :: needle) (xs ++ ys) = count (n :: needle) ys := by
  unfold count
  induction xs with
  | nil => rfl
  | cons x xs ih =>
    simp only [List.mem_cons, not_or] at h
    have other : startsWith (n :: needle) (x :: (xs ++ ys)) = false := by
      simp [startsWith, stripFront, h.1]
    rw [List.cons_append, countFrom, other, if_neg Bool.false_ne_true, ih h.2]

/-! Blanks at the ends. -/

/-- A text ends in a character that is not blank. -/
def EndsIn (c : Char) (cs : List Char) : Prop :=
  cs.getLast? = some c ∧ isBlank c = false

theorem trimStart_append {blanks : List Char} (h : ∀ b ∈ blanks, isBlank b = true) (cs : List Char) :
    trimStart (blanks ++ cs) = trimStart cs :=
  List.dropWhile_append_of_pos h

theorem trimStart_cons {c : Char} (visible : isBlank c = false) (cs : List Char) :
    trimStart (c :: cs) = c :: cs :=
  List.dropWhile_cons_of_neg (by simp [visible])

theorem trimEnd_of_endsIn {c : Char} {cs : List Char} (h : EndsIn c cs) : trimEnd cs = cs := by
  obtain ⟨before, rfl⟩ := List.getLast?_eq_some_iff.1 h.1
  simp [trimEnd, h.2]

theorem trimEnd_space (cs : List Char) : trimEnd (cs ++ [' ']) = trimEnd cs := by
  have blank : isBlank ' ' = true := by decide
  simp [trimEnd, blank]

theorem endsIn_append {c : Char} (before : List Char) {cs : List Char} (h : EndsIn c cs) :
    EndsIn c (before ++ cs) :=
  ⟨by simp [h.1], h.2⟩

theorem endsIn_of_append {c : Char} (before : List Char) {cs : List Char} (nonempty : cs ≠ [])
    (h : EndsIn c (before ++ cs)) : EndsIn c cs := by
  obtain ⟨last, visible⟩ := h
  rw [List.getLast?_append, List.getLast?_eq_some_getLast nonempty, Option.some_or] at last
  exact ⟨(List.getLast?_eq_some_getLast nonempty).trans last, visible⟩

theorem endsIn_trim {c : Char} {cs : List Char} (h : EndsIn c cs) : EndsIn c (trim cs) := by
  suffices inner : EndsIn c (trimStart cs) by rwa [trim, trimEnd_of_endsIn inner]
  induction cs with
  | nil => simp [EndsIn] at h
  | cons d cs ih =>
    rw [trimStart]
    by_cases blank : isBlank d
    · rw [List.dropWhile_cons_of_pos blank]
      cases cs with
      | nil =>
        obtain ⟨last, visible⟩ := h
        simp_all
      | cons e cs => exact ih (endsIn_of_append [d] (by simp) h)
    · rw [List.dropWhile_cons_of_neg blank]
      exact h

theorem trim_of_visible {c d : Char} {cs : List Char} (first : isBlank d = false)
    (h : EndsIn c (d :: cs)) : trim (d :: cs) = d :: cs := by
  rw [trim, trimStart_cons first, trimEnd_of_endsIn h]

/-! Lines. -/

theorem splitOn_ne_nil (sep : Char) (cs : List Char) : splitOn sep cs ≠ [] := by
  cases cs with
  | nil => simp [splitOn]
  | cons c cs =>
    rw [splitOn]
    split
    · simp
    · cases splitOn sep cs <;> simp [consHead]

theorem splitOn_append (sep : Char) (front back : List Char) :
    splitOn sep (front ++ sep :: back) = splitOn sep front ++ splitOn sep back := by
  induction front with
  | nil => simp [splitOn]
  | cons c front ih =>
    rw [List.cons_append, splitOn, splitOn]
    split
    · rw [ih, List.cons_append]
    · obtain ⟨part, parts, shown⟩ := List.exists_cons_of_ne_nil (splitOn_ne_nil sep front)
      rw [ih, shown, List.cons_append, consHead, consHead, List.cons_append]

theorem splitOn_of_notMem {sep : Char} {cs : List Char} (h : sep ∉ cs) : splitOn sep cs = [cs] := by
  induction cs with
  | nil => rfl
  | cons c cs ih =>
    simp only [List.mem_cons, not_or] at h
    simp [splitOn, Ne.symm h.1, ih h.2, consHead]

theorem splitOn_append_cons {sep : Char} {cs : List Char} (h : sep ∉ cs) (rest : List Char) :
    splitOn sep (cs ++ sep :: rest) = cs :: splitOn sep rest := by
  rw [splitOn_append, splitOn_of_notMem h, List.singleton_append]

/-- A part has no separator, and only characters of the text. -/
theorem of_mem_splitOn {sep : Char} {cs part : List Char} (h : part ∈ splitOn sep cs) :
    sep ∉ part ∧ part ⊆ cs := by
  induction cs generalizing part with
  | nil => simp_all [splitOn]
  | cons c cs ih =>
    rw [splitOn] at h
    split at h
    · rcases List.mem_cons.1 h with rfl | later
      · simp
      · exact ⟨(ih later).1, List.subset_cons_of_subset c (ih later).2⟩
    · next other =>
      obtain ⟨first, parts, shown⟩ := List.exists_cons_of_ne_nil (splitOn_ne_nil sep cs)
      rw [shown] at h ih
      rcases List.mem_cons.1 h with rfl | later
      · obtain ⟨unbroken, inside⟩ := ih List.mem_cons_self
        exact ⟨by simp [Ne.symm other, unbroken], List.cons_subset_cons c inside⟩
      · obtain ⟨unbroken, inside⟩ := ih (List.mem_cons_of_mem first later)
        exact ⟨unbroken, List.subset_cons_of_subset c inside⟩

/-- There is one part more than there are separators. -/
theorem length_splitOn (sep : Char) (cs : List Char) :
    (splitOn sep cs).length = cs.count sep + 1 := by
  induction cs with
  | nil => rfl
  | cons c cs ih =>
    rw [splitOn]
    split
    · next same => rw [List.length_cons, ih, same, List.count_cons_self]
    · next other =>
      obtain ⟨part, parts, shown⟩ := List.exists_cons_of_ne_nil (splitOn_ne_nil sep cs)
      rw [List.count_cons_of_ne other, ← ih, shown]
      rfl

theorem joinLines_splitOn (cs : List Char) : joinLines (splitOn '\n' cs) = cs := by
  induction cs with
  | nil => rfl
  | cons c cs ih =>
    obtain ⟨part, parts, shown⟩ := List.exists_cons_of_ne_nil (splitOn_ne_nil '\n' cs)
    rw [shown] at ih
    rw [splitOn, shown]
    split
    · next same =>
      rw [same, ← ih, joinLines, List.intercalate_cons_cons]
      rfl
    · rw [← ih]
      cases parts <;> simp [consHead, joinLines]

theorem joinLines_concat {front : List (List Char)} (h : front ≠ []) (last : List Char) :
    joinLines (front ++ [last]) = joinLines front ++ '\n' :: last := by
  induction front with
  | nil => exact absurd rfl h
  | cons line front ih =>
    cases front with
    | nil => simp [joinLines]
    | cons next front =>
      have rest := ih (List.cons_ne_nil next front)
      simp only [joinLines, List.cons_append, List.intercalate_cons_cons] at rest ⊢
      rw [rest]
      simp

/-- The lines that were joined, if there were any. -/
theorem splitOn_joinLines {line : List Char} {ls : List (List Char)}
    (h : ∀ l ∈ line :: ls, '\n' ∉ l) : splitOn '\n' (joinLines (line :: ls)) = line :: ls := by
  induction ls generalizing line with
  | nil => simpa [joinLines] using splitOn_of_notMem (h line List.mem_cons_self)
  | cons next ls ih =>
    have first := splitOn_append_cons (h line List.mem_cons_self)
      (joinLines (next :: ls))
    rw [ih fun l mem => h l (List.mem_cons_of_mem _ mem)] at first
    simpa [joinLines] using first

end Interlingua.Text

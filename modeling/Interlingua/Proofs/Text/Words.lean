import Interlingua.Proofs.Text.Occurrences

/-!
# Words and neat texts

A word is made of letters, digits, underscores and dollar signs, and of whatever is not blank beyond
the characters of ASCII. A neat text fits on a line and does not end like a blank or a block.
-/

namespace Interlingua.Text

def isWordChar (c : Char) : Bool :=
  if c.toNat < 128 then c.isAlphanum || c = '_' || c = '$' else !isBlank c

def isWord (s : String) : Bool :=
  !s.toList.isEmpty && s.toList.all isWordChar

theorem isBlank_of_isWordChar {c : Char} (h : isWordChar c = true) : isBlank c = false := by
  have ascii : ∀ n < 128, isWordChar (Char.ofNat n) = true → isBlank (Char.ofNat n) = false := by
    decide +kernel
  by_cases small : c.toNat < 128
  · have own := ascii c.toNat small
    rw [Char.ofNat_toNat] at own
    exact own h
  · simpa [isWordChar, small] using h

theorem ne_of_isWordChar {c d : Char} (h : isWordChar c = true) (other : isWordChar d = false) :
    c ≠ d := by
  rintro rfl
  simp [h] at other

theorem isWord_iff {s : String} :
    isWord s = true ↔ s.toList ≠ [] ∧ ∀ c ∈ s.toList, isWordChar c = true := by
  simp [isWord]

/-- The words between blanks are parts of the text. -/
theorem words_spec (cs : List Char) :
    (∀ w ∈ words cs, w <:+: cs ∧ ∀ c ∈ w, isBlank c = false) ∧
      (cs.head?.any (!isBlank ·) = true → ∃ w ws, words cs = w :: ws ∧ w <+: cs) := by
  fun_induction words cs with
  | case1 => simp
  | case2 c blank => simp [blank]
  | case3 c visible => simp [visible]
  | case4 c d cs blank ih =>
    refine ⟨fun w mem => ?_, by simp [blank]⟩
    exact ⟨(ih.1 w mem).1.trans (List.suffix_cons c _).isInfix, (ih.1 w mem).2⟩
  | case5 c d cs visible blank ih =>
    refine ⟨List.forall_mem_cons.2 ⟨⟨?_, by simpa using visible⟩, fun w mem => ?_⟩, fun _ => ?_⟩
    · exact (List.prefix_append [c] (d :: cs)).isInfix
    · exact ⟨(ih.1 w mem).1.trans (List.suffix_cons c _).isInfix, (ih.1 w mem).2⟩
    · exact ⟨[c], _, rfl, List.prefix_append [c] (d :: cs)⟩
  | case6 c d cs visible inner ih =>
    obtain ⟨w, ws, found, starts⟩ := ih.2 (by simp [inner])
    rw [found] at ih ⊢
    obtain ⟨⟨-, letters⟩, others⟩ := List.forall_mem_cons.1 ih.1
    have longer : c :: w <+: c :: d :: cs := (List.prefix_cons_inj c).2 starts
    refine ⟨List.forall_mem_cons.2 ⟨⟨longer.isInfix, ?_⟩, fun v mem => ?_⟩, fun _ => ?_⟩
    · exact List.forall_mem_cons.2 ⟨by simpa using visible, letters⟩
    · exact ⟨(others v mem).1.trans (List.suffix_cons c _).isInfix, (others v mem).2⟩
    · exact ⟨c :: w, ws, rfl, longer⟩

/-- What occurs on one line occurs in the text, if there is no space in it. -/
theorem infix_of_infix_collapse {needle cs : List Char} (h : ' ' ∉ needle) (full : needle ≠ [])
    (occurs : needle <:+: collapse cs) : needle <:+: cs := by
  suffices inside : ∀ ws : List (List Char), needle <:+: [' '].intercalate ws →
      ∃ w ∈ ws, needle <:+: w by
    obtain ⟨w, mem, found⟩ := inside (words cs) occurs
    exact found.trans ((words_spec cs).1 w mem).1
  intro ws found
  induction ws with
  | nil => simp_all
  | cons w ws ih =>
    cases ws with
    | nil => exact ⟨w, by simp, by simpa using found⟩
    | cons v ws =>
      rw [List.intercalate_cons_cons, List.append_assoc, List.singleton_append] at found
      rcases infix_append_cons h found with first | later
      · exact ⟨w, by simp, first⟩
      · obtain ⟨u, mem, inner⟩ := ih later
        exact ⟨u, List.mem_cons_of_mem w mem, inner⟩

theorem eq_space_or_of_mem_collapse {c : Char} {cs : List Char} (h : c ∈ collapse cs) :
    c = ' ' ∨ isBlank c = false := by
  suffices inside : ∀ ws : List (List Char), c ∈ [' '].intercalate ws → c = ' ' ∨ ∃ w ∈ ws, c ∈ w by
    rcases inside (words cs) h with space | ⟨w, mem, found⟩
    · exact .inl space
    · exact .inr (((words_spec cs).1 w mem).2 c found)
  intro ws found
  induction ws with
  | nil => simp at found
  | cons w ws ih =>
    cases ws with
    | nil => exact .inr ⟨w, by simp, by simpa using found⟩
    | cons v ws =>
      rw [List.intercalate_cons_cons, List.mem_append, List.mem_append, List.mem_singleton] at found
      rcases found with (first | space) | later
      · exact .inr ⟨w, by simp, first⟩
      · exact .inl space
      · rcases ih later with space | ⟨u, mem, inner⟩
        · exact .inl space
        · exact .inr ⟨u, List.mem_cons_of_mem w mem, inner⟩

theorem notMem_of_isWord {s : String} (h : isWord s = true) {d : Char}
    (other : isWordChar d = false) : d ∉ s.toList :=
  fun mem => ne_of_isWordChar ((isWord_iff.1 h).2 d mem) other rfl

/-- A text on one line that ends in a character that is neither blank nor a brace. -/
structure Neat (cs : List Char) : Prop where
  unbroken : '\n' ∉ cs
  ends : ∃ c, EndsIn c cs ∧ c ≠ '\x7d'

namespace Neat

theorem append {front back : List Char} (h : '\n' ∉ front) (neat : Neat back) :
    Neat (front ++ back) where
  unbroken := by simp [h, neat.unbroken]
  ends := by
    obtain ⟨c, ends, brace⟩ := neat.ends
    exact ⟨c, endsIn_append front ends, brace⟩

theorem concat {front : List Char} (h : '\n' ∉ front) (c : Char)
    (visible : c ≠ '\n' ∧ isBlank c = false ∧ c ≠ '\x7d') : Neat (front ++ [c]) where
  unbroken := by simp [h, Ne.symm visible.1]
  ends := ⟨c, ⟨by simp, visible.2.1⟩, visible.2.2⟩

/-- A text without blanks and braces. -/
theorem of_forall {cs : List Char} (nonempty : cs ≠ [])
    (h : ∀ c ∈ cs, isBlank c = false ∧ c ≠ '\x7d') : Neat cs where
  unbroken mem := absurd (h '\n' mem).1 (by decide)
  ends := by
    have last := List.getLast?_eq_some_getLast nonempty
    obtain ⟨visible, brace⟩ := h _ (List.getLast_mem nonempty)
    exact ⟨_, ⟨last, visible⟩, brace⟩

theorem of_all {cs : List Char} (nonempty : cs ≠ [])
    (h : cs.all (fun c => !isBlank c && c != '\x7d') = true) : Neat cs :=
  of_forall nonempty (by simpa using h)

theorem of_isWord {s : String} (h : isWord s = true) : Neat s.toList :=
  of_forall (isWord_iff.1 h).1 fun c mem =>
    have word := (isWord_iff.1 h).2 c mem
    ⟨isBlank_of_isWordChar word, ne_of_isWordChar word (by decide)⟩

end Neat

end Interlingua.Text

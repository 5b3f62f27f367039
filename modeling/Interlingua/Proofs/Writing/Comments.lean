import Interlingua.Dialect.Applicative
import Interlingua.Proofs.Text.Words

/-!
# Descriptions inside comments

What could not be written is described in a comment. The description is any text, so what could end the
comment is taken apart by a space. Where comments nest, this is half of what is needed: what opens
another comment stays, and every such place leaves the comment open by one more level.
-/

namespace Interlingua

namespace Text

section

variable {a b : Char}

theorem startsWith_pair (c : Char) (cs : List Char) :
    startsWith [a, b] (c :: cs) = true ↔ c = a ∧ cs.head? = some b := by
  rw [startsWith_iff, List.cons_prefix_cons, List.singleton_prefix_iff_head?_eq_some]
  exact and_congr_left fun _ => eq_comm

/-- Two different characters in a row are counted wherever they stand: no two such places overlap. -/
theorem count_pair_cons (ne : a ≠ b) (c : Char) (cs : List Char) :
    count [a, b] (c :: cs) = count [a, b] cs + if c = a ∧ cs.head? = some b then 1 else 0 := by
  rw [count, countFrom]
  by_cases h : c = a ∧ cs.head? = some b
  · obtain ⟨rest, rfl⟩ := List.head?_eq_some_iff.1 h.2
    have other : startsWith [a, b] (b :: rest) = false :=
      Bool.eq_false_iff.2 fun starts => ne ((startsWith_pair b rest).1 starts).1.symm
    rw [if_pos ((startsWith_pair c _).2 h), if_pos h, count, countFrom, other]
    rfl
  · rw [if_neg (mt (startsWith_pair c cs).1 h), if_neg h]
    rfl

theorem count_pair_cons_eq_zero_iff (ne : a ≠ b) {c : Char} {cs : List Char} :
    count [a, b] (c :: cs) = 0 ↔ ¬ (c = a ∧ cs.head? = some b) ∧ count [a, b] cs = 0 := by
  rw [count_pair_cons ne, Nat.add_eq_zero_iff, and_comm]
  simp

theorem count_pair_eq_zero_iff (ne : a ≠ b) (cs : List Char) :
    count [a, b] cs = 0 ↔ ¬ [a, b] <:+: cs := by
  induction cs with
  | nil => simp [count, countFrom]
  | cons c cs ih =>
    rw [count_pair_cons_eq_zero_iff ne, ih, List.infix_cons_iff, not_or, ← startsWith_iff,
      startsWith_pair]

theorem head?_append_space {text : List Char} {c : Char} (visible : c ≠ ' ') (rest : List Char) :
    (text ++ ' ' :: rest).head? = some c ↔ text.head? = some c := by
  cases text <;> simp [Ne.symm visible]

/-- Two characters are taken apart wherever they stand in a row. -/
theorem replace_pair_cons (ne : a ≠ b) (between c : Char) (cs : List Char) :
    replace [a, b] [a, between, b] (c :: cs) =
      c :: if c = a ∧ cs.head? = some b then between :: replace [a, b] [a, between, b] cs
        else replace [a, b] [a, between, b] cs := by
  rw [replace, replaceFrom]
  by_cases h : c = a ∧ cs.head? = some b
  · obtain ⟨rest, rfl⟩ := List.head?_eq_some_iff.1 h.2
    have other : startsWith [a, b] (b :: rest) = false :=
      Bool.eq_false_iff.2 fun starts => ne ((startsWith_pair b rest).1 starts).1.symm
    rw [if_pos ((startsWith_pair c _).2 h), if_pos h, replace, replaceFrom, other, h.1]
    rfl
  · rw [if_neg (mt (startsWith_pair c cs).1 h), if_neg h]
    rfl

theorem head?_replace_pair (ne : a ≠ b) (between : Char) (cs : List Char) :
    (replace [a, b] [a, between, b] cs).head? = cs.head? := by
  cases cs with
  | nil => rfl
  | cons c cs => rw [replace_pair_cons ne]; rfl

/-- What has been taken apart does not stand in a row any more. -/
theorem count_replace_pair_self (ne : a ≠ b) {between : Char} (ha : between ≠ a) (hb : between ≠ b)
    (cs : List Char) : count [a, b] (replace [a, b] [a, between, b] cs) = 0 := by
  induction cs with
  | nil => rfl
  | cons c cs ih =>
    rw [replace_pair_cons ne, count_pair_cons ne]
    by_cases h : c = a ∧ cs.head? = some b
    · simp [h, count_pair_cons ne, ih, ha, hb]
    · simp [h, head?_replace_pair ne, ih]

/-- Another pair stands in a row where it did before. -/
theorem count_replace_pair_of_ne (ne : a ≠ b) {between x y : Char} (hxy : x ≠ y) (hx : between ≠ x)
    (hy : between ≠ y) (other : ¬ (a = x ∧ b = y)) (cs : List Char) :
    count [x, y] (replace [a, b] [a, between, b] cs) = count [x, y] cs := by
  induction cs with
  | nil => rfl
  | cons c cs ih =>
    rw [replace_pair_cons ne, count_pair_cons hxy, count_pair_cons hxy c cs]
    by_cases h : c = a ∧ cs.head? = some b
    · simp [h, count_pair_cons hxy, ih, hx, hy, other]
    · simp [h, head?_replace_pair ne, ih]

/-- Of the blanks between two words a single space is left. -/
theorem collapse_cons (c : Char) (cs : List Char) :
    collapse (c :: cs) =
      if isBlank c then collapse cs
      else if cs.head?.any isBlank && words cs ≠ [] then c :: ' ' :: collapse cs
      else c :: collapse cs := by
  cases cs with
  | nil => by_cases blank : isBlank c = true <;> simp [collapse, words, blank]
  | cons d cs =>
    rw [collapse, words]
    by_cases blank : isBlank c = true
    · simp [blank, collapse]
    · by_cases inner : isBlank d = true
      · cases found : words (d :: cs) <;> simp [blank, inner, collapse, found]
      · obtain ⟨w, ws, found, -⟩ := (words_spec (d :: cs)).2 (by simp [inner])
        cases ws <;> simp [blank, inner, collapse, found, consHead]

theorem count_collapse (ne : a ≠ b) (ha : isBlank a = false) (hb : isBlank b = false) (cs : List Char) :
    count [a, b] (collapse cs) = count [a, b] cs := by
  have space : ' ' ≠ a ∧ ' ' ≠ b := by
    constructor <;> rintro rfl <;> cases (by decide : isBlank ' ' = true).symm.trans ‹_›
  induction cs with
  | nil => rfl
  | cons c cs ih =>
    rw [collapse_cons, count_pair_cons ne c cs]
    by_cases blank : isBlank c = true
    · have other : c ≠ a := by
        rintro rfl
        cases blank.symm.trans ha
      simp [blank, other, ih]
    · rw [if_neg blank]
      cases cs with
      | nil => simp [count_pair_cons ne, collapse, words]
      | cons d cs =>
        by_cases inner : isBlank d = true
        · have other : d ≠ b := by
            rintro rfl
            cases inner.symm.trans hb
          rw [← ih]
          cases found : words (d :: cs) with
          | nil => simp [count_pair_cons ne c, collapse, found, other]
          | cons w ws => simp [inner, count_pair_cons ne c, count_pair_cons ne ' ', other, space]
        · have head : (collapse (d :: cs)).head? = some d := by
            rw [collapse_cons, if_neg inner]
            split <;> rfl
          simp [inner, count_pair_cons ne c, ih, head]

end

end Text

namespace Dialect.Haskell

open Text

def opener : List Char := ['\x7b', '-']

def closer : List Char := ['-', '\x7d']

/-- Read a text from inside a comment that is open by some levels: the levels that are left, and the
text behind the comment. Reading stops where the comment ends. -/
def nested : Nat → List Char → Nat × List Char
  | 0, cs => (0, cs)
  | level + 1, [] => (level + 1, [])
  | level + 1, '\x7b' :: '-' :: cs => nested (level + 2) cs
  | level + 1, '-' :: '\x7d' :: cs => nested level cs
  | level + 1, _ :: cs => nested (level + 1) cs

/-- A character where no comment ends. The second character of an opener is read again, which makes no
difference unless a comment ends there. -/
theorem nested_cons {c : Char} {cs : List Char} (level : Nat)
    (here : ¬ (c = '-' ∧ cs.head? = some '\x7d')) (next : ¬ closer <+: cs) :
    nested (level + 1) (c :: cs) =
      nested (level + 1 + if c = '\x7b' ∧ cs.head? = some '-' then 1 else 0) cs := by
  by_cases opens : c = '\x7b' ∧ cs.head? = some '-'
  · obtain ⟨rest, rfl⟩ := List.head?_eq_some_iff.1 opens.2
    rw [if_pos opens, opens.1, nested, nested]
    · exact fun _ brace => absurd brace (by decide)
    · rintro after - rfl
      exact next ⟨after, rfl⟩
  · rw [if_neg opens, nested]
    · rintro after rfl rfl
      exact opens ⟨rfl, rfl⟩
    · rintro after rfl rfl
      exact here ⟨rfl, rfl⟩

/-- A text in which no comment ends opens as many levels as there are openers in it. -/
theorem nested_append (level : Nat) {text : List Char} (kept : count closer text = 0)
    (rest : List Char) :
    nested (level + 1) (text ++ ' ' :: rest) =
      nested (level + 1 + count opener text) (' ' :: rest) := by
  have opens : '\x7b' ≠ '-' := by decide
  have closes : '-' ≠ '\x7d' := by decide
  induction text generalizing level with
  | nil => rfl
  | cons c text ih =>
    obtain ⟨here, kept⟩ := (count_pair_cons_eq_zero_iff closes).1 kept
    have next : ¬ closer <+: text ++ ' ' :: rest := by
      cases text with
      | nil => simp [closer]
      | cons d text =>
        have there := ((count_pair_cons_eq_zero_iff closes).1 kept).1
        rwa [List.cons_append, ← startsWith_iff, closer, startsWith_pair,
          head?_append_space (by decide)]
    have step := nested_cons (c := c) level (by rwa [head?_append_space (by decide)]) next
    simp only [head?_append_space (by decide : '-' ≠ ' ')] at step
    rw [List.cons_append, step, opener, count_pair_cons opens, Nat.add_right_comm level, ih _ kept,
      opener]
    congr 1
    omega

/-- What stands before the description in a comment that has been opened. -/
def lead : List Char :=
  [' ', 'u', 'n', 'k', 'n', 'o', 'w', 'n', ':', ' ']

section

variable (description : String)

/-- A description in which no comment ends. -/
def tamed : List Char :=
  (guarded "-\x7d" "- \x7d" description).toList

theorem tamed_eq : tamed description = replace closer ['-', ' ', '\x7d'] (collapse description.toList) :=
  String.toList_ofList

theorem count_closer_tamed : count closer (tamed description) = 0 := by
  rw [tamed_eq]
  exact count_replace_pair_self (by decide) (by decide) (by decide) _

theorem count_opener_tamed : count opener (tamed description) = count opener description.toList := by
  rw [tamed_eq, opener, closer, count_replace_pair_of_ne (by decide) (by decide) (by decide) (by decide)
    (by decide), count_collapse (by decide) (by decide) (by decide)]

/-- The comment that describes something unknown is open to the end of the text, and as many levels are
left there as there are openers in the description. -/
theorem nested_unknownExpr :
    ∃ body, Piece.text (haskell.unknownExpr description) = "undefined \x7b-" ++ body ∧
      nested 1 body.toList = (count opener description.toList, []) ∧
      (nested 1 body.toList = (0, []) ↔ ¬ opener <:+: description.toList) := by
  have unclosed : '-' ∉ lead := by decide
  have unopened : '\x7b' ∉ lead := by decide
  have kept : count closer (lead ++ tamed description) = 0 := by
    rw [closer, count_append_of_notMem unclosed]
    exact count_closer_tamed description
  have opened : count opener (lead ++ tamed description) = count opener description.toList := by
    rw [opener, count_append_of_notMem unopened]
    exact count_opener_tamed description
  have last (level : Nat) : nested (level + 1) (' ' :: closer) = (level, []) := by
    cases level <;> rfl
  have reached : nested 1 (lead ++ tamed description ++ ' ' :: closer) =
      (count opener description.toList, []) := by
    rw [nested_append 0 kept, opened, Nat.add_right_comm, last, Nat.zero_add]
  refine ⟨String.ofList (lead ++ tamed description ++ ' ' :: closer), ?_, ?_⟩
  · refine String.toList_inj.1 ?_
    simp [haskell, unknownExpr, Piece.text, Piece.inPlace, lead, tamed, closer]
  · have none := count_pair_eq_zero_iff (by decide : '\x7b' ≠ '-') description.toList
    rw [String.toList_ofList, reached]
    refine ⟨rfl, ?_⟩
    rw [Prod.mk.injEq]
    exact (and_iff_left rfl).trans none

end

/-- A description that opens a comment leaves the one around it open. -/
theorem nested_unknownExpr_unclosed :
    ∃ body, Piece.text (haskell.unknownExpr "a \x7b- b") = "undefined \x7b-" ++ body ∧
      nested 1 body.toList = (1, []) :=
  ⟨" unknown: a \x7b- b -\x7d", by decide +kernel, by decide +kernel⟩

end Dialect.Haskell

end Interlingua

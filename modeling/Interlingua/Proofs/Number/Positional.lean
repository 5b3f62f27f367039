import Interlingua.Proofs.Number.Reread
import Mathlib.Data.List.Basic
import Mathlib.Data.List.TakeWhile
import Mathlib.Data.Nat.Digits.Defs

/-!
# Whole numerals

A whole numeral has digits in one of four radixes, behind the mark of the radix, with separators among
them and the letters of a width behind them. It is read as the number that its digits denote in
positional notation where that fits in 64 bits. Where it does not, a decimal numeral is read as a
double, and any other is not read at all.
-/

namespace Interlingua

/-- The radixes of whole numerals. -/
inductive Base where
  | binary
  | octal
  | decimal
  | hexadecimal
  deriving DecidableEq

namespace Base

def radix : Base → Nat
  | binary => 2
  | octal => 8
  | decimal => 10
  | hexadecimal => 16

/-- What stands before the digits, in lower case. -/
def mark : Base → List Char
  | binary => ['0', 'b']
  | octal => ['0', 'o']
  | decimal => []
  | hexadecimal => ['0', 'x']

/-- The number that digits denote, the first digit the highest. -/
def value (base : Base) (digits : List Nat) : Nat :=
  Nat.ofDigits base.radix digits.reverse

theorem radix_le (base : Base) : base.radix ≤ 16 := by
  cases base <;> decide

end Base

/-- The digits that a text shows in a radix, in either case and with separators anywhere. -/
inductive Digits (radix : Nat) : List Char → List Nat → Prop
  | nil : Digits radix [] []
  | separator {cs : List Char} {ds : List Nat} : Digits radix cs ds → Digits radix ('_' :: cs) ds
  | digit {c : Char} {d : Nat} {cs : List Char} {ds : List Nat} : d < radix →
    c.toLower = Nat.digitChar d → Digits radix cs ds → Digits radix (c :: cs) (d :: ds)

/-- The text of a numeral with these digits. -/
inductive WholeNumeral (base : Base) (digits : List Nat) : List Char → Prop
  | intro {mark body suffix : List Char} : mark.map Char.toLower = base.mark →
    Digits base.radix body digits → digits ≠ [] → (∀ c ∈ suffix, c ∈ ['l', 'L', '_']) →
    WholeNumeral base digits (mark ++ body ++ suffix)

/-! Digits and their characters. -/

theorem digitChar_ne_separator {d : Nat} (h : d < 16) : Nat.digitChar d ≠ '_' := by
  have all : ∀ d < 16, Nat.digitChar d ≠ '_' := by decide
  exact all d h

theorem digitChar_notMem_width {d : Nat} (h : d < 16) : Nat.digitChar d ∉ ['l'] := by
  have all : ∀ d < 16, Nat.digitChar d ∉ ['l'] := by decide
  exact all d h

theorem Radix.digit?_digitChar {radix d : Nat} (h : d < radix) (small : radix ≤ 16) :
    digit? radix (Nat.digitChar d) = some d := by
  have all : ∀ d < 16, digit? 16 (Nat.digitChar d) = some d := by decide
  have own := all d (Nat.lt_of_lt_of_le h small)
  simp only [digit?, Option.filter_eq_some_iff] at own ⊢
  exact ⟨own.1, decide_eq_true h⟩

namespace Digits

variable {radix : Nat} {cs : List Char} {ds : List Nat}

theorem lt_radix (h : Digits radix cs ds) : ∀ d ∈ ds, d < radix := by
  induction h with
  | nil => simp
  | separator _ ih => exact ih
  | digit small _ _ ih => exact List.forall_mem_cons.2 ⟨small, ih⟩

theorem mono {larger : Nat} (h : Digits radix cs ds) (le : radix ≤ larger) : Digits larger cs ds := by
  induction h with
  | nil => exact .nil
  | separator _ ih => exact ih.separator
  | digit small shown _ ih => exact .digit (Nat.lt_of_lt_of_le small le) shown ih

/-- Without separators and in lower case there is one text for the digits. -/
theorem plain (h : Digits radix cs ds) (small : radix ≤ 16) :
    (cs.filter (· ≠ '_')).map Char.toLower = ds.map Nat.digitChar := by
  induction h with
  | nil => rfl
  | separator _ ih => simpa using ih
  | @digit c d cs ds below shown _ ih =>
    have visible : c ≠ '_' := by
      rintro rfl
      exact digitChar_ne_separator (Nat.lt_of_lt_of_le below small) shown.symm
    rw [List.filter_cons_of_pos (by simpa using visible), List.map_cons, shown, ih, List.map_cons]

end Digits

namespace Radix

variable {radix : Nat} {ds : List Nat} (h : ∀ d ∈ ds, d < radix) (small : radix ≤ 16)

include h small

/-- Reading digits one by one is Horner's scheme. -/
theorem natFrom?_digits (value : Nat) :
    natFrom? radix value (ds.map Nat.digitChar) =
      some (ds.foldl (fun value d => d + radix * value) value) := by
  induction ds generalizing value with
  | nil => rfl
  | cons d ds ih =>
    obtain ⟨first, others⟩ := List.forall_mem_cons.1 h
    rw [List.map_cons, natFrom?, digit?_digitChar first small, Option.bind_some, ih others,
      List.foldl_cons, Nat.mul_comm, Nat.add_comm]

theorem nat?_digits (some : ds ≠ []) :
    nat? radix (ds.map Nat.digitChar) = Option.some (Nat.ofDigits radix ds.reverse) := by
  have nonempty : (ds.map Nat.digitChar).isEmpty = false := by simp [some]
  rw [nat?, nonempty, if_neg Bool.false_ne_true, natFrom?_digits h small, Nat.ofDigits_eq_foldr,
    List.foldr_reverse]
  rfl

end Radix

namespace Literal

variable {ds : List Nat}

theorem isDigit_of_mem_digits (h : ∀ d ∈ ds, d < 10) :
    ∀ c ∈ ds.map Nat.digitChar, c.isDigit = true := by
  have all : ∀ d < 10, (Nat.digitChar d).isDigit = true := by decide
  rintro c mem
  obtain ⟨d, own, rfl⟩ := List.mem_map.1 mem
  exact all d (h d own)

/-- The value of decimal digits as the double reader computes it. -/
theorem digitsValue_digits (h : ∀ d ∈ ds, d < 10) :
    Decimal.digitsValue (ds.map Nat.digitChar) = Nat.ofDigits 10 ds.reverse := by
  have all : ∀ d < 10, (Nat.digitChar d).toNat - '0'.toNat = d := by decide
  rw [Decimal.digitsValue, List.foldl_map, Nat.ofDigits_eq_foldr, List.foldr_reverse]
  refine List.foldl_ext _ _ _ fun value d mem => ?_
  rw [all d (h d mem), Nat.add_comm, Nat.mul_comm]
  rfl

/-- Digits alone are a decimal without fraction and exponent. -/
theorem double?_of_isDigit {cs : List Char} (h : ∀ c ∈ cs, c.isDigit = true) (nonempty : cs ≠ []) :
    double? cs = some (Binary64.ofDecimal false (Decimal.digitsValue cs) 0) := by
  obtain ⟨c, rest, rfl⟩ := List.exists_cons_of_ne_nil nonempty
  have other {letter : Char} {letters : List Char} (no : letter.isDigit = false) :
      c :: rest ≠ letter :: letters := by
    intro same
    have first := h c List.mem_cons_self
    rw [List.head_eq_of_cons_eq same, no] at first
    cases first
  have unsigned : Decimal.takeSign (c :: rest) = (false, c :: rest) := by
    unfold Decimal.takeSign
    split
    · exact absurd ‹_› (other (by decide))
    · exact absurd ‹_› (other (by decide))
    · rfl
  have taken : Decimal.takeDigits (c :: rest) = (c :: rest, []) := by
    rw [Decimal.takeDigits, List.takeWhile_eq_self_iff.2 h, List.dropWhile_eq_nil_iff.2 h]
  have parsed : Decimal.parse? (c :: rest) = some ⟨c :: rest, none, none⟩ := by
    simp [Decimal.parse?, taken, Decimal.takeFraction, Decimal.takeExponent]
  have unnamed : c ≠ 'i' ∧ c ≠ 'n' := by
    constructor <;> (rintro rfl; exact other (by decide) rfl)
  simp [double?, unsigned, unnamed, parsed, Decimal.allDigits, Decimal.exponentOk, Decimal.toBinary64,
    Decimal.lastPlace, Decimal.shift]

end Literal

/-! Numerals. -/

namespace WholeNumeral

variable {base : Base} {digits : List Nat} {text : List Char}

theorem lt_radix (h : WholeNumeral base digits text) : ∀ d ∈ digits, d < base.radix := by
  cases h with
  | intro marked shown some letters => exact shown.lt_radix

theorem nonempty (h : WholeNumeral base digits text) : digits ≠ [] := by
  cases h with
  | intro marked shown some letters => exact some

/-- In lower case and without separators, a numeral is its mark, its digits and its width. -/
theorem plain (h : WholeNumeral base digits text) : ∃ width, (∀ c ∈ width, c = 'l') ∧
    (text.filter (· ≠ '_')).map Char.toLower =
      base.mark ++ (digits.map Nat.digitChar ++ width) := by
  cases h with
  | @intro mark body suffix marked shown some letters =>
    have unseparated : mark.filter (· ≠ '_') = mark := by
      refine List.filter_eq_self.2 fun c mem => decide_eq_true ?_
      rintro rfl
      have inside : '_' ∈ base.mark := marked ▸ List.mem_map_of_mem mem
      cases base <;> simp [Base.mark] at inside
    refine ⟨(suffix.filter (· ≠ '_')).map Char.toLower, ?_, ?_⟩
    · simp only [List.mem_map, List.mem_filter]
      rintro _ ⟨c, ⟨mem, visible⟩, rfl⟩
      have own := letters c mem
      simp only [List.mem_cons, List.not_mem_nil, or_false] at own
      rcases own with rfl | rfl | rfl
      · decide
      · decide
      · cases visible
    · rw [List.append_assoc, List.filter_append, List.filter_append, List.map_append, List.map_append,
        unseparated, marked, shown.plain base.radix_le]

end WholeNumeral

namespace Literal

/-- Behind the mark of a radix, only the letters of a width do not count. -/
theorem ofLower?_mark {base : Base} (h : base ≠ .decimal) (rest : List Char) :
    ofLower? (base.mark ++ rest) =
      (Radix.int64? base.radix (dropSuffixes ['l'] rest)).map int := by
  have marked : marked? (base.mark ++ rest) = some (base.radix, rest) := by
    cases base with
    | decimal => exact absurd rfl h
    | _ => rfl
  rw [ofLower?, marked]

section

variable {base : Base} {digits : List Nat} {text : List Char} (h : WholeNumeral base digits text)

include h

theorem int64?_value :
    Radix.int64? base.radix (digits.map Nat.digitChar) =
      if base.value digits < 2 ^ 63 then some (Int64.ofNat (base.value digits)) else none := by
  rw [Radix.int64?_of_nat? (Radix.nat?_digits h.lt_radix base.radix_le h.nonempty)]
  change (if Radix.inInt64 (base.value digits) then some (Int64.ofInt (base.value digits)) else none) = _
  have fits : Radix.inInt64 (base.value digits) = true ↔ base.value digits < 2 ^ 63 := by
    simp only [Radix.inInt64, Bool.and_eq_true, decide_eq_true_eq]
    omega
  simp only [fits, Int64.ofInt_eq_ofNat]

theorem double?_value (decimal : base = .decimal) :
    double? (digits.map Nat.digitChar) =
      some (Binary64.ofDecimal false (base.value digits) 0) := by
  subst decimal
  have small : ∀ d ∈ digits, d < 10 := h.lt_radix
  have nonempty : digits.map Nat.digitChar ≠ [] := by simp [h.nonempty]
  rw [double?_of_isDigit (isDigit_of_mem_digits small) nonempty, digitsValue_digits small]
  rfl

/-- What a numeral is read as, by its digits. -/
theorem ofNumeral?_digits :
    ofNumeral? text =
      if base.value digits < 2 ^ 63 then some (int (Int64.ofNat (base.value digits)))
      else if base = .decimal then some (float (Binary64.ofDecimal false (base.value digits) 0))
      else none := by
  have value := int64?_value h
  obtain ⟨width, letters, plain⟩ := h.plain
  rw [ofNumeral?, plain]
  by_cases decimal : base = .decimal
  · have double := double?_value h decimal
    subst decimal
    have small : ∀ d ∈ digits, d < 10 := h.lt_radix
    change Radix.int64? 10 _ = _ at value
    rw [Base.mark, List.nil_append, ofLower?_of_isDigit (isDigit_of_mem_digits small) letters, value,
      double]
    split <;> rfl
  · have kept : dropSuffixes ['l'] (digits.map Nat.digitChar ++ width) = digits.map Nat.digitChar := by
      refine dropSuffixes_append (fun c mem => ?_) fun c mem => by simp [letters c mem]
      obtain ⟨d, own, rfl⟩ := List.mem_map.1 mem
      exact digitChar_notMem_width (Nat.lt_of_lt_of_le (h.lt_radix d own) base.radix_le)
    rw [ofLower?_mark decimal, kept, value, if_neg decimal]
    split <;> rfl

/-- A whole numeral is read at its value where that fits, and never as another whole number. -/
theorem ofNumeral?_wholeNumeral :
    (base.value digits < 2 ^ 63 → ∃ n, ofNumeral? text = some (int n) ∧ n.toInt = base.value digits) ∧
    (2 ^ 63 ≤ base.value digits → base ≠ .decimal → ofNumeral? text = none) ∧
    (2 ^ 63 ≤ base.value digits → base = .decimal →
      ofNumeral? text = some (float (Binary64.ofDecimal false (base.value digits) 0))) ∧
    ∀ n, ofNumeral? text = some (int n) → n.toInt = base.value digits := by
  rw [ofNumeral?_digits h]
  by_cases fits : base.value digits < 2 ^ 63
  · have exact : (Int64.ofNat (base.value digits)).toInt = base.value digits :=
      Int64.toInt_ofNat_of_lt fits
    rw [if_pos fits]
    refine ⟨fun _ => ⟨_, rfl, exact⟩, fun large => absurd fits (Nat.not_lt.2 large),
      fun large => absurd fits (Nat.not_lt.2 large), ?_⟩
    rintro n ⟨⟩
    exact exact
  · rw [if_neg fits]
    refine ⟨fun small => absurd small fits, fun _ other => if_neg other, fun _ decimal => if_pos decimal, ?_⟩
    intro n found
    split at found <;> cases found

end

/-- The greatest number that fits, and the decimal numeral of the next. -/
theorem ofNumeral?_wholeNumeral_greatest :
    (∃ n, ofNumeral? "0X7fff_FFFF_ffff__FFFF_L".toList = some (int n) ∧
      n.toInt = Base.hexadecimal.value (7 :: List.replicate 15 15)) ∧
    ofNumeral? "9_223372036854775808l".toList =
      some (float (Binary64.ofDecimal false
        (Base.decimal.value [9, 2, 2, 3, 3, 7, 2, 0, 3, 6, 8, 5, 4, 7, 7, 5, 8, 0, 8]) 0)) := by
  have greatest : WholeNumeral .hexadecimal (7 :: List.replicate 15 15)
      (['0', 'X'] ++ "7fff_FFFF_ffff__FFFF_".toList ++ ['L']) := by
    refine .intro rfl ?_ (by decide) (by simp)
    repeat (first | exact .nil | apply Digits.separator | refine .digit (by decide) (by decide) ?_)
  have next : WholeNumeral .decimal [9, 2, 2, 3, 3, 7, 2, 0, 3, 6, 8, 5, 4, 7, 7, 5, 8, 0, 8]
      ([] ++ "9_223372036854775808".toList ++ ['l']) := by
    refine .intro rfl ?_ (by decide) (by simp)
    repeat (first | exact .nil | apply Digits.separator | refine .digit (by decide) (by decide) ?_)
  exact ⟨(ofNumeral?_wholeNumeral greatest).1 (by decide),
    (ofNumeral?_wholeNumeral next).2.2.1 (by decide) rfl⟩

end Literal

end Interlingua

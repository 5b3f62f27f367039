import Interlingua.Program.Agreement
import Interlingua.Proofs.Number.Numerals

/-!
# Numbers read back

The digits of a whole number are read as that number if it fits in 64 bits. A negative number is
read as the opposite of the number its digits denote, so the lowest of all, whose opposite does not
fit, comes back as a double. It is still alike.
-/

namespace Interlingua

/-- What is asked of the ten digits holds of every digit. -/
theorem forall_isDigit {P : Char → Bool} (h : ∀ n < 58, 48 ≤ n → P (Char.ofNat n) = true) {c : Char}
    (digit : c.isDigit = true) : P c = true := by
  simp only [Char.isDigit, Bool.and_eq_true, decide_eq_true_eq, UInt32.le_iff_toNat_le] at digit
  have own := h c.toNat (Nat.lt_succ_of_le digit.2) digit.1
  rwa [Char.ofNat_toNat] at own

namespace Radix

theorem digit?_of_isDigit {c : Char} (h : c.isDigit = true) :
    digit? 10 c = some (c.toNat - '0'.toNat) := by
  have digits := forall_isDigit (P := fun c => digit? 10 c = some (c.toNat - '0'.toNat)) (by decide) h
  simpa using digits

theorem natFrom?_of_isDigit {cs : List Char} (h : ∀ c ∈ cs, c.isDigit = true) (value : Nat) :
    natFrom? 10 value cs = some (Nat.ofDigitChars 10 cs value) := by
  induction cs generalizing value with
  | nil => rfl
  | cons c cs ih =>
    obtain ⟨first, others⟩ := List.forall_mem_cons.1 h
    rw [natFrom?, digit?_of_isDigit first, Option.bind_some, ih others, Nat.ofDigitChars_cons,
      Nat.mul_comm]

theorem isDigit_of_mem_toDigits {n : Nat} {c : Char} (mem : c ∈ Nat.toDigits 10 n) :
    c.isDigit = true :=
  Nat.isDigit_of_mem_toDigits (by decide) (by decide) mem

theorem nat?_toDigits (n : Nat) : nat? 10 (Nat.toDigits 10 n) = some n := by
  have nonempty : (Nat.toDigits 10 n).isEmpty = false := by simp [Nat.toDigits_ne_nil]
  rw [nat?, nonempty, if_neg Bool.false_ne_true,
    natFrom?_of_isDigit fun _ => isDigit_of_mem_toDigits, Nat.ofDigitChars_ten_toDigits]

/-- No sign is a digit, so what is read as digits is read without a sign. -/
theorem int64?_of_nat? {radix : Nat} {cs : List Char} {n : Nat} (h : nat? radix cs = some n) :
    int64? radix cs = if inInt64 n then some (Int64.ofInt n) else none := by
  unfold int64?
  split
  · cases h
  · cases h
  · rw [h]
    simp [Option.filter_some]

end Radix

namespace Literal

theorem marked?_eq_none {cs : List Char} (h : ∀ c ∈ cs, c ∉ ['x', 'o', 'b']) : marked? cs = none := by
  have letters : radixMarks.all (fun mark => mark.1.any (· ∈ ['x', 'o', 'b'])) = true := by decide
  refine List.findSome?_eq_none_iff.2 fun mark mem => ?_
  obtain ⟨c, own, letter⟩ := List.any_eq_true.1 (List.all_eq_true.1 letters mark mem)
  obtain ⟨letters, radix⟩ := mark
  cases found : Text.stripFront letters cs with
  | none => simp [found]
  | some rest =>
    have inside : c ∈ cs := Text.stripFront_eq_some.1 found ▸ List.mem_append_left _ own
    exact absurd (of_decide_eq_true letter) (h c inside)

theorem dropSuffixes_append {suffixes front back : List Char} (kept : ∀ c ∈ front, c ∉ suffixes)
    (dropped : ∀ c ∈ back, c ∈ suffixes) : dropSuffixes suffixes (front ++ back) = front := by
  have all : ∀ c ∈ back.reverse, decide (c ∈ suffixes) = true := fun c mem =>
    decide_eq_true (dropped c (List.mem_reverse.1 mem))
  have ends : front.reverse.dropWhile (· ∈ suffixes) = front.reverse := by
    cases shown : front.reverse with
    | nil => rfl
    | cons c rest =>
      have own := kept c (List.mem_reverse.1 (shown ▸ List.mem_cons_self))
      exact List.dropWhile_cons_of_neg (by simpa using own)
  rw [dropSuffixes, List.reverse_append, List.dropWhile_append_of_pos all, ends, List.reverse_reverse]

theorem isFloating_eq_false {cs : List Char} (h : ∀ c ∈ cs, c ∉ ['.', 'e', 'f', 'd']) :
    isFloating cs = false := by
  simp only [isFloating, Bool.or_eq_false_iff, List.any_eq_false, Option.any_eq_false]
  constructor
  · intro c mem
    have own := h c mem
    simp_all
  · intro c last
    have own := h c (List.mem_of_getLast? last)
    simp_all

/-- Decimal digits are a whole number where it fits, and a double where it does not. -/
theorem ofLower?_of_isDigit {digits width : List Char} (h : ∀ c ∈ digits, c.isDigit = true)
    (letters : ∀ c ∈ width, c = 'l') :
    ofLower? (digits ++ width) =
      ((Radix.int64? 10 digits).map int <|> (double? digits).map float) := by
  have plain (cs : List Char) (digit : ∀ n < 58, 48 ≤ n → decide (Char.ofNat n ∉ cs) = true)
      (letter : 'l' ∉ cs) : ∀ c ∈ digits ++ width, c ∉ cs := by
    intro c mem
    rcases List.mem_append.1 mem with own | own
    · exact of_decide_eq_true (forall_isDigit (P := fun c => decide (c ∉ cs)) digit (h c own))
    · exact letters c own ▸ letter
  have unmarked := marked?_eq_none (plain ['x', 'o', 'b'] (by decide) (by decide))
  have whole := isFloating_eq_false (plain ['.', 'e', 'f', 'd'] (by decide) (by decide))
  have dropped : dropSuffixes ['l', 'f', 'd'] (digits ++ width) = digits :=
    dropSuffixes_append
      (fun c own => of_decide_eq_true
        (forall_isDigit (P := fun c => decide (c ∉ ['l', 'f', 'd'])) (by decide) (h c own)))
      (fun c own => by simp [letters c own])
  rw [ofLower?, unmarked, whole, dropped]
  rfl

theorem ofNumeral?_of_isDigit {cs : List Char} (h : ∀ c ∈ cs, c.isDigit = true) :
    ofNumeral? cs = ((Radix.int64? 10 cs).map int <|> (double? cs).map float) := by
  have separators : cs.filter (· ≠ '_') = cs := List.filter_eq_self.2 fun c mem =>
    forall_isDigit (P := fun c => c ≠ '_') (by decide) (h c mem)
  have same : ∀ c ∈ cs, c.toLower = id c := fun c mem => by
    simpa using forall_isDigit (P := fun c => c.toLower = c) (by decide) (h c mem)
  have lower : cs.map Char.toLower = cs := (List.map_congr_left same).trans (List.map_id cs)
  have read : ofLower? (cs ++ []) = _ := ofLower?_of_isDigit h (by simp)
  rw [List.append_nil] at read
  rw [ofNumeral?, separators, lower, read]

/-- What a literal is when it is read from its text. -/
def reread : Literal → Literal
  | int n => if n = Int64.minValue then float (Binary64.ofInt Int64.minValue.toInt) else int n
  | value => value

theorem alike_reread (value : Literal) (h : ∀ x, value ≠ float x) :
    alike value value.reread = true := by
  cases value with
  | int n =>
    by_cases lowest : n = Int64.minValue
    · subst lowest
      decide +kernel
    · simp [reread, lowest, alike, same]
  | float x => exact absurd rfl (h x)
  | _ => simp [reread, alike, same]

theorem ofNumeral?_toDigits (n : Nat) (h : n < 0x8000000000000000) :
    ofNumeral? (Nat.toDigits 10 n) = some (int (Int64.ofInt n)) := by
  have fits : Radix.inInt64 n = true := by
    simp only [Radix.inInt64, Bool.and_eq_true, decide_eq_true_eq]
    omega
  rw [ofNumeral?_of_isDigit fun _ => Radix.isDigit_of_mem_toDigits,
    Radix.int64?_of_nat? (Radix.nat?_toDigits n), if_pos fits]
  rfl

theorem reread_of_nonneg {n : Int64} (h : 0 ≤ n) :
    ofNumeral? (Nat.toDigits 10 n.toInt.natAbs) = some (int n).reread := by
  have zero : 0 ≤ n.toInt := by simpa [Int64.le_iff_toInt_le] using h
  have high := n.toInt_lt
  have other : n ≠ Int64.minValue := by
    rintro rfl
    exact absurd h (by decide)
  have size : (n.toInt.natAbs : Int) = n.toInt := Int.natAbs_of_nonneg zero
  rw [ofNumeral?_toDigits _ (by omega), size, Int64.ofInt_toInt, reread, if_neg other]

theorem reread_of_neg {n : Int64} (h : n < 0) :
    (ofNumeral? (Nat.toDigits 10 n.toInt.natAbs)).bind negate? = some (int n).reread := by
  by_cases lowest : n = Int64.minValue
  · subst lowest
    decide +kernel
  · have negative : n.toInt < 0 := by simpa [Int64.lt_iff_toInt_lt] using h
    have above : n.toInt ≠ -2 ^ 63 := fun same => lowest (Int64.toInt_inj.1 same)
    have low := n.le_toInt
    have size : (n.toInt.natAbs : Int) = -n.toInt := by omega
    rw [ofNumeral?_toDigits _ (by omega), size, Int64.ofInt_neg, Int64.ofInt_toInt, reread,
      if_neg lowest, Option.bind_some, negate?, Int64.neg_neg]

end Literal

end Interlingua

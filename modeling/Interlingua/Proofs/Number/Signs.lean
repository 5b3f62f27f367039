import Interlingua.Proofs.Number.Reread

/-!
# Signs

A number without a sign in front of its digits is read as one that is not negative. Its opposite fits in
64 bits, and so does the opposite of that, so that signs can be put before it in any number.
-/

namespace Interlingua

namespace Literal

/-- Whether a minus sign stands only behind the letter of an exponent, given whether one comes first. -/
def isUnsignedFrom (exponent : Bool) : List Char → Bool
  | [] => true
  | c :: cs => (c ≠ '-' || exponent) && isUnsignedFrom (c = 'e' || c = 'E') cs

/-- Whether a numeral has no sign but that of its exponent. -/
def isUnsigned (text : List Char) : Bool :=
  isUnsignedFrom false text

theorem isUnsignedFrom_of_false {cs : List Char} (h : isUnsignedFrom false cs = true)
    (exponent : Bool) : isUnsignedFrom exponent cs = true := by
  cases cs with
  | nil => rfl
  | cons c cs => simp_all [isUnsignedFrom]

/-- Separators do not bring a sign next to the letter of an exponent that it was not next to. -/
theorem isUnsignedFrom_filter {exponent : Bool} {cs : List Char}
    (h : isUnsignedFrom exponent cs = true) :
    isUnsignedFrom exponent (cs.filter (· ≠ '_')) = true := by
  induction cs generalizing exponent with
  | nil => rfl
  | cons c cs ih =>
    obtain ⟨own, others⟩ := (Bool.and_eq_true _ _).mp h
    by_cases separator : c = '_'
    · subst separator
      exact isUnsignedFrom_of_false (ih others) exponent
    · rw [List.filter_cons_of_pos (by simpa using separator)]
      exact (Bool.and_eq_true _ _).mpr ⟨own, ih others⟩

theorem eq_minus_of_toLower {c : Char} (h : c.toLower = '-') : c = '-' := by
  unfold Char.toLower at h
  split at h
  · rename_i upper
    have low : 65 ≤ c.val.toNat := UInt32.le_iff_toNat_le.1 upper.1
    have high : c.val.toNat ≤ 90 := UInt32.le_iff_toNat_le.1 upper.2
    have value : (c.val.toNat + 32) % 4294967296 = 45 := congrArg (fun c => c.val.toNat) h
    omega
  · exact h

theorem isUnsignedFrom_map_toLower {exponent : Bool} {cs : List Char}
    (h : isUnsignedFrom exponent cs = true) :
    isUnsignedFrom exponent (cs.map Char.toLower) = true := by
  induction cs generalizing exponent with
  | nil => rfl
  | cons c cs ih =>
    obtain ⟨own, others⟩ := (Bool.and_eq_true _ _).mp h
    have sign : (c.toLower ≠ '-' || exponent) = true := by
      simp only [Bool.or_eq_true, decide_eq_true_eq] at own ⊢
      exact own.imp_left fun other lower => other (eq_minus_of_toLower lower)
    refine (Bool.and_eq_true _ _).mpr ⟨sign, ?_⟩
    by_cases letter : (c = 'e' || c = 'E') = true
    · have lower : c.toLower = 'e' := by
        simp only [Bool.or_eq_true, decide_eq_true_eq] at letter
        rcases letter with rfl | rfl <;> decide
      rw [letter] at others
      simpa [lower] using ih others
    · rw [Bool.not_eq_true] at letter
      rw [letter] at others
      exact isUnsignedFrom_of_false (ih others) _

theorem head_of_isUnsigned {cs : List Char} (h : isUnsigned cs = true) : cs.head? ≠ some '-' := by
  rintro first
  obtain ⟨rest, rfl⟩ := List.head?_eq_some_iff.1 first
  simp [isUnsigned, isUnsignedFrom] at h

/-- Behind the mark of a radix there is no exponent. -/
theorem isUnsigned_of_marked? {cs digits : List Char} {radix : Nat} (h : isUnsigned cs = true)
    (marked : marked? cs = some (radix, digits)) : isUnsigned digits = true := by
  obtain ⟨⟨mark, base⟩, mem, found⟩ := List.exists_of_findSome?_eq_some marked
  obtain ⟨rest, stripped, same⟩ := Option.map_eq_some_iff.1 found
  obtain ⟨-, rfl⟩ := Prod.mk.inj same
  rw [Text.stripFront_eq_some.1 stripped] at h
  simp only [radixMarks, List.mem_cons, List.not_mem_nil, or_false, Prod.mk.injEq] at mem
  rcases mem with ⟨rfl, -⟩ | ⟨rfl, -⟩ | ⟨rfl, -⟩ <;> simpa [isUnsigned, isUnsignedFrom] using h

theorem dropSuffixes_prefix (suffixes cs : List Char) : dropSuffixes suffixes cs <+: cs := by
  have back := (List.dropWhile_suffix (l := cs.reverse) (· ∈ suffixes)).reverse
  rwa [List.reverse_reverse] at back

theorem head_dropSuffixes {cs : List Char} (h : cs.head? ≠ some '-') (suffixes : List Char) :
    (dropSuffixes suffixes cs).head? ≠ some '-' := by
  intro first
  obtain ⟨rest, shown⟩ := List.head?_eq_some_iff.1 first
  obtain ⟨dropped, same⟩ := dropSuffixes_prefix suffixes cs
  rw [shown] at same
  exact h (by rw [← same]; rfl)

theorem nonneg_of_int64? {radix : Nat} {cs : List Char} {n : Int64} (unsigned : cs.head? ≠ some '-')
    (h : Radix.int64? radix cs = some n) : 0 ≤ n.toInt := by
  have fits {digits : List Char}
      (read : (((Radix.nat? radix digits).map Int.ofNat).filter Radix.inInt64).map Int64.ofInt = some n) :
      0 ≤ n.toInt := by
    obtain ⟨value, kept, rfl⟩ := Option.map_eq_some_iff.1 read
    obtain ⟨found, small⟩ := Option.filter_eq_some_iff.1 kept
    obtain ⟨size, -, rfl⟩ := Option.map_eq_some_iff.1 found
    simp only [Radix.inInt64, Bool.and_eq_true, decide_eq_true_eq] at small
    rw [Int64.toInt_ofInt_of_le small.1 small.2]
    exact Int.natCast_nonneg size
  unfold Radix.int64? at h
  split at h
  · exact absurd rfl unsigned
  · exact fits h
  · exact fits h

/-- A whole number that is read from a numeral without a sign is not negative. -/
theorem nonneg_of_ofNumeral? {text : List Char} {n : Int64} (unsigned : isUnsigned text = true)
    (h : ofNumeral? text = some (int n)) : 0 ≤ n.toInt := by
  have plain := isUnsignedFrom_map_toLower (isUnsignedFrom_filter unsigned)
  rw [ofNumeral?] at h
  generalize (text.filter (· ≠ '_')).map Char.toLower = cs at h plain
  have whole {radix : Nat} {digits suffixes : List Char} (own : isUnsigned digits = true)
      (read : (Radix.int64? radix (dropSuffixes suffixes digits)).map int = some (int n)) :
      0 ≤ n.toInt := by
    obtain ⟨m, found, same⟩ := Option.map_eq_some_iff.1 read
    cases same
    exact nonneg_of_int64? (head_dropSuffixes (head_of_isUnsigned own) suffixes) found
  have other {x : Option Binary64} : x.map float ≠ some (int n) := by
    cases x <;> simp
  rw [ofLower?] at h
  split at h
  · exact whole (isUnsigned_of_marked? plain ‹_›) h
  · dsimp only at h
    split at h
    · exact absurd h other
    · cases first : (Radix.int64? 10 (dropSuffixes ['l', 'f', 'd'] cs)).map int with
      | none =>
        rw [first] at h
        exact absurd h other
      | some value =>
        rw [first] at h
        exact whole plain (first.trans h)

/-! The opposite of a number. -/

/-- Whether the opposite of a whole number fits in as many bits. All other literals pass. -/
def isReversible : Literal → Bool
  | int n => -0x7FFFFFFFFFFFFFFF ≤ n.toInt && n.toInt ≤ 0x7FFFFFFFFFFFFFFF
  | _ => true

theorem isReversible_of_nonneg {n : Int64} (h : 0 ≤ n.toInt) : (int n).isReversible = true := by
  have high := n.toInt_lt
  simp only [isReversible, Bool.and_eq_true, decide_eq_true_eq]
  omega

theorem toInt_neg_of_isReversible {n : Int64} (h : (int n).isReversible = true) :
    (-n).toInt = -n.toInt := by
  simp only [isReversible, Bool.and_eq_true, decide_eq_true_eq] at h
  rw [Int64.toInt_neg]
  exact Int.bmod_eq_of_le (by omega) (by omega)

theorem isReversible_negate? {value opposite : Literal} (h : value.isReversible = true)
    (negated : value.negate? = some opposite) : opposite.isReversible = true := by
  cases value with
  | int n =>
    cases negated
    have exact := toInt_neg_of_isReversible h
    simp only [isReversible, Bool.and_eq_true, decide_eq_true_eq] at h ⊢
    omega
  | float x =>
    cases negated
    rfl
  | _ => cases negated

end Literal

end Interlingua

import Interlingua.Number.Binary64
import Mathlib.Algebra.Order.Field.Rat
import Mathlib.Order.Monotone.Basic

/-!
# The numbers that doubles denote

A finite double denotes a rational number, and equality of doubles is equality of what they denote.
A whole number of up to fifty-three bits is denoted by the double nearest to it.
-/

namespace Interlingua.Binary64

private theorem pow_fraction : Nat.pow 2 52 = 4503599627370496 := rfl

private theorem pow_significand : Nat.pow 2 53 = 9007199254740992 := rfl

private theorem pow_sign : Nat.pow 2 63 = 9223372036854775808 := rfl

private theorem infinite_eq : infinite = 9218868437227405312 := rfl

/-! Sign and magnitude. -/

theorem toNat_bits (x : Binary64) :
    x.bits.toNat = (if x.isMinus then Nat.pow 2 63 else 0) + x.magnitude := by
  have high := x.bits.toNat_lt
  rw [isMinus, magnitude, pow_sign]
  by_cases minus : 9223372036854775808 ≤ x.bits.toNat <;> simp [minus] <;> omega

theorem eq_of_parts {x y : Binary64} (minus : x.isMinus = y.isMinus)
    (magnitude : x.magnitude = y.magnitude) : x = y := by
  have bits : x.bits.toNat = y.bits.toNat := by
    rw [toNat_bits, toNat_bits, minus, magnitude]
  cases x
  cases y
  exact congrArg mk (UInt64.toNat_inj.1 bits)

section

variable (minus : Bool) {m : Nat} (h : m < infinite)

include h

theorem toNat_bits_ofParts :
    (ofParts minus m).bits.toNat = (if minus then Nat.pow 2 63 else 0) + m := by
  rw [infinite_eq] at h
  rw [ofParts, pow_sign, UInt64.toNat_ofNat']
  apply Nat.mod_eq_of_lt
  split <;> omega

theorem isMinus_ofParts : (ofParts minus m).isMinus = minus := by
  rw [isMinus, toNat_bits_ofParts minus h, pow_sign]
  rw [infinite_eq] at h
  cases minus
  · simp; omega
  · simp

theorem magnitude_ofParts : (ofParts minus m).magnitude = m := by
  rw [magnitude, toNat_bits_ofParts minus h, pow_sign]
  rw [infinite_eq] at h
  cases minus <;> simp <;> omega

end

/-! The size of a magnitude. -/

/-- The size of a finite double by its magnitude, in units of `2 ^ -1074`. -/
def unitsOf (m : Nat) : Nat :=
  (if m < Nat.pow 2 52 then m else Nat.pow 2 52 + m % Nat.pow 2 52) *
    Nat.pow 2 (m / Nat.pow 2 52 - 1)

theorem units_eq (x : Binary64) : x.units = unitsOf x.magnitude :=
  rfl

theorem unitsOf_subnormal {m : Nat} (h : m < Nat.pow 2 52) : unitsOf m = m := by
  have scale : m / Nat.pow 2 52 = 0 := Nat.div_eq_of_lt h
  rw [unitsOf, if_pos h, scale]
  exact Nat.mul_one m

theorem unitsOf_normal {s : Nat} (scale : Nat) (low : Nat.pow 2 52 ≤ s) (high : s < Nat.pow 2 53) :
    unitsOf (scale * Nat.pow 2 52 + s) = s * Nat.pow 2 scale := by
  rw [pow_fraction] at low
  rw [pow_significand] at high
  have quotient : (scale * 4503599627370496 + s) / 4503599627370496 - 1 = scale := by omega
  have fraction : 4503599627370496 + (scale * 4503599627370496 + s) % 4503599627370496 = s := by omega
  rw [unitsOf, pow_fraction, if_neg (by omega), quotient, fraction]

/-- A magnitude is that of a subnormal double, or it has a scale and a full significand. -/
theorem magnitude_cases (m : Nat) :
    m < Nat.pow 2 52 ∨
      ∃ scale s, Nat.pow 2 52 ≤ s ∧ s < Nat.pow 2 53 ∧ m = scale * Nat.pow 2 52 + s := by
  rw [pow_fraction, pow_significand]
  by_cases low : m < 4503599627370496
  · exact .inl low
  · exact .inr ⟨m / 4503599627370496 - 1, 4503599627370496 + m % 4503599627370496, by omega, by omega,
      by omega⟩

theorem unitsOf_strictMono : StrictMono unitsOf := by
  refine strictMono_nat_of_lt_succ fun m => ?_
  rcases magnitude_cases m with subnormal | ⟨scale, s, low, high, rfl⟩
  · rw [unitsOf_subnormal subnormal]
    by_cases next : m + 1 < Nat.pow 2 52
    · rw [unitsOf_subnormal next]
      exact Nat.lt_succ_self m
    · -- the least normal double follows
      have first : m + 1 = 0 * Nat.pow 2 52 + Nat.pow 2 52 := by omega
      rw [first, unitsOf_normal 0 (Nat.le_refl _) (by decide)]
      exact Nat.lt_of_lt_of_eq subnormal (Nat.mul_one _).symm
  · rw [unitsOf_normal scale low high]
    have positive : 0 < Nat.pow 2 scale := Nat.two_pow_pos scale
    by_cases next : s + 1 < Nat.pow 2 53
    · rw [Nat.add_assoc, unitsOf_normal scale (Nat.le_succ_of_le low) next]
      exact Nat.mul_lt_mul_of_pos_right (Nat.lt_succ_self s) positive
    · -- no greater significand has this scale
      have last : s + 1 = Nat.pow 2 52 + Nat.pow 2 52 := by
        rw [pow_significand] at high next
        rw [pow_fraction]
        omega
      have first : scale * Nat.pow 2 52 + s + 1 = (scale + 1) * Nat.pow 2 52 + Nat.pow 2 52 := by
        rw [Nat.add_assoc, last, Nat.succ_mul, Nat.add_assoc]
      have doubled : Nat.pow 2 (scale + 1) = 2 * Nat.pow 2 scale := Nat.pow_succ'
      rw [first, unitsOf_normal (scale + 1) (Nat.le_refl _) (by decide), doubled]
      calc s * Nat.pow 2 scale < Nat.pow 2 53 * Nat.pow 2 scale :=
            Nat.mul_lt_mul_of_pos_right high positive
        _ = Nat.pow 2 52 * (2 * Nat.pow 2 scale) := by rw [← Nat.mul_assoc]

/-! What is denoted. -/

/-- The value of a finite double, in units of `2 ^ -1074`. -/
def signedUnits (x : Binary64) : Int :=
  if x.isMinus then -(x.units : Int) else x.units

def value (x : Binary64) : ℚ :=
  x.signedUnits / 2 ^ 1074

theorem value_inj {x y : Binary64} : x.value = y.value ↔ x.signedUnits = y.signedUnits := by
  have unit : (2 ^ 1074 : ℚ) ≠ 0 := pow_ne_zero _ two_ne_zero
  rw [value, value, div_left_inj' unit, Rat.intCast_inj]

theorem value_eq_intCast_iff {x : Binary64} {n : Int} :
    x.value = n ↔ x.signedUnits = n * (Nat.pow 2 1074 : Nat) := by
  unfold value
  generalize 1074 = place
  have unit : (2 ^ place : ℚ) ≠ 0 := pow_ne_zero _ two_ne_zero
  have power : (((Nat.pow 2 place : Nat) : Int) : ℚ) = 2 ^ place := by simp
  rw [div_eq_iff unit, ← power, ← Rat.intCast_mul, Rat.intCast_inj]

theorem isZero_iff (x : Binary64) : x.isZero = true ↔ x.units = 0 := by
  rw [isZero, decide_eq_true_eq, units_eq]
  exact (unitsOf_strictMono.injective.eq_iff (b := 0)).symm

theorem signedUnits_inj {x y : Binary64} :
    x.signedUnits = y.signedUnits ↔ x = y ∨ x.isZero = true ∧ y.isZero = true := by
  constructor
  · intro same
    have sizes : x.units = y.units := by
      unfold signedUnits at same
      split at same <;> split at same <;> omega
    by_cases zero : x.units = 0
    · exact .inr ⟨x.isZero_iff.2 zero, y.isZero_iff.2 (sizes ▸ zero)⟩
    · refine .inl (eq_of_parts ?_ (unitsOf_strictMono.injective sizes))
      cases minus : x.isMinus <;> cases minus' : y.isMinus <;> simp [signedUnits, minus, minus'] at same ⊢ <;>
        omega
  · rintro (rfl | ⟨zero, zero'⟩)
    · rfl
    · simp [signedUnits, x.isZero_iff.1 zero, y.isZero_iff.1 zero']

/-- What a double that is a number denotes. -/
inductive Quantity where
  | finite (value : ℚ)
  | infinite (minus : Bool)

def quantity (x : Binary64) : Quantity :=
  if x.isFinite then .finite x.value else .infinite x.isMinus

theorem isNumber_of_quantity {x : Binary64} {value : ℚ} (h : x.quantity = .finite value) :
    x.isNumber = true := by
  rw [quantity] at h
  split at h
  · rename_i finite
    simp only [isFinite, decide_eq_true_eq] at finite
    simpa [isNumber] using Nat.le_of_lt finite
  · cases h

/-- Doubles are equal if they denote the same. -/
theorem eq_iff_quantity {x y : Binary64} (hx : x.isNumber = true) (hy : y.isNumber = true) :
    x.eq y = true ↔ x.quantity = y.quantity := by
  have equal : x.eq y = true ↔ x.signedUnits = y.signedUnits := by
    simp [eq, hx, hy, signedUnits_inj]
  simp only [isNumber, decide_eq_true_eq] at hx hy
  have bounded {z : Binary64} (h : z.magnitude ≤ infinite) (beyond : z.isFinite = false) :
      z.magnitude = infinite :=
    Nat.le_antisymm h (by simpa [isFinite] using beyond)
  have apart {z w : Binary64} (finite : z.isFinite = true) (beyond : w.magnitude = infinite) :
      z.signedUnits ≠ w.signedUnits := by
    intro same
    have below : z.magnitude < infinite := by simpa [isFinite] using finite
    have least : z.units < w.units := by
      rw [units_eq, units_eq, beyond]
      exact unitsOf_strictMono below
    unfold signedUnits at same
    split at same <;> split at same <;> omega
  rw [equal, quantity, quantity]
  cases finite : x.isFinite <;> cases finite' : y.isFinite
  · have top := bounded hx finite
    have top' := bounded hy finite'
    have positive : infinite ≠ 0 := by decide
    have parts : x = y ↔ x.isMinus = y.isMinus :=
      ⟨fun same => congrArg isMinus same, fun minus => eq_of_parts minus (top.trans top'.symm)⟩
    simp [signedUnits_inj, isZero, top, positive, parts]
  · simp [(apart finite' (bounded hx finite)).symm]
  · simp [apart finite (bounded hy finite')]
  · simp [value_inj]

/-! Whole numbers. -/

theorem roundDiv_mul (s : Nat) {d : Nat} (positive : 0 < d) : roundDiv (s * d) d = s := by
  simp [roundDiv, Nat.mul_div_cancel s positive, positive]

private theorem pow_split (a b : Nat) : Nat.pow 2 (a + b) = Nat.pow 2 a * Nat.pow 2 b :=
  Nat.pow_add 2 a b

/-- A whole number of up to fifty-three bits has all of them in a significand. -/
theorem exists_significand {n : Nat} (some : n ≠ 0) (h : n ≤ Nat.pow 2 53) :
    n.log2 ≤ 53 ∧ ∃ s, Nat.pow 2 52 ≤ s ∧ s < Nat.pow 2 53 ∧
      ∀ place top, top = place + 52 → n * Nat.pow 2 top = s * Nat.pow 2 (n.log2 + place) := by
  have low : Nat.pow 2 n.log2 ≤ n := Nat.log2_self_le some
  have high : n < Nat.pow 2 (n.log2 + 1) := Nat.lt_log2_self
  by_cases short : n.log2 ≤ 52
  · obtain ⟨k, length⟩ : ∃ k, 52 = n.log2 + k := ⟨52 - n.log2, by omega⟩
    have positive : 0 < Nat.pow 2 k := Nat.two_pow_pos k
    refine ⟨by omega, n * Nat.pow 2 k, ?_, ?_, fun place top h => ?_⟩
    · calc Nat.pow 2 52 = Nat.pow 2 n.log2 * Nat.pow 2 k := by rw [← pow_split, ← length]
        _ ≤ n * Nat.pow 2 k := Nat.mul_le_mul_right _ low
    · calc n * Nat.pow 2 k < Nat.pow 2 (n.log2 + 1) * Nat.pow 2 k :=
            Nat.mul_lt_mul_of_pos_right high positive
        _ = Nat.pow 2 53 := by rw [← pow_split, Nat.add_right_comm, ← length]
    · have places : top = k + (n.log2 + place) := by omega
      rw [Nat.mul_assoc, ← pow_split, ← places]
  · -- the number is the bound itself
    have bound : Nat.pow 2 53 ≤ Nat.pow 2 n.log2 := Nat.pow_le_pow_right (by decide) (by omega)
    have itself : n = Nat.pow 2 53 := Nat.le_antisymm h (Nat.le_trans bound low)
    have bits : n.log2 = 53 := by rw [itself]; decide
    refine ⟨Nat.le_of_eq bits, Nat.pow 2 52, Nat.le_refl _, by decide, fun place top h => ?_⟩
    have places : 53 + top = 52 + (53 + place) := by omega
    rw [bits, itself, ← pow_split, ← pow_split, places]

theorem scaleOf_one {n : Nat} (some : n ≠ 0) : scaleOf n 1 = n.log2 + 1022 := by
  have low : Nat.pow 2 n.log2 ≤ n := Nat.log2_self_le some
  have one : Nat.log2 1 = 0 := by decide
  simp only [scaleOf, one, Nat.sub_zero, Nat.one_mul]
  generalize top : 1074 = place
  have reached : ¬ n * Nat.pow 2 place < Nat.pow 2 (n.log2 + place) := by
    rw [pow_split, Nat.not_lt]
    exact Nat.mul_le_mul_right _ low
  rw [if_neg reached]
  omega

theorem roundMagnitude_one {n : Nat} (h : n ≤ Nat.pow 2 53) :
    roundMagnitude n 1 < infinite ∧ unitsOf (roundMagnitude n 1) = n * Nat.pow 2 1074 := by
  by_cases zero : n = 0
  · subst zero
    exact ⟨by decide, (Nat.zero_mul (Nat.pow 2 1074)).symm⟩
  · obtain ⟨short, s, low, high, places⟩ := exists_significand zero h
    have exact := places 1022 1074 rfl
    have positive : 0 < Nat.pow 2 (n.log2 + 1022) := Nat.two_pow_pos _
    have below : (n.log2 + 1022) * Nat.pow 2 52 + s < infinite := by
      rw [pow_significand] at high
      rw [infinite_eq, pow_fraction]
      omega
    have rounded : roundMagnitude n 1 = (n.log2 + 1022) * Nat.pow 2 52 + s := by
      have divided : roundDiv (n * Nat.pow 2 1074) (1 * Nat.pow 2 (n.log2 + 1022)) = s := by
        rw [Nat.one_mul, exact, roundDiv_mul s positive]
      simp only [roundMagnitude, if_neg zero, scaleOf_one zero, divided]
      exact Nat.min_eq_left (Nat.le_of_lt below)
    rw [rounded, unitsOf_normal _ low high, exact]
    exact ⟨below, rfl⟩

/-- A whole number of up to fifty-three bits is denoted by its double. -/
theorem quantity_ofInt {n : Int} (h : n.natAbs ≤ Nat.pow 2 53) : (ofInt n).quantity = .finite n := by
  obtain ⟨below, size⟩ := roundMagnitude_one h
  have finite : (ofInt n).isFinite = true := by
    simp only [isFinite, ofInt, round, magnitude_ofParts _ below, below, decide_true]
  have units : (ofInt n).units = n.natAbs * Nat.pow 2 1074 := by
    rw [units_eq, ofInt, round, magnitude_ofParts _ below, size]
  have minus : (ofInt n).isMinus = decide (n < 0) := isMinus_ofParts _ below
  have signed : (ofInt n).signedUnits = n * (Nat.pow 2 1074 : Nat) := by
    rw [signedUnits, minus, units, Nat.cast_mul]
    by_cases negative : n < 0
    · have size : (n.natAbs : Int) = -n := by omega
      simp only [negative, decide_true, if_true, size, Int.neg_mul, Int.neg_neg]
    · have size : (n.natAbs : Int) = n := by omega
      simp only [negative, decide_false, Bool.false_eq_true, if_false, size]
  rw [quantity, if_pos finite, value_eq_intCast_iff.2 signed]

theorem isSome_toInt?_of_quantity {x : Binary64} {n : Int} (h : x.quantity = .finite n) :
    x.toInt?.isSome = true := by
  rw [quantity] at h
  split at h
  · rename_i finite
    have signed := value_eq_intCast_iff.1 (Quantity.finite.inj h)
    have size : x.units = n.natAbs * Nat.pow 2 1074 := by
      have sizes := congrArg Int.natAbs signed
      rw [Int.natAbs_mul, Int.natAbs_natCast] at sizes
      rw [← sizes, signedUnits]
      split <;> simp
    rw [toInt?, size, Nat.mul_mod_left, finite]
    rfl
  · cases h

end Interlingua.Binary64

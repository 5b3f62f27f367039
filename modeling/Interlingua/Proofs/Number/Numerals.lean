import Interlingua.Program.Literal
import Interlingua.Proofs.Text.Words

/-!
# Numerals

The characters that numbers are written with.
-/

namespace Interlingua

open Text

/-- Whether a character can stand in a numeral or in the name of a number. -/
def isNumeralChar (c : Char) : Bool :=
  isWordChar c || c = '-' || c = '.'

theorem isNumeralChar_of_isDigit {c : Char} (h : c.isDigit = true) : isNumeralChar c = true := by
  have digits : ∀ n < 58, 48 ≤ n → isNumeralChar (Char.ofNat n) = true := by decide
  simp only [Char.isDigit, Bool.and_eq_true, decide_eq_true_eq, UInt32.le_iff_toNat_le] at h
  have own := digits c.toNat (Nat.lt_succ_of_le h.2) h.1
  rwa [Char.ofNat_toNat] at own

theorem isNumeralChar_of_mem_toDigits {n : Nat} {c : Char} (mem : c ∈ Nat.toDigits 10 n) :
    isNumeralChar c = true :=
  isNumeralChar_of_isDigit (Nat.isDigit_of_mem_toDigits (by decide) (by decide) mem)

theorem isNumeralChar_of_mem_intNumeral {n : Int} {c : Char} (mem : c ∈ Literal.intNumeral n) :
    isNumeralChar c = true := by
  rw [Literal.intNumeral] at mem
  split at mem
  · rcases List.mem_cons.1 mem with rfl | mem
    · decide
    · exact isNumeralChar_of_mem_toDigits mem
  · exact isNumeralChar_of_mem_toDigits mem

theorem Binary64.isNumeralChar_of_mem_positional {digits : Nat} {exponent : Int} {c : Char}
    (mem : c ∈ positional digits exponent) : isNumeralChar c = true := by
  rw [positional] at mem
  split at mem
  · exact isNumeralChar_of_mem_toDigits mem
  · rcases List.mem_append.1 mem with mem | mem
    · exact isNumeralChar_of_mem_toDigits mem
    · split at mem
      · cases mem
      · rcases List.mem_cons.1 mem with rfl | mem
        · decide
        · have padded := (List.dropWhile_sublist _).subset (List.mem_reverse.1 mem)
          rcases List.mem_append.1 (List.mem_reverse.1 padded) with zero | digit
          · obtain rfl := List.eq_of_mem_replicate zero
            decide
          · exact isNumeralChar_of_mem_toDigits digit

theorem Binary64.isNumeralChar_of_mem_text {x : Binary64} {c : Char} (mem : c ∈ x.text) :
    isNumeralChar c = true := by
  have size : c ∈ x.sizeText → isNumeralChar c = true := by
    intro mem
    rw [sizeText] at mem
    split at mem
    · have names : ['N', 'a', 'N'].all isNumeralChar = true := by decide
      exact List.all_eq_true.1 names c mem
    · split at mem
      · have names : ['i', 'n', 'f'].all isNumeralChar = true := by decide
        exact List.all_eq_true.1 names c mem
      · split at mem
        · obtain rfl := List.mem_singleton.1 mem
          decide
        · exact isNumeralChar_of_mem_positional mem
  rw [text] at mem
  split at mem
  · rcases List.mem_cons.1 mem with rfl | mem
    · decide
    · exact size mem
  · exact size mem

theorem Binary64.positional_ne_nil (digits : Nat) (exponent : Int) :
    positional digits exponent ≠ [] := by
  rw [positional]
  split
  · exact Nat.toDigits_ne_nil
  · exact fun none => Nat.toDigits_ne_nil (List.append_eq_nil_iff.1 none).1

theorem Binary64.text_ne_nil (x : Binary64) : x.text ≠ [] := by
  have size : x.sizeText ≠ [] := by
    have digits := positional_ne_nil x.shortest.1 x.shortest.2
    unfold sizeText
    grind
  unfold text
  grind

theorem Literal.intNumeral_ne_nil (n : Int) : intNumeral n ≠ [] := by
  unfold intNumeral
  grind [Nat.toDigits_ne_nil]

theorem Literal.isNumeralChar_of_mem {value : Literal} {c : Char} (mem : c ∈ value.numeral) :
    isNumeralChar c = true := by
  cases value with
  | int n => exact isNumeralChar_of_mem_intNumeral mem
  | float x =>
    simp only [numeral, floatNumeral] at mem
    split at mem
    · split at mem
      · exact isNumeralChar_of_mem_intNumeral mem
      · exact Binary64.isNumeralChar_of_mem_text mem
    · exact Binary64.isNumeralChar_of_mem_text mem
  | _ => cases mem

theorem Literal.numeral_ne_nil {value : Literal} (h : value.baseType = .number) :
    value.numeral ≠ [] := by
  cases value with
  | int n => exact intNumeral_ne_nil _
  | float x =>
    simp only [numeral, floatNumeral]
    split
    · split
      · exact intNumeral_ne_nil _
      · exact x.text_ne_nil
    · exact x.text_ne_nil
  | _ => cases h

theorem Literal.neat_numeral {value : Literal} (h : value.baseType = .number) : Neat value.numeral :=
  Neat.of_forall (value.numeral_ne_nil h) fun c mem => by
    have char := isNumeralChar_of_mem mem
    simp only [isNumeralChar, Bool.or_eq_true, decide_eq_true_eq] at char
    rcases char with (word | rfl) | rfl
    · exact ⟨isBlank_of_isWordChar word, ne_of_isWordChar word (by decide)⟩
    · decide
    · decide

end Interlingua

import Mathlib.Algebra.Order.Field.Rat
import Mathlib.Data.List.DropRight
import Mathlib.Tactic.FieldSimp

/-!
# Decimal digits

A number is written in decimal digits, and digits before and after a point denote a fraction. The
laws split the digits of a number at a place, take zeros from the end and put them back, and
recover what a text with a point denotes from its characters apart from the commas in it.
-/

namespace Hcexplorer.DecimalText

section Digits

/-- The digits of a number are those of its quotient by a power of ten, and as many others. -/
theorem toDigits_split (places : Nat) {n : Nat} (large : 10 ^ places ≤ n) :
    ∃ low, Nat.toDigits 10 n = Nat.toDigits 10 (n / 10 ^ places) ++ low ∧ low.length = places := by
  induction places with
  | zero => exact ⟨[], by simp, rfl⟩
  | succ places inductionHypothesis =>
    obtain ⟨low, split, length⟩ := inductionHypothesis
      (Nat.le_trans (Nat.pow_le_pow_right (by decide) (Nat.le_succ _)) large)
    have quotient : 10 ≤ n / 10 ^ places := by
      rw [Nat.le_div_iff_mul_le (Nat.pow_pos (by decide)), Nat.mul_comm, ← Nat.pow_succ]
      exact large
    refine ⟨Nat.digitChar (n / 10 ^ places % 10) :: low, ?_, by rw [List.length_cons, length]⟩
    rw [split, Nat.toDigits_of_base_le (by decide) quotient, Nat.div_div_eq_div_mul, ← Nat.pow_succ,
      List.append_assoc, List.singleton_append]

/-- The characters of a number written in the decimal system are digits. -/
theorem isDigit_toDigits {n : Nat} : ∀ c ∈ Nat.toDigits 10 n, c.isDigit :=
  fun _ member => Nat.isDigit_of_mem_toDigits (by decide) (by decide) member

/-- A text without its commas, which group the digits of a number. -/
def withoutCommas (text : List Char) : List Char := text.filter (· ≠ ',')

/-- Digits have no commas among them, so they are left as they are. -/
theorem withoutCommas_digits {text : List Char} (digits : ∀ c ∈ text, c.isDigit) :
    withoutCommas text = text := by
  refine List.filter_eq_self.mpr fun c member => decide_eq_true ?_
  rintro rfl
  exact absurd (digits ',' member) (by decide)

end Digits

section Zeros

/-- The zeros that are cut off from the end, put back. -/
theorem rdropWhile_append_zeros (text : List Char) :
    text.rdropWhile (· = '0') ++
      List.replicate (text.length - (text.rdropWhile (· = '0')).length) '0' = text := by
  induction text using List.reverseRecOn with
  | nil => rfl
  | append_singleton front c inductionHypothesis =>
    rw [List.rdropWhile_concat]
    by_cases zero : c = '0'
    · have shorter : (front.rdropWhile (· = '0')).length ≤ front.length :=
        (List.rdropWhile_prefix _ _).length_le
      have one : (front ++ [c]).length - (front.rdropWhile (· = '0')).length =
          front.length - (front.rdropWhile (· = '0')).length + 1 := by
        rw [List.length_append, List.length_singleton]
        omega
      rw [if_pos (decide_eq_true zero), one, List.replicate_succ', ← List.append_assoc,
        inductionHypothesis, zero]
    · rw [if_neg (by simpa using zero), Nat.sub_self, List.replicate_zero, List.append_nil]

/-- What is left of a text without the zeros at its end does not end in a zero. -/
theorem getLast?_rdropWhile (text : List Char) : (text.rdropWhile (· = '0')).getLast? ≠ some '0' := by
  intro last
  have nonempty : text.rdropWhile (· = '0') ≠ [] := by
    intro none_
    rw [none_] at last
    cases last
  have notZero := List.rdropWhile_last_not _ text nonempty
  rw [List.getLast?_eq_some_getLast nonempty] at last
  exact notZero (decide_eq_true (Option.some.inj last))

/-- What is left of digits without the zeros at their end is not empty, unless they are the
digits of zero. -/
theorem rdropWhile_ne_nil {text : List Char} (nonzero : Nat.ofDigitChars 10 text 0 ≠ 0) :
    text.rdropWhile (· = '0') ≠ [] := by
  intro none_
  have zeros := rdropWhile_append_zeros text
  rw [none_, List.nil_append] at zeros
  rw [← zeros, Nat.ofDigitChars_replicate_zero, Nat.mul_zero] at nonzero
  exact nonzero rfl

end Zeros

section Fractions

/-- What digits before and after a point denote, as a rational number. -/
def fractionValue (integer fraction : List Char) : ℚ :=
  Nat.ofDigitChars 10 integer 0 + Nat.ofDigitChars 10 fraction 0 / 10 ^ fraction.length

/-- The digits of a number around a point denote the number over a power of ten. -/
theorem fractionValue_append (integer fraction : List Char) :
    fractionValue integer fraction =
      (Nat.ofDigitChars 10 (integer ++ fraction) 0 : ℚ) / 10 ^ fraction.length := by
  rw [Nat.ofDigitChars_append, Nat.ofDigitChars_eq_ofDigitChars_zero, fractionValue]
  push_cast
  field_simp

/-- Zeros before the digits of a number do not change the number. -/
theorem ofDigitChars_zeros (count : Nat) (text : List Char) :
    Nat.ofDigitChars 10 (List.replicate count '0' ++ text) 0 = Nat.ofDigitChars 10 text 0 := by
  rw [Nat.ofDigitChars_append, Nat.ofDigitChars_replicate_zero, Nat.mul_zero]

/-- Digits with zeros before them are digits. -/
theorem isDigit_zeros (count : Nat) {text : List Char} (digits : ∀ c ∈ text, c.isDigit) :
    ∀ c ∈ List.replicate count '0' ++ text, c.isDigit := by
  intro c member
  rcases List.mem_append.mp member with zero | digit
  · rw [List.eq_of_mem_replicate zero]
    decide
  · exact digits c digit

/-- A text with as many characters after the point as another is another one, unless the parts are
the same. -/
theorem point_injective {integer integer' fraction fraction' : List Char}
    (same : integer ++ '.' :: fraction = integer' ++ '.' :: fraction')
    (length : fraction.length = fraction'.length) : integer = integer' ∧ fraction = fraction' := by
  obtain ⟨integers, fractions⟩ :=
    List.append_inj' same (by rw [List.length_cons, List.length_cons, length])
  exact ⟨integers, (List.cons.inj fractions).2⟩

end Fractions

section Commas

/-- A comma before every third digit from the end. -/
def insertCommas : List Char → List Char
  | [] => []
  | c :: rest =>
    if rest ≠ [] ∧ rest.length % 3 = 0 then c :: ',' :: insertCommas rest else c :: insertCommas rest

/-- Without its commas a text is what it was. -/
theorem withoutCommas_insertCommas (text : List Char) :
    withoutCommas (insertCommas text) = withoutCommas text := by
  induction text with
  | nil => rfl
  | cons c rest inductionHypothesis =>
    unfold withoutCommas at inductionHypothesis ⊢
    rw [insertCommas]
    split
    · rw [List.filter_cons, List.filter_cons_of_neg (by simp), inductionHypothesis, List.filter_cons]
    · rw [List.filter_cons, inductionHypothesis, List.filter_cons]

end Commas

end Hcexplorer.DecimalText

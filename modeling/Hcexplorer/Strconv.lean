import Hcexplorer.Dbtypes.ArrayValues
import Hcexplorer.Library.DecimalText
import Mathlib.Algebra.Order.Ring.Int

/-!
# Numbers as texts

The functions of `strconv` that the program formats and reads signed numbers with, on the
characters of their texts. What `FormatInt` writes, `ParseInt` reads.
-/

namespace Hcexplorer.Strconv

open Dbtypes (parseUint isDecimal_decimalDigits)

/-- A string of ASCII characters, as a list of them. -/
abbrev Text := List Char

section Model

/-- `strconv.FormatInt(v, 10)`: the decimal digits, behind a sign if the number is negative. -/
def formatInt (v : Int64) : Text :=
  if v < 0 then '-' :: Nat.toDigits 10 v.toInt.natAbs else Nat.toDigits 10 v.toInt.natAbs

/-- `strconv.ParseInt(s, 10, 64)`, without its error: digits behind an optional sign, of a value
in range. -/
def parseInt (s : Text) : Option Int64 :=
  let digits := if s.head? = some '-' ∨ s.head? = some '+' then s.tail else s
  match parseUint (digits.map fun c => UInt8.ofNat c.toNat) with
  | .error _ => none
  | .ok n =>
    if s.head? = some '-' then if 2 ^ 63 < n.toNat then none else some (Int64.ofInt (-n.toNat))
    else if 2 ^ 63 ≤ n.toNat then none else some (Int64.ofInt n.toNat)

/-- `strconv.Atoi`, where an `int` has 64 bits, so that it is the same as `ParseInt`. -/
def atoi (s : Text) : Option Int64 := parseInt s

end Model

/-- The digits of a number that fits are read. -/
theorem parseUint_digits {n : Nat} (fits : n < 2 ^ 64) :
    parseUint ((Nat.toDigits 10 n).map fun c => UInt8.ofNat c.toNat) = .ok (UInt64.ofNat n) := by
  have value : (UInt64.ofNat n).toNat = n := UInt64.toNat_ofNat_of_lt' fits
  have isDecimal := isDecimal_decimalDigits (UInt64.ofNat n)
  rw [Dbtypes.decimalDigits, value] at isDecimal
  exact isDecimal.parseUint

/-- The digits of a number do not begin with a sign. -/
theorem head?_digits (n : Nat) {sign : Char} (noDigit : ¬ sign.isDigit) :
    (Nat.toDigits 10 n).head? ≠ some sign :=
  fun same => noDigit (DecimalText.isDigit_toDigits sign (List.mem_of_head? same))

/-- A number that is not negative is written in its digits. -/
theorem formatInt_nonneg {v : Int64} (nonneg : 0 ≤ v.toInt) :
    formatInt v = Nat.toDigits 10 v.toInt.toNat := by
  have notBelow : ¬ v < 0 := by rw [Int64.lt_iff_toInt_lt, Int64.toInt_zero]; omega
  have natural : v.toInt.natAbs = v.toInt.toNat := by omega
  rw [formatInt, if_neg notBelow, natural]

/-- The number that is written is the number that is read. -/
theorem parseInt_formatInt (v : Int64) : parseInt (formatInt v) = some v := by
  have low := v.le_toInt
  have high := v.toInt_lt
  have fits : v.toInt.natAbs < 2 ^ 64 := by omega
  have value : (UInt64.ofNat v.toInt.natAbs).toNat = v.toInt.natAbs := UInt64.toNat_ofNat_of_lt' fits
  by_cases negative : v < 0
  · have below : v.toInt < 0 := by rwa [Int64.lt_iff_toInt_lt, Int64.toInt_zero] at negative
    have inside : ¬ 2 ^ 63 < v.toInt.natAbs := by omega
    have signed : -(v.toInt.natAbs : Int) = v.toInt := by omega
    simp only [formatInt, if_pos negative, parseInt, List.head?_cons, true_or, if_true, List.tail_cons,
      parseUint_digits fits, value, if_neg inside, signed, Int64.ofInt_toInt]
  · have notBelow : 0 ≤ v.toInt := by
      rw [Int64.lt_iff_toInt_lt, Int64.toInt_zero] at negative
      omega
    have inside : ¬ 2 ^ 63 ≤ v.toInt.natAbs := by omega
    have natural : (v.toInt.natAbs : Int) = v.toInt := by omega
    have noMinus : (Nat.toDigits 10 v.toInt.natAbs).head? ≠ some '-' := head?_digits _ (by decide)
    have noPlus : (Nat.toDigits 10 v.toInt.natAbs).head? ≠ some '+' := head?_digits _ (by decide)
    simp only [formatInt, if_neg negative, parseInt, noMinus, noPlus, or_self, if_false,
      parseUint_digits fits, value, if_neg inside, natural, Int64.ofInt_toInt]

end Hcexplorer.Strconv

import Hcexplorer.Strconv

/-!
# The decimal parts of an amount

The templates of the explorer and of the web interface write an amount of atoms as coins, in three
parts: the digits before the point, those after it up to the last one that is not zero, and the
zeros that are left of eight places. Both have the same function for it.

`humanize.Comma` is a parameter, which only inserts commas into the digits of a number.
-/

namespace Hcexplorer

open Strconv DecimalText

section Model

/-- The function of the templates. The amounts are texts of ASCII characters, so that the slices
are those of the characters. -/
def decimalPartsOf (comma : Int64 → Text) (v : Int64) (useCommas : Bool) : List Text :=
  let amt := formatInt v
  if amt.length ≤ 8 then
    let dec := amt.rdropWhile (· = '0')
    let trailingZeros := List.replicate (amt.length - dec.length) '0'
    let leadingZeros := List.replicate (8 - amt.length) '0'
    [['0'], leadingZeros ++ dec, trailingZeros]
  else
    let integer := amt.take (amt.length - 8)
    let dec := (amt.drop (amt.length - 8)).rdropWhile (· = '0')
    let zeros := List.replicate (8 - dec.length) '0'
    if useCommas then
      match parseInt integer with
      | none => ["ERROR".toList, "VALUE".toList, []]
      | some integerAsInt64 => [comma integerAsInt64, dec, zeros]
    else [integer, dec, zeros]

/-- `amountAsDecimalParts` of `explorer.go`, one of the two copies of the function. -/
def Explorer.amountAsDecimalParts (comma : Int64 → Text) (v : Int64) (useCommas : Bool) : List Text :=
  decimalPartsOf comma v useCommas

/-- `amountAsDecimalParts` of `web.go`, the other copy, for the web UI. -/
def WebUI.amountAsDecimalParts (comma : Int64 → Text) (v : Int64) (useCommas : Bool) : List Text :=
  decimalPartsOf comma v useCommas

/-- The text that the template `decimalParts` makes of the three parts: the integer part, a
point, the decimals and the zeros behind them. -/
def decimalParts (parts : List Text) : Text :=
  parts.getD 0 [] ++ '.' :: (parts.getD 1 [] ++ parts.getD 2 [])

end Model

section Laws

variable {comma : Int64 → Text}

/-- A formatter that only inserts commas into the digits of a number that is not negative. -/
def InsertsCommas (comma : Int64 → Text) : Prop :=
  ∀ n : Int64, 0 ≤ n → withoutCommas (comma n) = formatInt n

/-- Parts that show an amount: digits before the point, with or without commas, and eight after it,
of which those cut off are zeros and the last one before them is none, unless the amount is zero. -/
structure Shows (v : Int64) (integer dec zeros : Text) : Prop where
  integerDigits : ∀ c ∈ withoutCommas integer, c.isDigit
  integerNonempty : withoutCommas integer ≠ []
  decimalDigits : ∀ c ∈ dec ++ zeros, c.isDigit
  places : (dec ++ zeros).length = 8
  areZeros : ∀ c ∈ zeros, c = '0'
  significant : v ≠ 0 → dec.getLast? ≠ some '0'
  denotes : fractionValue (withoutCommas integer) (dec ++ zeros) = (v.toInt : ℚ) / 10 ^ 8

/-- The text of an amount that is not negative has only digits, and no sign. -/
theorem isDigit_formatInt {v : Int64} (nonneg : 0 ≤ v.toInt) : ∀ c ∈ formatInt v, c.isDigit := by
  rw [formatInt_nonneg nonneg]
  exact isDigit_toDigits

/-- The digits of the text of an amount that is not negative denote the amount. -/
theorem ofDigitChars_formatInt {v : Int64} (nonneg : 0 ≤ v.toInt) :
    Nat.ofDigitChars 10 (formatInt v) 0 = v.toInt.toNat := by
  rw [formatInt_nonneg nonneg, Nat.ofDigitChars_ten_toDigits]

/-- Digits that denote an amount show it with a point before the last eight of them. -/
theorem Shows.of_digits {v : Int64} (nonneg : 0 ≤ v.toInt) {coins low integer dec zeros : Text}
    (value : Nat.ofDigitChars 10 (coins ++ low) 0 = v.toInt.toNat)
    (areDigits : ∀ c ∈ coins ++ low, c.isDigit) (nonempty : coins ≠ []) (length : low.length = 8)
    (isInteger : withoutCommas integer = coins) (isFraction : dec ++ zeros = low)
    (areZeros : ∀ c ∈ zeros, c = '0') (significant : v ≠ 0 → dec.getLast? ≠ some '0') :
    Shows v integer dec zeros where
  integerDigits := by
    rw [isInteger]
    exact fun c member => areDigits c (List.mem_append_left _ member)
  integerNonempty := by rwa [isInteger]
  decimalDigits := by
    rw [isFraction]
    exact fun c member => areDigits c (List.mem_append_right _ member)
  places := by rw [isFraction, length]
  areZeros := areZeros
  significant := significant
  denotes := by
    have natural : ((v.toInt.toNat : Nat) : Int) = v.toInt := Int.toNat_of_nonneg nonneg
    rw [isInteger, isFraction, fractionValue_append, length, value, ← Int.cast_natCast, natural]

/-- Amounts below one coin have the integer part zero, and their decimals are padded with zeros
in front. -/
theorem decimalPartsOf_small {v : Int64} (nonneg : 0 ≤ v.toInt) (small : v.toInt.toNat < 10 ^ 8)
    (useCommas : Bool) :
    ∃ integer dec zeros, decimalPartsOf comma v useCommas = [integer, dec, zeros] ∧
      Shows v integer dec zeros := by
  have short : (formatInt v).length ≤ 8 := by
    rw [formatInt_nonneg nonneg]
    exact (Nat.length_toDigits_le_iff (by decide) (by decide)).mpr small
  have length : (List.replicate (8 - (formatInt v).length) '0' ++ formatInt v).length = 8 := by
    rw [List.length_append, List.length_replicate]
    omega
  have value : Nat.ofDigitChars 10
      (List.replicate 1 '0' ++ (List.replicate (8 - (formatInt v).length) '0' ++ formatInt v)) 0 =
        v.toInt.toNat := by
    rw [ofDigitChars_zeros, ofDigitChars_zeros, ofDigitChars_formatInt nonneg]
  have areDigits := isDigit_zeros 1
    (isDigit_zeros (8 - (formatInt v).length) (isDigit_formatInt nonneg))
  refine ⟨['0'], List.replicate (8 - (formatInt v).length) '0' ++ (formatInt v).rdropWhile (· = '0'),
    _, if_pos short,
    Shows.of_digits nonneg value areDigits (List.cons_ne_nil _ _) length (by decide) ?_ ?_ ?_⟩
  · rw [List.append_assoc, rdropWhile_append_zeros]
  · exact fun c member => List.eq_of_mem_replicate member
  · intro nonzero
    have left : (formatInt v).rdropWhile (· = '0') ≠ [] := by
      refine rdropWhile_ne_nil ?_
      rw [ofDigitChars_formatInt nonneg]
      intro zero
      exact nonzero (Int64.toInt_inj.mp (by rw [Int64.toInt_zero]; omega))
    rw [List.getLast?_append_of_ne_nil _ left]
    exact getLast?_rdropWhile _

/-- Amounts from one coin on have their last eight digits as decimals, and the digits before
these, with or without commas, as the integer part. -/
theorem decimalPartsOf_large (inserts : InsertsCommas comma) {v : Int64} (nonneg : 0 ≤ v.toInt)
    (large : 10 ^ 8 ≤ v.toInt.toNat) (useCommas : Bool) :
    ∃ integer dec zeros, decimalPartsOf comma v useCommas = [integer, dec, zeros] ∧
      Shows v integer dec zeros := by
  have high := v.toInt_lt
  obtain ⟨low, split, length⟩ := toDigits_split 8 large
  rw [← formatInt_nonneg nonneg] at split
  -- the digits before the last eight are those of the coins
  have coins : (Int64.ofInt (v.toInt.toNat / 10 ^ 8 : Nat)).toInt = (v.toInt.toNat / 10 ^ 8 : Nat) :=
    Int64.toInt_ofInt_of_le (by omega) (by omega)
  have coinsNonneg : 0 ≤ (Int64.ofInt (v.toInt.toNat / 10 ^ 8 : Nat)).toInt := by
    rw [coins]
    exact Int.natCast_nonneg _
  have integerText : formatInt (Int64.ofInt (v.toInt.toNat / 10 ^ 8 : Nat)) =
      Nat.toDigits 10 (v.toInt.toNat / 10 ^ 8) := by
    rw [formatInt_nonneg coinsNonneg, coins, Int.toNat_natCast]
  rw [← integerText] at split
  have nonempty : formatInt (Int64.ofInt (v.toInt.toNat / 10 ^ 8 : Nat)) ≠ [] := by
    rw [integerText]
    exact Nat.toDigits_ne_nil
  have long : ¬ (formatInt v).length ≤ 8 := by
    have positive := List.length_pos_of_ne_nil nonempty
    rw [split, List.length_append, length]
    omega
  have place : (formatInt v).length - 8 =
      (formatInt (Int64.ofInt (v.toInt.toNat / 10 ^ 8 : Nat))).length := by
    rw [split, List.length_append, length, Nat.add_sub_cancel]
  have integer : (formatInt v).take ((formatInt v).length - 8) =
      formatInt (Int64.ofInt (v.toInt.toNat / 10 ^ 8 : Nat)) := by
    rw [place, split, List.take_left]
  have fraction : (formatInt v).drop ((formatInt v).length - 8) = low := by
    rw [place, split, List.drop_left]
  have value := ofDigitChars_formatInt nonneg
  have areDigits := isDigit_formatInt nonneg
  rw [split] at value areDigits
  have putBack := rdropWhile_append_zeros low
  rw [length] at putBack
  have shows : ∀ integer,
      withoutCommas integer = formatInt (Int64.ofInt (v.toInt.toNat / 10 ^ 8 : Nat)) →
        Shows v integer (low.rdropWhile (· = '0'))
          (List.replicate (8 - (low.rdropWhile (· = '0')).length) '0') :=
    fun integer isInteger => Shows.of_digits nonneg value areDigits nonempty length isInteger putBack
      (fun c member => List.eq_of_mem_replicate member) fun _ => getLast?_rdropWhile low
  cases useCommas with
  | false =>
    refine ⟨_, _, _, ?_, shows _ (withoutCommas_digits (isDigit_formatInt coinsNonneg))⟩
    simp only [decimalPartsOf, if_neg long, integer, fraction, Bool.false_eq_true, if_false]
  | true =>
    have notBelow : 0 ≤ Int64.ofInt (v.toInt.toNat / 10 ^ 8 : Nat) := by
      rwa [Int64.le_iff_toInt_le, Int64.toInt_zero]
    refine ⟨_, _, _, ?_, shows _ (inserts _ notBelow)⟩
    simp only [decimalPartsOf, if_neg long, integer, fraction, if_true, parseInt_formatInt]

/-- The parts of every amount that is not negative show the amount, in both formats. -/
theorem decimalPartsOf_shows (inserts : InsertsCommas comma) {v : Int64} (nonneg : 0 ≤ v)
    (useCommas : Bool) :
    ∃ integer dec zeros, decimalPartsOf comma v useCommas = [integer, dec, zeros] ∧
      Shows v integer dec zeros := by
  have notBelow : 0 ≤ v.toInt := by rwa [Int64.le_iff_toInt_le, Int64.toInt_zero] at nonneg
  by_cases small : v.toInt.toNat < 10 ^ 8
  · exact decimalPartsOf_small notBelow small useCommas
  · exact decimalPartsOf_large inserts notBelow (Nat.le_of_not_lt small) useCommas

/-- The text of parts has no commas after the point. -/
theorem Shows.withoutCommas_decimalParts {v : Int64} {integer dec zeros : Text}
    (shows : Shows v integer dec zeros) : withoutCommas (decimalParts [integer, dec, zeros]) =
      withoutCommas integer ++ '.' :: (dec ++ zeros) := by
  have fraction := withoutCommas_digits shows.decimalDigits
  unfold withoutCommas at fraction ⊢
  change (integer ++ '.' :: (dec ++ zeros)).filter _ = _
  rw [List.filter_append, List.filter_cons_of_pos (by decide), fraction]

/-- Texts that are the same apart from commas show the same amount. -/
theorem Shows.injective {v v' : Int64} {integer dec zeros integer' dec' zeros' : Text}
    (shows : Shows v integer dec zeros) (shows' : Shows v' integer' dec' zeros')
    (same : withoutCommas (decimalParts [integer, dec, zeros]) =
      withoutCommas (decimalParts [integer', dec', zeros'])) : v = v' := by
  rw [shows.withoutCommas_decimalParts, shows'.withoutCommas_decimalParts] at same
  obtain ⟨integers, fractions⟩ :=
    point_injective same (shows.places.trans shows'.places.symm)
  have denoted := shows.denotes
  rw [integers, fractions, shows'.denotes] at denoted
  have atoms : (v'.toInt : ℚ) = v.toInt := (div_left_inj' (by norm_num)).mp denoted
  exact Int64.toInt_inj.mp (by exact_mod_cast atoms.symm)

/-- A function of amounts whose parts show them exactly, and whose texts of different amounts are
different, commas or not. -/
def ShowsAmounts (parts : Int64 → Bool → List Text) : Prop :=
  (∀ v useCommas, 0 ≤ v → ∃ integer dec zeros,
    parts v useCommas = [integer, dec, zeros] ∧ Shows v integer dec zeros) ∧
  ∀ v v' useCommas useCommas', 0 ≤ v → 0 ≤ v' →
    withoutCommas (decimalParts (parts v useCommas)) =
      withoutCommas (decimalParts (parts v' useCommas')) → v = v'

/-- The parts of both templates show every amount exactly. -/
theorem amountAsDecimalParts_shows (inserts : InsertsCommas comma) :
    ShowsAmounts (Explorer.amountAsDecimalParts comma) ∧
      ShowsAmounts (WebUI.amountAsDecimalParts comma) := by
  have both : ShowsAmounts (decimalPartsOf comma) := by
    refine ⟨fun v useCommas nonneg => decimalPartsOf_shows inserts nonneg useCommas, ?_⟩
    intro v v' useCommas useCommas' nonneg nonneg' same
    obtain ⟨_, _, _, parts, shows⟩ := decimalPartsOf_shows inserts nonneg useCommas
    obtain ⟨_, _, _, parts', shows'⟩ := decimalPartsOf_shows inserts nonneg' useCommas'
    rw [parts, parts'] at same
    exact shows.injective shows' same
  exact ⟨both, both⟩

end Laws

section Samples

/-- What `humanize.Comma` returns: a comma before every third digit from the end, and the sign. -/
def sampleComma (n : Int64) : Text :=
  if n < 0 then '-' :: insertCommas (Nat.toDigits 10 n.toInt.natAbs) else insertCommas (formatInt n)

/-- The sample function for commas only inserts commas: without them the digits are those of the
number. -/
theorem sampleComma_inserts : InsertsCommas sampleComma := by
  intro n nonneg
  have natural : 0 ≤ n.toInt := by rwa [Int64.le_iff_toInt_le, Int64.toInt_zero] at nonneg
  have notBelow : ¬ n < 0 := by rw [Int64.lt_iff_toInt_lt, Int64.toInt_zero]; omega
  rw [sampleComma, if_neg notBelow, withoutCommas_insertCommas, formatInt_nonneg natural]
  exact withoutCommas_digits isDigit_toDigits

/-- The parts of every amount with this formatter, and those of 1234567.890001 coins. -/
theorem amountAsDecimalParts_sample :
    ShowsAmounts (Explorer.amountAsDecimalParts sampleComma) ∧
      ShowsAmounts (WebUI.amountAsDecimalParts sampleComma) ∧
      Explorer.amountAsDecimalParts sampleComma 123456789000100 true =
        ["1,234,567".toList, "890001".toList, "00".toList] := by
  obtain ⟨explorer, web⟩ := amountAsDecimalParts_shows sampleComma_inserts
  exact ⟨explorer, web, by decide +kernel⟩

end Samples

end Hcexplorer

import Hcexplorer.Dbtypes.ArrayGrammar

/-!
# The writer of PostgreSQL arrays

`UInt64Array.Value` writes the text that `UInt64Array.Scan` reads. The text of a nonempty
array is an opening brace, the numbers in decimal digits with commas between them, and a
closing brace. The parser is followed through it: a digit is none of the characters that it
looks for, so each number is a bare element, and the one dimension counts them. The numbers
that `strconv.ParseUint` reads are those that `strconv.AppendUint` wrote.

An array without numbers is read before the dimensions are made. A nil array is no text.
-/

namespace Hcexplorer.Dbtypes

open Machines

section Model

/-- The decimal digits of a number as bytes, without leading zeros. -/
def decimalDigits (value : UInt64) : Bytes :=
  (Nat.toDigits 10 value.toNat).map fun c => UInt8.ofNat c.toNat

/-- `strconv.AppendUint(dst, value, 10)`: the digits of the number go behind the bytes that are
there. -/
def appendUint (dst : Bytes) (value : UInt64) : Bytes := dst ++ decimalDigits value

/-- `Value`, the text of a slice as an array constructor, or nil for a nil slice. Its error is
always nil. -/
def UInt64Array.value : UInt64Array → Source
  | none => .nil
  | some [] => .string [openBrace, closeBrace]
  | some (first :: rest) =>
    .string (rest.foldl (fun b each => appendUint (b ++ [comma]) each) (appendUint [openBrace] first) ++
      [closeBrace])

end Model

section Numbers

/-- A decimal digit fits into a byte, so the byte has the code of the character. -/
theorem toNat_digit {c : Char} (isDigit : c.isDigit) : (UInt8.ofNat c.toNat).toNat = c.toNat := by
  obtain ⟨-, high⟩ := Char.isDigit_iff_toNat.mp isDigit
  have bound : ('9' : Char).toNat = 57 := rfl
  exact UInt8.toNat_ofNat_of_lt' (Nat.lt_of_le_of_lt high (by decide))

/-- The digits of a number are a number in decimal digits. -/
theorem isDecimal_decimalDigits (value : UInt64) : IsDecimal (decimalDigits value) value := by
  have digits : ∀ c ∈ Nat.toDigits 10 value.toNat, c.isDigit :=
    fun c member => Nat.isDigit_of_mem_toDigits (by decide) (by decide) member
  refine ⟨fun none_ => Nat.toDigits_ne_nil (List.map_eq_nil_iff.mp none_), ?_, ?_⟩
  · intro byte member
    obtain ⟨c, isDigit, rfl⟩ := List.mem_map.mp member
    have range := Char.isDigit_iff_toNat.mp (digits c isDigit)
    have same := toNat_digit (digits c isDigit)
    rw [UInt8.le_iff_toNat_le, UInt8.le_iff_toNat_le, same]
    exact range
  · have folds : ∀ (chars : List Char) (n : Nat), (∀ c ∈ chars, c.isDigit) →
        (chars.map fun c => UInt8.ofNat c.toNat).foldl (fun n c => 10 * n + (c.toNat - 48)) n =
          Nat.ofDigitChars 10 chars n := by
      intro chars
      induction chars with
      | nil => exact fun n _ => Nat.ofDigitChars_nil.symm
      | cons c rest inductionHypothesis =>
        intro n digits
        rw [List.map_cons, List.foldl_cons, toNat_digit (digits c List.mem_cons_self),
          inductionHypothesis _ fun each member => digits each (List.mem_cons_of_mem _ member),
          Nat.ofDigitChars_cons]
        rfl
    rw [decimalDigits, folds _ _ digits, Nat.ofDigitChars_ten_toDigits]

/-- The digits that are left are read, when the value fits. -/
theorem parseDigits_of {digits : Bytes} {n : Nat} (areDigits : ∀ c ∈ digits, 48 ≤ c ∧ c ≤ 57)
    (fits : digits.foldl (fun n c => 10 * n + (c.toNat - 48)) n < 18446744073709551616) :
    parseDigits n digits = .ok (UInt64.ofNat (digits.foldl (fun n c => 10 * n + (c.toNat - 48)) n)) := by
  have grows : ∀ (digits : Bytes) (n : Nat),
      n ≤ digits.foldl (fun n c => 10 * n + (c.toNat - 48)) n := by
    intro digits
    induction digits with
    | nil => exact fun n => Nat.le_refl n
    | cons c rest inductionHypothesis =>
      intro n
      have further := inductionHypothesis (10 * n + (c.toNat - 48))
      rw [List.foldl_cons]
      omega
  induction digits generalizing n with
  | nil => rfl
  | cons c rest inductionHypothesis =>
    rw [List.foldl_cons] at fits ⊢
    have soFar : 10 * n + (c.toNat - 48) < 18446744073709551616 := Nat.lt_of_le_of_lt (grows rest _) fits
    rw [parseDigits, if_pos (areDigits c List.mem_cons_self)]
    simp only [if_pos soFar]
    exact inductionHypothesis (fun each member => areDigits each (List.mem_cons_of_mem _ member)) fits

/-- `strconv.ParseUint` accepts every number in decimal digits and returns the number. -/
theorem IsDecimal.parseUint {digits : Bytes} {value : UInt64} (isDecimal : IsDecimal digits value) :
    parseUint digits = .ok value := by
  obtain ⟨nonempty, areDigits, isValue⟩ := isDecimal
  rw [Dbtypes.parseUint, if_neg nonempty,
    parseDigits_of areDigits (isValue ▸ value.toNat_lt), isValue, UInt64.ofNat_toNat]

/-- The loop of `scanBytes` over numbers in decimal digits. -/
theorem parseElems_decimal {texts : List Bytes} {values : List UInt64}
    (decimal : List.Forall₂ IsDecimal texts values) (i : Nat) :
    parseElems i (texts.map some) = .ok values := by
  induction decimal generalizing i with
  | nil => rfl
  | @cons text value texts values isDecimal _ inductionHypothesis =>
    rw [List.map_cons, parseElems, Option.getD_some, isDecimal.parseUint]
    simp only [inductionHypothesis]
    rfl

end Numbers

section Reading

variable {src : Bytes} {i start : Nat} {depth : Int} {dims : List Int} {elems : List (Option Bytes)}

/-- A loop looks at the character that is ahead. -/
theorem whileReading_found {ended : Step} {pass : UInt8 → Step} {c : UInt8} {ahead : Bytes}
    (isAhead : src.drop i = c :: ahead) : whileReading src i ended pass = pass c := by
  have found : src[i]? = some c := by rw [← List.head?_drop, isAhead, List.head?_cons]
  obtain ⟨inside, -⟩ := List.getElem?_eq_some_iff.mp found
  rw [whileReading, if_pos inside, found]

/-- A loop that reads characters ends where the text does, with what it does at the end. -/
theorem whileReading_ended {ended : Step} {pass : UInt8 → Step} (isEnd : src.drop i = []) :
    whileReading src i ended pass = ended := by
  rw [whileReading, if_neg (Nat.not_lt.mpr (List.drop_eq_nil_iff.mp isEnd))]

/-- After the character at an index, the rest of the text is what stands behind it. -/
theorem drop_next {c : UInt8} {ahead : Bytes} (isAhead : src.drop i = c :: ahead) :
    src.drop (i + 1) = ahead := by
  rw [← List.tail_drop, isAhead, List.tail_cons]

/-- A character that ends a bare element, as the parser tests it: a comma or a closing brace. -/
def EndsElement (c : UInt8) : Prop := c = comma ∨ c = closeBrace

/-- A bare element is read up to a character that ends it. Induction on its characters that are
left. -/
theorem bare_reaches {front text ahead : Bytes} {c : UInt8} (ends : EndsElement c)
    (within : ∀ each ∈ text, ¬ EndsElement each) (nonempty : front ++ text ≠ [])
    (notNull : front ++ text ≠ nullText) (isStart : src.drop start = front ++ text ++ c :: ahead) :
    Reaches (parseStep src [comma]) ⟨.bare start, depth, start + front.length, dims, elems⟩
      ⟨.separator, depth, start + (front ++ text).length, dims, elems ++ [some (front ++ text)]⟩ := by
  induction text generalizing front with
  | nil =>
    rw [List.append_nil] at isStart nonempty notNull ⊢
    have isAhead : src.drop (start + front.length) = c :: ahead := by
      rw [← List.drop_drop, isStart, List.drop_left]
    have found : src[start + front.length]? = some c := by
      rw [← List.head?_drop, isAhead, List.head?_cons]
    have leaves : hasPrefix src (start + front.length) [comma] ∨ c = closeBrace := by
      rcases ends with rfl | isClose
      · exact Or.inl (hasPrefix_comma.mpr found)
      · exact Or.inr isClose
    have inside : start + front.length ≤ src.length := by
      obtain ⟨inside, -⟩ := List.getElem?_eq_some_iff.mp found
      exact Nat.le_of_lt inside
    have read : slice src start (start + front.length) = .returned front := by
      rw [slice, if_pos ⟨Nat.le_add_right _ _, inside⟩, List.drop_take, isStart,
        Nat.add_sub_cancel_left, List.take_left]
    apply Relation.ReflTransGen.single
    show bareStep src [comma] start ⟨.bare start, depth, start + front.length, dims, elems⟩ = _
    rw [bareStep, whileReading_found isAhead, if_pos leaves, read]
    simp only [Outcome.bind_returned, if_neg nonempty, if_neg notNull]
    rfl
  | cons first rest inductionHypothesis =>
    have isAhead : src.drop (start + front.length) = first :: (rest ++ c :: ahead) := by
      rw [← List.drop_drop, isStart, List.append_assoc, List.drop_left]
      rfl
    have found : src[start + front.length]? = some first := by
      rw [← List.head?_drop, isAhead, List.head?_cons]
    have stays : ¬ (hasPrefix src (start + front.length) [comma] ∨ first = closeBrace) := by
      rintro (isComma | isClose)
      · exact within first List.mem_cons_self
          (Or.inl (Option.some.inj (found.symm.trans (hasPrefix_comma.mp isComma))))
      · exact within first List.mem_cons_self (Or.inr isClose)
    have rejoined : front ++ [first] ++ rest = front ++ first :: rest := by simp
    rw [← rejoined] at nonempty notNull isStart
    have further := inductionHypothesis
      (fun each member => within each (List.mem_cons_of_mem _ member)) nonempty notNull isStart
    rw [rejoined, List.length_append, List.length_singleton, ← Nat.add_assoc] at further
    refine Relation.ReflTransGen.head ?_ further
    show bareStep src [comma] start ⟨.bare start, depth, start + front.length, dims, elems⟩ = _
    rw [bareStep, whileReading_found isAhead, if_neg stays]
    rfl

/-- A digit is none of the characters that the parser looks for. -/
theorem digit_plain {c : UInt8} (isDigit : 48 ≤ c ∧ c ≤ 57) :
    c ≠ openBrace ∧ c ≠ doubleQuote ∧ ¬ EndsElement c := by
  obtain ⟨low, high⟩ := isDigit
  rw [UInt8.le_iff_toNat_le] at low high
  refine ⟨?_, ?_, ?_⟩
  · rintro rfl
    exact absurd high (by decide)
  · rintro rfl
    exact absurd low (by decide)
  · rintro (rfl | rfl)
    · exact absurd low (by decide)
    · exact absurd high (by decide)

/-- A number is read, from where an element begins. -/
theorem number_reaches {text ahead : Bytes} {value : UInt64} {c : UInt8} (isDecimal : IsDecimal text value)
    (ends : EndsElement c) (isStart : src.drop start = text ++ c :: ahead) :
    Reaches (parseStep src [comma]) ⟨.element, depth, start, dims, elems⟩
      ⟨.separator, depth, start + text.length, dims, elems ++ [some text]⟩ := by
  obtain ⟨nonempty, digits, -⟩ := isDecimal
  have notNull : text ≠ nullText := by
    rintro rfl
    exact absurd (digits 78 List.mem_cons_self) (by decide)
  obtain ⟨first, rest, rfl⟩ := List.exists_cons_of_ne_nil nonempty
  obtain ⟨notOpen, notQuote, -⟩ := digit_plain (digits first List.mem_cons_self)
  have reads : Reaches (parseStep src [comma]) ⟨.bare start, depth, start + ([] : Bytes).length, dims, elems⟩
      ⟨.separator, depth, start + ([] ++ first :: rest).length, dims, elems ++ [some ([] ++ first :: rest)]⟩ :=
    bare_reaches ends (fun each member => (digit_plain (digits each member)).2.2) nonempty notNull isStart
  refine Relation.ReflTransGen.head ?_ reads
  show elementStep src ⟨.element, depth, start, dims, elems⟩ = _
  rw [elementStep, whileReading_found isStart]
  simp only [if_neg notOpen, if_neg notQuote]
  rfl

/-- Numbers with commas between them are read, and counted in the one dimension, up to the end of
the text behind the closing brace. Induction on the numbers. -/
theorem numbers_reach {texts : List Bytes} {values : List UInt64}
    (decimal : List.Forall₂ IsDecimal texts values) {count : Int} (nonempty : texts ≠ [])
    (isAhead : src.drop i = [comma].intercalate texts ++ [closeBrace]) :
    ∃ last, src.drop last = [] ∧
      Reaches (parseStep src [comma]) ⟨.element, 1, i, [count], elems⟩
        ⟨.separator, 0, last, [count + texts.length], elems ++ texts.map some⟩ := by
  induction decimal generalizing i count elems with
  | nil => exact absurd rfl nonempty
  | @cons text value texts values isDecimal rest inductionHypothesis =>
    by_cases isLast : texts = []
    · subst isLast
      have isStart : src.drop i = text ++ [closeBrace] := by
        rw [isAhead]
        simp [List.intercalate]
      have closing : src.drop (i + text.length) = [closeBrace] := by
        rw [← List.drop_drop, isStart, List.drop_left]
      refine ⟨i + text.length + 1, drop_next closing, (number_reaches isDecimal (Or.inr rfl) isStart).tail ?_⟩
      show separatorStep src [comma] ⟨.separator, 1, i + text.length, [count], elems ++ [some text]⟩ = _
      have positive : (0 : Int) < 1 := by decide
      have notComma : ¬ (hasPrefix src (i + text.length) [comma] ∧ (0 : Int) < 1) := by
        rintro ⟨isComma, -⟩
        rw [hasPrefix, closing] at isComma
        exact absurd isComma (by decide)
      rw [separatorStep, whileReading_found closing, if_neg notComma, if_pos ⟨rfl, positive⟩]
      rfl
    · have isStart : src.drop i = text ++ comma :: ([comma].intercalate texts ++ [closeBrace]) := by
        rw [isAhead, List.intercalate_cons_of_ne_nil isLast]
        simp
      have separated : src.drop (i + text.length) = comma :: ([comma].intercalate texts ++ [closeBrace]) := by
        rw [← List.drop_drop, isStart, List.drop_left]
      have isComma : hasPrefix src (i + text.length) [comma] ∧ (0 : Int) < 1 := by
        refine ⟨?_, by decide⟩
        rw [hasPrefix, separated]
        rfl
      obtain ⟨last, isEnd, further⟩ : ∃ last, src.drop last = [] ∧
          Reaches (parseStep src [comma]) ⟨.element, 1, i + text.length + 1, [count + 1], elems ++ [some text]⟩
            ⟨.separator, 0, last, [count + 1 + texts.length], elems ++ [some text] ++ texts.map some⟩ :=
        inductionHypothesis isLast (drop_next separated)
      have next : GoesOn (parseStep src [comma])
          ⟨.separator, 1, i + text.length, [count], elems ++ [some text]⟩
          ⟨.element, 1, i + text.length + 1, [count + 1], elems ++ [some text]⟩ := by
        show separatorStep src [comma] ⟨.separator, 1, i + text.length, [count], elems ++ [some text]⟩ = _
        rw [separatorStep, whileReading_found separated, if_pos isComma]
        rfl
      have counted : count + 1 + (texts.length : Int) = count + ((text :: texts).length : Int) := by
        rw [List.length_cons]
        omega
      rw [counted, List.append_assoc] at further
      exact ⟨last, isEnd, (number_reaches isDecimal (Or.inl rfl) isStart).trans (.head next further)⟩

/-- The parser reads the text of an array of numbers, and returns its length as the one dimension
and its elements in order. -/
theorem parseArray_arrayText {texts : List Bytes} {values : List UInt64}
    (decimal : List.Forall₂ IsDecimal texts values) (nonempty : texts ≠ []) :
    ∃ enough, ∀ fuel, enough ≤ fuel → parseArray fuel (arrayText texts) [comma] =
      .returned (.ok ([(texts.length : Int)], texts.map some)) := by
  have begins : (arrayText texts).drop 0 = openBrace :: ([comma].intercalate texts ++ [closeBrace]) := rfl
  have inside : (arrayText texts).drop 1 = [comma].intercalate texts ++ [closeBrace] := rfl
  obtain ⟨first, ahead, isAhead, isDigit⟩ : ∃ first ahead,
      [comma].intercalate texts ++ [closeBrace] = first :: ahead ∧ 48 ≤ first ∧ first ≤ 57 := by
    cases decimal with
    | nil => exact absurd rfl nonempty
    | @cons text value texts values isDecimal rest =>
      obtain ⟨nonemptyText, digits, -⟩ := isDecimal
      obtain ⟨first, others, rfl⟩ := List.exists_cons_of_ne_nil nonemptyText
      have isDigit := digits first List.mem_cons_self
      cases texts with
      | nil => exact ⟨first, others ++ [closeBrace], by simp [List.intercalate], isDigit⟩
      | cons second more =>
        rw [List.intercalate_cons_of_ne_nil (List.cons_ne_nil _ _)]
        exact ⟨first, _, rfl, isDigit⟩
  obtain ⟨notOpen, -, plain⟩ := digit_plain isDigit
  have notClose : first ≠ closeBrace := fun isClose => plain (Or.inr isClose)
  have opens : GoesOn (parseStep (arrayText texts) [comma]) parseStart ⟨.opening, 1, 1, [], []⟩ := by
    show openingStep (arrayText texts) ⟨.opening, 0, 0, [], []⟩ = _
    rw [openingStep, whileReading_found begins]
    rfl
  have makes : GoesOn (parseStep (arrayText texts) [comma]) ⟨.opening, 1, 1, [], []⟩
      ⟨.element, 1, 1, [0], []⟩ := by
    show openingStep (arrayText texts) ⟨.opening, 1, 1, [], []⟩ = _
    rw [openingStep, whileReading_found (inside.trans isAhead), if_neg notOpen, if_neg notClose]
    rfl
  obtain ⟨last, isEnd, reads⟩ : ∃ last, (arrayText texts).drop last = [] ∧
      Reaches (parseStep (arrayText texts) [comma]) ⟨.element, 1, 1, [0], []⟩
        ⟨.separator, 0, last, [0 + (texts.length : Int)], [] ++ texts.map some⟩ :=
    numbers_reach decimal nonempty inside
  rw [Int.zero_add, List.nil_append] at reads
  have closes : GoesOn (parseStep (arrayText texts) [comma])
      ⟨.separator, 0, last, [(texts.length : Int)], texts.map some⟩
      ⟨.closing, 0, last, [(texts.length : Int)], texts.map some⟩ := by
    show separatorStep (arrayText texts) [comma] ⟨.separator, 0, last, _, _⟩ = _
    rw [separatorStep, whileReading_ended isEnd]
    rfl
  have stops : parseStep (arrayText texts) [comma]
      ⟨.closing, 0, last, [(texts.length : Int)], texts.map some⟩ =
      .returned (.stop (.ok ([(texts.length : Int)], texts.map some))) := by
    have positive : (texts.length : Int) ≠ 0 := by
      have := List.length_pos_iff.mpr nonempty
      omega
    show closingStep (arrayText texts) ⟨.closing, 0, last, _, _⟩ = _
    rw [closingStep, whileReading_ended isEnd, finish, if_neg (Int.lt_irrefl 0), List.length_map,
      checkDims, if_neg positive, Int.tmod_self]
    rfl
  have reaches : Reaches (parseStep (arrayText texts) [comma]) parseStart
      ⟨.closing, 0, last, [(texts.length : Int)], texts.map some⟩ :=
    .head opens (.head makes (reads.tail closes))
  obtain ⟨enough, returns⟩ := Reaches.returns reaches stops
  refine ⟨enough, fun fuel isEnough => ?_⟩
  rw [parseArray, if_neg (fun begins => begins.elim (by simp [arrayText]) fun other => other rfl)]
  exact returns fuel isEnough

end Reading

section Law

/-- The text of a nonempty array, as the grammar has it. -/
theorem UInt64Array.value_cons (first : UInt64) (rest : List UInt64) :
    UInt64Array.value (some (first :: rest)) =
      .string (arrayText ((first :: rest).map decimalDigits)) := by
  have appends : ∀ (rest : List UInt64) (b : Bytes),
      rest.foldl (fun b each => appendUint (b ++ [comma]) each) b =
        b ++ rest.flatMap fun each => comma :: decimalDigits each := by
    intro rest
    induction rest with
    | nil => exact fun b => (List.append_nil b).symm
    | cons second more inductionHypothesis =>
      intro b
      rw [List.foldl_cons, inductionHypothesis, appendUint, List.flatMap_cons]
      simp
  have joins : ∀ (rest : List UInt64) (first : UInt64),
      [comma].intercalate ((first :: rest).map decimalDigits) =
        decimalDigits first ++ rest.flatMap fun each => comma :: decimalDigits each := by
    intro rest
    induction rest with
    | nil => simp [List.intercalate]
    | cons second more inductionHypothesis =>
      intro first
      rw [List.map_cons, List.intercalate_cons_of_ne_nil (by simp), inductionHypothesis second]
      simp
  rw [UInt64Array.value, appends, arrayText, joins]
  simp [appendUint]

/-- What `Value` writes, `Scan` reads: it succeeds, with any array in the receiver before, and
leaves the array that was written there. -/
theorem UInt64Array.scan_value (list a : UInt64Array) :
    ∃ enough, ∀ fuel, enough ≤ fuel → a.scan fuel list.value = .returned (none, list) := by
  cases list with
  | none => exact ⟨0, fun fuel _ => rfl⟩
  | some values =>
    cases values with
    | nil =>
      refine ⟨5, fun fuel enough => ?_⟩
      obtain ⟨more, rfl⟩ : ∃ more, fuel = more + 5 := ⟨fuel - 5, by omega⟩
      cases a <;> rfl
    | cons first rest =>
      have decimal : List.Forall₂ IsDecimal ((first :: rest).map decimalDigits) (first :: rest) := by
        rw [List.forall₂_map_left_iff]
        exact List.forall₂_same.mpr fun value _ => isDecimal_decimalDigits value
      have nonempty : (first :: rest).map decimalDigits ≠ [] := by simp
      obtain ⟨enough, returns⟩ := parseArray_arrayText decimal nonempty
      refine ⟨enough, fun fuel isEnough => ?_⟩
      have scanned : scanLinearArray fuel (arrayText ((first :: rest).map decimalDigits)) [comma]
          "UInt64Array" = .returned (.ok (((first :: rest).map decimalDigits).map some)) := by
        rw [scanLinearArray, returns fuel isEnough]
        rfl
      have some_ : ¬ (a.isSome ∧ (((first :: rest).map decimalDigits).map some).length = 0) := by simp
      rw [UInt64Array.value_cons, UInt64Array.scan, UInt64Array.scanBytes, scanned]
      simp only [Outcome.bind_returned, if_neg some_, parseElems_decimal decimal]

end Law

end Hcexplorer.Dbtypes

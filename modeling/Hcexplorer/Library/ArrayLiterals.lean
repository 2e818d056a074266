import Hcexplorer.Library.DecimalText

/-!
# The array constructor of PostgreSQL

An expression `ARRAY[...]` lists constants with commas between them: texts in single quotes, in
which a quote is doubled, and numbers. Behind it a cast may name the type of the elements, without
which an array of no elements has no type. What the expression denotes as an array of texts, or of
numbers of 64 bits, is read from its characters: a lexer with one state for each kind of token that
is begun, and a parser of the tokens.

The laws say how a written element is read, and what is read of a list of them.
-/

namespace Hcexplorer.ArrayLiterals

section Lexer

/-- A constant of the language: a text, or a number without a sign. -/
inductive Constant where
  | text (characters : List Char)
  | number (value : Nat)
deriving DecidableEq, Repr

/-- The tokens of the language, as far as array constructors use them. -/
inductive Token where
  | word (characters : List Char)
  | constant (value : Constant)
  | openBracket
  | closeBracket
  | comma
  | cast
deriving DecidableEq, Repr

/-- What has been begun: nothing, a word, a number, a text, a text whose last character is a quote,
or a cast. -/
inductive Begun where
  | nothing
  | word (characters : List Char)
  | number (value : Nat)
  | text (characters : List Char)
  | quote (characters : List Char)
  | colon
deriving DecidableEq, Repr

/-- The first character of a token, or a blank. -/
def start (c : Char) : Option (List Token × Begun) :=
  if c = '\'' then some ([], .text [])
  else if c = '[' then some ([.openBracket], .nothing)
  else if c = ']' then some ([.closeBracket], .nothing)
  else if c = ',' then some ([.comma], .nothing)
  else if c = ':' then some ([], .colon)
  else if c.isDigit then some ([], .number (c.toNat - 48))
  else if c.isAlpha then some ([], .word [c])
  else if c.isWhitespace then some ([], .nothing)
  else none

/-- The first character after a token begins another one. -/
def startAfter (token : Token) (c : Char) : Option (List Token × Begun) :=
  (start c).map fun (tokens, begun) => (token :: tokens, begun)

/-- A character either goes on with what has begun, or ends it and begins something else. -/
def next : Begun → Char → Option (List Token × Begun)
  | .nothing, c => start c
  | .word characters, c =>
    if c.isAlphanum then some ([], .word (characters ++ [c])) else startAfter (.word characters) c
  | .number value, c =>
    if c.isDigit then some ([], .number (10 * value + (c.toNat - 48)))
    else if c.isAlpha then none
    else startAfter (.constant (.number value)) c
  | .text characters, c =>
    if c = '\'' then some ([], .quote characters) else some ([], .text (characters ++ [c]))
  | .quote characters, c =>
    if c = '\'' then some ([], .text (characters ++ [c]))
    else startAfter (.constant (.text characters)) c
  | .colon, c => if c = ':' then some ([.cast], .nothing) else none

/-- The end of the characters ends what has begun, unless it is within a text. -/
def finish : Begun → Option (List Token)
  | .nothing => some []
  | .word characters => some [.word characters]
  | .number value => some [.constant (.number value)]
  | .quote characters => some [.constant (.text characters)]
  | .text _ => none
  | .colon => none

/-- The tokens of characters, none where a character begins no token or a text does not end. -/
def lex : Begun → List Char → Option (List Token)
  | begun, [] => finish begun
  | begun, c :: rest =>
    (next begun c).bind fun (tokens, begun) => (lex begun rest).map (tokens ++ ·)

end Lexer

section Parser

/-- The elements after the first, and what is behind them. -/
def laterElements : List Token → Option (List Constant × List Token)
  | .closeBracket :: rest => some ([], rest)
  | .comma :: .constant value :: rest =>
    (laterElements rest).map fun (values, behind) => (value :: values, behind)
  | _ => none

/-- The elements of an array up to the closing bracket, with the tokens behind it. -/
def elements : List Token → Option (List Constant × List Token)
  | .closeBracket :: rest => some ([], rest)
  | .constant value :: rest =>
    (laterElements rest).map fun (values, behind) => (value :: values, behind)
  | _ => none

/-- A cast to an array, with the type of the elements, or nothing. -/
def castType : List Token → Option (Option (List Char))
  | [] => some none
  | [.cast, .word type, .openBracket, .closeBracket] => some (some type)
  | _ => none

/-- An array constructor: the word, the elements in brackets, and perhaps a cast to a type of
arrays. -/
def arrayConstructor : List Token → Option (List Constant × Option (List Char))
  | .word array :: .openBracket :: rest =>
    if array = "ARRAY".toList then
      (elements rest).bind fun (values, behind) => (castType behind).map fun type => (values, type)
    else none
  | _ => none

/-- What is written in an array constructor, its constants and the type that it is cast to. -/
def readArray (text : List Char) : Option (List Constant × Option (List Char)) :=
  (lex .nothing text).bind arrayConstructor

/-- The text of a constant, none for a number. -/
def Constant.toText : Constant → Option (List Char)
  | .text characters => some characters
  | .number _ => none

/-- The number of a constant, if it fits into the 64 bits with a sign. -/
def Constant.toBigint : Constant → Option Nat
  | .text _ => none
  | .number value => if value < 2 ^ 63 then some value else none

/-- The elements, converted, unless there are none and no type. -/
def converted {α : Type} (convert : Constant → Option α) (typeName : List Char) :
    List Constant × Option (List Char) → Option (List α)
  | ([], none) => none
  | (values, none) => values.mapM convert
  | (values, some type) => if type = typeName then values.mapM convert else none

/-- The array of texts that an expression denotes. A text that contains the character with
code zero is not excluded here, though PostgreSQL, which has no such text, refuses it. -/
def textArray (text : List Char) : Option (List (List Char)) :=
  (readArray text).bind (converted Constant.toText "TEXT".toList)

/-- The array of numbers that an expression denotes, none where it denotes no such array. -/
def bigintArray (text : List Char) : Option (List Nat) :=
  (readArray text).bind (converted Constant.toBigint "BIGINT".toList)

end Parser

section Elements

/-- A text that is read as a constant, with a comma or the end of the array behind it. -/
def Spells (text : List Char) (value : Constant) : Prop :=
  ∀ c rest, c = ',' ∨ c = ']' →
    lex .nothing (text ++ c :: rest) = (lex .nothing (c :: rest)).map (.constant value :: ·)

/-- The character after a token begins the next one. -/
theorem lex_startAfter (token : Token) {begun : Begun} {c : Char} (rest : List Char)
    (after : next begun c = startAfter token c) :
    lex begun (c :: rest) = (lex .nothing (c :: rest)).map (token :: ·) := by
  rw [lex, lex, after, startAfter, next]
  cases start c with
  | none => rfl
  | some started =>
    obtain ⟨tokens, begun⟩ := started
    simp only [Option.map_some, Option.bind_some, Option.map_map]
    rfl

/-- Characters without a quote stay in a text that has begun. -/
theorem lex_characters {characters : List Char} (free : '\'' ∉ characters) (before rest : List Char) :
    lex (.text before) (characters ++ rest) = lex (.text (before ++ characters)) rest := by
  induction characters generalizing before with
  | nil => rw [List.nil_append, List.append_nil]
  | cons c characters inductionHypothesis =>
    have other : c ≠ '\'' := fun same => free (same ▸ List.mem_cons_self)
    have later : '\'' ∉ characters := fun member => free (List.mem_cons_of_mem c member)
    rw [List.cons_append, lex, next, if_neg other, Option.bind_some]
    simp only [List.nil_append, Option.map_id']
    rw [inductionHypothesis later, List.append_assoc, List.singleton_append]

/-- Characters without a quote, between quotes, are a text. -/
theorem spells_text {characters : List Char} (free : '\'' ∉ characters) :
    Spells ('\'' :: characters ++ ['\'']) (.text characters) := by
  intro c rest ends
  have other : c ≠ '\'' := by rcases ends with rfl | rfl <;> decide
  have opened : lex .nothing ('\'' :: (characters ++ '\'' :: c :: rest)) =
      lex (.text []) (characters ++ '\'' :: c :: rest) := by
    rw [lex]
    simp [next, start]
  have closed : lex (.text characters) ('\'' :: c :: rest) = lex (.quote characters) (c :: rest) := by
    rw [lex]
    simp [next]
  have shape : '\'' :: characters ++ ['\''] ++ c :: rest =
      '\'' :: (characters ++ '\'' :: c :: rest) := by simp
  rw [shape, opened, lex_characters free, List.nil_append, closed]
  exact lex_startAfter _ rest (if_neg other)

/-- Digits stay in a number that has begun. -/
theorem lex_digits {digits : List Char} (areDigits : ∀ c ∈ digits, c.isDigit) (before : Nat)
    (rest : List Char) :
    lex (.number before) (digits ++ rest) = lex (.number (Nat.ofDigitChars 10 digits before)) rest := by
  induction digits generalizing before with
  | nil => rw [List.nil_append, Nat.ofDigitChars_nil]
  | cons c digits inductionHypothesis =>
    rw [List.cons_append, lex, next, if_pos (areDigits c List.mem_cons_self), Option.bind_some]
    simp only [List.nil_append, Option.map_id']
    rw [inductionHypothesis fun other member => areDigits other (List.mem_cons_of_mem c member),
      Nat.ofDigitChars_cons]
    rfl

/-- A digit begins a number, which is its value so far. -/
theorem start_digit {c : Char} (isDigit : c.isDigit) : start c = some ([], .number (c.toNat - 48)) := by
  have other : ∀ d : Char, ¬ d.isDigit → c ≠ d := by
    rintro d noDigit rfl
    exact noDigit isDigit
  rw [start, if_neg (other '\'' (by decide)), if_neg (other '[' (by decide)),
    if_neg (other ']' (by decide)), if_neg (other ',' (by decide)), if_neg (other ':' (by decide)),
    if_pos isDigit]

/-- The decimal digits of a number spell the number. -/
theorem spells_number (value : Nat) : Spells (Nat.toDigits 10 value) (.number value) := by
  intro c rest ends
  have noDigit : ¬ c.isDigit := by rcases ends with rfl | rfl <;> decide
  have noLetter : ¬ c.isAlpha := by rcases ends with rfl | rfl <;> decide
  have isValue := Nat.ofDigitChars_ten_toDigits (n := value)
  have areDigits : ∀ c ∈ Nat.toDigits 10 value, c.isDigit := DecimalText.isDigit_toDigits
  cases digits : Nat.toDigits 10 value with
  | nil => exact absurd digits Nat.toDigits_ne_nil
  | cons first others =>
    rw [digits] at isValue areDigits
    rw [Nat.ofDigitChars_cons, Nat.mul_zero, Nat.zero_add] at isValue
    have begun : lex .nothing (first :: (others ++ c :: rest)) =
        lex (.number (first.toNat - 48)) (others ++ c :: rest) := by
      rw [lex, next, start_digit (areDigits first List.mem_cons_self), Option.bind_some]
      simp only [List.nil_append, Option.map_id']
    have ended : next (.number value) c = startAfter (.constant (.number value)) c := by
      rw [next, if_neg noDigit, if_neg noLetter]
    rw [List.cons_append, begun,
      lex_digits fun other member => areDigits other (List.mem_cons_of_mem first member)]
    exact (congrArg (fun number => lex (.number number) (c :: rest)) isValue).trans
      (lex_startAfter _ rest ended)

end Elements

section Lists

/-- An array constructor of written elements, with a comma and a blank between them. -/
def written (texts : List (List Char)) : List Char :=
  "ARRAY[".toList ++ ", ".toList.intercalate texts ++ "]".toList

/-- The definition of a written array, for rewriting. -/
theorem written_eq (texts : List (List Char)) :
    written texts = "ARRAY[".toList ++ ", ".toList.intercalate texts ++ "]".toList := rfl

/-- The tokens of the elements after the first, with the closing bracket at their end. -/
def laterTokens (values : List Constant) : List Token :=
  values.flatMap (fun value => [.comma, .constant value]) ++ [.closeBracket]

/-- The tokens of the elements after the first are read as these elements. -/
theorem laterElements_laterTokens (values : List Constant) :
    laterElements (laterTokens values) = some (values, []) := by
  induction values with
  | nil => rfl
  | cons value values inductionHypothesis =>
    rw [laterTokens, List.flatMap_cons, List.append_assoc]
    change (laterElements (laterTokens values)).map _ = _
    rw [inductionHypothesis]
    rfl

/-- The end of the array is the token of the closing bracket. -/
theorem lex_closeBracket : lex .nothing [']'] = some [.closeBracket] := by decide

/-- What is between two elements is the token of a comma. -/
theorem lex_separator (rest : List Char) :
    lex .nothing (',' :: ' ' :: rest) = (lex .nothing rest).map (.comma :: ·) := by
  have comma : lex .nothing (',' :: ' ' :: rest) =
      (lex .nothing (' ' :: rest)).map ([.comma] ++ ·) := rfl
  have blank : lex .nothing (' ' :: rest) = (lex .nothing rest).map ([] ++ ·) := rfl
  rw [comma, blank, Option.map_map]
  rfl

/-- Elements with separators between them, up to the end of the array. -/
theorem lex_elements {text : List Char} {texts : List (List Char)} {value : Constant}
    {values : List Constant} (first : Spells text value) (others : List.Forall₂ Spells texts values) :
    lex .nothing (", ".toList.intercalate (text :: texts) ++ [']']) =
      some (.constant value :: laterTokens values) := by
  induction others generalizing text value with
  | nil => rw [List.intercalate_singleton, first _ _ (Or.inr rfl), lex_closeBracket]; rfl
  | cons second _ inductionHypothesis =>
    have shape : ∀ later : List Char, text ++ ", ".toList ++ later ++ [']'] =
        text ++ ',' :: ' ' :: (later ++ [']']) := by
      intro later
      simp
    rw [List.intercalate_cons_cons, shape, first _ _ (Or.inl rfl), lex_separator,
      inductionHypothesis second]
    rfl

/-- The beginning of an array is the word and the opening bracket. -/
theorem lex_array (rest : List Char) :
    lex .nothing ("ARRAY[".toList ++ rest) =
      (lex .nothing rest).map fun tokens => .word "ARRAY".toList :: .openBracket :: tokens := by
  have word : lex .nothing ("ARRAY[".toList ++ rest) = lex (.word "ARRAY".toList) ('[' :: rest) := by
    simp [lex, next, start, Function.comp_def]
  have bracket : lex .nothing ('[' :: rest) = (lex .nothing rest).map (.openBracket :: ·) := rfl
  rw [word, lex_startAfter (.word "ARRAY".toList) rest rfl, bracket, Option.map_map]
  rfl

/-- Written elements are read as the constants that they spell. -/
theorem readArray_written {texts : List (List Char)} {values : List Constant}
    (spell : List.Forall₂ Spells texts values) (some_ : texts ≠ []) :
    readArray (written texts) = some (values, none) := by
  cases spell with
  | nil => exact absurd rfl some_
  | cons first others =>
    have closing : "]".toList = [']'] := rfl
    rw [readArray, written_eq, List.append_assoc, lex_array, closing, lex_elements first others,
      Option.map_some, Option.bind_some, arrayConstructor, if_pos rfl, elements,
      laterElements_laterTokens]
    rfl

/-- Values that are converted one by one are converted together. -/
theorem mapM_map {α β : Type} {convert : β → Option α} {render : α → β} {values : List α}
    (each : ∀ value ∈ values, convert (render value) = some value) :
    (values.map render).mapM convert = some values := by
  induction values with
  | nil => rfl
  | cons value values inductionHypothesis =>
    rw [List.map_cons, List.mapM_cons, each value List.mem_cons_self,
      inductionHypothesis fun other member => each other (List.mem_cons_of_mem value member)]
    rfl

/-- Elements of an array with some are converted one by one. -/
theorem converted_written {α : Type} {convert : Constant → Option α} {typeName : List Char}
    {render : α → List Char} {constant : α → Constant} {values : List α} (some_ : values ≠ [])
    (spell : ∀ value ∈ values, Spells (render value) (constant value))
    (each : ∀ value ∈ values, convert (constant value) = some value) :
    (readArray (written (values.map render))).bind (converted convert typeName) = some values := by
  have spelled : List.Forall₂ Spells (values.map render) (values.map constant) := by
    rw [List.forall₂_map_left_iff, List.forall₂_map_right_iff]
    exact List.forall₂_same.mpr spell
  have mapped := mapM_map each
  rw [readArray_written spelled (by simpa using some_), Option.bind_some]
  cases values with
  | nil => exact absurd rfl some_
  | cons value values => exact mapped

/-- Texts without quotes, each written between quotes, denote the texts. -/
theorem textArray_written {texts : List (List Char)} (free : ∀ text ∈ texts, '\'' ∉ text)
    (some_ : texts ≠ []) :
    textArray (written (texts.map fun text => '\'' :: text ++ ['\''])) = some texts :=
  converted_written some_ (fun text member => spells_text (free text member)) fun _ _ => rfl

/-- Numbers written in digits denote the numbers, if they fit into the 64 bits with a sign. -/
theorem bigintArray_written {values : List Nat} (fit : ∀ value ∈ values, value < 2 ^ 63)
    (some_ : values ≠ []) : bigintArray (written (values.map (Nat.toDigits 10))) = some values :=
  converted_written some_ (fun value _ => spells_number value)
    fun value member => if_pos (fit value member)

end Lists

end Hcexplorer.ArrayLiterals

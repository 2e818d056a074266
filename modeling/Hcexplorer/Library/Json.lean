import Mathlib.Data.List.Basic
import Mathlib.Data.Rat.Defs
import Mathlib.Algebra.Order.Ring.Nat
import Mathlib.Algebra.BigOperators.Group.List.Basic

/-!
# JSON values and texts

A value of JSON has one sequence of tokens, and a text spells a value when it has these tokens
apart from blanks. A text that is written piece by piece is a list of tokens and characters, of
which the characters must be blank.

Arrays are separated: a comma stands between two elements, never before the end. Numbers are
exact.
-/

namespace Hcexplorer

/-- The tokens of the language, with the values of those that have one. -/
inductive Token where
  | openBracket
  | closeBracket
  | openBrace
  | closeBrace
  | comma
  | colon
  | null
  | bool (value : Bool)
  | number (value : ℚ)
  | string (value : String)
deriving DecidableEq, Repr

/-- The values of the language, with the fields of an object in their order. -/
inductive Json where
  | null
  | bool (value : Bool)
  | number (value : ℚ)
  | string (value : String)
  | array (elements : List Json)
  | object (fields : List (String × Json))

namespace Json

mutual

/-- The tokens of a value, from its first to its last. -/
def tokens : Json → List Token
  | .null => [.null]
  | .bool value => [.bool value]
  | .number value => [.number value]
  | .string value => [.string value]
  | .array elements => .openBracket :: (firstTokens elements ++ [.closeBracket])
  | .object fields => .openBrace :: (firstFieldTokens fields ++ [.closeBrace])

/-- The tokens of an array between its brackets, with commas before all elements but the first. -/
def firstTokens : List Json → List Token
  | [] => []
  | element :: rest => tokens element ++ laterTokens rest

/-- The tokens of the elements after the first, each with a comma before it. -/
def laterTokens : List Json → List Token
  | [] => []
  | element :: rest => .comma :: (tokens element ++ laterTokens rest)

/-- The tokens of an object between its braces, with commas before all fields but the first. -/
def firstFieldTokens : List (String × Json) → List Token
  | [] => []
  | (name, value) :: rest => .string name :: .colon :: (tokens value ++ laterFieldTokens rest)

/-- The tokens of the fields after the first, each with a comma before it. -/
def laterFieldTokens : List (String × Json) → List Token
  | [] => []
  | (name, value) :: rest =>
    .comma :: .string name :: .colon :: (tokens value ++ laterFieldTokens rest)

end

/-- A value has a token, so that its tokens are never empty. -/
theorem tokens_ne_nil (value : Json) : value.tokens ≠ [] := by
  cases value <;> simp [tokens]

/-- The elements in front of the last, each with its comma. -/
theorem firstTokens_concat (front : List Json) (last : Json) :
    firstTokens (front ++ [last]) =
      front.flatMap (fun element => element.tokens ++ [.comma]) ++ last.tokens := by
  have later : ∀ front : List Json, laterTokens (front ++ [last]) =
      .comma :: (front.flatMap (fun element => element.tokens ++ [.comma]) ++ last.tokens) := by
    intro front
    induction front with
    | nil => simp [laterTokens]
    | cons element rest inductionHypothesis =>
      simp [laterTokens, inductionHypothesis]
  cases front with
  | nil => simp [firstTokens, laterTokens]
  | cons element rest => simp [firstTokens, later]

/-- How many tokens the elements have: their own, and a comma for each but one. -/
theorem length_firstTokens {elements : List Json} (some_ : elements ≠ []) :
    (firstTokens elements).length + 1 =
      (elements.map fun element => element.tokens.length + 1).sum := by
  have later : ∀ elements : List Json, (laterTokens elements).length =
      (elements.map fun element => element.tokens.length + 1).sum := by
    intro elements
    induction elements with
    | nil => simp [laterTokens]
    | cons element rest inductionHypothesis =>
      simp [laterTokens, inductionHypothesis]
      omega
  cases elements with
  | nil => exact absurd rfl some_
  | cons element rest =>
    simp [firstTokens, later]
    omega

/-- The last token of a value is no comma. -/
theorem tokens_concat (value : Json) :
    ∃ front last, value.tokens = front ++ [last] ∧ last ≠ .comma := by
  cases value with
  | null => exact ⟨[], .null, by rw [tokens]; rfl, nofun⟩
  | bool value => exact ⟨[], .bool value, by rw [tokens]; rfl, nofun⟩
  | number value => exact ⟨[], .number value, by rw [tokens]; rfl, nofun⟩
  | string value => exact ⟨[], .string value, by rw [tokens]; rfl, nofun⟩
  | array elements =>
    exact ⟨.openBracket :: firstTokens elements, .closeBracket, by rw [tokens]; rfl, nofun⟩
  | object fields =>
    exact ⟨.openBrace :: firstFieldTokens fields, .closeBrace, by rw [tokens]; rfl, nofun⟩

/-- The last token of the elements of an array is no comma. -/
theorem firstTokens_ne_comma (elements : List Json) (front : List Token) :
    firstTokens elements ≠ front ++ [.comma] := by
  intro same
  rcases List.eq_nil_or_concat elements with rfl | ⟨others, last, rfl⟩
  · simp [firstTokens] at same
  · obtain ⟨inner, final, ends, notComma⟩ := tokens_concat last
    rw [List.concat_eq_append, firstTokens_concat, ends, ← List.append_assoc] at same
    exact notComma (List.singleton_inj.mp (List.append_inj' same rfl).2)

/-- No value ends with a comma in front of a bracket. -/
theorem tokens_ne_trailing (value : Json) (front : List Token) :
    value.tokens ≠ front ++ [.comma] ++ [.closeBracket] := by
  intro same
  have lengths := congrArg List.length same
  cases value with
  | array elements =>
    rw [tokens, ← List.cons_append] at same
    have inside := List.append_cancel_right same
    cases front with
    | nil => simp at inside
    | cons token rest => exact firstTokens_ne_comma elements rest (List.tail_eq_of_cons_eq inside)
  | object fields =>
    rw [tokens, ← List.cons_append] at same
    have ends := (List.append_inj' same rfl).2
    simp at ends
  | null => simp [tokens] at lengths
  | bool value => simp [tokens] at lengths
  | number value => simp [tokens] at lengths
  | string value => simp [tokens] at lengths

end Json

/-! ## Texts -/

/-- A piece of a text: a whole token, or a single character beside the tokens. -/
inductive Piece where
  | token (token : Token)
  | char (character : Char)
deriving DecidableEq, Repr

/-- The characters that may stand between tokens: blanks, tabs and line ends. -/
def isBlank (character : Char) : Bool :=
  character = ' ' ∨ character = '\t' ∨ character = '\n' ∨ character = '\r'

/-- The tokens of a text, if it has nothing else. -/
def lexed : List Piece → Option (List Token)
  | [] => some []
  | .token token :: rest => (lexed rest).map (token :: ·)
  | .char character :: rest => if isBlank character then lexed rest else none

/-- The text spells the value: its tokens are those of the value. -/
def Spells (text : List Piece) (value : Json) : Prop := lexed text = some value.tokens

/-- The tokens of one text after another are those of the one and then those of the other. -/
theorem lexed_append (front back : List Piece) :
    lexed (front ++ back) = (lexed front).bind fun tokens => (lexed back).map (tokens ++ ·) := by
  induction front with
  | nil => simp [lexed]
  | cons piece rest inductionHypothesis =>
    cases piece with
    | token token =>
      simp only [List.cons_append, lexed, inductionHypothesis]
      cases lexed rest <;> cases lexed back <;> rfl
    | char character =>
      simp only [List.cons_append, lexed, inductionHypothesis]
      by_cases blank : isBlank character = true
      · rw [if_pos blank, if_pos blank]
      · rw [if_neg blank, if_neg blank, Option.bind_none]

/-- Tokens alone are a text that has these tokens. -/
theorem lexed_tokens (tokens : List Token) : lexed (tokens.map .token) = some tokens := by
  induction tokens with
  | nil => rfl
  | cons token rest inductionHypothesis =>
    rw [List.map_cons, lexed, inductionHypothesis, Option.map_some]

/-- Blanks alone are a text without tokens. -/
theorem lexed_blanks {characters : List Char} (blank : ∀ character ∈ characters, isBlank character) :
    lexed (characters.map .char) = some [] := by
  induction characters with
  | nil => rfl
  | cons character rest inductionHypothesis =>
    rw [List.forall_mem_cons] at blank
    rw [List.map_cons, lexed, if_pos blank.1, inductionHypothesis blank.2]

/-- If characters alone are a text, then all of them are blanks. -/
theorem blank_of_lexed {characters : List Char} {tokens : List Token}
    (text : lexed (characters.map .char) = some tokens) :
    ∀ character ∈ characters, isBlank character := by
  induction characters with
  | nil => exact fun _ member => absurd member List.not_mem_nil
  | cons character rest inductionHypothesis =>
    rw [List.map_cons, lexed] at text
    by_cases blank : isBlank character = true
    · rw [if_pos blank] at text
      exact List.forall_mem_cons.mpr ⟨blank, inductionHypothesis text⟩
    · rw [if_neg blank] at text
      cases text

/-- If a text can be read, then so can its front. -/
theorem lexed_front {front back : List Piece} {tokens : List Token}
    (text : lexed (front ++ back) = some tokens) : ∃ first, lexed front = some first := by
  rw [lexed_append] at text
  obtain ⟨first, isFirst, -⟩ := Option.bind_eq_some_iff.mp text
  exact ⟨first, isFirst⟩

end Hcexplorer

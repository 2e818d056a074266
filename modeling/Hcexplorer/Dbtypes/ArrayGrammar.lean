import Hcexplorer.Dbtypes.ArrayParser
import Mathlib.Data.List.Forall2

/-!
# The texts that the array reader accepts

The invariant of the parser says of every loop which part of the text is behind it. It
bounds the depth by the number of dimensions, so that no index is out of range, and
keeps the dimensions of the levels that are closed above zero, so that no remainder is
by zero. Of a text with one dimension it says that what is behind the parser is the
opening brace and the elements so far.
-/

namespace Hcexplorer.Dbtypes

open Machines

section Grammar

/-- The characters between double quotes, with those that they stand for. -/
inductive Unescapes : Bytes → Bytes → Prop where
  | nil : Unescapes [] []
  | plain {body elem : Bytes} {c : UInt8} (notQuote : c ≠ doubleQuote) (notEscape : c ≠ backslash)
      (rest : Unescapes body elem) : Unescapes (c :: body) (c :: elem)
  | escaped {body elem : Bytes} {c : UInt8} (rest : Unescapes body elem) :
      Unescapes (backslash :: c :: body) (c :: elem)

/-- The text of an element, with what the parser reads from it. -/
inductive Denotes : Bytes → Option Bytes → Prop where
  | bare {text : Bytes} (nonempty : text ≠ []) :
      Denotes text (if text = nullText then none else some text)
  | quoted {body elem : Bytes} (unescapes : Unescapes body elem) :
      Denotes (doubleQuote :: body ++ [doubleQuote]) (some elem)

/-- A number in decimal digits, below `2 ^ 64`. -/
def IsDecimal (digits : Bytes) (value : UInt64) : Prop :=
  digits ≠ [] ∧ (∀ c ∈ digits, 48 ≤ c ∧ c ≤ 57) ∧
    digits.foldl (fun n c => 10 * n + (c.toNat - 48)) 0 = value.toNat

/-- The text of a number in an array, bare or between double quotes. -/
def SpellsNumber (text : Bytes) (value : UInt64) : Prop :=
  IsDecimal text value ∨
    ∃ body digits, text = doubleQuote :: body ++ [doubleQuote] ∧ Unescapes body digits ∧
      IsDecimal digits value

/-- An opening brace, the elements separated by commas, and a closing brace. -/
def arrayText (texts : List Bytes) : Bytes :=
  openBrace :: [comma].intercalate texts ++ [closeBrace]

/-- The texts of elements one after another, each with a comma behind it, as the parser has read
them before the last one. -/
def listed (texts : List Bytes) : Bytes := texts.flatMap fun text => text ++ [comma]

end Grammar

section Invariants

/-- The index is in the text, there are levels and the depth is one, and no dimension is
negative, those of the levels that are closed positive. -/
structure Safe (src : Bytes) (i : Nat) (depth : Int) (dims : List Int) : Prop where
  inSrc : i ≤ src.length
  opened : dims ≠ []
  nonneg : 0 ≤ depth
  depth_le : depth ≤ dims.length
  sizes : ∀ (level : Nat) size, dims[level]? = some size → 0 ≤ size ∧ (depth ≤ level → 0 < size)

/-- Behind the index are the opening brace and these elements, with commas. -/
def BeforeElement (src : Bytes) (i : Nat) (elems : List (Option Bytes)) : Prop :=
  ∃ texts, src.take i = openBrace :: listed texts ∧ List.Forall₂ Denotes texts elems

/-- After an element the last text has no comma yet, and all texts read so far denote the
elements that the parser has collected. -/
def AfterElement (src : Bytes) (i : Nat) (elems : List (Option Bytes)) : Prop :=
  ∃ texts text, src.take i = openBrace :: (listed texts ++ text) ∧
    List.Forall₂ Denotes (texts ++ [text]) elems

/-- The closing brace has been read after the last element, so what is read is a whole array and
denotes the collected elements. -/
def Whole (src : Bytes) (i : Nat) (elems : List (Option Bytes)) : Prop :=
  ∃ texts text, src.take i = openBrace :: (listed texts ++ text ++ [closeBrace]) ∧
    List.Forall₂ Denotes (texts ++ [text]) elems

/-- What is known of the text behind the parser, when there is one dimension. -/
def Reads (src : Bytes) (state : ParseState) : Prop :=
  match state.label with
  | .opening => True
  | .element => state.depth = 1 ∧ BeforeElement src state.i state.elems
  | .quoted elem escape => state.depth = 1 ∧ ∃ texts body,
      src.take state.i = openBrace :: (listed texts ++ doubleQuote :: body) ∧
        List.Forall₂ Denotes texts state.elems ∧
        if escape then ∃ front, body = front ++ [backslash] ∧ Unescapes front elem
        else Unescapes body elem
  | .bare start => state.depth = 1 ∧ BeforeElement src start state.elems
  | .separator =>
    (state.depth = 1 ∧ (AfterElement src state.i state.elems ∨ state.i = src.length ∨
        src[state.i]? = some openBrace)) ∨
      (state.depth = 0 ∧ Whole src state.i state.elems)
  | .closing => state.depth = 0 → Whole src state.i state.elems

/-- What holds at each label of the parser. It relates the text before the index to the depth,
the dimensions and the elements collected so far. -/
def ParserInvariant (src : Bytes) (state : ParseState) : Prop :=
  match state.label with
  | .opening => src[0]? = some openBrace ∧ state.i ≤ src.length ∧ state.depth = state.i ∧
      state.dims = [] ∧ state.elems = [] ∧ src.take state.i = List.replicate state.i openBrace
  | .closing => state.i ≤ src.length ∧ 0 ≤ state.depth ∧
      ((state.dims = [] ∧ state.elems = []) ∨
        (state.i = src.length ∧ Safe src state.i state.depth state.dims ∧ (state.dims.length = 1 → Reads src state)))
  | .bare start => Safe src state.i state.depth state.dims ∧ start ≤ state.i ∧ (state.dims.length = 1 → Reads src state)
  | _ => Safe src state.i state.depth state.dims ∧ (state.dims.length = 1 → Reads src state)

/-- An upper bound for the passes that are left: three for each byte ahead, and a few for the
label where the parser stands. -/
def parserRank (src : Bytes) (state : ParseState) : Nat :=
  3 * (src.length - state.i) +
    match state.label with
    | .opening => 5
    | .element => 3
    | .quoted _ _ => 2
    | .bare _ => 2
    | .separator => 1
    | .closing => 0

/-- What is returned: an error, or dimensions that are nested, or no elements, or the
elements of the text. -/
def ParsedAs (src : Bytes) (parsed : Parsed) : Prop :=
  match parsed with
  | .error _ => True
  | .ok (dims, elems) => 1 < dims.length ∨ elems = [] ∨
      ∃ texts, src = arrayText texts ∧ List.Forall₂ Denotes texts elems

end Invariants

section Steps

variable {src : Bytes}

/-- A step that keeps the invariant and lowers the rank, or stops with a result that the text
admits. -/
abbrev Proceeds (src : Bytes) (state : ParseState) (step : Step) : Prop :=
  Progress (ParserInvariant src) (parserRank src) (ParsedAs src) state step

/-- A loop looks at a character of the text, or ends with the text. -/
theorem whileReading_proceeds {state : ParseState} {ended : Step} {pass : UInt8 → Step}
    (inSrc : state.i ≤ src.length) (atEnd : state.i = src.length → Proceeds src state ended)
    (reads : ∀ c, src[state.i]? = some c → state.i < src.length → Proceeds src state (pass c)) :
    Proceeds src state (whileReading src state.i ended pass) := by
  unfold whileReading
  by_cases inside : state.i < src.length
  · rw [if_pos inside, List.getElem?_eq_getElem inside]
    exact reads _ (List.getElem?_eq_getElem inside) inside
  · rw [if_neg inside]
    exact atEnd (by omega)

/-- Where a character stands at an index, the text up to the next index is the text up to this
one with the character behind it. -/
theorem take_next {i : Nat} {c : UInt8} (found : src[i]? = some c) :
    src.take (i + 1) = src.take i ++ [c] := by
  rw [List.take_add_one, found]
  rfl

/-- An index between zero and the number of dimensions is no panic, and the assignment changes
the dimension at that level only. -/
theorem assignDim_returned {dims : List Int} {index : Int} {assign : Int → Int} (low : 0 ≤ index)
    (high : index < dims.length) :
    assignDim dims index assign = .returned (dims.modify index.toNat assign) := if_pos ⟨low, high⟩

variable {i : Nat} {depth : Int} {dims : List Int} {elems : List (Option Bytes)}

/-- The conditions that keep the parser from a panic go over to the next index while the text
goes on. -/
theorem Safe.advance (safe : Safe src i depth dims) (inside : i < src.length) :
    Safe src (i + 1) depth dims := ⟨inside, safe.opened, safe.nonneg, safe.depth_le, safe.sizes⟩

/-- A level is opened again, and its dimension counts from zero. -/
theorem Safe.reopen (safe : Safe src i depth dims) (inside : i < src.length)
    (below : depth < dims.length) :
    Safe src (i + 1) (depth + 1) (dims.modify depth.toNat fun _ => 0) := by
  obtain ⟨-, opened, nonneg, -, sizes⟩ := safe
  refine ⟨inside, mt List.modify_eq_nil_iff.mp opened, by omega, ?_, ?_⟩
  · rw [List.length_modify]
    omega
  · intro level size found
    rw [List.getElem?_modify] at found
    obtain ⟨old, isOld, rfl⟩ := Option.map_eq_some_iff.mp found
    split
    · exact ⟨Int.le_refl 0, fun above => by omega⟩
    · obtain ⟨sizeNonneg, closed⟩ := sizes level old isOld
      exact ⟨sizeNonneg, fun above => closed (by omega)⟩

/-- An element of the level is counted, and the level stays open or is closed. -/
theorem Safe.count (safe : Safe src i depth dims) (inside : i < src.length) (positive : 0 < depth)
    {after : Int} (notDeeper : after = depth ∨ after = depth - 1) :
    Safe src (i + 1) after (dims.modify (depth - 1).toNat (· + 1)) := by
  obtain ⟨-, opened, nonneg, depth_le, sizes⟩ := safe
  refine ⟨inside, mt List.modify_eq_nil_iff.mp opened, by omega, ?_, ?_⟩
  · rw [List.length_modify]
    omega
  · intro level size found
    rw [List.getElem?_modify] at found
    obtain ⟨old, isOld, rfl⟩ := Option.map_eq_some_iff.mp found
    obtain ⟨sizeNonneg, closed⟩ := sizes level old isOld
    split
    · exact ⟨by omega, fun _ => by omega⟩
    · exact ⟨sizeNonneg, fun above => closed (by omega)⟩

/-- After the opening braces the dimensions are as many zeros as there were braces, and they meet
the conditions of the loops. -/
theorem Safe.replicate (inSrc : i ≤ src.length) (positive : 0 < i) :
    Safe src i i (List.replicate i 0) := by
  refine ⟨inSrc, fun none_ => ?_, Int.natCast_nonneg i, by simp, ?_⟩
  · have length := congrArg List.length none_
    rw [List.length_replicate, List.length_nil] at length
    omega
  · intro level size found
    rw [List.getElem?_replicate] at found
    split at found
    · obtain rfl := Option.some.inj found
      exact ⟨Int.le_refl 0, fun above => by omega⟩
    · cases found

/-- An element with a comma behind it joins the list of those that were read. -/
theorem listed_append (texts : List Bytes) (text : Bytes) :
    listed (texts ++ [text]) = listed texts ++ text ++ [comma] := by
  simp [listed]

/-- The loop over the opening braces keeps the invariant: it counts one level for each brace. -/
theorem opening_proceeds (kept : ParserInvariant src ⟨.opening, depth, i, dims, elems⟩) :
    Proceeds src ⟨.opening, depth, i, dims, elems⟩
      (openingStep src ⟨.opening, depth, i, dims, elems⟩) := by
  obtain ⟨begins, (inSrc : i ≤ src.length), (rfl : depth = i), (rfl : dims = []), (rfl : elems = []),
    (braces : src.take i = List.replicate i openBrace)⟩ := kept
  have made (notOpen : src[i]? ≠ some openBrace) : Proceeds src ⟨.opening, i, i, [], []⟩
      (goOn ⟨.element, i, i, List.replicate i 0, []⟩) := by
    have positive : 0 < i := by
      rcases Nat.eq_zero_or_pos i with rfl | positive
      · exact absurd begins notOpen
      · exact positive
    refine .next ⟨.replicate inSrc positive, fun single => ?_⟩ ?_
    · obtain rfl : i = 1 := by simpa using single
      exact ⟨rfl, [], braces, .nil⟩
    · simp only [parserRank]
      omega
  refine whileReading_proceeds inSrc (fun isEnd => made ?_) ?_
  · rw [List.getElem?_eq_none (Nat.le_of_eq isEnd.symm)]
    exact (Option.some_ne_none _).symm
  intro c (found : src[i]? = some c) (inside : i < src.length)
  by_cases isOpen : c = openBrace
  · rw [if_pos isOpen]
    refine .next ⟨begins, inside, rfl, rfl, rfl, ?_⟩ ?_
    · rw [take_next found, braces, isOpen, List.replicate_succ']
    · simp only [parserRank]
      omega
  · rw [if_neg isOpen]
    by_cases isClose : c = closeBrace
    · rw [if_pos isClose]
      refine .next ⟨inSrc, Int.natCast_nonneg i, Or.inl ⟨rfl, rfl⟩⟩ ?_
      simp only [parserRank]
      omega
    · rw [if_neg isClose]
      exact made fun other => isOpen (Option.some.inj (found.symm.trans other))

/-- The loop over elements keeps the invariant, whether a brace, a quote, a bare element or a
wrong character is ahead. -/
theorem element_proceeds (kept : ParserInvariant src ⟨.element, depth, i, dims, elems⟩) :
    Proceeds src ⟨.element, depth, i, dims, elems⟩
      (elementStep src ⟨.element, depth, i, dims, elems⟩) := by
  obtain ⟨(safe : Safe src i depth dims), reads⟩ := kept
  refine whileReading_proceeds safe.inSrc (fun isEnd => ?_) ?_
  · refine .next ⟨safe, fun single => Or.inl ⟨(reads single).1, Or.inr (Or.inl isEnd)⟩⟩ ?_
    simp only [parserRank]
    omega
  intro c (found : src[i]? = some c) (inside : i < src.length)
  by_cases isOpen : c = openBrace
  · rw [if_pos isOpen]
    by_cases full : depth = dims.length
    · rw [if_pos full]
      refine .next ⟨safe, fun single =>
        Or.inl ⟨(reads single).1, Or.inr (Or.inr (isOpen ▸ found))⟩⟩ ?_
      simp only [parserRank]
      omega
    · have depth_le := safe.depth_le
      have below : depth < dims.length := by omega
      have index : depth + 1 - 1 = depth := by omega
      rw [if_neg full]
      simp only [index, assignDim_returned safe.nonneg below, Outcome.bind_returned]
      refine .next ⟨safe.reopen inside below, fun single => ?_⟩ ?_
      · rw [List.length_modify] at single
        have isOne : depth = 1 := (reads single).1
        exact absurd (isOne.trans (by rw [single]; rfl)) full
      · simp only [parserRank]
        omega
  · rw [if_neg isOpen]
    by_cases isQuote : c = doubleQuote
    · rw [if_pos isQuote]
      refine .next ⟨safe.advance inside, fun single => ?_⟩ ?_
      · obtain ⟨isOne, texts, behind, denotes⟩ := reads single
        refine ⟨isOne, texts, [], ?_, denotes, .nil⟩
        rw [take_next found, behind, isQuote]
        rfl
      · simp only [parserRank]
        omega
    · rw [if_neg isQuote]
      refine .next ⟨safe, Nat.le_refl i, reads⟩ ?_
      simp only [parserRank]
      omega

/-- A character that is neither a quote nor a backslash stands for itself at the end of a quoted
element. -/
theorem Unescapes.concat {body elem : Bytes} (unescapes : Unescapes body elem) {c : UInt8}
    (notQuote : c ≠ doubleQuote) (notEscape : c ≠ backslash) :
    Unescapes (body ++ [c]) (elem ++ [c]) := by
  induction unescapes with
  | nil => exact .plain notQuote notEscape .nil
  | plain notQuote notEscape _ inductionHypothesis => exact .plain notQuote notEscape inductionHypothesis
  | escaped _ inductionHypothesis => exact .escaped inductionHypothesis

/-- A backslash and any character after it stand for that character at the end of a quoted
element. -/
theorem Unescapes.concat_escaped {body elem : Bytes} (unescapes : Unescapes body elem) (c : UInt8) :
    Unescapes (body ++ [backslash, c]) (elem ++ [c]) := by
  induction unescapes with
  | nil => exact .escaped .nil
  | plain notQuote notEscape _ inductionHypothesis => exact .plain notQuote notEscape inductionHypothesis
  | escaped _ inductionHypothesis => exact .escaped inductionHypothesis

/-- The characters of a quoted element keep the invariant: each either extends the element,
escapes the next one or ends it. -/
theorem quoted_proceeds {elem : Bytes} {escape : Bool}
    (kept : ParserInvariant src ⟨.quoted elem escape, depth, i, dims, elems⟩) :
    Proceeds src ⟨.quoted elem escape, depth, i, dims, elems⟩
      (quotedStep src elem escape ⟨.quoted elem escape, depth, i, dims, elems⟩) := by
  obtain ⟨(safe : Safe src i depth dims), reads⟩ := kept
  refine whileReading_proceeds safe.inSrc (fun isEnd => ?_) ?_
  · refine .next ⟨safe, fun single => Or.inl ⟨(reads single).1, Or.inr (Or.inl isEnd)⟩⟩ ?_
    simp only [parserRank]
    omega
  intro c (found : src[i]? = some c) (inside : i < src.length)
  cases escape with
  | true =>
    rw [if_pos rfl]
    refine .next ⟨safe.advance inside, fun single => ?_⟩ ?_
    · obtain ⟨isOne, texts, body, behind, denotes, front, isBody, unescapes⟩ := reads single
      refine ⟨isOne, texts, body ++ [c], ?_, denotes, ?_⟩
      · rw [take_next found, behind]
        simp
      · rw [isBody, List.append_assoc]
        exact unescapes.concat_escaped c
    · simp only [parserRank]
      omega
  | false =>
    rw [if_neg Bool.false_ne_true]
    by_cases isEscape : c = backslash
    · rw [if_pos isEscape]
      refine .next ⟨safe.advance inside, fun single => ?_⟩ ?_
      · obtain ⟨isOne, texts, body, behind, denotes, unescapes⟩ := reads single
        refine ⟨isOne, texts, body ++ [c], ?_, denotes, body, by rw [isEscape], unescapes⟩
        rw [take_next found, behind]
        simp
      · simp only [parserRank]
        omega
    · rw [if_neg isEscape]
      by_cases isQuote : c = doubleQuote
      · rw [if_pos isQuote]
        refine .next ⟨safe.advance inside, fun single => Or.inl ?_⟩ ?_
        · obtain ⟨isOne, texts, body, behind, denotes, unescapes⟩ := reads single
          refine ⟨isOne, Or.inl ⟨texts, doubleQuote :: body ++ [doubleQuote], ?_, ?_⟩⟩
          · rw [take_next found, behind, isQuote]
            simp
          · exact List.rel_append denotes (.cons (.quoted unescapes) .nil)
        · simp only [parserRank]
          omega
      · rw [if_neg isQuote]
        refine .next ⟨safe.advance inside, fun single => ?_⟩ ?_
        · obtain ⟨isOne, texts, body, behind, denotes, unescapes⟩ := reads single
          refine ⟨isOne, texts, body ++ [c], ?_, denotes, unescapes.concat isQuote isEscape⟩
          rw [take_next found, behind]
          simp
        · simp only [parserRank]
          omega

/-- The delimiter of the array is a comma, so the test for the delimiter is the test whether a
comma is at the index. -/
theorem hasPrefix_comma : hasPrefix src i [comma] = true ↔ src[i]? = some comma := by
  rw [hasPrefix, ← List.head?_drop]
  cases src.drop i with
  | nil => simp [List.isPrefixOf]
  | cons c rest =>
    simp only [List.isPrefixOf, Bool.and_true, beq_iff_eq, List.head?_cons, Option.some.injEq]
    exact eq_comm

/-- The characters of a bare element keep the invariant: it goes on until a delimiter or a
closing brace and must not be empty. -/
theorem bare_proceeds {start : Nat} (kept : ParserInvariant src ⟨.bare start, depth, i, dims, elems⟩) :
    Proceeds src ⟨.bare start, depth, i, dims, elems⟩
      (bareStep src [comma] start ⟨.bare start, depth, i, dims, elems⟩) := by
  obtain ⟨(safe : Safe src i depth dims), (before : start ≤ i), reads⟩ := kept
  refine whileReading_proceeds safe.inSrc (fun isEnd => ?_) ?_
  · refine .next ⟨safe, fun single => Or.inl ⟨(reads single).1, Or.inr (Or.inl isEnd)⟩⟩ ?_
    simp only [parserRank]
    omega
  intro c (found : src[i]? = some c) (inside : i < src.length)
  by_cases ends : hasPrefix src i [comma] ∨ c = closeBrace
  · have sliced : slice src start i = .returned ((src.take i).drop start) :=
      if_pos ⟨before, safe.inSrc⟩
    rw [if_pos ends]
    simp only [sliced, Outcome.bind_returned]
    by_cases empty : (src.take i).drop start = []
    · rw [if_pos empty]
      exact .stop trivial
    · rw [if_neg empty]
      refine .next ⟨safe, fun single => Or.inl ?_⟩ ?_
      · obtain ⟨isOne, texts, behind, denotes⟩ := reads single
        refine ⟨isOne, Or.inl ⟨texts, (src.take i).drop start, ?_, ?_⟩⟩
        · have split := List.take_append_drop start (src.take i)
          rw [List.take_take, Nat.min_eq_left before, behind] at split
          exact split.symm
        · exact List.rel_append denotes (.cons (.bare empty) .nil)
      · simp only [parserRank]
        omega
  · rw [if_neg ends]
    refine .next ⟨safe.advance inside, Nat.le_succ_of_le before, reads⟩ ?_
    simp only [parserRank]
    omega

/-- What follows an element keeps the invariant: a comma leads to the next element, and a closing
brace lowers the depth. -/
theorem separator_proceeds (kept : ParserInvariant src ⟨.separator, depth, i, dims, elems⟩) :
    Proceeds src ⟨.separator, depth, i, dims, elems⟩
      (separatorStep src [comma] ⟨.separator, depth, i, dims, elems⟩) := by
  obtain ⟨(safe : Safe src i depth dims), reads⟩ := kept
  refine whileReading_proceeds safe.inSrc (fun isEnd => ?_) ?_
  · refine .next ⟨safe.inSrc, safe.nonneg, Or.inr ⟨isEnd, safe, fun single isZero => ?_⟩⟩ ?_
    · rcases reads single with ⟨isOne, -⟩ | ⟨-, whole⟩
      · exact absurd (isOne.symm.trans isZero) (by decide)
      · exact whole
    · simp only [parserRank]
      omega
  intro c (found : src[i]? = some c) (inside : i < src.length)
  have depth_le := safe.depth_le
  -- Another element or the closing brace can only follow an element of the text.
  have after (single : dims.length = 1) (positive : 0 < depth) (notOpen : c ≠ openBrace) :
      depth = 1 ∧ AfterElement src i elems := by
    rcases reads single with ⟨isOne, behind | isEnd | isOpen⟩ | ⟨(isZero : depth = 0), -⟩
    · exact ⟨isOne, behind⟩
    · exact absurd isEnd (Nat.ne_of_lt inside)
    · exact absurd (Option.some.inj (found.symm.trans isOpen)) notOpen
    · omega
  have counted (positive : 0 < depth) : assignDim dims (depth - 1) (· + 1) =
      .returned (dims.modify (depth - 1).toNat (· + 1)) :=
    assignDim_returned (by omega) (by omega)
  by_cases another : hasPrefix src i [comma] ∧ 0 < depth
  · obtain ⟨isPrefix, positive⟩ := another
    obtain rfl : c = comma := Option.some.inj (found.symm.trans (hasPrefix_comma.mp isPrefix))
    rw [if_pos ⟨isPrefix, positive⟩]
    simp only [counted positive, Outcome.bind_returned]
    refine .next ⟨safe.count inside positive (Or.inl rfl), fun single => ?_⟩ ?_
    · rw [List.length_modify] at single
      obtain ⟨isOne, texts, text, behind, denotes⟩ := after single positive (by decide)
      refine ⟨isOne, texts ++ [text], ?_, denotes⟩
      rw [List.length_singleton, take_next found, behind, listed_append]
      rfl
    · simp only [parserRank, List.length_singleton]
      omega
  · rw [if_neg another]
    by_cases closes : c = closeBrace ∧ 0 < depth
    · obtain ⟨rfl, positive⟩ := closes
      rw [if_pos ⟨rfl, positive⟩]
      simp only [counted positive, Outcome.bind_returned]
      refine .next ⟨safe.count inside positive (Or.inr rfl), fun single => Or.inr ?_⟩ ?_
      · rw [List.length_modify] at single
        obtain ⟨isOne, texts, text, behind, denotes⟩ := after single positive (by decide)
        refine ⟨by rw [isOne]; rfl, texts, text, ?_, denotes⟩
        rw [take_next found, behind]
        rfl
      · simp only [parserRank]
        omega
    · rw [if_neg closes]
      exact .stop trivial

/-- The loop over the dimensions divides by none that is zero. -/
theorem checkDims_returns {count : Int} {err : Option ArrayError} {dims : List Int}
    (positive : ∀ d ∈ dims, 0 < d) : ∃ result, checkDims count err dims = .returned result := by
  induction dims generalizing err with
  | nil => exact ⟨err, rfl⟩
  | cons d rest inductionHypothesis =>
    have isPositive := positive d List.mem_cons_self
    rw [checkDims, if_neg (by omega)]
    exact inductionHypothesis fun other member => positive other (List.mem_cons_of_mem _ member)

/-- Elements with commas behind all but the last are the elements with commas between them. -/
theorem listed_intercalate (texts : List Bytes) (text : Bytes) :
    listed texts ++ text = [comma].intercalate (texts ++ [text]) := by
  induction texts with
  | nil => simp [listed, List.intercalate]
  | cons first rest inductionHypothesis =>
    have split : listed (first :: rest) = first ++ [comma] ++ listed rest := rfl
    have nonempty : rest ++ [text] ≠ [] := List.append_ne_nil_of_right_ne_nil _ (List.cons_ne_nil _ _)
    rw [split, List.append_assoc, inductionHypothesis, List.cons_append,
      List.intercalate_cons_of_ne_nil nonempty]

/-- After the loops the parser either reports what it misses or returns the dimensions and the
elements, and both are admitted. -/
theorem finish_proceeds (kept : ParserInvariant src ⟨.closing, depth, i, dims, elems⟩)
    (isEnd : i = src.length) :
    Proceeds src ⟨.closing, depth, i, dims, elems⟩ (finish ⟨.closing, depth, i, dims, elems⟩) := by
  obtain ⟨-, (nonneg : 0 ≤ depth), known⟩ := kept
  unfold finish
  by_cases open_ : 0 < depth
  · rw [if_pos open_]
    exact .stop trivial
  · have isZero : depth = 0 := by omega
    have positive : ∀ d ∈ dims, 0 < d := by
      intro d member
      rcases known with ⟨(none_ : dims = []), -⟩ | ⟨-, (safe : Safe src i depth dims), -⟩
      · rw [none_] at member
        cases member
      · obtain ⟨level, found⟩ := List.mem_iff_getElem?.mp member
        exact (safe.sizes level d found).2 (by omega)
    obtain ⟨err, checked⟩ : ∃ err, checkDims (elems.length : Int) none dims = .returned err :=
      checkDims_returns positive
    rw [if_neg open_]
    simp only [checked, Outcome.bind_returned]
    cases err with
    | some err => exact .stop trivial
    | none =>
      refine .stop ?_
      rcases known with ⟨-, (noElems : elems = [])⟩ | ⟨-, (safe : Safe src i depth dims), reads⟩
      · exact Or.inr (Or.inl noElems)
      · by_cases nested : 1 < dims.length
        · exact Or.inl nested
        · have single : dims.length = 1 := by
            have positive := List.length_pos_iff.mpr safe.opened
            omega
          obtain ⟨texts, text, behind, denotes⟩ := reads single isZero
          refine Or.inr (Or.inr ⟨texts ++ [text], ?_, denotes⟩)
          rw [List.take_of_length_le (Nat.le_of_eq isEnd.symm)] at behind
          rw [arrayText, ← listed_intercalate, behind]
          rfl

/-- The loop over the closing braces keeps the invariant: each of them ends a level, and any
other character ends the loop. -/
theorem closing_proceeds (kept : ParserInvariant src ⟨.closing, depth, i, dims, elems⟩) :
    Proceeds src ⟨.closing, depth, i, dims, elems⟩
      (closingStep src ⟨.closing, depth, i, dims, elems⟩) := by
  obtain ⟨(inSrc : i ≤ src.length), (nonneg : 0 ≤ depth), known⟩ := id kept
  refine whileReading_proceeds inSrc (finish_proceeds kept) ?_
  intro c (found : src[i]? = some c) (inside : i < src.length)
  by_cases closes : c = closeBrace ∧ 0 < depth
  · rw [if_pos closes]
    refine .next ⟨inside, Int.sub_nonneg_of_le closes.2, ?_⟩ ?_
    · rcases known with nothing | ⟨isEnd, -⟩
      · exact Or.inl nothing
      · exact absurd isEnd (Nat.ne_of_lt inside)
    · simp only [parserRank]
      omega
  · rw [if_neg closes]
    exact .stop trivial

/-- Every pass of every loop keeps the invariant and comes nearer to the end. This is the step
lemma of the parser. -/
theorem parseStep_proceeds (state : ParseState) (kept : ParserInvariant src state) :
    Proceeds src state (parseStep src [comma] state) := by
  obtain ⟨label, depth, i, dims, elems⟩ := state
  cases label with
  | opening => exact opening_proceeds kept
  | element => exact element_proceeds kept
  | quoted elem escape => exact quoted_proceeds kept
  | bare start => exact bare_proceeds kept
  | separator => exact separator_proceeds kept
  | closing => exact closing_proceeds kept

end Steps

section Numbers

/-- The digits that are left are read to the end, and the value is theirs. -/
theorem parseDigits_ok {digits : Bytes} {n : Nat} (fits : n < 18446744073709551616) {value : UInt64}
    (parsed : parseDigits n digits = .ok value) :
    (∀ c ∈ digits, 48 ≤ c ∧ c ≤ 57) ∧
      digits.foldl (fun n c => 10 * n + (c.toNat - 48)) n = value.toNat := by
  induction digits generalizing n with
  | nil =>
    obtain rfl : UInt64.ofNat n = value := Except.ok.inj parsed
    exact ⟨by simp, (UInt64.toNat_ofNat_of_lt' fits).symm⟩
  | cons c rest inductionHypothesis =>
    rw [parseDigits] at parsed
    split at parsed
    · rename_i isDigit
      dsimp only at parsed
      split at parsed
      · rename_i stillFits
        obtain ⟨digits, isValue⟩ := inductionHypothesis stillFits parsed
        refine ⟨fun other member => ?_, isValue⟩
        rcases List.mem_cons.mp member with rfl | inRest
        · exact isDigit
        · exact digits other inRest
      · cases parsed
    · cases parsed

/-- What `strconv.ParseUint` accepts are decimal digits, at least one of them, of a value below
two to the 64th. -/
theorem parseUint_ok {digits : Bytes} {value : UInt64} (parsed : parseUint digits = .ok value) :
    IsDecimal digits value := by
  rw [parseUint] at parsed
  split at parsed
  · cases parsed
  · rename_i nonempty
    obtain ⟨areDigits, isValue⟩ := parseDigits_ok (by decide) parsed
    exact ⟨nonempty, areDigits, isValue⟩

/-- An element that is a number is spelled by its text. -/
theorem Denotes.spells {text : Bytes} {elem : Option Bytes} (denotes : Denotes text elem)
    {value : UInt64} (parsed : parseUint (elem.getD []) = .ok value) : SpellsNumber text value := by
  cases denotes with
  | bare nonempty =>
    by_cases isNull : text = nullText
    · rw [if_pos isNull] at parsed
      cases parsed
    · rw [if_neg isNull] at parsed
      exact Or.inl (parseUint_ok parsed)
  | quoted unescapes => exact Or.inr ⟨_, _, rfl, unescapes, parseUint_ok parsed⟩

/-- The numbers are those of the elements, in their order. -/
theorem parseElems_ok {texts : List Bytes} {elems : List (Option Bytes)}
    (denote : List.Forall₂ Denotes texts elems) {i : Nat} {values : List UInt64}
    (parsed : parseElems i elems = .ok values) : List.Forall₂ SpellsNumber texts values := by
  induction denote generalizing i values with
  | nil =>
    obtain rfl : [] = values := Except.ok.inj parsed
    exact .nil
  | @cons text elem texts elems denotes _ inductionHypothesis =>
    rw [parseElems] at parsed
    cases isNumber : parseUint (elem.getD []) with
    | error err =>
      rw [isNumber] at parsed
      cases parsed
    | ok value =>
      rw [isNumber] at parsed
      cases areNumbers : parseElems (i + 1) elems with
      | error err =>
        simp only [areNumbers] at parsed
        cases parsed
      | ok rest =>
        simp only [areNumbers] at parsed
        obtain rfl : value :: rest = values := Except.ok.inj parsed
        exact .cons (denotes.spells isNumber) (inductionHypothesis areNumbers)

/-- A list without elements gives no numbers, which is the base of the induction over the loop. -/
theorem parseElems_nil {i : Nat} {values : List UInt64} (parsed : parseElems i [] = .ok values) :
    values = [] := (Except.ok.inj parsed).symm

end Numbers

section Law

/-- `parseArray` returns a result that the text admits, for any text. Three passes for each byte
and a few more are enough. -/
theorem parseArray_returns (src : Bytes) : ∃ parsed, ParsedAs src parsed ∧
    ∀ fuel, 3 * src.length + 5 < fuel → parseArray fuel src [comma] = .returned parsed := by
  by_cases begins : src.length < 1 ∨ src[0]? ≠ some openBrace
  · exact ⟨.error (.expected openBrace 0), trivial, fun fuel _ => if_pos begins⟩
  · have isOpen : src[0]? = some openBrace := by
      by_contra other
      exact begins (Or.inr other)
    have start : ParserInvariant src parseStart := ⟨isOpen, Nat.zero_le _, rfl, rfl, rfl, rfl⟩
    obtain ⟨parsed, wanted, returns⟩ := run_returns parseStep_proceeds start
    refine ⟨parsed, wanted, fun fuel enough => ?_⟩
    rw [parseArray, if_neg begins]
    exact returns fuel enough

/-- `ScanLinearArray` returns, and the elements are those of the text. -/
theorem scanLinearArray_returns (src : Bytes) (typ : String) : ∃ scanned,
    (∀ elems, scanned = .ok elems → elems ≠ [] →
      ∃ texts, src = arrayText texts ∧ List.Forall₂ Denotes texts elems) ∧
      ∀ fuel, 3 * src.length + 5 < fuel → scanLinearArray fuel src [comma] typ = .returned scanned := by
  obtain ⟨parsed, wanted, returns⟩ := parseArray_returns src
  cases parsed with
  | error err =>
    refine ⟨.error err, fun elems impossible => (by cases impossible), fun fuel enough => ?_⟩
    rw [scanLinearArray, returns fuel enough]
    rfl
  | ok result =>
    obtain ⟨dims, elems⟩ := result
    by_cases nested : 1 < dims.length
    · refine ⟨.error (.cannotConvertArray dims typ), fun elems impossible => (by cases impossible),
        fun fuel enough => ?_⟩
      rw [scanLinearArray, returns fuel enough]
      exact if_pos nested
    · refine ⟨.ok elems, ?_, fun fuel enough => ?_⟩
      · rintro _ ⟨⟩ nonempty
        rcases wanted with nests | none_ | spelled
        · exact absurd nests nested
        · exact absurd none_ nonempty
        · exact spelled
      · rw [scanLinearArray, returns fuel enough]
        exact if_neg nested

/-- `Scan` of any text returns. With an error it leaves the receiver as it was; without
one, and with numbers, the text is an array of just these numbers. -/
theorem scan_accepts_arrays (src : Bytes) (a : UInt64Array) : ∃ err after,
    (∀ fuel, 3 * src.length + 5 < fuel → a.scan fuel (.bytes src) = .returned (err, after) ∧
        a.scan fuel (.string src) = .returned (err, after)) ∧
      (err ≠ none → after = a) ∧
      (err = none → ∃ values, after = some values ∧
        (values ≠ [] → ∃ texts, src = arrayText texts ∧ List.Forall₂ SpellsNumber texts values)) := by
  obtain ⟨scanned, spelled, returns⟩ := scanLinearArray_returns src "UInt64Array"
  have scans {result : Option ArrayError × UInt64Array}
      (same : ∀ fuel, 3 * src.length + 5 < fuel → a.scanBytes fuel src = .returned result) (fuel : Nat)
      (enough : 3 * src.length + 5 < fuel) : a.scan fuel (.bytes src) = .returned result ∧
        a.scan fuel (.string src) = .returned result := ⟨same fuel enough, same fuel enough⟩
  cases scanned with
  | error err =>
    refine ⟨some err, a, scans fun fuel enough => ?_, fun _ => rfl, fun impossible => ?_⟩
    · rw [UInt64Array.scanBytes, returns fuel enough]
      rfl
    · cases impossible
  | ok elems =>
    by_cases reset : a.isSome ∧ elems.length = 0
    · refine ⟨none, some [], scans fun fuel enough => ?_, fun failed => absurd rfl failed,
        fun _ => ⟨[], rfl, fun nonempty => absurd rfl nonempty⟩⟩
      rw [UInt64Array.scanBytes, returns fuel enough]
      exact if_pos reset
    · cases parsed : parseElems 0 elems with
      | error err =>
        refine ⟨some err, a, scans fun fuel enough => ?_, fun _ => rfl, fun impossible => ?_⟩
        · rw [UInt64Array.scanBytes, returns fuel enough]
          simp only [Outcome.bind_returned, if_neg reset, parsed]
        · cases impossible
      | ok values =>
        refine ⟨none, some values, scans fun fuel enough => ?_, fun failed => absurd rfl failed,
          fun _ => ⟨values, rfl, fun nonempty => ?_⟩⟩
        · rw [UInt64Array.scanBytes, returns fuel enough]
          simp only [Outcome.bind_returned, if_neg reset, parsed]
        · have someElem : elems ≠ [] := by
            rintro rfl
            exact nonempty (parseElems_nil parsed)
          obtain ⟨texts, isText, denote⟩ := spelled elems rfl someElem
          exact ⟨texts, isText, parseElems_ok denote parsed⟩

/-- An array with a bare and a quoted number, one of them with a backslash. -/
example : UInt64Array.scan 40 (.bytes [123, 55, 44, 34, 92, 49, 50, 34, 125]) none =
    .returned (none, some [7, 12]) := by decide +kernel

end Law

end Hcexplorer.Dbtypes

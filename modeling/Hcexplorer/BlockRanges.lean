import Hcexplorer.Library.Json
import Mathlib.Algebra.Order.Ring.Int
import Mathlib.Data.List.Nodup

/-!
# The summaries of a range of blocks

`getBlockRangeSummary` and `getBlockRangeSteppedSummary` of `apiroutes.go` write a JSON array by
hand: an encoder writes each element, and the loop writes a comma after each index but the last
of the range. With a step the last index of the loop need not be that of the range.

`json.Encoder` is a parameter, which writes the value that it is given between blanks when its
indentation is blank. A response starts with its first write. The loop index is an `int` of 64
bits, whose sum with the step may overflow, and a loop may be out of fuel.
-/

namespace Hcexplorer.ApiRoutes

section Model

/-- `apitypes.TicketPoolInfo`, whose numbers of coins are exact here. -/
structure TicketPoolInfo where
  size : UInt32
  value : ℚ
  valAvg : ℚ
deriving DecidableEq, Repr

/-- `apitypes.BlockDataBasic`, a summary of a block, whose numbers of coins are exact here. -/
structure BlockDataBasic where
  height : UInt32
  size : UInt32
  hash : String
  difficulty : ℚ
  stakeDiff : ℚ
  time : Int64
  poolInfo : TicketPoolInfo
deriving DecidableEq, Repr

/-- The JSON of a summary, under the tags of its fields, or of a nil pointer. -/
def summaryJson : Option BlockDataBasic → Json
  | none => .null
  | some summary => .object [
      ("height", .number summary.height.toNat), ("size", .number summary.size.toNat),
      ("hash", .string summary.hash), ("diff", .number summary.difficulty),
      ("sdiff", .number summary.stakeDiff), ("time", .number summary.time.toInt),
      ("ticket_pool", .object [("size", .number summary.poolInfo.size.toNat),
        ("value", .number summary.poolInfo.value), ("valavg", .number summary.poolInfo.valAvg)])]

/-- `json.Encoder` with its indentation, as two strings: if these are blank, it writes the value
between blanks. -/
structure Encoder where
  encode : List Char → List Char → Json → Except String (List Piece)
  spells : ∀ start indent value, (∀ character ∈ start, isBlank character) →
    (∀ character ∈ indent, isBlank character) →
      ∃ text, encode start indent value = .ok text ∧ Spells text value

/-- `appContext`, with its indentation and the summaries of its data source. -/
structure AppContext where
  jsonIndent : List Char
  getSummary : Int → Option BlockDataBasic
  encoder : Encoder

/-- What a request has in its context, and its query for an indentation. -/
structure Request where
  index0 : Option Int64
  index : Option Int64
  step : Option Int64
  indent : String

/-- `http.ResponseWriter`: the status, once it was written, and the body as it stands. -/
structure ResponseWriter where
  status : Option Nat
  body : List Piece

/-- `Fprintf`, and what the encoder writes. The first write without a status writes the status
200. -/
def ResponseWriter.write (w : ResponseWriter) (text : List Piece) : ResponseWriter :=
  ⟨some (w.status.getD 200), w.body ++ text⟩

/-- `http.Error`: a message and a line end as the body, under a status that only counts if none
was written before. -/
def ResponseWriter.error (w : ResponseWriter) (message : String) (code : Nat) : ResponseWriter :=
  ⟨some (w.status.getD code), w.body ++ (message ++ "\n").toList.map .char⟩

/-- `http.StatusText(422)`, the text of the answer to a request that makes no sense. -/
def statusText422 : String := "Unprocessable Entity"

/-- `getBlockIndex0Ctx`, the first index of the range, and -1 where the context has none. -/
def getBlockIndex0Ctx (r : Request) : Int64 := r.index0.getD (-1)

/-- `getBlockIndexCtx`, the last index of the range, and -1 where the context has none. -/
def getBlockIndexCtx (r : Request) : Int64 := r.index.getD (-1)

/-- `getBlockStepCtx`, the step of the range, and -1 where the context has none. -/
def getBlockStepCtx (r : Request) : Int64 := r.step.getD (-1)

variable (c : AppContext)

/-- `getIndentQuery`: the indentation of the configuration for two values of the query, and else
none. -/
def getIndentQuery (r : Request) : List Char :=
  if r.indent = "1" ∨ r.indent = "true" then c.jsonIndent else []

/-- The loop over the indices, and the end of the array. -/
def writeSummaries (newline indent : List Char) (idx step : Int64) :
    Nat → Int64 → ResponseWriter → Option ResponseWriter
  | 0, _, _ => none
  | fuel + 1, i, w =>
    if i ≤ idx then
      match c.encoder.encode indent indent (summaryJson (c.getSummary i.toInt)) with
      | .error _ => some (w.error statusText422 422)
      | .ok text =>
        let w := w.write text
        let w := if i ≠ idx then w.write (.token .comma :: (newline ++ indent).map .char) else w
        writeSummaries newline indent idx step fuel (i + step) w
    else some (w.write [.token .closeBracket])

/-- The array from its opening on, as both handlers write it, with the turns of its loop counted. -/
def writeArray (r : Request) (idx0 idx step : Int64) (w : ResponseWriter) (fuel : Nat) :
    Option ResponseWriter :=
  let indent := getIndentQuery c r
  let newline := if indent ≠ [] then ['\n'] else []
  writeSummaries c newline indent idx step fuel idx0
    (w.write (.token .openBracket :: (newline ++ indent).map .char))

/-- `getBlockRangeSummary`, which goes through the range with step one. -/
def getBlockRangeSummary (r : Request) (w : ResponseWriter) (fuel : Nat) : Option ResponseWriter :=
  let idx0 := getBlockIndex0Ctx r
  if idx0 < 0 then some (w.error statusText422 422)
  else
    let idx := getBlockIndexCtx r
    if idx < 0 then some (w.error statusText422 422)
    else writeArray c r idx0 idx 1 w fuel

/-- `getBlockRangeSteppedSummary`, which goes through the range with the step of the path. -/
def getBlockRangeSteppedSummary (r : Request) (w : ResponseWriter) (fuel : Nat) :
    Option ResponseWriter :=
  let idx0 := getBlockIndex0Ctx r
  if idx0 < 0 then some (w.error statusText422 422)
  else
    let idx := getBlockIndexCtx r
    if idx < 0 then some (w.error statusText422 422)
    else
      let step := getBlockStepCtx r
      if step ≤ 0 then some (w.error "Yeaaah, that step's not gonna work with me." 422)
      else writeArray c r idx0 idx step w fuel

end Model

section Heights

/-- The heights from one on, step by step, not above another. -/
def heights (idx0 idx step : Int) : List Int :=
  (List.range (((idx - idx0) / step).toNat + 1)).map fun k : Nat => idx0 + k * step

variable {idx0 idx step : Int}

/-- A height is one of the range exactly when it is some number of steps behind the first and not
behind the last. -/
theorem mem_heights (ordered : idx0 ≤ idx) (positive : 1 ≤ step) {height : Int} :
    height ∈ heights idx0 idx step ↔ ∃ k : Nat, height = idx0 + k * step ∧ height ≤ idx := by
  have nonneg : 0 ≤ (idx - idx0) / step := Int.ediv_nonneg (by omega) (by omega)
  have inside : ∀ k : Nat, k < ((idx - idx0) / step).toNat + 1 ↔ idx0 + k * step ≤ idx := by
    intro k
    have quotient : (k : Int) ≤ (idx - idx0) / step ↔ k * step ≤ idx - idx0 :=
      Int.le_ediv_iff_mul_le (by omega)
    omega
  simp only [heights, List.mem_map, List.mem_range]
  constructor
  · rintro ⟨k, below, rfl⟩
    exact ⟨k, rfl, (inside k).mp below⟩
  · rintro ⟨k, rfl, below⟩
    exact ⟨k, (inside k).mpr below, rfl⟩

/-- The heights of a range ascend, so that none of them is visited twice. -/
theorem heights_ascending (positive : 1 ≤ step) : (heights idx0 idx step).Pairwise (· < ·) := by
  rw [heights, List.pairwise_map]
  refine List.pairwise_lt_range.imp fun {k l} below => ?_
  have steps : (k : Int) * step < l * step := Int.mul_lt_mul_of_pos_right (by omega) (by omega)
  omega

/-- The first height, and those from the next one on. -/
theorem heights_cons (positive : 1 ≤ step) (more : idx0 + step ≤ idx) :
    heights idx0 idx step = idx0 :: heights (idx0 + step) idx step := by
  have quotient : (idx - (idx0 + step)) / step = (idx - idx0) / step - 1 := by
    have shifted := Int.add_mul_ediv_right (idx - idx0) (-1) (show step ≠ 0 by omega)
    have same : idx - (idx0 + step) = idx - idx0 + -1 * step := by omega
    rw [same, shifted]
    omega
  have nonneg : 0 ≤ (idx - (idx0 + step)) / step := Int.ediv_nonneg (by omega) (by omega)
  have count : ((idx - idx0) / step).toNat + 1 = ((idx - (idx0 + step)) / step).toNat + 1 + 1 := by
    omega
  rw [heights, heights, count, List.range_succ_eq_map, List.map_cons, List.map_map]
  refine congrArg₂ _ (by simp) (List.map_congr_left fun k _ => ?_)
  have onward : ((k + 1 : Nat) : Int) * step = k * step + step := by
    rw [Int.natCast_succ, Int.add_mul, Int.one_mul]
  simp only [Function.comp, Nat.succ_eq_add_one, onward]
  omega

/-- The only height, where the next one is above. -/
theorem heights_single (ordered : idx0 ≤ idx) (past : idx < idx0 + step) :
    heights idx0 idx step = [idx0] := by
  have none_ : (idx - idx0) / step = 0 := Int.ediv_eq_zero_of_lt (by omega) (by omega)
  simp [heights, none_]

end Heights

section Loop

/-- The indices at which the loop writes a summary, if it ends. -/
def visits (idx step : Int64) : Nat → Int64 → Option (List Int)
  | 0, _ => none
  | fuel + 1, i => if i ≤ idx then (visits idx step fuel (i + step)).map (i.toInt :: ·) else some []

variable {idx step : Int64}

/-- The sum of an index and the step is their sum as integers as long as it is an `int`. -/
theorem toInt_next {i : Int64} (nonneg : 0 ≤ i.toInt) (positive : 1 ≤ step.toInt)
    (fits : i.toInt + step.toInt < 2 ^ 63) : (i + step).toInt = i.toInt + step.toInt := by
  rw [Int64.toInt_add, Int.bmod_eq_of_le] <;> omega

/-- The sum of an index and the step is negative where their sum as integers is no `int`. -/
theorem toInt_next_negative {i : Int64} (nonneg : 0 ≤ i.toInt)
    (overflows : 2 ^ 63 ≤ i.toInt + step.toInt) : (i + step).toInt < 0 := by
  have inside := i.toInt_lt
  have insideToo := step.toInt_lt
  rw [Int64.toInt_add, Int.bmod_eq_emod, Int.emod_eq_of_lt, if_pos] <;> omega

/-- A loop that starts past the end of the range ends at once and visits nothing. -/
theorem visits_past {i : Int64} (past : idx.toInt < i.toInt) (fuel : Nat) :
    visits idx step (fuel + 1) i = some [] := by
  rw [visits, if_neg]
  rw [Int64.le_iff_toInt_le]
  omega

/-- A loop that starts in the range visits its index and goes on behind it. -/
theorem visits_cons {i : Int64} {fuel : Nat} {visited : List Int} (below : i.toInt ≤ idx.toInt)
    (ended : visits idx step fuel i = some visited) :
    ∃ fewer later, fuel = fewer + 1 ∧ visits idx step fewer (i + step) = some later ∧
      visited = i.toInt :: later := by
  cases fuel with
  | zero => cases ended
  | succ fewer =>
    rw [visits, if_pos (Int64.le_iff_toInt_le.mpr below)] at ended
    obtain ⟨later, endedLater, rfl⟩ := Option.map_eq_some_iff.mp ended
    exact ⟨fewer, later, rfl, endedLater, rfl⟩

/-- The loop visits the heights, and no more when the sum after the last one fits. -/
theorem visits_heights {fuel : Nat} {i : Int64} {visited : List Int} (nonneg : 0 ≤ i.toInt)
    (below : i.toInt ≤ idx.toInt) (positive : 1 ≤ step.toInt)
    (ended : visits idx step fuel i = some visited) :
    ∃ extra, visited = heights i.toInt idx.toInt step.toInt ++ extra ∧
      (idx.toInt + step.toInt < 2 ^ 63 → extra = []) ∧
      (step.toInt ∣ idx.toInt - i.toInt → extra = [] → idx.toInt + step.toInt < 2 ^ 63) := by
  induction fuel generalizing i visited with
  | zero => cases ended
  | succ fuel inductionHypothesis =>
    obtain ⟨fewer, later, same, endedLater, rfl⟩ := visits_cons below ended
    obtain rfl := Nat.succ.inj same
    by_cases more : i.toInt + step.toInt ≤ idx.toInt
    · have inside := idx.toInt_lt
      have next : (i + step).toInt = i.toInt + step.toInt :=
        toInt_next nonneg positive (by omega)
      obtain ⟨extra, rest, nothing, fits⟩ :=
        inductionHypothesis (i := i + step) (by omega) (by omega) endedLater
      refine ⟨extra, ?_, nothing, fun divides => fits ?_⟩
      · rw [rest, next, heights_cons positive more, List.cons_append]
      · have onward : idx.toInt - (i + step).toInt = idx.toInt - i.toInt - step.toInt := by omega
        rw [onward]
        exact Int.dvd_sub divides (Int.dvd_refl _)
    · refine ⟨later, by rw [heights_single below (by omega)]; rfl, fun fits => ?_, ?_⟩
      · have next : (i + step).toInt = i.toInt + step.toInt :=
          toInt_next nonneg positive (by omega)
        cases fuel with
        | zero => cases endedLater
        | succ fuel =>
          rw [visits_past (by omega)] at endedLater
          exact (Option.some.inj endedLater).symm
      · rintro divides rfl
        have last : idx.toInt - i.toInt = 0 := by
          have remainder := Int.emod_eq_zero_of_dvd divides
          rwa [Int.emod_eq_of_lt (by omega) (by omega)] at remainder
        by_contra overflows
        have negative : (i + step).toInt < 0 := toInt_next_negative nonneg (by omega)
        obtain ⟨_, _, -, -, more⟩ := visits_cons (by omega) endedLater
        cases more

/-- With enough fuel the loop ends, when no sum overflows. -/
theorem visits_ends {i : Int64} (nonneg : 0 ≤ i.toInt) (positive : 1 ≤ step.toInt)
    (fits : idx.toInt + step.toInt < 2 ^ 63) :
    ∃ fuel visited, visits idx step fuel i = some visited := by
  induction distance : (idx.toInt + 1 - i.toInt).toNat using Nat.strong_induction_on generalizing i with
  | _ number inductionHypothesis =>
    by_cases below : i.toInt ≤ idx.toInt
    · have next : (i + step).toInt = i.toInt + step.toInt :=
        toInt_next nonneg positive (by omega)
      obtain ⟨fuel, visited, ended⟩ :=
        inductionHypothesis (idx.toInt + 1 - (i + step).toInt).toNat (by omega) (by omega) rfl
      refine ⟨fuel + 1, i.toInt :: visited, ?_⟩
      rw [visits, if_pos (Int64.le_iff_toInt_le.mpr below), ended, Option.map_some]
    · exact ⟨1, [], visits_past (by omega) 0⟩

end Loop

section Texts

variable (c : AppContext) (idx : Int)

/-- The element of the array at a height, the summary that the data source has for it. -/
def element (height : Int) : Json := summaryJson (c.getSummary height)

/-- What is written at a height, apart from blanks. -/
def turnTokens (height : Int) : List Token :=
  (element c height).tokens ++ if height ≠ idx then [.comma] else []

variable {c}

/-- A write that can be read as tokens adds these tokens to those of the body. -/
theorem lexed_write {w : ResponseWriter} {text : List Piece} {written tokens : List Token}
    (before : lexed w.body = some written) (adds : lexed text = some tokens) :
    lexed (w.write text).body = some (written ++ tokens) := by
  simp only [ResponseWriter.write, lexed_append, before, adds, Option.bind_some, Option.map_some]

/-- A token with the start of a line behind it is read as that token alone, since the start of a
line is blank. -/
theorem lexed_line (token : Token) {newline indent : List Char}
    (newline_blank : ∀ character ∈ newline, isBlank character)
    (indent_blank : ∀ character ∈ indent, isBlank character) :
    lexed (.token token :: (newline ++ indent).map .char) = some [token] := by
  have blanks := lexed_blanks (List.forall_mem_append.mpr ⟨newline_blank, indent_blank⟩)
  simp only [lexed, blanks, Option.map_some]

/-- The loop writes the summaries of the heights that it visits, as long as it has fuel. -/
theorem writeSummaries_lexed (idx step : Int64) {newline indent : List Char}
    (newline_blank : ∀ character ∈ newline, isBlank character)
    (indent_blank : ∀ character ∈ indent, isBlank character) (fuel : Nat) {i : Int64}
    {w : ResponseWriter} {written : List Token} (before : lexed w.body = some written) :
    (writeSummaries c newline indent idx step fuel i w).map (fun w => lexed w.body) =
      (visits idx step fuel i).map fun visited =>
        some (written ++ visited.flatMap (turnTokens c idx.toInt) ++ [.closeBracket]) := by
  induction fuel generalizing i w written with
  | zero => rfl
  | succ fuel inductionHypothesis =>
    by_cases below : i ≤ idx
    · obtain ⟨text, encoded, spells⟩ := c.encoder.spells indent indent (element c i.toInt)
        indent_blank indent_blank
      have turned : lexed (if i ≠ idx then
          (w.write text).write (.token .comma :: (newline ++ indent).map .char)
            else w.write text).body = some (written ++ turnTokens c idx.toInt i.toInt) := by
        have wrote := lexed_write before spells
        by_cases last : i = idx
        · subst last
          simpa [turnTokens] using wrote
        · have notLast : i.toInt ≠ idx.toInt := fun same => last (Int64.toInt_inj.mp same)
          have comma := lexed_write wrote (lexed_line .comma newline_blank indent_blank)
          simpa [turnTokens, last, notLast] using comma
      have turn : writeSummaries c newline indent idx step (fuel + 1) i w =
          writeSummaries c newline indent idx step fuel (i + step)
            (if i ≠ idx then (w.write text).write (.token .comma :: (newline ++ indent).map .char)
              else w.write text) := by
        rw [element] at encoded
        simp only [writeSummaries, if_pos below, encoded]
      rw [turn, inductionHypothesis turned, visits, if_pos below, Option.map_map]
      refine congrArg (Option.map · _) (funext fun visited => ?_)
      simp only [Function.comp, List.flatMap_cons, List.append_assoc]
    · rw [writeSummaries, visits, if_neg below, if_neg below]
      simp [ResponseWriter.write, lexed_append, before, lexed]

end Texts

section Law

variable {c : AppContext} {idx0 idx step : Int}

/-- How many tokens are written at heights: one more for each but the last of the range. -/
theorem length_turnTokens (visited : List Int) :
    (visited.flatMap (turnTokens c idx)).length + visited.count idx =
      ((visited.map (element c)).map fun value => value.tokens.length + 1).sum := by
  induction visited with
  | nil => rfl
  | cons height rest inductionHypothesis =>
    simp only [List.flatMap_cons, List.length_append, List.map_cons, List.sum_cons,
      ← inductionHypothesis]
    by_cases last : height = idx
    · subst last
      simp [turnTokens]
      omega
    · rw [List.count_cons_of_ne last]
      simp [turnTokens, last]
      omega

/-- Something is written at every height, a null where there is no summary. -/
theorem turnTokens_ne_nil (height : Int) : turnTokens c idx height ≠ [] :=
  List.append_ne_nil_of_left_ne_nil (Json.tokens_ne_nil _) _

/-- When the last height is that of the range, what is written are the elements of an array. -/
theorem flatMap_heights (ordered : idx0 ≤ idx) (positive : 1 ≤ step) (divides : step ∣ idx - idx0) :
    (heights idx0 idx step).flatMap (turnTokens c idx) =
      Json.firstTokens ((heights idx0 idx step).map (element c)) := by
  have exact_ : (idx - idx0) / step * step = idx - idx0 := Int.ediv_mul_cancel divides
  have nonneg : 0 ≤ (idx - idx0) / step := Int.ediv_nonneg (by omega) (by omega)
  obtain ⟨number, isNumber⟩ := Int.eq_ofNat_of_zero_le nonneg
  rw [isNumber] at exact_
  have split : heights idx0 idx step =
      (List.range number).map (fun k : Nat => idx0 + k * step) ++ [idx] := by
    have last : idx0 + number * step = idx := by omega
    rw [heights, isNumber, Int.toNat_natCast, List.range_succ, List.map_append, List.map_singleton,
      last]
  have notLast : ∀ height ∈ (List.range number).map (fun k : Nat => idx0 + k * step),
      height ≠ idx := by
    intro height member
    obtain ⟨k, below, rfl⟩ := List.mem_map.mp member
    have steps : (k : Int) * step < number * step :=
      Int.mul_lt_mul_of_pos_right (by have := List.mem_range.mp below; omega) (by omega)
    omega
  have front : ∀ height ∈ (List.range number).map (fun k : Nat => idx0 + k * step),
      turnTokens c idx height = (element c height).tokens ++ [.comma] := by
    intro height member
    rw [turnTokens, if_pos (notLast height member)]
  rw [split, List.map_append, List.map_singleton, Json.firstTokens_concat, List.flatMap_append,
    List.flatMap_congr front, List.flatMap_map (element c), List.flatMap_singleton]
  simp [turnTokens]

/-- When what is written are the elements of an array, the last height is that of the range and
nothing follows. -/
theorem flatMap_heights_append (ordered : idx0 ≤ idx) (positive : 1 ≤ step) {extra : List Int}
    (elements : (heights idx0 idx step ++ extra).flatMap (turnTokens c idx) =
      Json.firstTokens ((heights idx0 idx step).map (element c))) :
    step ∣ idx - idx0 ∧ extra = [] := by
  have first : idx0 ∈ heights idx0 idx step :=
    (mem_heights ordered positive).mpr ⟨0, by simp, ordered⟩
  have some_ : (heights idx0 idx step).map (element c) ≠ [] := by
    rw [Ne, List.map_eq_nil_iff]
    exact List.ne_nil_of_mem first
  have once : (heights idx0 idx step).count idx ≤ 1 :=
    List.nodup_iff_count_le_one.mp ((heights_ascending positive).imp ne_of_lt) idx
  -- one comma less than there are elements, and none is saved but at the last height
  have commas : (extra.flatMap (turnTokens c idx)).length + 1 = (heights idx0 idx step).count idx := by
    have arrayLength := Json.length_firstTokens some_
    have loopLength : ((heights idx0 idx step).flatMap (turnTokens c idx)).length +
        (heights idx0 idx step).count idx = _ := length_turnTokens _
    rw [← elements, List.flatMap_append, List.length_append] at arrayLength
    omega
  constructor
  · have member : idx ∈ heights idx0 idx step := List.count_pos_iff.mp (by omega)
    obtain ⟨k, same, -⟩ := (mem_heights ordered positive).mp member
    exact ⟨k, by rw [Int.mul_comm]; omega⟩
  · cases extra with
    | nil => rfl
    | cons height rest =>
      have written : 0 < (turnTokens c idx height).length :=
        List.length_pos_iff.mpr (turnTokens_ne_nil height)
      rw [List.flatMap_cons, List.length_append] at commas
      omega

/-- The newline that goes with an indentation is blank. -/
theorem newline_blank (indent : List Char) :
    ∀ character ∈ (if indent ≠ [] then ['\n'] else []), isBlank character := by
  by_cases indented : indent ≠ [] <;> simp [indented, isBlank]

/-- The loop only adds to what is written already, and never takes any of it back. -/
theorem writeSummaries_body {newline indent : List Char} {idx step : Int64} {fuel : Nat} {i : Int64}
    {w after : ResponseWriter}
    (wrote : writeSummaries c newline indent idx step fuel i w = some after) :
    ∃ more, after.body = w.body ++ more := by
  induction fuel generalizing i w with
  | zero => cases wrote
  | succ fuel inductionHypothesis =>
    rw [writeSummaries] at wrote
    by_cases below : i ≤ idx
    · rw [if_pos below] at wrote
      cases encoded : c.encoder.encode indent indent (summaryJson (c.getSummary i.toInt)) with
      | error err =>
        simp only [encoded] at wrote
        cases wrote
        exact ⟨_, rfl⟩
      | ok text =>
        simp only [encoded] at wrote
        obtain ⟨more, added⟩ := inductionHypothesis wrote
        by_cases last : i ≠ idx
        · rw [if_pos last] at added
          exact ⟨_, by rw [added, ResponseWriter.write, ResponseWriter.write, List.append_assoc,
            List.append_assoc]⟩
        · rw [if_neg last] at added
          exact ⟨_, by rw [added, ResponseWriter.write, List.append_assoc]⟩
    · rw [if_neg below] at wrote
      cases wrote
      exact ⟨_, rfl⟩

/-- The array is no text unless the indentation of the request is blank. -/
theorem writeArray_blank {r : Request} {idx0 idx step : Int64} {fuel : Nat} {w : ResponseWriter}
    {tokens : List Token} (wrote : writeArray c r idx0 idx step ⟨none, []⟩ fuel = some w)
    (text : lexed w.body = some tokens) :
    ∀ character ∈ getIndentQuery c r, isBlank character := by
  obtain ⟨more, added⟩ := writeSummaries_body wrote
  rw [added] at text
  obtain ⟨first, opening⟩ := lexed_front text
  simp only [ResponseWriter.write, List.nil_append, lexed] at opening
  obtain ⟨blanks, isBlanks, -⟩ := Option.map_eq_some_iff.mp opening
  exact (List.forall_mem_append.mp (blank_of_lexed isBlanks)).2

/-- What the array has then: the elements of the visited heights between the brackets. -/
theorem writeArray_lexed {r : Request} (blank : ∀ character ∈ getIndentQuery c r, isBlank character)
    (idx0 idx step : Int64) (fuel : Nat) :
    (writeArray c r idx0 idx step ⟨none, []⟩ fuel).map (fun w => lexed w.body) =
      (visits idx step fuel idx0).map fun visited =>
        some (.openBracket :: visited.flatMap (turnTokens c idx.toInt) ++ [.closeBracket]) := by
  have opened : lexed (ResponseWriter.write ⟨none, []⟩ (.token .openBracket ::
      ((if getIndentQuery c r ≠ [] then ['\n'] else []) ++ getIndentQuery c r).map .char)).body =
        some ([] ++ [.openBracket]) := lexed_write rfl (lexed_line .openBracket (newline_blank _) blank)
  exact writeSummaries_lexed idx step (newline_blank _) blank fuel opened

/-- The summaries from one height to another, step by step, are what a handler answers. -/
def WritesSummaries (c : AppContext) (handler : ResponseWriter → Nat → Option ResponseWriter)
    (idx0 idx step : Int) : Prop :=
  ∃ fuel w, handler ⟨none, []⟩ fuel = some w ∧
    Spells w.body (.array ((heights idx0 idx step).map (element c)))

/-- The array is right exactly when the indentation is blank, the step divides the range and the
sum after its end fits. -/
theorem writeArray_iff (r : Request) {idx0 idx step : Int64} (nonneg : 0 ≤ idx0.toInt)
    (ordered : idx0.toInt ≤ idx.toInt) (positive : 1 ≤ step.toInt) :
    WritesSummaries c (writeArray c r idx0 idx step) idx0.toInt idx.toInt step.toInt ↔
      (∀ character ∈ getIndentQuery c r, isBlank character) ∧
        step.toInt ∣ idx.toInt - idx0.toInt ∧ idx.toInt + step.toInt < 2 ^ 63 := by
  have array : ∀ text, Spells text
      (.array ((heights idx0.toInt idx.toInt step.toInt).map (element c))) ↔
        lexed text = some (.openBracket ::
        Json.firstTokens ((heights idx0.toInt idx.toInt step.toInt).map (element c)) ++
          [.closeBracket]) := by
    intro text
    rw [Spells, Json.tokens, List.cons_append]
  constructor
  · rintro ⟨fuel, w, wrote, spells⟩
    have blank := writeArray_blank wrote spells
    have looped := writeArray_lexed blank idx0 idx step fuel
    rw [wrote, Option.map_some, (array _).mp spells] at looped
    obtain ⟨visited, ended, same⟩ := Option.map_eq_some_iff.mp looped.symm
    have elements :=
      List.tail_eq_of_cons_eq (List.append_cancel_right (Option.some.inj same))
    obtain ⟨extra, rfl, -, fits⟩ := visits_heights nonneg ordered positive ended
    obtain ⟨divides, rfl⟩ := flatMap_heights_append ordered positive elements
    exact ⟨blank, divides, fits divides rfl⟩
  · rintro ⟨blank, divides, fits⟩
    obtain ⟨fuel, visited, ended⟩ := visits_ends (i := idx0) nonneg positive fits
    obtain ⟨extra, rfl, nothing, -⟩ := visits_heights nonneg ordered positive ended
    obtain rfl := nothing fits
    have looped := writeArray_lexed blank idx0 idx step fuel
    rw [ended, List.append_nil, Option.map_some, flatMap_heights ordered positive divides] at looped
    obtain ⟨w, wrote, spells⟩ := Option.map_eq_some_iff.mp looped
    exact ⟨fuel, w, wrote, (array _).mpr spells⟩

/-- When the step does not divide the range, what is written is no JSON at all. -/
theorem writeArray_no_json (r : Request) {idx0 idx step : Int64} (nonneg : 0 ≤ idx0.toInt)
    (ordered : idx0.toInt ≤ idx.toInt) (positive : 1 ≤ step.toInt)
    (fits : idx.toInt + step.toInt < 2 ^ 63) (rest : ¬ step.toInt ∣ idx.toInt - idx0.toInt)
    {fuel : Nat} {w : ResponseWriter}
    (wrote : writeArray c r idx0 idx step ⟨none, []⟩ fuel = some w) (value : Json) :
    ¬ Spells w.body value := by
  intro spells
  have looped := writeArray_lexed (writeArray_blank wrote spells) idx0 idx step fuel
  rw [wrote, Option.map_some, spells] at looped
  obtain ⟨visited, ended, same⟩ := Option.map_eq_some_iff.mp looped.symm
  obtain ⟨extra, rfl, nothing, -⟩ := visits_heights nonneg ordered positive ended
  obtain rfl := nothing fits
  have first : idx0.toInt ∈ heights idx0.toInt idx.toInt step.toInt :=
    (mem_heights ordered positive).mpr ⟨0, by simp, ordered⟩
  rcases List.eq_nil_or_concat (heights idx0.toInt idx.toInt step.toInt) with
    empty | ⟨front, last, split⟩
  · simp [empty] at first
  · have notLast : last ≠ idx.toInt := by
      rintro rfl
      have member : idx.toInt ∈ heights idx0.toInt idx.toInt step.toInt := by simp [split]
      obtain ⟨k, height, -⟩ := (mem_heights ordered positive).mp member
      exact rest ⟨k, by rw [Int.mul_comm]; omega⟩
    refine Json.tokens_ne_trailing value (.openBracket ::
      (front.flatMap (turnTokens c idx.toInt) ++ (element c last).tokens)) ?_
    rw [← Option.some.inj same, split]
    simp [turnTokens, notLast]

/-- A request for the summaries from one height to another, where the chain has all to it. -/
structure Asked (c : AppContext) (r : Request) (idx0 idx step : Int64) : Prop where
  index0 : r.index0 = some idx0
  index : r.index = some idx
  hasStep : r.step = some step
  nonneg : 0 ≤ idx0.toInt
  ordered : idx0.toInt ≤ idx.toInt
  positive : 1 ≤ step.toInt
  stored : ∀ height, 0 ≤ height → height ≤ idx.toInt →
    ∃ summary, c.getSummary height = some summary ∧ (summary.height.toNat : Int) = height

namespace Asked

variable {r : Request} {idx0 idx step : Int64}

/-- The last index of a range that is asked for is the height of a stored block, and so a
`uint32`. -/
theorem idx_lt (asked : Asked c r idx0 idx step) : idx.toInt < 2 ^ 32 := by
  have nonneg := asked.nonneg
  have ordered := asked.ordered
  obtain ⟨summary, -, height⟩ := asked.stored idx.toInt (by omega) le_rfl
  have inside := summary.height.toNat_lt
  omega

/-- A request without a step is answered with the array that has step one. -/
theorem getBlockRangeSummary_eq (asked : Asked c r idx0 idx step) :
    getBlockRangeSummary c r = writeArray c r idx0 idx 1 := by
  have nonneg := asked.nonneg
  have ordered := asked.ordered
  have notBelow0 : ¬ idx0 < 0 := by rw [Int64.lt_iff_toInt_lt, Int64.toInt_zero]; omega
  have notBelow : ¬ idx < 0 := by rw [Int64.lt_iff_toInt_lt, Int64.toInt_zero]; omega
  funext w fuel
  simp only [getBlockRangeSummary, getBlockIndex0Ctx, getBlockIndexCtx, asked.index0, asked.index,
    Option.getD_some, if_neg notBelow0, if_neg notBelow]

/-- A request with a step is answered with the array that has this step. -/
theorem getBlockRangeSteppedSummary_eq (asked : Asked c r idx0 idx step) :
    getBlockRangeSteppedSummary c r = writeArray c r idx0 idx step := by
  have nonneg := asked.nonneg
  have ordered := asked.ordered
  have positive := asked.positive
  have notBelow0 : ¬ idx0 < 0 := by rw [Int64.lt_iff_toInt_lt, Int64.toInt_zero]; omega
  have notBelow : ¬ idx < 0 := by rw [Int64.lt_iff_toInt_lt, Int64.toInt_zero]; omega
  have above : ¬ step ≤ 0 := by rw [Int64.le_iff_toInt_le, Int64.toInt_zero]; omega
  funext w fuel
  simp only [getBlockRangeSteppedSummary, getBlockIndex0Ctx, getBlockIndexCtx, getBlockStepCtx,
    asked.index0, asked.index, asked.hasStep, Option.getD_some, if_neg notBelow0, if_neg notBelow,
    if_neg above]

end Asked

/-- Both handlers answer the summaries of the range, exactly when the indentation is blank, the step
divides the range and the index after it is an `int`. -/
theorem getBlockRangeSteppedSummary_iff {c : AppContext} {r : Request} {idx0 idx step : Int64}
    (asked : Asked c r idx0 idx step) :
    WritesSummaries c (getBlockRangeSummary c r) idx0.toInt idx.toInt 1 ∧
        WritesSummaries c (getBlockRangeSteppedSummary c r) idx0.toInt idx.toInt step.toInt ↔
      (∀ character ∈ getIndentQuery c r, isBlank character) ∧
        step.toInt ∣ idx.toInt - idx0.toInt ∧ idx.toInt + step.toInt < 2 ^ 63 := by
  have inside := asked.idx_lt
  have one : 1 ≤ (1 : Int64).toInt := le_rfl
  have unstepped := writeArray_iff (c := c) r asked.nonneg asked.ordered one
  rw [asked.getBlockRangeSummary_eq, asked.getBlockRangeSteppedSummary_eq,
    writeArray_iff r asked.nonneg asked.ordered asked.positive]
  constructor
  · exact fun both => both.2
  · intro condition
    exact ⟨unstepped.mpr ⟨condition.1, Int.one_dvd _, by rw [Int64.toInt_one]; omega⟩, condition⟩

end Law

section Samples

/-- Writes the tokens of a value, and the end of a line. -/
def plainEncoder : Encoder where
  encode _ _ value := .ok (value.tokens.map .token ++ [.char '\n'])
  spells _ _ value _ _ := by
    refine ⟨_, rfl, ?_⟩
    rw [Spells, lexed_append, lexed_tokens]
    simp [lexed, isBlank]

/-- A chain with a block at every height of a `uint32`. -/
def sampleContext : AppContext where
  jsonIndent := [' ', ' ', ' ']
  getSummary height :=
    if 0 ≤ height ∧ height < 2 ^ 32 then
      some ⟨UInt32.ofNat height.toNat, 400, "0a", 1, 1, 1525000000, ⟨40960, 1, 1⟩⟩
    else none
  encoder := plainEncoder

/-- A request for a range with a step, without indentation. -/
def sampleRequest (idx0 idx step : Int64) : Request := ⟨some idx0, some idx, some step, ""⟩

/-- A sample request asks for no indentation, so that nothing in the answer is blank but by the
encoder. -/
theorem sampleRequest_blank (idx0 idx step : Int64) :
    ∀ character ∈ getIndentQuery sampleContext (sampleRequest idx0 idx step), isBlank character := by
  have nothing : getIndentQuery sampleContext (sampleRequest idx0 idx step) = [] := by
    simp [getIndentQuery, sampleRequest]
  rw [nothing]
  exact fun _ member => absurd member List.not_mem_nil

/-- Sample requests for a range of small heights ask for stored blocks. -/
theorem asked_sample {idx0 idx step : Int64} (nonneg : 0 ≤ idx0.toInt)
    (ordered : idx0.toInt ≤ idx.toInt) (inside : idx.toInt < 2 ^ 32) (positive : 1 ≤ step.toInt) :
    Asked sampleContext (sampleRequest idx0 idx step) idx0 idx step where
  index0 := rfl
  index := rfl
  hasStep := rfl
  nonneg := nonneg
  ordered := ordered
  positive := positive
  stored height notBelow notAbove := by
    refine ⟨_, if_pos ⟨notBelow, by omega⟩, ?_⟩
    dsimp only
    rw [UInt32.toNat_ofNat', Nat.mod_eq_of_lt (by omega)]
    omega

/-- From block 0 to block 4 with step 2 both answers are right. -/
theorem getBlockRangeSteppedSummary_even :
    Asked sampleContext (sampleRequest 0 4 2) 0 4 2 ∧
      WritesSummaries sampleContext (getBlockRangeSummary sampleContext (sampleRequest 0 4 2)) 0 4 1 ∧
      WritesSummaries sampleContext
        (getBlockRangeSteppedSummary sampleContext (sampleRequest 0 4 2)) 0 4 2 := by
  have asked : Asked sampleContext (sampleRequest 0 4 2) 0 4 2 :=
    asked_sample (by decide) (by decide) (by decide) (by decide)
  exact ⟨asked, (getBlockRangeSteppedSummary_iff asked).mpr
    ⟨sampleRequest_blank 0 4 2, by decide, by decide⟩⟩

/-- From block 0 to block 1 with step 2, a comma follows the only summary: the answer is no JSON. -/
theorem getBlockRangeSteppedSummary_trailing :
    Asked sampleContext (sampleRequest 0 1 2) 0 1 2 ∧
      (∃ w, getBlockRangeSteppedSummary sampleContext (sampleRequest 0 1 2) ⟨none, []⟩ 2 = some w ∧
        lexed w.body = some (.openBracket :: (element sampleContext 0).tokens ++
          [.comma, .closeBracket])) ∧
      (∀ fuel w,
        getBlockRangeSteppedSummary sampleContext (sampleRequest 0 1 2) ⟨none, []⟩ fuel = some w →
          ∀ value, ¬ Spells w.body value) ∧
      ¬ WritesSummaries sampleContext
        (getBlockRangeSteppedSummary sampleContext (sampleRequest 0 1 2)) 0 1 2 := by
  have asked : Asked sampleContext (sampleRequest 0 1 2) 0 1 2 :=
    asked_sample (by decide) (by decide) (by decide) (by decide)
  have no_json : ∀ fuel w,
      getBlockRangeSteppedSummary sampleContext (sampleRequest 0 1 2) ⟨none, []⟩ fuel = some w →
        ∀ value, ¬ Spells w.body value := by
    intro fuel w wrote
    rw [asked.getBlockRangeSteppedSummary_eq] at wrote
    exact writeArray_no_json _ asked.nonneg asked.ordered asked.positive (by decide) (by decide) wrote
  refine ⟨asked, ?_, no_json, ?_⟩
  · have written := writeArray_lexed (sampleRequest_blank 0 1 2) 0 1 2 2
    rw [← asked.getBlockRangeSteppedSummary_eq] at written
    obtain ⟨w, wrote, spells⟩ := Option.map_eq_some_iff.mp
      (written.trans (congrArg (Option.map _) (show visits 1 2 2 0 = some [0] by decide)))
    refine ⟨w, wrote, spells.trans ?_⟩
    simp [turnTokens]
  · rintro ⟨fuel, w, wrote, spells⟩
    exact no_json fuel w wrote _ spells

end Samples

end Hcexplorer.ApiRoutes

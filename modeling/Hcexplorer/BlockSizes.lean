import Hcexplorer.BlockRanges
import Hcexplorer.Hcsqlite.Tables
import Hcexplorer.Strconv
import Mathlib.Order.Interval.Finset.Nat
import Mathlib.Data.Int.Interval

/-!
# The sizes of a range of blocks

`getBlockRangeSteppedSize` of `apiroutes.go` reads the sizes of all blocks of a range and keeps
one in a step. The step is a number of the path, which may be any `int` of 64 bits, and the loop
adds it to its index before it looks whether the index is still in the range.

A sum that is no `int` any more is negative, so the loop goes on, and the index that it then asks
the sizes for is outside of them. The law says for which steps this happens: those whose sum with
the first index is not below 2 to the 63.
-/

namespace Hcexplorer.ApiRoutes

open Strconv (Text atoi formatInt parseInt_formatInt)

section Model

variable {Rates : Type} (c : AppContext)

/-- `BlockStepPathCtx`, of the part of the path that is the step. -/
def blockStepPathCtx
    (next : Request → ResponseWriter → Nat → Option (Outcome ResponseWriter)) (stepIdxStr : Text)
    (r : Request) (w : ResponseWriter) (fuel : Nat) : Option (Outcome ResponseWriter) :=
  match atoi stepIdxStr with
  | none => some (.returned (w.error "404 page not found" 404))
  | some step => next { r with step := some step } w fuel

/-- `writeJSON`: the encoding of a value, and where the encoder fails nothing is written. -/
def writeJSON (w : ResponseWriter) (thing : Json) (indent : List Char) : ResponseWriter :=
  match c.encoder.encode [] indent thing with
  | .error _ => w
  | .ok text => w.write text

/-- The JSON of a list of sizes, an array of numbers. -/
def sizesJson (blockSizes : List Int32) : Json :=
  .array (blockSizes.map fun size => .number size.toInt)

/-- `GetBlockSizeRange`, which logs an error of the query and passes it on. -/
def getBlockSizeRange (db : Hcsqlite.DB Rates) (fault : Option String) (idx0 idx1 : Int64) :
    Except String (List Int32) :=
  db.retrieveBlockSizeRange fault idx0.toInt idx1.toInt

/-- The loop over the indices, with the sizes from before. -/
def stepSizes (blockSizesFull : List Int32) (idx0 idx step : Int64) :
    Nat → Int64 → List Int32 → Option (Outcome (List Int32))
  | 0, _, _ => none
  | fuel + 1, i, blockSizes =>
    if i ≤ idx then
      match indexed blockSizesFull (i - idx0).toInt with
      | .returned size => stepSizes blockSizesFull idx0 idx step fuel (i + step) (blockSizes ++ [size])
      | _ => some .panicked
    else some (.returned blockSizes)

/-- The sizes that are kept. A slice cannot be made with a negative capacity. -/
def keptSizes (blockSizesFull : List Int32) (idx0 idx step : Int64) (fuel : Nat) :
    Option (Outcome (List Int32)) :=
  if step = 1 then some (.returned blockSizesFull)
  else
    let numValues := (idx - idx0 + 1) / step
    if numValues < 0 then some .panicked else stepSizes blockSizesFull idx0 idx step fuel idx0 []

/-- `getBlockRangeSteppedSize`, which reads all sizes of the range and keeps those at the steps.
An index outside of the slice is a panic. -/
def getBlockRangeSteppedSize (db : Hcsqlite.DB Rates) (fault : Option String) (r : Request)
    (w : ResponseWriter) (fuel : Nat) : Option (Outcome ResponseWriter) :=
  let idx0 := getBlockIndex0Ctx r
  if idx0 < 0 then some (.returned (w.error statusText422 422))
  else
    let idx := getBlockIndexCtx r
    if idx < 0 ∨ idx < idx0 then some (.returned (w.error statusText422 422))
    else
      let step := getBlockStepCtx r
      if step ≤ 0 then
        some (.returned (w.error "Yeaaah, that step's not gonna work with me." 422))
      else
        match getBlockSizeRange db fault idx0 idx with
        | .error _ => some (.returned (w.error statusText422 422))
        | .ok blockSizesFull =>
          (keptSizes blockSizesFull idx0 idx step fuel).map fun kept =>
            kept.bind fun blockSizes => .returned (writeJSON c w (sizesJson blockSizes) [])

end Model

section Steps

/-- The entries at the positions 0, step, two steps and so on. -/
def everyStep {α : Type} (entries : List α) (step : Int) : List α :=
  (heights 0 (entries.length - 1) step).filterMap fun position => entries[position.toNat]?

/-- The entries at all positions of a list are the list. -/
theorem filterMap_range {α : Type} (entries : List α) :
    (List.range entries.length).filterMap (fun position => entries[position]?) = entries := by
  induction entries with
  | nil => rfl
  | cons first rest inductionHypothesis =>
    rw [List.length_cons, List.range_succ_eq_map, List.filterMap_cons_some List.getElem?_cons_zero,
      List.filterMap_map]
    exact congrArg (first :: ·) inductionHypothesis

/-- Every entry is kept with step one, from a list that has some. -/
theorem everyStep_one {α : Type} {entries : List α} (some_ : entries ≠ []) :
    everyStep entries 1 = entries := by
  have positive : 0 < entries.length := List.length_pos_iff.mpr some_
  have count : (((entries.length : Int) - 1 - 0) / 1).toNat + 1 = entries.length := by omega
  rw [everyStep, heights, count, List.filterMap_map]
  refine (List.filterMap_congr fun position _ => ?_).trans (filterMap_range entries)
  have same : ((0 : Int) + position * 1).toNat = position := by omega
  simp only [Function.comp, same]

end Steps

section Loop

variable {blockSizesFull : List Int32} {idx0 idx step : Int64}

/-- A turn of the loop in the range appends the size at its index and goes on with the next one. -/
theorem stepSizes_turn (step : Int64) (nonneg : 0 ≤ idx0.toInt)
    (length : (blockSizesFull.length : Int) = idx.toInt - idx0.toInt + 1) {i : Int64}
    (notBelow : idx0.toInt ≤ i.toInt) (notAbove : i.toInt ≤ idx.toInt) :
    ∃ size, blockSizesFull[(i.toInt - idx0.toInt).toNat]? = some size ∧
      ∀ fuel blockSizes, stepSizes blockSizesFull idx0 idx step (fuel + 1) i blockSizes =
        stepSizes blockSizesFull idx0 idx step fuel (i + step) (blockSizes ++ [size]) := by
  have high := i.toInt_lt
  have place : (i - idx0).toInt = ((i.toInt - idx0.toInt).toNat : Int) := by
    rw [Int64.toInt_sub, Int.bmod_eq_of_le] <;> omega
  have inside : (i.toInt - idx0.toInt).toNat < blockSizesFull.length := by omega
  refine ⟨blockSizesFull[(i.toInt - idx0.toInt).toNat], List.getElem?_eq_getElem inside, ?_⟩
  intro fuel blockSizes
  rw [stepSizes, if_pos (Int64.le_iff_toInt_le.mpr notAbove), place,
    indexed_returned (List.getElem?_eq_getElem inside)]

/-- A turn of the loop past the range ends it with the sizes that were appended. -/
theorem stepSizes_past {i : Int64} (past : idx.toInt < i.toInt) (fuel : Nat)
    (blockSizes : List Int32) :
    stepSizes blockSizesFull idx0 idx step (fuel + 1) i blockSizes =
      some (.returned blockSizes) := by
  rw [stepSizes, if_neg]
  rw [Int64.le_iff_toInt_le]
  omega

/-- A turn of the loop at a sum that is no `int` finds no size at its negative index, and panics. -/
theorem stepSizes_overflow (nonneg : 0 ≤ idx0.toInt) (ordered : idx0.toInt ≤ idx.toInt)
    (length : (blockSizesFull.length : Int) = idx.toInt - idx0.toInt + 1)
    (inside : idx.toInt < 2 ^ 62) (overflows : 2 ^ 63 ≤ idx0.toInt + step.toInt) (fuel : Nat)
    (blockSizes : List Int32) :
    stepSizes blockSizesFull idx0 idx step (fuel + 1) (idx0 + step) blockSizes =
      some .panicked := by
  have negative : (idx0 + step).toInt < 0 := toInt_next_negative nonneg overflows
  have place : idx0 + step - idx0 = step := by rw [Int64.add_comm, Int64.add_sub_cancel]
  have outside : blockSizesFull[step.toInt.toNat]? = none := by
    rw [List.getElem?_eq_none_iff]
    omega
  rw [stepSizes, if_pos (Int64.le_iff_toInt_le.mpr (by omega)), place, indexed, outside]

/-- As long as the first sum is an `int`, the loop appends the sizes of the indices. -/
theorem stepSizes_returned (nonneg : 0 ≤ idx0.toInt)
    (length : (blockSizesFull.length : Int) = idx.toInt - idx0.toInt + 1)
    (inside : idx.toInt < 2 ^ 62) (positive : 1 ≤ step.toInt) {i : Int64}
    (notBelow : idx0.toInt ≤ i.toInt) (notAbove : i.toInt ≤ idx.toInt)
    (fits : i.toInt + step.toInt < 2 ^ 63) (blockSizes : List Int32) :
    ∃ fuel, stepSizes blockSizesFull idx0 idx step fuel i blockSizes =
      some (.returned (blockSizes ++
        (heights (i.toInt - idx0.toInt) (idx.toInt - idx0.toInt) step.toInt).filterMap
          fun position => blockSizesFull[position.toNat]?)) := by
  induction distance : (idx.toInt - i.toInt).toNat using Nat.strong_induction_on
    generalizing i blockSizes with
  | _ number inductionHypothesis =>
    obtain ⟨size, found, turn⟩ := stepSizes_turn step nonneg length notBelow notAbove
    have next : (i + step).toInt = i.toInt + step.toInt :=
      toInt_next (by omega) positive fits
    by_cases more : i.toInt + step.toInt ≤ idx.toInt
    · obtain ⟨fuel, ended⟩ := inductionHypothesis (idx.toInt - (i + step).toInt).toNat (by omega)
        (by omega) (by omega) (by omega) (blockSizes ++ [size]) rfl
      have onward : (i + step).toInt - idx0.toInt = i.toInt - idx0.toInt + step.toInt := by omega
      have visited : heights (i.toInt - idx0.toInt) (idx.toInt - idx0.toInt) step.toInt =
          (i.toInt - idx0.toInt) ::
            heights ((i + step).toInt - idx0.toInt) (idx.toInt - idx0.toInt) step.toInt := by
        rw [onward]
        exact heights_cons positive (by omega)
      refine ⟨fuel + 1, ?_⟩
      rw [turn, ended, visited]
      simp only [List.filterMap_cons, found, List.append_assoc, List.singleton_append]
    · have visited : heights (i.toInt - idx0.toInt) (idx.toInt - idx0.toInt) step.toInt =
          [i.toInt - idx0.toInt] := heights_single (by omega) (by omega)
      refine ⟨2, ?_⟩
      rw [turn, stepSizes_past (by omega), visited]
      simp only [List.filterMap_cons, found, List.filterMap_nil]

/-- The capacity that is computed for the slice is not negative, so `make` does not panic. -/
theorem capacity_nonneg (nonneg : 0 ≤ idx0.toInt) (ordered : idx0.toInt ≤ idx.toInt)
    (inside : idx.toInt < 2 ^ 62) (positive : 1 ≤ step.toInt) :
    ¬ (idx - idx0 + 1) / step < 0 := by
  have difference : (idx - idx0).toInt = idx.toInt - idx0.toInt := by
    rw [Int64.toInt_sub, Int.bmod_eq_of_le] <;> omega
  have count : (idx - idx0 + 1).toInt = idx.toInt - idx0.toInt + 1 := by
    rw [Int64.toInt_add, difference, Int64.toInt_one, Int.bmod_eq_of_le] <;> omega
  have notLeast : idx - idx0 + 1 ≠ Int64.minValue := by
    intro same
    rw [same, Int64.toInt_minValue] at count
    omega
  have quotient : 0 ≤ (idx.toInt - idx0.toInt + 1).tdiv step.toInt :=
    Int.tdiv_nonneg (by omega) (by omega)
  rw [Int64.lt_iff_toInt_lt, Int64.toInt_div_of_ne_left _ _ notLeast, count, Int64.toInt_zero]
  omega

/-- The sizes that are kept are those at the steps, as long as the sums of the loop are `int`s. -/
theorem keptSizes_returned (nonneg : 0 ≤ idx0.toInt) (ordered : idx0.toInt ≤ idx.toInt)
    (length : (blockSizesFull.length : Int) = idx.toInt - idx0.toInt + 1)
    (inside : idx.toInt < 2 ^ 62) (positive : 1 ≤ step.toInt)
    (fits : idx0.toInt + step.toInt < 2 ^ 63) :
    ∃ fuel, keptSizes blockSizesFull idx0 idx step fuel =
      some (.returned (everyStep blockSizesFull step.toInt)) := by
  by_cases one : step = 1
  · have some_ : blockSizesFull ≠ [] := List.ne_nil_of_length_pos (by omega)
    refine ⟨0, ?_⟩
    rw [keptSizes, if_pos one, one, Int64.toInt_one, everyStep_one some_]
  · obtain ⟨fuel, ended⟩ :=
      stepSizes_returned nonneg length inside positive le_rfl ordered fits []
    have range : blockSizesFull.length - 1 = idx.toInt - idx0.toInt := by omega
    refine ⟨fuel, ?_⟩
    rw [keptSizes, if_neg one]
    simp only [if_neg (capacity_nonneg nonneg ordered inside positive)]
    rw [ended, everyStep, range, Int.sub_self, List.nil_append]

/-- A loop whose first sum is no `int` panics in its second turn, however the range is. -/
theorem keptSizes_panicked (nonneg : 0 ≤ idx0.toInt) (ordered : idx0.toInt ≤ idx.toInt)
    (length : (blockSizesFull.length : Int) = idx.toInt - idx0.toInt + 1)
    (inside : idx.toInt < 2 ^ 62) (overflows : 2 ^ 63 ≤ idx0.toInt + step.toInt) (fuel : Nat) :
    keptSizes blockSizesFull idx0 idx step fuel = if fuel < 2 then none else some .panicked := by
  have notOne : step ≠ 1 := by
    rintro rfl
    rw [Int64.toInt_one] at overflows
    omega
  obtain ⟨size, -, turn⟩ := stepSizes_turn step nonneg length le_rfl ordered
  simp only [keptSizes, if_neg notOne,
    if_neg (capacity_nonneg nonneg ordered inside (by omega : 1 ≤ step.toInt))]
  rcases fuel with _ | _ | fuel
  · rfl
  · rw [turn, if_pos (by omega)]
    rfl
  · rw [turn, stepSizes_overflow nonneg ordered length inside overflows, if_neg (by omega)]

end Loop

section Law

variable {Rates : Type} {c : AppContext} {db : Hcsqlite.DB Rates} {r : Request}
  {stepIdxStr : Text} {idx0 idx step : Int64}

/-- A request for the sizes from one height to another, where the table has all to the best one.
The step is in the path. -/
structure AskedSizes (db : Hcsqlite.DB Rates) (r : Request) (stepIdxStr : Text)
    (idx0 idx step : Int64) : Prop where
  index0 : r.index0 = some idx0
  index : r.index = some idx
  hasStep : atoi stepIdxStr = some step
  nonneg : 0 ≤ idx0.toInt
  ordered : idx0.toInt ≤ idx.toInt
  positive : 1 ≤ step.toInt
  best : idx.toInt ≤ db.dbSummaryHeight
  complete : ∀ height, 0 ≤ height → height ≤ db.dbSummaryHeight → db.summaries.Has height

/-- The answer to a request for a range: the entries of the full range at the steps. -/
def AnswersSteps (c : AppContext) (db : Hcsqlite.DB Rates) (r : Request) (stepIdxStr : Text)
    (idx0 idx step : Int64) : Prop :=
  ∃ blockSizesFull, getBlockSizeRange db none idx0 idx = .ok blockSizesFull ∧
    ∃ fuel w, blockStepPathCtx (getBlockRangeSteppedSize c db none) stepIdxStr r ⟨none, []⟩ fuel =
        some (.returned w) ∧
      w.status = some 200 ∧ Spells w.body (sizesJson (everyStep blockSizesFull step.toInt))

namespace AskedSizes

/-- The last index of a range that is asked for is a stored height, and far below the bound of an
`int`. -/
theorem idx_lt (asked : AskedSizes db r stepIdxStr idx0 idx step) : idx.toInt < 2 ^ 62 := by
  have nonneg := asked.nonneg
  have ordered := asked.ordered
  obtain ⟨row, -, height⟩ := asked.complete idx.toInt (by omega) asked.best
  have inside := row.height.toNat_lt
  unfold Hcsqlite.summaryKey at height
  omega

/-- The full range has a size for each height. -/
theorem getBlockSizeRange_eq (asked : AskedSizes db r stepIdxStr idx0 idx step) :
    ∃ blockSizesFull, getBlockSizeRange db none idx0 idx = .ok blockSizesFull ∧
      (blockSizesFull.length : Int) = idx.toInt - idx0.toInt + 1 := by
  have nonneg := asked.nonneg
  have ordered := asked.ordered
  have best := asked.best
  have rows : ((db.summaries.between idx0.toInt idx.toInt).length : Int) =
      idx.toInt - idx0.toInt + 1 := by
    rw [KeyedTable.between_length fun height above below =>
      asked.complete height (by omega) (by omega), Int.card_Icc]
    omega
  have nonempty : idx.toInt - idx0.toInt + 1 ≠ 0 := by omega
  have positive : ¬ idx.toInt - idx0.toInt + 1 < 0 := by omega
  have inside : ¬ (db.dbSummaryHeight < idx.toInt ∨ idx0.toInt < 0) := by omega
  refine ⟨(db.summaries.between idx0.toInt idx.toInt).map fun row => Hcsqlite.DB.scanInt32 row.size,
    ?_, by rw [List.length_map, rows]⟩
  simp only [getBlockSizeRange, Hcsqlite.DB.retrieveBlockSizeRange, if_neg nonempty,
    if_neg positive, if_neg inside]

/-- The handler is reached, and keeps sizes of the full range. -/
theorem getBlockRangeSteppedSize_eq (asked : AskedSizes db r stepIdxStr idx0 idx step)
    {blockSizesFull : List Int32} (full : getBlockSizeRange db none idx0 idx = .ok blockSizesFull)
    (w : ResponseWriter) (fuel : Nat) :
    blockStepPathCtx (getBlockRangeSteppedSize c db none) stepIdxStr r w fuel =
      (keptSizes blockSizesFull idx0 idx step fuel).map fun kept =>
        kept.bind fun blockSizes => .returned (writeJSON c w (sizesJson blockSizes) []) := by
  have nonneg := asked.nonneg
  have ordered := asked.ordered
  have positive := asked.positive
  have notBelow0 : ¬ idx0 < 0 := by rw [Int64.lt_iff_toInt_lt, Int64.toInt_zero]; omega
  have notBelow : ¬ (idx < 0 ∨ idx < idx0) := by
    rw [Int64.lt_iff_toInt_lt, Int64.lt_iff_toInt_lt, Int64.toInt_zero]
    omega
  have above : ¬ step ≤ 0 := by rw [Int64.le_iff_toInt_le, Int64.toInt_zero]; omega
  simp only [blockStepPathCtx, asked.hasStep, getBlockRangeSteppedSize, getBlockIndex0Ctx,
    getBlockIndexCtx, getBlockStepCtx, asked.index0, asked.index, Option.getD_some,
    if_neg notBelow0, if_neg notBelow, if_neg above, full]

/-- Where the first sum is no `int`, the handler panics. -/
theorem panics (asked : AskedSizes db r stepIdxStr idx0 idx step)
    (overflows : 2 ^ 63 ≤ idx0.toInt + step.toInt) (w : ResponseWriter) (fuel : Nat) :
    blockStepPathCtx (getBlockRangeSteppedSize c db none) stepIdxStr r w fuel =
      if fuel < 2 then none else some .panicked := by
  obtain ⟨blockSizesFull, full, length⟩ := asked.getBlockSizeRange_eq
  rw [asked.getBlockRangeSteppedSize_eq full,
    keptSizes_panicked asked.nonneg asked.ordered length asked.idx_lt overflows]
  split <;> rfl

end AskedSizes

/-- The sizes that are kept are written as JSON under the status 200, without indentation. -/
theorem spells_writeJSON (thing : Json) :
    (writeJSON c ⟨none, []⟩ thing []).status = some 200 ∧
      Spells (writeJSON c ⟨none, []⟩ thing []).body thing := by
  obtain ⟨text, encoded, spells⟩ := c.encoder.spells [] [] thing
    (fun _ member => absurd member List.not_mem_nil) fun _ member => absurd member List.not_mem_nil
  rw [writeJSON, encoded]
  exact ⟨rfl, spells⟩

/-- The handler answers the entries at the steps exactly when the sum of the first index and the
step is an `int`. -/
theorem getBlockRangeSteppedSize_iff (asked : AskedSizes db r stepIdxStr idx0 idx step) :
    AnswersSteps c db r stepIdxStr idx0 idx step ↔ idx0.toInt + step.toInt < 2 ^ 63 := by
  obtain ⟨blockSizesFull, full, length⟩ := asked.getBlockSizeRange_eq
  constructor
  · rintro ⟨_, _, fuel, w, returned, -, -⟩
    by_contra overflows
    rw [asked.panics (by omega)] at returned
    split at returned <;> cases returned
  · intro fits
    obtain ⟨fuel, kept⟩ := keptSizes_returned asked.nonneg asked.ordered length asked.idx_lt
      asked.positive fits
    have answered : blockStepPathCtx (getBlockRangeSteppedSize c db none) stepIdxStr r ⟨none, []⟩
        fuel = some (.returned (writeJSON c ⟨none, []⟩
          (sizesJson (everyStep blockSizesFull step.toInt)) [])) := by
      rw [asked.getBlockRangeSteppedSize_eq full, kept]
      rfl
    exact ⟨blockSizesFull, full, fuel, _, answered, spells_writeJSON _⟩

end Law

section Samples

/-- A table with the summaries of blocks 0, 1 and 2. -/
def sampleSizes : Hcsqlite.DB Unit where
  summaries :=
    ⟨[⟨0, 400, 0, 1, 1, 1525000000, ⟨0, 0, 0⟩⟩, ⟨1, 401, 1, 1, 1, 1525000150, ⟨0, 0, 0⟩⟩,
      ⟨2, 402, 2, 1, 1, 1525000300, ⟨0, 0, 0⟩⟩], by decide +kernel⟩
  stakeInfos := .empty
  dbSummaryHeight := 2
  dbStakeInfoHeight := -1

/-- A request for a range of them with a step in the path. -/
theorem askedSizes_sample {idx0 idx step : Int64} (nonneg : 0 ≤ idx0.toInt)
    (ordered : idx0.toInt ≤ idx.toInt) (positive : 1 ≤ step.toInt) (inside : idx.toInt ≤ 2) :
    AskedSizes sampleSizes ⟨some idx0, some idx, none, ""⟩ (formatInt step) idx0 idx step where
  index0 := rfl
  index := rfl
  hasStep := parseInt_formatInt step
  nonneg := nonneg
  ordered := ordered
  positive := positive
  best := inside
  complete height notBelow notAbove := by
    have cases_ : height = 0 ∨ height = 1 ∨ height = 2 := by
      have best : sampleSizes.dbSummaryHeight = 2 := rfl
      omega
    rcases cases_ with rfl | rfl | rfl <;> decide +kernel

/-- From block 0 to block 2 with step 2 the first and the last size are answered. -/
theorem getBlockRangeSteppedSize_even :
    AnswersSteps sampleContext sampleSizes ⟨some 0, some 2, none, ""⟩ (formatInt 2) 0 2 2 :=
  have asked : AskedSizes sampleSizes ⟨some 0, some 2, none, ""⟩ (formatInt 2) 0 2 2 :=
    askedSizes_sample (by decide) (by decide) (by decide) (by decide)
  (getBlockRangeSteppedSize_iff asked).mpr (by decide)

/-- For block 1 alone, the largest step panics, where the sizes at the steps are the one size of
the block. -/
theorem getBlockRangeSteppedSize_panics :
    (∀ fuel, blockStepPathCtx (getBlockRangeSteppedSize sampleContext sampleSizes none)
        (formatInt 9223372036854775807) ⟨some 1, some 1, none, ""⟩ ⟨none, []⟩ (fuel + 2) =
          some .panicked) ∧
      ¬ AnswersSteps sampleContext sampleSizes ⟨some 1, some 1, none, ""⟩
        (formatInt 9223372036854775807) 1 1 9223372036854775807 := by
  have asked : AskedSizes sampleSizes ⟨some 1, some 1, none, ""⟩
      (formatInt 9223372036854775807) 1 1 9223372036854775807 :=
    askedSizes_sample (by decide) (by decide) (by decide) (by decide)
  refine ⟨fun fuel => ?_, ?_⟩
  · rw [asked.panics (by decide), if_neg (by omega)]
  · rintro ⟨_, _, fuel, w, returned, -, -⟩
    rw [asked.panics (by decide)] at returned
    split at returned <;> cases returned

end Samples

end Hcexplorer.ApiRoutes

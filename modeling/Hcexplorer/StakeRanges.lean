import Hcexplorer.BlockRoutes

/-!
# The ranges under `/stake`

The ticket pool and the stake difficulty are served for one height and for a range of heights,
the pool also as two arrays. Each answer to a range is read with one query, after a look at the
ends: a range that ends just below its start is empty, and one that reaches beyond the height in
memory is refused, for the pool with an error and for the difficulty with null.

Over tables that mirror a chain a range is answered with what its heights are answered with one by
one, and it is refused exactly when a height of it has no block.

The difference of two heights does not overflow where the handlers look at it but for a range from
0 to the greatest height, which is refused either way.
-/

namespace Hcexplorer.StakeRanges

open Collection Hcsqlite LinkedChain Live KeyedTable BlockRoutes
open Strconv (Text atoi formatInt)

section Model

variable {Rates Header Rest : Type}

/-- A range of one column of the summaries, which must not be reversed or go beyond the height in
memory. -/
def retrieveRange {α : Type} (what : String) (column : BlockDataBasic → α) (fault : Option String)
    (ind0 ind1 : Int) (db : DB Rates) : Except String (List α) :=
  let N := ind1 - ind0 + 1
  if N = 0 then .ok []
  else if N < 0 then .error s!"Cannot retrieve {what} range ({ind1}<{ind0})"
  else if db.dbSummaryHeight < ind1 ∨ ind0 < 0 then
    let height := db.dbSummaryHeight
    .error s!"Cannot retrieve {what} range [{ind1},{ind0}], have height {height}"
  else
    match fault with
    | some err => .error err
    | none => .ok ((db.summaries.between ind0 ind1).map column)

/-- `RetrievePoolInfoRange`, the ticket pools of a range of heights. -/
def retrievePoolInfoRange (fault : Option String) (ind0 ind1 : Int) (db : DB Rates) :
    Except String (List TicketPoolInfo) :=
  retrieveRange "pool info" BlockDataBasic.poolInfo fault ind0 ind1 db

/-- `RetrieveSDiffRange`, the ticket prices of a range of heights. -/
def retrieveSDiffRange (fault : Option String) (ind0 ind1 : Int) (db : DB Rates) :
    Except String (List Rat) :=
  retrieveRange "sdiff" BlockDataBasic.stakeDiff fault ind0 ind1 db

variable (hcutil : Hcutil) (c : AppContext Rates Header Rest)

/-- `GetPoolInfoRange`, none for the nil that it returns on an error. -/
def getPoolInfoRange (idx0 idx1 : Int64) : Option (List TicketPoolInfo) :=
  (retrievePoolInfoRange none idx0.toInt idx1.toInt c.db).toOption

/-- `GetPoolValAndSizeRange`, none for the nils that it returns on an error. -/
def getPoolValAndSizeRange (idx0 idx1 : Int64) : Option (List Rat × List Rat) :=
  (c.db.retrievePoolValAndSizeRange hcutil none idx0.toInt idx1.toInt).toOption

/-- `RetrieveSDiff` and `GetSDiff`, which return -1 for a missing height. -/
def getSDiff (idx : Int64) : Rat :=
  ((c.db.summaries.find idx.toInt).map BlockDataBasic.stakeDiff).getD (-1)

/-- `GetSDiffRange`, none for the nil that it returns on an error. -/
def getSDiffRange (idx0 idx1 : Int64) : Option (List Rat) :=
  (retrieveSDiffRange none idx0.toInt idx1.toInt c.db).toOption

/-- A handler that needs both ends of a range. -/
def withRange (r : Request) (handler : Int64 → Int64 → Response Rates Header Rest) :
    Response Rates Header Rest :=
  if getBlockIndex0Ctx r < 0 then unprocessable
  else if getBlockIndexCtx r < 0 then unprocessable
  else handler (getBlockIndex0Ctx r) (getBlockIndexCtx r)

/-- The error that answers a request for a range that is nil. -/
abbrev invalidRange : Response Rates Header Rest := .error "invalid range" 422

/-- `getTicketPoolInfo`, which writes null for a missing row. -/
def getTicketPoolInfo (r : Request) : Response Rates Header Rest :=
  c.withHeight r fun idx => .json (.poolInfo (c.getPoolInfo idx))

/-- `getTicketPoolValAndSizeRange`, the values and the sizes of a range in two arrays. -/
def getTicketPoolValAndSizeRange (r : Request) : Response Rates Header Rest :=
  withRange r fun idx0 idx => (getPoolValAndSizeRange hcutil c idx0 idx).elim invalidRange fun both =>
    .json (.poolValsAndSizes idx0.toUInt64.toUInt32 idx.toUInt64.toUInt32 both.1 both.2)

/-- `getTicketPoolInfoRange`, with the value of `arrays` in the query. -/
def getTicketPoolInfoRange (useArray : Text) (r : Request) : Response Rates Header Rest :=
  withRange r fun idx0 idx =>
    if useArray = "1".toList ∨ useArray = "true".toList then getTicketPoolValAndSizeRange hcutil c r
    else (getPoolInfoRange c idx0 idx).elim invalidRange fun infos => .json (.poolInfos infos)

/-- `getStakeDiff`, a list with the price of one height. -/
def getStakeDiff (r : Request) : Response Rates Header Rest :=
  c.withHeight r fun idx => .json (.stakeDiffs (some [getSDiff c idx]))

/-- `getStakeDiffRange`, which writes null for a range that is nil. -/
def getStakeDiffRange (r : Request) : Response Rates Header Rest :=
  withRange r fun idx0 idx => .json (.stakeDiffs (getSDiffRange c idx0 idx))

/-- The routes below `/stake/pool` and `/stake/diff` that look at the tables. -/
inductive StakeRoute where
  | poolBest
  | pool (idx : Text)
  | poolRange (idx0 idx useArray : Text)
  | diff (idx : Text)
  | diffRange (idx0 idx : Text)

/-- The response of the router to a route, after the middleware has read the heights of its path. -/
def respond : StakeRoute → Response Rates Header Rest
  | .poolBest => getTicketPoolInfo c (c.blockIndexLatestCtx .empty)
  | .pool idx => (blockIndexPathCtx idx .empty).elim notFound (getTicketPoolInfo c)
  | .poolRange idx0 idx useArray =>
    ((blockIndex0PathCtx idx0 .empty).bind (blockIndexPathCtx idx)).elim notFound
      (getTicketPoolInfoRange hcutil c useArray)
  | .diff idx => (blockIndexPathCtx idx .empty).elim notFound (getStakeDiff c)
  | .diffRange idx0 idx =>
    ((blockIndex0PathCtx idx0 .empty).bind (blockIndexPathCtx idx)).elim notFound
      (getStakeDiffRange c)

end Model

section Ranges

variable {hcd : Hcd} {hcutil : Hcutil} {statistics : Statistics} {Header Rest : Type}
  {c : AppContext statistics.Rates Header Rest} {chain : List MsgBlock}

/-- A range of heights of the chain, or an empty one. -/
def Covered (chain : List MsgBlock) (idx0 idx : Int64) : Prop :=
  idx.toInt + 1 = idx0.toInt ∨ (idx0.toInt ≤ idx.toInt ∧ idx.toInt < chain.length)

/-- The heights of a range, both ends included. -/
def heights (idx0 idx : Int64) : List Int64 :=
  (List.range (idx.toInt - idx0.toInt + 1).toNat).map fun (index : Nat) =>
    Int64.ofInt (idx0.toInt + index)

/-- The two arrays are two columns of one range. -/
theorem retrievePoolValAndSizeRange_eq (hcutil : Hcutil) (ind0 ind1 : Int) (db : DB statistics.Rates) :
    (db.retrievePoolValAndSizeRange hcutil none ind0 ind1).toOption =
      (retrievePoolInfoRange none ind0 ind1 db).toOption.map fun infos =>
        (infos.map fun info => hcutil.toCoin info.value, infos.map fun info => (info.size.toNat : Rat)) := by
  unfold DB.retrievePoolValAndSizeRange retrievePoolInfoRange retrieveRange
  dsimp only
  split
  · rfl
  · split
    · rfl
    · split
      · rfl
      · simp [Except.toOption]

/-- A covered range is that of the rows of its heights, each found under its key. -/
theorem retrieveRange_covered {α : Type} {what : String} {column : BlockDataBasic → α}
    (mirrors : Mirrors hcd c.db chain) (rooted : (chainView hcd).Rooted chain) {idx0 idx : Int64}
    (nonneg : 0 ≤ idx0.toInt) (covered : Covered chain idx0 idx) :
    ∃ values, retrieveRange what column none idx0.toInt idx.toInt c.db = .ok values ∧
      values.map some = (heights idx0 idx).map fun height =>
        (c.db.summaries.find height.toInt).map column := by
  by_cases isEmpty : idx.toInt - idx0.toInt + 1 = 0
  · refine ⟨[], ?_, ?_⟩
    · rw [retrieveRange, if_pos isEmpty]
    · rw [heights, isEmpty]
      rfl
  · obtain ⟨ordered, inside⟩ : idx0.toInt ≤ idx.toInt ∧ idx.toInt < chain.length := by
      unfold Covered at covered
      omega
    obtain ⟨rows, ⟨summaries, -⟩, related⟩ := mirrors.rows
    have consecutive := (consecutive_of_rowsOf rooted related).1
    rw [← summaries] at consecutive
    have length : c.db.summaries.rows.length = chain.length := by
      rw [summaries, List.length_map, related.length_eq]
    have notNegative : ¬ idx.toInt - idx0.toInt + 1 < 0 := by omega
    have known : ¬ (c.db.dbSummaryHeight < idx.toInt ∨ idx0.toInt < 0) := by
      rw [mirrors.summaryHeight]
      omega
    refine ⟨(c.db.summaries.between idx0.toInt idx.toInt).map column, ?_, ?_⟩
    · rw [retrieveRange]
      simp only [if_neg isEmpty, if_neg notNegative, if_neg known]
    · have slice := between_eq_find consecutive
        (show idx0.toInt.toNat + (idx.toInt - idx0.toInt + 1).toNat ≤ _ by omega)
      have low : (idx0.toInt.toNat : Int) = idx0.toInt := Int.toNat_of_nonneg nonneg
      have high : idx0.toInt + ((idx.toInt - idx0.toInt + 1).toNat : Int) - 1 = idx.toInt := by omega
      rw [low, high] at slice
      have each : (c.db.summaries.between idx0.toInt idx.toInt).map (fun row => some (column row)) =
          ((c.db.summaries.between idx0.toInt idx.toInt).map some).map (Option.map column) := by
        rw [List.map_map]
        rfl
      rw [List.map_map]
      refine each.trans ?_
      rw [slice, heights, List.map_map, List.map_map]
      refine List.map_congr_left fun index member => ?_
      have below := List.mem_range.mp member
      have bound := idx.toInt_lt
      have isHeight : (Int64.ofInt (idx0.toInt + index)).toInt = idx0.toInt + index :=
        Int64.toInt_ofInt_of_le (by omega) (by omega)
      simp only [Function.comp_apply, isHeight]

/-- A range that is not covered by the chain is refused. -/
theorem retrieveRange_uncovered {α : Type} {what : String} {column : BlockDataBasic → α}
    (mirrors : Mirrors hcd c.db chain) {idx0 idx : Int64} (uncovered : ¬ Covered chain idx0 idx) :
    (retrieveRange what column none idx0.toInt idx.toInt c.db).toOption = none := by
  unfold Covered at uncovered
  have notEmpty : ¬ idx.toInt - idx0.toInt + 1 = 0 := by omega
  rw [retrieveRange]
  simp only [if_neg notEmpty]
  split
  · rfl
  · have beyond : c.db.dbSummaryHeight < idx.toInt ∨ idx0.toInt < 0 := by
      rw [mirrors.summaryHeight]
      omega
    rw [if_pos beyond]
    rfl

/-- The heights of a range from a height are heights. -/
theorem heights_nonneg {idx0 idx height : Int64} (nonneg : 0 ≤ idx0.toInt)
    (member : height ∈ heights idx0 idx) : 0 ≤ height.toInt := by
  obtain ⟨index, inRange, rfl⟩ := List.mem_map.mp member
  have below := List.mem_range.mp inRange
  have bound := idx.toInt_lt
  rw [Int64.toInt_ofInt_of_le (by omega) (by omega)]
  omega

/-- A handler that needs a height takes it from the path. -/
theorem withHeight_index {idx : Int64} (nonneg : 0 ≤ idx.toInt)
    (handler : Int64 → Response statistics.Rates Header Rest) :
    (blockIndexPathCtx (formatInt idx) .empty).elim notFound (fun r => c.withHeight r handler) =
      handler idx := by
  have notBelow : ¬ idx < 0 := by
    rw [Int64.lt_iff_toInt_lt, Int64.toInt_zero]
    omega
  have isNumber : atoi (formatInt idx) = some idx := Strconv.parseInt_formatInt idx
  simp only [blockIndexPathCtx, isNumber, Option.map_some, Option.elim_some, AppContext.withHeight,
    AppContext.getBlockHeightCtx, if_neg notBelow]

/-- The pool of the best block is that of the height of the tip. -/
theorem respond_poolBest (mirrors : Mirrors hcd c.db chain) (rooted : (chainView hcd).Rooted chain)
    {tip : MsgBlock} (isTip : chain.getLast? = some tip) :
    respond hcutil c .poolBest = respond hcutil c (.pool (formatInt (Int64.ofInt tip.height))) := by
  have nonneg : 0 ≤ (Int64.ofInt tip.height).toInt := by
    rw [toInt_height]
    exact height_nonneg tip
  have isNumber : atoi (formatInt (Int64.ofInt tip.height)) = some (Int64.ofInt tip.height) :=
    Strconv.parseInt_formatInt _
  have height : 0 ≤ Int64.ofInt tip.height := by
    rwa [Int64.le_iff_toInt_le, Int64.toInt_zero]
  simp only [respond, blockIndexPathCtx, isNumber, Option.map_some, Option.elim_some,
    AppContext.blockIndexLatestCtx, getHeight_tip mirrors rooted isTip, if_pos height]

/-- A handler that needs a range takes both ends, and refuses one that is negative. -/
theorem withRange_index {idx0 idx : Text} {low high : Int64} (isLow : atoi idx0 = some low)
    (isHigh : atoi idx = some high)
    (handler : Request → Int64 → Int64 → Response statistics.Rates Header Rest) :
    ((blockIndex0PathCtx idx0 .empty).bind (blockIndexPathCtx idx)).elim notFound
        (fun r => withRange r (handler r)) =
      if low.toInt < 0 ∨ high.toInt < 0 then unprocessable
      else handler ⟨some (.int low), some (.int high), none⟩ low high := by
  simp only [blockIndex0PathCtx, blockIndexPathCtx, isLow, isHigh, Option.map_some, Option.bind_some,
    Option.elim_some, withRange, getBlockIndex0Ctx, getBlockIndexCtx, Int64.lt_iff_toInt_lt,
    Int64.toInt_zero]
  by_cases lowNegative : low.toInt < 0
  · rw [if_pos lowNegative, if_pos (Or.inl lowNegative)]
  · by_cases highNegative : high.toInt < 0
    · rw [if_neg lowNegative, if_pos highNegative, if_pos (Or.inr highNegative)]
    · rw [if_neg lowNegative, if_neg highNegative, if_neg (not_or.mpr ⟨lowNegative, highNegative⟩)]
      rfl

/-- The answer for the pool, from the range that was read. -/
def poolAnswer (hcutil : Hcutil) (useArray : Text) (low high : Int64) :
    Option (List TicketPoolInfo) → Response statistics.Rates Header Rest
  | none => invalidRange
  | some infos =>
    if useArray = "1".toList ∨ useArray = "true".toList then
      .json (.poolValsAndSizes low.toUInt64.toUInt32 high.toUInt64.toUInt32
        (infos.map fun info => hcutil.toCoin info.value) (infos.map fun info => (info.size.toNat : Rat)))
    else .json (.poolInfos infos)

/-- The route of a range of the pool answers so. -/
theorem respond_poolRange {idx0 idx : Text} {low high : Int64} (isLow : atoi idx0 = some low)
    (isHigh : atoi idx = some high) (useArray : Text) :
    respond hcutil c (.poolRange idx0 idx useArray) =
      if low.toInt < 0 ∨ high.toInt < 0 then unprocessable
      else poolAnswer hcutil useArray low high (getPoolInfoRange c low high) := by
  refine (withRange_index isLow isHigh fun r low high =>
    if useArray = "1".toList ∨ useArray = "true".toList then getTicketPoolValAndSizeRange hcutil c r
    else (getPoolInfoRange c low high).elim invalidRange fun infos => .json (.poolInfos infos)).trans ?_
  by_cases negative : low.toInt < 0 ∨ high.toInt < 0
  · rw [if_pos negative, if_pos negative]
  · rw [if_neg negative, if_neg negative]
    by_cases asArrays : useArray = "1".toList ∨ useArray = "true".toList
    · have notLow : ¬ low.toInt < 0 := fun below => negative (Or.inl below)
      have notHigh : ¬ high.toInt < 0 := fun below => negative (Or.inr below)
      rw [if_pos asArrays]
      simp only [getTicketPoolValAndSizeRange, withRange, getBlockIndex0Ctx, getBlockIndexCtx,
        Int64.lt_iff_toInt_lt, Int64.toInt_zero, if_neg notLow, if_neg notHigh, getPoolValAndSizeRange,
        retrievePoolValAndSizeRange_eq, getPoolInfoRange]
      cases (retrievePoolInfoRange none low.toInt high.toInt c.db).toOption with
      | none => rfl
      | some infos => simp only [Option.map_some, Option.elim_some, poolAnswer, if_pos asArrays]
    · rw [if_neg asArrays]
      cases getPoolInfoRange c low high with
      | none => rfl
      | some infos => simp only [Option.elim_some, poolAnswer, if_neg asArrays]

/-- The route of a range of the difficulty writes what was read, null for nil. -/
theorem respond_diffRange {idx0 idx : Text} {low high : Int64} (isLow : atoi idx0 = some low)
    (isHigh : atoi idx = some high) :
    respond hcutil c (.diffRange idx0 idx) =
      if low.toInt < 0 ∨ high.toInt < 0 then unprocessable
      else .json (.stakeDiffs (getSDiffRange c low high)) :=
  withRange_index isLow isHigh fun _ low high => .json (.stakeDiffs (getSDiffRange c low high))

/-- Over tables that mirror a chain: a range between two heights that is empty or whose heights
all have blocks is answered with what its heights are answered with one by one, for the pool as
one list or as two arrays; every other range is refused, for the pool with an error and for the
difficulty with null. -/
theorem ranges_are_singles (mirrors : Mirrors hcd c.db chain)
    (rooted : (chainView hcd).Rooted chain) {idx0 idx : Text} {low high : Int64}
    (isLow : atoi idx0 = some low) (isHigh : atoi idx = some high) (useArray : Text) :
    ((low.toInt < 0 ∨ high.toInt < 0) →
      respond hcutil c (.poolRange idx0 idx useArray) = unprocessable ∧
      respond hcutil c (.diffRange idx0 idx) = unprocessable) ∧
    (0 ≤ low.toInt → 0 ≤ high.toInt →
      (¬ Covered chain low high →
        respond hcutil c (.poolRange idx0 idx useArray) = invalidRange ∧
        respond hcutil c (.diffRange idx0 idx) = .json (.stakeDiffs none)) ∧
      (Covered chain low high → ∃ infos diffs,
        respond hcutil c (.poolRange idx0 idx useArray) = poolAnswer hcutil useArray low high (some infos) ∧
        infos.map (fun info => .json (.poolInfo (some info))) =
          (heights low high).map (fun height => respond hcutil c (.pool (formatInt height))) ∧
        respond hcutil c (.diffRange idx0 idx) = .json (.stakeDiffs (some diffs)) ∧
        diffs.map (fun diff => .json (.stakeDiffs (some [diff]))) =
          (heights low high).map (fun height => respond hcutil c (.diff (formatInt height))))) := by
  constructor
  · intro negative
    exact ⟨(respond_poolRange isLow isHigh useArray).trans (if_pos negative),
      (respond_diffRange isLow isHigh).trans (if_pos negative)⟩
  · intro lowNonneg highNonneg
    have notNegative : ¬ (low.toInt < 0 ∨ high.toInt < 0) := by omega
    have pool : respond hcutil c (.poolRange idx0 idx useArray) =
        poolAnswer hcutil useArray low high (getPoolInfoRange c low high) :=
      (respond_poolRange isLow isHigh useArray).trans (if_neg notNegative)
    have diff : respond hcutil c (.diffRange idx0 idx) =
        .json (.stakeDiffs (getSDiffRange c low high)) :=
      (respond_diffRange isLow isHigh).trans (if_neg notNegative)
    constructor
    · intro uncovered
      have noInfos : getPoolInfoRange c low high = none := retrieveRange_uncovered mirrors uncovered
      have noDiffs : getSDiffRange c low high = none := retrieveRange_uncovered mirrors uncovered
      exact ⟨by rw [pool, noInfos]; rfl, by rw [diff, noDiffs]⟩
    · intro covered
      obtain ⟨infos, readInfos, eachInfo⟩ := retrieveRange_covered mirrors rooted lowNonneg covered
      obtain ⟨diffs, readDiffs, eachDiff⟩ := retrieveRange_covered mirrors rooted lowNonneg covered
      have isInfos : getPoolInfoRange c low high = some infos := congrArg Except.toOption readInfos
      have isDiffs : getSDiffRange c low high = some diffs := congrArg Except.toOption readDiffs
      refine ⟨infos, diffs, by rw [pool, isInfos], ?_, by rw [diff, isDiffs], ?_⟩
      · have singles := congrArg (List.map fun info =>
          (.json (.poolInfo info) : Response statistics.Rates Header Rest)) eachInfo
        rw [List.map_map, List.map_map] at singles
        refine singles.trans (List.map_congr_left fun height member => ?_)
        exact (withHeight_index (heights_nonneg lowNonneg member) fun idx =>
          .json (.poolInfo (c.getPoolInfo idx))).symm
      · have singles := congrArg (List.map fun (diff : Option Rat) =>
          (.json (.stakeDiffs (some [diff.getD (-1)])) : Response statistics.Rates Header Rest))
            eachDiff
        rw [List.map_map, List.map_map] at singles
        refine singles.trans (List.map_congr_left fun height member => ?_)
        exact (withHeight_index (heights_nonneg lowNonneg member) fun idx =>
          .json (.stakeDiffs (some [getSDiff c idx]))).symm

end Ranges

section Sample

/-- The law at the range of two blocks, and at one that reaches beyond them. -/
theorem ranges_are_singles_two :
    (∃ infos, respond Sample.hcutil servedContext (.poolRange ['0'] ['1'] []) = .json (.poolInfos infos) ∧
      infos.map (fun info => .json (.poolInfo (some info))) =
        [respond Sample.hcutil servedContext (.pool ['0']), respond Sample.hcutil servedContext (.pool ['1'])]) ∧
      respond Sample.hcutil servedContext (.diffRange ['1'] ['2']) = .json (.stakeDiffs none) := by
  constructor
  · obtain ⟨infos, diffs, pool, singles, -, -⟩ :=
      ((ranges_are_singles served_mirror served_rooted (show atoi ['0'] = some 0 by decide)
        (show atoi ['1'] = some 1 by decide) []).2 (by decide) (by decide)).2
          (Or.inr ⟨by decide, by decide⟩)
    exact ⟨infos, pool, singles⟩
  · exact (((ranges_are_singles served_mirror served_rooted (show atoi ['1'] = some 1 by decide)
      (show atoi ['2'] = some 2 by decide) []).2 (by decide) (by decide)).1
        (by unfold Covered; decide)).2

end Sample

end Hcexplorer.StakeRanges

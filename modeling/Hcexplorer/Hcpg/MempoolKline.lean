import Hcexplorer.Hcpg.FeesStat
import Hcexplorer.Hcpg.Queries
import Mathlib.Algebra.Order.Ring.Int
import Mathlib.Data.List.MinMax

/-!
# The candlesticks of the mempool

`UpdateMempoolHistoryKlineOneDay` asks for the least and the greatest number of bytes of a day, for
the first and for the last one, and writes the four to the row at the start of the day, which an
UPDATE or an INSERT marks. `RetrieveMempoolHistoryKline` returns the marked rows. The first query
selects the minimum before the maximum, but they are scanned into the variables for the high and
the low in this order.

The columns of a row are the time, the bytes of a sample, and those of a candlestick. A day is the
number of the UTC day that the calendar fields of the argument name. The text of a time is a
parameter.
-/

namespace Hcexplorer.Hcpg

open ScannedColumns

section Model

/-- A row of `mempool_history`: a sample of the mempool, a candlestick of a day, or both in one
row. -/
structure MempoolRow where
  time : Int
  bytes : Option Int
  open_ : Option Int
  close : Option Int
  high : Option Int
  low : Option Int
  isDay : Option Bool
deriving DecidableEq, Repr

/-- The value of a column that may be null, as the driver hands it to the scan. -/
def Datum.ofColumn : Option Int → Datum
  | none => .null
  | some value => .int value

/-- A destination for integers of 64 bits, which all columns have. -/
def numberTo {σ : Type} (assign : Int → σ → σ) : Destination Datum ConvertError σ
  | .int value, locals => .ok (assign value locals)
  | _, _ => .error .unsupported

/-- The variables of `UpdateMempoolHistoryKlineOneDay`, which its scans fill. -/
structure KlineLocals where
  h : Int
  l : Int
  o : Int
  c : Int
  count : Int
deriving DecidableEq, Repr

/-- The failures of its statements, by their texts. -/
structure KlineFaults where
  minMax : Option String
  openOneDay : Option String
  closeOneDay : Option String
  timeExist : Option String
  write : Option String

/-- The rows of a day, those with a time from its start up to the start of the next one. -/
def rowsOfDay (day : Int) (rows : List MempoolRow) : List MempoolRow :=
  rows.filter fun row => secondsPerDay * day ≤ row.time ∧ row.time < secondsPerDay * (day + 1)

/-- `RetrieveMempoolHistoryMinMaxOneDay`, which selects the least size before the greatest;
without sizes both are null. -/
def retrieveMempoolHistoryMinMaxOneDay (day : Int) (rows : List MempoolRow) : List (List Datum) :=
  let bytes := (rowsOfDay day rows).filterMap MempoolRow.bytes
  [[.ofColumn bytes.min?, .ofColumn bytes.max?]]

/-- `RetrieveMempoolHistoryOpenOneDay`, the size of the earliest row of the day, if there is one. -/
def retrieveMempoolHistoryOpenOneDay (day : Int) (rows : List MempoolRow) : List (List Datum) :=
  letI : Preorder Int := Int.instLinearOrder.toPreorder
  ((rowsOfDay day rows).argmin MempoolRow.time).toList.map fun row => [.ofColumn row.bytes]

/-- `RetrieveMempoolHistoryCloseOneDay`, the size of the latest row of the day, if there is one. -/
def retrieveMempoolHistoryCloseOneDay (day : Int) (rows : List MempoolRow) : List (List Datum) :=
  letI : Preorder Int := Int.instLinearOrder.toPreorder
  ((rowsOfDay day rows).argmax MempoolRow.time).toList.map fun row => [.ofColumn row.bytes]

/-- `RetrieveMempoolHistoryTimeExist`, the number of rows at a time. -/
def retrieveMempoolHistoryTimeExist (time : Int) (rows : List MempoolRow) : List (List Datum) :=
  [[.int (rows.filter fun row => row.time = time).length]]

/-- `UpdateMempoolHistoryKline`, which writes the candlestick into every row at a time and marks
it. -/
def updateMempoolHistoryKline (o c h l time : Int) (rows : List MempoolRow) : List MempoolRow :=
  rows.map fun row =>
    if row.time = time then
      { row with
        open_ := some o
        close := some c
        high := some h
        low := some l
        isDay := some true }
    else row

/-- `InsertMempoolHistoryKline`, which adds a marked row with the candlestick and without a size. -/
def insertMempoolHistoryKline (o c h l time : Int) (rows : List MempoolRow) : List MempoolRow :=
  rows ++ [⟨time, none, some o, some c, some h, some l, some true⟩]

/-- `UpdateMempoolHistoryKlineOneDay`. The statement that writes returns no row, and the error for
that is cleared. -/
def updateMempoolHistoryKlineOneDay (faults : KlineFaults) (day : Int) (rows : List MempoolRow) :
    Err × List MempoolRow :=
  let startDate := secondsPerDay * day
  let locals : KlineLocals := ⟨0, 0, 0, 0, 0⟩
  match queryRow faults.minMax [numberTo fun h locals => { locals with h := h },
      numberTo fun l locals => { locals with l := l }]
      (retrieveMempoolHistoryMinMaxOneDay day rows) locals with
  | (some err, _) => (some err, rows)
  | (none, locals) =>
    match queryRow faults.openOneDay [numberTo fun o locals => { locals with o := o }]
        (retrieveMempoolHistoryOpenOneDay day rows) locals with
    | (some err, _) => (some err, rows)
    | (none, locals) =>
      match queryRow faults.closeOneDay [numberTo fun c locals => { locals with c := c }]
          (retrieveMempoolHistoryCloseOneDay day rows) locals with
      | (some err, _) => (some err, rows)
      | (none, locals) =>
        match queryRow faults.timeExist [numberTo fun count locals => { locals with count := count }]
            (retrieveMempoolHistoryTimeExist startDate rows) locals with
        | (some err, _) => (some err, rows)
        | (none, locals) =>
          match faults.write with
          | some err => (some (.failed err), rows)
          | none =>
            if 1 ≤ locals.count then
              (none, updateMempoolHistoryKline locals.o locals.c locals.h locals.l startDate rows)
            else (none, insertMempoolHistoryKline locals.o locals.c locals.h locals.l startDate rows)

/-- `dbtypes.MempoolHistory`, the fields of a candlestick with its time as a text. -/
structure MempoolHistory where
  time : String
  open_ : Int
  close : Int
  high : Int
  low : Int
deriving DecidableEq, Repr

/-- What is scanned of a row, unless a column is `NULL`. -/
def MempoolRow.candlestick (format : Int → String) (row : MempoolRow) : Option MempoolHistory :=
  match scan [numberTo fun time locals => { locals with time := format time },
      numberTo fun o locals => { locals with open_ := o },
      numberTo fun c locals => { locals with close := c },
      numberTo fun h locals => { locals with high := h },
      numberTo fun l locals => { locals with low := l }]
      [.int row.time, .ofColumn row.open_, .ofColumn row.close, .ofColumn row.high,
        .ofColumn row.low] ⟨"", 0, 0, 0, 0⟩ with
  | (some _, _) => none
  | (none, history) => some history

/-- `RetrieveMempoolHistoryKline`. A row that is not scanned is passed over. -/
def retrieveMempoolHistoryKline (format : Int → String) (rows : List MempoolRow) :
    List MempoolHistory :=
  ((rows.filter fun row => row.isDay = some true).mergeSort fun first second =>
    decide (first.time ≤ second.time)).filterMap (MempoolRow.candlestick format)

end Model

section Property

/-- The rows of a day are samples, at distinct times. A candlestick may have been written to the one
at its start. -/
structure Samples (day : Int) (rows : List MempoolRow) : Prop where
  nonempty : rowsOfDay day rows ≠ []
  sampled : ∀ row ∈ rowsOfDay day rows, row.bytes ≠ none
  distinct : ((rowsOfDay day rows).map MempoolRow.time).Nodup

/-- The first and the last number of bytes, and the greatest and the least. -/
structure Right (samples : List MempoolRow) (history : MempoolHistory) : Prop where
  open_ : ∃ first ∈ samples, first.bytes = some history.open_ ∧
    ∀ row ∈ samples, first.time ≤ row.time
  close : ∃ last ∈ samples, last.bytes = some history.close ∧ ∀ row ∈ samples, row.time ≤ last.time
  high : (∃ row ∈ samples, row.bytes = some history.high) ∧
    ∀ row ∈ samples, ∀ bytes, row.bytes = some bytes → bytes ≤ history.high
  low : (∃ row ∈ samples, row.bytes = some history.low) ∧
    ∀ row ∈ samples, ∀ bytes, row.bytes = some bytes → history.low ≤ bytes

/-- Opening and closing between the low and the high. -/
def MempoolHistory.Between (history : MempoolHistory) : Prop :=
  history.low ≤ history.open_ ∧ history.open_ ≤ history.high ∧
    history.low ≤ history.close ∧ history.close ≤ history.high

/-- The first and the last number are between the least and the greatest. -/
theorem Right.between {samples : List MempoolRow} {history : MempoolHistory}
    (right : Right samples history) : history.Between := by
  obtain ⟨first, isFirst, opened, -⟩ := right.open_
  obtain ⟨last, isLast, closed, -⟩ := right.close
  exact ⟨right.low.2 first isFirst _ opened, right.high.2 first isFirst _ opened,
    right.low.2 last isLast _ closed, right.high.2 last isLast _ closed⟩

/-- The row of a candlestick: it is marked, at the start of the day. -/
def MempoolRow.Marks (day : Int) (row : MempoolRow) : Prop :=
  row.time = secondsPerDay * day ∧ row.isDay = some true

/-- The call stores a candlestick, and in every later table with the same rows at the start of the
day it is returned and is right. -/
def StoresCandlestick (format : Int → String) (day : Int) (rows : List MempoolRow) : Prop :=
  ∃ after, updateMempoolHistoryKlineOneDay ⟨none, none, none, none, none⟩ day rows = (none, after) ∧
    ∀ later : List MempoolRow,
      (∀ row, row.time = secondsPerDay * day → (row ∈ later ↔ row ∈ after)) →
        (∃ row ∈ later, row.Marks day) ∧ ∀ row ∈ later, row.Marks day →
          ∃ history, row.candlestick format = some history ∧
            history ∈ retrieveMempoolHistoryKline format later ∧
              Right (rowsOfDay day rows) history ∧ history.Between

end Property

section Law

variable {format : Int → String} {day : Int} {rows : List MempoolRow}

/-- The rows after a candlestick is written: the rows at its time are updated if there are some,
and else it is inserted. -/
def writtenKline (o c h l time : Int) (rows : List MempoolRow) : List MempoolRow :=
  if 1 ≤ ((rows.filter fun row => row.time = time).length : Int) then
    updateMempoolHistoryKline o c h l time rows
  else insertMempoolHistoryKline o c h l time rows

/-- What the call reads of samples, and what it stores: the least number of bytes as the high, and
the greatest as the low. -/
theorem updateMempoolHistoryKlineOneDay_eq (samples : Samples day rows) :
    ∃ first ∈ rowsOfDay day rows, ∃ last ∈ rowsOfDay day rows, ∃ opened closed least greatest,
      (first.bytes = some opened ∧ ∀ row ∈ rowsOfDay day rows, first.time ≤ row.time) ∧
      (last.bytes = some closed ∧ ∀ row ∈ rowsOfDay day rows, row.time ≤ last.time) ∧
      ((rowsOfDay day rows).filterMap MempoolRow.bytes).min? = some least ∧
      ((rowsOfDay day rows).filterMap MempoolRow.bytes).max? = some greatest ∧
      updateMempoolHistoryKlineOneDay ⟨none, none, none, none, none⟩ day rows =
        (none, writtenKline opened closed least greatest (secondsPerDay * day) rows) := by
  obtain ⟨first, isFirst⟩ :=
    Option.ne_none_iff_exists'.mp fun none_ => samples.nonempty
      (List.argmin_eq_none (f := MempoolRow.time).mp none_)
  obtain ⟨last, isLast⟩ :=
    Option.ne_none_iff_exists'.mp fun none_ => samples.nonempty
      (List.argmax_eq_none (f := MempoolRow.time).mp none_)
  have firstMember := List.argmin_mem isFirst
  have lastMember := List.argmax_mem isLast
  obtain ⟨opened, isOpened⟩ := Option.ne_none_iff_exists'.mp (samples.sampled first firstMember)
  obtain ⟨closed, isClosed⟩ := Option.ne_none_iff_exists'.mp (samples.sampled last lastMember)
  have someBytes : (rowsOfDay day rows).filterMap MempoolRow.bytes ≠ [] :=
    List.ne_nil_of_mem (List.mem_filterMap.mpr ⟨first, firstMember, isOpened⟩)
  obtain ⟨least, isLeast⟩ :=
    Option.ne_none_iff_exists'.mp fun none_ => someBytes (List.min?_eq_none_iff.mp none_)
  obtain ⟨greatest, isGreatest⟩ :=
    Option.ne_none_iff_exists'.mp fun none_ => someBytes (List.max?_eq_none_iff.mp none_)
  refine ⟨first, firstMember, last, lastMember, opened, closed, least, greatest,
    ⟨isOpened, fun row member => List.le_of_mem_argmin member isFirst⟩,
    ⟨isClosed, fun row member => List.le_of_mem_argmax member isLast⟩, isLeast, isGreatest, ?_⟩
  have minMax : retrieveMempoolHistoryMinMaxOneDay day rows = [[.int least, .int greatest]] := by
    simp only [retrieveMempoolHistoryMinMaxOneDay, isLeast, isGreatest, Datum.ofColumn]
  have openOneDay : retrieveMempoolHistoryOpenOneDay day rows = [[.int opened]] := by
    simp only [retrieveMempoolHistoryOpenOneDay, isFirst, Option.toList_some, List.map_singleton,
      isOpened, Datum.ofColumn]
  have closeOneDay : retrieveMempoolHistoryCloseOneDay day rows = [[.int closed]] := by
    simp only [retrieveMempoolHistoryCloseOneDay, isLast, Option.toList_some, List.map_singleton,
      isClosed, Datum.ofColumn]
  rw [updateMempoolHistoryKlineOneDay, minMax, openOneDay, closeOneDay, writtenKline]
  simp only [queryRow, scan, assignAll, numberTo, retrieveMempoolHistoryTimeExist, List.length_cons,
    List.length_nil, if_true]
  split <;> rfl

/-- The rows at the start of the day are marked then, with the four numbers, and there is one. -/
theorem writtenKline_marks (o c h l time : Int) (rows : List MempoolRow) :
    (∃ row ∈ writtenKline o c h l time rows, row.time = time) ∧
      ∀ row ∈ writtenKline o c h l time rows, row.time = time →
        row.open_ = some o ∧ row.close = some c ∧ row.high = some h ∧ row.low = some l ∧
          row.isDay = some true := by
  rw [writtenKline]
  by_cases exists_ : 1 ≤ ((rows.filter fun row => row.time = time).length : Int)
  · rw [if_pos exists_]
    have some_ : rows.filter (fun row => row.time = time) ≠ [] :=
      List.ne_nil_of_length_pos (by omega)
    obtain ⟨row, member⟩ := List.exists_mem_of_ne_nil _ some_
    obtain ⟨isRow, atTime⟩ := List.mem_filter.mp member
    have atTime := of_decide_eq_true atTime
    refine ⟨⟨_, List.mem_map_of_mem isRow, by rw [if_pos atTime]; exact atTime⟩, ?_⟩
    intro written member isTime
    obtain ⟨before, -, rfl⟩ := List.mem_map.mp member
    by_cases atStart : before.time = time
    · rw [if_pos atStart]
      exact ⟨rfl, rfl, rfl, rfl, rfl⟩
    · rw [if_neg atStart] at isTime
      exact absurd isTime atStart
  · rw [if_neg exists_, insertMempoolHistoryKline]
    refine ⟨⟨_, List.mem_append_right _ List.mem_cons_self, rfl⟩, ?_⟩
    intro written member isTime
    rcases List.mem_append.mp member with before | isNew
    · have found : 0 < (rows.filter fun row => row.time = time).length :=
        List.length_pos_of_mem (List.mem_filter.mpr ⟨before, decide_eq_true isTime⟩)
      omega
    · obtain rfl := List.mem_singleton.mp isNew
      exact ⟨rfl, rfl, rfl, rfl, rfl⟩

/-- The candlestick of a row without `NULL` is scanned, and returned when the row is marked. -/
theorem candlestick_eq {row : MempoolRow} {o c h l : Int} (isOpen : row.open_ = some o)
    (isClose : row.close = some c) (isHigh : row.high = some h) (isLow : row.low = some l) :
    row.candlestick format = some ⟨format row.time, o, c, h, l⟩ := by
  simp only [MempoolRow.candlestick, isOpen, isClose, isHigh, isLow, Datum.ofColumn]
  rfl

/-- A marked row whose columns can be scanned is returned as its candlestick. -/
theorem mem_retrieveMempoolHistoryKline {row : MempoolRow} {history : MempoolHistory}
    (member : row ∈ rows) (marked : row.isDay = some true)
    (scanned : row.candlestick format = some history) :
    history ∈ retrieveMempoolHistoryKline format rows :=
  List.mem_filterMap.mpr ⟨row, List.mem_mergeSort.mpr
    (List.mem_filter.mpr ⟨member, decide_eq_true marked⟩), scanned⟩

/-- A right candlestick has the least number of bytes as its high, so all have the same number. -/
theorem StoresCandlestick.flat (stores : StoresCandlestick format day rows)
    (samples : Samples day rows) :
    ∀ row ∈ rowsOfDay day rows, ∀ other ∈ rowsOfDay day rows, row.bytes = other.bytes := by
  obtain ⟨first, -, last, -, opened, closed, least, greatest, -, -, isLeast, -, updated⟩ :=
    updateMempoolHistoryKlineOneDay_eq samples
  obtain ⟨-, leastBound⟩ := List.min?_eq_some_iff.mp isLeast
  obtain ⟨⟨start, isStart, atStart⟩, marks⟩ := writtenKline_marks opened closed least greatest
    (secondsPerDay * day) rows
  obtain ⟨after, stored, returns⟩ := stores
  obtain rfl : writtenKline opened closed least greatest (secondsPerDay * day) rows = after :=
    (Prod.mk.inj (updated.symm.trans stored)).2
  obtain ⟨isOpen, isClose, isHigh, isLow, marked⟩ := marks start isStart atStart
  obtain ⟨history, scanned, -, right, -⟩ :=
    (returns _ fun _ _ => Iff.rfl).2 start isStart ⟨atStart, marked⟩
  rw [candlestick_eq isOpen isClose isHigh isLow] at scanned
  obtain rfl := Option.some.inj scanned
  have same : ∀ row ∈ rowsOfDay day rows, row.bytes = some least := by
    intro row member
    obtain ⟨bytes, isBytes⟩ := Option.ne_none_iff_exists'.mp (samples.sampled row member)
    have above := leastBound bytes (List.mem_filterMap.mpr ⟨row, member, isBytes⟩)
    have below := right.high.2 row member bytes isBytes
    rw [isBytes, Int.le_antisymm below above]
  intro row member other otherMember
  rw [same row member, same other otherMember]

/-- With the same number of bytes in all samples, it is each of the four numbers. -/
theorem Right.of_flat {samples : List MempoolRow} {bytes : Int}
    (flat : ∀ row ∈ samples, row.bytes = some bytes) {first last : MempoolRow} (isFirst : first ∈ samples)
    (opens : ∀ row ∈ samples, first.time ≤ row.time) (isLast : last ∈ samples)
    (closes : ∀ row ∈ samples, row.time ≤ last.time) (time : String) :
    Right samples ⟨time, bytes, bytes, bytes, bytes⟩ where
  open_ := ⟨first, isFirst, flat first isFirst, opens⟩
  close := ⟨last, isLast, flat last isLast, closes⟩
  high := by
    refine ⟨⟨first, isFirst, flat first isFirst⟩, fun row member number isBytes => ?_⟩
    exact (Option.some.inj (isBytes.symm.trans (flat row member))).le
  low := by
    refine ⟨⟨first, isFirst, flat first isFirst⟩, fun row member number isBytes => ?_⟩
    exact (Option.some.inj (isBytes.symm.trans (flat row member))).ge

/-- Such a candlestick is right, though its numbers are exchanged. -/
theorem StoresCandlestick.of_flat (samples : Samples day rows)
    (same : ∀ row ∈ rowsOfDay day rows, ∀ other ∈ rowsOfDay day rows, row.bytes = other.bytes) :
    StoresCandlestick format day rows := by
  obtain ⟨first, isFirst, last, isLast, opened, closed, least, greatest, ⟨isOpened, opens⟩,
    ⟨isClosed, closes⟩, isLeast, isGreatest, updated⟩ := updateMempoolHistoryKlineOneDay_eq samples
  have flat : ∀ row ∈ rowsOfDay day rows, row.bytes = some opened :=
    fun row member => (same row member first isFirst).trans isOpened
  have isBytes : ∀ bytes ∈ (rowsOfDay day rows).filterMap MempoolRow.bytes, opened = bytes := by
    intro bytes member
    obtain ⟨row, isRow, isBytes⟩ := List.mem_filterMap.mp member
    exact Option.some.inj ((flat row isRow).symm.trans isBytes)
  obtain rfl : opened = closed := Option.some.inj ((flat last isLast).symm.trans isClosed)
  obtain rfl : opened = least := isBytes least (List.min?_eq_some_iff.mp isLeast).1
  obtain rfl : opened = greatest := isBytes greatest (List.max?_eq_some_iff.mp isGreatest).1
  have right := Right.of_flat flat isFirst opens isLast closes (format (secondsPerDay * day))
  obtain ⟨⟨start, isStart, atStart⟩, marks⟩ := writtenKline_marks opened opened opened opened
    (secondsPerDay * day) rows
  refine ⟨_, updated, fun later sameRows => ⟨?_, ?_⟩⟩
  · obtain ⟨-, -, -, -, marked⟩ := marks start isStart atStart
    exact ⟨start, (sameRows start atStart).mpr isStart, atStart, marked⟩
  · rintro row member ⟨atTime, marked⟩
    obtain ⟨isOpen, isClose, isHigh, isLow, -⟩ := marks row ((sameRows row atTime).mp member) atTime
    have scanned : row.candlestick format =
        some ⟨format (secondsPerDay * day), opened, opened, opened, opened⟩ := by
      rw [← atTime]
      exact candlestick_eq isOpen isClose isHigh isLow
    exact ⟨_, scanned, mem_retrieveMempoolHistoryKline member marked scanned, right, right.between⟩

/-- The candlestick of a day of samples is right exactly when all have the same number of bytes. -/
theorem storesCandlestick_iff (format : Int → String) (samples : Samples day rows) :
    StoresCandlestick format day rows ↔
      ∀ row ∈ rowsOfDay day rows, ∀ other ∈ rowsOfDay day rows, row.bytes = other.bytes :=
  ⟨fun stores => stores.flat samples, StoresCandlestick.of_flat samples⟩

end Law

section Samples

/-- A sample of the mempool at a time, without a candlestick. -/
def mempoolSample (time bytes : Int) : MempoolRow :=
  ⟨time, some bytes, none, none, none, none, none⟩

/-- A day without change, one of whose samples is at its start, and a later one: the candlestick is
right. -/
theorem storesCandlestick_flat :
    StoresCandlestick toString 1
      [mempoolSample 86400 500, mempoolSample 90000 500, mempoolSample 200000 700] :=
  (storesCandlestick_iff toString ⟨by decide, by decide, by decide⟩).mpr (by decide)

/-- A day with samples of 300 and 500 bytes. -/
def risingDay : List MempoolRow := [mempoolSample 90000 300, mempoolSample 93600 500]

/-- The candlestick that is returned has a high of 300 and a low of 500. -/
theorem storesCandlestick_swapped :
    Samples 1 risingDay ∧
      (∃ after, updateMempoolHistoryKlineOneDay ⟨none, none, none, none, none⟩ 1 risingDay =
          (none, after) ∧
        retrieveMempoolHistoryKline toString after = [⟨"86400", 300, 500, 300, 500⟩]) ∧
      ¬ StoresCandlestick toString 1 risingDay := by
  have samples : Samples 1 risingDay := ⟨by decide, by decide, by decide⟩
  refine ⟨samples, ⟨_, rfl, ?_⟩, ?_⟩
  · rw [retrieveMempoolHistoryKline]
    exact congrArg (List.filterMap _) (List.mergeSort_singleton _)
  · intro stores
    have same := stores.flat samples (mempoolSample 90000 300) (by decide)
      (mempoolSample 93600 500) (by decide)
    exact absurd same (by decide)

end Samples

end Hcexplorer.Hcpg

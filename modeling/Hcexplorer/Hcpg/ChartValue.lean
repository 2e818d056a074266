import Hcexplorer.Hcpg.Queries
import Mathlib.Algebra.Order.Field.Rat
import Mathlib.Algebra.BigOperators.Ring.Finset
import Mathlib.Tactic.Ring

/-!
# The distribution of balances

`RetriveChartValue` asks for the number and the sum of the rows of a table, in total and for seven
ranges of coins. Each query is scanned into its own variables, but all write their error to one
variable, so that only the error of the last query is returned. The query for the fifth range has
its closing parenthesis in the wrong place and is refused by the server. The sum of no rows is
`NULL`, which is no float, so a query for an empty range fails after its number is assigned.

The ranges themselves leave out nothing and overlap nowhere. Floats are exact here, and the texts of
percentages are a parameter.
-/

namespace Hcexplorer.Hcpg

open ScannedColumns

section Queries

/-- What stands between the parentheses of `count`: a star, or a sum by a misplaced parenthesis. -/
inductive CountArgument where
  | star
  | sumValue
deriving DecidableEq, Repr

/-- What is selected by a query: a count with its arguments, or a sum of values. -/
inductive Aggregate where
  | count (arguments : List CountArgument)
  | sumValue
deriving DecidableEq, Repr

/-- The server's grammar takes a star only as the sole argument. -/
def Aggregate.parses : Aggregate → Bool
  | .count arguments => arguments = [.star] ∨ .star ∉ arguments
  | .sumValue => true

/-- A query on the table, with its condition on `value/100000000`. -/
structure ChartQuery where
  selected : List Aggregate
  condition : Nat → Bool

/-- The query for all rows. -/
def totalcountsql : ChartQuery := ⟨[.count [.star], .sumValue], fun _ => true⟩
/-- The query for less than one coin. -/
def t1countsql : ChartQuery := ⟨[.count [.star], .sumValue], fun coins => 0 ≤ coins ∧ coins < 1⟩
/-- The query for one coin up to ten. -/
def t2countsql : ChartQuery := ⟨[.count [.star], .sumValue], fun coins => 1 ≤ coins ∧ coins < 10⟩
/-- The query for ten coins up to a hundred. -/
def t3countsql : ChartQuery := ⟨[.count [.star], .sumValue], fun coins => 10 ≤ coins ∧ coins < 100⟩
/-- The query for a hundred coins up to a thousand. -/
def t4countsql : ChartQuery := ⟨[.count [.star], .sumValue], fun coins => 100 ≤ coins ∧ coins < 1000⟩
/-- The query for a thousand coins up to ten thousand, whose sum stands within the parentheses of
its count. -/
def t5countsql : ChartQuery := ⟨[.count [.star, .sumValue]], fun coins => 1000 ≤ coins ∧ coins < 10000⟩
/-- The query for ten thousand coins up to a hundred thousand. -/
def t6countsql : ChartQuery :=
  ⟨[.count [.star], .sumValue], fun coins => 10000 ≤ coins ∧ coins < 100000⟩
/-- The query for a hundred thousand coins and more. -/
def t7countsql : ChartQuery := ⟨[.count [.star], .sumValue], fun coins => 100000 ≤ coins⟩

/-- The queries in the order in which they are made, the one for all rows first. -/
def chartQuery : Fin 8 → ChartQuery
  | 0 => totalcountsql
  | 1 => t1countsql
  | 2 => t2countsql
  | 3 => t3countsql
  | 4 => t4countsql
  | 5 => t5countsql
  | 6 => t6countsql
  | 7 => t7countsql

/-- The rows that meet the condition of a query, which divides a value without a remainder. -/
def ChartQuery.met (query : ChartQuery) (values : List Nat) : List Nat :=
  values.filter fun value => query.condition (value / 100000000)

/-- The value of an aggregate over rows; the sum of no rows is null. -/
def Aggregate.over : Aggregate → List Nat → Datum
  | .count _, rows => .int rows.length
  | .sumValue, rows => if rows = [] then .null else .int rows.sum

/-- The error of a query that is not parsed. -/
def syntaxError : String := "pq: syntax error at or near \",\""

/-- A destination of the scan for a number of rows, which refuses what is no integer. -/
def countTo : Destination Datum ConvertError (Nat × ℚ)
  | .int value, locals => .ok (value.toNat, locals.2)
  | _, _ => .error .unsupported

/-- A destination of the scan for a sum, which refuses what is no integer, and so a null. -/
def valueTo : Destination Datum ConvertError (Nat × ℚ)
  | .int value, locals => .ok (locals.1, value)
  | _, _ => .error .unsupported

/-- `QueryRow` and `Scan` of a query, into two variables. -/
def queryChart (fault : Option String) (query : ChartQuery) (values : List Nat) : Err × (Nat × ℚ) :=
  if query.selected.all Aggregate.parses then
    queryRow fault [countTo, valueTo] [query.selected.map fun each => each.over (query.met values)]
      (0, 0)
  else queryRow (some (fault.getD syntaxError)) [countTo, valueTo] [] (0, 0)

end Queries

section Model

/-- `dbtypes.ChartValue`: the ranges, and for each the number of rows, their sum and the two
shares. -/
structure ChartValue where
  balanceDist : List String
  countList : List Nat
  sumList : List ℚ
  countPercent : List String
  sumPercent : List String
deriving DecidableEq

/-- `RetriveChartValue`, with the failures of its queries and the text of a quotient. -/
def retriveChartValue (percent : ℚ → ℚ → String) (faults : Fin 8 → Option String)
    (values : List Nat) : ChartValue × Err :=
  let (_, totalcount, totalValue) := queryChart (faults 0) totalcountsql values
  let (_, t1count, t1value) := queryChart (faults 1) t1countsql values
  let (_, t2count, t2value) := queryChart (faults 2) t2countsql values
  let (_, t3count, t3value) := queryChart (faults 3) t3countsql values
  let (_, t4count, t4value) := queryChart (faults 4) t4countsql values
  let (_, t5count, t5value) := queryChart (faults 5) t5countsql values
  let (_, t6count, t6value) := queryChart (faults 6) t6countsql values
  -- the errors before this one are overwritten
  let (err, t7count, t7value) := queryChart (faults 7) t7countsql values
  let totalValue := totalValue / 100000000
  let countList := [t1count, t2count, t3count, t4count, t5count, t6count, t7count]
  let sumList := [t1value / 100000000, t2value / 100000000, t3value / 100000000, t4value / 100000000,
    t5value / 100000000, t6value / 100000000, t7value / 100000000]
  ({ balanceDist := ["0 - 1", "1 - 10", "10 - 100", "100 - 1000", "1,000 - 10,000",
      "10,000 - 100,000", ">100,000"]
     countList := countList
     sumList := sumList
     countPercent := countList.map fun count => percent count totalcount
     sumPercent := sumList.map fun value => percent value totalValue }, err)

/-- `GetChartValue`, which returns nil with the error where a query failed. -/
def getChartValue (percent : ℚ → ℚ → String) (faults : Fin 8 → Option String) (values : List Nat) :
    Option ChartValue × Err :=
  match retriveChartValue percent faults values with
  | (_, some err) => (none, some err)
  | (addressRows, none) => (some addressRows, none)

end Model

section Ranges

variable {α M : Type} [AddCommMonoid M]

/-- What is added for one element over bins: as often as it is in one. -/
theorem sum_bins_single (bins : List (α → Bool)) (element : α) (weight : M) :
    (bins.map fun bin => if bin element then weight else 0).sum =
      bins.countP (fun bin => bin element) • weight := by
  induction bins with
  | nil => simp
  | cons bin bins inductionHypothesis =>
    rw [List.map_cons, List.sum_cons, inductionHypothesis, List.countP_cons]
    by_cases inside : bin element = true
    · rw [if_pos inside, if_pos inside, add_nsmul, one_nsmul, add_comm]
    · rw [if_neg inside, if_neg inside, Nat.add_zero, zero_add]

/-- Bins that have each element once add up to all elements. -/
theorem sum_bins (weight : α → M) {bins : List (α → Bool)} {elements : List α}
    (once : ∀ element ∈ elements, bins.countP (fun bin => bin element) = 1) :
    (bins.map fun bin => ((elements.filter bin).map weight).sum).sum = (elements.map weight).sum := by
  induction elements with
  | nil => simp
  | cons element elements inductionHypothesis =>
    have first := sum_bins_single bins element (weight element)
    rw [once element List.mem_cons_self, one_nsmul] at first
    have others := inductionHypothesis fun other member => once other (List.mem_cons_of_mem _ member)
    have each : ∀ bin ∈ bins, (((element :: elements).filter bin).map weight).sum =
        (if bin element then weight element else 0) + ((elements.filter bin).map weight).sum := by
      intro bin _
      by_cases inside : bin element = true
      · rw [List.filter_cons_of_pos inside, List.map_cons, List.sum_cons, if_pos inside]
      · rw [List.filter_cons_of_neg inside, if_neg inside, zero_add]
    rw [List.map_congr_left each, List.sum_map_add, first, others, List.map_cons, List.sum_cons]

/-- The queries for the seven ranges, without the one for all rows. -/
def rangeQueries : List ChartQuery :=
  [t1countsql, t2countsql, t3countsql, t4countsql, t5countsql, t6countsql, t7countsql]

/-- Every whole number of coins is in exactly one of the ranges. -/
theorem ranges_once (coins : Nat) : rangeQueries.countP (fun query => query.condition coins) = 1 := by
  simp only [rangeQueries, List.countP_cons, List.countP_nil, t1countsql, t2countsql, t3countsql,
    t4countsql, t5countsql, t6countsql, t7countsql, decide_eq_true_eq]
  grind

/-- Over all rows, what meets the conditions of the ranges adds up to everything. -/
theorem ranges_sum (weight : Nat → M) (values : List Nat) :
    (rangeQueries.map fun query => ((query.met values).map weight).sum).sum =
      (values.map weight).sum := by
  have once : ∀ value ∈ values, (rangeQueries.map fun query => fun value : Nat =>
      query.condition (value / 100000000)).countP (fun bin => bin value) = 1 := by
    intro value _
    rw [List.countP_map]
    exact ranges_once (value / 100000000)
  have summed := sum_bins weight once
  rwa [List.map_map] at summed

end Ranges

section Law

variable {query : ChartQuery} {percent : ℚ → ℚ → String} {faults : Fin 8 → Option String}
  {values : List Nat}

/-- A query that is parsed fails when the server does, or, with its number assigned, when no row
meets its condition. -/
theorem queryChart_parsed (selects : query.selected = [.count [.star], .sumValue])
    (fault : Option String) (values : List Nat) :
    ((queryChart fault query values).1 = none ↔ fault = none ∧ query.met values ≠ []) ∧
      (fault = none →
        (queryChart fault query values).2 =
          ((query.met values).length, ((query.met values).sum : ℚ))) := by
  have parses : query.selected.all Aggregate.parses = true := by rw [selects]; decide
  rw [queryChart, if_pos parses, selects]
  cases fault with
  | some err => simp [queryRow]
  | none =>
    by_cases empty : query.met values = []
    · have sum : Aggregate.sumValue.over (query.met values) = .null := if_pos empty
      rw [List.map_cons, List.map_singleton, sum, empty]
      refine ⟨⟨fun failed => ?_, fun both => absurd rfl both.2⟩, fun _ => Prod.ext rfl ?_⟩
      · cases failed
      · exact Nat.cast_zero.symm
    · have sum : Aggregate.sumValue.over (query.met values) = .int (query.met values).sum :=
        if_neg empty
      rw [List.map_cons, List.map_singleton, sum]
      exact ⟨⟨fun _ => ⟨rfl, empty⟩, fun _ => rfl⟩, fun _ => Prod.ext rfl (Int.cast_natCast _)⟩

/-- The query for the fifth range never succeeds, and assigns nothing. -/
theorem queryChart_t5countsql (fault : Option String) (values : List Nat) :
    (queryChart fault t5countsql values).1 ≠ none ∧
      (queryChart fault t5countsql values).2 = (0, 0) := by
  have refused : ¬ t5countsql.selected.all Aggregate.parses = true := by decide
  rw [queryChart, if_neg refused]
  exact ⟨Option.some_ne_none _, rfl⟩

/-- With a nil error every query has succeeded, and the ranges add up to all rows. -/
def ChartSound (percent : ℚ → ℚ → String) (faults : Fin 8 → Option String) (values : List Nat) :
    Prop :=
  (retriveChartValue percent faults values).2 = none →
    (∀ i, (queryChart (faults i) (chartQuery i) values).1 = none) ∧
      (retriveChartValue percent faults values).1.countList.sum = values.length ∧
      (retriveChartValue percent faults values).1.sumList.sum = (values.sum : ℚ) / 100000000

/-- A nil error says nothing but that the last query has succeeded, so the chart is right in no case
but when that query fails: the server does, or no row has as many coins. -/
theorem retriveChartValue_iff (percent : ℚ → ℚ → String) (faults : Fin 8 → Option String)
    (values : List Nat) :
    ChartSound percent faults values ↔
      faults 7 ≠ none ∨ ∀ value ∈ values, value / 100000000 < 100000 := by
  have isLast : (retriveChartValue percent faults values).2 =
      (queryChart (faults 7) t7countsql values).1 := rfl
  have selects : t7countsql.selected = [.count [.star], .sumValue] := rfl
  have last := (queryChart_parsed selects (faults 7) values).1
  rw [← isLast] at last
  have met : t7countsql.met values = [] ↔ ∀ value ∈ values, value / 100000000 < 100000 := by
    simp [ChartQuery.met, t7countsql]
  rw [← met]
  constructor
  · intro sound
    by_contra neither
    rw [not_or, not_not] at neither
    obtain ⟨all, -, -⟩ := sound (last.mpr neither)
    exact (queryChart_t5countsql (faults 5) values).1 (all 5)
  · intro fails nil_
    obtain ⟨noFault, some_⟩ := last.mp nil_
    rcases fails with fault | empty
    · exact absurd noFault fault
    · exact absurd empty some_

/-- Where no query fails at the server, the chart lacks the rows of the fifth range, and no
others. -/
theorem retriveChartValue_lacks (percent : ℚ → ℚ → String) (values : List Nat) :
    (retriveChartValue percent (fun _ => none) values).1.countList.sum +
        (t5countsql.met values).length = values.length ∧
      (retriveChartValue percent (fun _ => none) values).1.sumList.sum +
        ((t5countsql.met values).sum : ℚ) / 100000000 = (values.sum : ℚ) / 100000000 := by
  have counted : ∀ query : ChartQuery, query.selected = [.count [.star], .sumValue] →
      (queryChart none query values).2 = ((query.met values).length, ((query.met values).sum : ℚ)) :=
    fun query selects => (queryChart_parsed selects none values).2 rfl
  have counts := ranges_sum (fun _ => 1) values
  have sums := ranges_sum (fun value : Nat => (value : ℚ)) values
  have lengthOf : ∀ rows : List Nat, (rows.map fun _ => 1).sum = rows.length := by
    intro rows
    rw [List.map_const', List.sum_replicate_nat, Nat.mul_one]
  have coinsOf : ∀ rows : List Nat, (rows.map fun value : Nat => (value : ℚ)).sum = (rows.sum : ℚ) :=
    fun rows => (Nat.cast_list_sum rows).symm
  simp only [rangeQueries, List.map_cons, List.map_nil, List.sum_cons, List.sum_nil, lengthOf,
    coinsOf] at counts sums
  have fifth := (queryChart_t5countsql none values).2
  constructor
  · simp only [retriveChartValue, counted t1countsql rfl, counted t2countsql rfl,
      counted t3countsql rfl, counted t4countsql rfl, counted t6countsql rfl, counted t7countsql rfl,
      fifth, List.sum_cons, List.sum_nil]
    omega
  · simp only [retriveChartValue, counted t1countsql rfl, counted t2countsql rfl,
      counted t3countsql rfl, counted t4countsql rfl, counted t6countsql rfl, counted t7countsql rfl,
      fifth, List.sum_cons, List.sum_nil, ← sums]
    ring

end Law

section Samples

/-- A row of 2000 coins, in the fifth range, and one of 200000 coins, in the last. -/
def chartRows : List Nat := [200000000000, 20000000000000]

/-- Without any failure of the server a nil error is returned, and the first row is in no range. -/
theorem retriveChartValue_swallows :
    (retriveChartValue (fun _ _ => "") (fun _ => none) chartRows).2 = none ∧
      (retriveChartValue (fun _ _ => "") (fun _ => none) chartRows).1.countList =
        [0, 0, 0, 0, 0, 0, 1] ∧
      (queryChart none t5countsql chartRows).1 = some (.failed syntaxError) ∧
      ¬ ChartSound (fun _ _ => "") (fun _ => none) chartRows := by
  have nil_ : (retriveChartValue (fun _ _ => "") (fun _ => none) chartRows).2 = none := by
    decide +kernel
  refine ⟨nil_, by decide +kernel, by decide +kernel, fun sound => ?_⟩
  exact (queryChart_t5countsql none chartRows).1 ((sound nil_).1 5)

end Samples

end Hcexplorer.Hcpg

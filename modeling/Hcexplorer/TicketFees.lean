import Hcexplorer.Library.Highest
import Hcexplorer.Library.Outcome
import Hcexplorer.Mempool
import Mathlib.Data.Rat.Defs
import Mathlib.Algebra.Order.Ring.Rat
import Mathlib.Algebra.Order.Group.Abs
import Mathlib.Algebra.Order.Group.Int
import Mathlib.Data.List.Sort

/-!
# The fees of the tickets in the mempool

`mempoolDataCollector.Collect` turns the tickets that the node returns into lists of fees and
fee rates, finds the lowest rate that is mined with the next block, and cuts a window about
it out of the rates. One slice of tickets is sorted twice, by fee and by rate, and each list
is copied after its own sort, so the rates are those of the tickets as they are left.

The node's map is a list of its entries, in the order in which the loop meets them. `sort.Sort`
is anything that leaves an ascending permutation: it is not stable. Fees are exact rationals.
An index or a slice out of range is a panic. The most tickets of a block are taken as
the number that the `int` of the parameter is.
-/

namespace Hcexplorer.Mempool

section Sorting

/-- A function as `sort.Sort` for a `Less`: it leaves a permutation in ascending order. -/
structure Sorting {α : Type} (less : α → α → Bool) where
  sort : List α → List α
  perm : ∀ xs, (sort xs).Perm xs
  ascending : ∀ xs, (sort xs).Pairwise fun x y => less y x = false

end Sorting

section Model

/-- A ticket of `GetRawMempoolVerbose`, the fields that are read of it. -/
structure RawTicket where
  fee : ℚ
  size : Int32
  height : Int64
deriving DecidableEq, Repr

/-- `apitypes.TicketDetails`, a ticket with its fee, rate, size and height. -/
structure TicketDetails where
  hash : Hash
  fee : ℚ
  feeRate : ℚ
  size : Int32
  height : Int64
deriving DecidableEq, Repr

/-- `TicketsDetails`, the slice that the two orders are made for. -/
abbrev TicketsDetails := List TicketDetails

/-- `ByFeeRate`, which compares the rates of two tickets. -/
def byFeeRate (first second : TicketDetails) : Bool := decide (first.feeRate < second.feeRate)

/-- `ByAbsoluteFee`, which compares the fees of two tickets. -/
def byAbsoluteFee (first second : TicketDetails) : Bool := decide (first.fee < second.fee)

/-- `MinableFeeInfo`: the fees, the rates, the lowest mineable rate with its index, and the
window about it. -/
structure MinableFeeInfo where
  allFees : List ℚ
  allFeeRates : List ℚ
  lowestMineableIdx : Int
  lowestMineableFee : ℚ
  targetFeeWindow : List ℚ
deriving DecidableEq, Repr

/-- What is collected of the tickets: the fees that are mineable, and the details. -/
structure TicketStats where
  minableFees : MinableFeeInfo
  allTicketsDetails : TicketsDetails
deriving DecidableEq, Repr

/-- The details of a ticket, its rate in coins for 1000 bytes. -/
def ticketDetails (entry : Hash × RawTicket) : TicketDetails where
  hash := entry.1
  fee := entry.2.fee
  feeRate := entry.2.fee / entry.2.size.toInt * 1000
  size := entry.2.size
  height := entry.2.height

/-- `feeRad`, how many rates the window shows on either side. -/
def feeRad : Int := 5

/-- The index of the lowest mineable rate, and that rate. -/
def lowestMineable (Nmax : Int) (allFeeRates : List ℚ) (N : Int) : Outcome (Int × ℚ) :=
  if Nmax ≤ N then
    (indexed allFeeRates (N - Nmax)).bind fun lowestMineableFee => .returned (N - Nmax, lowestMineableFee)
  else if N ≠ 0 then (indexed allFeeRates 0).bind fun lowestMineableFee => .returned (0, lowestMineableFee)
  else .returned (-1, 0)

/-- The window of rates about the index of the lowest mineable one, cut off at the ends of the
list. -/
def feeWindow (allFeeRates : List ℚ) (N lowestMineableIdx : Int) : Outcome (List ℚ) :=
  if 0 < N then
    let lowEnd := lowestMineableIdx - feeRad
    let lowEnd := if lowEnd < 0 then 0 else lowEnd
    let highEnd := lowestMineableIdx + feeRad + 1
    let highEnd := if N < highEnd then N else highEnd
    sliced allFeeRates lowEnd highEnd
  else .returned []

variable (byFee : Sorting byAbsoluteFee) (byRate : Sorting byFeeRate) (maxFreshStakePerBlock : Nat)

/-- The analysis of `Collect`: the details are sorted by fee and then by rate, and the rates give
index and window. -/
def analyse (mempoolTickets : List (Hash × RawTicket)) : Outcome TicketStats :=
  let N : Int := mempoolTickets.length
  let allTicketsDetails := byFee.sort (mempoolTickets.map ticketDetails)
  let allFees := allTicketsDetails.map TicketDetails.fee
  let allTicketsDetails := byRate.sort allTicketsDetails
  let allFeeRates := allTicketsDetails.map TicketDetails.feeRate
  (lowestMineable maxFreshStakePerBlock allFeeRates N).bind fun (lowestMineableIdx, lowestMineableFee) =>
    (feeWindow allFeeRates N lowestMineableIdx).bind fun targetFeeWindow =>
      .returned ⟨⟨allFees, allFeeRates, lowestMineableIdx, lowestMineableFee, targetFeeWindow⟩,
        allTicketsDetails⟩

/-- `Collect`, with what the node answers; the first error among the answers is returned. -/
def collectTickets (answers : CollectAnswers (List (Hash × RawTicket))) :
    Outcome (Except String (MempoolData TicketStats)) :=
  match answers.rawMempool, answers.ticketFeeInfo with
  | .error err, _ => .returned (.error err)
  | .ok _, .error err => .returned (.error err)
  | .ok mempoolTickets, .ok number =>
    (analyse byFee byRate maxFreshStakePerBlock mempoolTickets).bind fun stats =>
      .returned (collect ⟨.ok stats, .ok number, answers.blockCount⟩)

end Model

section Lists

variable {α : Type}

/-- The elements at the positions of a range are those of a front of the list without a shorter
front. -/
theorem zipIdx_filter_range (xs : List α) (start low high : Nat) :
    ((xs.zipIdx start).filter fun entry => low ≤ entry.2 ∧ entry.2 < high).map Prod.fst =
      (xs.take (high - start)).drop (low - start) := by
  induction xs generalizing start with
  | nil => simp
  | cons x rest inductionHypothesis =>
    have later := inductionHypothesis (start + 1)
    rw [List.zipIdx_cons, List.filter_cons]
    by_cases above : start < high
    · obtain ⟨more, isMore⟩ : ∃ more, high - start = more + 1 := ⟨high - start - 1, by omega⟩
      have moreToo : high - (start + 1) = more := by omega
      rw [isMore, List.take_succ_cons]
      rw [moreToo] at later
      by_cases below : low ≤ start
      · have none_ : low - start = 0 := by omega
        have noneToo : low - (start + 1) = 0 := by omega
        rw [if_pos (decide_eq_true ⟨below, above⟩), List.map_cons, later, none_, noneToo]
        rfl
      · obtain ⟨skipped, isSkipped⟩ : ∃ skipped, low - start = skipped + 1 :=
          ⟨low - start - 1, by omega⟩
        have skippedToo : low - (start + 1) = skipped := by omega
        have notYet : ¬ (low ≤ start ∧ start < high) := fun both => below both.1
        rw [if_neg (by simpa using notYet), later, isSkipped, skippedToo, List.drop_succ_cons]
    · have nothing : high - start = 0 := by omega
      have nothingToo : high - (start + 1) = 0 := by omega
      have past : ¬ (low ≤ start ∧ start < high) := fun both => above both.2
      rw [if_neg (by simpa using past), later, nothing, nothingToo, List.take_zero, List.take_zero,
        List.drop_nil, List.drop_nil]

/-- What a `Less` by a key leaves is ascending in the key. -/
theorem Sorting.map_ascending {β : Type} [LinearOrder β] {less : α → α → Bool} {key : α → β}
    (sorting : Sorting less) (by_ : ∀ x y, less x y = decide (key x < key y)) (xs : List α) :
    ((sorting.sort xs).map key).Pairwise (· ≤ ·) := by
  rw [List.pairwise_map]
  refine (sorting.ascending xs).imp fun {x y} ordered => ?_
  rw [by_, decide_eq_false_iff_not, not_lt] at ordered
  exact ordered

end Lists

section Law

/-- What the analysis of tickets should be, as the fields are documented. -/
structure Analysed (maxFreshStakePerBlock : Nat) (mempoolTickets : List (Hash × RawTicket))
    (stats : TicketStats) : Prop where
  details : stats.allTicketsDetails.Perm (mempoolTickets.map ticketDetails)
  rates : stats.minableFees.allFeeRates = stats.allTicketsDetails.map TicketDetails.feeRate
  fees_perm : stats.minableFees.allFees.Perm (mempoolTickets.map fun entry => (ticketDetails entry).fee)
  fees_ascending : stats.minableFees.allFees.Pairwise (· ≤ ·)
  rates_perm :
    stats.minableFees.allFeeRates.Perm (mempoolTickets.map fun entry => (ticketDetails entry).feeRate)
  rates_ascending : stats.minableFees.allFeeRates.Pairwise (· ≤ ·)
  noTickets : stats.minableFees.lowestMineableIdx = -1 ↔ mempoolTickets = []
  /-- The last of the highest rates, as many as fit in a block. -/
  lowest : mempoolTickets ≠ [] →
    (highest maxFreshStakePerBlock
      (mempoolTickets.map fun entry => (ticketDetails entry).feeRate)).getLast? =
        some stats.minableFees.lowestMineableFee
  index : mempoolTickets ≠ [] → ∃ i : Nat, stats.minableFees.lowestMineableIdx = i ∧
    stats.minableFees.allFeeRates[i]? = some stats.minableFees.lowestMineableFee
  window : stats.minableFees.targetFeeWindow =
    (stats.minableFees.allFeeRates.zipIdx.filter fun entry =>
      |(entry.2 : Int) - stats.minableFees.lowestMineableIdx| ≤ 5).map Prod.fst
  contains : mempoolTickets ≠ [] →
    stats.minableFees.lowestMineableFee ∈ stats.minableFees.targetFeeWindow

variable {rates : List ℚ} {Nmax : Nat}

/-- Without tickets there is no index, and the lowest rate is zero. -/
theorem lowestMineable_nil (positive : 0 < Nmax) :
    lowestMineable Nmax [] ((0 : Nat) : Int) = .returned (-1, 0) := by
  rw [lowestMineable, if_neg (by omega), if_neg (fun some_ => some_ rfl)]

/-- With tickets it is in the list, as far from the end as a block has room, or the first. -/
theorem lowestMineable_returned (positive : 0 < Nmax) (some_ : rates ≠ []) :
    ∃ fee, rates[rates.length - Nmax]? = some fee ∧
      lowestMineable Nmax rates rates.length =
        .returned (((rates.length - Nmax : Nat) : Int), fee) := by
  have length := List.length_pos_iff.mpr some_
  have inside : rates.length - Nmax < rates.length := by omega
  refine ⟨rates[rates.length - Nmax], List.getElem?_eq_getElem inside, ?_⟩
  have found := indexed_returned (List.getElem?_eq_getElem inside)
  by_cases full : Nmax ≤ rates.length
  · have index : (rates.length : Int) - Nmax = ((rates.length - Nmax : Nat) : Int) := by omega
    rw [lowestMineable, if_pos (by omega), index, found]
    rfl
  · have index : ((rates.length - Nmax : Nat) : Int) = 0 := by omega
    rw [index] at found
    rw [lowestMineable, if_neg (by omega), if_pos (by omega), found, index]
    rfl

/-- The window about an index of the list has up to five rates on either side. -/
theorem feeWindow_returned {i : Nat} (inside : i < rates.length) :
    feeWindow rates rates.length i = .returned ((rates.take (i + 6)).drop (i - 5)) := by
  have low : (if (i : Int) - feeRad < 0 then 0 else (i : Int) - feeRad) = ((i - 5 : Nat) : Int) := by
    by_cases near : (i : Int) - feeRad < 0
    · rw [if_pos near]
      simp only [feeRad] at near
      omega
    · rw [if_neg near]
      simp only [feeRad] at near ⊢
      omega
  have high : (if (rates.length : Int) < (i : Int) + feeRad + 1 then (rates.length : Int)
      else (i : Int) + feeRad + 1) = ((min (i + 6) rates.length : Nat) : Int) := by
    by_cases near : (rates.length : Int) < (i : Int) + feeRad + 1
    · rw [if_pos near]
      simp only [feeRad] at near
      omega
    · rw [if_neg near]
      simp only [feeRad] at near ⊢
      omega
  rw [feeWindow, if_pos (by omega)]
  simp only [low, high]
  rw [sliced_returned (by omega) (Nat.min_le_right _ _), ← List.take_take, List.take_length]

variable {byFee : Sorting byAbsoluteFee} {byRate : Sorting byFeeRate} {maxFreshStakePerBlock : Nat}

/-- The analysis in terms of the slice as each of the two sorts leaves it. -/
theorem analyse_eq (mempoolTickets : List (Hash × RawTicket)) :
    analyse byFee byRate maxFreshStakePerBlock mempoolTickets =
      let byFees := byFee.sort (mempoolTickets.map ticketDetails)
      let details := byRate.sort byFees
      let rates := details.map TicketDetails.feeRate
      (lowestMineable maxFreshStakePerBlock rates rates.length).bind fun lowest =>
        (feeWindow rates rates.length lowest.1).bind fun window =>
          .returned ⟨⟨byFees.map TicketDetails.fee, rates, lowest.1, lowest.2, window⟩, details⟩ := by
  have length : mempoolTickets.length =
      ((byRate.sort (byFee.sort (mempoolTickets.map ticketDetails))).map TicketDetails.feeRate).length := by
    rw [List.length_map, (byRate.perm _).length_eq, (byFee.perm _).length_eq, List.length_map]
  rw [analyse, length]

/-- The window of the rates within five positions of an index. -/
theorem window_eq (rates : List ℚ) (i : Nat) :
    (rates.take (i + 6)).drop (i - 5) =
      (rates.zipIdx.filter fun entry => |(entry.2 : Int) - (i : Int)| ≤ 5).map Prod.fst := by
  have range := zipIdx_filter_range rates 0 (i - 5) (i + 6)
  rw [Nat.sub_zero, Nat.sub_zero] at range
  have near : ∀ entry ∈ rates.zipIdx, decide (i - 5 ≤ entry.2 ∧ entry.2 < i + 6) =
      decide (|(entry.2 : Int) - (i : Int)| ≤ 5) := by
    intro entry _
    rw [decide_eq_decide, abs_le]
    omega
  rw [← range, List.filter_congr near]

variable (byFee byRate)

/-- The analysis of any tickets returns, and is as it should be. -/
theorem analyse_returns (positive : 0 < maxFreshStakePerBlock)
    (mempoolTickets : List (Hash × RawTicket)) :
    ∃ stats, analyse byFee byRate maxFreshStakePerBlock mempoolTickets = .returned stats ∧
      Analysed maxFreshStakePerBlock mempoolTickets stats := by
  rw [analyse_eq]
  dsimp only
  have perm := byFee.perm (mempoolTickets.map ticketDetails)
  have sorted := byFee.map_ascending (fun _ _ => rfl) (mempoolTickets.map ticketDetails)
  generalize byFee.sort (mempoolTickets.map ticketDetails) = byFees at perm sorted ⊢
  have permRate := byRate.perm byFees
  have sortedRate := byRate.map_ascending (fun _ _ => rfl) byFees
  generalize byRate.sort byFees = details at permRate sortedRate ⊢
  have ratesPerm : (details.map TicketDetails.feeRate).Perm
      (mempoolTickets.map fun entry => (ticketDetails entry).feeRate) := by
    have mapped := (permRate.trans perm).map TicketDetails.feeRate
    rwa [List.map_map] at mapped
  have feesPerm : (byFees.map TicketDetails.fee).Perm
      (mempoolTickets.map fun entry => (ticketDetails entry).fee) := by
    have mapped := perm.map TicketDetails.fee
    rwa [List.map_map] at mapped
  have nothing : details.map TicketDetails.feeRate = [] ↔ mempoolTickets = [] := by
    rw [← List.length_eq_zero_iff, ratesPerm.length_eq, List.length_map, List.length_eq_zero_iff]
  generalize isRates : details.map TicketDetails.feeRate = rates at sortedRate ratesPerm nothing ⊢
  by_cases none_ : rates = []
  · subst none_
    have noTickets := nothing.mp rfl
    refine ⟨⟨⟨byFees.map TicketDetails.fee, [], -1, 0, []⟩, details⟩, ?_, ?_⟩
    · show (lowestMineable _ [] ((0 : Nat) : Int)).bind _ = _
      rw [lowestMineable_nil positive]
      rfl
    · exact ⟨permRate.trans perm, isRates.symm, feesPerm, sorted, ratesPerm, sortedRate,
        iff_of_true rfl noTickets, fun some_ => absurd noTickets some_,
        fun some_ => absurd noTickets some_, rfl, fun some_ => absurd noTickets some_⟩
  · obtain ⟨fee, found, isLowest⟩ := lowestMineable_returned positive none_
    obtain ⟨inside, -⟩ := List.getElem?_eq_some_iff.mp found
    refine ⟨⟨⟨byFees.map TicketDetails.fee, rates, ((rates.length - maxFreshStakePerBlock : Nat) : Int),
      fee, (rates.take (rates.length - maxFreshStakePerBlock + 6)).drop
        (rates.length - maxFreshStakePerBlock - 5)⟩, details⟩, ?_, ?_⟩
    · show (lowestMineable _ rates rates.length).bind _ = _
      rw [isLowest, Outcome.bind_returned, feeWindow_returned inside]
      rfl
    generalize isIndex : rates.length - maxFreshStakePerBlock = i at found inside ⊢
    refine ⟨permRate.trans perm, isRates.symm, feesPerm, sorted, ratesPerm, sortedRate, ?_, fun _ => ?_,
      fun _ => ⟨i, rfl, found⟩, window_eq rates i, fun _ => ?_⟩
    · have nonneg : (i : Int) ≠ -1 := by omega
      exact iff_of_false nonneg fun noTickets => none_ (nothing.mpr noTickets)
    · rw [highest_eq_of_ascending ratesPerm sortedRate, List.take_reverse, isIndex, List.getLast?_reverse,
        List.head?_drop]
      exact found
    · refine List.mem_iff_getElem?.mpr ⟨i - (i - 5), ?_⟩
      rw [List.getElem?_drop, Nat.add_sub_cancel' (Nat.sub_le i 5), List.getElem?_take, if_pos (by omega)]
      exact found

/-- `Collect` returns, whatever the node answers. When the node answers all three questions
it returns data without an error, and these are of the node's tickets; without an error it
returns no other data. -/
theorem collectTickets_returns (positive : 0 < maxFreshStakePerBlock)
    (answers : CollectAnswers (List (Hash × RawTicket))) :
    ∃ result, collectTickets byFee byRate maxFreshStakePerBlock answers = .returned result ∧
      (∀ mempoolTickets number height, answers.rawMempool = .ok mempoolTickets →
        answers.ticketFeeInfo = .ok number → answers.blockCount = .ok height →
        ∃ data, result = .ok data ∧ data.height = height.toUInt64.toUInt32 ∧
          data.numTickets = number ∧ Analysed maxFreshStakePerBlock mempoolTickets data.fees) ∧
      ∀ data, result = .ok data → answers.Succeeds := by
  obtain ⟨rawMempool, ticketFeeInfo, blockCount⟩ := answers
  cases rawMempool with
  | error err => exact ⟨.error err, rfl, by simp, by simp⟩
  | ok mempoolTickets =>
    cases ticketFeeInfo with
    | error err => exact ⟨.error err, rfl, by simp, by simp⟩
    | ok number =>
      obtain ⟨stats, analysed, isAnalysed⟩ := analyse_returns byFee byRate positive mempoolTickets
      have returned : collectTickets byFee byRate maxFreshStakePerBlock
          ⟨.ok mempoolTickets, .ok number, blockCount⟩ =
            .returned (collect ⟨.ok stats, .ok number, blockCount⟩) := by
        simp only [collectTickets, analysed, Outcome.bind_returned]
      cases blockCount with
      | error err => exact ⟨.error err, returned, by simp, by simp⟩
      | ok height =>
        refine ⟨.ok ⟨height.toUInt64.toUInt32, number, 0, stats⟩, returned, ?_, fun data _ => ?_⟩
        · intro sameTickets sameNumber sameHeight tickets answered counted
          obtain rfl := Except.ok.inj tickets
          obtain rfl := Except.ok.inj answered
          obtain rfl := Except.ok.inj counted
          exact ⟨_, rfl, rfl, rfl, isAnalysed⟩
        · exact ⟨⟨_, rfl⟩, ⟨_, rfl⟩, ⟨_, rfl⟩⟩

end Law

section Samples

/-- An insertion sort is a sorting by the key that is compared. -/
def insertionSorting (less : TicketDetails → TicketDetails → Bool) (key : TicketDetails → ℚ)
    (by_ : ∀ x y, less x y = decide (key x < key y)) : Sorting less where
  sort := List.insertionSort fun x y => key x ≤ key y
  perm := List.perm_insertionSort _
  ascending xs := by
    have total : Std.Total fun x y : TicketDetails => key x ≤ key y := ⟨fun x y => le_total _ _⟩
    have trans : IsTrans TicketDetails fun x y => key x ≤ key y := ⟨fun _ _ _ => le_trans⟩
    refine (List.pairwise_insertionSort (fun x y : TicketDetails => key x ≤ key y) xs).imp ?_
    intro x y ordered
    rw [by_, decide_eq_false_iff_not, not_lt]
    exact ordered

/-- Two tickets in the mempool, for which the node answers. -/
def twoTickets : CollectAnswers (List (Hash × RawTicket)) :=
  ⟨.ok [(1, ⟨3, 300, 5⟩), (2, ⟨2, 100, 5⟩)], .ok 2, .ok 5⟩

/-- The collection of the two tickets: the one with the lower fee has the higher rate, and
only that rate is mined. -/
def twoTicketsData : MempoolData TicketStats :=
  ⟨5, 2, 0, ⟨[2, 3], [10, 20], 1, 20, [10, 20]⟩, [⟨1, 3, 10, 300, 5⟩, ⟨2, 2, 20, 100, 5⟩]⟩

/-- The law for them: the data are returned, and are as they should be. -/
theorem collectTickets_twoTickets :
    collectTickets (insertionSorting byAbsoluteFee TicketDetails.fee fun _ _ => rfl)
        (insertionSorting byFeeRate TicketDetails.feeRate fun _ _ => rfl) 1 twoTickets =
          .returned (.ok twoTicketsData) ∧
      Analysed 1 [(1, ⟨3, 300, 5⟩), (2, ⟨2, 100, 5⟩)] twoTicketsData.fees := by
  have computed : collectTickets (insertionSorting byAbsoluteFee TicketDetails.fee fun _ _ => rfl)
      (insertionSorting byFeeRate TicketDetails.feeRate fun _ _ => rfl) 1 twoTickets =
        .returned (.ok twoTicketsData) := by decide +kernel
  obtain ⟨result, returned, answered, -⟩ := collectTickets_returns
    (insertionSorting byAbsoluteFee TicketDetails.fee fun _ _ => rfl)
    (insertionSorting byFeeRate TicketDetails.feeRate fun _ _ => rfl) (by decide : 0 < 1) twoTickets
  obtain ⟨data, rfl, -, -, analysed⟩ := answered _ 2 5 rfl rfl rfl
  have same : twoTicketsData = data :=
    Except.ok.inj (Outcome.returned.inj (computed.symm.trans returned))
  exact ⟨computed, same ▸ analysed⟩

end Samples

end Hcexplorer.Mempool

import Hcexplorer.TicketFees

/-!
# The mempool cache

`MempoolDataCache` keeps the lists of the last collection and gives out copies of their ends.
The lists of rates and of details are built apart from each other, and each accessor cuts its
own; the law is that they still describe the same tickets.

Of `ticketFeeInfo` only the number is kept, as in the collection, where it is also the number
of tickets. Times are seconds.
-/

namespace Hcexplorer.Mempool

section Model

/-- `MempoolDataCache`, the last collection with its time, and the lists that are handed out. -/
structure MempoolDataCache where
  height : UInt32
  timestamp : Int
  numTickets : UInt32
  ticketFeeInfo : UInt32
  allFees : List ℚ
  allFeeRates : List ℚ
  lowestMineableByFeeRate : ℚ
  allTicketsDetails : TicketsDetails
deriving DecidableEq, Repr

/-- `MempoolDataCache.StoreMPData`, by which every field is replaced. -/
def MempoolDataCache.storeMPData (_ : MempoolDataCache) (data : MempoolData TicketStats) (timestamp : Int) :
    MempoolDataCache where
  height := data.height
  timestamp := timestamp
  numTickets := data.numTickets
  ticketFeeInfo := data.numTickets
  allFees := data.fees.minableFees.allFees
  allFeeRates := data.fees.minableFees.allFeeRates
  lowestMineableByFeeRate := data.fees.minableFees.lowestMineableFee
  allTicketsDetails := data.fees.allTicketsDetails

/-- `apitypes.MempoolTicketFeeInfo`, the answer about the fees of the mempool. -/
structure MempoolTicketFeeInfo where
  height : UInt32
  time : Int
  number : UInt32
  lowestMineable : ℚ
deriving DecidableEq, Repr

/-- `GetFeeInfoExtra`, the height and the fee info of the cache. -/
def MempoolDataCache.getFeeInfoExtra (c : MempoolDataCache) : UInt32 × MempoolTicketFeeInfo :=
  (c.height, ⟨c.height, c.timestamp, c.ticketFeeInfo, c.lowestMineableByFeeRate⟩)

/-- The copy that the accessors make: nothing for zero, everything for a negative number or
one that is too large, else the end of the slice. -/
def copied {α : Type} (all : List α) (N : Int) : Outcome (List α) :=
  if N = 0 then .returned []
  else if N < 0 ∨ all.length ≤ N then .returned all
  else sliced all (all.length - N) all.length

/-- `GetFees`, a copy of the first fees, with the height and how many there are. -/
def MempoolDataCache.getFees (c : MempoolDataCache) (N : Int) : Outcome (UInt32 × Nat × List ℚ) :=
  (copied c.allFees N).bind fun fees => .returned (c.height, c.allFees.length, fees)

/-- `GetFeeRates`, a copy of the first rates, with the height, the time and how many there are. -/
def MempoolDataCache.getFeeRates (c : MempoolDataCache) (N : Int) :
    Outcome (UInt32 × Int × Nat × List ℚ) :=
  (copied c.allFeeRates N).bind fun fees =>
    .returned (c.height, c.timestamp, c.allFeeRates.length, fees)

/-- `GetTicketsDetails`, a copy of the first details, with the height, the time and how many
there are. -/
def MempoolDataCache.getTicketsDetails (c : MempoolDataCache) (N : Int) :
    Outcome (UInt32 × Int × Nat × TicketsDetails) :=
  (copied c.allTicketsDetails N).bind fun details =>
    .returned (c.height, c.timestamp, c.allTicketsDetails.length, details)

end Model

section Ends

variable {α β : Type}

/-- How many entries are asked for; a negative number asks for all. -/
def asked (N : Int) (len : Nat) : Nat := if N < 0 then len else N.toNat

/-- The copy is the end of the list, as long as it was asked for. -/
theorem copied_returned (all : List α) (N : Int) :
    copied all N = .returned (all.drop (all.length - asked N all.length)) := by
  simp only [copied, asked]
  by_cases none_ : N = 0
  · subst none_
    rw [if_pos rfl, if_neg (lt_irrefl _), Int.toNat_zero, Nat.sub_zero, List.drop_length]
  rw [if_neg none_]
  by_cases everything : N < 0 ∨ (all.length : Int) ≤ N
  · have start : all.length - (if N < 0 then all.length else N.toNat) = 0 := by
      by_cases negative : N < 0
      · rw [if_pos negative, Nat.sub_self]
      · rw [if_neg negative]
        omega
    rw [if_pos everything, start, List.drop_zero]
  · have start : (all.length : Int) - N = ((all.length - N.toNat : Nat) : Int) := by omega
    rw [if_neg everything, if_neg (by omega), start, sliced_returned (by omega) (le_refl _),
      List.take_length]

/-- The end of an ascending list holds the highest elements. -/
theorem reverse_drop_ascending [LinearOrder α] {xs all : List α} (perm : xs.Perm all)
    (ascending : xs.Pairwise (· ≤ ·)) (number : Nat) :
    (xs.drop (xs.length - number)).reverse = highest number all := by
  rw [highest_eq_of_ascending perm ascending, List.take_reverse]

end Ends

section Law

variable {byFee : Sorting byAbsoluteFee} {byRate : Sorting byFeeRate} {maxFreshStakePerBlock : Nat}

/-- What a collection that returned data left in them. -/
theorem collectTickets_returned {answers : CollectAnswers (List (Hash × RawTicket))}
    {data : MempoolData TicketStats}
    (collected : collectTickets byFee byRate maxFreshStakePerBlock answers = .returned (.ok data)) :
    ∃ mempoolTickets, answers.rawMempool = .ok mempoolTickets ∧
      data.fees.allTicketsDetails = byRate.sort (byFee.sort (mempoolTickets.map ticketDetails)) ∧
      data.fees.minableFees.allFeeRates = data.fees.allTicketsDetails.map TicketDetails.feeRate ∧
      data.fees.minableFees.allFees =
        (byFee.sort (mempoolTickets.map ticketDetails)).map TicketDetails.fee := by
  obtain ⟨rawMempool, ticketFeeInfo, blockCount⟩ := answers
  cases rawMempool with
  | error err => cases collected
  | ok mempoolTickets =>
    cases ticketFeeInfo with
    | error err => cases collected
    | ok number =>
      simp only [collectTickets] at collected
      obtain ⟨stats, analysed, isData⟩ := Outcome.bind_eq_returned.mp collected
      rw [analyse_eq] at analysed
      obtain ⟨lowest, -, analysed⟩ := Outcome.bind_eq_returned.mp analysed
      obtain ⟨window, -, analysed⟩ := Outcome.bind_eq_returned.mp analysed
      obtain rfl := Outcome.returned.inj analysed
      cases blockCount with
      | error err => cases isData
      | ok height =>
        obtain rfl := Except.ok.inj (Outcome.returned.inj isData)
        exact ⟨mempoolTickets, rfl, rfl, rfl, rfl⟩

/-- The fees that are given out are the largest, in ascending order. They are cut from a list
of their own, and need not be those of the tickets with the largest rates. -/
theorem storeMPData_fees {answers : CollectAnswers (List (Hash × RawTicket))}
    {data : MempoolData TicketStats}
    (collected : collectTickets byFee byRate maxFreshStakePerBlock answers = .returned (.ok data))
    (before : MempoolDataCache) (timestamp : Int) (N : Int) :
    ∃ mempoolTickets fees, answers.rawMempool = .ok mempoolTickets ∧
      (before.storeMPData data timestamp).getFees N =
        .returned (data.height, mempoolTickets.length, fees) ∧
      fees.reverse = highest (asked N mempoolTickets.length)
        (mempoolTickets.map fun entry => (ticketDetails entry).fee) := by
  obtain ⟨mempoolTickets, isTickets, -, -, isFees⟩ := collectTickets_returned collected
  have ascending := byFee.map_ascending (fun _ _ => rfl) (mempoolTickets.map ticketDetails)
  have perm := (byFee.perm (mempoolTickets.map ticketDetails)).map TicketDetails.fee
  rw [List.map_map] at perm
  have length : ((byFee.sort (mempoolTickets.map ticketDetails)).map TicketDetails.fee).length =
      mempoolTickets.length := by
    rw [perm.length_eq, List.length_map]
  have largest := reverse_drop_ascending perm ascending (asked N mempoolTickets.length)
  rw [length] at largest
  refine ⟨mempoolTickets, _, isTickets, ?_, largest⟩
  simp only [MempoolDataCache.getFees, MempoolDataCache.storeMPData, isFees, copied_returned,
    Outcome.bind_returned, length]

/-- What the two accessors should give out for tickets that were collected. -/
structure SameTickets (mempoolTickets : List (Hash × RawTicket)) (N : Int) (feeRates : List ℚ)
    (details : TicketsDetails) : Prop where
  ascending : feeRates.Pairwise (· ≤ ·)
  length : feeRates.length = min (asked N mempoolTickets.length) mempoolTickets.length
  largest : feeRates.reverse = highest (asked N mempoolTickets.length)
    (mempoolTickets.map fun entry => (ticketDetails entry).feeRate)
  views : feeRates = details.map TicketDetails.feeRate
  ofTickets : ∃ others, (details ++ others).Perm (mempoolTickets.map ticketDetails)

/-- After a collection is stored, the accessors return for every number, with the height, the
time and the number of its tickets, the largest rates and the tickets that have them. -/
theorem storeMPData_views {answers : CollectAnswers (List (Hash × RawTicket))}
    {data : MempoolData TicketStats}
    (collected : collectTickets byFee byRate maxFreshStakePerBlock answers = .returned (.ok data))
    (before : MempoolDataCache) (timestamp : Int) (N : Int) :
    ∃ mempoolTickets feeRates details, answers.rawMempool = .ok mempoolTickets ∧
      (before.storeMPData data timestamp).getFeeRates N =
        .returned (data.height, timestamp, mempoolTickets.length, feeRates) ∧
      (before.storeMPData data timestamp).getTicketsDetails N =
        .returned (data.height, timestamp, mempoolTickets.length, details) ∧
      SameTickets mempoolTickets N feeRates details := by
  obtain ⟨mempoolTickets, isTickets, isDetails, isRates, -⟩ := collectTickets_returned collected
  have perm : data.fees.allTicketsDetails.Perm (mempoolTickets.map ticketDetails) := by
    rw [isDetails]
    exact (byRate.perm _).trans (byFee.perm _)
  have ascending : (data.fees.allTicketsDetails.map TicketDetails.feeRate).Pairwise (· ≤ ·) := by
    rw [isDetails]
    exact byRate.map_ascending (fun _ _ => rfl) _
  have ratesPerm : (data.fees.allTicketsDetails.map TicketDetails.feeRate).Perm
      (mempoolTickets.map fun entry => (ticketDetails entry).feeRate) := by
    have mapped := perm.map TicketDetails.feeRate
    rwa [List.map_map] at mapped
  have length : data.fees.allTicketsDetails.length = mempoolTickets.length := by
    rw [perm.length_eq, List.length_map]
  have ratesLength : (data.fees.allTicketsDetails.map TicketDetails.feeRate).length =
      mempoolTickets.length := by
    rw [List.length_map, length]
  have largest := reverse_drop_ascending ratesPerm ascending (asked N mempoolTickets.length)
  rw [ratesLength] at largest
  refine ⟨mempoolTickets,
    (data.fees.allTicketsDetails.map TicketDetails.feeRate).drop
      (mempoolTickets.length - asked N mempoolTickets.length),
    data.fees.allTicketsDetails.drop (mempoolTickets.length - asked N mempoolTickets.length),
    isTickets, ?_, ?_, ?_⟩
  · simp only [MempoolDataCache.getFeeRates, MempoolDataCache.storeMPData, isRates, copied_returned,
      Outcome.bind_returned, ratesLength]
  · simp only [MempoolDataCache.getTicketsDetails, MempoolDataCache.storeMPData, copied_returned,
      Outcome.bind_returned, length]
  · refine ⟨ascending.drop, ?_, largest, (List.map_drop).symm, ?_⟩
    · rw [List.length_drop, ratesLength]
      omega
    · refine ⟨data.fees.allTicketsDetails.take
        (mempoolTickets.length - asked N mempoolTickets.length), ?_⟩
      refine List.perm_append_comm.trans ?_
      rw [List.take_append_drop]
      exact perm

/-- The views of the two tickets, of which the first entries are asked for. -/
theorem storeMPData_views_twoTickets :
    ∃ mempoolTickets feeRates details, twoTickets.rawMempool = .ok mempoolTickets ∧
      (MempoolDataCache.storeMPData ⟨0, 0, 0, 0, [], [], 0, []⟩ twoTicketsData 60).getFeeRates 1 =
        .returned (5, 60, mempoolTickets.length, feeRates) ∧
      (MempoolDataCache.storeMPData ⟨0, 0, 0, 0, [], [], 0, []⟩ twoTicketsData 60).getTicketsDetails 1 =
        .returned (5, 60, mempoolTickets.length, details) ∧
      SameTickets mempoolTickets 1 feeRates details :=
  have collected : collectTickets (insertionSorting byAbsoluteFee TicketDetails.fee fun _ _ => rfl)
      (insertionSorting byFeeRate TicketDetails.feeRate fun _ _ => rfl) 1 twoTickets =
        .returned (.ok twoTicketsData) := by decide +kernel
  storeMPData_views collected ⟨0, 0, 0, 0, [], [], 0, []⟩ 60 1

end Law

end Hcexplorer.Mempool

import Hcexplorer.Library.KeyedTable
import Hcexplorer.Hcpg.AddressCache

/-!
# The balance of an address from a page of its rows

`AddressHistory` lists a page of the rows of an address, the newest first, and takes the
balance from the page when it has fewer rows than the limit; otherwise two aggregates
over all rows of the address are computed. Fewer rows than the limit also come back from
the last page of several, and then the rows before it are missing from the balance. The
page tells a spent output by the hash of the spender, the aggregates tell it by the row
id of the spender.

The columns of the table are the nullable columns that it is created with. The texts of
the errors of a scan are one text here, and the amounts of the listed transactions are
left in atoms. A listing does not break off.
-/

namespace Hcexplorer.Hcpg.AddressHistory

open AddressCache (AddressBalance)

/-- A row of the addresses table, with columns that may be null. -/
structure AddressColumns where
  id : Nat
  address : Option String
  fundingTxRowID : Option Int64
  fundingTxHash : Option String
  fundingTxVoutIndex : Option Int64
  voutRowID : Option Int64
  value : Option Int64
  spendingTxRowID : Option Int64
  spendingTxHash : Option String
  spendingTxVinIndex : Option Int32
  vinRowID : Option Int64
deriving DecidableEq, Repr

/-- The addresses table, whose rows have ids of their own. -/
abbrev AddressesTable := KeyedTable AddressColumns.id

/-- `dbtypes.AddressRow`, a row after the scan of its columns. -/
structure AddressRow where
  address : String
  fundingTxDbID : UInt64
  fundingTxHash : String
  fundingTxVoutIndex : UInt32
  voutDbID : UInt64
  value : UInt64
  spendingTxDbID : UInt64
  spendingTxHash : String
  spendingTxVinIndex : UInt32
  vinDbID : UInt64
deriving DecidableEq, Repr

section Listing

/-- A column that does not fit what it is scanned into. -/
def scanError : String := "sql: Scan error"

/-- The scans of a column into a `uint64`, a `uint32` and a `string`. -/
def scanUint64 : Option Int64 → Except String UInt64
  | none => .error scanError
  | some value => if value.toInt < 0 then .error scanError else .ok value.toUInt64

/-- The scan into a uint32: null, a negative and a larger number are errors. -/
def scanUint32 : Option Int64 → Except String UInt32
  | none => .error scanError
  | some value =>
    if value.toInt < 0 ∨ 4294967296 ≤ value.toInt then .error scanError
    else .ok (UInt32.ofNat value.toInt.toNat)

/-- The scan into a string, for which null is an error. -/
def scanString : Option String → Except String String
  | none => .error scanError
  | some text => .ok text

/-- The scan of one row, with zero values for the spending columns that are NULL. -/
def scanAddressRow (row : AddressColumns) : Except String AddressRow := do
  let address ← scanString row.address
  let fundingTxDbID ← scanUint64 row.fundingTxRowID
  let fundingTxHash ← scanString row.fundingTxHash
  let fundingTxVoutIndex ← scanUint32 row.fundingTxVoutIndex
  let voutDbID ← scanUint64 row.voutRowID
  let value ← scanUint64 row.value
  return {
    address, fundingTxDbID, fundingTxHash, fundingTxVoutIndex, voutDbID, value
    spendingTxDbID := (row.spendingTxRowID.map Int64.toUInt64).getD 0
    spendingTxHash := row.spendingTxHash.getD ""
    spendingTxVinIndex := (row.spendingTxVinIndex.map Int32.toUInt32).getD 0
    vinDbID := (row.vinRowID.map Int64.toUInt64).getD 0 }

/-- `scanAddressQueryRows`, the rows of its result, or the error of the first row that cannot be
scanned. -/
def scanAddressQueryRows : List AddressColumns → Except String (List AddressRow)
  | [] => .ok []
  | row :: rows => do
    let addr ← scanAddressRow row
    let addressRows ← scanAddressQueryRows rows
    return addr :: addressRows

/-- The rows of an address, the newest first, which is the order of the query. -/
def rowsOf (address : String) (table : AddressesTable) : List AddressColumns :=
  (table.rows.filter fun row => row.address = some address).reverse

/-- `SelectAddressLimitNByAddress`, and its variant with a sub-query, which selects the same
rows. -/
def selectAddressLimitN (address : String) (N offset : Int) (table : AddressesTable) :
    List AddressColumns :=
  ((rowsOf address table).drop offset.toNat).take N.toNat

/-- `RetrieveAddressTxns` and `RetrieveAddressTxnsAlt`: the query, which may fail, and then the
scan of its rows. -/
def retrieveAddressTxns (fault : Option String) (address : String) (N offset : Int)
    (table : AddressesTable) : Except String (List AddressRow) :=
  match fault with
  | some err => .error err
  | none => scanAddressQueryRows (selectAddressLimitN address N offset table)

end Listing

section Reducing

/-- `explorer.AddressTx`, with its amounts in atoms instead of coins. -/
structure AddressTx where
  txID : String
  receivedTotal : Int64
  sentTotal : Int64
deriving DecidableEq, Repr

/-- `explorer.AddressInfo`, the fields that `ReduceAddressHistory` sets. -/
structure AddressInfo where
  address : String
  transactions : List AddressTx
  numFundingTxns : Int
  numSpendingTxns : Int
  totalReceived : Int64
  totalSent : Int64
  unspent : Int64
deriving DecidableEq, Repr

/-- The variables of the loop of `ReduceAddressHistory`: two sums, two counts and the
transactions so far. -/
structure Reduction where
  received : Int64
  sent : Int64
  numFundingTxns : Int
  numSpendingTxns : Int
  transactions : List AddressTx

/-- One pass of the loop: a row funds the address, and spends from it where the row has a
spender. -/
def Reduction.add (reduction : Reduction) (addrOut : AddressRow) : Reduction :=
  let funded : Reduction := { reduction with
    numFundingTxns := reduction.numFundingTxns + 1
    received := reduction.received + addrOut.value.toInt64
    transactions := reduction.transactions ++ [⟨addrOut.fundingTxHash, addrOut.value.toInt64, 0⟩] }
  if addrOut.spendingTxHash = "" then funded
  else { funded with
    numSpendingTxns := funded.numSpendingTxns + 1
    sent := funded.sent + addrOut.value.toInt64
    transactions := funded.transactions ++ [⟨addrOut.spendingTxHash, 0, addrOut.value.toInt64⟩] }

/-- `ReduceAddressHistory`, the totals and transactions of the rows, and none for no rows. -/
def reduceAddressHistory (addrHist : List AddressRow) : Option AddressInfo :=
  match addrHist with
  | [] => none
  | first :: _ =>
    let reduction := addrHist.foldl Reduction.add ⟨0, 0, 0, 0, []⟩
    some {
      address := first.address
      transactions := reduction.transactions
      numFundingTxns := reduction.numFundingTxns
      numSpendingTxns := reduction.numSpendingTxns
      totalReceived := reduction.received
      totalSent := reduction.sent
      unspent := reduction.received - reduction.sent }

end Reducing

section Aggregates

/-- The statements of `AddressHistory` that may fail, but for the one for the height. -/
structure QueryFaults where
  rows : Option String
  begin : Option String
  unspent : Option String
  spent : Option String
  rollback : Option String

/-- No statement of the function fails. -/
def noFaults : QueryFaults := ⟨none, none, none, none, none⟩

/-- What the value of a row adds to a sum; a null adds nothing. -/
def amount (row : AddressColumns) : Int := (row.value.map Int64.toInt).getD 0

/-- The sum of the values that are not NULL. -/
def total (rows : List AddressColumns) : Int := (rows.map amount).sum

/-- `COUNT(*), SUM(value)`. The sum of no values is NULL. -/
def countAndValue (rows : List AddressColumns) : Int × Option Int :=
  (rows.length, if rows.all (fun row => row.value.isNone) then none else some (total rows))

/-- The scan of a sum into an `sql.NullInt64`: null is zero, and a sum out of the range is an
error. -/
def scanNullInt64 : Option Int → Except String Int64
  | none => .ok 0
  | some value =>
    if -9223372036854775808 ≤ value ∧ value < 9223372036854775808 then .ok (Int64.ofInt value)
    else .error scanError

/-- The rows for which the spender is not known, and those for which it is. -/
def unspentRows (address : String) (table : AddressesTable) : List AddressColumns :=
  (rowsOf address table).filter fun row => row.spendingTxRowID = none

/-- The rows of an address with a spending transaction. -/
def spentRows (address : String) (table : AddressesTable) : List AddressColumns :=
  (rowsOf address table).filter fun row => row.spendingTxRowID ≠ none

/-- One of the two queries of `RetrieveAddressSpentUnspent`, with its scan and the context of its
error. -/
def queryRow (fault : Option String) (context : String) (rows : List AddressColumns) :
    Except String (Int × Int64) :=
  match fault, scanNullInt64 (countAndValue rows).2 with
  | some err, _ => .error (context ++ err)
  | none, .error err => .error (context ++ err)
  | none, .ok value => .ok ((countAndValue rows).1, value)

/-- The results of `RetrieveAddressSpentUnspent`: two counts and two sums. -/
structure SpentUnspent where
  numSpent : Int
  numUnspent : Int
  totalSpent : Int64
  totalUnspent : Int64
deriving DecidableEq, Repr

/-- `RetrieveAddressSpentUnspent`, two queries in one database transaction, the first error of
which is returned. -/
def retrieveAddressSpentUnspent (faults : QueryFaults) (address : String) (table : AddressesTable) :
    Except String SpentUnspent :=
  match faults.begin with
  | some err => .error ("unable to begin database transaction: " ++ err)
  | none => do
    let (numUnspent, totalUnspent) ←
      queryRow faults.unspent "unable to QueryRow for unspent amount: " (unspentRows address table)
    let (numSpent, totalSpent) ←
      queryRow faults.spent "unable to QueryRow for spent amount: " (spentRows address table)
    match faults.rollback with
    | some err => .error err
    | none => return ⟨numSpent, numUnspent, totalSpent, totalUnspent⟩

end Aggregates

section History

/-- `addressCounter`, the cache of balances and the height for which they are valid. -/
structure AddressCounter where
  validHeight : Int64
  balance : String → Option AddressBalance

/-- `ChainDB`, the part of it that `AddressHistory` reads and writes. -/
structure ChainDB where
  addresses : AddressesTable
  addressCounts : AddressCounter

/-- The balance from what the page was reduced to, and from the two counts. -/
def AddressInfo.balance (address : String) (addrInfo : AddressInfo) : AddressBalance where
  address := address
  numSpent := addrInfo.numSpendingTxns
  numUnspent := addrInfo.numFundingTxns - addrInfo.numSpendingTxns
  totalSpent := addrInfo.totalSent
  totalUnspent := addrInfo.unspent

/-- The balance of an address that the two queries have counted. -/
def SpentUnspent.balance (address : String) (counted : SpentUnspent) : AddressBalance where
  address := address
  numSpent := counted.numSpent
  numUnspent := counted.numUnspent
  totalSpent := counted.totalSpent
  totalUnspent := counted.totalUnspent

/-- The cache for a height: it is emptied when the height is another one. -/
def AddressCounter.validate (bestBlock : Int64) (counter : AddressCounter) : AddressCounter :=
  if counter.validHeight = bestBlock then counter else ⟨bestBlock, fun _ => none⟩

/-- What `AddressHistory` returns: the rows of a page, a balance and an error. -/
abbrev HistoryResult := List AddressRow × Option AddressBalance × Option String

/-- The balance is put in the cache and returned. -/
def ChainDB.cacheBalance (pgb : ChainDB) (address : String) (addressRows : List AddressRow)
    (balanceInfo : AddressBalance) : HistoryResult × ChainDB :=
  ((addressRows, some balanceInfo, none), { pgb with
    addressCounts := { pgb.addressCounts with
      balance := Function.update pgb.addressCounts.balance address (some balanceInfo) } })

/-- `AddressHistory` from the rows on, when no fresh balance was cached. -/
def ChainDB.reduceOrCount (faults : QueryFaults) (address : String) (N : Int)
    (addressRows : List AddressRow) (pgb : ChainDB) : HistoryResult × ChainDB :=
  match reduceAddressHistory addressRows with
  | none => ((addressRows, none, some "ReduceAddressHistory failed"), pgb)
  | some addrInfo =>
    if addrInfo.numFundingTxns < N then
      pgb.cacheBalance address addressRows (addrInfo.balance address)
    else
      match retrieveAddressSpentUnspent faults address pgb.addresses with
      | .error err => (([], none, some err), pgb)
      | .ok counted => pgb.cacheBalance address addressRows (counted.balance address)

/-- `AddressHistory`, with the answer of `HeightDB`: the rows of the page and the balance,
cached, reduced or counted. -/
def ChainDB.addressHistory (heightDB : Except String UInt64) (faults : QueryFaults) (address : String)
    (N offset : Int) (pgb : ChainDB) : HistoryResult × ChainDB :=
  match heightDB with
  | .error err => (([], none, some err), pgb)
  | .ok bb =>
    let pgb := { pgb with addressCounts := pgb.addressCounts.validate bb.toInt64 }
    let cached := pgb.addressCounts.balance address
    match retrieveAddressTxns faults.rows address N offset pgb.addresses, cached with
    | .error err, _ => (([], some (cached.getD ⟨"", 0, 0, 0, 0⟩), some err), pgb)
    | .ok addressRows, some balanceInfo => ((addressRows, some balanceInfo, none), pgb)
    | .ok addressRows, none => pgb.reduceOrCount faults address N addressRows

/-- The returned balance is what the two aggregates over all rows of the address are. -/
def ChainDB.ReturnsCounted (bestHeight : UInt64) (address : String) (N offset : Int) (pgb : ChainDB) :
    Prop :=
  ∃ addressRows counted, retrieveAddressSpentUnspent noFaults address pgb.addresses = .ok counted ∧
    (pgb.addressHistory (.ok bestHeight) noFaults address N offset).1 =
      (addressRows, some (counted.balance address), none)

end History

section Sums

/-- Two selections of rows differ by the rows that are in one of them only. -/
theorem sum_filter_sub (weight : AddressColumns → Int) (first second : AddressColumns → Prop)
    [DecidablePred first] [DecidablePred second] (rows : List AddressColumns) :
    ((rows.filter fun row => first row).map weight).sum -
        ((rows.filter fun row => second row).map weight).sum =
      ((rows.filter fun row => first row ∧ ¬second row).map weight).sum -
        ((rows.filter fun row => second row ∧ ¬first row).map weight).sum := by
  induction rows with
  | nil => rfl
  | cons row rest inductionHypothesis =>
    by_cases isFirst : first row <;> by_cases isSecond : second row <;>
      simp only [List.filter_cons, isFirst, isSecond, decide_true, decide_false, not_true_eq_false,
        not_false_eq_true, and_true, and_false, and_self, Bool.false_eq_true, if_true, if_false,
        List.map_cons, List.sum_cons] <;> omega

/-- The rows of one kind and the others are all rows. -/
theorem sum_filter_add (weight : AddressColumns → Int) (kind : AddressColumns → Prop)
    [DecidablePred kind] (rows : List AddressColumns) :
    ((rows.filter fun row => kind row).map weight).sum +
        ((rows.filter fun row => ¬kind row).map weight).sum = (rows.map weight).sum := by
  induction rows with
  | nil => rfl
  | cons row rest inductionHypothesis =>
    by_cases isKind : kind row <;>
      simp only [List.filter_cons, isKind, decide_true, decide_false, not_true_eq_false,
        not_false_eq_true, Bool.false_eq_true, if_true, if_false, List.map_cons, List.sum_cons] <;> omega

/-- The number of rows is the sum of ones. -/
theorem sum_ones (rows : List AddressColumns) : (rows.map fun _ => (1 : Int)).sum = rows.length := by
  induction rows with
  | nil => rfl
  | cons row rest inductionHypothesis =>
    rw [List.map_cons, List.sum_cons, inductionHypothesis, List.length_cons]
    omega

end Sums

section Scans

/-- The page shows a spender of the row, as the hash of the spending transaction is not empty. -/
def ShowsSpender (row : AddressColumns) : Prop := row.spendingTxHash.getD "" ≠ ""

instance : DecidablePred ShowsSpender := fun row =>
  inferInstanceAs (Decidable (row.spendingTxHash.getD "" ≠ ""))

/-- A scanned row has a value that is not negative, and the page keeps it and the hash. -/
structure Scanned (row : AddressColumns) (addr : AddressRow) : Prop where
  nonneg : 0 ≤ amount row
  value : addr.value.toInt64 = Int64.ofInt (amount row)
  spender : addr.spendingTxHash = "" ↔ ¬ShowsSpender row

/-- What the scan into a uint64 returns is the stored number, which is not null and not negative. -/
theorem scanUint64_ok {column : Option Int64} {value : UInt64}
    (scanned : scanUint64 column = .ok value) :
    ∃ stored, column = some stored ∧ 0 ≤ stored.toInt ∧ value = stored.toUInt64 := by
  cases column with
  | none => cases scanned
  | some stored =>
    rw [scanUint64] at scanned
    split at scanned
    · cases scanned
    · rename_i notNegative
      exact ⟨stored, rfl, Int.not_lt.mp notNegative, (Except.ok.inj scanned).symm⟩

/-- A sequence of two steps that returns returned from both. -/
theorem bind_eq_ok {ε α β : Type} {first : Except ε α} {next : α → Except ε β} {result : β} :
    first >>= next = .ok result ↔ ∃ value, first = .ok value ∧ next value = .ok result := by
  cases first with
  | error err =>
    constructor
    · intro impossible
      cases impossible
    · rintro ⟨value, impossible, -⟩
      cases impossible
  | ok value =>
    constructor
    · intro returned
      exact ⟨value, rfl, returned⟩
    · rintro ⟨other, same, returned⟩
      cases same
      exact returned

/-- What the scan of a row returns are the columns of the row. -/
theorem scanAddressRow_ok {row : AddressColumns} {addr : AddressRow}
    (scanned : scanAddressRow row = .ok addr) : Scanned row addr := by
  simp only [scanAddressRow, bind_eq_ok] at scanned
  obtain ⟨address, -, fundingTxDbID, -, fundingTxHash, -, fundingTxVoutIndex, -, voutDbID, -, value,
    isValue, returned⟩ := scanned
  obtain ⟨stored, isStored, nonneg, same⟩ := scanUint64_ok isValue
  obtain rfl : _ = addr := Except.ok.inj returned
  have isAmount : amount row = stored.toInt := by rw [amount, isStored]; rfl
  refine ⟨isAmount ▸ nonneg, ?_, ?_⟩
  · rw [isAmount, Int64.ofInt_toInt]
    subst same
    exact Int64.toInt64_toUInt64 stored
  · exact not_not.symm

/-- What one pass of the loop adds for a scanned row: one to the counts and its amount to the
sums. -/
theorem Reduction.add_scanned {row : AddressColumns} {addr : AddressRow} (scanned : Scanned row addr)
    (reduction : Reduction) :
    (reduction.add addr).numFundingTxns = reduction.numFundingTxns + 1 ∧
      (reduction.add addr).received = reduction.received + Int64.ofInt (amount row) ∧
      (reduction.add addr).numSpendingTxns =
        reduction.numSpendingTxns + (if ShowsSpender row then 1 else 0) ∧
      (reduction.add addr).sent =
        reduction.sent + (if ShowsSpender row then Int64.ofInt (amount row) else 0) := by
  rw [← scanned.value]
  by_cases shown : ShowsSpender row
  · have spent : addr.spendingTxHash ≠ "" := fun empty => scanned.spender.mp empty shown
    simp [Reduction.add, spent, shown]
  · have unspent : addr.spendingTxHash = "" := scanned.spender.mpr shown
    simp [Reduction.add, unspent, shown]

/-- The total of the rows, in the arithmetic of 64 bits, grows by the amount of one more row. -/
theorem total_cons (row : AddressColumns) (rows : List AddressColumns) :
    Int64.ofInt (total (row :: rows)) = Int64.ofInt (amount row) + Int64.ofInt (total rows) := by
  rw [← Int64.ofInt_add]
  rfl

/-- Rows are scanned one by one, and the scan of all of them fails with that of any. -/
theorem scan_iff {rows : List AddressColumns} {addressRows : List AddressRow} :
    scanAddressQueryRows rows = .ok addressRows ↔
      List.Forall₂ (fun row addr => scanAddressRow row = .ok addr) rows addressRows := by
  induction rows generalizing addressRows with
  | nil =>
    rw [List.forall₂_nil_left_iff]
    exact ⟨fun scanned => (Except.ok.inj scanned).symm, fun empty => empty ▸ rfl⟩
  | cons row rest inductionHypothesis =>
    simp only [scanAddressQueryRows, bind_eq_ok, List.forall₂_cons_left_iff, inductionHypothesis]
    constructor
    · rintro ⟨addr, isRow, later, areRows, returned⟩
      exact ⟨addr, later, isRow, areRows, (Except.ok.inj returned).symm⟩
    · rintro ⟨addr, later, isRow, areRows, rfl⟩
      exact ⟨addr, isRow, later, areRows, rfl⟩

/-- A page whose scan returns consists of rows that are scanned as they should be. -/
theorem scan_forall₂ {page : List AddressColumns} {addressRows : List AddressRow}
    (scanned : scanAddressQueryRows page = .ok addressRows) :
    List.Forall₂ Scanned page addressRows :=
  (scan_iff.mp scanned).imp fun _ _ => scanAddressRow_ok

/-- What the loop adds up over the rows of a page. -/
theorem foldl_add {page : List AddressColumns} {addressRows : List AddressRow}
    (scanned : List.Forall₂ Scanned page addressRows) (reduction : Reduction) :
    (addressRows.foldl Reduction.add reduction).numFundingTxns =
        reduction.numFundingTxns + page.length ∧
      (addressRows.foldl Reduction.add reduction).received =
        reduction.received + Int64.ofInt (total page) ∧
      (addressRows.foldl Reduction.add reduction).numSpendingTxns =
        reduction.numSpendingTxns + (page.filter fun row => ShowsSpender row).length ∧
      (addressRows.foldl Reduction.add reduction).sent =
        reduction.sent + Int64.ofInt (total (page.filter fun row => ShowsSpender row)) := by
  induction scanned generalizing reduction with
  | nil => simp [total]
  | @cons row addr rest later isRow areRows inductionHypothesis =>
    obtain ⟨oneFunding, oneReceived, oneSpending, oneSent⟩ := Reduction.add_scanned isRow reduction
    obtain ⟨funding, received, spending, sent⟩ := inductionHypothesis (reduction.add addr)
    rw [List.foldl_cons, funding, received, spending, sent, oneFunding, oneReceived, oneSpending, oneSent,
      total_cons, List.filter_cons]
    refine ⟨by rw [List.length_cons]; omega, Int64.add_assoc _ _ _, ?_, ?_⟩
    · by_cases shown : ShowsSpender row
      · rw [if_pos shown, if_pos (decide_eq_true shown), List.length_cons]
        omega
      · rw [if_neg shown, if_neg (by simpa using shown), Int.add_zero]
    · by_cases shown : ShowsSpender row
      · rw [if_pos shown, if_pos (decide_eq_true shown), total_cons, Int64.add_assoc]
      · rw [if_neg shown, if_neg (by simpa using shown), Int64.add_zero]

/-- No value of a page that could be scanned is negative. -/
theorem scanned_nonneg {page : List AddressColumns} {addressRows : List AddressRow}
    (scanned : List.Forall₂ Scanned page addressRows) : ∀ row ∈ page, 0 ≤ amount row := by
  induction scanned with
  | nil => simp
  | cons isRow areRows inductionHypothesis =>
    intro row member
    rcases List.mem_cons.mp member with rfl | inRest
    · exact isRow.nonneg
    · exact inductionHypothesis row inRest

/-- What a scanned page is reduced to: the counts and totals of its rows, and of those among them
that show a spender. -/
theorem reduce_scanned {page : List AddressColumns} {addressRows : List AddressRow}
    (scanned : List.Forall₂ Scanned page addressRows) (nonempty : addressRows ≠ []) :
    ∃ addrInfo, reduceAddressHistory addressRows = some addrInfo ∧
      addrInfo.numFundingTxns = page.length ∧ ∀ address, addrInfo.balance address = {
        address := address
        numSpent := (page.filter fun row => ShowsSpender row).length
        numUnspent := page.length - (page.filter fun row => ShowsSpender row).length
        totalSpent := Int64.ofInt (total (page.filter fun row => ShowsSpender row))
        totalUnspent := Int64.ofInt (total page - total (page.filter fun row => ShowsSpender row)) } := by
  obtain ⟨first, rest, rfl⟩ := List.exists_cons_of_ne_nil nonempty
  obtain ⟨funding, received, spending, sent⟩ := foldl_add scanned ⟨0, 0, 0, 0, []⟩
  refine ⟨_, rfl, ?_, fun address => ?_⟩
  · rw [funding, Int.zero_add]
  · rw [AddressInfo.balance]
    simp only [funding, received, spending, sent, Int.zero_add, Int64.zero_add, Int64.ofInt_sub]

end Scans

section Law

/-- The sum of the values is an integer of 64 bits. -/
def SumFits (rows : List AddressColumns) : Prop :=
  -9223372036854775808 ≤ total rows ∧ total rows < 9223372036854775808

/-- The rows whose columns disagree are as many one way as the other, with the same
total. There are none in the tables that the program writes. -/
def SpendersAgree (rows : List AddressColumns) : Prop :=
  let hashOnly := rows.filter fun row => ShowsSpender row ∧ ¬row.spendingTxRowID ≠ none
  let rowIDOnly := rows.filter fun row => row.spendingTxRowID ≠ none ∧ ¬ShowsSpender row
  hashOnly.length = rowIDOnly.length ∧ total hashOnly = total rowIDOnly

/-- The columns agree when both ways to tell spent rows give the same number and sum. -/
theorem spentRows_agree_iff (rows : List AddressColumns) :
    SpendersAgree rows ↔
      (rows.filter fun row => ShowsSpender row).length =
          (rows.filter fun row => row.spendingTxRowID ≠ none).length ∧
        total (rows.filter fun row => ShowsSpender row) =
          total (rows.filter fun row => row.spendingTxRowID ≠ none) := by
  have counts := sum_filter_sub (fun _ => 1) ShowsSpender (fun row => row.spendingTxRowID ≠ none) rows
  have sums := sum_filter_sub amount ShowsSpender (fun row => row.spendingTxRowID ≠ none) rows
  simp only [sum_ones] at counts
  unfold SpendersAgree total
  constructor
  · rintro ⟨sameCount, sameTotal⟩
    exact ⟨by omega, by omega⟩
  · rintro ⟨sameCount, sameTotal⟩
    exact ⟨by omega, by omega⟩

/-- The sum of a query is scanned when it fits. -/
theorem scanNullInt64_eq_ok {rows : List AddressColumns} {value : Int64} :
    scanNullInt64 (countAndValue rows).2 = .ok value ↔
      SumFits rows ∧ value = Int64.ofInt (total rows) := by
  by_cases noValue : rows.all (fun row => row.value.isNone) = true
  · have isZero : total rows = 0 := by
      refine List.sum_eq_zero ?_
      intro value member
      obtain ⟨row, inRows, rfl⟩ := List.mem_map.mp member
      have isNull : row.value = none := Option.isNone_iff_eq_none.mp (List.all_eq_true.mp noValue row inRows)
      rw [amount, isNull]
      rfl
    rw [countAndValue, if_pos noValue, SumFits, isZero, scanNullInt64, Except.ok.injEq]
    constructor
    · rintro rfl
      exact ⟨by decide, rfl⟩
    · rintro ⟨-, rfl⟩
      rfl
  · rw [countAndValue, if_neg noValue, scanNullInt64, SumFits]
    split
    · rename_i fits
      simp only [Except.ok.injEq, fits, and_self, true_and]
      exact eq_comm
    · rename_i tooLarge
      simp only [tooLarge, false_and, iff_false]
      rintro ⟨⟩

/-- A query returns exactly when its sum fits, and then returns the number of its rows and their
total. -/
theorem queryRow_eq_ok {context : String} {rows : List AddressColumns} {result : Int × Int64} :
    queryRow none context rows = .ok result ↔
      SumFits rows ∧ result = ((rows.length : Int), Int64.ofInt (total rows)) := by
  cases scanned : scanNullInt64 (countAndValue rows).2 with
  | error err =>
    have tooLarge : ¬SumFits rows := by
      intro fits
      cases scanned.symm.trans (scanNullInt64_eq_ok.mpr ⟨fits, rfl⟩)
    simp only [queryRow, scanned, tooLarge, false_and, iff_false]
    rintro ⟨⟩
  | ok value =>
    obtain ⟨fits, rfl⟩ := scanNullInt64_eq_ok.mp scanned
    simp only [queryRow, scanned, fits, true_and, Except.ok.injEq]
    exact eq_comm

/-- The two aggregates return exactly when both sums fit, and then return the counts and totals
of unspent and spent rows. -/
theorem retrieve_eq_ok {address : String} {table : AddressesTable} {counted : SpentUnspent} :
    retrieveAddressSpentUnspent noFaults address table = .ok counted ↔
      (SumFits (unspentRows address table) ∧ SumFits (spentRows address table)) ∧
        counted = {
          numSpent := (spentRows address table).length
          numUnspent := (unspentRows address table).length
          totalSpent := Int64.ofInt (total (spentRows address table))
          totalUnspent := Int64.ofInt (total (unspentRows address table)) } := by
  simp only [retrieveAddressSpentUnspent, noFaults, bind_eq_ok, queryRow_eq_ok]
  constructor
  · rintro ⟨_, ⟨unspentFits, rfl⟩, _, ⟨spentFits, rfl⟩, returned⟩
    exact ⟨⟨unspentFits, spentFits⟩, (Except.ok.inj returned).symm⟩
  · rintro ⟨⟨unspentFits, spentFits⟩, rfl⟩
    exact ⟨_, ⟨unspentFits, rfl⟩, _, ⟨spentFits, rfl⟩, rfl⟩

/-- Sums that are not negative and fit are equal when they are equal as machine integers. -/
theorem ofInt_inj_of_fits {first second : Int} (firstLow : 0 ≤ first)
    (firstHigh : first < 18446744073709551616) (secondLow : 0 ≤ second)
    (secondHigh : second < 9223372036854775808) (same : Int64.ofInt first = Int64.ofInt second) :
    first = second := by
  have sameInt := congrArg Int64.toInt same
  rw [Int64.toInt_ofInt, Int64.toInt_ofInt, Int.bmod, Int.bmod] at sameInt
  have size : ((Int64.size : Nat) : Int) = 18446744073709551616 := rfl
  rw [size] at sameInt
  rw [Int.emod_eq_of_lt firstLow firstHigh, Int.emod_eq_of_lt secondLow (by omega)] at sameInt
  split at sameInt <;> split at sameInt <;> omega

/-- The sum of rows without negative values is not negative. -/
theorem total_nonneg {rows : List AddressColumns} (nonneg : ∀ row ∈ rows, 0 ≤ amount row) :
    0 ≤ total rows := by
  induction rows with
  | nil => decide
  | cons row rest inductionHypothesis =>
    have first := nonneg row List.mem_cons_self
    have later := inductionHypothesis fun other member => nonneg other (List.mem_cons_of_mem _ member)
    exact Int.add_nonneg first later

/-- All rows are the spent and the unspent ones. -/
theorem total_rowsOf (address : String) (table : AddressesTable) :
    total (spentRows address table) + total (unspentRows address table) =
        total (rowsOf address table) ∧
      (spentRows address table).length + (unspentRows address table).length =
        (rowsOf address table).length := by
  have sums : total (unspentRows address table) + total (spentRows address table) =
      total (rowsOf address table) :=
    sum_filter_add amount (fun row => row.spendingTxRowID = none) (rowsOf address table)
  have counts : ((unspentRows address table).map fun _ => (1 : Int)).sum +
      ((spentRows address table).map fun _ => (1 : Int)).sum =
        ((rowsOf address table).map fun _ => (1 : Int)).sum :=
    sum_filter_add (fun _ => 1) (fun row => row.spendingTxRowID = none) (rowsOf address table)
  rw [sum_ones, sum_ones, sum_ones] at counts
  exact ⟨by omega, by omega⟩

/-- The balance from all rows is the counted one when the columns agree. -/
theorem balance_of_all_iff {address : String} {table : AddressesTable}
    (nonneg : ∀ row ∈ rowsOf address table, 0 ≤ amount row)
    (spentFits : SumFits (spentRows address table))
    (unspentFits : SumFits (unspentRows address table)) :
    (let page := rowsOf address table
     let shown := page.filter fun row => ShowsSpender row
     (shown.length : Int) = (spentRows address table).length ∧
        (page.length : Int) - shown.length = (unspentRows address table).length ∧
        Int64.ofInt (total shown) = Int64.ofInt (total (spentRows address table)) ∧
        Int64.ofInt (total page - total shown) = Int64.ofInt (total (unspentRows address table))) ↔
      SpendersAgree (rowsOf address table) := by
  obtain ⟨sums, counts⟩ := total_rowsOf address table
  rw [spentRows_agree_iff]
  change _ ↔ _ = (spentRows address table).length ∧ _ = total (spentRows address table)
  have shownNonneg : 0 ≤ total ((rowsOf address table).filter fun row => ShowsSpender row) :=
    total_nonneg fun row member => nonneg row (List.mem_of_mem_filter member)
  have hiddenNonneg : 0 ≤ total ((rowsOf address table).filter fun row => ¬ShowsSpender row) :=
    total_nonneg fun row member => nonneg row (List.mem_of_mem_filter member)
  have spentNonneg : 0 ≤ total (spentRows address table) :=
    total_nonneg fun row member => nonneg row (List.mem_of_mem_filter member)
  have parts : total ((rowsOf address table).filter fun row => ShowsSpender row) +
      total ((rowsOf address table).filter fun row => ¬ShowsSpender row) =
        total (rowsOf address table) := sum_filter_add amount ShowsSpender _
  constructor
  · rintro ⟨sameCount, -, sameTotal, -⟩
    refine ⟨by omega, ofInt_inj_of_fits shownNonneg ?_ spentNonneg spentFits.2 sameTotal⟩
    have spentHigh := spentFits.2
    have unspentHigh := unspentFits.2
    omega
  · rintro ⟨sameCount, sameTotal⟩
    refine ⟨by omega, by omega, by rw [sameTotal], ?_⟩
    rw [sameTotal]
    congr 1
    omega

/-- For an address that is not cached the balance is that of the aggregates, unless it
is taken from the page. -/
theorem returnsCounted_iff (bestHeight : UInt64) {address : String} {N offset : Int} {pgb : ChainDB}
    (notCached : pgb.addressCounts.balance address = none) {addressRows : List AddressRow}
    (listed : retrieveAddressTxns none address N offset pgb.addresses = .ok addressRows)
    {addrInfo : AddressInfo} (reduced : reduceAddressHistory addressRows = some addrInfo) :
    pgb.ReturnsCounted bestHeight address N offset ↔
      ∃ counted, retrieveAddressSpentUnspent noFaults address pgb.addresses = .ok counted ∧
        (addrInfo.numFundingTxns < N → addrInfo.balance address = counted.balance address) := by
  have missed : (pgb.addressCounts.validate bestHeight.toInt64).balance address = none := by
    unfold AddressCounter.validate
    split
    · exact notCached
    · rfl
  have result : (pgb.addressHistory (.ok bestHeight) noFaults address N offset).1 =
      (ChainDB.reduceOrCount noFaults address N addressRows
        { pgb with addressCounts := pgb.addressCounts.validate bestHeight.toInt64 }).1 := by
    simp only [ChainDB.addressHistory, noFaults, listed, missed]
  unfold ChainDB.ReturnsCounted
  rw [result]
  simp only [ChainDB.reduceOrCount, reduced]
  by_cases short : addrInfo.numFundingTxns < N
  · simp only [if_pos short, ChainDB.cacheBalance, Prod.mk.injEq, Option.some.injEq, and_true]
    constructor
    · rintro ⟨_, counted, isCounted, -, same⟩
      exact ⟨counted, isCounted, fun _ => same⟩
    · rintro ⟨counted, isCounted, same⟩
      exact ⟨addressRows, counted, isCounted, rfl, same short⟩
  · simp only [short, false_implies, and_true]
    constructor
    · rintro ⟨_, counted, isCounted, -⟩
      exact ⟨counted, isCounted⟩
    · rintro ⟨counted, isCounted⟩
      refine ⟨addressRows, counted, isCounted, ?_⟩
      rw [isCounted]
      rfl

/-- For an address that is not cached and a page that is not empty, the returned balance
is what the aggregates over all rows of the address are exactly when their sums fit, and
the page is full, or starts with the newest row and the two spender columns agree. -/
theorem addressHistory_counted_iff (bestHeight : UInt64) {address : String} {N offset : Int}
    (limit : 1 ≤ N) (start : 0 ≤ offset) {pgb : ChainDB}
    (notCached : pgb.addressCounts.balance address = none) {addressRows : List AddressRow}
    (listed : retrieveAddressTxns none address N offset pgb.addresses = .ok addressRows)
    (nonempty : addressRows ≠ []) :
    pgb.ReturnsCounted bestHeight address N offset ↔
      (SumFits (unspentRows address pgb.addresses) ∧ SumFits (spentRows address pgb.addresses)) ∧
        (offset + N ≤ (rowsOf address pgb.addresses).length ∨
          offset = 0 ∧ SpendersAgree (rowsOf address pgb.addresses)) := by
  set table := pgb.addresses with isTable
  have scanned : scanAddressQueryRows (selectAddressLimitN address N offset table) = .ok addressRows :=
    listed
  have pageRows := scan_forall₂ scanned
  have pageLength : (selectAddressLimitN address N offset table).length =
      min N.toNat ((rowsOf address table).length - offset.toNat) := by
    rw [selectAddressLimitN, List.length_take, List.length_drop]
  have somePage : 0 < (selectAddressLimitN address N offset table).length := by
    rw [pageRows.length_eq]
    exact List.length_pos_iff.mpr nonempty
  obtain ⟨addrInfo, reduced, funding, isBalance⟩ := reduce_scanned pageRows nonempty
  have returns : pgb.ReturnsCounted bestHeight address N offset ↔
      ∃ counted, retrieveAddressSpentUnspent noFaults address table = .ok counted ∧
        (addrInfo.numFundingTxns < N → addrInfo.balance address = counted.balance address) := by
    exact returnsCounted_iff bestHeight notCached listed reduced
  rw [returns]
  simp only [retrieve_eq_ok]
  by_cases short : addrInfo.numFundingTxns < N
  · have notFull : ¬offset + N ≤ (rowsOf address table).length := by omega
    have page (isStart : offset = 0) :
        selectAddressLimitN address N offset table = rowsOf address table := by
      rw [selectAddressLimitN, isStart, Int.toNat_zero, List.drop_zero, List.take_of_length_le (by omega)]
    have nonneg (isStart : offset = 0) : ∀ row ∈ rowsOf address table, 0 ≤ amount row := by
      rw [← page isStart]
      exact scanned_nonneg pageRows
    constructor
    · rintro ⟨counted, ⟨⟨unspentFits, spentFits⟩, rfl⟩, same⟩
      have equal := same short
      rw [isBalance] at equal
      simp only [SpentUnspent.balance, AddressBalance.mk.injEq, true_and] at equal
      have all := (total_rowsOf address table).2
      have isStart : offset = 0 := by omega
      rw [page isStart] at equal
      exact ⟨⟨unspentFits, spentFits⟩, Or.inr ⟨isStart,
        (balance_of_all_iff (nonneg isStart) spentFits unspentFits).mp equal⟩⟩
    · rintro ⟨⟨unspentFits, spentFits⟩, full | ⟨isStart, agree⟩⟩
      · exact absurd full notFull
      · have equal := (balance_of_all_iff (nonneg isStart) spentFits unspentFits).mpr agree
        refine ⟨_, ⟨⟨unspentFits, spentFits⟩, rfl⟩, fun _ => ?_⟩
        rw [isBalance, page isStart]
        simp only [SpentUnspent.balance, AddressBalance.mk.injEq, true_and]
        exact equal
  · have full : offset + N ≤ (rowsOf address table).length := by omega
    constructor
    · rintro ⟨counted, ⟨fits, -⟩, -⟩
      exact ⟨fits, Or.inl full⟩
    · rintro ⟨fits, -⟩
      exact ⟨_, ⟨fits, rfl⟩, fun isShort => absurd isShort short⟩

/-- The columns agree when every row has both or neither. -/
theorem spendersAgree_of_both {rows : List AddressColumns}
    (both : ∀ row ∈ rows, ShowsSpender row ↔ row.spendingTxRowID ≠ none) : SpendersAgree rows := by
  have hashOnly : (rows.filter fun row => ShowsSpender row ∧ ¬row.spendingTxRowID ≠ none) = [] := by
    rw [List.filter_eq_nil_iff]
    intro row member
    simpa using (both row member).mp
  have rowIDOnly : (rows.filter fun row => row.spendingTxRowID ≠ none ∧ ¬ShowsSpender row) = [] := by
    rw [List.filter_eq_nil_iff]
    intro row member
    simpa using (both row member).mpr
  rw [SpendersAgree, hashOnly, rowIDOnly]
  exact ⟨rfl, rfl⟩

end Law

section Written

/-- The columns of a row that the program writes, with the text of a hash. -/
def columnsOf (text : Hash → String) (stored : Stored Hcpg.AddressRow) : AddressColumns where
  id := stored.id
  address := some stored.row.address
  fundingTxRowID := some (Int64.ofNat stored.row.fundingTxDbID)
  fundingTxHash := some (text stored.row.fundingTxHash)
  fundingTxVoutIndex := some (Int64.ofNat stored.row.fundingTxVoutIndex.toNat)
  voutRowID := some (Int64.ofNat stored.row.voutDbID)
  value := some stored.row.value.toInt64
  spendingTxRowID := stored.row.spending.map fun spending => Int64.ofNat spending.spendingTxDbID
  spendingTxHash := stored.row.spending.map fun spending => text spending.spendingTxHash
  spendingTxVinIndex := stored.row.spending.map fun spending => spending.spendingTxVinIndex.toInt32
  vinRowID := stored.row.spending.map fun spending => Int64.ofNat spending.vinDbID

variable {text : Hash → String}

/-- Rows that the store has written have both spender columns or neither. -/
theorem spendersAgree_written (notEmpty : ∀ hash, text hash ≠ "")
    {rows : List (Stored Hcpg.AddressRow)} : SpendersAgree (rows.map (columnsOf text)) := by
  refine spendersAgree_of_both ?_
  intro row member
  obtain ⟨stored, -, rfl⟩ := List.mem_map.mp member
  unfold ShowsSpender columnsOf
  cases stored.row.spending with
  | none => simp
  | some spending => simpa using notEmpty spending.spendingTxHash

/-- The value of such a row, below `2 ^ 63`, is that of the program. -/
theorem amount_columnsOf {stored : Stored Hcpg.AddressRow}
    (small : stored.row.value.toNat < 9223372036854775808) :
    amount (columnsOf text stored) = stored.row.value.toNat := by
  have fits : 2 * stored.row.value.toBitVec.toNat < 2 ^ 64 := by
    rw [UInt64.toNat_toBitVec]
    omega
  exact BitVec.toInt_eq_toNat_of_lt fits

/-- What is counted over some kind of such rows. -/
theorem count_written {table : AddressesTable} {written : AddressCache.AddressTable}
    (isWritten : (table.rows : Multiset AddressColumns) = written.map (columnsOf text))
    (small : ∀ stored ∈ written, stored.row.value.toNat < 9223372036854775808) (address : String)
    (kind : AddressColumns → Prop) [DecidablePred kind] (rowKind : Hcpg.AddressRow → Prop)
    [DecidablePred rowKind] (sameKind : ∀ stored, kind (columnsOf text stored) ↔ rowKind stored.row) :
    ((((rowsOf address table).filter fun row => kind row).length : Int),
        total ((rowsOf address table).filter fun row => kind row)) =
      AddressCache.countAndValue ((AddressCache.rowsOf address written).filter rowKind) := by
  set selected := written.filter fun stored => rowKind stored.row ∧ stored.row.address = address
    with isSelected
  have columns : (((rowsOf address table).filter fun row => kind row : List AddressColumns) :
      Multiset AddressColumns) = selected.map (columnsOf text) := by
    rw [← Multiset.filter_coe, rowsOf, Multiset.coe_reverse, ← Multiset.filter_coe, isWritten,
      Multiset.filter_filter, Multiset.filter_map]
    congr 1
    refine Multiset.filter_congr fun stored _ => ?_
    have sameAddress : (columnsOf text stored).address = some address ↔ stored.row.address = address :=
      Option.some_inj
    simp [sameKind, sameAddress]
  have rows : (AddressCache.rowsOf address written).filter rowKind = selected.map Stored.row := by
    rw [AddressCache.rowsOf, Multiset.filter_filter, Multiset.filter_map]
    rfl
  have sums : total ((rowsOf address table).filter fun row => kind row) =
      (selected.map fun stored => (stored.row.value.toNat : Int)).sum := by
    rw [total, ← Multiset.sum_coe, ← Multiset.map_coe, columns, Multiset.map_map]
    refine congrArg Multiset.sum (Multiset.map_congr rfl fun stored member => ?_)
    exact amount_columnsOf (small stored (Multiset.mem_of_mem_filter member))
  have counts := congrArg Multiset.card columns
  rw [Multiset.coe_card, Multiset.card_map] at counts
  rw [sums, counts, rows, AddressCache.countAndValue, Multiset.card_map, Multiset.map_map]
  rfl

/-- The aggregates are the balance that the model of the cache takes them for. -/
theorem counted_written {table : AddressesTable} {written : AddressCache.AddressTable}
    (isWritten : (table.rows : Multiset AddressColumns) = written.map (columnsOf text))
    (small : ∀ stored ∈ written, stored.row.value.toNat < 9223372036854775808) {address : String}
    {counted : SpentUnspent}
    (isCounted : retrieveAddressSpentUnspent noFaults address table = .ok counted) :
    counted.balance address = AddressCache.balanceOf address written := by
  have sameSpending (stored : Stored Hcpg.AddressRow) :
      (columnsOf text stored).spendingTxRowID = none ↔ stored.row.spending = none := by
    simp [columnsOf]
  have unspent := count_written isWritten small address (fun row => row.spendingTxRowID = none)
    (fun row => row.spending = none) sameSpending
  have spent := count_written isWritten small address (fun row => row.spendingTxRowID ≠ none)
    (fun row => row.spending ≠ none) fun stored => not_congr (sameSpending stored)
  obtain ⟨-, rfl⟩ := retrieve_eq_ok.mp isCounted
  simp only [SpentUnspent.balance, AddressCache.balanceOf, AddressCache.spentCountAndValue,
    AddressCache.unspentCountAndValue, ← unspent, ← spent]
  rfl

end Written

section Sample

/-- Two outputs paid to one address, the second of them spent. -/
def sampleRow (id : Nat) (value : Int64) (spender : Option Int64) : AddressColumns :=
  ⟨id, some "Hs", some 1, some "funding", some 0, some 1, some value, spender,
    spender.map fun _ => "spending", spender.map fun _ => 0, spender⟩

/-- Two outputs of an address, one of them spent, and an empty cache for a height. -/
def twoOutputs : ChainDB :=
  ⟨(KeyedTable.empty.insertOrReplace (sampleRow 1 5 none)).insertOrReplace (sampleRow 2 7 (some 9)),
    ⟨8, fun _ => none⟩⟩

/-- The law at a page that has room for all rows of the address. -/
theorem addressHistory_counted_firstPage : twoOutputs.ReturnsCounted 8 "Hs" 10 0 := by
  have listed : ∃ addressRows, retrieveAddressTxns none "Hs" 10 0 twoOutputs.addresses = .ok addressRows ∧
      addressRows ≠ [] := ⟨_, rfl, by decide⟩
  obtain ⟨addressRows, isListed, nonempty⟩ := listed
  exact (addressHistory_counted_iff 8 (by decide) (by decide) rfl isListed nonempty).mpr
    ⟨⟨⟨by decide, by decide⟩, ⟨by decide, by decide⟩⟩, Or.inr ⟨rfl, ⟨rfl, rfl⟩⟩⟩

/-- On the second page of one row each the spent output is missing from the balance. -/
theorem secondPage_misses_spent :
    (∃ addressRows, retrieveAddressTxns none "Hs" 2 1 twoOutputs.addresses = .ok addressRows ∧
      addressRows.length = 1) ∧
    retrieveAddressSpentUnspent noFaults "Hs" twoOutputs.addresses = .ok ⟨1, 1, 7, 5⟩ ∧
      (twoOutputs.addressHistory (.ok 8) noFaults "Hs" 2 1).1.2 =
        (some ⟨"Hs", 0, 1, 0, 5⟩, none) ∧
      ¬twoOutputs.ReturnsCounted 8 "Hs" 2 1 := by
  have counted : retrieveAddressSpentUnspent noFaults "Hs" twoOutputs.addresses = .ok ⟨1, 1, 7, 5⟩ := rfl
  have returned : (twoOutputs.addressHistory (.ok 8) noFaults "Hs" 2 1).1.2 =
      (some ⟨"Hs", 0, 1, 0, 5⟩, none) := rfl
  refine ⟨⟨_, rfl, rfl⟩, counted, returned, ?_⟩
  rintro ⟨addressRows, other, isCounted, result⟩
  obtain rfl : ⟨1, 1, 7, 5⟩ = other := Except.ok.inj (counted.symm.trans isCounted)
  rw [result] at returned
  cases returned

end Sample

end Hcexplorer.Hcpg.AddressHistory

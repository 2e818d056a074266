import Hcexplorer.Hcpg.AddressHistory
import Hcexplorer.Strconv
import Mathlib.Data.List.Forall2

/-!
# The pages of an address

`addressPage` lists the rows of an address from an offset on, the newest first, and the number of
its known outputs comes from the cached balance. The template shows the link to the next page when
the page has fewer rows than are known and more are known behind it. Visitors share the cache, and
a page that begins in the middle and is not full leaves the balance of its own rows in it.

A visitor follows the links of an address while others ask for pages. As long as none of these
leaves such a balance for the address, the pages show each row once, and the link is gone with the
last row. The table stays as it is; the heights that the requests find do not matter.

The lite mode, which asks the node, the link to the previous page, the formatted texts, the failures
of the template, and what `FillAddressTransactions` adds, apart from its error, are left out.
-/

namespace Hcexplorer.AddressPages

open Hcpg.AddressHistory
open Hcpg.AddressCache (AddressBalance)
open Strconv (Text parseInt formatInt parseInt_formatInt)

section Model

/-- `defaultAddressRows`, the number of rows of a page when the query names none that can be
used. -/
def defaultAddressRows : Int64 := 20

/-- `maxAddressRows`, the largest number of rows of a page, whatever the query asks for. -/
def maxAddressRows : Int64 := 1000

/-- The number of rows of a page, from the query. -/
def pageLimit (n : Text) : Int64 :=
  match parseInt n with
  | none => defaultAddressRows
  | some limitN =>
    if limitN < 0 then defaultAddressRows
    else if maxAddressRows < limitN then maxAddressRows
    else limitN

/-- The number of rows before the page, from the query. A text that is no number, or a negative
one, counts as none. -/
def pageOffset (start : Text) : Int64 :=
  match parseInt start with
  | none => 0
  | some offset => if offset < 0 then 0 else offset

/-- A request for the page of an address, with the answer of `HeightDB`, the statements that fail,
and the error of `FillAddressTransactions`. -/
structure Request where
  address : String
  n : Text
  start : Text
  heightDB : Except String UInt64
  faults : QueryFaults
  fillError : Option String

/-- What the template is given, as far as its list and its links show it. -/
structure AddressPage where
  addrData : AddressInfo
  limit : Int64
  offset : Int64
  knownFundingTxns : Int64
  balance : AddressBalance

/-- `addressPage`, with the state of the cache that it leaves. It is none for the redirection to
`/error/`. -/
def addressPage (request : Request) (pgb : ChainDB) : Option AddressPage × ChainDB :=
  let limitN := pageLimit request.n
  let offset := pageOffset request.start
  let (result, pgb) := pgb.addressHistory request.heightDB request.faults request.address
    limitN.toInt offset.toInt
  match result with
  | (_, _, some _) => (none, pgb)
  | (_, none, none) => (none, pgb)
  | (addrHist, some balance, none) =>
    match reduceAddressHistory addrHist, request.fillError with
    | none, _ => (none, pgb)
    | some _, some _ => (none, pgb)
    | some addrData, none =>
      (some ⟨addrData, limitN, offset, Int64.ofInt (balance.numSpent + balance.numUnspent), balance⟩, pgb)

/-- The query of the link to the next page, where the template shows it and it is not disabled. -/
def AddressPage.next (page : AddressPage) : Option (Text × Text) :=
  if page.addrData.numFundingTxns < page.knownFundingTxns.toInt then
    if page.knownFundingTxns - page.offset < page.limit + 1 then none
    else some (formatInt page.limit, formatInt (page.offset + page.limit))
  else none

/-- Requests one after another, each over the cache that the one before it leaves. -/
def serve (requests : List Request) (pgb : ChainDB) : ChainDB :=
  requests.foldl (fun pgb request => (addressPage request pgb).2) pgb

/-- One page of a visitor: the requests of others before it, and the height that it finds. -/
structure Round where
  others : List Request
  bestHeight : UInt64

/-- The visitor's own request for the page behind a link, which meets no failure. -/
def Round.request (round : Round) (address : String) (link : Text × Text) : Request :=
  ⟨address, link.1, link.2, .ok round.bestHeight, noFaults, none⟩

/-- The pages of a visitor who begins at a link and then follows that of each page, and the link
that is left. -/
def walk (address : String) : List Round → Option (Text × Text) → ChainDB →
    List AddressPage × Option (Text × Text)
  | [], link, _ => ([], link)
  | _ :: _, none, _ => ([], none)
  | round :: rest, some link, pgb =>
    match addressPage (round.request address link) (serve round.others pgb) with
    | (none, _) => ([], none)
    | (some page, pgb) =>
      let (pages, left) := walk address rest page.next pgb
      (page :: pages, left)

/-- The entries of a row in the list of transactions. -/
def transactionsOf (addrOut : AddressRow) : List AddressTx :=
  ⟨addrOut.fundingTxHash, addrOut.value.toInt64, 0⟩ ::
    if addrOut.spendingTxHash = "" then []
    else [⟨addrOut.spendingTxHash, 0, addrOut.value.toInt64⟩]

end Model

section Listing

/-- The loop of `ReduceAddressHistory` appends the entries of the rows, in the order of the rows. -/
theorem transactions_foldl (addrHist : List AddressRow) (reduction : Reduction) :
    (addrHist.foldl Reduction.add reduction).transactions =
      reduction.transactions ++ addrHist.flatMap transactionsOf := by
  induction addrHist generalizing reduction with
  | nil => simp
  | cons addrOut rest inductionHypothesis =>
    rw [List.foldl_cons, inductionHypothesis, List.flatMap_cons, ← List.append_assoc]
    congr 1
    by_cases unspent : addrOut.spendingTxHash = ""
    · simp [Reduction.add, transactionsOf, unspent]
    · simp [Reduction.add, transactionsOf, unspent]

variable {address : String} {table : AddressesTable} {all : List AddressRow}

/-- A page of rows that can all be scanned. -/
theorem scan_page (scanned : scanAddressQueryRows (rowsOf address table) = .ok all) (N offset : Int) :
    retrieveAddressTxns none address N offset table =
      .ok ((all.drop offset.toNat).take N.toNat) :=
  scan_iff.mpr (List.forall₂_take _ (List.forall₂_drop _ (scan_iff.mp scanned)))

/-- What a page that shows some rows is reduced to: it counts its rows, and lists their entries. -/
theorem reduce_page (scanned : scanAddressQueryRows (rowsOf address table) = .ok all) {N offset : Int}
    (nonempty : (all.drop offset.toNat).take N.toNat ≠ []) :
    ∃ addrInfo, reduceAddressHistory ((all.drop offset.toNat).take N.toNat) = some addrInfo ∧
      addrInfo.numFundingTxns = ((all.drop offset.toNat).take N.toNat).length ∧
      addrInfo.transactions = ((all.drop offset.toNat).take N.toNat).flatMap transactionsOf := by
  have rows := scan_forall₂ (scan_page scanned N offset)
  obtain ⟨addrInfo, reduced, funding, -⟩ := reduce_scanned rows nonempty
  refine ⟨addrInfo, reduced, by rw [funding, rows.length_eq], ?_⟩
  obtain ⟨first, rest, isPage⟩ := List.exists_cons_of_ne_nil nonempty
  rw [isPage] at reduced
  obtain rfl := Option.some.inj reduced
  rw [isPage]
  exact transactions_foldl (first :: rest) ⟨0, 0, 0, 0, []⟩

end Listing

section Cache

/-- The cached balance of the address, if there is one, counts all of its rows. -/
def Counted (address : String) (pgb : ChainDB) : Prop :=
  ∀ balance, pgb.addressCounts.balance address = some balance →
    balance.numSpent + balance.numUnspent = (rowsOf address pgb.addresses).length

/-- The request does not begin behind the first row of the address and end behind its last one. -/
def Harmless (address : String) (table : AddressesTable) (request : Request) : Prop :=
  let offset := (pageOffset request.start).toInt
  request.address = address → offset = 0 ∨ (rowsOf address table).length ≤ offset ∨
    offset + (pageLimit request.n).toInt ≤ (rowsOf address table).length

variable {address : String} {pgb : ChainDB}

/-- The cache for another height has no balances, and so no wrong one; for the same height
nothing changes. -/
theorem Counted.validate (counted : Counted address pgb) (bestBlock : Int64) :
    Counted address { pgb with addressCounts := pgb.addressCounts.validate bestBlock } := by
  intro balance isCached
  simp only [AddressCounter.validate] at isCached
  split at isCached
  · exact counted balance isCached
  · cases isCached

/-- A balance is put in the cache. The balance of the address stays right if the new one is that
of another address, or counts all rows. -/
theorem Counted.cacheBalance (counted : Counted address pgb) {other : String} {balance : AddressBalance}
    (right : other = address →
      balance.numSpent + balance.numUnspent = (rowsOf address pgb.addresses).length)
    (addressRows : List AddressRow) : Counted address (pgb.cacheBalance other addressRows balance).2 := by
  intro found isCached
  by_cases same : address = other
  · subst same
    simp only [ChainDB.cacheBalance, Function.update_self, Option.some.injEq] at isCached
    exact isCached ▸ right rfl
  · simp only [ChainDB.cacheBalance, ne_eq, same, not_false_eq_true, Function.update_of_ne] at isCached
    exact counted found isCached

/-- Aggregates that return count all rows, whatever may fail. -/
theorem count_eq {faults : QueryFaults} {table : AddressesTable} {counts : SpentUnspent}
    (returned : retrieveAddressSpentUnspent faults address table = .ok counts) :
    counts.numSpent + counts.numUnspent = (rowsOf address table).length := by
  have unfailed : retrieveAddressSpentUnspent noFaults address table = .ok counts := by
    obtain ⟨rows, begun, unspent, spent, rolledBack⟩ := faults
    cases begun with
    | some err => cases returned
    | none =>
      simp only [retrieveAddressSpentUnspent, bind_eq_ok] at returned
      obtain ⟨first, isFirst, second, isSecond, returned⟩ := returned
      cases unspent with
      | some err => cases isFirst
      | none =>
        cases spent with
        | some err => cases isSecond
        | none =>
          cases rolledBack with
          | some err => cases returned
          | none =>
            simp only [retrieveAddressSpentUnspent, noFaults, bind_eq_ok]
            exact ⟨first, isFirst, second, isSecond, returned⟩
  obtain ⟨-, rfl⟩ := retrieve_eq_ok.mp unfailed
  have parts := (total_rowsOf address table).2
  show ((spentRows address table).length : Int) + (unspentRows address table).length = _
  omega

/-- A page has as many rows as are asked for, or the rest of them. -/
theorem length_page (table : AddressesTable) (N offset : Int) :
    (selectAddressLimitN address N offset table).length =
      min N.toNat ((rowsOf address table).length - offset.toNat) := by
  rw [selectAddressLimitN, List.length_take, List.length_drop]

/-- A page that is not full, but does not begin in the middle either, has all rows. -/
theorem short_counts {table : AddressesTable} {fault : Option String} {N offset : Int}
    {addressRows : List AddressRow} {addrInfo : AddressInfo}
    (harmless : offset = 0 ∨ (rowsOf address table).length ≤ offset ∨
      offset + N ≤ (rowsOf address table).length)
    (listed : retrieveAddressTxns fault address N offset table = .ok addressRows)
    (reduced : reduceAddressHistory addressRows = some addrInfo) (short : addrInfo.numFundingTxns < N) :
    addrInfo.numFundingTxns = (rowsOf address table).length := by
  have scanned : scanAddressQueryRows (selectAddressLimitN address N offset table) = .ok addressRows := by
    cases fault with
    | some err => cases listed
    | none => exact listed
  have nonempty : addressRows ≠ [] := by
    rintro rfl
    cases reduced
  obtain ⟨other, isOther, funding, -⟩ := reduce_scanned (scan_forall₂ scanned) nonempty
  obtain rfl := Option.some.inj (reduced.symm.trans isOther)
  have rows := (scan_forall₂ scanned).length_eq
  have some_ := List.length_pos_iff.mpr nonempty
  rw [funding] at short ⊢
  rw [← rows] at some_
  rw [length_page] at short some_ ⊢
  omega

/-- `AddressHistory` leaves the table, and a right balance stays right, unless a page that begins in
the middle is not full. -/
theorem addressHistory_counted (counted : Counted address pgb) (heightDB : Except String UInt64)
    (faults : QueryFaults) {other : String} {N offset : Int}
    (harmless : other = address → offset = 0 ∨ (rowsOf address pgb.addresses).length ≤ offset ∨
      offset + N ≤ (rowsOf address pgb.addresses).length) :
    (pgb.addressHistory heightDB faults other N offset).2.addresses = pgb.addresses ∧
      Counted address (pgb.addressHistory heightDB faults other N offset).2 := by
  cases heightDB with
  | error err => exact ⟨rfl, counted⟩
  | ok bb =>
    have valid := counted.validate bb.toInt64
    simp only [ChainDB.addressHistory]
    split
    · exact ⟨rfl, valid⟩
    · exact ⟨rfl, valid⟩
    · rename_i addressRows listed _
      simp only [ChainDB.reduceOrCount]
      split
      · exact ⟨rfl, valid⟩
      · rename_i addrInfo reduced
        split
        · rename_i short
          refine ⟨rfl, valid.cacheBalance (fun same => ?_) addressRows⟩
          subst same
          have all := short_counts (harmless rfl) listed reduced short
          show addrInfo.numSpendingTxns + (addrInfo.numFundingTxns - addrInfo.numSpendingTxns) =
            (rowsOf other pgb.addresses).length
          omega
        · split
          · exact ⟨rfl, valid⟩
          · rename_i counts returned
            refine ⟨rfl, valid.cacheBalance (fun same => ?_) addressRows⟩
            subst same
            exact count_eq returned

/-- The number of rows before a page is not negative. -/
theorem pageOffset_nonneg (start : Text) : 0 ≤ (pageOffset start).toInt := by
  unfold pageOffset
  split
  · decide
  · split
    · decide
    · rename_i notNegative
      rw [Int64.lt_iff_toInt_lt] at notNegative
      exact Int.not_lt.mp notNegative

/-- The number of its rows is one of 0 to 1000. -/
theorem pageLimit_bounds (n : Text) : 0 ≤ (pageLimit n).toInt ∧ (pageLimit n).toInt ≤ 1000 := by
  have most : maxAddressRows.toInt = 1000 := by decide
  have usual : defaultAddressRows.toInt = 20 := by decide
  unfold pageLimit
  split
  · omega
  · split
    · omega
    · split
      · omega
      · rename_i notNegative notAbove
        have zero : (0 : Int64).toInt = 0 := by decide
        rw [Int64.lt_iff_toInt_lt] at notNegative notAbove
        omega

/-- What a request leaves in the cache is what `AddressHistory` leaves there, whatever page the
visitor gets. -/
theorem addressPage_left (request : Request) (pgb : ChainDB) :
    (addressPage request pgb).2 = (pgb.addressHistory request.heightDB request.faults request.address
      (pageLimit request.n).toInt (pageOffset request.start).toInt).2 := by
  simp only [addressPage]
  split
  · rfl
  · rfl
  · split <;> rfl

/-- Harmless requests leave the table and a right balance. -/
theorem serve_counted {requests : List Request} (counted : Counted address pgb)
    (harmless : ∀ request ∈ requests, Harmless address pgb.addresses request) :
    (serve requests pgb).addresses = pgb.addresses ∧ Counted address (serve requests pgb) := by
  induction requests generalizing pgb with
  | nil => exact ⟨rfl, counted⟩
  | cons request rest inductionHypothesis =>
    obtain ⟨sameTable, countedNext⟩ := addressHistory_counted counted request.heightDB request.faults
      (harmless request List.mem_cons_self)
    rw [← addressPage_left] at sameTable countedNext
    have later : ∀ other ∈ rest, Harmless address (addressPage request pgb).2.addresses other := by
      intro other member
      rw [sameTable]
      exact harmless other (List.mem_cons_of_mem _ member)
    obtain ⟨sameAfter, countedAfter⟩ := inductionHypothesis countedNext later
    exact ⟨sameAfter.trans sameTable, countedAfter⟩

end Cache

section Page

/-- The rows of the address can be scanned into `all`, the two aggregates over them return, and
their number is one that `COUNT(*)` can return. -/
structure Listed (address : String) (table : AddressesTable) (all : List AddressRow) : Prop where
  scanned : scanAddressQueryRows (rowsOf address table) = .ok all
  counted : ∃ counts, retrieveAddressSpentUnspent noFaults address table = .ok counts
  fits : all.length < 9223372036854775808

/-- The page of so many rows behind so many others shows some rows: the limit is not zero, and
the page begins before the last row. -/
structure Shows (all : List AddressRow) (n start : Text) : Prop where
  positive : 0 < (pageLimit n).toInt
  inside : (pageOffset start).toInt < all.length

variable {address : String} {pgb : ChainDB} {all : List AddressRow}

/-- A listed address has as many rows as are scanned. -/
theorem Listed.length_eq {table : AddressesTable} (listed : Listed address table all) :
    (rowsOf address table).length = all.length :=
  (scan_forall₂ listed.scanned).length_eq

/-- Without a failure `AddressHistory` returns the page with a balance that counts all rows, or
only those of a page that is not full. -/
theorem addressHistory_own (listed : Listed address pgb.addresses all) (counted : Counted address pgb)
    (bestHeight : UInt64) {N offset : Int} (nonempty : (all.drop offset.toNat).take N.toNat ≠ []) :
    ∃ balance after, pgb.addressHistory (.ok bestHeight) noFaults address N offset =
        (((all.drop offset.toNat).take N.toNat, some balance, none), after) ∧
      (balance.numSpent + balance.numUnspent = all.length ∨
        (((all.drop offset.toNat).take N.toNat).length < N ∧
          balance.numSpent + balance.numUnspent = ((all.drop offset.toNat).take N.toNat).length)) := by
  have valid := counted.validate bestHeight.toInt64
  have isPage := scan_page listed.scanned N offset
  simp only [ChainDB.addressHistory, noFaults, isPage]
  cases isCached : (pgb.addressCounts.validate bestHeight.toInt64).balance address with
  | some balance =>
    refine ⟨balance, _, rfl, .inl ?_⟩
    rw [← listed.length_eq]
    exact valid balance isCached
  | none =>
    obtain ⟨addrInfo, reduced, funding, -⟩ := reduce_page listed.scanned nonempty
    simp only [ChainDB.reduceOrCount, reduced]
    by_cases short : addrInfo.numFundingTxns < N
    · -- the balance is that of the page
      rw [if_pos short]
      refine ⟨_, _, rfl, .inr ⟨funding ▸ short, ?_⟩⟩
      rw [← funding]
      simp only [AddressInfo.balance]
      omega
    · obtain ⟨counts, returned⟩ := listed.counted
      have returned' : retrieveAddressSpentUnspent ⟨none, none, none, none, none⟩ address
          pgb.addresses = .ok counts := returned
      rw [if_neg short]
      simp only [returned']
      refine ⟨_, _, rfl, .inl ?_⟩
      rw [← listed.length_eq]
      exact count_eq returned

/-- The link to the next page, from the numbers on the page: it is shown exactly as long as there
are rows behind the page. -/
theorem next_eq {page : AddressPage} {count : Nat} (fits : count < 9223372036854775808)
    (low : 0 ≤ page.offset.toInt) (inside : page.offset.toInt < count)
    (positive : 0 < page.limit.toInt) (most : page.limit.toInt ≤ 1000)
    (shown : page.addrData.numFundingTxns = min page.limit.toInt (count - page.offset.toInt))
    (known : page.knownFundingTxns.toInt = count ∨
      (page.addrData.numFundingTxns < page.limit.toInt ∧
        page.knownFundingTxns.toInt = page.addrData.numFundingTxns)) :
    page.next = if count ≤ page.offset.toInt + page.limit.toInt then none
      else some (formatInt page.limit, formatInt (page.offset + page.limit)) := by
  rcases known with isCount | ⟨short, isShort⟩
  · have behind : (page.knownFundingTxns - page.offset).toInt = count - page.offset.toInt := by
      rw [Int64.toInt_sub, isCount]
      exact Int.bmod_eq_of_le (by omega) (by omega)
    have full : (page.limit + 1).toInt = page.limit.toInt + 1 := by
      rw [Int64.toInt_add]
      exact Int.bmod_eq_of_le (by simp; omega) (by simp; omega)
    simp only [AddressPage.next, isCount, Int64.lt_iff_toInt_lt, behind, full]
    by_cases last : count ≤ page.offset.toInt + page.limit.toInt
    · rw [if_pos last, if_pos (by omega : (count : Int) - page.offset.toInt < page.limit.toInt + 1),
        ite_self]
    · rw [if_neg last, if_pos (by omega), if_neg (by omega)]
  · have last : count ≤ page.offset.toInt + page.limit.toInt := by omega
    rw [AddressPage.next, isShort, if_neg (lt_irrefl _), if_pos last]

/-- A page that a visitor asks for without meeting a failure shows its rows, and the link to the
next page as long as there are rows behind it. -/
theorem addressPage_own (listed : Listed address pgb.addresses all) (counted : Counted address pgb)
    (bestHeight : UInt64) {n start : Text} (shows : Shows all n start) :
    ∃ page after, addressPage ⟨address, n, start, .ok bestHeight, noFaults, none⟩ pgb =
        (some page, after) ∧
      page.addrData.transactions =
        ((all.drop (pageOffset start).toInt.toNat).take (pageLimit n).toInt.toNat).flatMap
          transactionsOf ∧
      page.next = if all.length ≤ (pageOffset start).toInt + (pageLimit n).toInt then none
        else some (formatInt (pageLimit n), formatInt (pageOffset start + pageLimit n)) := by
  have low := pageOffset_nonneg start
  have most := (pageLimit_bounds n).2
  obtain ⟨positive, inside⟩ := shows
  have length : ((((all.drop (pageOffset start).toInt.toNat).take
      (pageLimit n).toInt.toNat).length : Nat) : Int) =
        min (pageLimit n).toInt (all.length - (pageOffset start).toInt) := by
    rw [List.length_take, List.length_drop]
    omega
  have nonempty : (all.drop (pageOffset start).toInt.toNat).take (pageLimit n).toInt.toNat ≠ [] := by
    refine List.ne_nil_of_length_pos ?_
    omega
  obtain ⟨balance, after, isHistory, known⟩ :=
    addressHistory_own listed counted bestHeight nonempty
  obtain ⟨addrInfo, reduced, funding, transactions⟩ := reduce_page listed.scanned nonempty
  have fits := listed.fits
  have inRange : (Int64.ofInt (balance.numSpent + balance.numUnspent)).toInt =
      balance.numSpent + balance.numUnspent :=
    Int64.toInt_ofInt_of_le (by omega) (by omega)
  refine ⟨⟨addrInfo, pageLimit n, pageOffset start,
    Int64.ofInt (balance.numSpent + balance.numUnspent), balance⟩, after, ?_, transactions, ?_⟩
  · simp only [addressPage, isHistory, reduced]
  · refine next_eq fits low inside positive most (funding.trans length) ?_
    rw [inRange, funding]
    exact known

end Page

section Walk

variable {address : String} {all : List AddressRow}

/-- A page that has rows behind it is full, so the visitor's own request is no harm. -/
theorem own_harmless {table : AddressesTable} (listed : Listed address table all) (round : Round)
    {n start : Text} (more : ¬(all.length : Int) ≤ (pageOffset start).toInt + (pageLimit n).toInt) :
    Harmless address table (round.request address (n, start)) := by
  intro _
  have count := listed.length_eq
  show _ ∨ _ ∨ (pageOffset start).toInt + (pageLimit n).toInt ≤ (rowsOf address table).length
  omega

/-- The page behind a link is the page behind the one that shows the link. -/
theorem linked_page {n start : Text} (fits : all.length < 9223372036854775808)
    (more : ¬(all.length : Int) ≤ (pageOffset start).toInt + (pageLimit n).toInt) :
    pageLimit (formatInt (pageLimit n)) = pageLimit n ∧
      (pageOffset (formatInt (pageOffset start + pageLimit n))).toInt =
        (pageOffset start).toInt + (pageLimit n).toInt := by
  have low := pageOffset_nonneg start
  obtain ⟨notNegative, most⟩ := pageLimit_bounds n
  have zero : (0 : Int64).toInt = 0 := by decide
  have maximum : maxAddressRows.toInt = 1000 := by decide
  have sum : (pageOffset start + pageLimit n).toInt =
      (pageOffset start).toInt + (pageLimit n).toInt := by
    rw [Int64.toInt_add]
    exact Int.bmod_eq_of_le (by omega) (by omega)
  constructor
  · rw [pageLimit, parseInt_formatInt]
    simp only [Int64.lt_iff_toInt_lt, zero, maximum]
    rw [if_neg (by omega), if_neg (by omega)]
  · rw [pageOffset, parseInt_formatInt]
    simp only [Int64.lt_iff_toInt_lt, zero, sum]
    rw [if_neg (by omega), sum]

/-- From the beginning of a page that reaches the last row, one page takes the same rows as any
greater number of pages, which reach the last row as well. -/
theorem take_last_page {start limit : Int} (rounds : Nat) (low : 0 ≤ start) (notNegative : 0 ≤ limit)
    (last : (all.length : Int) ≤ start + limit) :
    (all.drop start.toNat).take limit.toNat = (all.drop start.toNat).take ((rounds + 1) * limit.toNat) ∧
      (all.length : Int) ≤ start + ((rounds + 1 : Nat) : Int) * limit := by
  have inPage : (all.drop start.toNat).length ≤ limit.toNat := by
    rw [List.length_drop]
    omega
  have inAll : (all.drop start.toNat).length ≤ (rounds + 1) * limit.toNat :=
    inPage.trans (Nat.le_mul_of_pos_left _ (Nat.succ_pos _))
  have least : limit ≤ (rounds + 1) * limit := le_mul_of_one_le_left notNegative (by omega)
  refine ⟨by rw [List.take_of_length_le inPage, List.take_of_length_le inAll], ?_⟩
  push_cast
  omega

/-- Without a link the visitor sees no more pages. -/
theorem walk_none (rounds : List Round) (pgb : ChainDB) : walk address rounds none pgb = ([], none) := by
  cases rounds <;> rfl

end Walk

section Sample

open Hcpg.AddressHistory (sampleRow)

/-- Three outputs paid to one address, and an empty cache. -/
def threeOutputs : ChainDB :=
  ⟨((KeyedTable.empty.insertOrReplace (sampleRow 1 5 none)).insertOrReplace
    (sampleRow 2 7 (some 9))).insertOrReplace (sampleRow 3 2 none), ⟨8, fun _ => none⟩⟩

/-- Another visitor asks for the page of two rows behind so many others. -/
def otherRequest (start : Text) : Request :=
  ⟨"Hs", ['2'], start, .ok 8, noFaults, none⟩

/-- Two pages of two rows, with another visitor on the first page and a new block in between. -/
def twoRounds : List Round := [⟨[otherRequest ['0']], 8⟩, ⟨[], 9⟩]

/-- The second page, asked for by another visitor while nothing is cached, leaves the balance of
its one row, and the first page then has no link to the third row. -/
example : (walk "Hs" [⟨[otherRequest ['2']], 8⟩] (some (['2'], ['0'])) threeOutputs).2 = none := by
  decide +kernel

end Sample

end Hcexplorer.AddressPages

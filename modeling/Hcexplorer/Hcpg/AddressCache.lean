import Hcexplorer.Hcpg.StoreSteps
import Hcexplorer.Sample
import Mathlib.Algebra.BigOperators.Group.Multiset.Basic

/-!
# The cache of address balances

`AddressHistory` keeps the balances that it computes, for one height. It reads the
greatest stored height, takes the lock of the cache, and empties the cache when that
was filled for another height; then it lists the rows of the address, and computes the
balance from them, or from two counts in the database when the rows may not be all.
`StoreBlock` empties the cache at its end, but not when it returns an error.

The law is about any interleaving of the statements of these calls. The states that the
addresses table has passed are remembered in a history, and a balance must be that of
a state no older than the last return of `StoreBlock` before the call began. It is, as
long as no `StoreBlock` returns an error after it changed address rows but before it
stored a new height, the rows of an address do not change between the two counts, and
no listing breaks off.

The two queries for the rows, one of them for the address of the developers, list the
same and are one here. The transactions that `ReduceAddressHistory` lists besides are
left out.
-/

namespace Hcexplorer.Hcpg.AddressCache

open Interactive Runs

/-- The addresses table, as the multiset of its rows with their ids. -/
abbrev AddressTable := Multiset (Stored AddressRow)

/-- `explorer.AddressBalance`: how many outputs of an address are spent and unspent, and what
they come to. -/
structure AddressBalance where
  address : String
  numSpent : Int
  numUnspent : Int
  totalSpent : Int64
  totalUnspent : Int64
deriving DecidableEq, Repr

section Balances

/-- The rows of the table for an address, without their ids. -/
def rowsOf (address : String) (table : AddressTable) : Multiset AddressRow :=
  (table.map Stored.row).filter fun row => row.address = address

/-- The number of the rows and the sum of their values. -/
def countAndValue (rows : Multiset AddressRow) : Int × Int :=
  (rows.card, (rows.map fun row => (row.value.toNat : Int)).sum)

/-- `SelectAddressUnspentCountAndValue`, the number and the sum of the rows without a spending
input. -/
def unspentCountAndValue (address : String) (table : AddressTable) : Int × Int :=
  countAndValue ((rowsOf address table).filter fun row => row.spending = none)

/-- `SelectAddressSpentCountAndValue`, the number and the sum of the rows with a spending input. -/
def spentCountAndValue (address : String) (table : AddressTable) : Int × Int :=
  countAndValue ((rowsOf address table).filter fun row => row.spending ≠ none)

/-- The balance of an address in a state of the table. -/
def balanceOf (address : String) (table : AddressTable) : AddressBalance where
  address := address
  numSpent := (spentCountAndValue address table).1
  numUnspent := (unspentCountAndValue address table).1
  totalSpent := Int64.ofInt (spentCountAndValue address table).2
  totalUnspent := Int64.ofInt (unspentCountAndValue address table).2

/-- `explorer.AddressInfo`, the counts and amounts that `ReduceAddressHistory` adds up. -/
structure AddressInfo where
  numFundingTxns : Int
  numSpendingTxns : Int
  totalReceived : Int64
  totalSent : Int64
deriving DecidableEq, Repr

/-- One pass of the loop of `ReduceAddressHistory`: every row is a funding one, and a row with a
spender is a spending one too. -/
def AddressInfo.add (info : AddressInfo) (addrOut : AddressRow) : AddressInfo :=
  let received := { info with
    numFundingTxns := info.numFundingTxns + 1
    totalReceived := info.totalReceived + addrOut.value.toInt64 }
  if addrOut.spending = none then received
  else { received with
    numSpendingTxns := info.numSpendingTxns + 1
    totalSent := info.totalSent + addrOut.value.toInt64 }

/-- `ReduceAddressHistory`, the totals over the rows, and none for no rows. -/
def reduceAddressHistory (addrHist : List AddressRow) : Option AddressInfo :=
  if addrHist = [] then none else some (addrHist.foldl AddressInfo.add ⟨0, 0, 0, 0⟩)

/-- The balance from what the rows were reduced to. `Unspent` is what was received less
what was sent. -/
def AddressInfo.balance (address : String) (addrInfo : AddressInfo) : AddressBalance where
  address := address
  numSpent := addrInfo.numSpendingTxns
  numUnspent := addrInfo.numFundingTxns - addrInfo.numSpendingTxns
  totalSpent := addrInfo.totalSent
  totalUnspent := addrInfo.totalReceived - addrInfo.totalSent

end Balances

/-- Where a call of `AddressHistory` is: before the query for the height, the lock, the
query for the rows with the cached balance if it is fresh, and then the statements of
`RetrieveAddressSpentUnspent`, or returned with rows, balance and error. The position
in the history where the unspent rows were counted is not part of the program. -/
inductive HistoryPhase where
  | heightDB
  | lock (bestBlock : Int)
  | rows (fresh : Option AddressBalance)
  | begin (addressRows : List AddressRow)
  | unspent (addressRows : List AddressRow)
  | spent (addressRows : List AddressRow) (unspent : Int × Int) (countedAt : Nat)
  | rollback (addressRows : List AddressRow) (balanceInfo : AddressBalance)
  | returned (addressRows : List AddressRow) (balance : Option AddressBalance) (err : Option String)

/-- A call of `AddressHistory` at offset 0. `since` is the position in the history of the
state that the table had when `StoreBlock` returned last before the call. -/
structure History where
  address : String
  limit : Int
  since : Nat
  phase : HistoryPhase

/-- The process: the database with the height of the cache, the cached balances, the
call that holds the lock, the running call of `StoreBlock`, the calls of
`AddressHistory`, and the history: the states that the addresses table has passed, the
position of the one at the last return of `StoreBlock`, and the count of stored heights
and the position when the running call began. -/
structure Process where
  pgb : ChainDB
  balance : String → Option AddressBalance
  holder : Option Nat
  storing : Option (BlockCall × StorePhase)
  calls : List History
  states : List AddressTable
  returnedAt : Nat
  begunAt : Nat
  countBefore : Nat

namespace Process

/-- The addresses table of the process, as it is now. -/
def table (process : Process) : AddressTable := process.pgb.db.tx.tables.addresses

/-- A process that was opened over existing tables, with an empty cache and no call under way. -/
def opened (db : ChainTables) : Process where
  pgb := newChainDB db
  balance _ := none
  holder := none
  storing := none
  calls := []
  states := [db.tx.tables.addresses]
  returnedAt := 0
  begunAt := 0
  countBefore := db.count

/-- A call of `AddressHistory` goes on to its next phase. -/
def goOn (index : Nat) (call : History) (phase : HistoryPhase) (process : Process) : Process :=
  { process with calls := process.calls.set index { call with phase := phase } }

/-- A call that holds the lock returns its results and frees the lock. -/
def finish (index : Nat) (call : History) (addressRows : List AddressRow)
    (balance : Option AddressBalance) (err : Option String) (process : Process) : Process :=
  { process.goOn index call (.returned addressRows balance err) with holder := none }

/-- A call that holds the lock caches a balance and returns it. -/
def cache (index : Nat) (call : History) (addressRows : List AddressRow)
    (balanceInfo : AddressBalance) (process : Process) : Process :=
  { process.finish index call addressRows (some balanceInfo) none with
    balance := fun address =>
      if address = call.address then some balanceInfo else process.balance address }

/-- The rows are there. A balance that is not fresh is computed from them when they are
fewer than the limit. -/
def listed (index : Nat) (call : History) (fresh : Option AddressBalance)
    (addressRows : List AddressRow) (process : Process) : Process :=
  match fresh, reduceAddressHistory addressRows with
  | some balanceInfo, _ => process.finish index call addressRows (some balanceInfo) none
  | none, none => process.finish index call addressRows none (some "ReduceAddressHistory failed")
  | none, some addrInfo =>
    if addrInfo.numFundingTxns < call.limit then
      process.cache index call addressRows (addrInfo.balance call.address)
    else process.goOn index call (.begin addressRows)

end Process

/-- The answer to a statement of `AddressHistory`: an error of the driver, and for the
query of the rows all rows of the address in some order and, if the connection is lost
while they are read, the number of those that were read. -/
structure Answer where
  fault : Option String
  listing : List (Stored AddressRow)
  readUntil : Option Nat

/-- The answer has all rows of the address, the newest first, as the query asks for them before
its limit. -/
def Answer.Lists (answer : Answer) (address : String) (table : AddressTable) : Prop :=
  (answer.listing : AddressTable) = table.filter (fun stored => stored.row.address = address) ∧
    answer.listing.Pairwise fun newer older => older.id ≤ newer.id

instance (answer : Answer) (address : String) (table : AddressTable) :
    Decidable (answer.Lists address table) :=
  inferInstanceAs (Decidable (_ ∧ _))

/-- The rows that are read: a loss of the connection ends the loop without an error. -/
def Answer.rows (answer : Answer) (limit : Int) : List AddressRow :=
  let limited := (answer.listing.take limit.toNat).map Stored.row
  match answer.readUntil with
  | none => limited
  | some count => limited.take count

/-- The next statement of a call of `AddressHistory`. A sum that does not fit is an error
of the scan. -/
def Process.history (index : Nat) (call : History) (answer : Answer) (process : Process) :
    Option Process :=
  match call.phase, answer.fault with
  | .heightDB, some err => some (process.goOn index call (.returned [] none (some err)))
  | .heightDB, none =>
    match process.pgb.db.heightDB with
    | none => some (process.goOn index call (.returned [] none (some "sql: no rows in result set")))
    | some height => some (process.goOn index call (.lock height))
  | .lock bestBlock, _ =>
    if process.holder ≠ none then none
    else if process.pgb.validHeight = bestBlock then
      some { process.goOn index call (.rows (process.balance call.address)) with holder := some index }
    else
      some { process.goOn index call (.rows none) with
        holder := some index
        balance := fun _ => none
        pgb := { process.pgb with validHeight := bestBlock } }
  | .rows fresh, some err =>
    some (process.finish index call [] (fresh.getD ⟨"", 0, 0, 0, 0⟩) (some err))
  | .rows fresh, none =>
    if call.limit < 0 then
      some (process.finish index call [] (fresh.getD ⟨"", 0, 0, 0, 0⟩)
        (some "pq: LIMIT must not be negative"))
    else if answer.Lists call.address process.table then
      some (process.listed index call fresh (answer.rows call.limit))
    else none
  | .begin _, some err =>
    some (process.finish index call [] none
      (some ("unable to begin database transaction: " ++ err)))
  | .begin addressRows, none => some (process.goOn index call (.unspent addressRows))
  | .unspent _, some err =>
    some (process.finish index call [] none (some ("unable to QueryRow for unspent amount: " ++ err)))
  | .unspent addressRows, none =>
    let unspent := unspentCountAndValue call.address process.table
    if unspent.2 < 2 ^ 63 then
      some (process.goOn index call (.spent addressRows unspent (process.states.length - 1)))
    else some (process.finish index call [] none
      (some "unable to QueryRow for unspent amount: value out of range"))
  | .spent _ _ _, some err =>
    some (process.finish index call [] none (some ("unable to QueryRow for spent amount: " ++ err)))
  | .spent addressRows unspent _, none =>
    let spent := spentCountAndValue call.address process.table
    if spent.2 < 2 ^ 63 then
      some (process.goOn index call (.rollback addressRows
        ⟨call.address, spent.1, unspent.1, Int64.ofInt spent.2, Int64.ofInt unspent.2⟩))
    else some (process.finish index call [] none
      (some "unable to QueryRow for spent amount: value out of range"))
  | .rollback _ _, some err => some (process.finish index call [] none (some err))
  | .rollback addressRows balanceInfo, none =>
    some (process.cache index call addressRows balanceInfo)
  | .returned _ _ _, _ => none

/-- The next step of `StoreBlock`. The last one but the return takes the lock and empties
the cache. A new state of the addresses table joins the history. -/
def Process.turn (hcd : Hcd) (call : BlockCall) (phase : StorePhase) (regular : Bool)
    (process : Process) : Option Process :=
  if phase.clears = true ∧ process.holder ≠ none then none
  else (call.step hcd regular process.pgb phase).map fun (next, pgb) =>
    { process with
      pgb := pgb
      storing := some (call, next)
      balance := if phase.clears then fun _ => none else process.balance
      states := if pgb.db.tx.tables.addresses = process.table then process.states
        else process.states ++ [pgb.db.tx.tables.addresses] }

/-- What happens: `StoreBlock` is called, one call after another, takes a step or
returns, and `AddressHistory` is called or takes a step. -/
inductive Event where
  | storeBlock (call : BlockCall)
  | turn (regular : Bool)
  | returnBlock
  | addressHistory (address : String) (limit : Int)
  | history (index : Nat) (answer : Answer)

/-- One event of the process: a call begins, goes on or returns, or a block is being stored. -/
def step (hcd : Hcd) (process : Process) : Event → Option Process
  | .storeBlock call =>
    match process.storing with
    | none => some { process with
        storing := some (call, call.begin hcd process.pgb)
        begunAt := process.states.length - 1
        countBefore := process.pgb.db.count }
    | some _ => none
  | .turn regular => process.storing.bind fun (call, phase) => process.turn hcd call phase regular
  | .returnBlock =>
    match process.storing with
    | some (_, .returning _) => some { process with
        storing := none
        returnedAt := process.states.length - 1 }
    | _ => none
  | .addressHistory address limit =>
    some { process with
      calls := process.calls ++ [⟨address, limit, process.returnedAt, .heightDB⟩] }
  | .history index answer =>
    process.calls[index]?.bind fun call => process.history index call answer

/-- The balance is that of a state of the table, from a position of the history on. -/
def Fresh (states : List AddressTable) (since : Nat) (address : String) (balance : AddressBalance) :
    Prop :=
  ∃ table ∈ states.drop since, balance = balanceOf address table

/-- The balance that a call has returned without an error. -/
def History.served (call : History) : Option AddressBalance :=
  match call.phase with
  | .returned _ balance none => balance
  | _ => none

/-- Every balance that was returned without an error is fresh. -/
def Process.ServesFresh (process : Process) : Prop :=
  ∀ call ∈ process.calls, ∀ balance ∈ call.served,
    Fresh process.states call.since call.address balance

instance (process : Process) : Decidable process.ServesFresh :=
  inferInstanceAs (Decidable (∀ call ∈ process.calls, ∀ balance ∈ call.served,
    ∃ table ∈ process.states.drop call.since, balance = balanceOf call.address table))

/-- The listing does not break off, and the rows of the address are the same when the
spent ones are counted as when the unspent ones were. -/
def History.Steady (answer : Answer) (process : Process) (call : History) : Prop :=
  match call.phase with
  | .rows _ => answer.readUntil = none
  | .spent _ _ countedAt =>
    process.states[countedAt]?.map (rowsOf call.address) = some (rowsOf call.address process.table)
  | _ => True

/-- A call of `StoreBlock` that returns an error has changed no address row, or stored a
height above those before. -/
def Process.Settles (process : Process) : Option (BlockCall × StorePhase) → Prop
  | some (_, .returning (.error _)) =>
    process.states.length = process.begunAt + 1 ∨ process.countBefore < process.pgb.db.count
  | _ => True

/-- The condition on the returns of `StoreBlock` and on the calls of `AddressHistory`. -/
def Steady (process : Process) : Event → Prop
  | .returnBlock => process.Settles process.storing
  | .history index answer => ∀ call ∈ process.calls[index]?, call.Steady answer process
  | _ => True

section Arithmetic

/-- A value as the loop adds it up is the stored value, in the arithmetic of 64 bits. -/
theorem toInt64_value (row : AddressRow) : row.value.toInt64 = Int64.ofInt row.value.toNat := by
  apply Int64.toBitVec_inj.mp
  simp

/-- No rows count nothing and come to nothing. -/
@[simp] theorem countAndValue_zero : countAndValue 0 = (0, 0) := rfl

/-- One more row adds one to the count and its value to the sum. -/
@[simp] theorem countAndValue_cons (row : AddressRow) (rows : Multiset AddressRow) :
    countAndValue (row ::ₘ rows) =
      ((countAndValue rows).1 + 1, row.value.toNat + (countAndValue rows).2) := by
  simp [countAndValue]

/-- The rows of one kind and those of the other are all rows. -/
theorem countAndValue_filter (rows : Multiset AddressRow) :
    countAndValue (rows.filter fun row => row.spending = none) =
      ((countAndValue rows).1 - (countAndValue (rows.filter fun row => row.spending ≠ none)).1,
        (countAndValue rows).2 - (countAndValue (rows.filter fun row => row.spending ≠ none)).2) := by
  induction rows using Multiset.induction_on with
  | empty => rfl
  | cons row rows inductionHypothesis =>
    by_cases unspent : row.spending = none
    · rw [Multiset.filter_cons_of_pos rows unspent, Multiset.filter_cons_of_neg rows (not_not.mpr unspent),
        countAndValue_cons, countAndValue_cons, inductionHypothesis, Prod.mk.injEq]
      constructor
      · dsimp only
        omega
      · dsimp only
        omega
    · rw [Multiset.filter_cons_of_neg rows unspent, Multiset.filter_cons_of_pos rows unspent,
        countAndValue_cons, countAndValue_cons, inductionHypothesis, Prod.mk.injEq]
      constructor
      · dsimp only
        omega
      · dsimp only
        omega

/-- What the loop adds up are the count and the sum of all rows, and of those with a spender. -/
theorem foldl_add (rows : List AddressRow) (info : AddressInfo) :
    let all := countAndValue rows
    let spent := countAndValue ((rows : Multiset AddressRow).filter fun row => row.spending ≠ none)
    rows.foldl AddressInfo.add info =
      ⟨info.numFundingTxns + all.1, info.numSpendingTxns + spent.1,
        info.totalReceived + Int64.ofInt all.2, info.totalSent + Int64.ofInt spent.2⟩ := by
  induction rows generalizing info with
  | nil => simp
  | cons row rest inductionHypothesis =>
    intro all spent
    have isAll : all = countAndValue (row ::ₘ (rest : Multiset AddressRow)) := rfl
    have isSpent : spent = countAndValue
        ((row ::ₘ (rest : Multiset AddressRow)).filter fun row => row.spending ≠ none) := rfl
    rw [List.foldl_cons, inductionHypothesis]
    by_cases unspent : row.spending = none
    · rw [Multiset.filter_cons_of_neg (rest : Multiset AddressRow) (not_not.mpr unspent)] at isSpent
      rw [isAll, isSpent, countAndValue_cons, Int64.ofInt_add, ← toInt64_value]
      simp only [AddressInfo.add, if_pos unspent, AddressInfo.mk.injEq, true_and, and_true]
      exact ⟨by omega, Int64.add_assoc _ _ _⟩
    · rw [Multiset.filter_cons_of_pos (rest : Multiset AddressRow) unspent, countAndValue_cons] at isSpent
      rw [isAll, isSpent, countAndValue_cons, Int64.ofInt_add, Int64.ofInt_add, ← toInt64_value]
      simp only [AddressInfo.add, if_neg unspent, AddressInfo.mk.injEq]
      exact ⟨by omega, by omega, Int64.add_assoc _ _ _, Int64.add_assoc _ _ _⟩

/-- The balance from all rows of an address is its balance. -/
theorem balance_of_all {address : String} {table : AddressTable} {rows : List AddressRow}
    (isAll : (rows : Multiset AddressRow) = rowsOf address table) {info : AddressInfo}
    (reduced : reduceAddressHistory rows = some info) :
    info.balance address = balanceOf address table := by
  have isInfo : info = rows.foldl AddressInfo.add ⟨0, 0, 0, 0⟩ := by
    unfold reduceAddressHistory at reduced
    split at reduced
    · cases reduced
    · exact (Option.some.inj reduced).symm
  have unspent := countAndValue_filter (rowsOf address table)
  rw [isInfo, foldl_add, isAll]
  simp only [AddressInfo.balance, balanceOf, spentCountAndValue, unspentCountAndValue, unspent,
    zero_add, Int64.zero_add, Int64.ofInt_sub]

end Arithmetic

section Invariant

/-- The phases in which a call holds the lock. -/
def HistoryPhase.locked : HistoryPhase → Bool
  | .heightDB | .lock _ | .returned _ _ _ => false
  | _ => true

/-- What is known of a call, when all that is cached is of a state from a position on: a
height that it has read is stored, and if it is that of the cache, the cached balances
are fresh for the call; a balance that it carries is fresh. -/
def PhaseKept (cleared : Nat) (process : Process) (call : History) : Prop :=
  match call.phase with
  | .lock bestBlock => ∃ height : Nat, bestBlock = height ∧ height < process.pgb.db.count ∧
      (process.pgb.validHeight = height → call.since ≤ cleared)
  | .rows fresh => ∀ balance, fresh = some balance →
      Fresh process.states call.since call.address balance
  | .spent _ unspent countedAt => ∃ table, process.states[countedAt]? = some table ∧
      unspent = unspentCountAndValue call.address table
  | .rollback _ balance => Fresh process.states cleared call.address balance ∧
      Fresh process.states call.since call.address balance
  | .returned _ (some balance) none => Fresh process.states call.since call.address balance
  | _ => True

/-- What is known of a call, with its place among the others. -/
structure Kept (cleared : Nat) (process : Process) (index : Nat) (call : History) : Prop where
  since_le : call.since ≤ process.returnedAt
  locked : call.phase.locked = true → process.holder = some index ∧ 0 < process.pgb.db.count
  phase : PhaseKept cleared process call

/-- If the running call of `StoreBlock` has stored a new height and that is the height of
the cache, what is cached is of the present state of the table. -/
def Raised (cleared : Nat) (process : Process) : Prop :=
  process.countBefore < process.pgb.db.count →
    process.pgb.validHeight + 1 = process.pgb.db.count → process.states.length ≤ cleared + 1

/-- What is known of the running call of `StoreBlock`. -/
def StorePhaseKept (cleared : Nat) (process : Process) (call : BlockCall) : StorePhase → Prop
  | .trees _ => process.pgb.db.count = process.countBefore
  | .insertBlock dbBlock _ => process.pgb.db.count = process.countBefore ∧
      dbBlock.height = call.msgBlock.header.height
  | .returning (.ok _) => process.states.length ≤ cleared + 1
  | .returning (.error _) => Raised cleared process
  | _ => call.msgBlock.header.height.toNat < process.pgb.db.count ∧ Raised cleared process

/-- The invariant: every cached balance is of a state from the position `cleared` on, and
that is no older than the last return of `StoreBlock` when the height of the cache is the
greatest stored one. -/
structure Holds (cleared : Nat) (process : Process) : Prop where
  current : process.states[process.states.length - 1]? = some process.table
  returned_lt : process.returnedAt < process.states.length
  cleared_lt : cleared < process.states.length
  settled : process.storing = none → process.returnedAt + 1 = process.states.length
  entries : ∀ address balance, process.balance address = some balance →
    Fresh process.states cleared address balance
  valid : 0 < process.pgb.db.count ∧ process.pgb.validHeight < process.pgb.db.count ∨
    process.pgb.db.count = 0 ∧ process.pgb.validHeight = 0 ∧
      ∀ address, process.balance address = none
  fresh : process.pgb.validHeight + 1 = process.pgb.db.count → process.returnedAt ≤ cleared
  calls : ∀ index call, process.calls[index]? = some call → Kept cleared process index call
  begun : process.storing ≠ none → process.begunAt = process.returnedAt
  storing : ∀ call phase, process.storing = some (call, phase) →
    StorePhaseKept cleared process call phase

/-- The invariant of the process: it holds for some position at which the cache was last cleared. -/
def Invariant (process : Process) : Prop := ∃ cleared, Holds cleared process

/-- A balance stays fresh for a call that began earlier. -/
theorem Fresh.mono {states : List AddressTable} {since before : Nat} {address : String}
    {balance : AddressBalance} (fresh : Fresh states since address balance) (least : before ≤ since) :
    Fresh states before address balance := by
  obtain ⟨table, member, isBalance⟩ := fresh
  exact ⟨table, (List.drop_sublist_drop_left states least).subset member, isBalance⟩

/-- A balance stays fresh when the history grows, since the moment when it was right is still
there. -/
theorem Fresh.append {states : List AddressTable} {since : Nat} {address : String}
    {balance : AddressBalance} (fresh : Fresh states since address balance) (more : List AddressTable) :
    Fresh (states ++ more) since address balance := by
  obtain ⟨table, member, isBalance⟩ := fresh
  refine ⟨table, ?_, isBalance⟩
  rw [List.drop_append]
  exact List.mem_append_left _ member

variable {cleared : Nat} {process : Process}

/-- A balance of the present state is fresh from any position on. -/
theorem Holds.fresh_now (holds : Holds cleared process) {since : Nat}
    (past : since < process.states.length) (address : String) :
    Fresh process.states since address (balanceOf address process.table) := by
  refine ⟨process.table, ?_, rfl⟩
  have found : (process.states.drop since)[process.states.length - 1 - since]? = some process.table := by
    rw [List.getElem?_drop, Nat.add_sub_of_le (by omega)]
    exact holds.current
  exact List.mem_of_getElem? found

/-- What is known of a call is kept by what others do: the history and the stored heights
grow, and the cache is emptied or filled for another height only when the call does not
hold the lock. -/
theorem PhaseKept.transport {cleared later : Nat} {process next : Process} {call : History}
    (kept : PhaseKept cleared process call) {more : List AddressTable}
    (states : next.states = process.states ++ more)
    (counted : process.pgb.db.count ≤ next.pgb.db.count)
    (cached : ∀ height : Nat, (process.pgb.validHeight = height → call.since ≤ cleared) →
      next.pgb.validHeight = height → call.since ≤ later)
    (locked : call.phase.locked = true → later = cleared) : PhaseKept later next call := by
  obtain ⟨address, limit, since, phase⟩ := call
  cases phase with
  | heightDB | begin | unspent => trivial
  | lock bestBlock =>
    obtain ⟨height, isHeight, stored, same⟩ := kept
    exact ⟨height, isHeight, by omega, cached height same⟩
  | rows fresh =>
    intro balance isFresh
    rw [states]
    exact (kept balance isFresh).append more
  | spent addressRows unspent countedAt =>
    obtain ⟨table, isState, isUnspent⟩ := kept
    refine ⟨table, ?_, isUnspent⟩
    rw [states, List.getElem?_append_left (List.getElem?_eq_some_iff.mp isState).1]
    exact isState
  | rollback addressRows balance =>
    obtain rfl := locked rfl
    obtain ⟨forCache, forCall⟩ := kept
    refine ⟨?_, ?_⟩
    · rw [states]
      exact forCache.append more
    · rw [states]
      exact forCall.append more
  | returned addressRows balance err =>
    cases balance with
    | none => trivial
    | some balance =>
      cases err with
      | some err => trivial
      | none =>
        show Fresh next.states since address balance
        rw [states]
        exact Fresh.append kept more

end Invariant

section Steps

variable {hcd : Hcd} {cleared : Nat} {process next : Process}

/-- The cache may be emptied, and filled for a stored height from then on, while nobody
holds its lock. -/
theorem Holds.emptied (holds : Holds cleared process) (free : process.holder = none)
    {height : Nat} (stored : height < process.pgb.db.count) :
    Holds (process.states.length - 1) { process with
      balance := fun _ => none
      pgb := { process.pgb with validHeight := height } } := by
  have returned := holds.returned_lt
  have room : process.states.length ≤ process.states.length - 1 + 1 := by omega
  refine ⟨holds.current, holds.returned_lt, ?_, holds.settled, ?_, Or.inl ⟨?_, ?_⟩, ?_, ?_,
    holds.begun, ?_⟩
  · show process.states.length - 1 < process.states.length
    omega
  · intro address balance isCached
    cases isCached
  · exact Nat.lt_of_le_of_lt (Nat.zero_le _) stored
  · show (height : Int) < process.pgb.db.count
    omega
  · intro _
    show process.returnedAt ≤ process.states.length - 1
    omega
  · intro index call isCall
    obtain ⟨since_le, locked, phase⟩ := holds.calls index call isCall
    refine ⟨since_le, locked, phase.transport (List.append_nil _).symm (Nat.le_refl _) ?_ ?_⟩
    · intro height _ _
      omega
    · intro isLocked
      rw [free] at locked
      cases (locked isLocked).1
  · intro call phase isCall
    have kept := holds.storing call phase isCall
    cases phase with
    | trees | insertBlock => exact kept
    | setBestBlock | insertBlockPrevNext | updateLastBlock | updateBlockNext | clear =>
      exact ⟨kept.1, fun _ _ => room⟩
    | returning result =>
      cases result with
      | ok counts => exact room
      | error err => exact fun _ _ => room

/-- A call goes on, and may take or give back the lock and fill the cache. -/
theorem Holds.setCall (holds : Holds cleared process) {index : Nat} {call : History}
    (isCall : process.calls[index]? = some call) {phase : HistoryPhase} {holder : Option Nat}
    {balance : String → Option AddressBalance}
    (alone : holder = process.holder ∨ process.holder = none ∨ process.holder = some index)
    (entries : ∀ address cached, balance address = some cached →
      Fresh process.states cleared address cached)
    (empty : process.pgb.db.count = 0 → balance = process.balance)
    (locked : phase.locked = true → holder = some index ∧ 0 < process.pgb.db.count)
    (kept : PhaseKept cleared process { call with phase := phase }) :
    Holds cleared { process with
      calls := process.calls.set index { call with phase := phase }
      holder := holder
      balance := balance } := by
  refine ⟨holds.current, holds.returned_lt, holds.cleared_lt, holds.settled, entries, ?_, holds.fresh,
    ?_, holds.begun, holds.storing⟩
  · rcases holds.valid with below | ⟨noBlock, isZero, nothing⟩
    · exact Or.inl below
    · exact Or.inr ⟨noBlock, isZero, fun address => by rw [empty noBlock]; exact nothing address⟩
  · intro other each isEach
    by_cases same : other = index
    · obtain rfl := same
      have inside := (List.getElem?_eq_some_iff.mp isCall).1
      rw [List.getElem?_set_self inside] at isEach
      obtain rfl := Option.some.inj isEach
      exact ⟨(holds.calls other call isCall).since_le, locked, kept⟩
    · rw [List.getElem?_set_ne (Ne.symm same)] at isEach
      obtain ⟨since_le, ownLock, phase⟩ := holds.calls other each isEach
      refine ⟨since_le, fun isLocked => ?_, phase⟩
      obtain ⟨holds_, counted⟩ := ownLock isLocked
      refine ⟨?_, counted⟩
      rcases alone with unchanged | free | own
      · exact unchanged.trans holds_
      · rw [free] at holds_
        cases holds_
      · rw [own] at holds_
        exact absurd (Option.some.inj holds_).symm same

/-- A call goes on with the lock as it is. -/
theorem Holds.goOn (holds : Holds cleared process) {index : Nat} {call : History}
    (isCall : process.calls[index]? = some call) {phase : HistoryPhase}
    (locked : phase.locked = true → process.holder = some index ∧ 0 < process.pgb.db.count)
    (kept : PhaseKept cleared process { call with phase := phase }) :
    Holds cleared (process.goOn index call phase) :=
  holds.setCall isCall (Or.inl rfl) holds.entries (fun _ => rfl) locked kept

/-- A call that holds the lock returns, with a fresh balance if it returns one. -/
theorem Holds.finish (holds : Holds cleared process) {index : Nat} {call : History}
    (isCall : process.calls[index]? = some call) (own : process.holder = some index)
    {addressRows : List AddressRow} {balance : Option AddressBalance} {err : Option String}
    (kept : PhaseKept cleared process { call with phase := .returned addressRows balance err }) :
    Holds cleared (process.finish index call addressRows balance err) :=
  holds.setCall isCall (Or.inr (Or.inr own)) holds.entries (fun _ => rfl) (fun locked => by cases locked) kept

/-- A call that holds the lock caches a fresh balance and returns it. -/
theorem Holds.cache (holds : Holds cleared process) {index : Nat} {call : History}
    (isCall : process.calls[index]? = some call) (own : process.holder = some index)
    (counted : 0 < process.pgb.db.count) {addressRows : List AddressRow} {balance : AddressBalance}
    (forCache : Fresh process.states cleared call.address balance)
    (forCall : Fresh process.states call.since call.address balance) :
    Holds cleared (process.cache index call addressRows balance) := by
  refine holds.setCall isCall (Or.inr (Or.inr own)) ?_ ?_ (fun locked => by cases locked) forCall
  · intro address cached isCached
    by_cases same : address = call.address
    · obtain rfl := same
      rw [if_pos rfl] at isCached
      obtain rfl := Option.some.inj isCached
      exact forCache
    · rw [if_neg same] at isCached
      exact holds.entries address cached isCached
  · intro noBlock
    omega

/-- A call that takes the lock finds the cache filled for the height that it has read, or
empties it. -/
theorem Holds.lock (holds : Holds cleared process) {index : Nat} {call : History}
    (isCall : process.calls[index]? = some call) {bestBlock : Int} (isPhase : call.phase = .lock bestBlock)
    {answer : Answer} (taken : process.history index call answer = some next) : Invariant next := by
  obtain ⟨since_le, -, phase⟩ := holds.calls index call isCall
  rw [PhaseKept, isPhase] at phase
  obtain ⟨height, rfl, stored, same⟩ := phase
  have returned := holds.returned_lt
  simp only [Process.history, isPhase] at taken
  by_cases held : process.holder = none
  · rw [if_neg (not_not.mpr held)] at taken
    by_cases filled : process.pgb.validHeight = height
    · rw [if_pos filled] at taken
      obtain rfl := Option.some.inj taken
      refine ⟨cleared, holds.setCall isCall (Or.inr (Or.inl held)) holds.entries (fun _ => rfl)
        (fun _ => ⟨rfl, by omega⟩) ?_⟩
      intro balance isCached
      exact (holds.entries call.address balance isCached).mono (same filled)
    · rw [if_neg filled] at taken
      obtain rfl := Option.some.inj taken
      have emptied := holds.emptied held stored
      refine ⟨_, emptied.setCall isCall (Or.inr (Or.inl held)) emptied.entries (fun _ => rfl)
        (fun _ => ⟨rfl, Nat.lt_of_le_of_lt (Nat.zero_le _) stored⟩) ?_⟩
      intro balance isCached
      cases isCached
  · rw [if_pos held] at taken
    cases taken

/-- The rows of the query are all rows of the address when they are fewer than the limit
and the listing did not break off. -/
theorem rows_all {answer : Answer} {address : String} {table : AddressTable} {limit : Int}
    (lists : answer.Lists address table) (whole : answer.readUntil = none)
    (fewer : ((answer.rows limit).length : Int) < limit) :
    (answer.rows limit : Multiset AddressRow) = rowsOf address table := by
  have isTaken : answer.rows limit = (answer.listing.take limit.toNat).map Stored.row := by
    simp only [Answer.rows, whole]
  rw [isTaken, List.length_map, List.length_take] at fewer
  have all : answer.listing.take limit.toNat = answer.listing := List.take_of_length_le (by omega)
  rw [isTaken, all, rowsOf, ← Multiset.map_coe, lists.1, Multiset.filter_map]
  rfl

/-- The number of funding transactions is the number of the rows that were reduced. -/
theorem reduce_length {rows : List AddressRow} {info : AddressInfo}
    (reduced : reduceAddressHistory rows = some info) : info.numFundingTxns = rows.length := by
  unfold reduceAddressHistory at reduced
  split at reduced
  · cases reduced
  · obtain rfl := Option.some.inj reduced
    rw [foldl_add]
    simp [countAndValue]

/-- What follows the query for the rows keeps the invariant where all of them were read, whether
the balance was cached, is reduced from them or needs the aggregates. -/
theorem Holds.listed (holds : Holds cleared process) {index : Nat} {call : History}
    (isCall : process.calls[index]? = some call) {fresh : Option AddressBalance}
    (isPhase : call.phase = .rows fresh) {answer : Answer}
    (lists : answer.Lists call.address process.table) (whole : answer.readUntil = none) :
    Holds cleared (process.listed index call fresh (answer.rows call.limit)) := by
  obtain ⟨since_le, locked, phase⟩ := holds.calls index call isCall
  rw [isPhase] at locked
  rw [PhaseKept, isPhase] at phase
  obtain ⟨own, counted⟩ := locked rfl
  have returned := holds.returned_lt
  unfold Process.listed
  cases fresh with
  | some balanceInfo => exact holds.finish isCall own (phase balanceInfo rfl)
  | none =>
    cases reduced : reduceAddressHistory (answer.rows call.limit) with
    | none => exact holds.finish isCall own trivial
    | some addrInfo =>
      dsimp only
      by_cases fewer : addrInfo.numFundingTxns < call.limit
      · rw [if_pos fewer]
        rw [reduce_length reduced] at fewer
        rw [balance_of_all (rows_all lists whole fewer) reduced]
        exact holds.cache isCall own counted (holds.fresh_now holds.cleared_lt call.address)
          (holds.fresh_now (by omega) call.address)
      · rw [if_neg fewer]
        exact holds.goOn isCall (fun _ => ⟨own, counted⟩) trivial

/-- A query that fails ends a call that holds the lock. -/
theorem Holds.failed (holds : Holds cleared process) {index : Nat} {call : History}
    (isCall : process.calls[index]? = some call) (isLocked : call.phase.locked = true)
    {answer : Answer} {err : String} (fault : answer.fault = some err)
    (taken : process.history index call answer = some next) : Invariant next := by
  have own := ((holds.calls index call isCall).locked isLocked).1
  cases isPhase : call.phase with
  | heightDB | lock _ | returned _ _ _ =>
    rw [isPhase] at isLocked
    cases isLocked
  | rows _ | begin _ | unspent _ | spent _ _ _ | rollback _ _ =>
    simp only [Process.history, isPhase, fault] at taken
    obtain rfl := Option.some.inj taken
    exact ⟨cleared, holds.finish isCall own trivial⟩

/-- The two counts of a call whose rows are steady make up the balance. -/
theorem Holds.spent (holds : Holds cleared process) {index : Nat} {call : History}
    (isCall : process.calls[index]? = some call) {addressRows : List AddressRow} {unspent : Int × Int}
    {countedAt : Nat} (isPhase : call.phase = .spent addressRows unspent countedAt) {answer : Answer}
    (steady : call.Steady answer process) (fault : answer.fault = none)
    (taken : process.history index call answer = some next) : Invariant next := by
  obtain ⟨since_le, locked, phase⟩ := holds.calls index call isCall
  have returned := holds.returned_lt
  have own := locked (by rw [isPhase]; rfl)
  rw [PhaseKept, isPhase] at phase
  rw [History.Steady, isPhase] at steady
  simp only [Process.history, isPhase, fault] at taken
  split at taken
  · obtain rfl := Option.some.inj taken
    obtain ⟨table, isState, rfl⟩ := phase
    -- the rows that were counted first are still those of the address
    have sameRows : rowsOf call.address table = rowsOf call.address process.table := by
      simp only [isState, Option.map_some, Option.some.injEq] at steady
      exact steady
    have isBalance : (⟨call.address, (spentCountAndValue call.address process.table).1,
        (unspentCountAndValue call.address table).1,
        Int64.ofInt (spentCountAndValue call.address process.table).2,
        Int64.ofInt (unspentCountAndValue call.address table).2⟩ : AddressBalance) =
        balanceOf call.address process.table := by
      simp only [balanceOf, unspentCountAndValue, sameRows]
    have past : call.since < process.states.length := by omega
    rw [isBalance]
    exact ⟨cleared, holds.goOn isCall (fun _ => own)
      ⟨holds.fresh_now holds.cleared_lt call.address, holds.fresh_now past call.address⟩⟩
  · obtain rfl := Option.some.inj taken
    exact ⟨cleared, holds.finish isCall own.1 trivial⟩

/-- `HeightDB` is read without the lock; with a height the call goes on to list rows, and knows
whether what is cached is older than that height. -/
theorem Holds.readHeight (holds : Holds cleared process) {index : Nat} {call : History}
    (isCall : process.calls[index]? = some call) (isPhase : call.phase = .heightDB) {answer : Answer}
    (taken : process.history index call answer = some next) : Invariant next := by
  have since_le := (holds.calls index call isCall).1
  have returned := holds.returned_lt
  cases fault : answer.fault with
  | some err =>
    simp only [Process.history, isPhase, fault] at taken
    obtain rfl := Option.some.inj taken
    exact ⟨cleared, holds.goOn isCall (fun isLocked => by cases isLocked) trivial⟩
  | none =>
    simp only [Process.history, isPhase, fault] at taken
    cases isHeight : process.pgb.db.heightDB with
    | none =>
      rw [isHeight] at taken
      obtain rfl := Option.some.inj taken
      exact ⟨cleared, holds.goOn isCall (fun isLocked => by cases isLocked) trivial⟩
    | some height =>
      rw [isHeight] at taken
      obtain rfl := Option.some.inj taken
      have count : process.pgb.db.count = height + 1 := by rw [ChainTables.count, isHeight]; rfl
      have fresh := holds.fresh
      refine ⟨cleared, holds.goOn isCall (fun isLocked => by cases isLocked)
        ⟨height, rfl, by omega, fun filled => ?_⟩⟩
      show call.since ≤ cleared
      omega

/-- A step of a call of `AddressHistory` keeps the invariant, phase by phase. -/
theorem Holds.history (holds : Holds cleared process) {index : Nat} {call : History}
    (isCall : process.calls[index]? = some call) {answer : Answer}
    (steady : call.Steady answer process)
    (taken : process.history index call answer = some next) : Invariant next := by
  obtain ⟨since_le, locked, phase⟩ := holds.calls index call isCall
  have returned := holds.returned_lt
  cases isPhase : call.phase with
  | lock bestBlock => exact holds.lock isCall isPhase taken
  | heightDB => exact holds.readHeight isCall isPhase taken
  | rows fresh =>
    have isLocked : call.phase.locked = true := by rw [isPhase]; rfl
    rw [History.Steady, isPhase] at steady
    cases fault : answer.fault with
    | some err => exact holds.failed isCall isLocked fault taken
    | none =>
      simp only [Process.history, isPhase, fault] at taken
      split at taken
      · obtain rfl := Option.some.inj taken
        exact ⟨cleared, holds.finish isCall (locked isLocked).1 trivial⟩
      · split at taken
        · rename_i lists
          obtain rfl := Option.some.inj taken
          exact ⟨cleared, holds.listed isCall isPhase lists steady⟩
        · cases taken
  | begin addressRows =>
    have isLocked : call.phase.locked = true := by rw [isPhase]; rfl
    cases fault : answer.fault with
    | some err => exact holds.failed isCall isLocked fault taken
    | none =>
      simp only [Process.history, isPhase, fault] at taken
      obtain rfl := Option.some.inj taken
      exact ⟨cleared, holds.goOn isCall (fun _ => locked isLocked) trivial⟩
  | unspent addressRows =>
    have isLocked : call.phase.locked = true := by rw [isPhase]; rfl
    cases fault : answer.fault with
    | some err => exact holds.failed isCall isLocked fault taken
    | none =>
      simp only [Process.history, isPhase, fault] at taken
      split at taken
      · obtain rfl := Option.some.inj taken
        exact ⟨cleared, holds.goOn isCall (fun _ => locked isLocked)
          ⟨process.table, holds.current, rfl⟩⟩
      · obtain rfl := Option.some.inj taken
        exact ⟨cleared, holds.finish isCall (locked isLocked).1 trivial⟩
  | spent addressRows unspent countedAt =>
    cases fault : answer.fault with
    | some err => exact holds.failed isCall (by rw [isPhase]; rfl) fault taken
    | none => exact holds.spent isCall isPhase steady fault taken
  | rollback addressRows balanceInfo =>
    have isLocked : call.phase.locked = true := by rw [isPhase]; rfl
    rw [PhaseKept, isPhase] at phase
    cases fault : answer.fault with
    | some err => exact holds.failed isCall isLocked fault taken
    | none =>
      simp only [Process.history, isPhase, fault] at taken
      obtain rfl := Option.some.inj taken
      obtain ⟨own, counted⟩ := locked isLocked
      exact ⟨cleared, holds.cache isCall own counted phase.1 phase.2⟩
  | returned addressRows balance err =>
    simp only [Process.history, isPhase] at taken
    cases taken

/-- A step of `StoreBlock` that leaves the cache as it is: the table may pass to another
state, and a higher block may be stored. -/
theorem Holds.moved (holds : Holds cleared process) {call : BlockCall} {phase after : StorePhase}
    {pgb : ChainDB} {states : List AddressTable} (isCall : process.storing = some (call, phase))
    (same : pgb.validHeight = process.pgb.validHeight)
    (counted : process.pgb.db.count ≤ pgb.db.count)
    (valid : 0 < pgb.db.count ∧ pgb.validHeight < pgb.db.count ∨ pgb.db.count = 0 ∧
      pgb.validHeight = 0 ∧ ∀ address, process.balance address = none)
    (fresh : pgb.validHeight + 1 = pgb.db.count → process.returnedAt ≤ cleared)
    (isStates : states = if pgb.db.tx.tables.addresses = process.table then process.states
      else process.states ++ [pgb.db.tx.tables.addresses])
    (kept : StorePhaseKept cleared { process with pgb := pgb, states := states } call after) :
    Holds cleared { process with
      pgb := pgb
      storing := some (call, after)
      states := states } := by
  have current := holds.current
  have returned := holds.returned_lt
  have cleared_lt := holds.cleared_lt
  obtain ⟨more, grown, last⟩ : ∃ more, states = process.states ++ more ∧
      states[states.length - 1]? = some pgb.db.tx.tables.addresses := by
    by_cases unchanged : pgb.db.tx.tables.addresses = process.table
    · rw [if_pos unchanged] at isStates
      exact ⟨[], by rw [isStates, List.append_nil], by rw [isStates, unchanged]; exact current⟩
    · rw [if_neg unchanged] at isStates
      exact ⟨_, isStates, by simp [isStates]⟩
  have longer : process.states.length ≤ states.length := by simp [grown]
  refine ⟨last, ?_, ?_, ?_, ?_, valid, fresh, ?_, ?_, ?_⟩
  · show process.returnedAt < states.length
    omega
  · show cleared < states.length
    omega
  · intro idle
    cases idle
  · intro address balance isCached
    show Fresh states cleared address balance
    rw [grown]
    exact (holds.entries address balance isCached).append more
  · intro index each isEach
    obtain ⟨since_le, locked, phase⟩ := holds.calls index each isEach
    refine ⟨since_le, fun isLocked => ?_, phase.transport grown counted ?_ fun _ => rfl⟩
    · obtain ⟨own, positive⟩ := locked isLocked
      exact ⟨own, Nat.lt_of_lt_of_le positive counted⟩
    · intro height before isHeight
      exact before (same ▸ isHeight)
  · intro _
    exact holds.begun (by rw [isCall]; simp)
  · rintro _ _ ⟨⟩
    exact kept

/-- Nothing is cached while no block is stored, so that what is cached is of the present
state. -/
theorem Holds.noBlock (holds : Holds cleared process) (noBlock : process.pgb.db.count = 0) :
    Holds (process.states.length - 1) process := by
  have returned := holds.returned_lt
  refine ⟨holds.current, holds.returned_lt, by omega, holds.settled, ?_, holds.valid, by omega, ?_,
    holds.begun, ?_⟩
  · intro address balance isCached
    rcases holds.valid with below | ⟨-, -, nothing⟩
    · omega
    · rw [nothing address] at isCached
      cases isCached
  · intro index call isCall
    obtain ⟨since_le, locked, phase⟩ := holds.calls index call isCall
    refine ⟨since_le, locked, phase.transport (List.append_nil _).symm (Nat.le_refl _) ?_ ?_⟩
    · intro height _ _
      omega
    · intro isLocked
      have := (locked isLocked).2
      omega
  · intro call phase isCall
    have kept := holds.storing call phase isCall
    have room : process.states.length ≤ process.states.length - 1 + 1 := by omega
    cases phase with
    | trees | insertBlock => exact kept
    | setBestBlock | insertBlockPrevNext | updateLastBlock | updateBlockNext | clear =>
      exact ⟨kept.1, fun _ _ => room⟩
    | returning result =>
      cases result with
      | ok counts => exact room
      | error err => exact fun _ _ => room

/-- A step of `StoreBlock` behind the goroutines that leaves the stored heights and the
height of the cache as they are. -/
theorem Holds.unmoved (holds : Holds cleared process) {call : BlockCall} {phase after : StorePhase}
    {pgb : ChainDB} (isCall : process.storing = some (call, phase))
    (same : pgb.validHeight = process.pgb.validHeight) (sameTx : pgb.db.tx = process.pgb.db.tx)
    (sameCount : pgb.db.count = process.pgb.db.count)
    (kept : StorePhaseKept cleared { process with pgb := pgb } call after) :
    Holds cleared { process with
      pgb := pgb
      storing := some (call, after)
      states := if pgb.db.tx.tables.addresses = process.table then process.states
        else process.states ++ [pgb.db.tx.tables.addresses] } := by
  have sameStates : process.states = if pgb.db.tx.tables.addresses = process.table then process.states
      else process.states ++ [pgb.db.tx.tables.addresses] := by
    rw [if_pos (by rw [sameTx]; rfl)]
  rw [← sameStates]
  refine holds.moved isCall same sameCount.ge ?_ ?_ sameStates kept
  · rw [same, sameCount]
    exact holds.valid
  · rw [same, sameCount]
    exact holds.fresh

/-- Behind the write of the best height a call goes on, or returns an error. -/
theorem Holds.linked (holds : Holds cleared process) {call : BlockCall} {phase after : StorePhase}
    {pgb : ChainDB} {regular : Bool} (isCall : process.storing = some (call, phase))
    (linking : phase.Linking) (filled : phase.clears = false)
    (kept : call.msgBlock.header.height.toNat < process.pgb.db.count ∧ Raised cleared process)
    (taken : call.step hcd regular process.pgb phase = some (after, pgb)) :
    Holds cleared { process with
      pgb := pgb
      storing := some (call, after)
      states := if pgb.db.tx.tables.addresses = process.table then process.states
        else process.states ++ [pgb.db.tx.tables.addresses] } := by
  obtain ⟨stays, sameTx, same, -, open_⟩ := BlockCall.step_linking linking taken
  obtain ⟨sameValid, noReturn⟩ := open_ filled
  have sameCount := ChainTables.count_congr same
  obtain ⟨stored, raised⟩ := kept
  refine holds.unmoved isCall sameValid sameTx sameCount ?_
  have higher : call.msgBlock.header.height.toNat < pgb.db.count := sameCount ▸ stored
  have still : Raised cleared { process with pgb := pgb } := by
    intro isRaised isHeight
    have lower : process.countBefore < pgb.db.count := isRaised
    have isCached : pgb.validHeight + 1 = pgb.db.count := isHeight
    rw [sameCount] at lower isCached
    rw [sameValid] at isCached
    exact raised lower isCached
  cases after with
  | trees | insertBlock | setBestBlock => cases stays
  | insertBlockPrevNext | updateLastBlock | updateBlockNext | clear => exact ⟨higher, still⟩
  | returning result =>
    cases result with
    | ok counts => exact absurd rfl (noReturn counts)
    | error err => exact still

/-- The INSERT of a block: where it fails nothing changes, and where it adds a row what is cached
is older than that row, or there is nothing in the cache. -/
theorem Holds.insertedBlock (holds : Holds cleared process) {call : BlockCall} {after : StorePhase}
    {pgb : ChainDB} {regular : Bool} {dbBlock : Block} {counts : Nat × Nat}
    (isCall : process.storing = some (call, .insertBlock dbBlock counts))
    (taken : call.step hcd regular process.pgb (.insertBlock dbBlock counts) = some (after, pgb)) :
    Invariant { process with
      pgb := pgb
      storing := some (call, after)
      states := if pgb.db.tx.tables.addresses = process.table then process.states
        else process.states ++ [pgb.db.tx.tables.addresses] } := by
  obtain ⟨sameCount, isHeight⟩ := holds.storing call _ isCall
  obtain ⟨db, rfl, sameTx, ⟨⟨err, rfl⟩, same⟩ | ⟨⟨blockDbID, rfl⟩, added⟩⟩ :=
    BlockCall.step_insertBlock taken
  · have unchanged := ChainTables.count_congr same
    refine ⟨cleared, holds.unmoved isCall rfl sameTx unchanged ?_⟩
    intro raised
    have : process.countBefore < db.count := raised
    omega
  · have count : db.count = max process.pgb.db.count (call.msgBlock.header.height.toNat + 1) := by
      rw [ChainTables.count_append added, isHeight]
    have sameStates : process.states = if db.tx.tables.addresses = process.table then process.states
        else process.states ++ [db.tx.tables.addresses] := by
      rw [if_pos (by rw [sameTx]; rfl)]
    have higher : call.msgBlock.header.height.toNat < db.count := by omega
    -- with no block before, what is cached is nothing; else the height of the cache is lower
    rcases holds.valid with ⟨someBlock, below⟩ | ⟨noBlock, isZero, nothing⟩
    · have fresh := holds.fresh
      rw [← sameStates]
      refine ⟨cleared, holds.moved isCall rfl ?_ (Or.inl ⟨?_, ?_⟩) ?_ sameStates ⟨higher, ?_⟩⟩
      · show process.pgb.db.count ≤ db.count
        omega
      · show 0 < db.count
        omega
      · show process.pgb.validHeight < db.count
        omega
      · show process.pgb.validHeight + 1 = db.count → process.returnedAt ≤ cleared
        intro isHeight
        exact fresh (by omega)
      · intro raised isHeight
        have : process.countBefore < db.count := raised
        have : process.pgb.validHeight + 1 = db.count := isHeight
        omega
    · have emptied := holds.noBlock noBlock
      have returned := holds.returned_lt
      rw [← sameStates]
      refine ⟨_, emptied.moved isCall rfl ?_ (Or.inl ⟨?_, ?_⟩) ?_ sameStates ⟨higher, ?_⟩⟩
      · show process.pgb.db.count ≤ db.count
        omega
      · show 0 < db.count
        omega
      · show process.pgb.validHeight < db.count
        omega
      · intro _
        omega
      · intro _ _
        show process.states.length ≤ process.states.length - 1 + 1
        omega

/-- The steps of `StoreBlock` that do not empty the cache keep the invariant, phase by
phase. -/
theorem Holds.stored (holds : Holds cleared process) {call : BlockCall} {phase after : StorePhase}
    {pgb : ChainDB} {regular : Bool} (isCall : process.storing = some (call, phase))
    (filled : phase.clears = false)
    (taken : call.step hcd regular process.pgb phase = some (after, pgb)) :
    Invariant { process with
      pgb := pgb
      storing := some (call, after)
      states := if pgb.db.tx.tables.addresses = process.table then process.states
        else process.states ++ [pgb.db.tx.tables.addresses] } := by
  have kept := holds.storing call phase isCall
  cases phase with
  | trees pair =>
    rcases BlockCall.step_trees taken with
      ⟨moved, tx, turned, rfl, rfl⟩ | ⟨resReg, resStk, _, _, -, rfl, rfl⟩
    · exact ⟨cleared, holds.moved isCall rfl (Nat.le_refl _) holds.valid holds.fresh rfl kept⟩
    · refine ⟨cleared, holds.unmoved isCall rfl rfl rfl ?_⟩
      rcases BlockCall.joined_cases hcd call resReg resStk with
        ⟨err, isError⟩ | ⟨txDbIDs, stxDbIDs, counts, isInsert⟩
      · rw [isError]
        intro raised
        have notRaised : process.pgb.db.count = process.countBefore := kept
        have isRaised : process.countBefore < process.pgb.db.count := raised
        omega
      · rw [isInsert]
        exact ⟨kept, rfl⟩
  | insertBlock dbBlock counts => exact holds.insertedBlock isCall taken
  | setBestBlock dbBlock counts blockDbID =>
    obtain ⟨rfl, rfl⟩ := Prod.mk.inj (Option.some.inj taken)
    exact ⟨cleared, holds.unmoved isCall rfl rfl rfl kept⟩
  | clear => cases filled
  | insertBlockPrevNext | updateLastBlock | updateBlockNext =>
    exact ⟨cleared, holds.linked isCall trivial filled kept taken⟩
  | returning result => cases taken

/-- A step of `StoreBlock` keeps the invariant: it extends the history of the tables by the table
after it. -/
theorem Holds.turn (holds : Holds cleared process) {call : BlockCall} {phase : StorePhase}
    {regular : Bool} (isCall : process.storing = some (call, phase))
    (taken : process.turn hcd call phase regular = some next) : Invariant next := by
  unfold Process.turn at taken
  cases clears : phase.clears with
  | false =>
    rw [if_neg (by simp [clears])] at taken
    obtain ⟨⟨after, pgb⟩, stepped, rfl⟩ := Option.map_eq_some_iff.mp taken
    simp only [clears, Bool.false_eq_true, if_false]
    exact holds.stored isCall clears stepped
  | true =>
    by_cases free : process.holder = none
    · rw [if_neg (by simp [free])] at taken
      obtain ⟨⟨after, pgb⟩, stepped, rfl⟩ := Option.map_eq_some_iff.mp taken
      cases phase with
      | clear counts =>
        obtain ⟨rfl, rfl⟩ := Prod.mk.inj (Option.some.inj stepped)
        have emptied := holds.emptied free (holds.storing call _ isCall).1
        have room : process.states.length ≤ process.states.length - 1 + 1 := by omega
        have sameStates : process.states = if process.pgb.db.tx.tables.addresses = process.table then
            process.states else process.states ++ [process.pgb.db.tx.tables.addresses] :=
          (if_pos rfl).symm
        simp only [StorePhase.clears, if_true]
        rw [← sameStates]
        exact ⟨_, emptied.moved isCall rfl (Nat.le_refl _) emptied.valid emptied.fresh sameStates room⟩
      | trees | insertBlock | setBestBlock | insertBlockPrevNext | updateLastBlock
      | updateBlockNext | returning => cases clears
    · rw [if_pos ⟨clears, free⟩] at taken
      cases taken

/-- `StoreBlock` returns: what is cached is of the present state, when the height of the
cache is the greatest stored one. -/
theorem Holds.returnBlock (holds : Holds cleared process) {call : BlockCall}
    {result : Except String (Nat × Nat)} (isCall : process.storing = some (call, .returning result))
    (steady : Steady process .returnBlock) :
    Holds cleared { process with
      storing := none
      returnedAt := process.states.length - 1 } := by
  have returned := holds.returned_lt
  have begun := holds.begun (by rw [isCall]; simp)
  have kept := holds.storing call _ isCall
  refine ⟨holds.current, ?_, holds.cleared_lt, ?_, holds.entries, holds.valid, ?_, ?_, ?_, ?_⟩
  · show process.states.length - 1 < process.states.length
    omega
  · intro _
    show process.states.length - 1 + 1 = process.states.length
    omega
  · intro isHeight
    show process.states.length - 1 ≤ cleared
    cases result with
    | ok counts =>
      have room : process.states.length ≤ cleared + 1 := kept
      omega
    | error err =>
      rw [Steady, Process.Settles.eq_def, isCall] at steady
      rcases steady with unchanged | raised
      · have fresh := holds.fresh isHeight
        omega
      · have room := kept raised isHeight
        omega
  · intro index each isEach
    obtain ⟨since_le, locked, phase⟩ := holds.calls index each isEach
    refine ⟨?_, locked, phase⟩
    show each.since ≤ process.states.length - 1
    omega
  · intro running
    exact absurd rfl running
  · rintro _ _ ⟨⟩

/-- Every steady event keeps the invariant. This is the step lemma of the process. -/
theorem Invariant.step (invariant : Invariant process) {event : Event} (steady : Steady process event)
    (taken : step hcd process event = some next) : Invariant next := by
  obtain ⟨cleared, holds⟩ := invariant
  cases event with
  | storeBlock call =>
    simp only [AddressCache.step] at taken
    cases idle : process.storing with
    | some running =>
      rw [idle] at taken
      cases taken
    | none =>
      rw [idle] at taken
      obtain rfl := Option.some.inj taken
      have settled := holds.settled idle
      refine ⟨cleared, holds.current, holds.returned_lt, holds.cleared_lt, ?_, holds.entries,
        holds.valid, holds.fresh, ?_, ?_, ?_⟩
      · intro notRunning
        cases notRunning
      · intro index each isEach
        obtain ⟨since_le, locked, phase⟩ := holds.calls index each isEach
        exact ⟨since_le, locked, phase⟩
      · intro _
        show process.states.length - 1 = process.returnedAt
        omega
      · rintro _ _ ⟨⟩
        exact rfl
  | turn regular =>
    obtain ⟨⟨call, phase⟩, isCall, turned⟩ := Option.bind_eq_some_iff.mp taken
    exact holds.turn isCall turned
  | returnBlock =>
    simp only [AddressCache.step] at taken
    split at taken
    · rename_i call result isCall
      obtain rfl := Option.some.inj taken
      exact ⟨cleared, holds.returnBlock isCall steady⟩
    · cases taken
  | addressHistory address limit =>
    obtain rfl := Option.some.inj taken
    refine ⟨cleared, holds.current, holds.returned_lt, holds.cleared_lt, holds.settled, holds.entries,
      holds.valid, holds.fresh, ?_, holds.begun, holds.storing⟩
    intro index call isCall
    by_cases old : index < process.calls.length
    · rw [List.getElem?_append_left old] at isCall
      obtain ⟨since_le, locked, phase⟩ := holds.calls index call isCall
      exact ⟨since_le, locked, phase⟩
    · rw [List.getElem?_append_right (by omega)] at isCall
      obtain rfl := List.mem_singleton.mp (List.mem_of_getElem? isCall)
      exact ⟨Nat.le_refl _, (fun isLocked => by cases isLocked), trivial⟩
  | history index answer =>
    obtain ⟨call, isCall, moved⟩ := Option.bind_eq_some_iff.mp taken
    exact holds.history isCall (steady call isCall) moved

/-- The invariant holds of a process over any tables. -/
theorem invariant_opened (db : ChainTables) : Invariant (.opened db) := by
  refine ⟨0, rfl, Nat.zero_lt_one, Nat.zero_lt_one, fun _ => rfl, ?_, ?_, fun _ => Nat.le_refl _, ?_,
    ?_, ?_⟩
  · intro address balance isCached
    cases isCached
  · by_cases noBlock : db.count = 0
    · exact Or.inr ⟨noBlock, rfl, fun _ => rfl⟩
    · have someBlock : 0 < db.count := by omega
      refine Or.inl ⟨someBlock, ?_⟩
      show (0 : Int) < db.count
      omega
  · intro index call isCall
    cases isCall
  · intro running
    exact absurd rfl running
  · intro call phase isCall
    cases isCall

/-- No returned balance is older than the last return of `StoreBlock` before its call, in
every run over any tables whose events are steady.

The invariant holds throughout, and what is known of a call that has returned is the
freshness of its balance. -/
theorem balances_fresh {db : ChainTables} {events : List Event} {final : Process}
    (steady : Admitted (step hcd) Steady (.opened db) events)
    (ran : exec (step hcd) (.opened db) events = some final) : final.ServesFresh := by
  obtain ⟨cleared, holds⟩ := exec_invariant Invariant
    (fun _ _ _ invariant allowed taken => invariant.step allowed taken) (invariant_opened db) steady ran
  intro call member balance served
  obtain ⟨index, inside, rfl⟩ := List.mem_iff_getElem.mp member
  have kept := (holds.calls index _ (List.getElem?_eq_getElem inside)).phase
  simp only [History.served] at served
  split at served
  · rename_i addressRows returned isPhase
    obtain rfl : returned = some balance := served
    rw [PhaseKept, isPhase] at kept
    exact kept
  · cases served

end Steps

section Samples

instance (answer : Answer) (process : Process) : (call : History) → Decidable (call.Steady answer process)
  | ⟨_, _, _, .rows _⟩ => inferInstanceAs (Decidable (answer.readUntil = none))
  | ⟨address, _, _, .spent _ _ countedAt⟩ => inferInstanceAs (Decidable
      (process.states[countedAt]?.map (rowsOf address) = some (rowsOf address process.table)))
  | ⟨_, _, _, .heightDB⟩ | ⟨_, _, _, .lock _⟩ | ⟨_, _, _, .begin _⟩ | ⟨_, _, _, .unspent _⟩
  | ⟨_, _, _, .rollback _ _⟩ | ⟨_, _, _, .returned _ _ _⟩ => isTrue trivial

instance (process : Process) : (storing : Option (BlockCall × StorePhase)) →
    Decidable (process.Settles storing)
  | some (_, .returning (.error _)) => inferInstanceAs (Decidable (_ ∨ _))
  | some (_, .returning (.ok _)) | none | some (_, .trees _) | some (_, .insertBlock _ _)
  | some (_, .setBestBlock _ _ _) | some (_, .insertBlockPrevNext _ _ _)
  | some (_, .updateLastBlock _ _) | some (_, .updateBlockNext _ _ _) | some (_, .clear _) =>
    isTrue trivial

instance (process : Process) : (event : Event) → Decidable (Steady process event)
  | .returnBlock => inferInstanceAs (Decidable (process.Settles process.storing))
  | .history index answer =>
    inferInstanceAs (Decidable (∀ call ∈ process.calls[index]?, call.Steady answer process))
  | .storeBlock _ | .turn _ | .addressHistory _ _ => isTrue trivial

/-- A transaction that pays 100 to the address of a script. -/
def payment (id : UInt32) : MsgTx := ⟨1, [], [⟨100, 0, [5]⟩], id, 0⟩

/-- A sample block with one payment in its regular tree and nothing in its stake tree. -/
def payingBlock (block : MsgBlock) (id : UInt32) : MsgBlock :=
  { block with transactions := [payment id], sTransactions := [] }

/-- A call of `StoreBlock` whose goroutine for the stake tree may fail at its start. -/
def sampleCall (block : MsgBlock) (stakeFault : Option String) : BlockCall :=
  ⟨block, true, true, ⟨[], fun _ => none, fun issued => if issued = 0 then stakeFault else none,
    none, none, none, none⟩⟩

/-- The row of the payment, under the ids that it gets. -/
def paidRow (id : UInt32) (rowID : Nat) : Stored AddressRow :=
  ⟨rowID, { address := "5", fundingTxDbID := rowID, fundingTxHash := Sample.hcd.txHash (payment id)
            fundingTxVoutIndex := 0, voutDbID := rowID, value := 100, spending := none }⟩

/-- The genesis block is stored, with a payment, by the statements of its two goroutines. -/
def genesisStored : List Event :=
  [.storeBlock (sampleCall (payingBlock Sample.genesis 1) none)] ++
    List.replicate 15 (.turn true) ++ List.replicate 6 (.turn false) ++ List.replicate 5 (.turn true) ++
    [.returnBlock]

/-- A call of `AddressHistory` from its start to its end, with the rows that it lists. -/
def asked (index : Nat) (rows : List (Stored AddressRow)) : List Event :=
  [.addressHistory "5" 10, .history index ⟨none, [], none⟩, .history index ⟨none, [], none⟩,
    .history index ⟨none, rows, none⟩]

/-- Another payment is stored between calls of `AddressHistory`, so the second call finds the
cache cleared. -/
def paidTwice : List Event :=
  genesisStored ++ asked 0 [paidRow 1 1] ++
    [.storeBlock (sampleCall (payingBlock Sample.firstBlock 2) none)] ++
    List.replicate 15 (.turn true) ++ List.replicate 6 (.turn false) ++ List.replicate 6 (.turn true) ++
    [.returnBlock] ++ asked 1 [paidRow 2 2, paidRow 1 1]

/-- The other payment is committed, and then the goroutine for the stake tree fails. -/
def failedStore : List Event :=
  genesisStored ++ asked 0 [paidRow 1 1] ++
    [.storeBlock (sampleCall (payingBlock Sample.firstBlock 2) (some "connection reset"))] ++
    List.replicate 15 (.turn true) ++ List.replicate 1 (.turn false) ++ List.replicate 1 (.turn true) ++
    [.returnBlock] ++ asked 1 [paidRow 2 2, paidRow 1 1]

/-- The law at a run: after the second block both payments are in the balance. -/
theorem balances_fresh_paidTwice :
    ∃ final, exec (step Sample.hcd) (.opened .created) paidTwice = some final ∧
      final.calls.map History.served =
        [some ⟨"5", 0, 1, 0, 100⟩, some ⟨"5", 0, 2, 0, 200⟩] ∧ final.ServesFresh := by
  have steady : Admitted (step Sample.hcd) Steady (.opened .created) paidTwice := by
    decide +kernel
  have evaluates : (exec (step Sample.hcd) (.opened .created) paidTwice).map
      (fun final => final.calls.map History.served) =
      some [some ⟨"5", 0, 1, 0, 100⟩, some ⟨"5", 0, 2, 0, 200⟩] := by
    decide +kernel
  obtain ⟨final, ran, served⟩ := Option.map_eq_some_iff.mp evaluates
  exact ⟨final, ran, served, balances_fresh steady ran⟩

/-- A call that begins after the failed one has returned still returns the balance from
before it, without the second payment that was committed. -/
theorem failedStore_serves_stale :
    ∃ final, exec (step Sample.hcd) (.opened .created) failedStore = some final ∧
      final.calls.map History.served =
        [some ⟨"5", 0, 1, 0, 100⟩, some ⟨"5", 0, 1, 0, 100⟩] ∧
      (balanceOf "5" final.table).numUnspent = 2 ∧ ¬ final.ServesFresh := by
  have evaluates : (exec (step Sample.hcd) (.opened .created) failedStore).map
      (fun final => (final.calls.map History.served, (balanceOf "5" final.table).numUnspent,
        decide final.ServesFresh)) =
      some ([some ⟨"5", 0, 1, 0, 100⟩, some ⟨"5", 0, 1, 0, 100⟩], 2, false) := by
    decide +kernel
  obtain ⟨final, ran, read⟩ := Option.map_eq_some_iff.mp evaluates
  simp only [Prod.mk.injEq, decide_eq_false_iff_not] at read
  exact ⟨final, ran, read.1, read.2.1, read.2.2⟩

end Samples

end Hcexplorer.Hcpg.AddressCache

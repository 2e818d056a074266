import Hcexplorer.Hcpg.StoreSteps
import Hcexplorer.Hcpg.BlocksTable
import Hcexplorer.Sample

/-!
# Confirmations of transactions while blocks are stored

`FillAddressTransactions` retrieves a transaction, and then takes the difference of
the best height, which `Height` reads from memory, and the height of the
transaction, in unsigned 64-bit arithmetic. The transactions of a block are committed
before the best height moves to the block. So a stored transaction may be above the
best height: by one while its block is being stored, and by more when a block failed
before its height was recorded and the next one is stored.

The law is about runs in which blocks are stored in the order of their heights, any
statement fails, calls of `FillAddressTransactions` run in between, and processes
begin anew over the same tables. While each block that is begun is at most one above
the best height, no difference wraps around.

The texts and the coin amount formatted from the columns are left out.
-/

namespace Hcexplorer.Hcpg

/-- `Height`, the best height in memory as an unsigned number. -/
def ChainDB.height (pgb : ChainDB) : UInt64 := UInt64.ofInt pgb.bestBlock

namespace Confirmations

open Interactive Runs

/-- `explorer.AddressTx`, the fields that `FillAddressTransactions` fills. -/
structure AddressTx where
  txID : Hash
  size : UInt64
  total : Int64
  time : Int64
  confirmations : UInt64
deriving DecidableEq, Repr

/-- The confirmations of a transaction: none before it is in a block. -/
def confirmations (height : UInt64) (dbTx : Tx) : UInt64 :=
  if 0 < dbTx.blockTime then height - dbTx.blockHeight.toUInt64 + 1 else 0

/-- What is filled in of a retrieved transaction, at the best height that was read for it. -/
def AddressTx.fill (height : UInt64) (dbTx : Tx) : AddressTx where
  txID := dbTx.txID
  size := dbTx.size.toUInt64
  total := dbTx.sent
  time := dbTx.blockTime
  confirmations := Confirmations.confirmations height dbTx

/-- What `FillAddressTransactions` does next: it retrieves the next transaction, reads
the height, or has returned its error or the number of unconfirmed transactions. -/
inductive FillPhase where
  | retrieve
  | readHeight (dbTx : Tx)
  | returned (result : Except String Int)

/-- A call of `FillAddressTransactions`: what it does next, the filled and the remaining
transactions, and its count. -/
structure Filling where
  phase : FillPhase
  filled : List AddressTx
  remaining : List Hash
  numUnconfirmed : Int

namespace Filling

/-- The start of a call, with all transactions ahead. -/
def begin (txIDs : List Hash) : Filling := ⟨.retrieve, [], txIDs, 0⟩

/-- `RetrieveDbTxByHash` for the next transaction. Any row with its hash is an answer. -/
def retrieve (tables : TxTables) (answer : Except String Tx) (filling : Filling) : Option Filling :=
  match filling.phase, filling.remaining, answer with
  | .retrieve, _ :: _, .error err => some { filling with phase := .returned (.error err) }
  | .retrieve, txID :: _, .ok dbTx =>
    if dbTx ∈ tables.transactions.map Stored.row ∧ dbTx.txID = txID then
      some { filling with phase := .readHeight dbTx }
    else none
  | _, _, _ => none

/-- The rest of the pass for a retrieved transaction. -/
def fill (height : UInt64) (dbTx : Tx) (filling : Filling) : Filling where
  phase := .retrieve
  filled := filling.filled ++ [.fill height dbTx]
  remaining := filling.remaining.tail
  numUnconfirmed := if 0 < dbTx.blockTime then filling.numUnconfirmed else filling.numUnconfirmed + 1

/-- The return behind the loop, once no transaction is left. -/
def finish (filling : Filling) : Option Filling :=
  match filling.phase, filling.remaining with
  | .retrieve, [] => some { filling with phase := .returned (.ok filling.numUnconfirmed) }
  | _, _ => none

end Filling

/-- A computation of confirmations, with the best height that was read. -/
structure Confirmed where
  dbTx : Tx
  best : Int
  confirmations : UInt64

/-- The process: the database, the call of `StoreBlock` that was begun last, the height
of the next block to store, the calls of `FillAddressTransactions`, and what these have
computed so far, also in earlier processes. -/
structure Process where
  pgb : ChainDB
  storing : Option (BlockCall × StorePhase)
  nextHeight : Nat
  filling : List Filling
  computed : List Confirmed

/-- A process over existing tables. It resumes above the greatest stored height. -/
def Process.opened (db : ChainTables) (computed : List Confirmed) : Process :=
  ⟨newChainDB db, none, (db.lastHeight + 1).toNat, [], computed⟩

/-- What happens: the process is restarted at any point, the duplicate checks are
switched, `StoreBlock` is called or takes a step, `FillAddressTransactions` is called
or takes a step. -/
inductive Event where
  | restart
  | checkDuplicates (dupCheck : Bool)
  | storeBlock (call : BlockCall)
  | turn (regular : Bool)
  | fillAddressTransactions (txIDs : List Hash)
  | retrieve (index : Nat) (answer : Except String Tx)
  | readHeight (index : Nat)
  | finish (index : Nat)

/-- No call of `StoreBlock` is running, or it is about to return. -/
def Process.idle (process : Process) : Bool :=
  match process.storing with
  | none | some (_, .returning _) => true
  | some _ => false

/-- One event. The next block is stored when the call before it has returned, in
whichever way. -/
def step (hcd : Hcd) (process : Process) : Event → Option Process
  | .restart => some (.opened process.pgb.db process.computed)
  | .checkDuplicates dupCheck =>
    some { process with pgb := process.pgb.enableDuplicateCheckOnInsert dupCheck }
  | .storeBlock call =>
    if process.idle ∧ call.msgBlock.header.height.toNat = process.nextHeight then
      some { process with
        storing := some (call, call.begin hcd process.pgb)
        nextHeight := process.nextHeight + 1 }
    else none
  | .turn regular =>
    process.storing.bind fun (call, phase) =>
      (call.step hcd regular process.pgb phase).map fun (phase, pgb) =>
        { process with pgb := pgb, storing := some (call, phase) }
  | .fillAddressTransactions txIDs =>
    some { process with filling := process.filling ++ [.begin txIDs] }
  | .retrieve index answer =>
    process.filling[index]?.bind fun filling =>
      (filling.retrieve process.pgb.db.tx.tables answer).map fun filling =>
        { process with filling := process.filling.set index filling }
  | .readHeight index =>
    process.filling[index]?.bind fun filling =>
      match filling.phase with
      | .readHeight dbTx => some { process with
          filling := process.filling.set index (filling.fill process.pgb.height dbTx)
          computed := process.computed ++
            [⟨dbTx, process.pgb.bestBlock, confirmations process.pgb.height dbTx⟩] }
      | _ => none
  | .finish index =>
    process.filling[index]?.bind fun filling =>
      filling.finish.map fun filling => { process with filling := process.filling.set index filling }

/-- The confirmations are the best height less the height of the transaction and one,
when the transaction is not above the best height, and 0 otherwise. -/
def Confirmed.Exact (confirmed : Confirmed) : Prop :=
  (confirmed.confirmations.toNat : Int) =
    if confirmed.dbTx.blockHeight.toInt ≤ confirmed.best then
      confirmed.best - confirmed.dbTx.blockHeight.toInt + 1
    else 0

/-- Each block that is begun has a positive time and is at most one above the best
height: no block since then failed before its own height was recorded. -/
def FollowsBest (process : Process) : Event → Prop
  | .storeBlock call => (call.msgBlock.header.height.toNat : Int) ≤ process.pgb.bestBlock + 1 ∧
      0 < call.msgBlock.header.timestamp
  | _ => True

section Arithmetic

/-- A best height that is not negative and fits into the signed type is returned as it is. -/
theorem toNat_height {best : Int} (nonneg : 0 ≤ best) (small : best < 2 ^ 63) :
    (UInt64.ofInt best).toNat = best.toNat := by
  rw [UInt64.ofInt, UInt64.toNat_ofNat']
  omega

/-- The confirmations of a row are exact unless the row is at least two above the best
height, when the difference wraps around, or has no positive time and is not above it. -/
theorem confirmations_exact_iff {dbTx : Tx} {best : Int} (nonneg : 0 ≤ best) (small : best < 2 ^ 63)
    (height : 0 ≤ dbTx.blockHeight.toInt) :
    (⟨dbTx, best, confirmations (UInt64.ofInt best) dbTx⟩ : Confirmed).Exact ↔
      (dbTx.blockHeight.toInt ≤ best → 0 < dbTx.blockTime) ∧
        (best + 1 < dbTx.blockHeight.toInt → ¬ 0 < dbTx.blockTime) := by
  have isBest := toNat_height nonneg small
  have isHeight : dbTx.blockHeight.toUInt64.toNat = dbTx.blockHeight.toInt.toNat :=
    Int64.toNat_toUInt64_of_le (Int64.le_iff_toInt_le.mpr height)
  have heightSmall := Int64.toInt_lt dbTx.blockHeight
  simp only [Confirmed.Exact, confirmations]
  by_cases dated : 0 < dbTx.blockTime
  · rw [if_pos dated]
    have difference : (UInt64.ofInt best - dbTx.blockHeight.toUInt64 + 1).toNat =
        (2 ^ 64 - dbTx.blockHeight.toInt.toNat + best.toNat + 1) % 2 ^ 64 := by
      rw [UInt64.toNat_add, UInt64.toNat_sub, isBest, isHeight]
      simp
    rw [difference]
    by_cases above : dbTx.blockHeight.toInt ≤ best
    · rw [if_pos above]
      simp only [dated, not_true_eq_false, imp_false, implies_true, true_and]
      omega
    · rw [if_neg above]
      simp only [dated, not_true_eq_false, imp_false, implies_true, true_and]
      omega
  · rw [if_neg dated]
    by_cases above : dbTx.blockHeight.toInt ≤ best
    · rw [if_pos above]
      simp [dated, above]
      omega
    · simp [dated, above]

end Arithmetic

section Rows

/-- The row of a transaction in a block with a positive time, at most one above the best
height. -/
structure Near (best : Int) (row : Tx) : Prop where
  nonneg : 0 ≤ row.blockHeight.toInt
  near : row.blockHeight.toInt ≤ best + 1
  dated : 0 < row.blockTime

/-- A row that is near a best height is near any higher one. -/
theorem Near.mono {best higher : Int} {row : Tx} (near : Near best row) (grown : best ≤ higher) :
    Near higher row :=
  ⟨near.nonneg, by have := near.near; omega, near.dated⟩

/-- The row is that of a transaction of the block: it has the block's height and time. -/
def OfBlock (msgBlock : MsgBlock) (row : Tx) : Prop :=
  row.blockHeight = msgBlock.header.height.toUInt64.toInt64 ∧ row.blockTime = msgBlock.header.timestamp

/-- A block that follows the best height has rows near it. -/
theorem OfBlock.near {msgBlock : MsgBlock} {row : Tx} {best : Int} (ofBlock : OfBlock msgBlock row)
    (near : (msgBlock.header.height.toNat : Int) ≤ best + 1) (dated : 0 < msgBlock.header.timestamp) :
    Near best row := by
  have isHeight : row.blockHeight.toInt = msgBlock.header.height.toNat := by
    have small := msgBlock.header.height.toNat_lt
    have wrapped : msgBlock.header.height.toUInt64.toInt64.toInt =
        (msgBlock.header.height.toUInt64.toNat : Int).bmod (2 ^ 64) := BitVec.toInt_eq_toNat_bmod _
    rw [ofBlock.1, wrapped, UInt32.toNat_toUInt64, Int.bmod_eq_of_le (by omega) (by omega)]
  refine ⟨by omega, by omega, ?_⟩
  rw [ofBlock.2]
  exact dated

/-- A statement inserts no transaction but one of the block. -/
def Inserts (msgBlock : MsgBlock) (request : Statement) : Prop :=
  ∀ checked row, request = .insert (.tx checked row) → OfBlock msgBlock row

/-- `storeTxns` inserts no transactions but those of its block. -/
theorem storeTxns_inserts (hcd : Hcd) (dupChecks : Bool) (msgBlock : MsgBlock) (tree : TxTree)
    (updateAddressesSpendingInfo : Bool) :
    (storeTxns hcd dupChecks msgBlock tree updateAddressesSpendingInfo).Only (Inserts msgBlock) := by
  have brackets : Brackets (Inserts msgBlock) := by constructor <;> simp [Inserts]
  refine only_storeTxns brackets (by simp [Inserts]) (by simp [Inserts]) (by simp [Inserts])
    (by simp [Inserts]) ?_ updateAddressesSpendingInfo
  intro dbtx isExtracted voutDbIds vinDbIds checked row same
  obtain ⟨tx, -, index, rfl⟩ := processTransactions_tx isExtracted
  obtain ⟨rfl, rfl⟩ := Insert.tx.inj (Statement.insert.inj same)
  exact ⟨rfl, rfl⟩

/-- The rows of an open transaction that wait for its commit are of the block. -/
def Pending (msgBlock : MsgBlock) (here : Conn) : Prop :=
  ∀ stored ∈ here.pending.transactions, OfBlock msgBlock stored.row

/-- A statement of the block adds rows of the block only to those that wait. -/
theorem Pending.advance {msgBlock : MsgBlock} {here : Conn} (pending : Pending msgBlock here)
    {request : Statement} (inserts : Inserts msgBlock request) (reply : Reply) :
    Pending msgBlock (postgres.advance request reply here) := by
  intro stored member
  cases request with
  | begin | commit | rollback => cases Multiset.notMem_zero stored member
  | prepare | setSpending => exact pending stored member
  | insert insert =>
    rcases reply with err | _ | id
    · exact pending stored member
    · exact pending stored member
    · rcases Multiset.mem_add.mp member with waiting | isNew
      · exact pending stored waiting
      · cases insert with
        | vout | vin | address => cases Multiset.notMem_zero stored isNew
        | tx checked row =>
          obtain rfl := Multiset.mem_singleton.mp isNew
          exact inserts checked row rfl

/-- The rows of the table come from a commit of those that waited. -/
theorem mem_transactions_apply {request : Statement} {reply : Reply} {here : Conn} {db : TxDb}
    {stored : Stored Tx}
    (member : stored ∈ (postgres.apply (postgres.effect request reply here) db).tables.transactions) :
    stored ∈ db.tables.transactions ∨ stored ∈ here.pending.transactions := by
  cases request with
  | begin | prepare | rollback => exact Or.inl member
  | commit =>
    cases reply with
    | error err => exact Or.inl member
    | ok id => exact Multiset.mem_add.mp member
  | insert insert =>
    cases reply with
    | error err => exact Or.inl member
    | ok id => exact Or.inl member
  | setSpending set =>
    cases reply with
    | error err => exact Or.inl member
    | ok id => exact Or.inl member

/-- The two goroutines store a block: both insert its transactions only, and what they have
pending is of it. -/
structure TreesOf (msgBlock : MsgBlock) (pair : Trees) : Prop where
  left : pair.left.Only (Inserts msgBlock)
  right : pair.right.Only (Inserts msgBlock)
  pendingLeft : Pending msgBlock pair.hereLeft
  pendingRight : Pending msgBlock pair.hereRight

/-- Each turn leaves the two goroutines at the block, and the table grows by its transactions
only. -/
theorem TreesOf.turn {msgBlock : MsgBlock} {pair moved : Trees} (trees : TreesOf msgBlock pair)
    {turn : Bool} {tx after : TxDb} (taken : pair.turn postgres tx turn = some (moved, after)) :
    TreesOf msgBlock moved ∧ ∀ stored ∈ after.tables.transactions,
      stored ∈ tx.tables.transactions ∨ OfBlock msgBlock stored.row := by
  obtain ⟨left, right, hereLeft, hereRight⟩ := pair
  obtain ⟨onlyLeft, onlyRight, pendingLeft, pendingRight⟩ := trees
  cases turn with
  | true =>
    cases left with
    | ret result => cases taken
    | call request next =>
      obtain ⟨rfl, rfl⟩ := Prod.mk.inj (Option.some.inj taken)
      refine ⟨⟨onlyLeft.2 _, onlyRight, pendingLeft.advance onlyLeft.1 _, pendingRight⟩, ?_⟩
      intro stored member
      exact (mem_transactions_apply member).imp id (pendingLeft stored)
  | false =>
    cases right with
    | ret result => cases taken
    | call request next =>
      obtain ⟨rfl, rfl⟩ := Prod.mk.inj (Option.some.inj taken)
      refine ⟨⟨onlyLeft, onlyRight.2 _, pendingLeft, pendingRight.advance onlyRight.1 _⟩, ?_⟩
      intro stored member
      exact (mem_transactions_apply member).imp id (pendingRight stored)

end Rows

section Runs

variable {hcd : Hcd} {process next : Process}

/-- What is known of a call in a phase: the rows that it may still insert are those of
its block, and its row is in the blocks table when its height is recorded. -/
def PhaseOf (msgBlock : MsgBlock) (db : ChainTables) : StorePhase → Prop
  | .trees pair => TreesOf msgBlock pair
  | .insertBlock dbBlock _ => dbBlock.height = msgBlock.header.height
  | .setBestBlock dbBlock _ _ =>
    dbBlock.height = msgBlock.header.height ∧ msgBlock.header.height.toNat < db.count
  | _ => True

/-- What is known of the call that was begun last. -/
structure Storing (pgb : ChainDB) (nextHeight : Nat) (call : BlockCall) (phase : StorePhase) :
    Prop where
  near : (call.msgBlock.header.height.toNat : Int) ≤ pgb.bestBlock + 1
  dated : 0 < call.msgBlock.header.timestamp
  notBelow : pgb.bestBlock ≤ call.msgBlock.header.height.toNat
  begun : call.msgBlock.header.height.toNat ≤ nextHeight
  phaseOf : PhaseOf call.msgBlock pgb.db phase

/-- The invariant: every transaction that is stored, retrieved or about to be stored is
at most one above the best height, and that height is 0 or below the count of stored
heights. -/
structure Holds (process : Process) : Prop where
  nonneg : 0 ≤ process.pgb.bestBlock
  small : process.pgb.bestBlock < 2 ^ 63
  notAhead : process.pgb.bestBlock ≤ process.nextHeight
  recorded : process.pgb.bestBlock = 0 ∨ process.pgb.bestBlock < process.pgb.db.count
  rows : ∀ stored ∈ process.pgb.db.tx.tables.transactions, Near process.pgb.bestBlock stored.row
  storing : ∀ call phase, process.storing = some (call, phase) →
    Storing process.pgb process.nextHeight call phase
  filling : ∀ filling ∈ process.filling, ∀ dbTx, filling.phase = .readHeight dbTx →
    Near process.pgb.bestBlock dbTx
  computed : ∀ confirmed ∈ process.computed, confirmed.Exact

/-- A retrieved row is one of the transactions table, under the hash that was asked for. -/
theorem Filling.retrieve_row {tables : TxTables} {answer : Except String Tx}
    {filling retrieved : Filling} (taken : filling.retrieve tables answer = some retrieved) {dbTx : Tx}
    (isPhase : retrieved.phase = .readHeight dbTx) : ∃ stored ∈ tables.transactions, stored.row = dbTx := by
  simp only [Filling.retrieve] at taken
  split at taken
  · obtain rfl := Option.some.inj taken
    cases isPhase
  · split at taken
    · rename_i isRow
      obtain rfl := Option.some.inj taken
      obtain rfl := FillPhase.readHeight.inj isPhase
      exact Multiset.mem_map.mp isRow.1
    · cases taken
  · cases taken

/-- Calls of `FillAddressTransactions` change nothing but themselves, so the invariant stays. -/
theorem Holds.setFilling (holds : Holds process) (index : Nat) {filling : Filling}
    (near : ∀ dbTx, filling.phase = .readHeight dbTx → Near process.pgb.bestBlock dbTx) :
    Holds { process with filling := process.filling.set index filling } where
  nonneg := holds.nonneg
  small := holds.small
  notAhead := holds.notAhead
  recorded := holds.recorded
  rows := holds.rows
  storing := holds.storing
  filling := by
    intro other member dbTx isPhase
    rcases List.mem_or_eq_of_mem_set member with old | rfl
    · exact holds.filling other old dbTx isPhase
    · exact near dbTx isPhase
  computed := holds.computed

/-- A process that resumes over the tables has at least the best height of the one
before it. -/
theorem Holds.restart (holds : Holds process) : Holds (.opened process.pgb.db process.computed) := by
  have isBest : (newChainDB process.pgb.db).bestBlock = process.pgb.db.heightDB.getD 0 := rfl
  have count : process.pgb.db.count = process.pgb.db.heightDB.elim 0 fun height => height + 1 := rfl
  have small : process.pgb.db.count ≤ 2 ^ 32 := by
    refine ChainTables.count_le_iff.mpr fun row member => ?_
    obtain ⟨stored, -, rfl⟩ := List.mem_map.mp member
    exact stored.row.block.height.toNat_lt
  have resumes := process.pgb.db.lastHeight_succ
  have grown : process.pgb.bestBlock ≤ (newChainDB process.pgb.db).bestBlock ∧
      (newChainDB process.pgb.db).bestBlock < 2 ^ 63 ∧
      (newChainDB process.pgb.db).bestBlock ≤ process.pgb.db.count ∧
      ((newChainDB process.pgb.db).bestBlock = 0 ∨
        (newChainDB process.pgb.db).bestBlock < process.pgb.db.count) := by
    have recorded := holds.recorded
    rw [isBest]
    cases isHeight : process.pgb.db.heightDB with
    | none =>
      rw [isHeight] at count
      simp only [Option.elim_none] at count
      simp only [Option.getD_none]
      omega
    | some height =>
      rw [isHeight] at count
      simp only [Option.elim_some] at count
      simp only [Option.getD_some]
      omega
  obtain ⟨notBelow, bounded, below, recorded⟩ := grown
  refine ⟨by rw [Process.opened, isBest]; omega, bounded, ?_, recorded, ?_, ?_, ?_, holds.computed⟩
  · show (newChainDB process.pgb.db).bestBlock ≤ ((process.pgb.db.lastHeight + 1).toNat : Int)
    omega
  · intro stored member
    exact (holds.rows stored member).mono notBelow
  · intro call phase isCall
    cases isCall
  · intro filling member
    cases member

/-- A call of `StoreBlock` for a block that follows the best height. -/
theorem Holds.storeBlock (holds : Holds process) {call : BlockCall}
    (follows : FollowsBest process (.storeBlock call))
    (isNext : call.msgBlock.header.height.toNat = process.nextHeight) :
    Holds { process with
      storing := some (call, call.begin hcd process.pgb)
      nextHeight := process.nextHeight + 1 } := by
  have notAhead := holds.notAhead
  refine ⟨holds.nonneg, holds.small, ?_, holds.recorded, holds.rows, ?_, holds.filling,
    holds.computed⟩
  · show process.pgb.bestBlock ≤ ((process.nextHeight + 1 : Nat) : Int)
    omega
  · rintro _ _ ⟨⟩
    refine ⟨follows.1, follows.2, ?_, ?_, ?_⟩
    · show process.pgb.bestBlock ≤ (call.msgBlock.header.height.toNat : Int)
      omega
    · show call.msgBlock.header.height.toNat ≤ process.nextHeight + 1
      omega
    · exact ⟨storeTxns_inserts hcd _ _ _ _, storeTxns_inserts hcd _ _ _ _,
        fun stored member => absurd member (Multiset.notMem_zero stored),
        fun stored member => absurd member (Multiset.notMem_zero stored)⟩

/-- A step of the call that moves the best height not, or to the height of its block. -/
theorem Holds.moved (holds : Holds process) {call : BlockCall} {phase next : StorePhase}
    {pgb : ChainDB} (isCall : process.storing = some (call, phase))
    (best : pgb.bestBlock = process.pgb.bestBlock ∨
      pgb.bestBlock = call.msgBlock.header.height.toNat ∧
        call.msgBlock.header.height.toNat < pgb.db.count)
    (counted : process.pgb.db.count ≤ pgb.db.count)
    (rows : ∀ stored ∈ pgb.db.tx.tables.transactions,
      stored ∈ process.pgb.db.tx.tables.transactions ∨ OfBlock call.msgBlock stored.row)
    (phaseOf : PhaseOf call.msgBlock pgb.db next) :
    Holds { process with pgb := pgb, storing := some (call, next) } := by
  obtain ⟨near, dated, notBelow, begun, -⟩ := holds.storing call phase isCall
  have heightSmall := call.msgBlock.header.height.toNat_lt
  have nonneg := holds.nonneg
  have small := holds.small
  have notAhead := holds.notAhead
  have recorded := holds.recorded
  have grown : process.pgb.bestBlock ≤ pgb.bestBlock := by omega
  refine ⟨?_, ?_, ?_, ?_, ?_, ?_, ?_, holds.computed⟩
  · show 0 ≤ pgb.bestBlock
    omega
  · show pgb.bestBlock < 2 ^ 63
    omega
  · show pgb.bestBlock ≤ (process.nextHeight : Int)
    omega
  · show pgb.bestBlock = 0 ∨ pgb.bestBlock < pgb.db.count
    omega
  · intro stored member
    rcases rows stored member with old | ofBlock
    · exact (holds.rows stored old).mono grown
    · exact (ofBlock.near near dated).mono grown
  · rintro _ _ ⟨⟩
    refine ⟨?_, dated, ?_, begun, phaseOf⟩
    · show (call.msgBlock.header.height.toNat : Int) ≤ pgb.bestBlock + 1
      omega
    · show pgb.bestBlock ≤ (call.msgBlock.header.height.toNat : Int)
      omega
  · intro filling member dbTx isPhase
    exact (holds.filling filling member dbTx isPhase).mono grown

/-- Behind the write of the best height nothing that matters here is moved. -/
theorem Holds.linking (holds : Holds process) {call : BlockCall} {phase next : StorePhase}
    {regular : Bool} {pgb : ChainDB} (isCall : process.storing = some (call, phase))
    (linking : phase.Linking) (taken : call.step hcd regular process.pgb phase = some (next, pgb)) :
    Holds { process with pgb := pgb, storing := some (call, next) } := by
  obtain ⟨stays, sameTx, same, sameBest, -⟩ := BlockCall.step_linking linking taken
  refine holds.moved isCall (Or.inl sameBest) (ChainTables.count_congr same).ge ?_ ?_
  · rw [sameTx]
    exact fun _ => Or.inl
  · cases next with
    | trees | insertBlock | setBestBlock => cases stays
    | insertBlockPrevNext | updateLastBlock | updateBlockNext | clear | returning => trivial

/-- A step of the call keeps the invariant, phase by phase. -/
theorem Holds.turn (holds : Holds process) {call : BlockCall} {phase next : StorePhase}
    {regular : Bool} {pgb : ChainDB} (isCall : process.storing = some (call, phase))
    (taken : call.step hcd regular process.pgb phase = some (next, pgb)) :
    Holds { process with pgb := pgb, storing := some (call, next) } := by
  have phaseOf := (holds.storing call phase isCall).phaseOf
  cases phase with
  | trees pair =>
    rcases BlockCall.step_trees taken with
      ⟨moved, tx, turned, rfl, rfl⟩ | ⟨resReg, resStk, _, _, -, rfl, rfl⟩
    · obtain ⟨trees, rows⟩ := TreesOf.turn phaseOf turned
      exact holds.moved isCall (Or.inl rfl) (Nat.le_refl _) rows trees
    · refine holds.moved isCall (Or.inl rfl) (Nat.le_refl _) (fun _ => Or.inl) ?_
      rcases BlockCall.joined_cases hcd call resReg resStk with
        ⟨err, isError⟩ | ⟨txDbIDs, stxDbIDs, counts, isInsert⟩
      · rw [isError]
        trivial
      · rw [isInsert]
        rfl
  | insertBlock dbBlock counts =>
    obtain ⟨db, rfl, sameTx, ⟨⟨err, rfl⟩, same⟩ | ⟨⟨blockDbID, rfl⟩, added⟩⟩ :=
      BlockCall.step_insertBlock taken
    · refine holds.moved isCall (Or.inl rfl) (ChainTables.count_congr same).ge ?_ trivial
      rw [sameTx]
      exact fun _ => Or.inl
    · have isHeight : dbBlock.height = call.msgBlock.header.height := phaseOf
      have count : db.count = max process.pgb.db.count (call.msgBlock.header.height.toNat + 1) := by
        rw [ChainTables.count_append added, isHeight]
      refine holds.moved isCall (Or.inl rfl) ?_ ?_ ⟨isHeight, ?_⟩
      · exact count ▸ Nat.le_max_left _ _
      · rw [sameTx]
        exact fun _ => Or.inl
      · exact count ▸ Nat.le_max_right _ _
  | setBestBlock dbBlock counts blockDbID =>
    obtain ⟨isHeight, counted⟩ := phaseOf
    obtain ⟨rfl, rfl⟩ := Prod.mk.inj (Option.some.inj taken)
    refine holds.moved isCall (Or.inr ⟨?_, counted⟩) (Nat.le_refl _) (fun _ => Or.inl) trivial
    rw [isHeight]
  | insertBlockPrevNext | updateLastBlock | updateBlockNext | clear | returning =>
    exact holds.linking isCall trivial taken

/-- Confirmations computed for a retrieved row are exact, since the row is near the best height
that is read. -/
theorem Holds.readHeight (holds : Holds process) {index : Nat} {filling : Filling} {dbTx : Tx}
    (isFilling : process.filling[index]? = some filling) (isPhase : filling.phase = .readHeight dbTx) :
    Holds { process with
      filling := process.filling.set index (filling.fill process.pgb.height dbTx)
      computed := process.computed ++
        [⟨dbTx, process.pgb.bestBlock, confirmations process.pgb.height dbTx⟩] } := by
  have near := holds.filling filling (List.mem_of_getElem? isFilling) dbTx isPhase
  have exact_ : (⟨dbTx, process.pgb.bestBlock, confirmations process.pgb.height dbTx⟩ :
      Confirmed).Exact := by
    refine (confirmations_exact_iff holds.nonneg holds.small near.nonneg).mpr ⟨fun _ => near.dated, ?_⟩
    intro above
    have := near.near
    omega
  have kept : Holds { process with
      filling := process.filling.set index (filling.fill process.pgb.height dbTx) } := by
    refine holds.setFilling index ?_
    rintro _ ⟨⟩
  refine ⟨kept.nonneg, kept.small, kept.notAhead, kept.recorded, kept.rows, kept.storing,
    kept.filling, ?_⟩
  intro confirmed member
  rcases List.mem_append.mp member with old | isNew
  · exact holds.computed confirmed old
  · obtain rfl := List.mem_singleton.mp isNew
    exact exact_

/-- Every event keeps the invariant when a block that is begun follows the best height. -/
theorem Holds.step (holds : Holds process) {event : Event} (follows : FollowsBest process event)
    (taken : step hcd process event = some next) : Holds next := by
  cases event with
  | restart =>
    obtain rfl := Option.some.inj taken
    exact holds.restart
  | checkDuplicates dupCheck =>
    obtain rfl := Option.some.inj taken
    refine ⟨holds.nonneg, holds.small, holds.notAhead, holds.recorded, holds.rows, ?_, holds.filling,
      holds.computed⟩
    intro call phase isCall
    obtain ⟨near, dated, notBelow, begun, phaseOf⟩ := holds.storing call phase isCall
    exact ⟨near, dated, notBelow, begun, phaseOf⟩
  | storeBlock call =>
    simp only [Confirmations.step] at taken
    split at taken
    · rename_i allowed
      obtain rfl := Option.some.inj taken
      exact holds.storeBlock follows allowed.2
    · cases taken
  | turn regular =>
    obtain ⟨⟨call, phase⟩, isCall, moved⟩ := Option.bind_eq_some_iff.mp taken
    obtain ⟨⟨stepped, pgb⟩, took, rfl⟩ := Option.map_eq_some_iff.mp moved
    exact holds.turn isCall took
  | fillAddressTransactions txIDs =>
    obtain rfl := Option.some.inj taken
    refine ⟨holds.nonneg, holds.small, holds.notAhead, holds.recorded, holds.rows, holds.storing, ?_,
      holds.computed⟩
    intro filling member dbTx isPhase
    rcases List.mem_append.mp member with old | isNew
    · exact holds.filling filling old dbTx isPhase
    · obtain rfl := List.mem_singleton.mp isNew
      cases isPhase
  | retrieve index answer =>
    obtain ⟨filling, isFilling, moved⟩ := Option.bind_eq_some_iff.mp taken
    obtain ⟨retrieved, answered, rfl⟩ := Option.map_eq_some_iff.mp moved
    refine holds.setFilling index fun dbTx isPhase => ?_
    obtain ⟨stored, member, rfl⟩ := Filling.retrieve_row answered isPhase
    exact holds.rows stored member
  | readHeight index =>
    obtain ⟨filling, isFilling, moved⟩ := Option.bind_eq_some_iff.mp taken
    split at moved
    · rename_i dbTx isPhase
      obtain rfl := Option.some.inj moved
      exact holds.readHeight isFilling isPhase
    · cases moved
  | finish index =>
    obtain ⟨filling, isFilling, moved⟩ := Option.bind_eq_some_iff.mp taken
    obtain ⟨finished, returned, rfl⟩ := Option.map_eq_some_iff.mp moved
    refine holds.setFilling index fun dbTx isPhase => ?_
    simp only [Filling.finish] at returned
    split at returned
    · obtain rfl := Option.some.inj returned
      cases isPhase
    · cases returned

/-- The invariant holds of the tables as they are created, before any block and call. -/
theorem holds_created : Holds (.opened .created []) := by
  refine ⟨le_rfl, by decide, by decide, Or.inl rfl, ?_, ?_, ?_, ?_⟩
  · intro stored member
    cases Multiset.notMem_zero stored member
  · rintro _ _ ⟨⟩
  · intro filling member
    cases member
  · intro confirmed member
    cases member

/-- Computed confirmations never wrap around, in every run from the created tables in
which each block that is begun follows the best height.

One event keeps the invariant, and the computed confirmations are part of it. -/
theorem confirmations_exact {events : List Event} {final : Process}
    (follows : Admitted (step hcd) FollowsBest (.opened .created []) events)
    (ran : exec (step hcd) (.opened .created []) events = some final) :
    ∀ confirmed ∈ final.computed, confirmed.Exact :=
  (exec_invariant Holds (fun _ _ _ holds allowed taken => holds.step allowed taken) holds_created
    follows ran).computed

end Runs

section Samples

instance (process : Process) : (event : Event) → Decidable (FollowsBest process event)
  | .storeBlock call => inferInstanceAs (Decidable (_ ∧ 0 < call.msgBlock.header.timestamp))
  | .restart | .checkDuplicates _ | .turn _ | .fillAddressTransactions _ | .retrieve _ _
  | .readHeight _ | .finish _ => isTrue trivial

/-- A sample block with a time that is not zero, so that its transactions count as confirmed. -/
def dated (block : MsgBlock) : MsgBlock := { block with header := { block.header with timestamp := 1 } }

/-- A block at height 2 with a ticket purchase. -/
def ticketBlock : MsgBlock := Sample.block 2 5 (Sample.hcd.hashOf Sample.firstBlock) [Sample.ticket 9]

/-- A call of `StoreBlock` whose INSERT of the block may fail. -/
def sampleCall (block : MsgBlock) (insertBlock : Option String) : BlockCall :=
  ⟨dated block, true, true, ⟨[], fun _ => none, fun _ => none, insertBlock, none, none, none⟩⟩

/-- The two goroutines, one after the other, for a block with so many statements. -/
def sampleTrees (regular stake : Nat) : List Event :=
  List.replicate regular (.turn true) ++ List.replicate stake (.turn false)

/-- The genesis block is stored, by the statements of its two goroutines. -/
def storedGenesis : List Event :=
  [.storeBlock (sampleCall Sample.genesis none)] ++ sampleTrees 6 6 ++ List.replicate 5 (.turn true)

/-- The row of the ticket of a block, with the id of its output. -/
def ticketRow (block : MsgBlock) (ticket : MsgTx) (voutDbID : Nat) : Tx :=
  { txOf Sample.hcd (dated block) .stake ticket 0 with voutDbIds := [voutDbID], vinDbIds := [] }

/-- `FillAddressTransactions` for one transaction, from its start to its return. -/
def sampleFill (index : Nat) (row : Tx) : List Event :=
  [.fillAddressTransactions [row.txID], .retrieve index (.ok row), .readHeight index, .finish index]

/-- The ticket of block 1 is looked at when its transactions are committed, and again
when its height is recorded. -/
def lookedAtTwice : List Event :=
  storedGenesis ++ [.storeBlock (sampleCall Sample.firstBlock none)] ++ sampleTrees 6 14 ++
    sampleFill 0 (ticketRow Sample.firstBlock (Sample.ticket 7) 1) ++ List.replicate 5 (.turn true) ++
    sampleFill 1 (ticketRow Sample.firstBlock (Sample.ticket 7) 1)

/-- The INSERT of block 1 fails, and the ticket of block 2 is looked at when its
transactions are committed. -/
def skippedBlock : List Event :=
  storedGenesis ++ [.storeBlock (sampleCall Sample.firstBlock (some "connection reset"))] ++
    sampleTrees 6 14 ++ List.replicate 2 (.turn true) ++ [.storeBlock (sampleCall ticketBlock none)] ++
    sampleTrees 6 14 ++ sampleFill 0 (ticketRow ticketBlock (Sample.ticket 9) 2)

/-- The law at a run: first no confirmation, then one. -/
theorem confirmations_exact_lookedAtTwice :
    ∃ final, exec (step Sample.hcd) (.opened .created []) lookedAtTwice = some final ∧
      final.computed.map Confirmed.confirmations = [0, 1] ∧
      ∀ confirmed ∈ final.computed, confirmed.Exact := by
  have follows : Admitted (step Sample.hcd) FollowsBest (.opened .created []) lookedAtTwice := by
    decide +kernel
  have evaluates : (exec (step Sample.hcd) (.opened .created []) lookedAtTwice).map
      (fun final => final.computed.map Confirmed.confirmations) = some [0, 1] := by
    decide +kernel
  obtain ⟨final, ran, isFinal⟩ := Option.map_eq_some_iff.mp evaluates
  exact ⟨final, ran, isFinal, confirmations_exact follows ran⟩

/-- Block 2 is stored while the best height is 0, since block 1 failed before its height
was recorded: its ticket has 2^64 - 1 confirmations. -/
theorem confirmations_wrap :
    ∃ final, exec (step Sample.hcd) (.opened .created []) skippedBlock = some final ∧
      ∃ confirmed ∈ final.computed, confirmed.confirmations.toNat = 2 ^ 64 - 1 ∧
        ¬ confirmed.Exact := by
  have evaluates : (exec (step Sample.hcd) (.opened .created []) skippedBlock).map
      (fun final => final.computed.map fun confirmed =>
        (confirmed.dbTx.blockHeight.toInt, confirmed.best, confirmed.confirmations.toNat)) =
      some [(2, 0, 2 ^ 64 - 1)] := by
    decide +kernel
  obtain ⟨final, ran, isFinal⟩ := Option.map_eq_some_iff.mp evaluates
  obtain ⟨confirmed, isOnly, values⟩ := List.map_eq_singleton_iff.mp isFinal
  simp only [Prod.mk.injEq] at values
  obtain ⟨isHeight, isBest, isWrapped⟩ := values
  refine ⟨final, ran, confirmed, isOnly ▸ List.mem_singleton.mpr rfl, isWrapped, ?_⟩
  rw [Confirmed.Exact, isHeight, isBest, isWrapped]
  decide

end Samples

end Confirmations

end Hcexplorer.Hcpg

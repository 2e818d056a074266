import Hcexplorer.Hcpg.Queries

/-!
# Transactions written and read back

`InsertTxns` binds twenty-one values of a transaction to as many columns, two of them arrays
of row ids. `RetrieveDbTxByHash` selects all but two of these columns and scans them. Each
value is scanned into the field that it was bound from, but for the arrays: they are scanned
into two local variables, made before the scan, that are not assigned to the transaction.

So a transaction is read back as it was inserted just when it has no row ids, and when what
the table had under its hash before reads the same.
-/

namespace Hcexplorer.Hcpg

open ScannedColumns Interactive Dbtypes

section Model

/-- The columns of the transactions table, by their names in the statements. -/
inductive TxColumn where
  | id
  | blockHash
  | blockHeight
  | blockTime
  | time
  | txType
  | version
  | tree
  | txHash
  | blockIndex
  | lockTime
  | expiry
  | size
  | spent
  | sent
  | fees
  | numVin
  | vins
  | vinDbIds
  | numVout
  | vouts
  | voutDbIds
deriving DecidableEq, Repr

/-- The columns of `insertTxRow0`, behind the id, in the order of its values. -/
def insertTxRow0 : List TxColumn :=
  [.id, .blockHash, .blockHeight, .blockTime, .time,
    .txType, .version, .tree, .txHash, .blockIndex,
    .lockTime, .expiry, .size, .spent, .sent, .fees,
    .numVin, .vins, .vinDbIds,
    .numVout, .vouts, .voutDbIds]

/-- `UInt64Array` of a slice of row ids, which is never nil here. -/
def rowIdArray (ids : List Nat) : UInt64Array := some (ids.map UInt64.ofNat)

/-- A row of the transactions table: its id, and what `InsertTxns` binds. -/
def txRow (stored : Stored Tx) : TxColumn → Datum :=
  let tx := stored.row
  insertedRow .null insertTxRow0 [.int stored.id,
    .hash tx.blockHash, .int (int64.value tx.blockHeight), .int (int64.value tx.blockTime),
    .int (int64.value tx.time), .int (int16.value tx.txType), .int (uint16.value tx.version),
    .int (int8.value tx.tree), .hash tx.txID, .int (uint32.value tx.blockIndex),
    .int (uint32.value tx.locktime), .int (uint32.value tx.expiry), .int (uint32.value tx.size),
    .int (int64.value tx.spent), .int (int64.value tx.sent), .int (int64.value tx.fees),
    .int (uint32.value tx.numVin), .json, .ofArray (rowIdArray tx.vinDbIds),
    .int (uint32.value tx.numVout), .null, .ofArray (rowIdArray tx.voutDbIds)]

/-- The columns of `SelectFullTxByHash`, in the order in which they are selected. -/
def selectFullTxByHash : List TxColumn :=
  [.id, .blockHash, .blockHeight, .blockTime,
    .time, .txType, .version, .tree, .txHash, .blockIndex, .lockTime, .expiry,
    .size, .spent, .sent, .fees, .numVin, .vinDbIds, .numVout, .voutDbIds]

/-- `new(dbtypes.Tx)`. The hash zero stands for an empty text. -/
def newTx : Tx := ⟨0, 0, 0, 0, 0, 0, 0, 0, 0, 0, 0, 0, 0, 0, 0, 0, [], 0, []⟩

/-- The variables of `RetrieveDbTxByHash`: the row id, the transaction, and two arrays of which
nothing is read. -/
structure DbTxLocals where
  id : UInt64
  dbTx : Tx
  vinDbIDs : UInt64Array
  voutDbIDs : UInt64Array
deriving DecidableEq

/-- The variables before the scan, with a new transaction and nil arrays. -/
def DbTxLocals.start : DbTxLocals := ⟨0, newTx, none, none⟩

/-- A destination in the transaction, for a column that is scanned into one of its fields. -/
def DbTxLocals.field {α : Type} (assign : α → Tx → Tx) (value : α) (locals : DbTxLocals) : DbTxLocals :=
  { locals with dbTx := assign value locals.dbTx }

/-- The destinations of `RetrieveDbTxByHash`, in the order of the selected columns. -/
def dbTxDestinations : List (Destination Datum ConvertError DbTxLocals) := [
  intTo uint64 fun id locals => { locals with id := id },
  hashTo (.field fun blockHash tx => { tx with blockHash := blockHash }),
  intTo int64 (.field fun blockHeight tx => { tx with blockHeight := blockHeight }),
  intTo int64 (.field fun blockTime tx => { tx with blockTime := blockTime }),
  intTo int64 (.field fun time tx => { tx with time := time }),
  intTo int16 (.field fun txType tx => { tx with txType := txType }),
  intTo uint16 (.field fun version tx => { tx with version := version }),
  intTo int8 (.field fun tree tx => { tx with tree := tree }),
  hashTo (.field fun txID tx => { tx with txID := txID }),
  intTo uint32 (.field fun blockIndex tx => { tx with blockIndex := blockIndex }),
  intTo uint32 (.field fun locktime tx => { tx with locktime := locktime }),
  intTo uint32 (.field fun expiry tx => { tx with expiry := expiry }),
  intTo uint32 (.field fun size tx => { tx with size := size }),
  intTo int64 (.field fun spent tx => { tx with spent := spent }),
  intTo int64 (.field fun sent tx => { tx with sent := sent }),
  intTo int64 (.field fun fees tx => { tx with fees := fees }),
  intTo uint32 (.field fun numVin tx => { tx with numVin := numVin }),
  arrayTo DbTxLocals.vinDbIDs fun vinDbIDs locals => { locals with vinDbIDs := vinDbIDs },
  intTo uint32 (.field fun numVout tx => { tx with numVout := numVout }),
  arrayTo DbTxLocals.voutDbIDs fun voutDbIDs locals => { locals with voutDbIDs := voutDbIDs }]

/-- `RetrieveDbTxByHash`, which scans the first row with the hash and returns an error where
there is none. -/
def retrieveDbTxByHash (fault : Option String) (txHash : Hash) (transactions : Listing Tx) :
    (UInt64 × Tx) × Err :=
  let found := transactions.rows.filter fun stored => stored.row.txID = txHash
  let (err, locals) := queryRow fault dbTxDestinations
    (found.map fun stored => selected selectFullTxByHash (txRow stored)) .start
  ((locals.id, locals.dbTx), err)

end Model

section Reading

/-- The transaction without the row ids of its inputs and outputs. -/
def Tx.withoutIds (tx : Tx) : Tx := { tx with vinDbIds := [], voutDbIds := [] }

/-- A row is scanned without an error: every field but the arrays is as it was bound, and the
arrays are, in the local variables. -/
theorem scan_txRow {transactions : Listing Tx} {stored : Stored Tx} (member : stored ∈ transactions.rows) :
    scan dbTxDestinations (selected selectFullTxByHash (txRow stored)) .start =
      (none, ⟨UInt64.ofNat stored.id, stored.row.withoutIds, rowIdArray stored.row.vinDbIds,
        rowIdArray stored.row.voutDbIds⟩) := by
  have values : selected selectFullTxByHash (txRow stored) =
      [.int (uint64.value (UInt64.ofNat stored.id)),
        .hash stored.row.blockHash, .int (int64.value stored.row.blockHeight),
        .int (int64.value stored.row.blockTime), .int (int64.value stored.row.time),
        .int (int16.value stored.row.txType), .int (uint16.value stored.row.version),
        .int (int8.value stored.row.tree), .hash stored.row.txID,
        .int (uint32.value stored.row.blockIndex), .int (uint32.value stored.row.locktime),
        .int (uint32.value stored.row.expiry), .int (uint32.value stored.row.size),
        .int (int64.value stored.row.spent), .int (int64.value stored.row.sent),
        .int (int64.value stored.row.fees), .int (uint32.value stored.row.numVin),
        .ofArray (rowIdArray stored.row.vinDbIds), .int (uint32.value stored.row.numVout),
        .ofArray (rowIdArray stored.row.voutDbIds)] := by
    rw [← transactions.id_value member]
    rfl
  rw [values, scan_eq rfl]
  simp only [dbTxDestinations, DbTxLocals.start, newTx, assignAll_int, assignAll_hash, assignAll_array,
    DbTxLocals.field]
  rfl

end Reading

section Writing

variable {dbTxns : List Tx} {checked : Bool} {here after : Conn} {db final : TxDb}

/-- A run of the loop adds rows of its items to the open transaction, and every item has a row
with its hash there or in the tables then. Induction on the items: one is refused, or inserted, or
meets a row with its hashes. -/
theorem insertLoop_rows {inserted : List (Tx × Nat)}
    (ran : postgres.solo (insertLoop (Insert.tx checked) id dbTxns) here db =
      (.ok inserted, after, final)) :
    final.tables = db.tables ∧ ∃ new : Multiset (Stored Tx),
      after.pending.transactions = here.pending.transactions + new ∧
      (∀ stored ∈ new, stored.row ∈ dbTxns) ∧
      ∀ tx ∈ dbTxns, ∃ stored ∈ db.tables.transactions + after.pending.transactions,
        stored.row.txID = tx.txID := by
  induction dbTxns generalizing here db inserted with
  | nil =>
    obtain ⟨-, rfl, rfl⟩ : _ ∧ here = after ∧ db = final := by simpa [insertLoop, Server.solo] using ran
    exact ⟨rfl, 0, (add_zero _).symm, fun stored member => absurd member (Multiset.notMem_zero _),
      fun tx member => by cases member⟩
  | cons tx rest inductionHypothesis =>
    cases faulty : here.faults here.issued with
    | some err =>
      simp only [insertLoop, Server.solo, postgres, reply, faulty, failure] at ran
      cases ran
    | none =>
      by_cases conflict : (Insert.tx checked tx).conflicts (db.tables + here.pending)
      · simp only [insertLoop, Server.solo, postgres, reply, faulty, if_pos conflict, failure] at ran
        obtain ⟨tables, new, grown, own, present⟩ := inductionHypothesis ran
        refine ⟨tables, new, grown, fun stored member => List.mem_cons_of_mem _ (own stored member), ?_⟩
        intro each member
        rcases List.mem_cons.mp member with rfl | member
        · obtain ⟨stored, isStored, same⟩ := Multiset.mem_map.mp conflict.2
          refine ⟨stored, ?_, congrArg Prod.fst same⟩
          rw [grown, ← add_assoc]
          exact Multiset.mem_add.mpr (Or.inl isStored)
        · exact present each member
      · simp only [insertLoop, Server.solo, postgres, reply, faulty, if_neg conflict] at ran
        obtain ⟨more, hereMiddle, stateMiddle, ranRest, ended⟩ := Server.solo_attempt_ok ran
        obtain ⟨-, rfl, rfl⟩ : _ ∧ hereMiddle = after ∧ stateMiddle = final := by
          simpa [Server.solo] using ended
        obtain ⟨tables, new, grown, own, present⟩ := inductionHypothesis ranRest
        have added : (advance (.insert (.tx checked tx)) (.ok (some (db.sequences .transactions))) here).pending.transactions =
            here.pending.transactions + {⟨db.sequences .transactions, tx⟩} := rfl
        refine ⟨tables, {⟨db.sequences .transactions, tx⟩} + new, ?_, ?_, ?_⟩
        · rw [← add_assoc]
          exact grown
        · intro stored member
          rcases Multiset.mem_add.mp member with first | later
          · obtain rfl := Multiset.mem_singleton.mp first
            exact List.mem_cons_self
          · exact List.mem_cons_of_mem _ (own stored later)
        · intro each member
          rcases List.mem_cons.mp member with rfl | member
          · refine ⟨⟨db.sequences .transactions, each⟩, Multiset.mem_add.mpr (Or.inr ?_), rfl⟩
            rw [grown]
            exact Multiset.mem_add.mpr (Or.inl (Multiset.mem_add.mpr (Or.inr (Multiset.mem_singleton_self _))))
          · exact present each member

/-- `InsertTxns` that succeeds adds rows of its transactions to the table, and each of these has
a row with its hash then. -/
theorem insertTxns_rows {faults : Nat → Option String} {ids : List Nat}
    (ran : postgres.solo (insertTxns dbTxns checked) (Conn.fresh faults) db = (.ok ids, after, final)) :
    ∃ new : Multiset (Stored Tx), final.tables.transactions = db.tables.transactions + new ∧
      (∀ stored ∈ new, stored.row ∈ dbTxns) ∧
      ∀ tx ∈ dbTxns, ∃ stored ∈ final.tables.transactions, stored.row.txID = tx.txID := by
  obtain ⟨inserted, hereInserted, stateInserted, ranAll, ended⟩ := Server.solo_attempt_ok ran
  obtain ⟨-, rfl, rfl⟩ : _ ∧ hereInserted = after ∧ stateInserted = final := by
    simpa [Server.solo] using ended
  cases begins : faults 0 with
  | some err =>
    simp only [insertAll, Server.solo, postgres, reply, Conn.fresh, begins] at ranAll
    cases ranAll
  | none =>
    cases prepares : faults 1 with
    | some err =>
      simp only [insertAll, Server.solo, postgres, reply, Conn.fresh, advance, begins, prepares] at ranAll
      cases ranAll
    | none =>
      simp only [insertAll, Server.solo, postgres, reply, Conn.fresh, advance, effect, Effect.apply, begins,
        prepares] at ranAll
      obtain ⟨pairs, hereLoop, stateLoop, ranLoop, committing⟩ := Server.solo_attempt_ok ranAll
      obtain ⟨tables, new, grown, own, present⟩ := insertLoop_rows ranLoop
      cases commits : hereLoop.faults hereLoop.issued with
      | some err =>
        simp only [Server.solo, reply, commits] at committing
        cases committing
      | none =>
        simp only [Server.solo, reply, commits, effect, Effect.apply, Prod.mk.injEq] at committing
        obtain ⟨-, -, rfl⟩ := committing
        have pending : hereLoop.pending.transactions = new := grown.trans (zero_add new)
        have transactions : (stateLoop.tables + hereLoop.pending).transactions =
            db.tables.transactions + hereLoop.pending.transactions := by
          rw [TxTables.add_transactions, tables]
        refine ⟨new, ?_, own, fun tx member => ?_⟩
        · show (stateLoop.tables + hereLoop.pending).transactions = _
          rw [transactions, pending]
        · obtain ⟨stored, isStored, same⟩ := present tx member
          refine ⟨stored, ?_, same⟩
          show stored ∈ (stateLoop.tables + hereLoop.pending).transactions
          rw [transactions]
          exact isStored

end Writing

section Law

/-- Each transaction is read back by its hash as it was inserted, whatever the order of the rows. -/
def ReadBack (transactions : Multiset (Stored Tx)) (dbTxns : List Tx) : Prop :=
  ∀ tx ∈ dbTxns, ∀ listing : Listing Tx, (listing.rows : Multiset (Stored Tx)) = transactions →
    ∃ id, retrieveDbTxByHash none tx.txID listing = ((id, tx), none)

/-- What is read is the first row with the hash, without its row ids. -/
theorem retrieveDbTxByHash_cons {txHash : Hash} {transactions : Listing Tx} {stored : Stored Tx}
    {rest : List (Stored Tx)}
    (found : transactions.rows.filter (fun stored => stored.row.txID = txHash) = stored :: rest) :
    retrieveDbTxByHash none txHash transactions =
      ((UInt64.ofNat stored.id, stored.row.withoutIds), none) := by
  have member : stored ∈ transactions.rows := by
    have isFound : stored ∈ transactions.rows.filter (fun stored => stored.row.txID = txHash) := by
      rw [found]
      exact List.mem_cons_self
    exact List.mem_of_mem_filter isFound
  simp only [retrieveDbTxByHash, found, List.map_cons, queryRow, scan_txRow member]

/-- Only what has no row ids is itself without them. -/
theorem Tx.withoutIds_eq_iff {tx : Tx} :
    tx.withoutIds = tx ↔ tx.vinDbIds = [] ∧ tx.voutDbIds = [] := by
  constructor
  · intro same
    exact ⟨(congrArg Tx.vinDbIds same).symm, (congrArg Tx.voutDbIds same).symm⟩
  · rintro ⟨noVins, noVouts⟩
    cases tx
    cases noVins
    cases noVouts
    rfl

/-- What is read back are all rows with its hash: any of them can be the first one that is read. -/
theorem ReadBack.reads {transactions : Multiset (Stored Tx)} {dbTxns : List Tx}
    (readBack : ReadBack transactions dbTxns)
    (fits : ∀ stored ∈ transactions, stored.id < 9223372036854775808) {tx : Tx} (member : tx ∈ dbTxns)
    {stored : Stored Tx} (isStored : stored ∈ transactions) (same : stored.row.txID = tx.txID) :
    stored.row.withoutIds = tx := by
  obtain ⟨others, split⟩ := Multiset.exists_cons_of_mem isStored
  obtain ⟨rest, rfl⟩ := Quot.exists_rep others
  have rows : ((stored :: rest : List (Stored Tx)) : Multiset (Stored Tx)) = transactions := split.symm
  let listing : Listing Tx := ⟨stored :: rest, fun each isEach =>
    fits each (rows ▸ Multiset.mem_coe.mpr isEach)⟩
  have found : listing.rows.filter (fun stored => stored.row.txID = tx.txID) =
      stored :: rest.filter (fun stored => stored.row.txID = tx.txID) :=
    List.filter_cons_of_pos (decide_eq_true same)
  obtain ⟨id, isRead⟩ := readBack tx member listing rows
  rw [retrieveDbTxByHash_cons found] at isRead
  exact congrArg (fun result => result.1.2) isRead

/-- A transaction is read back from a table that has its hash, if all rows with the hash are it. -/
theorem readBack_of_reads {transactions : Multiset (Stored Tx)} {dbTxns : List Tx}
    (present : ∀ tx ∈ dbTxns, ∃ stored ∈ transactions, stored.row.txID = tx.txID)
    (reads : ∀ tx ∈ dbTxns, ∀ stored ∈ transactions, stored.row.txID = tx.txID →
      stored.row.withoutIds = tx) : ReadBack transactions dbTxns := by
  intro tx member listing rows
  obtain ⟨stored, isStored, same⟩ := present tx member
  have some_ : stored ∈ listing.rows.filter (fun stored => stored.row.txID = tx.txID) := by
    rw [List.mem_filter, decide_eq_true_eq]
    exact ⟨Multiset.mem_coe.mp (rows ▸ isStored), same⟩
  obtain ⟨first, rest, found⟩ := List.exists_cons_of_ne_nil (List.ne_nil_of_mem some_)
  have isFirst : first ∈ listing.rows.filter (fun stored => stored.row.txID = tx.txID) := by
    rw [found]
    exact List.mem_cons_self
  rw [List.mem_filter, decide_eq_true_eq] at isFirst
  have inTable : first ∈ transactions := rows ▸ Multiset.mem_coe.mpr isFirst.1
  exact ⟨_, by rw [retrieveDbTxByHash_cons found, reads tx member first inTable isFirst.2]⟩

/-- Transactions with distinct hashes that `InsertTxns` wrote are read back as they were just when
they have no row ids, and what the table had under their hashes before is the same but for
row ids. -/
theorem readBack_iff {dbTxns : List Tx} {checked : Bool} {faults : Nat → Option String} {db final : TxDb}
    {ids : List Nat} {after : Conn} (distinct : (dbTxns.map Tx.txID).Nodup)
    (ran : postgres.solo (insertTxns dbTxns checked) (Conn.fresh faults) db = (.ok ids, after, final))
    (fits : ∀ stored ∈ final.tables.transactions, stored.id < 9223372036854775808) :
    ReadBack final.tables.transactions dbTxns ↔
      ∀ tx ∈ dbTxns, (tx.vinDbIds = [] ∧ tx.voutDbIds = []) ∧
        ∀ stored ∈ db.tables.transactions, stored.row.txID = tx.txID →
          stored.row.withoutIds = tx.withoutIds := by
  obtain ⟨new, grown, own, present⟩ := insertTxns_rows ran
  constructor
  · intro readBack tx member
    obtain ⟨stored, isStored, same⟩ := present tx member
    have isBare : tx.vinDbIds = [] ∧ tx.voutDbIds = [] := by
      rw [← readBack.reads fits member isStored same]
      exact ⟨rfl, rfl⟩
    refine ⟨isBare, fun stored isStored same => ?_⟩
    rw [Tx.withoutIds_eq_iff.mpr isBare]
    exact readBack.reads fits member (grown ▸ Multiset.mem_add.mpr (Or.inl isStored)) same
  · intro condition
    refine readBack_of_reads present fun tx member stored isStored same => ?_
    obtain ⟨isBare, before⟩ := condition tx member
    rcases Multiset.mem_add.mp (grown ▸ isStored) with old | added
    · rw [before stored old same]
      exact Tx.withoutIds_eq_iff.mpr isBare
    · rw [List.inj_on_of_nodup_map distinct (own stored added) member same]
      exact Tx.withoutIds_eq_iff.mpr isBare

end Law

section Samples

/-- A transaction without row ids of inputs and outputs. -/
def bareTx : Tx := { newTx with blockHash := 7, txID := 9, size := 200, fees := -1 }

/-- Tables without rows, with their sequences at one. -/
def noRows : TxDb := ⟨0, fun _ => 1⟩

/-- Another transaction, with its own hash and fees. -/
def otherTx : Tx := { bareTx with txID := 10, fees := 3 }

/-- Tables that have the other transaction already. -/
def otherRows : TxDb where
  tables := { noRows.tables with transactions := {⟨1, otherTx⟩} }
  sequences := fun _ => 2

/-- The law for both over these tables: the other one is not inserted again, and both are read
back. -/
theorem readBack_bareTxs :
    let inserted := postgres.solo (insertTxns [bareTx, otherTx] true) (Conn.fresh fun _ => none)
      otherRows
    ReadBack inserted.2.2.tables.transactions [bareTx, otherTx] := by
  intro inserted
  have distinct : ([bareTx, otherTx].map Tx.txID).Nodup := by decide
  have ran : inserted = (.ok [2], inserted.2.1, inserted.2.2) := Prod.ext rfl rfl
  have rows : inserted.2.2.tables.transactions = {⟨2, bareTx⟩, ⟨1, otherTx⟩} := by decide +kernel
  refine (readBack_iff distinct ran ?_).mpr ?_
  · intro stored member
    rw [rows, Multiset.insert_eq_cons, Multiset.mem_cons, Multiset.mem_singleton] at member
    rcases member with rfl | rfl <;> decide
  · intro tx member
    have old : ∀ stored ∈ otherRows.tables.transactions, stored = ⟨1, otherTx⟩ :=
      fun stored isStored => Multiset.mem_singleton.mp isStored
    rcases List.mem_pair.mp member with rfl | rfl
    · refine ⟨⟨rfl, rfl⟩, fun stored isStored same => ?_⟩
      rw [old stored isStored] at same
      exact absurd same (by decide)
    · refine ⟨⟨rfl, rfl⟩, fun stored isStored _ => ?_⟩
      rw [old stored isStored]

/-- A transaction with an input and two outputs, and with their row ids. -/
def storedTx : Tx := { bareTx with numVin := 1, vinDbIds := [4], numVout := 2, voutDbIds := [5, 6] }

/-- The row ids of the transaction with an input and two outputs are not read back. -/
theorem readBack_storedTx :
    ¬ ReadBack (postgres.solo (insertTxns [storedTx] true) (Conn.fresh fun _ => none)
      noRows).2.2.tables.transactions [storedTx] := by
  intro readBack
  let listing : Listing Tx := ⟨[⟨1, storedTx⟩], by decide⟩
  obtain ⟨id, isRead⟩ := readBack storedTx List.mem_cons_self listing rfl
  have ids := congrArg (fun result => result.1.2.vinDbIds) isRead
  rw [retrieveDbTxByHash_cons rfl] at ids
  cases ids

end Samples

end Hcexplorer.Hcpg

import Hcexplorer.Hcpg.Tables

/-!
# Storing the transactions of a tree

`storeTxns` as the statements it issues, one after another, on one connection.
Each of its insertions is a database transaction: it begins, prepares one INSERT,
runs it for each item and commits. On the first error it rolls back and returns
the error. What an insertion does about a row that was not inserted (no row is
returned, `sql.ErrNoRows`) is a parameter: outputs, transactions and addresses are
skipped, an input is an error.

The ids of the inserted transactions come back as a list from which the skipped
ones are missing. The loops after it run over that list and index the extracted
transactions by position, as the source does.

The creation of a missing addresses table and the number of updated address rows,
which nothing reads, are left out.
-/

namespace Hcexplorer.Hcpg

open Interactive

/-- A function that issues statements to the database, and returns a value or an error. -/
abbrev Sql (α : Type) := Prog Statement Reply (Except String α)

/-- Why a row was not inserted: an error of the driver, or no row. -/
def failure : Reply → Option String
  | .ok _ => none
  | .error err => some err

/-- Run the prepared statement for each item. `refuse` turns the reason a row was
not inserted into the error to return, if it is one. -/
def insertLoop {α : Type} (statement : α → Insert) (refuse : Option String → Option String) :
    List α → Sql (List (α × Nat))
  | [] => .ret (.ok [])
  | item :: rest => .call (.insert (statement item)) fun
    | .ok (some id) => (insertLoop statement refuse rest).attempt fun inserted =>
        .ret (.ok ((item, id) :: inserted))
    | other =>
      match refuse (failure other) with
      | none => insertLoop statement refuse rest
      | some err => .call .rollback fun _ => .ret (.error err)

/-- One insertion: the database transaction around the loop. It returns the
inserted items with their row ids. -/
def insertAll {α : Type} (statement : α → Insert) (refuse : Option String → Option String)
    (items : List α) : Sql (List (α × Nat)) :=
  .call .begin fun
  | .error err => .ret (.error ("unable to begin database transaction: " ++ err))
  | .ok _ => .call .prepare fun
    | .error err => .call .rollback fun _ => .ret (.error err)
    | .ok _ => (insertLoop statement refuse items).attempt fun inserted => .call .commit fun
      | .error err => .ret (.error err)
      | .ok _ => .ret (.ok inserted)

/-- The address rows of an inserted output, their funding transaction not inserted
yet. -/
def addressRowsOf (vout : Vout) (voutDbID : Nat) : List AddressRow :=
  vout.scriptPubKeyData.addresses.map fun addr =>
    { address := addr
      fundingTxDbID := 0
      fundingTxHash := vout.txHash
      fundingTxVoutIndex := vout.txIndex
      voutDbID := voutDbID
      value := vout.value
      spending := none }

/-- `InsertVouts`. The statement is the same whether checked or not. -/
def insertVouts (dbVouts : List Vout) (_checked : Bool) : Sql (List Nat × List AddressRow) :=
  (insertAll Insert.vout id dbVouts).attempt fun inserted =>
    .ret (.ok (inserted.map Prod.snd, inserted.flatMap fun (vout, voutDbID) =>
      addressRowsOf vout voutDbID))

/-- `InsertVins`, which returns the row ids; an insertion without a row is an error. -/
def insertVins (dbVins : List VinTxProperty) : Sql (List Nat) :=
  (insertAll Insert.vin (fun cause =>
      some ("InsertVins INSERT exec failed: " ++ cause.getD "sql: no rows in result set"))
    dbVins).attempt fun inserted => .ret (.ok (inserted.map Prod.snd))

/-- `InsertTxns`, which returns the row ids of the inserted transactions; those that are there
are skipped. -/
def insertTxns (dbTxns : List Tx) (checked : Bool) : Sql (List Nat) :=
  (insertAll (Insert.tx checked) id dbTxns).attempt fun inserted =>
    .ret (.ok (inserted.map Prod.snd))

/-- `InsertAddressOuts`, which returns the row ids of the inserted address rows. -/
def insertAddressOuts (dbAs : List AddressRow) : Sql (List Nat) :=
  (insertAll Insert.address id dbAs).attempt fun inserted => .ret (.ok (inserted.map Prod.snd))

/-- A transaction whose outputs and inputs are stored: its row with their ids, the
address rows of its outputs and its inputs. -/
structure KeyedTx where
  tx : Tx
  addressRows : List AddressRow
  vins : List VinTxProperty

/-- The first loop of `storeTxns`: the outputs and the inputs of each transaction. -/
def storeOuts (dupChecks : Bool) : List ExtractedTx → Sql (List KeyedTx)
  | [] => .ret (.ok [])
  | dbtx :: rest =>
    (insertVouts dbtx.vouts dupChecks).attempt fun (voutDbIds, addressRows) =>
    (insertVins dbtx.vins).attempt fun vinDbIds =>
    (storeOuts dupChecks rest).attempt fun keyed =>
      .ret (.ok (⟨{ dbtx.tx with voutDbIds := voutDbIds, vinDbIds := vinDbIds }, addressRows,
        dbtx.vins⟩ :: keyed))

/-- The address rows to insert: the id at each position of the returned list goes
to the rows of the transaction at that position. -/
def fundedRows (txDbIDs : List Nat) (keyed : List KeyedTx) : List AddressRow :=
  (txDbIDs.zip keyed).flatMap fun (txDbID, each) =>
    each.addressRows.map fun dba => { dba with fundingTxDbID := txDbID }

/-- The updates for the inputs of a transaction, coinbase inputs skipped. -/
def spendingsOf (txDbID : Nat) (keyed : KeyedTx) : List SetSpending :=
  (keyed.vins.zip keyed.tx.vinDbIds).filterMap fun (vin, vinDbID) =>
    if vin.prevTxHash = 0 then none
    else some ⟨vin.prevTxHash, vin.prevTxIndex, ⟨txDbID, vin.txID, vin.txIndex, vinDbID⟩⟩

/-- The updates of the last loop of `storeTxns`, transaction by transaction. -/
def spendings (txDbIDs : List Nat) (keyed : List KeyedTx) : List SetSpending :=
  (txDbIDs.zip keyed).flatMap fun (txDbID, each) => spendingsOf txDbID each

/-- `SetSpendingForFundingOP` for each update. An error is only logged. -/
def setSpendings : List SetSpending → Sql Unit
  | [] => .ret (.ok ())
  | set :: rest => .call (.setSpending set) fun _ => setSpendings rest

/-- What `storeTxns` reports, with the ids it leaves in the block. -/
structure StoreTxnsResult where
  numVins : Nat
  numVouts : Nat
  txDbIDs : List Nat
deriving DecidableEq, Repr

/-- `storeTxns`: the outputs and inputs, then the transactions and the address rows, and last the
updates. -/
def storeTxns (hcd : Hcd) (dupChecks : Bool) (msgBlock : MsgBlock) (tree : TxTree)
    (updateAddressesSpendingInfo : Bool) : Sql StoreTxnsResult :=
  (storeOuts dupChecks (extractBlockTransactions hcd msgBlock tree)).attempt fun keyed =>
  (insertTxns (keyed.map KeyedTx.tx) dupChecks).attempt fun txDbIDs =>
  (insertAddressOuts (fundedRows txDbIDs keyed)).attempt fun _ =>
  (setSpendings (if updateAddressesSpendingInfo then spendings txDbIDs keyed else [])).attempt
    fun _ => .ret (.ok
      { numVins := (keyed.map fun each => each.tx.vinDbIds.length).sum
        numVouts := (keyed.map fun each => each.tx.voutDbIds.length).sum
        txDbIDs := txDbIDs })

section Kinds

variable {kind : Statement → Prop}

/-- The statements around the INSERTs of a database transaction are of the kind. -/
structure Brackets (kind : Statement → Prop) : Prop where
  begin : kind .begin
  prepare : kind .prepare
  commit : kind .commit
  rollback : kind .rollback

section Insertion

variable {α : Type} {statement : α → Insert} {refuse : Option String → Option String}
  {items : List α}

/-- The loop inserts its items, and may roll back. -/
theorem only_insertLoop (brackets : Brackets kind)
    (asked : ∀ item ∈ items, kind (.insert (statement item))) :
    (insertLoop statement refuse items).Only kind := by
  induction items with
  | nil => trivial
  | cons item rest inductionHypothesis =>
    have later := inductionHypothesis fun next member => asked next (List.mem_cons_of_mem _ member)
    refine ⟨asked item List.mem_cons_self, fun reply => ?_⟩
    have stops : ∀ err, (Prog.call .rollback fun _ => .ret (.error err) :
        Sql (List (α × Nat))).Only kind := fun _ => ⟨brackets.rollback, fun _ => trivial⟩
    rcases reply with err | _ | id
    · cases isRefused : refuse (failure (.error err)) with
      | none => simpa only [isRefused] using later
      | some err => simpa only [isRefused] using stops err
    · cases isRefused : refuse (failure (.ok none)) with
      | none => simpa only [isRefused] using later
      | some err => simpa only [isRefused] using stops err
    · exact later.attempt fun _ => trivial

/-- The insertion asks only for the statements of its items and those around them. -/
theorem only_insertAll (brackets : Brackets kind)
    (asked : ∀ item ∈ items, kind (.insert (statement item))) :
    (insertAll statement refuse items).Only kind := by
  refine ⟨brackets.begin, fun reply => ?_⟩
  cases reply with
  | error err => trivial
  | ok _ =>
    refine ⟨brackets.prepare, fun reply => ?_⟩
    cases reply with
    | error err => exact ⟨brackets.rollback, fun _ => trivial⟩
    | ok _ =>
      refine (only_insertLoop brackets asked).attempt fun inserted => ?_
      refine ⟨brackets.commit, fun reply => ?_⟩
      cases reply with
      | error err => trivial
      | ok _ => trivial

end Insertion

/-- The first loop of `storeTxns` inserts outputs and inputs, and hands on the
transactions with ids in the two columns of ids. -/
theorem yields_storeOuts (brackets : Brackets kind) (vout : ∀ row, kind (.insert (.vout row)))
    (vin : ∀ row, kind (.insert (.vin row))) (dupChecks : Bool) (txs : List ExtractedTx) :
    (storeOuts dupChecks txs).Yields kind fun keyed => ∀ each ∈ keyed, ∃ dbtx ∈ txs,
      ∃ voutDbIds vinDbIds, each.tx = { dbtx.tx with voutDbIds := voutDbIds, vinDbIds := vinDbIds } := by
  induction txs with
  | nil => simp [storeOuts, Prog.Yields]
  | cons dbtx rest inductionHypothesis =>
    have vouts : (insertVouts dbtx.vouts dupChecks).Only kind :=
      (only_insertAll brackets fun row _ => vout row).attempt fun _ => trivial
    have vins : (insertVins dbtx.vins).Only kind :=
      (only_insertAll brackets fun row _ => vin row).attempt fun _ => trivial
    refine vouts.yields.attempt fun inserted _ => ?_
    refine vins.yields.attempt fun vinDbIds _ => ?_
    refine inductionHypothesis.attempt fun keyed kept => ?_
    intro each member
    rcases List.mem_cons.mp member with rfl | present
    · exact ⟨dbtx, List.mem_cons_self, inserted.1, vinDbIds, rfl⟩
    · obtain ⟨dbtx, isExtracted, same⟩ := kept each present
      exact ⟨dbtx, List.mem_cons_of_mem _ isExtracted, same⟩

/-- The last loop issues no statements but updates. -/
theorem only_setSpendings (spend : ∀ set, kind (.setSpending set)) (sets : List SetSpending) :
    (setSpendings sets).Only kind := by
  induction sets with
  | nil => trivial
  | cons set rest inductionHypothesis => exact ⟨spend set, fun _ => inductionHypothesis⟩

/-- The transactions that `storeTxns` inserts are those extracted, with ids. -/
theorem only_storeTxns {hcd : Hcd} {msgBlock : MsgBlock} {tree : TxTree} {dupChecks : Bool}
    (brackets : Brackets kind) (vout : ∀ row, kind (.insert (.vout row)))
    (vin : ∀ row, kind (.insert (.vin row))) (address : ∀ row, kind (.insert (.address row)))
    (spend : ∀ set, kind (.setSpending set))
    (tx : ∀ dbtx ∈ extractBlockTransactions hcd msgBlock tree, ∀ voutDbIds vinDbIds,
      kind (.insert (.tx dupChecks { dbtx.tx with voutDbIds := voutDbIds, vinDbIds := vinDbIds })))
    (updateAddressesSpendingInfo : Bool) :
    (storeTxns hcd dupChecks msgBlock tree updateAddressesSpendingInfo).Only kind := by
  suffices yields : (storeTxns hcd dupChecks msgBlock tree updateAddressesSpendingInfo).Yields kind
      fun _ => True from yields.only
  refine (yields_storeOuts brackets vout vin dupChecks _).attempt fun keyed kept => ?_
  refine Prog.Only.yields ?_
  have txns : (insertTxns (keyed.map KeyedTx.tx) dupChecks).Only kind := by
    refine (only_insertAll brackets fun row member => ?_).attempt fun _ => trivial
    obtain ⟨each, isKeyed, rfl⟩ := List.mem_map.mp member
    obtain ⟨dbtx, isExtracted, voutDbIds, vinDbIds, same⟩ := kept each isKeyed
    rw [same]
    exact tx dbtx isExtracted voutDbIds vinDbIds
  refine txns.attempt fun txDbIDs => ?_
  refine Prog.Only.attempt ((only_insertAll brackets fun row _ => address row).attempt
    fun _ => trivial) fun _ => ?_
  exact (only_setSpendings spend _).attempt fun _ => trivial

end Kinds

end Hcexplorer.Hcpg

import Hcexplorer.Hcpg.ChainDB
import Hcexplorer.Sample

/-!
# The integers that are bound to columns

PostgreSQL refuses an integer that is outside of the signed range of its column.
The columns are those of the four CREATE TABLE statements for blocks,
transactions, vins and vouts, with the value that the INSERT of the table binds to
each. Most values come from unsigned fields of the wire data, some of them as wide
as the column.

The law says which blocks can be stored: those whose fields stay in the lower half
of the range of their type wherever the column is not wider. Every INSERT that
`storeTxns` issues is one of the rows that the law speaks of. Text, byte and
floating point columns, and the addresses table, are outside of it.
-/

namespace Hcexplorer.Hcpg

open Interactive

section Columns

/-- The integer types of the columns, of two, four and eight bytes. -/
inductive IntType where
  | int2
  | int4
  | int8
deriving DecidableEq, Repr

/-- The smallest value that is too large for the type. -/
def IntType.bound : IntType → Int
  | .int2 => 32768
  | .int4 => 2147483648
  | .int8 => 9223372036854775808

/-- A value bound to a column, with the name and the type of the column. -/
structure BoundValue where
  column : String
  type : IntType
  value : Int
deriving DecidableEq, Repr

/-- The value is in the signed range of its column. -/
def BoundValue.InRange (bound : BoundValue) : Prop :=
  -bound.type.bound ≤ bound.value ∧ bound.value < bound.type.bound

instance (bound : BoundValue) : Decidable bound.InRange :=
  inferInstanceAs (Decidable (_ ∧ _))

/-- An array of row ids, each of which is bound as a big integer. -/
def idColumn (column : String) (ids : List Nat) : List BoundValue :=
  ids.map fun (id : Nat) => ⟨column, .int8, (id : Int)⟩

/-- The integers bound by `InsertBlock`, in the order of their columns. -/
def blockColumns (dbBlock : Block) : List BoundValue :=
  [⟨"height", .int4, dbBlock.height.toNat⟩, ⟨"size", .int4, dbBlock.size.toNat⟩,
    ⟨"version", .int4, dbBlock.version.toNat⟩, ⟨"numtx", .int4, dbBlock.numTx.toNat⟩,
    ⟨"num_rtx", .int4, dbBlock.numRegTx.toNat⟩, ⟨"num_stx", .int4, dbBlock.numStakeTx.toNat⟩,
    ⟨"time", .int8, dbBlock.time.toNat⟩, ⟨"nonce", .int8, dbBlock.nonce.toNat⟩,
    ⟨"vote_bits", .int2, dbBlock.voteBits.toNat⟩, ⟨"voters", .int2, dbBlock.voters.toNat⟩,
    ⟨"fresh_stake", .int2, dbBlock.freshStake.toNat⟩,
    ⟨"revocations", .int2, dbBlock.revocations.toNat⟩,
    ⟨"pool_size", .int4, dbBlock.poolSize.toNat⟩, ⟨"bits", .int4, dbBlock.bits.toNat⟩,
    ⟨"sbits", .int8, dbBlock.sBits.toNat⟩, ⟨"stake_version", .int4, dbBlock.stakeVersion.toNat⟩] ++
    idColumn "txDbIDs" dbBlock.txDbIDs ++ idColumn "stxDbIDs" dbBlock.stxDbIDs

/-- The integers bound by `InsertTxns` for a row, in the order of their columns. -/
def txColumns (row : Tx) : List BoundValue :=
  [⟨"block_height", .int8, row.blockHeight.toInt⟩, ⟨"block_time", .int8, row.blockTime.toInt⟩,
    ⟨"time", .int8, row.time.toInt⟩, ⟨"tx_type", .int4, row.txType.toInt⟩,
    ⟨"version", .int4, row.version.toNat⟩, ⟨"tree", .int2, row.tree.toInt⟩,
    ⟨"block_index", .int4, row.blockIndex.toNat⟩, ⟨"lock_time", .int4, row.locktime.toNat⟩,
    ⟨"expiry", .int4, row.expiry.toNat⟩, ⟨"size", .int4, row.size.toNat⟩,
    ⟨"spent", .int8, row.spent.toInt⟩, ⟨"sent", .int8, row.sent.toInt⟩,
    ⟨"fees", .int8, row.fees.toInt⟩, ⟨"num_vin", .int4, row.numVin.toNat⟩,
    ⟨"num_vout", .int4, row.numVout.toNat⟩] ++
    idColumn "vin_db_ids" row.vinDbIds ++ idColumn "vout_db_ids" row.voutDbIds

/-- The integers bound by `InsertVins` for a row, in the order of their columns. -/
def vinColumns (vin : VinTxProperty) : List BoundValue :=
  [⟨"tx_index", .int4, vin.txIndex.toNat⟩, ⟨"tx_tree", .int2, vin.txTree.toNat⟩,
    ⟨"prev_tx_index", .int8, vin.prevTxIndex.toNat⟩, ⟨"prev_tx_tree", .int2, vin.prevTxTree.toNat⟩]

/-- The integers bound by `InsertVouts` for a row, in the order of their columns. -/
def voutColumns (vout : Vout) : List BoundValue :=
  [⟨"tx_index", .int4, vout.txIndex.toNat⟩, ⟨"tx_tree", .int2, vout.txTree.toInt⟩,
    ⟨"value", .int8, vout.value.toNat⟩, ⟨"version", .int2, vout.version.toNat⟩,
    ⟨"script_req_sigs", .int4, (UInt32.ofNat vout.scriptPubKeyData.reqSigs).toNat⟩]

end Columns

section Bound

/-- Row ids that the server returned: values of an INT8 sequence. -/
def RowIds (ids : List Nat) : Prop := ∀ id ∈ ids, (id : Int) < IntType.int8.bound

/-- The rows that `StoreBlock` inserts into transactions, vins and vouts for a
tree. -/
inductive Binds (hcd : Hcd) (msgBlock : MsgBlock) (tree : TxTree) : Insert → Prop where
  | vout {dbtx : ExtractedTx} {vout : Vout}
      (extracted : dbtx ∈ extractBlockTransactions hcd msgBlock tree) (output : vout ∈ dbtx.vouts) :
      Binds hcd msgBlock tree (.vout vout)
  | vin {dbtx : ExtractedTx} {vin : VinTxProperty}
      (extracted : dbtx ∈ extractBlockTransactions hcd msgBlock tree) (input : vin ∈ dbtx.vins) :
      Binds hcd msgBlock tree (.vin vin)
  | tx {dbtx : ExtractedTx} {checked : Bool} {voutDbIds vinDbIds : List Nat}
      (extracted : dbtx ∈ extractBlockTransactions hcd msgBlock tree)
      (voutIds : RowIds voutDbIds) (vinIds : RowIds vinDbIds) :
      Binds hcd msgBlock tree
        (.tx checked { dbtx.tx with voutDbIds := voutDbIds, vinDbIds := vinDbIds })

/-- The integers of an INSERT into transactions, vins or vouts. -/
def Insert.columns : Insert → List BoundValue
  | .vout row => voutColumns row
  | .vin row => vinColumns row
  | .tx _ row => txColumns row
  | .address _ => []

/-- A reply whose row id, if it has one, is a row id of the server. -/
def GoodReply (reply : Reply) : Prop := ∀ id, reply = .ok (some id) → RowIds [id]

/-- A statement that a program can issue, whatever it is replied. -/
inductive Issued {α : Type} (request : Statement) : Sql α → Prop where
  | first {next : Reply → Sql α} : Issued request (.call request next)
  | later {before : Statement} {next : Reply → Sql α} (reply : Reply) (given : GoodReply reply)
      (issued : Issued request (next reply)) : Issued request (.call before next)

/-- A value that a program can return, whatever it is replied. -/
inductive Returned {α : Type} (value : α) : Sql α → Prop where
  | ret : Returned value (.ret (.ok value))
  | later {before : Statement} {next : Reply → Sql α} (reply : Reply) (given : GoodReply reply)
      (returned : Returned value (next reply)) : Returned value (.call before next)

/-- Every integer that `StoreBlock` can bind to an INSERT into the four tables is
in the range of its column. -/
def BoundInRange (hcd : Hcd) (msgBlock : MsgBlock) : Prop :=
  (∀ txDbIDs stxDbIDs, RowIds txDbIDs → RowIds stxDbIDs → ∀ bound ∈ blockColumns
      ((msgBlockToDBBlock hcd msgBlock).withTxDbIDs txDbIDs stxDbIDs), bound.InRange) ∧
    ∀ tree dupChecks updateAddressesSpendingInfo insert,
      Issued (.insert insert) (storeTxns hcd dupChecks msgBlock tree updateAddressesSpendingInfo) →
        ∀ bound ∈ insert.columns, bound.InRange

section Attempt

variable {α β : Type} {request : Statement} {program : Sql α} {continuation : α → Sql β}

/-- A statement of a program and its continuation is one of the program, or one of
the continuation with a value that the program can return. -/
theorem Issued.of_attempt (issued : Issued request (program.attempt continuation)) :
    Issued request program ∨ ∃ value, Returned value program ∧ Issued request (continuation value) := by
  induction program with
  | ret result =>
    cases result with
    | ok value => exact Or.inr ⟨value, .ret, issued⟩
    | error err => cases issued
  | call before next inductionHypothesis =>
    cases issued with
    | first => exact Or.inl .first
    | later reply given issued =>
      rcases inductionHypothesis reply issued with early | ⟨value, returned, late⟩
      · exact Or.inl (.later reply given early)
      · exact Or.inr ⟨value, .later reply given returned, late⟩

/-- What a program with a continuation can return comes from a value of the program. -/
theorem Returned.of_attempt {value : β} (returned : Returned value (program.attempt continuation)) :
    ∃ middle, Returned middle program ∧ Returned value (continuation middle) := by
  induction program with
  | ret result =>
    cases result with
    | ok middle => exact ⟨middle, .ret, returned⟩
    | error err => cases returned
  | call before next inductionHypothesis =>
    cases returned with
    | later reply given returned =>
      obtain ⟨middle, first, second⟩ := inductionHypothesis reply returned
      exact ⟨middle, .later reply given first, second⟩

/-- Conversely, what the program can issue is issued with its continuation too. -/
theorem Issued.attempt (issued : Issued request program) :
    Issued request (program.attempt continuation) := by
  induction issued with
  | first => exact .first
  | later reply given _ inductionHypothesis => exact .later reply given inductionHypothesis

/-- With a value that the program can return, what the continuation can issue is issued by both
together. -/
theorem Returned.issued {value : α} (returned : Returned value program)
    (issued : Issued request (continuation value)) :
    Issued request (program.attempt continuation) := by
  induction returned with
  | ret => exact issued
  | later reply given _ inductionHypothesis => exact .later reply given inductionHypothesis

/-- With a value that the program can return, what the continuation can return is returned by
both together. -/
theorem Returned.attempt {value : α} {final : β} (returned : Returned value program)
    (continued : Returned final (continuation value)) :
    Returned final (program.attempt continuation) := by
  induction returned with
  | ret => exact continued
  | later reply given _ inductionHypothesis => exact .later reply given inductionHypothesis

end Attempt

/-- A program issues no INSERT but those allowed, and returns what is specified. -/
structure Issues {α : Type} (allowed : Insert → Prop) (post : α → Prop) (program : Sql α) : Prop where
  allows : ∀ insert, Issued (.insert insert) program → allowed insert
  returns : ∀ value, Returned value program → post value

namespace Issues

variable {α β : Type} {allowed : Insert → Prop} {post : α → Prop} {later : β → Prop}

/-- A program that returns at once issues nothing. -/
theorem ret (value : α) (reached : post value) : Issues allowed post (.ret (.ok value)) where
  allows _ issued := nomatch issued
  returns _ returned := by
    cases returned
    exact reached

/-- A program that fails at once issues nothing and returns nothing. -/
theorem error (err : String) : Issues allowed post (.ret (.error err)) where
  allows _ issued := nomatch issued
  returns _ returned := nomatch returned

/-- A program issues its first statement, and then what it issues for each reply. -/
theorem call {request : Statement} {next : Reply → Sql α}
    (asked : ∀ insert, request = .insert insert → allowed insert)
    (continued : ∀ reply, GoodReply reply → Issues allowed post (next reply)) :
    Issues allowed post (.call request next) := by
  constructor
  · intro insert issued
    cases issued with
    | first => exact asked insert rfl
    | later reply given issued => exact (continued reply given).allows insert issued
  · intro value returned
    cases returned with
    | later reply given returned => exact (continued reply given).returns value returned

/-- A failed insertion rolls back and inserts nothing more. -/
theorem rolledBack (err : String) :
    Issues allowed post (.call .rollback fun _ => .ret (.error err) : Sql α) := by
  apply Issues.call
  · rintro _ ⟨⟩
  · exact fun _ _ => Issues.error err

/-- A program with a continuation issues what is allowed if both do, and returns what the
continuation returns. -/
theorem attempt {program : Sql α} {continuation : α → Sql β} (first : Issues allowed post program)
    (second : ∀ value, post value → Issues allowed later (continuation value)) :
    Issues allowed later (program.attempt continuation) := by
  constructor
  · intro insert issued
    rcases issued.of_attempt with early | ⟨value, returned, late⟩
    · exact first.allows insert early
    · exact (second value (first.returns value returned)).allows insert late
  · intro final returned
    obtain ⟨value, early, late⟩ := returned.of_attempt
    exact (second value (first.returns value early)).returns final late

end Issues

variable {α : Type} {allowed : Insert → Prop} {statement : α → Insert}
  {refuse : Option String → Option String}

/-- The loop inserts its items only, and returns row ids. -/
theorem insertLoop_issues {items : List α} (mine : ∀ item ∈ items, allowed (statement item)) :
    Issues allowed (fun inserted => RowIds (inserted.map Prod.snd) ∧
      ∀ pair ∈ inserted, pair.1 ∈ items) (insertLoop statement refuse items) := by
  induction items with
  | nil => exact Issues.ret [] ⟨nofun, nofun⟩
  | cons item rest inductionHypothesis =>
    have others := inductionHypothesis fun next member => mine next (List.mem_cons_of_mem _ member)
    apply Issues.call
    · rintro _ ⟨⟩
      exact mine item List.mem_cons_self
    intro reply given
    have skipped : Issues allowed (fun inserted => RowIds (inserted.map Prod.snd) ∧
        ∀ pair ∈ inserted, pair.1 ∈ item :: rest) (insertLoop statement refuse rest) := by
      refine ⟨others.allows, ?_⟩
      intro value returned
      obtain ⟨ids, listed⟩ := others.returns value returned
      exact ⟨ids, fun pair member => List.mem_cons_of_mem _ (listed pair member)⟩
    rcases reply with err | _ | id
    · dsimp only [failure]
      cases refuse (some err) with
      | none => exact skipped
      | some err => exact Issues.rolledBack err
    · dsimp only [failure]
      cases refuse none with
      | none => exact skipped
      | some err => exact Issues.rolledBack err
    · apply others.attempt
      intro inserted reached
      apply Issues.ret
      constructor
      · intro each member
        rcases List.mem_cons.mp member with rfl | present
        · exact given _ rfl _ (List.mem_singleton.mpr rfl)
        · exact reached.1 each present
      · intro pair member
        rcases List.mem_cons.mp member with rfl | present
        · exact List.mem_cons_self
        · exact List.mem_cons_of_mem _ (reached.2 pair present)

/-- An insertion in a database transaction issues no INSERT but those of its items, and returns
them with their row ids. -/
theorem insertAll_issues {items : List α} (mine : ∀ item ∈ items, allowed (statement item)) :
    Issues allowed (fun inserted => RowIds (inserted.map Prod.snd) ∧
      ∀ pair ∈ inserted, pair.1 ∈ items) (insertAll statement refuse items) := by
  apply Issues.call nofun
  intro begun _
  cases begun with
  | error err => exact Issues.error _
  | ok =>
    apply Issues.call nofun
    intro prepared _
    cases prepared with
    | error err => exact Issues.rolledBack err
    | ok =>
      apply (insertLoop_issues mine).attempt
      intro inserted reached
      apply Issues.call nofun
      intro committed _
      cases committed with
      | error err => exact Issues.error err
      | ok => exact Issues.ret inserted reached

/-- A reply that an INSERT can get: the row id zero. -/
theorem goodReply_inserted : GoodReply (.ok (some 0)) := by
  rintro id ⟨⟩ other member
  cases List.mem_singleton.mp member
  decide

/-- A reply that any other statement can get: success without a row id. -/
theorem goodReply_done : GoodReply (.ok none) := nofun

/-- When nothing fails, the loop inserts every item and returns all of them. -/
theorem insertLoop_returned (items : List α) :
    Returned (items.map fun item => (item, 0)) (insertLoop statement refuse items) := by
  induction items with
  | nil => exact .ret
  | cons item rest inductionHypothesis =>
    exact .later _ goodReply_inserted (inductionHypothesis.attempt .ret)

/-- When nothing fails, the loop issues the INSERT of each of its items. -/
theorem insertLoop_issued {items : List α} {item : α} (member : item ∈ items) :
    Issued (.insert (statement item)) (insertLoop statement refuse items) := by
  induction items with
  | nil => cases member
  | cons next rest inductionHypothesis =>
    rcases List.mem_cons.mp member with rfl | present
    · exact .first
    · exact .later _ goodReply_inserted (inductionHypothesis present).attempt

/-- When nothing fails, an insertion in a database transaction returns all of its items. -/
theorem insertAll_returned (items : List α) :
    Returned (items.map fun item => (item, 0)) (insertAll statement refuse items) := by
  apply Returned.later (.ok none) goodReply_done
  apply Returned.later (.ok none) goodReply_done
  apply (insertLoop_returned items).attempt
  exact Returned.later (.ok none) goodReply_done .ret

/-- When nothing fails, an insertion in a database transaction issues the INSERT of each of its
items. -/
theorem insertAll_issued {items : List α} {item : α} (member : item ∈ items) :
    Issued (.insert (statement item)) (insertAll statement refuse items) := by
  apply Issued.later (.ok none) goodReply_done
  apply Issued.later (.ok none) goodReply_done
  exact (insertLoop_issued member).attempt

/-- The ids of a run in which nothing fails are row ids. -/
theorem inserted_rowIds (items : List α) : RowIds ((items.map fun item => (item, 0)).map Prod.snd) := by
  intro id member
  obtain ⟨pair, listed, rfl⟩ := List.mem_map.mp member
  obtain ⟨item, _, rfl⟩ := List.mem_map.mp listed
  have small : (0 : Int) < IntType.int8.bound := by decide
  exact small

/-- When nothing fails, the outputs are inserted and their row ids returned. -/
theorem insertVouts_returned (dbVouts : List Vout) (checked : Bool) :
    ∃ stored, Returned stored (insertVouts dbVouts checked) ∧ RowIds stored.1 :=
  ⟨_, (insertAll_returned dbVouts).attempt .ret, inserted_rowIds dbVouts⟩

/-- When nothing fails, the inputs are inserted and their row ids returned. -/
theorem insertVins_returned (dbVins : List VinTxProperty) :
    ∃ vinDbIds, Returned vinDbIds (insertVins dbVins) ∧ RowIds vinDbIds :=
  ⟨_, (insertAll_returned dbVins).attempt .ret, inserted_rowIds dbVins⟩

/-- The first loop returns a row for each transaction. -/
theorem storeOuts_returned (dupChecks : Bool) (txs : List ExtractedTx) :
    ∃ keyed, Returned keyed (storeOuts dupChecks txs) ∧ ∀ dbtx ∈ txs, ∃ each ∈ keyed,
      ∃ voutDbIds vinDbIds, RowIds voutDbIds ∧ RowIds vinDbIds ∧
        each.tx = { dbtx.tx with voutDbIds := voutDbIds, vinDbIds := vinDbIds } := by
  induction txs with
  | nil => exact ⟨[], .ret, nofun⟩
  | cons dbtx rest inductionHypothesis =>
    obtain ⟨keyed, returned, rows⟩ := inductionHypothesis
    obtain ⟨⟨voutDbIds, addressRows⟩, vouts, voutIds⟩ := insertVouts_returned dbtx.vouts dupChecks
    obtain ⟨vinDbIds, vins, vinIds⟩ := insertVins_returned dbtx.vins
    refine ⟨_, vouts.attempt (vins.attempt (returned.attempt .ret)), ?_⟩
    intro other member
    rcases List.mem_cons.mp member with rfl | present
    · exact ⟨_, List.mem_cons_self, voutDbIds, vinDbIds, voutIds, vinIds, rfl⟩
    · obtain ⟨each, listed, isRow⟩ := rows other present
      exact ⟨each, List.mem_cons_of_mem _ listed, isRow⟩

/-- What can be issued for one of the transactions can be issued in the loop. -/
theorem storeOuts_issued {dupChecks : Bool} {txs : List ExtractedTx} {dbtx : ExtractedTx}
    (extracted : dbtx ∈ txs) {request : Statement}
    (issued : Issued request (insertVouts dbtx.vouts dupChecks) ∨
      Issued request (insertVins dbtx.vins)) : Issued request (storeOuts dupChecks txs) := by
  induction txs with
  | nil => cases extracted
  | cons next rest inductionHypothesis =>
    obtain ⟨stored, vouts, _⟩ := insertVouts_returned next.vouts dupChecks
    obtain ⟨vinDbIds, vins, _⟩ := insertVins_returned next.vins
    rcases List.mem_cons.mp extracted with rfl | present
    · rcases issued with first | second
      · exact first.attempt
      · exact vouts.issued second.attempt
    · exact vouts.issued (vins.issued (inductionHypothesis present).attempt)

variable {hcd : Hcd} {msgBlock : MsgBlock} {tree : TxTree}

/-- A row of a tree, or one of the addresses table. -/
def BindsOrAddress (hcd : Hcd) (msgBlock : MsgBlock) (tree : TxTree) (insert : Insert) : Prop :=
  Binds hcd msgBlock tree insert ∨ ∃ row, insert = .address row

/-- The row of a transaction after its outputs and inputs are stored. -/
def KeyedRow (hcd : Hcd) (msgBlock : MsgBlock) (tree : TxTree) (row : Tx) : Prop :=
  ∃ dbtx ∈ extractBlockTransactions hcd msgBlock tree, ∃ voutDbIds vinDbIds,
    RowIds voutDbIds ∧ RowIds vinDbIds ∧
      row = { dbtx.tx with voutDbIds := voutDbIds, vinDbIds := vinDbIds }

/-- The first loop inserts outputs and inputs of the tree. -/
theorem storeOuts_issues (dupChecks : Bool) {txs : List ExtractedTx}
    (mine : ∀ dbtx ∈ txs, dbtx ∈ extractBlockTransactions hcd msgBlock tree) :
    Issues (BindsOrAddress hcd msgBlock tree)
      (fun keyed => ∀ each ∈ keyed, KeyedRow hcd msgBlock tree each.tx) (storeOuts dupChecks txs) := by
  induction txs with
  | nil => exact Issues.ret [] nofun
  | cons dbtx rest inductionHypothesis =>
    have extracted := mine dbtx List.mem_cons_self
    have vouts : Issues (BindsOrAddress hcd msgBlock tree) (fun stored => RowIds stored.1)
        (insertVouts dbtx.vouts dupChecks) := by
      apply (insertAll_issues fun vout output => Or.inl (.vout extracted output)).attempt
      exact fun inserted reached => Issues.ret _ reached.1
    have vins : Issues (BindsOrAddress hcd msgBlock tree) RowIds (insertVins dbtx.vins) := by
      apply (insertAll_issues fun vin input => Or.inl (.vin extracted input)).attempt
      exact fun inserted reached => Issues.ret _ reached.1
    apply vouts.attempt
    rintro ⟨voutDbIds, addressRows⟩ voutIds
    apply vins.attempt
    intro vinDbIds vinIds
    apply (inductionHypothesis fun other member => mine other (List.mem_cons_of_mem _ member)).attempt
    intro keyed reached
    apply Issues.ret
    intro each member
    rcases List.mem_cons.mp member with rfl | present
    · exact ⟨dbtx, extracted, voutDbIds, vinDbIds, voutIds, vinIds, rfl⟩
    · exact reached each present

/-- Updates of spending columns issue no INSERT. -/
theorem setSpendings_issues (sets : List SetSpending) :
    Issues (BindsOrAddress hcd msgBlock tree) (fun _ => True) (setSpendings sets) := by
  induction sets with
  | nil => exact Issues.ret () trivial
  | cons set rest inductionHypothesis => exact Issues.call nofun fun _ _ => inductionHypothesis

/-- Whatever fails, `storeTxns` issues the rows of its tree and address rows
only. -/
theorem storeTxns_issues (dupChecks updateAddressesSpendingInfo : Bool) :
    Issues (BindsOrAddress hcd msgBlock tree) (fun _ => True)
      (storeTxns hcd dupChecks msgBlock tree updateAddressesSpendingInfo) := by
  apply (storeOuts_issues dupChecks fun _ => id).attempt
  intro keyed rows
  have txns : Issues (BindsOrAddress hcd msgBlock tree) (fun _ => True)
      (insertTxns (keyed.map KeyedTx.tx) dupChecks) := by
    refine (insertAll_issues ?_).attempt fun inserted _ => Issues.ret _ trivial
    intro row member
    obtain ⟨each, listed, rfl⟩ := List.mem_map.mp member
    obtain ⟨dbtx, extracted, voutDbIds, vinDbIds, voutIds, vinIds, same⟩ := rows each listed
    rw [same]
    exact Or.inl (.tx extracted voutIds vinIds)
  apply txns.attempt
  intro txDbIDs _
  have addresses : Issues (BindsOrAddress hcd msgBlock tree) (fun _ => True)
      (insertAddressOuts (fundedRows txDbIDs keyed)) :=
    (insertAll_issues fun row _ => Or.inr ⟨row, rfl⟩).attempt fun _ _ => Issues.ret _ trivial
  apply addresses.attempt
  intro _ _
  exact (setSpendings_issues _).attempt fun _ _ => Issues.ret _ trivial

/-- Conversely, `storeTxns` can insert every output of its tree. -/
theorem storeTxns_issued_vout (dupChecks updateAddressesSpendingInfo : Bool) {dbtx : ExtractedTx}
    (extracted : dbtx ∈ extractBlockTransactions hcd msgBlock tree) {vout : Vout}
    (output : vout ∈ dbtx.vouts) : Issued (.insert (.vout vout))
      (storeTxns hcd dupChecks msgBlock tree updateAddressesSpendingInfo) :=
  (storeOuts_issued extracted (Or.inl (insertAll_issued output).attempt)).attempt

/-- The storing of a tree can issue the INSERT of every input. -/
theorem storeTxns_issued_vin (dupChecks updateAddressesSpendingInfo : Bool) {dbtx : ExtractedTx}
    (extracted : dbtx ∈ extractBlockTransactions hcd msgBlock tree) {vin : VinTxProperty}
    (input : vin ∈ dbtx.vins) : Issued (.insert (.vin vin))
      (storeTxns hcd dupChecks msgBlock tree updateAddressesSpendingInfo) :=
  (storeOuts_issued extracted (Or.inr (insertAll_issued input).attempt)).attempt

/-- The storing of a tree can issue the INSERT of a row for every transaction, with some row ids. -/
theorem storeTxns_issued_tx (dupChecks updateAddressesSpendingInfo : Bool) {dbtx : ExtractedTx}
    (extracted : dbtx ∈ extractBlockTransactions hcd msgBlock tree) :
    ∃ voutDbIds vinDbIds, RowIds voutDbIds ∧ RowIds vinDbIds ∧ Issued
      (.insert (.tx dupChecks { dbtx.tx with voutDbIds := voutDbIds, vinDbIds := vinDbIds }))
      (storeTxns hcd dupChecks msgBlock tree updateAddressesSpendingInfo) := by
  obtain ⟨keyed, returned, rows⟩ :=
    storeOuts_returned dupChecks (extractBlockTransactions hcd msgBlock tree)
  obtain ⟨each, listed, voutDbIds, vinDbIds, voutIds, vinIds, isRow⟩ := rows dbtx extracted
  have inserted : each.tx ∈ keyed.map KeyedTx.tx := List.mem_map_of_mem listed
  rw [isRow] at inserted
  exact ⟨voutDbIds, vinDbIds, voutIds, vinIds,
    returned.issued (insertAll_issued inserted).attempt.attempt⟩

end Bound

section Fits

/-- The header fields that fit: those as wide as their column stay in its lower
half, and what is converted to an unsigned type is not negative. -/
structure HeaderFits (hcd : Hcd) (msgBlock : MsgBlock) : Prop where
  height : msgBlock.header.height.toNat < 2147483648
  size : hcd.blockSerializeSize msgBlock % 4294967296 < 2147483648
  version : 0 ≤ msgBlock.header.version.toInt
  numTx : (msgBlock.transactions.length + msgBlock.sTransactions.length) % 4294967296 < 2147483648
  numRegTx : msgBlock.transactions.length % 4294967296 < 2147483648
  numStakeTx : msgBlock.sTransactions.length % 4294967296 < 2147483648
  timestamp : 0 ≤ msgBlock.header.timestamp.toInt
  voteBits : msgBlock.header.voteBits.toNat < 32768
  voters : msgBlock.header.voters.toNat < 32768
  poolSize : msgBlock.header.poolSize.toNat < 2147483648
  bits : msgBlock.header.bits.toNat < 2147483648
  sBits : 0 ≤ msgBlock.header.sBits.toInt
  stakeVersion : msgBlock.header.stakeVersion.toNat < 2147483648

/-- The fields of a transaction that fit into their columns. -/
structure TxFits (hcd : Hcd) (tx : MsgTx) : Prop where
  lockTime : tx.lockTime.toNat < 2147483648
  expiry : tx.expiry.toNat < 2147483648
  size : hcd.txSerializeSize tx % 4294967296 < 2147483648
  numVin : tx.txIn.length < 2147483648
  numVout : tx.txOut.length < 2147483648
  previousTree : ∀ txin ∈ tx.txIn, 0 ≤ txin.previousOutPoint.tree.toInt
  value : ∀ txout ∈ tx.txOut, 0 ≤ txout.value.toInt
  version : ∀ txout ∈ tx.txOut, txout.version.toNat < 32768
  reqSigs : ∀ txout ∈ tx.txOut,
    (hcd.extractPkScriptAddrs txout.version txout.pkScript).reqSigs % 4294967296 < 2147483648

/-- The transactions of a tree fit, if they are extracted. -/
def TreeFits (hcd : Hcd) (msgBlock : MsgBlock) (tree : TxTree) : Prop :=
  extractBlockTransactions hcd msgBlock tree ≠ [] →
    (treeTransactions msgBlock tree).length ≤ 2147483648 ∧
      ∀ tx ∈ treeTransactions msgBlock tree, TxFits hcd tx

/-- The wire data of a block that fits: its header and both trees. -/
def BlockFits (hcd : Hcd) (msgBlock : MsgBlock) : Prop :=
  HeaderFits hcd msgBlock ∧ ∀ tree, TreeFits hcd msgBlock tree

/-- An unsigned value has only the upper bound to keep. -/
theorem unsigned_inRange (column : String) (type : IntType) (value : Nat) :
    (BoundValue.mk column type value).InRange ↔ (value : Int) < type.bound := by
  have positive : 0 < type.bound := by cases type <;> decide
  simp only [BoundValue.InRange]
  omega

/-- Row ids fit their array, since the server's ids do not reach the end of the type. -/
theorem idColumn_inRange {column : String} {ids : List Nat} (rowIds : RowIds ids) :
    ∀ bound ∈ idColumn column ids, bound.InRange := by
  intro bound member
  obtain ⟨id, listed, rfl⟩ := List.mem_map.mp member
  have below := rowIds id listed
  simp only [BoundValue.InRange, IntType.bound] at below ⊢
  omega

/-- A signed 64-bit value read as unsigned is in the lower half unless it is
negative. -/
theorem toUInt64_lower (value : Int64) :
    value.toUInt64.toNat < 9223372036854775808 ↔ 0 ≤ value.toInt := by
  have positive : 0 ≤ value.toBitVec.toInt ↔ 2 * value.toBitVec.toNat < 2 ^ 64 :=
    BitVec.toInt_pos_iff
  have same : value.toUInt64.toNat = value.toBitVec.toNat := rfl
  have asInt : value.toInt = value.toBitVec.toInt := rfl
  omega

/-- A number of 32 bits is below the middle of the unsigned range exactly when it is not
negative. -/
theorem toUInt32_lower (value : Int32) :
    value.toUInt32.toNat < 2147483648 ↔ 0 ≤ value.toInt := by
  have positive : 0 ≤ value.toBitVec.toInt ↔ 2 * value.toBitVec.toNat < 2 ^ 32 :=
    BitVec.toInt_pos_iff
  have same : value.toUInt32.toNat = value.toBitVec.toNat := rfl
  have asInt : value.toInt = value.toBitVec.toInt := rfl
  omega

/-- A number of 8 bits is below the middle of the unsigned range of 16 bits exactly when it is
not negative. -/
theorem toUInt16_lower (value : Int8) :
    value.toInt16.toUInt16.toNat < 32768 ↔ 0 ≤ value.toInt := by
  have positive : 0 ≤ value.toInt16.toBitVec.toInt ↔ 2 * value.toInt16.toBitVec.toNat < 2 ^ 16 :=
    BitVec.toInt_pos_iff
  have same : value.toInt16.toUInt16.toNat = value.toInt16.toBitVec.toNat := rfl
  have asInt : value.toInt16.toInt = value.toInt16.toBitVec.toInt := rfl
  have widened : value.toInt16.toInt = value.toInt := Int8.toInt_toInt16 value
  omega

variable {hcd : Hcd} {msgBlock : MsgBlock} {tree : TxTree}

/-- The row of a block fits when its header does. -/
theorem blockColumns_inRange {txDbIDs stxDbIDs : List Nat} (txIds : RowIds txDbIDs)
    (stxIds : RowIds stxDbIDs) :
    (∀ bound ∈ blockColumns ((msgBlockToDBBlock hcd msgBlock).withTxDbIDs txDbIDs stxDbIDs),
      bound.InRange) ↔ HeaderFits hcd msgBlock := by
  have version := toUInt32_lower msgBlock.header.version
  have time := toUInt64_lower msgBlock.header.timestamp
  have sBits := toUInt64_lower msgBlock.header.sBits
  have nonce : msgBlock.header.nonce.toUInt64.toNat < 4294967296 := msgBlock.header.nonce.toNat_lt
  have freshStake := msgBlock.header.freshStake.toNat_lt
  have revocations := msgBlock.header.revocations.toNat_lt
  have ids : ∀ bound ∈ idColumn "txDbIDs" txDbIDs, bound.InRange := idColumn_inRange txIds
  have stakeIds : ∀ bound ∈ idColumn "stxDbIDs" stxDbIDs, bound.InRange := idColumn_inRange stxIds
  simp only [blockColumns, Block.withTxDbIDs, msgBlockToDBBlock, List.forall_mem_append,
    List.forall_mem_cons, List.not_mem_nil, false_implies, implies_true, and_true,
    unsigned_inRange, IntType.bound, UInt32.toNat_ofNat', iff_true_intro ids,
    iff_true_intro stakeIds]
  constructor
  · rintro ⟨height, size, isVersion, numTx, numRegTx, numStakeTx, isTime, -, voteBits, voters, -, -,
      poolSize, bits, isSBits, stakeVersion⟩
    constructor <;> omega
  · intro fits
    have height := fits.height
    have size := fits.size
    have isVersion := fits.version
    have numTx := fits.numTx
    have numRegTx := fits.numRegTx
    have numStakeTx := fits.numStakeTx
    have isTime := fits.timestamp
    have voteBits := fits.voteBits
    have voters := fits.voters
    have poolSize := fits.poolSize
    have bits := fits.bits
    have isSBits := fits.sBits
    have stakeVersion := fits.stakeVersion
    omega

/-- A property of the elements and one of the positions. -/
theorem forall_mem_zipIdx {α : Type} {xs : List α} {element : α → Prop} {position : Nat → Prop} :
    (∀ pair ∈ xs.zipIdx, element pair.1 ∧ position pair.2) ↔
      (∀ x ∈ xs, element x) ∧ ∀ index < xs.length, position index := by
  constructor
  · intro both
    constructor
    · intro x member
      obtain ⟨index, inside, rfl⟩ := List.getElem_of_mem member
      exact (both (xs[index], index) (List.mk_mem_zipIdx_iff_getElem?.mpr (by simp [inside]))).1
    · intro index inside
      exact (both (xs[index], index) (List.mk_mem_zipIdx_iff_getElem?.mpr (by simp [inside]))).2
  · rintro ⟨elements, positions⟩ ⟨x, index⟩ member
    obtain ⟨inside, isAt⟩ := List.getElem?_eq_some_iff.mp (List.mk_mem_zipIdx_iff_getElem?.mp member)
    exact ⟨elements x (isAt ▸ List.getElem_mem inside), positions index inside⟩

/-- The positions of a list fit INT4 when it has at most `2 ^ 31` elements. -/
theorem positions_lower (length : Nat) :
    (∀ index < length, index % 4294967296 < 2147483648) ↔ length ≤ 2147483648 := by
  constructor
  · intro lower
    by_contra long
    have last := lower 2147483648 (by omega)
    omega
  · intro short index inside
    omega

/-- The number behind a tree fits its column, in the signed type and in the unsigned one. -/
theorem tree_inRange (tree : TxTree) :
    (tree.toInt8.toInt16.toUInt16.toNat : Int) < 32768 ∧
      -32768 ≤ tree.toInt8.toInt ∧ tree.toInt8.toInt < 32768 := by
  cases tree <;> decide

/-- The rows of the inputs of a transaction fit when their positions and the trees
of their outpoints do. -/
theorem vinsOf_inRange (tx : MsgTx) :
    (∀ vin ∈ vinsOf hcd tree tx, ∀ bound ∈ vinColumns vin, bound.InRange) ↔
      (∀ txin ∈ tx.txIn, 0 ≤ txin.previousOutPoint.tree.toInt) ∧ tx.txIn.length ≤ 2147483648 := by
  rw [← positions_lower, ← forall_mem_zipIdx, vinsOf, List.forall_mem_map]
  have isTree := tree_inRange tree
  apply forall_congr'
  rintro ⟨txin, index⟩
  have previousTree := toUInt16_lower txin.previousOutPoint.tree
  have previousIndex := txin.previousOutPoint.index.toNat_lt
  simp only [vinColumns, List.forall_mem_cons, List.not_mem_nil, false_implies, implies_true,
    and_true, unsigned_inRange, IntType.bound, UInt32.toNat_ofNat']
  apply imp_congr_right
  intro _
  omega

/-- The rows of a transaction's outputs fit exactly when each output has a value that is not
negative, and a version and script data that fit. -/
theorem voutsOf_inRange (tx : MsgTx) :
    (∀ vout ∈ voutsOf hcd tree tx, ∀ bound ∈ voutColumns vout, bound.InRange) ↔
      (∀ txout ∈ tx.txOut, 0 ≤ txout.value.toInt ∧ txout.version.toNat < 32768 ∧
        (hcd.extractPkScriptAddrs txout.version txout.pkScript).reqSigs % 4294967296 < 2147483648) ∧
        tx.txOut.length ≤ 2147483648 := by
  rw [← positions_lower, ← forall_mem_zipIdx, voutsOf, List.forall_mem_map]
  have isTree := tree_inRange tree
  apply forall_congr'
  rintro ⟨txout, index⟩
  have value := toUInt64_lower txout.value
  simp only [voutColumns, List.forall_mem_cons, List.not_mem_nil, false_implies, implies_true,
    and_true, unsigned_inRange, IntType.bound, UInt32.toNat_ofNat']
  apply imp_congr_right
  intro _
  simp only [BoundValue.InRange, IntType.bound]
  omega

/-- The type of a transaction fits its column, as there are four types. -/
theorem txType_inRange (type : TxType) : 0 ≤ type.toInt16.toInt ∧ type.toInt16.toInt < 4 := by
  cases type <;> decide

/-- The row of a transaction fits when its position, its own fields and its counts
do. -/
theorem txOf_inRange (tx : MsgTx) (index : Nat) {voutDbIds vinDbIds : List Nat}
    (voutIds : RowIds voutDbIds) (vinIds : RowIds vinDbIds) :
    (∀ bound ∈ txColumns { txOf hcd msgBlock tree tx index with
        voutDbIds := voutDbIds, vinDbIds := vinDbIds }, bound.InRange) ↔
      index % 4294967296 < 2147483648 ∧ tx.lockTime.toNat < 2147483648 ∧
        tx.expiry.toNat < 2147483648 ∧ hcd.txSerializeSize tx % 4294967296 < 2147483648 ∧
        tx.txIn.length % 4294967296 < 2147483648 ∧ tx.txOut.length % 4294967296 < 2147483648 := by
  have ids : ∀ bound ∈ idColumn "vout_db_ids" voutDbIds, bound.InRange := idColumn_inRange voutIds
  have inputIds : ∀ bound ∈ idColumn "vin_db_ids" vinDbIds, bound.InRange := idColumn_inRange vinIds
  have signed : ∀ (column : String) (value : Int64),
      (BoundValue.mk column .int8 value.toInt).InRange := by
    intro column value
    exact ⟨value.le_toInt, value.toInt_lt⟩
  have isTree := tree_inRange tree
  have isType := txType_inRange (hcd.determineTxType tx)
  have version := tx.version.toNat_lt
  have typeFits : (BoundValue.mk "tx_type" .int4 (hcd.determineTxType tx).toInt16.toInt).InRange := by
    simp only [BoundValue.InRange, IntType.bound]
    omega
  have treeFits : (BoundValue.mk "tree" .int2 tree.toInt8.toInt).InRange := by
    simp only [BoundValue.InRange, IntType.bound]
    omega
  simp only [txColumns, txOf, List.forall_mem_append, List.forall_mem_cons, List.not_mem_nil,
    false_implies, implies_true, and_true, true_and, unsigned_inRange, IntType.bound,
    UInt32.toNat_ofNat', iff_true_intro ids, iff_true_intro inputIds, signed,
    iff_true_intro typeFits, iff_true_intro treeFits]
  omega

/-- All rows of a transaction fit when it does, at a position that does. -/
theorem extracted_inRange (tx : MsgTx) (index : Nat) {voutDbIds vinDbIds : List Nat}
    (voutIds : RowIds voutDbIds) (vinIds : RowIds vinDbIds) :
    ((∀ vout ∈ voutsOf hcd tree tx, ∀ bound ∈ voutColumns vout, bound.InRange) ∧
      (∀ vin ∈ vinsOf hcd tree tx, ∀ bound ∈ vinColumns vin, bound.InRange) ∧
      ∀ bound ∈ txColumns { txOf hcd msgBlock tree tx index with
        voutDbIds := voutDbIds, vinDbIds := vinDbIds }, bound.InRange) ↔
      TxFits hcd tx ∧ index % 4294967296 < 2147483648 := by
  rw [voutsOf_inRange, vinsOf_inRange, txOf_inRange tx index voutIds vinIds]
  constructor
  · rintro ⟨⟨outputs, fewOutputs⟩, ⟨inputs, fewInputs⟩, position, lockTime, expiry, size, numVin,
      numVout⟩
    refine ⟨⟨lockTime, expiry, size, by omega, by omega, inputs, ?_, ?_, ?_⟩, position⟩
    · exact fun txout member => (outputs txout member).1
    · exact fun txout member => (outputs txout member).2.1
    · exact fun txout member => (outputs txout member).2.2
  · rintro ⟨fits, position⟩
    have numVin := fits.numVin
    have numVout := fits.numVout
    refine ⟨⟨?_, by omega⟩, ⟨fits.previousTree, by omega⟩, position, fits.lockTime, fits.expiry,
      fits.size, by omega, by omega⟩
    exact fun txout member =>
      ⟨fits.value txout member, fits.version txout member, fits.reqSigs txout member⟩

/-- What is extracted of a tree: nothing, or each transaction with its position. -/
theorem extracted_cases (hcd : Hcd) (msgBlock : MsgBlock) (tree : TxTree) :
    extractBlockTransactions hcd msgBlock tree = [] ∨
      extractBlockTransactions hcd msgBlock tree =
        (treeTransactions msgBlock tree).zipIdx.map fun (tx, txIndex) =>
          { tx := txOf hcd msgBlock tree tx txIndex, vouts := voutsOf hcd tree tx,
            vins := vinsOf hcd tree tx } := by
  simp only [extractBlockTransactions, processTransactions]
  split
  · exact Or.inl rfl
  · exact Or.inr rfl

/-- A tree's transactions fit exactly when each does, at a position that does. -/
theorem treeFits_iff : TreeFits hcd msgBlock tree ↔
    (extractBlockTransactions hcd msgBlock tree ≠ [] →
      ∀ pair ∈ (treeTransactions msgBlock tree).zipIdx,
        TxFits hcd pair.1 ∧ pair.2 % 4294967296 < 2147483648) := by
  rw [TreeFits]
  apply imp_congr_right
  intro _
  rw [← positions_lower, and_comm]
  exact forall_mem_zipIdx.symm

/-- `storeTxns` binds values in range only, exactly when its tree fits. -/
theorem storeTxns_inRange :
    (∀ dupChecks updateAddressesSpendingInfo insert,
      Issued (.insert insert) (storeTxns hcd dupChecks msgBlock tree updateAddressesSpendingInfo) →
        ∀ bound ∈ insert.columns, bound.InRange) ↔ TreeFits hcd msgBlock tree := by
  rw [treeFits_iff]
  constructor
  · rintro inRange nonempty ⟨tx, index⟩ member
    have isAll := (extracted_cases hcd msgBlock tree).resolve_left nonempty
    have extracted : (⟨txOf hcd msgBlock tree tx index, voutsOf hcd tree tx, vinsOf hcd tree tx⟩ :
        ExtractedTx) ∈ extractBlockTransactions hcd msgBlock tree := by
      rw [isAll]
      exact List.mem_map_of_mem member
    obtain ⟨voutDbIds, vinDbIds, voutIds, vinIds, issued⟩ := storeTxns_issued_tx false false extracted
    apply (extracted_inRange tx index voutIds vinIds).mp
    refine ⟨?_, ?_, inRange false false _ issued⟩
    · exact fun vout output =>
        inRange false false _ (storeTxns_issued_vout false false extracted output)
    · exact fun vin input => inRange false false _ (storeTxns_issued_vin false false extracted input)
  · intro fits dupChecks updateAddressesSpendingInfo insert issued
    rcases (storeTxns_issues dupChecks updateAddressesSpendingInfo).allows insert issued with
      binds | ⟨row, rfl⟩
    · have rows : ∀ dbtx ∈ extractBlockTransactions hcd msgBlock tree,
          ∀ voutDbIds vinDbIds, RowIds voutDbIds → RowIds vinDbIds →
          (∀ vout ∈ dbtx.vouts, ∀ bound ∈ voutColumns vout, bound.InRange) ∧
          (∀ vin ∈ dbtx.vins, ∀ bound ∈ vinColumns vin, bound.InRange) ∧
          ∀ bound ∈ txColumns { dbtx.tx with voutDbIds := voutDbIds, vinDbIds := vinDbIds },
            bound.InRange := by
        intro dbtx extracted voutDbIds vinDbIds voutIds vinIds
        have nonempty := List.ne_nil_of_mem extracted
        rw [(extracted_cases hcd msgBlock tree).resolve_left nonempty] at extracted
        obtain ⟨⟨tx, index⟩, member, rfl⟩ := List.mem_map.mp extracted
        exact (extracted_inRange tx index voutIds vinIds).mpr (fits nonempty (tx, index) member)
      cases binds with
      | vout extracted output => exact (rows _ extracted [] [] nofun nofun).1 _ output
      | vin extracted input => exact (rows _ extracted [] [] nofun nofun).2.1 _ input
      | tx extracted voutIds vinIds => exact (rows _ extracted _ _ voutIds vinIds).2.2
    · nofun

/-- Every integer that storing a block can bind is in the range of its column,
exactly when the fields of the block fit. -/
theorem boundInRange_iff (hcd : Hcd) (msgBlock : MsgBlock) :
    BoundInRange hcd msgBlock ↔ BlockFits hcd msgBlock := by
  constructor
  · rintro ⟨header, trees⟩
    constructor
    · have noIds : RowIds [] := nofun
      exact (blockColumns_inRange noIds noIds).mp (header [] [] noIds noIds)
    · exact fun tree => storeTxns_inRange.mp (trees tree)
  · rintro ⟨header, trees⟩
    constructor
    · exact fun txDbIDs stxDbIDs txIds stxIds => (blockColumns_inRange txIds stxIds).mpr header
    · exact fun tree => storeTxns_inRange.mpr (trees tree)

/-- A block with one transaction whose lock time is a time after 2038. -/
def lateLockTime : MsgBlock :=
  ⟨Sample.header 1 1 0, [⟨1, [], [], 2147483648, 0⟩], []⟩

/-- The lock time of that transaction, a valid uint32, is out of the range of its column. -/
theorem lateLockTime_outOfRange : ¬BoundInRange Sample.hcd lateLockTime := by
  intro inRange
  have fits := storeTxns_inRange.mp (inRange.2 .regular)
  have lockTime := ((fits (by decide)).2 _ List.mem_cons_self).lockTime
  revert lockTime
  decide

end Fits

end Hcexplorer.Hcpg

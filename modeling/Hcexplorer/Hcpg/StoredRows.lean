import Hcexplorer.Hcpg.BlockEffect
import Mathlib.Data.List.Flatten

/-!
# The rows that stored blocks leave

Up to row ids, and apart from spending information, the tables are a function of
the stored blocks: the vins table holds the inputs of their transactions, and the
addresses table a row for each output and each address that it pays. Row ids and
interleavings do not matter.

The law is for blocks with new hashes, so that no transaction row is skipped.
-/

namespace Hcexplorer.Hcpg

section Read

/-- The rows of the vins table without their ids. -/
def TxTables.vinRows (tables : TxTables) : Multiset VinTxProperty := tables.vins.map Stored.row

/-- The address and the outpoint of a row, which no update changes. -/
def AddressRow.payment (row : AddressRow) : String × Hash × UInt32 := (row.address, row.outpoint)

/-- The addresses table without ids and spending columns, as a multiset of payments. -/
def TxTables.payments (tables : TxTables) : Multiset (String × Hash × UInt32) :=
  tables.addresses.map fun stored => stored.row.payment

variable (left right tables : TxTables) (sets : List SetSpending)

/-- Tables without rows have no inputs. -/
@[simp] theorem TxTables.vinRows_zero : (0 : TxTables).vinRows = 0 := rfl

/-- The inputs of two tables together are those of the one and those of the other. -/
@[simp] theorem TxTables.vinRows_add : (left + right).vinRows = left.vinRows + right.vinRows := by
  simp [TxTables.vinRows]

/-- Updates of spending columns leave the inputs. -/
@[simp] theorem TxTables.vinRows_spendAll : (tables.spendAll sets).vinRows = tables.vinRows := by
  rw [TxTables.vinRows, TxTables.spendAll_vins]
  rfl

/-- Tables without rows have no payments. -/
@[simp] theorem TxTables.payments_zero : (0 : TxTables).payments = 0 := rfl

/-- The payments of two tables together are those of the one and those of the other. -/
@[simp] theorem TxTables.payments_add :
    (left + right).payments = left.payments + right.payments := by
  simp [TxTables.payments]

/-- Updates leave the address and the outpoint of a row. -/
@[simp] theorem AddressRow.payment_spendAll (row : AddressRow) :
    (row.spendAll sets).payment = row.payment := by
  rcases row.spendAll_cases sets with ⟨set, -, -, ends⟩ | ⟨-, ends⟩
  · rw [ends]
    rfl
  · rw [ends]

/-- Updates leave the payments of the tables. -/
@[simp] theorem TxTables.payments_spendAll : (tables.spendAll sets).payments = tables.payments := by
  rw [TxTables.payments, TxTables.spendAll_eq, Multiset.map_map]
  simp only [Function.comp_def, AddressRow.payment_spendAll]
  rfl

/-- Updates leave the pairs of hashes by which transactions conflict. -/
@[simp] theorem TxTables.txHashes_spendAll : (tables.spendAll sets).txHashes = tables.txHashes := by
  rw [TxTables.txHashes, TxTables.spendAll_transactions]
  rfl

end Read

section Trees

variable {hcd : Hcd} {start : TxTables} {checked : Bool} {msgBlock : MsgBlock} {tree : TxTree}
  {outs : List (List Nat × List Nat)} {txs : List ExtractedTx} {ids : TreeIds}

/-- The outputs that are extracted from the tree of a valid block are the outputs of the tree. -/
theorem ValidBlock.vouts_eq (valid : ValidBlock hcd msgBlock) (tree : TxTree) :
    (extractBlockTransactions hcd msgBlock tree).flatMap ExtractedTx.vouts =
      treeVouts hcd msgBlock tree := by
  rw [valid.extracted, treeVouts, List.flatMap_map]
  conv_rhs => rw [← List.zipIdx_map_fst 0 (treeTransactions msgBlock tree), List.flatMap_map]

/-- Every transaction of a tree is paired with the ids of its outputs and inputs. -/
theorem length_keyedTxs (fit : FitOuts outs txs) : (keyedTxs outs txs).length = txs.length := by
  have same := congrArg List.length (hashes_keyedTxs fit)
  rwa [List.length_map, List.length_map, List.length_map] at same

/-- A block whose hash is new meets no pair of hashes that is there. -/
theorem keptTxs_new (fit : FitOuts outs (extractBlockTransactions hcd msgBlock tree))
    (new : ∀ pair ∈ start.txHashes, pair.2 ≠ hcd.hashOf msgBlock) :
    keptTxs start checked outs (extractBlockTransactions hcd msgBlock tree) =
      (keyedTxs outs (extractBlockTransactions hcd msgBlock tree)).map KeyedTx.tx := by
  rw [keptTxs, kept, List.filter_eq_self]
  intro row member
  apply decide_eq_true
  rintro ⟨-, present⟩
  obtain ⟨dbtx, extracted, same⟩ := List.mem_map.mp (mine_keyedTxs fit row member)
  obtain ⟨tx, -, index, rfl⟩ := processTransactions_tx extracted
  exact new _ present (congrArg Prod.snd same.symm)

/-- The pairs of hashes of a tree are of its block. -/
theorem hashes_treeRows (fit : FitOuts ids.outs (extractBlockTransactions hcd msgBlock tree))
    {pair : Hash × Hash} (member : pair ∈
      (treeRows start checked ids (extractBlockTransactions hcd msgBlock tree)).txHashes) :
    pair.2 = hcd.hashOf msgBlock := by
  rw [treeRows, TxTables.txHashes_add, TxTables.txHashes_add, txHashes_outsRows, zero_add,
    Multiset.mem_add] at member
  rcases member with ofTx | ofAddress
  · obtain ⟨insert, isInsert, listed⟩ := List.mem_flatMap.mp (mem_txHashes_insertedRows ofTx)
    obtain ⟨row, isKept, rfl⟩ := List.mem_map.mp isInsert
    obtain rfl := List.mem_singleton.mp listed
    have extracted := mine_keyedTxs fit row (List.mem_of_mem_filter isKept)
    obtain ⟨dbtx, extracted, same⟩ := List.mem_map.mp extracted
    obtain ⟨tx, -, index, rfl⟩ := processTransactions_tx extracted
    exact congrArg Prod.snd same.symm
  · obtain ⟨insert, isInsert, listed⟩ := List.mem_flatMap.mp (mem_txHashes_insertedRows ofAddress)
    obtain ⟨row, -, rfl⟩ := List.mem_map.mp isInsert
    cases listed

/-- A row that is no input is not in the vins table. -/
theorem vins_insertedRows_eq_zero {inserts : List Insert} (other : ∀ row, Insert.vin row ∉ inserts)
    (ids : List Nat) : (insertedRows inserts ids).vins = 0 := by
  rw [Multiset.eq_zero_iff_forall_notMem]
  intro stored member
  exact other _ (List.of_mem_zip (mem_vins_insertedRows.mp member)).1

/-- Inserted inputs, when there is an id for each. -/
theorem vinRows_insertedRows {rows : List VinTxProperty} {ids : List Nat}
    (length : ids.length = rows.length) :
    (insertedRows (rows.map Insert.vin) ids).vinRows = (rows : Multiset VinTxProperty) := by
  induction rows generalizing ids with
  | nil => rfl
  | cons row rest inductionHypothesis =>
    cases ids with
    | nil => cases length
    | cons id ids =>
      rw [List.map_cons, insertedRows_cons, TxTables.vinRows_add,
        inductionHypothesis (Nat.succ.inj length)]
      rfl

/-- The inputs of a tree are in the vins table, each once. -/
theorem vinRows_treeRows (fit : FitOuts ids.outs txs) :
    (treeRows start checked ids txs).vinRows = (inputs txs : Multiset VinTxProperty) := by
  have outsVins : ∀ {outs : List (List Nat × List Nat)} {txs : List ExtractedTx}, FitOuts outs txs →
      (outsRows outs txs).vinRows = (inputs txs : Multiset VinTxProperty) := by
    intro outs txs fit
    induction fit with
    | nil => rfl
    | @cons ids dbtx _ _ lengths _ inductionHypothesis =>
      have noVins : (insertedRows (dbtx.vouts.map Insert.vout) ids.1).vins = 0 :=
        vins_insertedRows_eq_zero (by simp) _
      rw [outsRows, TxTables.vinRows_add, TxTables.vinRows_add, inductionHypothesis,
        vinRows_insertedRows lengths.2, TxTables.vinRows, noVins, Multiset.map_zero, zero_add,
        inputs, inputs, List.flatMap_cons, Multiset.coe_add]
  have ofTxs : (insertedRows ((keptTxs start checked ids.outs txs).map (Insert.tx checked))
      ids.txs).vins = 0 := vins_insertedRows_eq_zero (by simp) _
  have ofAddresses : (insertedRows ((fundedRows ids.txs (keyedTxs ids.outs txs)).map
      Insert.address) ids.addresses).vins = 0 := vins_insertedRows_eq_zero (by simp) _
  rw [treeRows, TxTables.vinRows_add, TxTables.vinRows_add, outsVins fit, TxTables.vinRows,
    TxTables.vinRows, ofTxs, ofAddresses, Multiset.map_zero, add_zero, add_zero]

/-- What is read of the address rows to insert, apart from their funding
transaction: it is read of the rows of the first transactions. -/
theorem map_fundedRows {β : Type} (read : AddressRow → β)
    (unfunded : ∀ row id, read { row with fundingTxDbID := id } = read row) (txDbIDs : List Nat)
    (keyed : List KeyedTx) : (fundedRows txDbIDs keyed).map read =
      (keyed.take txDbIDs.length).flatMap fun each => each.addressRows.map read := by
  induction txDbIDs generalizing keyed with
  | nil => simp [fundedRows]
  | cons txDbID rest inductionHypothesis =>
    cases keyed with
    | nil => simp [fundedRows]
    | cons each keyed =>
      have later := inductionHypothesis keyed
      rw [fundedRows] at later
      simp only [fundedRows, List.zip_cons_cons, List.flatMap_cons, List.map_append, List.map_map,
        List.length_cons, List.take_succ_cons, later, Function.comp_def, unfunded]

/-- All address rows are inserted when no transaction row is skipped. -/
theorem map_fundedRows_new {β : Type} (read : AddressRow → β)
    (unfunded : ∀ row id, read { row with fundingTxDbID := id } = read row)
    (fit : ids.Fit start checked (extractBlockTransactions hcd msgBlock tree))
    (new : ∀ pair ∈ start.txHashes, pair.2 ≠ hcd.hashOf msgBlock) :
    (fundedRows ids.txs (keyedTxs ids.outs (extractBlockTransactions hcd msgBlock tree))).map read =
      (keyedTxs ids.outs (extractBlockTransactions hcd msgBlock tree)).flatMap
        fun each => each.addressRows.map read := by
  have all : ids.txs.length =
      (keyedTxs ids.outs (extractBlockTransactions hcd msgBlock tree)).length := by
    rw [fit.txs, keptTxs_new fit.outs new, List.length_map]
  rw [map_fundedRows read unfunded, all, List.take_length]

/-- Inserted address rows, when there is an id for each. -/
theorem map_insertedAddresses {β : Type} (read : AddressRow → β) {rows : List AddressRow}
    {ids : List Nat} (length : ids.length = rows.length) :
    ((insertedRows (rows.map Insert.address) ids).addresses.map fun stored => read stored.row) =
      (rows.map read : Multiset β) := by
  induction rows generalizing ids with
  | nil => rfl
  | cons row rest inductionHypothesis =>
    cases ids with
    | nil => cases length
    | cons id ids =>
      rw [List.map_cons, insertedRows_cons, TxTables.add_addresses, Multiset.map_add,
        inductionHypothesis (Nat.succ.inj length)]
      rfl

/-- The rows of the transactions of a tree fund no address. -/
theorem addresses_insertedTxs (checked : Bool) (rows : List Tx) (ids : List Nat) :
    (insertedRows (rows.map (Insert.tx checked)) ids).addresses = 0 := by
  rw [Multiset.eq_zero_iff_forall_notMem]
  intro stored member
  have listed := (List.of_mem_zip (mem_addresses_insertedRows.mp member)).1
  simp at listed

/-- What is read of the address rows of a tree with a new hash, apart from their funding
transaction. -/
theorem map_addresses_treeRows {β : Type} (read : AddressRow → β)
    (unfunded : ∀ row id, read { row with fundingTxDbID := id } = read row)
    (fit : ids.Fit start checked (extractBlockTransactions hcd msgBlock tree))
    (new : ∀ pair ∈ start.txHashes, pair.2 ≠ hcd.hashOf msgBlock) :
    ((treeRows start checked ids (extractBlockTransactions hcd msgBlock tree)).addresses.map
        fun stored => read stored.row) =
      ((keyedTxs ids.outs (extractBlockTransactions hcd msgBlock tree)).flatMap
        fun each => each.addressRows.map read : List β) := by
  rw [treeRows, TxTables.add_addresses, TxTables.add_addresses, addresses_outsRows,
    addresses_insertedTxs, zero_add, zero_add, map_insertedAddresses read fit.addresses,
    map_fundedRows_new read unfunded fit new]

end Trees

section Blocks

variable {hcd : Hcd} {msgBlock : MsgBlock} {stored : List MsgBlock}

/-- The inputs of a block, those of the regular tree first. -/
def blockVins (hcd : Hcd) (msgBlock : MsgBlock) : List VinTxProperty :=
  treeVins hcd msgBlock .regular ++ treeVins hcd msgBlock .stake

/-- The outputs of a block, those of the regular tree first. -/
def blockVouts (hcd : Hcd) (msgBlock : MsgBlock) : List Vout :=
  treeVouts hcd msgBlock .regular ++ treeVouts hcd msgBlock .stake

/-- The payments of outputs, one for each address of an output. -/
def paymentsOf (vouts : List Vout) : List (String × Hash × UInt32) :=
  vouts.flatMap fun vout => vout.scriptPubKeyData.addresses.map fun addr => (addr, vout.outpoint)

/-- The payments of a tree, as its address rows have them. -/
theorem payments_keyedTxs {outs : List (List Nat × List Nat)} {txs : List ExtractedTx}
    (fit : FitOuts outs txs) :
    ((keyedTxs outs txs).flatMap fun each => each.addressRows.map AddressRow.payment) =
      paymentsOf (txs.flatMap ExtractedTx.vouts) := by
  induction fit with
  | nil => rfl
  | @cons ids dbtx outs txs lengths _ inductionHypothesis =>
    have ofRows : ∀ (vouts : List Vout) (ids : List Nat), ids.length = vouts.length →
        ((vouts.zip ids).flatMap fun paid => addressRowsOf paid.1 paid.2).map
          AddressRow.payment = paymentsOf vouts := by
      intro vouts
      induction vouts with
      | nil => intro ids _; rfl
      | cons vout rest ofRest =>
        intro ids length
        cases ids with
        | nil => cases length
        | cons id ids =>
          have later := ofRest ids (Nat.succ.inj length)
          have first : (addressRowsOf vout id).map AddressRow.payment =
              vout.scriptPubKeyData.addresses.map fun addr => (addr, vout.outpoint) := by
            rw [addressRowsOf, List.map_map]
            rfl
          rw [List.zip_cons_cons, List.flatMap_cons, List.map_append, later, paymentsOf, paymentsOf,
            List.flatMap_cons, ← first]
    rw [keyedTxs] at inductionHypothesis
    rw [keyedTxs, List.zip_cons_cons, List.map_cons, List.flatMap_cons, inductionHypothesis,
      List.flatMap_cons, paymentsOf, paymentsOf, List.flatMap_append]
    exact congrArg (· ++ _) (ofRows dbtx.vouts ids.1 lengths.1)

/-- The tables hold what some blocks leave: the hashes of these blocks, their inputs and their
payments. -/
structure RowsOf (hcd : Hcd) (stored : List MsgBlock) (db : TxDb) : Prop where
  hashes : ∀ pair ∈ db.tables.txHashes, ∃ block ∈ stored, pair.2 = hcd.hashOf block
  vins : db.tables.vinRows = (stored.flatMap (blockVins hcd) : Multiset VinTxProperty)
  payments : db.tables.payments =
    (stored.flatMap fun block => paymentsOf (blockVouts hcd block) : List _)

/-- A new block meets no pair of hashes that is there. -/
theorem RowsOf.unmet {db : TxDb} (rows : RowsOf hcd stored db)
    (new : hcd.hashOf msgBlock ∉ stored.map hcd.hashOf) :
    ∀ pair ∈ db.tables.txHashes, pair.2 ≠ hcd.hashOf msgBlock := by
  intro pair member same
  obtain ⟨block, isStored, isHash⟩ := rows.hashes pair member
  exact new (List.mem_map.mpr ⟨block, isStored, isHash.symm.trans same⟩)

/-- A block with a new hash adds its rows. -/
theorem RowsOf.store {db after : TxDb} {checked updateAddressesSpendingInfo : Bool}
    {regIds stkIds : TreeIds} (rows : RowsOf hcd stored db) (valid : ValidBlock hcd msgBlock)
    (new : hcd.hashOf msgBlock ∉ stored.map hcd.hashOf)
    (done : BlockDone db checked updateAddressesSpendingInfo
      (extractBlockTransactions hcd msgBlock .regular)
      (extractBlockTransactions hcd msgBlock .stake) regIds stkIds after) :
    RowsOf hcd (stored ++ [msgBlock]) after := by
  have unmet := rows.unmet new
  have payments : ∀ {tree : TxTree} {ids : TreeIds},
      ids.Fit db.tables checked (extractBlockTransactions hcd msgBlock tree) →
      (treeRows db.tables checked ids (extractBlockTransactions hcd msgBlock tree)).payments =
        (paymentsOf (treeVouts hcd msgBlock tree) : Multiset _) := by
    intro tree ids fit
    rw [TxTables.payments, map_addresses_treeRows AddressRow.payment (fun _ _ => rfl) fit unmet,
      payments_keyedTxs fit.outs, valid.vouts_eq]
  constructor
  · intro pair member
    rw [done.tables, blockTables, TxTables.txHashes_spendAll, TxTables.txHashes_add,
      TxTables.txHashes_add, Multiset.mem_add, Multiset.mem_add] at member
    rcases member with (before | regular) | stake
    · obtain ⟨block, isStored, isHash⟩ := rows.hashes pair before
      exact ⟨block, List.mem_append_left _ isStored, isHash⟩
    · exact ⟨msgBlock, by simp, hashes_treeRows done.regFit.outs regular⟩
    · exact ⟨msgBlock, by simp, hashes_treeRows done.stkFit.outs stake⟩
  · rw [done.tables, blockTables, TxTables.vinRows_spendAll, TxTables.vinRows_add,
      TxTables.vinRows_add, rows.vins, vinRows_treeRows done.regFit.outs,
      vinRows_treeRows done.stkFit.outs, valid.inputs_eq, valid.inputs_eq, List.flatMap_append,
      List.flatMap_singleton, blockVins, ← Multiset.coe_add, ← Multiset.coe_add, add_assoc]
  · rw [done.tables, blockTables, TxTables.payments_spendAll, TxTables.payments_add,
      TxTables.payments_add, rows.payments, payments done.regFit, payments done.stkFit,
      List.flatMap_append, List.flatMap_singleton, blockVouts, paymentsOf, paymentsOf, paymentsOf,
      List.flatMap_append, ← Multiset.coe_add, ← Multiset.coe_add, add_assoc]

/-- The tables as they are created hold what no blocks leave. -/
theorem RowsOf.created : RowsOf hcd [] ChainTables.created.tx where
  hashes pair member := absurd member (Multiset.notMem_zero pair)
  vins := rfl
  payments := rfl

end Blocks

end Hcexplorer.Hcpg

import Hcexplorer.Hcpg.RowIds
import Hcexplorer.Hcpg.SpendingPaths

/-!
# Interleavings of a stored block against the two trees in turn

Without failures every interleaving of the two goroutines of `StoreBlock` leaves what
storing the regular tree and then the stake tree leaves, up to row ids, over any tables
that refer to no id which was not given out.

That every spent address row then names its spender is another matter. `InsertTxns`
returns the ids of the rows that it inserted, and `storeTxns` goes through them by position:
when some transactions of the tree had rows, the ids go to the first transactions, and as
many last ones are passed over. Their inputs update nothing. The law says exactly when
that is harmless: when every address row of an outpoint that they spend named them before.
-/

namespace Hcexplorer.Hcpg

open Interactive

section Statement

/-- The two goroutines of `StoreBlock`, the regular tree's first. -/
def ChainDB.storeTreesInTurn (hcd : Hcd) (env : StoreEnv) (msgBlock : MsgBlock)
    (updateAddressesSpendingInfo : Bool) (pgb : ChainDB) : TxDb :=
  let regular := postgres.solo
    (storeTxns hcd pgb.dupChecks msgBlock .regular updateAddressesSpendingInfo)
    (Conn.fresh env.regularFaults) pgb.db.tx
  let stake := postgres.solo
    (storeTxns hcd pgb.dupChecks msgBlock .stake updateAddressesSpendingInfo)
    (Conn.fresh env.stakeFaults) regular.2.2
  stake.2.2

/-- The row names an input as its spender, by the hash of its transaction, its index and
its row in the vins table. -/
def AddressRow.Names (vins : Multiset (Stored VinTxProperty)) (vin : VinTxProperty)
    (row : AddressRow) : Prop :=
  ∃ spending, row.spending = some spending ∧ spending.spendingTxHash = vin.txID ∧
    spending.spendingTxVinIndex = vin.txIndex ∧ ⟨spending.vinDbID, vin⟩ ∈ vins

/-- Every address row of an outpoint that the block spends names its spender. -/
def SpendersNamed (hcd : Hcd) (msgBlock : MsgBlock) (tables : TxTables) : Prop :=
  ∀ vin, Spends hcd msgBlock vin → ∀ stored ∈ tables.addresses,
    stored.row.outpoint = vin.outpoint → stored.row.Names tables.vins vin

/-- The inputs of the last transactions of a tree, as many as had a row already. -/
def passedOver (start : TxTables) (checked : Bool) (txs : List ExtractedTx) : List VinTxProperty :=
  inputs (txs.drop (newTxs start checked txs).length)

/-- The outputs of the other transactions. Only these get address rows. -/
def paidOutputs (start : TxTables) (checked : Bool) (txs : List ExtractedTx) : List Vout :=
  (txs.take (newTxs start checked txs).length).flatMap ExtractedTx.vouts

/-- The inputs that are passed over have no effect to miss: the address rows of their
outpoints name them already, and none is inserted. -/
structure PassesOverNamed (hcd : Hcd) (msgBlock : MsgBlock) (start : TxTables) (checked : Bool) :
    Prop where
  stored : ∀ tree, ∀ vin ∈ passedOver start checked (extractBlockTransactions hcd msgBlock tree),
    vin.prevTxHash ≠ 0 → ∀ stored ∈ start.addresses, stored.row.outpoint = vin.outpoint →
      stored.row.Names start.vins vin
  inserted : ∀ tree, ∀ vin ∈ passedOver start checked (extractBlockTransactions hcd msgBlock tree),
    vin.prevTxHash ≠ 0 → ∀ payment ∈ paymentsOf
      (paidOutputs start checked (extractBlockTransactions hcd msgBlock tree)),
      payment.2 ≠ vin.outpoint

end Statement

section Trees

variable {hcd : Hcd} {msgBlock : MsgBlock} {tree : TxTree} {start : TxTables} {checked : Bool}
  {ids : TreeIds} {txs : List ExtractedTx}

/-- Every update of a tree names an input of its first transactions, by a row that is
inserted for it.

Induction on the transactions with their ids. -/
theorem mem_spendings {txDbIDs : List Nat} {outs : List (List Nat × List Nat)} {set : SetSpending}
    (member : set ∈ spendings txDbIDs (keyedTxs outs txs)) :
    ∃ vin ∈ inputs (txs.take txDbIDs.length), vin.prevTxHash ≠ 0 ∧ ∃ txDbID vinDbID,
      ⟨vinDbID, vin⟩ ∈ (outsRows outs txs).vins ∧ set = vin.spentAs txDbID vinDbID := by
  induction outs generalizing txDbIDs txs with
  | nil => simp [keyedTxs, spendings] at member
  | cons each outs inductionHypothesis =>
    cases txs with
    | nil => simp [keyedTxs, spendings] at member
    | cons dbtx rest =>
      cases txDbIDs with
      | nil => simp [spendings] at member
      | cons txDbID txDbIDs =>
        rw [List.length_cons, List.take_succ_cons, inputs, List.flatMap_cons, outsRows,
          TxTables.add_vins, TxTables.add_vins]
        rw [spendings_cons, List.mem_append] at member
        rcases member with here | later
        · obtain ⟨vin, vinDbID, paired, regular, rfl⟩ := mem_spendingsOf.mp here
          have inserted : ⟨vinDbID, vin⟩ ∈ (insertedRows (dbtx.vins.map Insert.vin) each.2).vins := by
            rw [mem_vins_insertedRows, List.zip_map_left]
            exact List.mem_map.mpr ⟨(vin, vinDbID), paired, rfl⟩
          refine ⟨vin, List.mem_append_left _ (List.of_mem_zip paired).1, regular, txDbID, vinDbID, ?_, rfl⟩
          exact Multiset.mem_add.mpr (Or.inl (Multiset.mem_add.mpr (Or.inr inserted)))
        · obtain ⟨vin, input, regular, id, vinDbID, inserted, isSet⟩ := inductionHypothesis later
          refine ⟨vin, List.mem_append_right _ input, regular, id, vinDbID, ?_, isSet⟩
          exact Multiset.mem_add.mpr (Or.inr inserted)

/-- The inputs of a tree are those of its first transactions and those of its last. -/
theorem mem_inputs_split (n : Nat) {vin : VinTxProperty} :
    vin ∈ inputs txs ↔ vin ∈ inputs (txs.take n) ∨ vin ∈ inputs (txs.drop n) := by
  conv_lhs => rw [← List.take_append_drop n txs, inputs, List.flatMap_append, List.mem_append]
  rfl

/-- An input is one of one transaction of a valid block. -/
theorem ValidBlock.not_passedOver (valid : ValidBlock hcd msgBlock) {n : Nat} {vin : VinTxProperty}
    (named : vin ∈ inputs ((extractBlockTransactions hcd msgBlock tree).take n)) :
    vin ∉ inputs ((extractBlockTransactions hcd msgBlock tree).drop n) := by
  intro passed
  have distinct : ((extractBlockTransactions hcd msgBlock tree).map fun dbtx => dbtx.tx.txID).Nodup := by
    have hashes := valid.distinct_tree tree
    rw [← List.zipIdx_map_fst 0 (treeTransactions msgBlock tree), List.map_map] at hashes
    rw [valid.extracted, List.map_map]
    exact hashes
  have txID : ∀ {dbtx : ExtractedTx}, dbtx ∈ extractBlockTransactions hcd msgBlock tree →
      vin ∈ dbtx.vins → vin.txID = dbtx.tx.txID := by
    intro dbtx extracted input
    obtain ⟨tx, -, index, rfl⟩ := processTransactions_tx extracted
    obtain ⟨_, -, rfl⟩ := List.mem_map.mp input
    rfl
  obtain ⟨first, isFirst, inputFirst⟩ := List.mem_flatMap.mp named
  obtain ⟨last, isLast, inputLast⟩ := List.mem_flatMap.mp passed
  rw [← List.take_append_drop n (extractBlockTransactions hcd msgBlock tree), List.map_append] at distinct
  obtain ⟨-, -, apart⟩ := List.nodup_append.mp distinct
  refine apart _ (List.mem_map_of_mem isFirst) _ (List.mem_map_of_mem isLast) ?_
  exact (txID (List.mem_of_mem_take isFirst) inputFirst).symm.trans
    (txID (List.mem_of_mem_drop isLast) inputLast)

/-- The vins rows of a tree have ids that the tree was handed. -/
theorem id_mem_of_mem_vins {stored : Stored VinTxProperty}
    (member : stored ∈ (treeRows start checked ids txs).vins) : stored.id ∈ ids.of .vins := by
  have within : (treeRows start checked ids txs).Within fun table id => id ∈ ids.of table :=
    within_treeRows fun _ _ isHanded => isHanded
  exact within.vins stored member

/-- The rows of inputs are rows of the tree. -/
theorem mem_vins_of_outsRows {stored : Stored VinTxProperty}
    (member : stored ∈ (outsRows ids.outs txs).vins) :
    stored ∈ (treeRows start checked ids txs).vins := by
  rw [treeRows, TxTables.add_vins, TxTables.add_vins, Multiset.mem_add, Multiset.mem_add]
  exact Or.inl (Or.inl member)

/-- The address rows of a tree pay the outputs of its first transactions. -/
theorem payment_mem_iff (fit : ids.Fit start checked txs) {payment : String × Hash × UInt32} :
    (∃ stored ∈ (treeRows start checked ids txs).addresses, stored.row.payment = payment) ↔
      payment ∈ paymentsOf (paidOutputs start checked txs) := by
  have paid := payments_fundedRows fit.outs ids.txs
  rw [fit.txs, length_keptTxs fit.outs] at paid
  rw [paidOutputs, ← paid, List.mem_map]
  have listed : ∀ row, row ∈ fundedRows ids.txs (keyedTxs ids.outs txs) ↔
      ∃ id, (row, id) ∈ (fundedRows ids.txs (keyedTxs ids.outs txs)).zip ids.addresses := by
    intro row
    conv_lhs => rw [← List.map_fst_zip fit.addresses.ge, List.mem_map]
    constructor
    · rintro ⟨⟨_, id⟩, member, rfl⟩
      exact ⟨id, member⟩
    · rintro ⟨id, member⟩
      exact ⟨_, member, rfl⟩
  constructor
  · rintro ⟨stored, member, rfl⟩
    exact ⟨stored.row, (listed _).mpr ⟨stored.id, mem_addresses_treeRows.mp member⟩, rfl⟩
  · rintro ⟨row, funded, rfl⟩
    obtain ⟨id, member⟩ := (listed row).mp funded
    exact ⟨⟨id, row⟩, mem_addresses_treeRows.mpr member, rfl⟩

end Trees

section Block

variable {hcd : Hcd} {msgBlock : MsgBlock} {checked : Bool} {tx after : TxDb}
  {regIds stkIds : TreeIds}

/-- The ids that were handed to one of the trees of a block. -/
def idsOf (regIds stkIds : TreeIds) : TxTree → TreeIds
  | .regular => regIds
  | .stake => stkIds

/-- The rows of one of the trees of a block under its ids. -/
def rowsOf (hcd : Hcd) (msgBlock : MsgBlock) (start : TxTables) (checked : Bool)
    (regIds stkIds : TreeIds) (tree : TxTree) : TxTables :=
  treeRows start checked (idsOf regIds stkIds tree) (extractBlockTransactions hcd msgBlock tree)

/-- The updates of both trees of a block. -/
def blockSpendings (hcd : Hcd) (msgBlock : MsgBlock) (regIds stkIds : TreeIds) : List SetSpending :=
  treeSpendings true regIds (extractBlockTransactions hcd msgBlock .regular) ++
    treeSpendings true stkIds (extractBlockTransactions hcd msgBlock .stake)

/-- A block that was stored with spending updates, with the ids of its trees. -/
abbrev Updated (hcd : Hcd) (msgBlock : MsgBlock) (checked : Bool) (tx : TxDb)
    (regIds stkIds : TreeIds) (after : TxDb) : Prop :=
  BlockDone tx checked true (extractBlockTransactions hcd msgBlock .regular)
    (extractBlockTransactions hcd msgBlock .stake) regIds stkIds after

namespace BlockDone

/-- There are as many ids as rows in both trees. -/
theorem fit (done : Updated hcd msgBlock checked tx regIds stkIds after) (tree : TxTree) :
    (idsOf regIds stkIds tree).Fit tx.tables checked (extractBlockTransactions hcd msgBlock tree) := by
  cases tree with
  | regular => exact done.regFit
  | stake => exact done.stkFit

/-- The vins table afterwards has its earlier rows and those of both trees. -/
theorem mem_vins (done : Updated hcd msgBlock checked tx regIds stkIds after)
    {stored : Stored VinTxProperty} : stored ∈ after.tables.vins ↔ stored ∈ tx.tables.vins ∨
      ∃ tree, stored ∈ (rowsOf hcd msgBlock tx.tables checked regIds stkIds tree).vins := by
  rw [done.tables, blockTables, TxTables.spendAll_vins, TxTables.add_vins, TxTables.add_vins,
    Multiset.mem_add, Multiset.mem_add, or_assoc, TxTree.exists_iff]
  rfl

/-- The address rows afterwards are the earlier ones and those of both trees, with the updates of
the block. -/
theorem mem_addresses (done : Updated hcd msgBlock checked tx regIds stkIds after)
    {stored : Stored AddressRow} : stored ∈ after.tables.addresses ↔ ∃ base : Stored AddressRow,
      (base ∈ tx.tables.addresses ∨
        ∃ tree, base ∈ (rowsOf hcd msgBlock tx.tables checked regIds stkIds tree).addresses) ∧
      stored = { base with row := base.row.spendAll (blockSpendings hcd msgBlock regIds stkIds) } := by
  rw [done.tables, blockTables, mem_addresses_spendAll]
  apply exists_congr
  intro base
  apply and_congr_left'
  rw [TxTables.add_addresses, TxTables.add_addresses, Multiset.mem_add, Multiset.mem_add, or_assoc,
    TxTree.exists_iff]
  rfl

/-- Every update names an input that is not passed over. -/
theorem mem_blockSpendings (done : Updated hcd msgBlock checked tx regIds stkIds after)
    {set : SetSpending} (member : set ∈ blockSpendings hcd msgBlock regIds stkIds) :
    ∃ tree, ∃ vin ∈ inputs ((extractBlockTransactions hcd msgBlock tree).take
        (newTxs tx.tables checked (extractBlockTransactions hcd msgBlock tree)).length),
      vin.prevTxHash ≠ 0 ∧ ∃ txDbID vinDbID, ⟨vinDbID, vin⟩ ∈ after.tables.vins ∧
        set = vin.spentAs txDbID vinDbID := by
  obtain ⟨tree, listed⟩ : ∃ tree, set ∈ treeSpendings true (idsOf regIds stkIds tree)
      (extractBlockTransactions hcd msgBlock tree) :=
    TxTree.exists_iff.mpr (List.mem_append.mp member)
  obtain ⟨vin, input, regular, txDbID, vinDbID, inserted, isSet⟩ := mem_spendings listed
  rw [(done.fit tree).txs, length_keptTxs (done.fit tree).outs] at input
  exact ⟨tree, vin, input, regular, txDbID, vinDbID,
    done.mem_vins.mpr (Or.inr ⟨tree, mem_vins_of_outsRows inserted⟩), isSet⟩

/-- Every input that is not passed over is named by some update of its outpoint. -/
theorem exists_blockSpending (done : Updated hcd msgBlock checked tx regIds stkIds after)
    {tree : TxTree} {vin : VinTxProperty}
    (input : vin ∈ inputs ((extractBlockTransactions hcd msgBlock tree).take
      (newTxs tx.tables checked (extractBlockTransactions hcd msgBlock tree)).length))
    (regular : vin.prevTxHash ≠ 0) :
    ∃ set ∈ blockSpendings hcd msgBlock regIds stkIds, set.outpoint = vin.outpoint := by
  rw [← length_keptTxs (done.fit tree).outs, ← (done.fit tree).txs] at input
  obtain ⟨set, listed, same⟩ := exists_treeSpending (done.fit tree).outs input regular
  cases tree with
  | regular => exact ⟨set, List.mem_append_left _ listed, same⟩
  | stake => exact ⟨set, List.mem_append_right _ listed, same⟩

/-- No update is about the outpoint of an input that is passed over. -/
theorem passedOver_not_updated (done : Updated hcd msgBlock checked tx regIds stkIds after)
    (valid : ValidBlock hcd msgBlock) {tree : TxTree} {vin : VinTxProperty}
    (passed : vin ∈ passedOver tx.tables checked (extractBlockTransactions hcd msgBlock tree))
    (regular : vin.prevTxHash ≠ 0) :
    ∀ set ∈ blockSpendings hcd msgBlock regIds stkIds, set.outpoint ≠ vin.outpoint := by
  intro set member same
  obtain ⟨other, spender, named, -, txDbID, vinDbID, -, rfl⟩ := done.mem_blockSpendings member
  have input : vin ∈ treeVins hcd msgBlock tree := by
    rw [← valid.inputs_eq]
    exact (mem_inputs_split _).mpr (Or.inr passed)
  have inputToo : spender ∈ treeVins hcd msgBlock other := by
    rw [← valid.inputs_eq]
    exact (mem_inputs_split _).mpr (Or.inl named)
  obtain rfl := valid.once tree vin input other spender inputToo regular same.symm
  obtain rfl := tree_eq_of_mem_treeVins input inputToo
  exact valid.not_passedOver named passed

/-- An input that is passed over is one of its tree. -/
theorem mem_treeVins_of_passedOver (valid : ValidBlock hcd msgBlock) {tree : TxTree}
    {vin : VinTxProperty}
    (passed : vin ∈ passedOver tx.tables checked (extractBlockTransactions hcd msgBlock tree)) :
    vin ∈ treeVins hcd msgBlock tree := by
  rw [← valid.inputs_eq]
  exact (mem_inputs_split _).mpr (Or.inr passed)

/-- If every spent address row names its spender, then a row that an input which is passed over
spends named it before the block's updates: none of them is about its outpoint. -/
theorem names_passedOver (done : Updated hcd msgBlock checked tx regIds stkIds after)
    (valid : ValidBlock hcd msgBlock) (named : SpendersNamed hcd msgBlock after.tables)
    {tree : TxTree} {vin : VinTxProperty}
    (passed : vin ∈ passedOver tx.tables checked (extractBlockTransactions hcd msgBlock tree))
    (regular : vin.prevTxHash ≠ 0) {base : Stored AddressRow}
    (present : base ∈ tx.tables.addresses ∨
      ∃ tree, base ∈ (rowsOf hcd msgBlock tx.tables checked regIds stkIds tree).addresses)
    (same : base.row.outpoint = vin.outpoint) : base.row.Names after.tables.vins vin := by
  have row : base.row.spendAll (blockSpendings hcd msgBlock regIds stkIds) = base.row := by
    rcases base.row.spendAll_cases _ with ⟨set, listed, isOutpoint, -⟩ | ⟨-, ends⟩
    · exact absurd (isOutpoint.trans same) (done.passedOver_not_updated valid passed regular set listed)
    · exact ends
  have spent : vin ∈ blockVins hcd msgBlock :=
    mem_blockVins.mpr ⟨tree, mem_treeVins_of_passedOver valid passed⟩
  rw [← row]
  refine named vin ⟨spent, regular⟩ _ (done.mem_addresses.mpr ⟨base, present, rfl⟩) ?_
  rw [AddressRow.outpoint_spendAll]
  exact same

/-- The inputs that are passed over were named before if every spent address row names its
spender: a row that was there named one of the inputs that were there, and one of the block has
no spender before the updates. -/
theorem passesOverNamed_of_spendersNamed (done : Updated hcd msgBlock checked tx regIds stkIds after)
    (valid : ValidBlock hcd msgBlock) (closed : tx.Closed)
    (named : SpendersNamed hcd msgBlock after.tables) :
    PassesOverNamed hcd msgBlock tx.tables checked := by
  constructor
  · intro tree vin passed regular stored member same
    obtain ⟨spending, isSpent, hash, index, isVin⟩ :=
      done.names_passedOver valid named passed regular (Or.inl member) same
    refine ⟨spending, isSpent, hash, index, ?_⟩
    rcases done.mem_vins.mp isVin with before | ⟨other, inserted⟩
    · exact before
    · have given := ((closed.addresses stored member).2.spending spending isSpent).2
      have handed := id_mem_of_mem_vins inserted
      have bounds := (done.fresh .vins).bounds spending.vinDbID (by
        cases other with
        | regular => exact List.mem_append_left _ handed
        | stake => exact List.mem_append_right _ handed)
      exact absurd given (Nat.not_lt.mpr bounds.1)
  · intro tree vin passed regular payment paid same
    obtain ⟨stored, inserted, rfl⟩ := (payment_mem_iff (done.fit tree)).mpr paid
    obtain ⟨spending, isSpent, -⟩ :=
      done.names_passedOver valid named passed regular (Or.inr ⟨tree, inserted⟩) same
    rw [unspent_treeRows inserted] at isSpent
    cases isSpent

/-- An address row that an update of the block was about names the input of this update, which is
the only one of the block that spends the row. -/
theorem names_updated (done : Updated hcd msgBlock checked tx regIds stkIds after)
    (valid : ValidBlock hcd msgBlock) {vin : VinTxProperty} (spent : vin ∈ blockVins hcd msgBlock)
    {row : AddressRow} (same : row.outpoint = vin.outpoint) {set : SetSpending}
    (listed : set ∈ blockSpendings hcd msgBlock regIds stkIds)
    (isOutpoint : set.outpoint = row.outpoint) :
    { row with spending := some set.spending }.Names after.tables.vins vin := by
  obtain ⟨tree, spender, input, regular, txDbID, vinDbID, isVin, rfl⟩ :=
    done.mem_blockSpendings listed
  obtain ⟨other, vinInput⟩ := mem_blockVins.mp spent
  have spenderInput : spender ∈ treeVins hcd msgBlock tree := by
    rw [← valid.inputs_eq]
    exact (mem_inputs_split _).mpr (Or.inl input)
  obtain rfl := valid.once tree spender spenderInput other vin vinInput regular
    (isOutpoint.trans same)
  exact ⟨_, rfl, rfl, rfl, isVin⟩

/-- Every spent address row names its spender if the inputs that are passed over were named
before. -/
theorem spendersNamed_of_passesOverNamed (done : Updated hcd msgBlock checked tx regIds stkIds after)
    (valid : ValidBlock hcd msgBlock) (harmless : PassesOverNamed hcd msgBlock tx.tables checked) :
    SpendersNamed hcd msgBlock after.tables := by
  intro vin spent stored member same
  obtain ⟨base, present, rfl⟩ := done.mem_addresses.mp member
  rw [AddressRow.outpoint_spendAll] at same
  rcases base.row.spendAll_cases (blockSpendings hcd msgBlock regIds stkIds) with
    ⟨set, listed, isOutpoint, ends⟩ | ⟨never, ends⟩
  · rw [ends]
    exact done.names_updated valid spent.1 same listed isOutpoint
  · rw [ends]
    obtain ⟨tree, vinInput⟩ := mem_blockVins.mp spent.1
    have passed : vin ∈ passedOver tx.tables checked (extractBlockTransactions hcd msgBlock tree) := by
      rw [← valid.inputs_eq] at vinInput
      rcases (mem_inputs_split _).mp vinInput with named | passed
      · obtain ⟨set, listed, isOutpoint⟩ := done.exists_blockSpending named spent.2
        exact absurd (isOutpoint.trans same.symm) (never set listed)
      · exact passed
    rcases present with before | ⟨other, inserted⟩
    · obtain ⟨spending, isSpent, hash, index, isVin⟩ :=
        harmless.stored tree vin passed spent.2 base before same
      exact ⟨spending, isSpent, hash, index, done.mem_vins.mpr (Or.inl isVin)⟩
    · have paid := (payment_mem_iff (done.fit other)).mp ⟨base, inserted, rfl⟩
      have created := outpoint_treeRows inserted
      rw [valid.createdBy_eq] at created
      obtain ⟨vout, output, isOutpoint⟩ := List.mem_map.mp created
      obtain rfl := valid.separate tree vin vinInput other vout output spent.2
        (same.symm.trans isOutpoint.symm)
      exact absurd same (harmless.inserted tree vin passed spent.2 _ paid)

/-- Every spent address row names its spender exactly when the inputs that are passed over
were named before. -/
theorem spendersNamed_iff (done : Updated hcd msgBlock checked tx regIds stkIds after)
    (valid : ValidBlock hcd msgBlock) (closed : tx.Closed) :
    SpendersNamed hcd msgBlock after.tables ↔ PassesOverNamed hcd msgBlock tx.tables checked :=
  ⟨done.passesOverNamed_of_spendersNamed valid closed, done.spendersNamed_of_passesOverNamed valid⟩

end BlockDone

/-- Storing the trees in turn is one of the interleavings. -/
theorem ChainDB.storeTreesInTurn_eq (hcd : Hcd) (env : StoreEnv) (msgBlock : MsgBlock)
    (updateAddressesSpendingInfo : Bool) (pgb : ChainDB) :
    pgb.storeTreesInTurn hcd env msgBlock updateAddressesSpendingInfo =
      (pgb.storeTrees hcd { env with schedule := [] } msgBlock updateAddressesSpendingInfo).2.2 := rfl

/-- In every interleaving without failures, over any tables, a stored block leaves what its
trees leave in turn, up to row ids. -/
theorem ChainDB.storeBlock_sameUpToIds (valid : ValidBlock hcd msgBlock) {pgb : ChainDB}
    (closed : pgb.db.tx.Closed) {env : StoreEnv} (clean : env.TreesClean)
    (isValid updateAddressesSpendingInfo : Bool) :
    SameUpToIds (pgb.storeBlock hcd env msgBlock isValid updateAddressesSpendingInfo).2.db.tx.tables
      (pgb.storeTreesInTurn hcd env msgBlock updateAddressesSpendingInfo).tables := by
  have cleanInTurn : ({ env with schedule := [] } : StoreEnv).TreesClean :=
    ⟨clean.regular, clean.stake⟩
  obtain ⟨regIds, stkIds, done⟩ :=
    pgb.storeBlock_done clean valid isValid updateAddressesSpendingInfo
  obtain ⟨_, _, _, _, final, -, -, ran, doneInTurn⟩ :=
    pgb.storeTrees_done cleanInTurn valid updateAddressesSpendingInfo
  rw [ChainDB.storeTreesInTurn_eq, ran]
  exact done.sameUpToIds closed doneInTurn

/-- In every interleaving without failures, a stored block leaves what its trees leave in
turn, up to row ids, with every spent address row naming its spender, exactly when the
inputs that are passed over were named before. -/
theorem ChainDB.storeBlock_inTurn_iff (valid : ValidBlock hcd msgBlock) {pgb : ChainDB}
    (closed : pgb.db.tx.Closed) {env : StoreEnv} (clean : env.TreesClean) (isValid : Bool) :
    (SameUpToIds (pgb.storeBlock hcd env msgBlock isValid true).2.db.tx.tables
        (pgb.storeTreesInTurn hcd env msgBlock true).tables ∧
      SpendersNamed hcd msgBlock (pgb.storeBlock hcd env msgBlock isValid true).2.db.tx.tables) ↔
      PassesOverNamed hcd msgBlock pgb.db.tx.tables pgb.dupChecks := by
  obtain ⟨regIds, stkIds, done⟩ := pgb.storeBlock_done clean valid isValid true
  rw [← done.spendersNamed_iff valid closed]
  exact and_iff_right (ChainDB.storeBlock_sameUpToIds valid closed clean isValid true)

/-- A block with a new hash passes nothing over. -/
theorem passesOverNamed_new {start : TxTables}
    (new : ∀ pair ∈ start.txHashes, pair.2 ≠ hcd.hashOf msgBlock) (checked : Bool) :
    PassesOverNamed hcd msgBlock start checked := by
  have nothing : ∀ tree, passedOver start checked (extractBlockTransactions hcd msgBlock tree) = [] := by
    intro tree
    have all : newTxs start checked (extractBlockTransactions hcd msgBlock tree) =
        extractBlockTransactions hcd msgBlock tree := by
      rw [newTxs, List.filter_eq_self]
      intro dbtx extracted
      obtain ⟨tx, -, index, rfl⟩ := processTransactions_tx extracted
      apply decide_eq_true
      rintro ⟨-, present⟩
      exact new _ present rfl
    rw [passedOver, all, List.drop_length]
    rfl
  constructor
  · intro tree vin passed
    rw [nothing] at passed
    cases passed
  · intro tree vin passed
    rw [nothing] at passed
    cases passed

end Block

section Samples

/-- A database with the first block of the sample chain, whose output the second spends. -/
def paidChainDB : ChainDB :=
  ((freshChainDB true).storeBlock Sample.hcd (.noFaults []) (spendBlock 0) true true).2

/-- The law for the second block, the two goroutines taking turns. -/
theorem storeBlock_inTurn_second :
    let stored := (paidChainDB.storeBlock Sample.hcd (.noFaults [true, false, true, false])
      (spendBlock 1) true true).2.db.tx.tables
    SameUpToIds stored (paidChainDB.storeTreesInTurn Sample.hcd
        (.noFaults [true, false, true, false]) (spendBlock 1) true).tables ∧
      SpendersNamed Sample.hcd (spendBlock 1) stored := by
  obtain ⟨regIds, stkIds, done⟩ := (freshChainDB true).storeBlock_done
    (StoreEnv.noFaults_clean []).toTreesClean (spendBlock_valid 0) true true
  have rows := RowsOf.created.store (spendBlock_valid 0) List.not_mem_nil done
  have closed := TxDb.Closed.created.store done
  refine (ChainDB.storeBlock_inTurn_iff (spendBlock_valid 1) closed
    (StoreEnv.noFaults_clean _).toTreesClean true).mpr (passesOverNamed_new (rows.unmet ?_) _)
  decide

/-- That database after a first attempt at the second block: the connection of the regular tree
is lost when it begins to insert address rows, after it committed the transaction. -/
def halfStoredChainDB : ChainDB :=
  (paidChainDB.storeBlock Sample.hcd
    { StoreEnv.noFaults [] with
      regularFaults := fun issued => if issued = 11 then some "connection lost" else none }
    (spendBlock 1) true true).2

/-- When the block is stored again, its transaction has a row. No id is returned for it, and
the output that it spends stays unspent. -/
theorem storeBlock_again_unspent :
    ¬ (SameUpToIds (halfStoredChainDB.storeBlock Sample.hcd (.noFaults []) (spendBlock 1) true
          true).2.db.tx.tables
        (halfStoredChainDB.storeTreesInTurn Sample.hcd (.noFaults []) (spendBlock 1) true).tables ∧
      SpendersNamed Sample.hcd (spendBlock 1) (halfStoredChainDB.storeBlock Sample.hcd (.noFaults [])
        (spendBlock 1) true true).2.db.tx.tables) := by
  rintro ⟨-, named⟩
  have columns : (halfStoredChainDB.storeBlock Sample.hcd (.noFaults []) (spendBlock 1) true
      true).2.db.tx.tables.addresses.map (fun stored => (stored.row.outpoint, stored.row.spending)) =
        {(spendingVin.outpoint, none)} := by
    decide +kernel
  have column := columns ▸ Multiset.mem_singleton_self (spendingVin.outpoint, (none : Option Spending))
  obtain ⟨stored, member, isColumn⟩ := Multiset.mem_map.mp column
  obtain ⟨isOutpoint, unspent⟩ := Prod.mk.inj isColumn
  obtain ⟨spending, isSpent, -⟩ :=
    named spendingVin (spends_spendBlock.mpr ⟨rfl, rfl⟩) stored member isOutpoint
  rw [unspent] at isSpent
  cases isSpent

end Samples

end Hcexplorer.Hcpg

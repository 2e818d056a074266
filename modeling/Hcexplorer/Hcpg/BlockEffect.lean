import Hcexplorer.Hcpg.TwoTrees

/-!
# What storing a block does to the transaction tables

In every interleaving without failures the transaction tables end with the rows
that they had, those of the regular and those of the stake tree, and then the
updates of both trees. Only the row ids depend on the interleaving. They are those
that the sequences gave out in between, each once.

An update overwrites what an earlier one of its outpoint wrote, so an address row
ends with the last update of its outpoint, or as it was.
-/

namespace Hcexplorer.Hcpg

open Interactive

section Updates

/-- The updates of one address row, in the order in which the statements were committed. -/
def AddressRow.spendAll (sets : List SetSpending) (row : AddressRow) : AddressRow :=
  sets.foldl (fun current set => current.spend set) row

/-- Without updates the address row is as it was. -/
@[simp] theorem AddressRow.spendAll_nil (row : AddressRow) : row.spendAll [] = row := rfl

/-- The first of several updates comes before the others. -/
@[simp] theorem AddressRow.spendAll_cons (set : SetSpending) (rest : List SetSpending)
    (row : AddressRow) : row.spendAll (set :: rest) = (row.spend set).spendAll rest := rfl

/-- Without updates the tables are as they were. -/
@[simp] theorem TxTables.spendAll_nil (tables : TxTables) : tables.spendAll [] = tables := rfl

/-- The first of several updates of the tables comes before the others. -/
@[simp] theorem TxTables.spendAll_cons (set : SetSpending) (rest : List SetSpending)
    (tables : TxTables) : tables.spendAll (set :: rest) = (tables.spend set).spendAll rest := rfl

/-- The updates of two lists one after the other are those of the one list after those of the
other. -/
@[simp] theorem TxTables.spendAll_append (front back : List SetSpending) (tables : TxTables) :
    tables.spendAll (front ++ back) = (tables.spendAll front).spendAll back := List.foldl_append

/-- Updates do not move a row to another outpoint. -/
@[simp] theorem AddressRow.outpoint_spendAll (sets : List SetSpending) (row : AddressRow) :
    (row.spendAll sets).outpoint = row.outpoint := by
  induction sets generalizing row with
  | nil => rfl
  | cons set rest inductionHypothesis =>
    rw [AddressRow.spendAll_cons, inductionHypothesis, AddressRow.outpoint_spend]

/-- Updates of the table are updates of each row. -/
theorem TxTables.spendAll_eq (sets : List SetSpending) (tables : TxTables) :
    tables.spendAll sets = { tables with addresses := tables.addresses.map fun stored =>
      { stored with row := stored.row.spendAll sets } } := by
  induction sets generalizing tables with
  | nil => simp
  | cons set rest inductionHypothesis =>
    rw [TxTables.spendAll_cons, inductionHypothesis]
    simp only [TxTables.spend, Multiset.map_map, Function.comp_def, AddressRow.spendAll_cons]

/-- Updates of spending columns leave the inputs as they are. -/
@[simp] theorem TxTables.spendAll_vins (sets : List SetSpending) (tables : TxTables) :
    (tables.spendAll sets).vins = tables.vins := by rw [TxTables.spendAll_eq]

/-- Updates of spending columns leave the outputs as they are. -/
@[simp] theorem TxTables.spendAll_vouts (sets : List SetSpending) (tables : TxTables) :
    (tables.spendAll sets).vouts = tables.vouts := by rw [TxTables.spendAll_eq]

/-- Updates of spending columns leave the transactions as they are. -/
@[simp] theorem TxTables.spendAll_transactions (sets : List SetSpending) (tables : TxTables) :
    (tables.spendAll sets).transactions = tables.transactions := by rw [TxTables.spendAll_eq]

/-- A row ends with the spending of some update of its outpoint, the last one, or as
it was when there is none. -/
theorem AddressRow.spendAll_cases (sets : List SetSpending) (row : AddressRow) :
    (∃ set ∈ sets, set.outpoint = row.outpoint ∧
        row.spendAll sets = { row with spending := some set.spending }) ∨
      (∀ set ∈ sets, set.outpoint ≠ row.outpoint) ∧ row.spendAll sets = row := by
  induction sets generalizing row with
  | nil => exact Or.inr ⟨nofun, rfl⟩
  | cons set rest inductionHypothesis =>
    rw [AddressRow.spendAll_cons]
    by_cases here : row.outpoint = set.outpoint
    · have written : row.spend set = { row with spending := some set.spending } := if_pos here
      rw [written]
      rcases inductionHypothesis { row with spending := some set.spending } with
        ⟨later, member, same, ends⟩ | ⟨-, ends⟩
      · exact Or.inl ⟨later, List.mem_cons_of_mem _ member, same, ends⟩
      · exact Or.inl ⟨set, List.mem_cons_self, here.symm, ends⟩
    · have unwritten : row.spend set = row := if_neg here
      rw [unwritten]
      rcases inductionHypothesis row with ⟨later, member, same, ends⟩ | ⟨never, ends⟩
      · exact Or.inl ⟨later, List.mem_cons_of_mem _ member, same, ends⟩
      · refine Or.inr ⟨?_, ends⟩
        intro other member
        rcases List.mem_cons.mp member with rfl | present
        · exact Ne.symm here
        · exact never other present

/-- Updates do not see rows of other outpoints, so these can be added before or after them. -/
theorem TxTables.spendAll_add {sets : List SetSpending} {pending : TxTables}
    (elsewhere : ∀ set ∈ sets, ∀ stored ∈ pending.addresses, stored.row.outpoint ≠ set.outpoint)
    (tables : TxTables) : (tables + pending).spendAll sets = tables.spendAll sets + pending := by
  induction sets generalizing tables with
  | nil => rfl
  | cons set rest inductionHypothesis =>
    rw [TxTables.spendAll_cons, TxTables.spend_add (elsewhere set List.mem_cons_self),
      inductionHypothesis fun later member => elsewhere later (List.mem_cons_of_mem _ member)]
    rfl

end Updates

section Rows

variable {start : TxTables} {checked : Bool} {ids : TreeIds} {txs : List ExtractedTx}

/-- The rows of outputs and inputs fund no address. -/
theorem addresses_outsRows (outs : List (List Nat × List Nat)) (txs : List ExtractedTx) :
    (outsRows outs txs).addresses = 0 := by
  have none : ∀ (inserts : List Insert) (ids : List Nat),
      (∀ row, Insert.address row ∉ inserts) → (insertedRows inserts ids).addresses = 0 := by
    intro inserts ids absent
    rw [Multiset.eq_zero_iff_forall_notMem]
    intro stored member
    exact absent _ (List.of_mem_zip (mem_addresses_insertedRows.mp member)).1
  induction outs generalizing txs with
  | nil => rfl
  | cons ids outs inductionHypothesis =>
    cases txs with
    | nil => rfl
    | cons dbtx rest =>
      rw [outsRows, TxTables.add_addresses, TxTables.add_addresses, inductionHypothesis,
        none _ _ (by simp), none _ _ (by simp)]
      rfl

/-- The address rows of a tree are those of its transactions. -/
theorem mem_addresses_treeRows {stored : Stored AddressRow} :
    stored ∈ (treeRows start checked ids txs).addresses ↔
      (stored.row, stored.id) ∈ (fundedRows ids.txs (keyedTxs ids.outs txs)).zip ids.addresses := by
  have notTx : stored ∉ (insertedRows ((keptTxs start checked ids.outs txs).map
      (Insert.tx checked)) ids.txs).addresses := by
    intro member
    have listed := (List.of_mem_zip (mem_addresses_insertedRows.mp member)).1
    simp at listed
  simp only [treeRows, TxTables.add_addresses, addresses_outsRows, zero_add, Multiset.mem_add, notTx,
    false_or, mem_addresses_insertedRows, List.zip_map_left, List.mem_map, Prod.map_apply, id_eq,
    Prod.mk.injEq, Insert.address.injEq, Prod.exists]
  constructor
  · rintro ⟨row, id, member, rfl, rfl⟩
    exact member
  · intro member
    exact ⟨_, _, member, rfl, rfl⟩

/-- An address row of a tree is about an output of the tree. -/
theorem outpoint_treeRows {stored : Stored AddressRow}
    (member : stored ∈ (treeRows start checked ids txs).addresses) :
    stored.row.outpoint ∈ createdBy txs :=
  outpoint_fundedRows (List.of_mem_zip (mem_addresses_treeRows.mp member)).1

/-- The updates of a tree are about outpoints that it spends. -/
theorem outpoint_treeSpendings {updateAddressesSpendingInfo : Bool} {set : SetSpending}
    (member : set ∈ treeSpendings updateAddressesSpendingInfo ids txs) :
    set.outpoint ∈ spentBy txs := by
  rw [treeSpendings] at member
  split at member
  · exact outpoint_spendings member
  · cases member

end Rows

section Block

/-- The transaction tables after a block, from those before and the row ids given
out in between. -/
def blockTables (start : TxTables) (checked updateAddressesSpendingInfo : Bool)
    (reg stk : List ExtractedTx) (regIds stkIds : TreeIds) : TxTables :=
  (start + treeRows start checked regIds reg + treeRows start checked stkIds stk).spendAll
    (treeSpendings updateAddressesSpendingInfo regIds reg ++
      treeSpendings updateAddressesSpendingInfo stkIds stk)

/-- What a block without failures did to the tables: the rows of its two trees with their ids,
and the updates of both. -/
structure BlockDone (start : TxDb) (checked updateAddressesSpendingInfo : Bool)
    (reg stk : List ExtractedTx) (regIds stkIds : TreeIds) (final : TxDb) : Prop where
  regFit : regIds.Fit start.tables checked reg
  stkFit : stkIds.Fit start.tables checked stk
  sequences : ∀ table, start.sequences table ≤ final.sequences table
  fresh : ∀ table, Fresh (start.sequences table) (final.sequences table)
    (regIds.of table ++ stkIds.of table)
  tables : final.tables =
    blockTables start.tables checked updateAddressesSpendingInfo reg stk regIds stkIds

/-- Two trees that are done, with their ids kept apart, have done the block. -/
theorem blockDone_after {start : TxDb} {checked updateAddressesSpendingInfo : Bool}
    {reg stk : List ExtractedTx} {regIds stkIds : TreeIds} {doneLeft doneRight : List Effect}
    (left : TreeDone start.tables checked updateAddressesSpendingInfo reg regIds doneLeft)
    (right : TreeDone start.tables checked updateAddressesSpendingInfo stk stkIds doneRight)
    (unspent : ∀ outpoint ∈ spentBy reg, outpoint ∉ createdBy stk)
    (apart : HandedApart start doneLeft doneRight) :
    BlockDone start checked updateAddressesSpendingInfo reg stk regIds stkIds
      (postgres.after start doneLeft doneRight) := by
  obtain ⟨regFit, frontLeft, rfl, grownLeft⟩ := left
  obtain ⟨stkFit, frontRight, rfl, grownRight⟩ := right
  have noUpdates : ∀ {front : List Effect} {rows : TxTables} {ids : Table → List Nat},
      Grown [] front rows ids → updates front = [] := fun grown => grown.updates
  have handedIds : ∀ {front : List Effect} {rows : TxTables} {ids : Table → List Nat}
      (sets : List SetSpending) (table : Table), Grown [] front rows ids →
      handed table (front ++ sets.map Effect.spend) = ids table := by
    intro front rows ids sets table grown
    have none : handed table (sets.map Effect.spend) = [] := by
      simp [handed, List.flatMap_map, Effect.handed]
    rw [handed_append, none, List.append_nil, grown.handed]
    rfl
  refine ⟨regFit, stkFit, ?_, ?_, ?_⟩
  · intro table
    rw [sequences_after]
    omega
  · intro table
    have fresh := apart table
    rw [handedIds _ _ grownLeft, handedIds _ _ grownRight] at fresh
    rwa [sequences_after]
  · rw [Server.after, Server.applyAll_append, Server.applyAll_append, applyAll_spend, applyAll_spend,
      tables_applyAll (noUpdates grownRight), tables_applyAll (noUpdates grownLeft),
      grownLeft.committed, grownRight.committed, committed_nil, zero_add, zero_add, blockTables,
      TxTables.spendAll_append]
    dsimp only
    rw [← TxTables.spendAll_add]
    intro set member stored present same
    exact unspent _ (outpoint_treeSpendings member) (same ▸ outpoint_treeRows present)

/-- Both goroutines of `StoreBlock` end with the block done in any interleaving, without
failures. -/
theorem ChainDB.storeTrees_done {env : StoreEnv} (clean : env.TreesClean) {hcd : Hcd}
    {msgBlock : MsgBlock} (valid : ValidBlock hcd msgBlock) (updateAddressesSpendingInfo : Bool)
    (pgb : ChainDB) :
    ∃ regIds stkIds reg stk final, reg.txDbIDs = regIds.txs ∧ stk.txDbIDs = stkIds.txs ∧
      pgb.storeTrees hcd env msgBlock updateAddressesSpendingInfo = (.ok reg, .ok stk, final) ∧
      BlockDone pgb.db.tx pgb.dupChecks updateAddressesSpendingInfo
        (extractBlockTransactions hcd msgBlock .regular)
        (extractBlockTransactions hcd msgBlock .stake) regIds stkIds final := by
  have cleanLeft : (Conn.fresh env.regularFaults).Clean := clean.regular
  have cleanRight : (Conn.fresh env.stakeFaults).Clean := clean.stake
  have nothing : HandedApart pgb.db.tx [] [] := by
    intro table
    exact ⟨List.nodup_nil, nofun⟩
  obtain ⟨_, _, doneLeft, doneRight, _, _, ran, ⟨regIds, left, reg, rfl, isReg⟩,
      ⟨stkIds, right, stk, rfl, isStk⟩, apart⟩ :=
    (trees_compatible valid.apart).interleave env.schedule
      (storeTxns_meets cleanLeft (valid.distinct_tree .regular))
      (storeTxns_meets cleanRight (valid.distinct_tree .stake)) nofun nofun nothing
  exact ⟨regIds, stkIds, reg, stk, _, isReg, isStk, ran,
    blockDone_after left right valid.apart.leftSpends apart⟩

end Block

end Hcexplorer.Hcpg

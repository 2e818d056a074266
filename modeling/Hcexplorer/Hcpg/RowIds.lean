import Hcexplorer.Hcpg.StoredRows
import Hcexplorer.Library.Renaming

/-!
# Tables up to their row ids

Which ids the sequences give out depends on the interleaving and on what was rolled
back. Two databases are the same up to row ids when a permutation of the ids of each
table, applied to the ids of its rows and to every column that refers to them, turns the
tables of the one into those of the other.

All that storing a tree does is natural in the row ids: over renamed tables and under renamed
ids it inserts the renamed rows and makes the renamed updates. So when two databases are the
same up to row ids, and refer to no id that was not given out yet, they are after a block
was stored in both: the permutation is changed where new ids were given out.
-/

namespace Hcexplorer.Hcpg

section Renamed

/-- A permutation of the row ids of each table. -/
abbrev RowRenaming := Table → Equiv.Perm Nat

variable (perm : RowRenaming)

/-- The row of a transaction refers to its inputs and outputs. -/
def Tx.renamed (row : Tx) : Tx :=
  { row with
    vinDbIds := row.vinDbIds.map (perm .vins)
    voutDbIds := row.voutDbIds.map (perm .vouts) }

/-- The spending columns refer to a transaction and to one of its inputs. -/
def Spending.renamed (spending : Spending) : Spending :=
  { spending with
    spendingTxDbID := perm .transactions spending.spendingTxDbID
    vinDbID := perm .vins spending.vinDbID }

/-- An address row refers to the funding transaction, its output, and its spending. -/
def AddressRow.renamed (row : AddressRow) : AddressRow :=
  { row with
    fundingTxDbID := perm .transactions row.fundingTxDbID
    voutDbID := perm .vouts row.voutDbID
    spending := row.spending.map (Spending.renamed perm) }

/-- The tables under renamed row ids, each table by its own permutation, with the references
renamed alike. -/
def TxTables.renamed (tables : TxTables) : TxTables where
  vins := tables.vins.map fun stored => ⟨perm .vins stored.id, stored.row⟩
  vouts := tables.vouts.map fun stored => ⟨perm .vouts stored.id, stored.row⟩
  transactions := tables.transactions.map fun stored =>
    ⟨perm .transactions stored.id, stored.row.renamed perm⟩
  addresses := tables.addresses.map fun stored =>
    ⟨perm .addresses stored.id, stored.row.renamed perm⟩

/-- The tables are the same up to row ids. -/
def SameUpToIds (tables others : TxTables) : Prop :=
  ∃ perm : RowRenaming, tables.renamed perm = others

/-- An INSERT with renamed references to rows of other tables. -/
def Insert.renamed : Insert → Insert
  | .tx checked row => .tx checked (row.renamed perm)
  | .address row => .address (row.renamed perm)
  | .vout row => .vout row
  | .vin row => .vin row

/-- An UPDATE with renamed references to rows of other tables. -/
def SetSpending.renamed (set : SetSpending) : SetSpending :=
  { set with spending := set.spending.renamed perm }

/-- The hashes of a transaction's row have no row ids in them. -/
@[simp] theorem Tx.hashes_renamed (row : Tx) : (row.renamed perm).hashes = row.hashes := rfl

/-- The unique index over transactions has no row ids in it. -/
@[simp] theorem TxTables.txHashes_renamed (tables : TxTables) :
    (tables.renamed perm).txHashes = tables.txHashes := by
  simp [TxTables.txHashes, TxTables.renamed, Function.comp_def]

/-- Tables without rows are renamed to such tables. -/
@[simp] theorem TxTables.renamed_zero : (0 : TxTables).renamed perm = 0 := rfl

/-- The rows of two tables together are renamed as the rows of each. -/
@[simp] theorem TxTables.renamed_add (left right : TxTables) :
    (left + right).renamed perm = left.renamed perm + right.renamed perm := by
  ext1 <;> simp [TxTables.renamed]

/-- The row of a renamed statement is the renamed row of the statement. -/
theorem Insert.rows_renamed (insert : Insert) (id : Nat) :
    (insert.rows id).renamed perm =
      (insert.renamed perm).rows (perm insert.table id) := by
  cases insert <;> rfl

/-- The rows of statements on one table are renamed as the statements and their ids are. -/
theorem insertedRows_renamed {α : Type} (statement : α → Insert) {table : Table}
    (inTable : ∀ item, (statement item).table = table) (items : List α) (ids : List Nat) :
    (insertedRows (items.map statement) ids).renamed perm =
      insertedRows (items.map fun item => (statement item).renamed perm) (ids.map (perm table)) := by
  induction items generalizing ids with
  | nil => rfl
  | cons item rest inductionHypothesis =>
    cases ids with
    | nil => rfl
    | cons id ids =>
      rw [List.map_cons, insertedRows_cons, TxTables.renamed_add, Insert.rows_renamed, inTable,
        inductionHypothesis, List.map_cons, List.map_cons, insertedRows_cons]

/-- An update of a row is renamed with the row. -/
theorem AddressRow.spend_renamed (set : SetSpending) (row : AddressRow) :
    (row.spend set).renamed perm = (row.renamed perm).spend (set.renamed perm) := by
  by_cases here : row.outpoint = set.outpoint
  · have hereToo : (row.renamed perm).outpoint = (set.renamed perm).outpoint := here
    rw [AddressRow.spend, if_pos here, AddressRow.spend, if_pos hereToo]
    rfl
  · have elsewhere : (row.renamed perm).outpoint ≠ (set.renamed perm).outpoint := here
    rw [AddressRow.spend, if_neg here, AddressRow.spend, if_neg elsewhere]

/-- An update of the table is renamed with the table. -/
theorem TxTables.spend_renamed (set : SetSpending) (tables : TxTables) :
    (tables.spend set).renamed perm = (tables.renamed perm).spend (set.renamed perm) := by
  simp only [TxTables.spend, TxTables.renamed, Multiset.map_map, Function.comp_def,
    AddressRow.spend_renamed]

/-- Any number of updates, in order, are renamed with the tables. -/
theorem TxTables.spendAll_renamed (sets : List SetSpending) (tables : TxTables) :
    (tables.spendAll sets).renamed perm =
      (tables.renamed perm).spendAll (sets.map (SetSpending.renamed perm)) := by
  induction sets generalizing tables with
  | nil => rfl
  | cons set rest inductionHypothesis =>
    rw [TxTables.spendAll_cons, inductionHypothesis, TxTables.spend_renamed, List.map_cons,
      TxTables.spendAll_cons]

end Renamed

section Natural

variable (perm : RowRenaming)

/-- The ids of the outputs and of the inputs of a transaction. -/
def renamedOuts (ids : List Nat × List Nat) : List Nat × List Nat :=
  (ids.1.map (perm .vouts), ids.2.map (perm .vins))

/-- The ids that a tree is handed, renamed table by table. -/
def TreeIds.renamed (ids : TreeIds) : TreeIds where
  outs := ids.outs.map (renamedOuts perm)
  txs := ids.txs.map (perm .transactions)
  addresses := ids.addresses.map (perm .addresses)

variable {start : TxTables} {checked : Bool} {ids : TreeIds} {txs : List ExtractedTx}

/-- The transaction rows under renamed ids of inputs and outputs. -/
theorem txs_renamed (outs : List (List Nat × List Nat)) (txs : List ExtractedTx) :
    (keyedTxs (outs.map (renamedOuts perm)) txs).map KeyedTx.tx =
      ((keyedTxs outs txs).map KeyedTx.tx).map (Tx.renamed perm) := by
  simp only [keyedTxs, List.zip_map_left, List.map_map]
  rfl

/-- The same rows conflict under renamed ids, so the same rows are kept. -/
theorem keptTxs_renamed (outs : List (List Nat × List Nat)) (txs : List ExtractedTx) :
    keptTxs (start.renamed perm) checked (outs.map (renamedOuts perm)) txs =
      (keptTxs start checked outs txs).map (Tx.renamed perm) := by
  have conflicts : ∀ row : Tx, (Insert.tx checked (row.renamed perm)).conflicts (start.renamed perm) ↔
      (Insert.tx checked row).conflicts start := by
    intro row
    simp only [Insert.conflicts, TxTables.txHashes_renamed, Tx.hashes_renamed]
  rw [keptTxs, txs_renamed, kept, List.filter_map, keptTxs, kept]
  congr 1
  apply List.filter_congr
  intro row _
  simp only [Function.comp_apply, conflicts]

/-- The rows of outputs and inputs under renamed ids. -/
theorem outsRows_renamed (outs : List (List Nat × List Nat)) (txs : List ExtractedTx) :
    (outsRows outs txs).renamed perm = outsRows (outs.map (renamedOuts perm)) txs := by
  induction outs generalizing txs with
  | nil => rfl
  | cons ids outs inductionHypothesis =>
    cases txs with
    | nil => rfl
    | cons dbtx rest =>
      rw [outsRows, TxTables.renamed_add, TxTables.renamed_add,
        insertedRows_renamed perm Insert.vout fun _ => rfl,
        insertedRows_renamed perm Insert.vin fun _ => rfl, inductionHypothesis, List.map_cons,
        outsRows]
      rfl

/-- The address rows of a transaction under renamed ids, with a funding transaction. -/
theorem addressRows_renamed (txDbID : Nat) (ids : List Nat × List Nat) (dbtx : ExtractedTx) :
    ((keyedTx (renamedOuts perm ids) dbtx).addressRows.map fun dba =>
        { dba with fundingTxDbID := perm .transactions txDbID }) =
      ((keyedTx ids dbtx).addressRows.map fun dba =>
        { dba with fundingTxDbID := txDbID }).map (AddressRow.renamed perm) := by
  simp only [keyedTx, renamedOuts, List.zip_map_right, List.flatMap_map, List.map_flatMap,
    addressRowsOf, List.map_map]
  rfl

/-- The address rows of a tree under renamed ids. -/
theorem fundedRows_renamed (txDbIDs : List Nat) (outs : List (List Nat × List Nat))
    (txs : List ExtractedTx) :
    fundedRows (txDbIDs.map (perm .transactions)) (keyedTxs (outs.map (renamedOuts perm)) txs) =
      (fundedRows txDbIDs (keyedTxs outs txs)).map (AddressRow.renamed perm) := by
  simp only [fundedRows, keyedTxs, List.zip_map_left, List.zip_map_right, List.flatMap_map,
    List.map_flatMap]
  apply List.flatMap_congr
  rintro ⟨txDbID, ids, dbtx⟩ -
  exact addressRows_renamed perm txDbID ids dbtx

/-- The updates of a transaction under renamed ids are the renamed updates. -/
theorem spendingsOf_renamed (txDbID : Nat) (ids : List Nat × List Nat) (dbtx : ExtractedTx) :
    spendingsOf (perm .transactions txDbID) (keyedTx (renamedOuts perm ids) dbtx) =
      (spendingsOf txDbID (keyedTx ids dbtx)).map (SetSpending.renamed perm) := by
  simp only [spendingsOf, keyedTx, renamedOuts, List.zip_map_right, List.filterMap_map,
    List.map_filterMap]
  apply List.filterMap_congr
  rintro ⟨vin, vinDbID⟩ -
  show (if vin.prevTxHash = 0 then none else some _) =
    Option.map _ (if vin.prevTxHash = 0 then none else some _)
  split <;> rfl

/-- The updates of a tree under renamed ids are the renamed updates. -/
theorem spendings_renamed (txDbIDs : List Nat) (outs : List (List Nat × List Nat))
    (txs : List ExtractedTx) :
    spendings (txDbIDs.map (perm .transactions)) (keyedTxs (outs.map (renamedOuts perm)) txs) =
      (spendings txDbIDs (keyedTxs outs txs)).map (SetSpending.renamed perm) := by
  simp only [spendings, keyedTxs, List.zip_map_left, List.zip_map_right, List.flatMap_map,
    List.map_flatMap]
  apply List.flatMap_congr
  rintro ⟨txDbID, ids, dbtx⟩ -
  exact spendingsOf_renamed perm txDbID ids dbtx

/-- The rows of a tree under renamed ids are the renamed rows. -/
theorem treeRows_renamed (ids : TreeIds) (txs : List ExtractedTx) :
    (treeRows start checked ids txs).renamed perm =
      treeRows (start.renamed perm) checked (ids.renamed perm) txs := by
  rw [treeRows, TxTables.renamed_add, TxTables.renamed_add, outsRows_renamed,
    insertedRows_renamed perm (Insert.tx checked) fun _ => rfl,
    insertedRows_renamed perm Insert.address fun _ => rfl, treeRows, TreeIds.renamed,
    keptTxs_renamed, fundedRows_renamed, List.map_map, List.map_map]
  rfl

/-- A block that is stored under renamed ids over renamed tables leaves the renamed result. -/
theorem blockTables_renamed (updateAddressesSpendingInfo : Bool) (reg stk : List ExtractedTx)
    (regIds stkIds : TreeIds) :
    (blockTables start checked updateAddressesSpendingInfo reg stk regIds stkIds).renamed perm =
      blockTables (start.renamed perm) checked updateAddressesSpendingInfo reg stk
        (regIds.renamed perm) (stkIds.renamed perm) := by
  have updates : ∀ (ids : TreeIds) (txs : List ExtractedTx),
      (treeSpendings updateAddressesSpendingInfo ids txs).map (SetSpending.renamed perm) =
        treeSpendings updateAddressesSpendingInfo (ids.renamed perm) txs := by
    intro ids txs
    rw [treeSpendings, treeSpendings]
    split
    · exact (spendings_renamed perm _ _ _).symm
    · rfl
  rw [blockTables, TxTables.spendAll_renamed, TxTables.renamed_add, TxTables.renamed_add,
    treeRows_renamed, treeRows_renamed, List.map_append, updates, updates, blockTables]

end Natural

section Within

/-- Which row ids are meant, for each table, where rows refer to ids. -/
abbrev GivenIds := Table → Nat → Prop

/-- The row of a transaction refers only to inputs and outputs with meant ids. -/
def Tx.Within (given : GivenIds) (row : Tx) : Prop :=
  (∀ id ∈ row.vinDbIds, given .vins id) ∧ ∀ id ∈ row.voutDbIds, given .vouts id

/-- The spending columns refer only to a transaction and an input with meant ids. -/
def Spending.Within (given : GivenIds) (spending : Spending) : Prop :=
  given .transactions spending.spendingTxDbID ∧ given .vins spending.vinDbID

/-- An address row refers only to transactions, outputs and inputs with meant ids. -/
structure AddressRow.Within (given : GivenIds) (row : AddressRow) : Prop where
  funding : given .transactions row.fundingTxDbID
  vout : given .vouts row.voutDbID
  spending : ∀ spending, row.spending = some spending → spending.Within given

/-- The tables have such ids only, and refer to no others. -/
structure TxTables.Within (given : GivenIds) (tables : TxTables) : Prop where
  vins : ∀ stored ∈ tables.vins, given .vins stored.id
  vouts : ∀ stored ∈ tables.vouts, given .vouts stored.id
  transactions : ∀ stored ∈ tables.transactions,
    given .transactions stored.id ∧ stored.row.Within given
  addresses : ∀ stored ∈ tables.addresses, given .addresses stored.id ∧ stored.row.Within given

/-- The tables know the ids that the sequences gave out, and no others. -/
def TxDb.Closed (db : TxDb) : Prop :=
  db.tables.Within fun table id => id < db.sequences table

/-- The statement refers only to rows with meant ids. -/
def Insert.Within (given : GivenIds) : Insert → Prop
  | .tx _ row => row.Within given
  | .address row => row.Within given
  | .vout _ | .vin _ => True

variable {given more : GivenIds} {perm : RowRenaming}

section Agreement

variable {other : RowRenaming} (agree : ∀ table id, given table id → perm table id = other table id)
include agree

/-- Ids on which two permutations agree are moved alike. -/
theorem map_agree {table : Table} {ids : List Nat} (within : ∀ id ∈ ids, given table id) :
    ids.map (perm table) = ids.map (other table) :=
  List.map_congr_left fun id member => agree table id (within id member)

/-- Two permutations that agree on the ids of the tables rename the tables alike. -/
theorem TxTables.Within.renamed_congr {tables : TxTables} (within : tables.Within given) :
    tables.renamed perm = tables.renamed other := by
  have spending : ∀ spending : Spending, spending.Within given →
      spending.renamed perm = spending.renamed other := by
    rintro spending ⟨transaction, vin⟩
    rw [Spending.renamed, agree _ _ transaction, agree _ _ vin]
    rfl
  have address : ∀ row : AddressRow, row.Within given → row.renamed perm = row.renamed other := by
    rintro row ⟨funding, vout, spent⟩
    rw [AddressRow.renamed, agree _ _ funding, agree _ _ vout,
      Option.map_congr fun current isSpent => spending current (spent current isSpent)]
    rfl
  have transaction : ∀ row : Tx, row.Within given → row.renamed perm = row.renamed other := by
    rintro row ⟨vins, vouts⟩
    rw [Tx.renamed, map_agree agree vins, map_agree agree vouts]
    rfl
  ext1 <;> refine Multiset.map_congr rfl fun stored member => ?_
  · rw [agree _ _ (within.vins stored member)]
  · rw [agree _ _ (within.vouts stored member)]
  · obtain ⟨id, row⟩ := within.transactions stored member
    rw [agree _ _ id, transaction _ row]
  · obtain ⟨id, row⟩ := within.addresses stored member
    rw [agree _ _ id, address _ row]

end Agreement

/-- A permutation that moves nothing renames nothing. -/
theorem TxTables.renamed_refl (tables : TxTables) :
    tables.renamed (fun _ => Equiv.refl Nat) = tables := by
  have address : ∀ row : AddressRow, row.renamed (fun _ => Equiv.refl Nat) = row := by
    intro row
    cases isSpent : row.spending with
    | none =>
      rw [AddressRow.renamed, isSpent, Option.map_none, ← isSpent]
      rfl
    | some current =>
      have kept : current.renamed (fun _ => Equiv.refl Nat) = current := rfl
      rw [AddressRow.renamed, isSpent, Option.map_some, kept, ← isSpent]
      rfl
  have transaction : ∀ row : Tx, row.renamed (fun _ => Equiv.refl Nat) = row := by
    intro row
    simp [Tx.renamed]
  ext1
  · exact Multiset.map_id' _
  · exact Multiset.map_id' _
  · simp [TxTables.renamed, transaction]
  · simp [TxTables.renamed, address]

namespace TxTables.Within

variable {tables : TxTables}

/-- Tables without rows refer to meant ids only. -/
theorem zero : (0 : TxTables).Within given := ⟨nofun, nofun, nofun, nofun⟩

/-- Rows that refer to meant ids can be added to such rows. -/
theorem add {left right : TxTables} (first : left.Within given) (second : right.Within given) :
    (left + right).Within given where
  vins stored member :=
    (Multiset.mem_add.mp member).elim (first.vins stored) (second.vins stored)
  vouts stored member :=
    (Multiset.mem_add.mp member).elim (first.vouts stored) (second.vouts stored)
  transactions stored member :=
    (Multiset.mem_add.mp member).elim (first.transactions stored) (second.transactions stored)
  addresses stored member :=
    (Multiset.mem_add.mp member).elim (first.addresses stored) (second.addresses stored)

/-- More ids may be meant, and the tables still refer to meant ids only. -/
theorem mono (within : tables.Within given) (wider : ∀ table id, given table id → more table id) :
    tables.Within more where
  vins stored member := wider _ _ (within.vins stored member)
  vouts stored member := wider _ _ (within.vouts stored member)
  transactions stored member := by
    obtain ⟨id, vins, vouts⟩ := within.transactions stored member
    exact ⟨wider _ _ id, fun each present => wider _ _ (vins each present),
      fun each present => wider _ _ (vouts each present)⟩
  addresses stored member := by
    obtain ⟨id, funding, vout, spending⟩ := within.addresses stored member
    refine ⟨wider _ _ id, wider _ _ funding, wider _ _ vout, fun current isSpent => ?_⟩
    obtain ⟨transaction, vin⟩ := spending current isSpent
    exact ⟨wider _ _ transaction, wider _ _ vin⟩

/-- Ids may be meant for two reasons at once. -/
theorem and (within : tables.Within given) (second : tables.Within more) :
    tables.Within fun table id => given table id ∧ more table id where
  vins stored member := ⟨within.vins stored member, second.vins stored member⟩
  vouts stored member := ⟨within.vouts stored member, second.vouts stored member⟩
  transactions stored member := by
    obtain ⟨id, vins, vouts⟩ := within.transactions stored member
    obtain ⟨idToo, vinsToo, voutsToo⟩ := second.transactions stored member
    exact ⟨⟨id, idToo⟩, fun each present => ⟨vins each present, vinsToo each present⟩,
      fun each present => ⟨vouts each present, voutsToo each present⟩⟩
  addresses stored member := by
    obtain ⟨id, funding, vout, spending⟩ := within.addresses stored member
    obtain ⟨idToo, fundingToo, voutToo, spendingToo⟩ := second.addresses stored member
    refine ⟨⟨id, idToo⟩, ⟨funding, fundingToo⟩, ⟨vout, voutToo⟩, fun current isSpent => ?_⟩
    obtain ⟨transaction, vin⟩ := spending current isSpent
    obtain ⟨transactionToo, vinToo⟩ := spendingToo current isSpent
    exact ⟨⟨transaction, transactionToo⟩, vin, vinToo⟩

/-- The ids of renamed tables are the images of those of the tables. -/
theorem of_renamed (within : (tables.renamed perm).Within given) :
    tables.Within fun table id => given table (perm table id) where
  vins stored member := within.vins _ (Multiset.mem_map_of_mem _ member)
  vouts stored member := within.vouts _ (Multiset.mem_map_of_mem _ member)
  transactions stored member := by
    obtain ⟨id, vins, vouts⟩ := within.transactions _ (Multiset.mem_map_of_mem _ member)
    exact ⟨id, fun each present => vins _ (List.mem_map_of_mem present),
      fun each present => vouts _ (List.mem_map_of_mem present)⟩
  addresses stored member := by
    obtain ⟨id, funding, vout, spending⟩ :=
      within.addresses _ (Multiset.mem_map_of_mem _ member)
    refine ⟨id, funding, vout, fun current isSpent => ?_⟩
    exact spending (current.renamed perm) (congrArg (Option.map (Spending.renamed perm)) isSpent)

/-- Updates that refer to meant ids keep the tables so. -/
theorem spendAll {sets : List SetSpending} (within : tables.Within given)
    (refers : ∀ set ∈ sets, set.spending.Within given) : (tables.spendAll sets).Within given := by
  rw [TxTables.spendAll_eq]
  refine ⟨within.vins, within.vouts, within.transactions, fun stored member => ?_⟩
  obtain ⟨base, isBase, rfl⟩ := Multiset.mem_map.mp member
  obtain ⟨id, row⟩ := within.addresses base isBase
  refine ⟨id, ?_⟩
  rcases base.row.spendAll_cases sets with ⟨set, listed, -, ends⟩ | ⟨-, ends⟩
  · rw [ends]
    refine ⟨row.funding, row.vout, ?_⟩
    rintro _ ⟨⟩
    exact refers set listed
  · rw [ends]
    exact row

/-- The rows of statements on one table that refer to such ids. -/
theorem insertedRows {α : Type} {statement : α → Insert} {table : Table} {items : List α}
    {ids : List Nat} (inTable : ∀ item, (statement item).table = table)
    (refers : ∀ item ∈ items, (statement item).Within given) (own : ∀ id ∈ ids, given table id) :
    (insertedRows (items.map statement) ids).Within given := by
  have one : ∀ (insert : Insert) (id : Nat), insert.Within given → given insert.table id →
      (insert.rows id).Within given := by
    intro insert id refers own
    cases insert with
    | vout row =>
      refine ⟨nofun, fun stored member => ?_, nofun, nofun⟩
      obtain rfl := Multiset.mem_singleton.mp member
      exact own
    | vin row =>
      refine ⟨fun stored member => ?_, nofun, nofun, nofun⟩
      obtain rfl := Multiset.mem_singleton.mp member
      exact own
    | tx checked row =>
      refine ⟨nofun, nofun, fun stored member => ?_, nofun⟩
      obtain rfl := Multiset.mem_singleton.mp member
      exact ⟨own, refers⟩
    | address row =>
      refine ⟨nofun, nofun, nofun, fun stored member => ?_⟩
      obtain rfl := Multiset.mem_singleton.mp member
      exact ⟨own, refers⟩
  induction items generalizing ids with
  | nil => exact zero
  | cons item rest inductionHypothesis =>
    cases ids with
    | nil => simpa using zero
    | cons id ids =>
      rw [List.map_cons, insertedRows_cons]
      refine (one _ _ (refers item List.mem_cons_self) ?_).add (inductionHypothesis ?_ ?_)
      · rw [inTable]
        exact own id List.mem_cons_self
      · exact fun later member => refers later (List.mem_cons_of_mem _ member)
      · exact fun later member => own later (List.mem_cons_of_mem _ member)

end TxTables.Within

section Trees

variable {start : TxTables} {checked : Bool} {ids : TreeIds} {txs : List ExtractedTx}

/-- The rows of outputs and inputs under such ids. -/
theorem within_outsRows {outs : List (List Nat × List Nat)}
    (own : ∀ each ∈ outs, (∀ id ∈ each.1, given .vouts id) ∧ ∀ id ∈ each.2, given .vins id)
    (txs : List ExtractedTx) : (outsRows outs txs).Within given := by
  induction outs generalizing txs with
  | nil => exact TxTables.Within.zero
  | cons ids outs inductionHypothesis =>
    cases txs with
    | nil => exact TxTables.Within.zero
    | cons dbtx rest =>
      obtain ⟨vouts, vins⟩ := own ids List.mem_cons_self
      have ofVouts : (insertedRows (dbtx.vouts.map Insert.vout) ids.1).Within given :=
        TxTables.Within.insertedRows (fun _ => rfl) (fun _ _ => trivial) vouts
      have ofVins : (insertedRows (dbtx.vins.map Insert.vin) ids.2).Within given :=
        TxTables.Within.insertedRows (fun _ => rfl) (fun _ _ => trivial) vins
      exact (ofVouts.add ofVins).add
        (inductionHypothesis (fun each member => own each (List.mem_cons_of_mem _ member)) rest)

/-- The rows of a tree refer to the ids that the tree was handed. -/
theorem within_treeRows (own : ∀ table, ∀ id ∈ ids.of table, given table id) :
    (treeRows start checked ids txs).Within given := by
  have outs : ∀ each ∈ ids.outs, (∀ id ∈ each.1, given .vouts id) ∧ ∀ id ∈ each.2, given .vins id :=
    fun each member => ⟨fun id present => own .vouts id (List.mem_flatMap.mpr ⟨each, member, present⟩),
      fun id present => own .vins id (List.mem_flatMap.mpr ⟨each, member, present⟩)⟩
  refine ((within_outsRows outs txs).add ?_).add ?_
  · refine TxTables.Within.insertedRows (fun _ => rfl) (fun row isKept => ?_) (own .transactions)
    obtain ⟨each, isKeyed, rfl⟩ := List.mem_map.mp (List.mem_of_mem_filter isKept)
    obtain ⟨handed, listed, dbtx, -, rfl⟩ := mem_keyedTxs isKeyed
    exact (outs handed listed).symm
  · refine TxTables.Within.insertedRows (fun _ => rfl) (fun row funded => ?_) (own .addresses)
    obtain ⟨⟨txDbID, each⟩, paired, isFunded⟩ := List.mem_flatMap.mp funded
    obtain ⟨dba, paid, rfl⟩ := List.mem_map.mp isFunded
    obtain ⟨isTx, isKeyed⟩ := List.of_mem_zip paired
    obtain ⟨handed, listed, dbtx, -, rfl⟩ := mem_keyedTxs isKeyed
    obtain ⟨⟨vout, voutDbID⟩, output, made⟩ := List.mem_flatMap.mp paid
    obtain ⟨addr, -, rfl⟩ := List.mem_map.mp made
    exact ⟨own .transactions txDbID isTx, (outs handed listed).1 voutDbID (List.of_mem_zip output).2,
      nofun⟩

/-- The updates of a tree refer to meant ids, if the ids of the tree are meant. -/
theorem within_treeSpendings (own : ∀ table, ∀ id ∈ ids.of table, given table id)
    {updateAddressesSpendingInfo : Bool} :
    ∀ set ∈ treeSpendings updateAddressesSpendingInfo ids txs, set.spending.Within given := by
  intro set member
  rw [treeSpendings] at member
  split at member
  · obtain ⟨⟨txDbID, each⟩, paired, ofTx⟩ := List.mem_flatMap.mp member
    obtain ⟨isTx, isKeyed⟩ := List.of_mem_zip paired
    obtain ⟨handed, listed, dbtx, -, rfl⟩ := mem_keyedTxs isKeyed
    obtain ⟨vin, vinDbID, input, -, rfl⟩ := mem_spendingsOf.mp ofTx
    exact ⟨own .transactions txDbID isTx,
      own .vins vinDbID (List.mem_flatMap.mpr ⟨handed, listed, (List.of_mem_zip input).2⟩)⟩
  · cases member

/-- The tables as they are created refer to no id. -/
theorem TxDb.Closed.created : ChainTables.created.tx.Closed := TxTables.Within.zero

/-- A stored block leaves closed tables closed: its rows refer to rows that are there afterwards. -/
theorem TxDb.Closed.store {tx after : TxDb} {updateAddressesSpendingInfo : Bool}
    {reg stk : List ExtractedTx} {regIds stkIds : TreeIds} (closed : tx.Closed)
    (done : BlockDone tx checked updateAddressesSpendingInfo reg stk regIds stkIds after) :
    after.Closed := by
  have own : ∀ table, ∀ id ∈ regIds.of table ++ stkIds.of table, id < after.sequences table :=
    fun table id member => ((done.fresh table).bounds id member).2
  have regular : ∀ table, ∀ id ∈ regIds.of table, id < after.sequences table :=
    fun table id member => own table id (List.mem_append_left _ member)
  have stake : ∀ table, ∀ id ∈ stkIds.of table, id < after.sequences table :=
    fun table id member => own table id (List.mem_append_right _ member)
  have before := closed.mono fun table id isGiven => Nat.lt_of_lt_of_le isGiven (done.sequences table)
  rw [TxDb.Closed, done.tables, blockTables]
  refine ((before.add (within_treeRows regular)).add (within_treeRows stake)).spendAll ?_
  exact List.forall_mem_append.mpr ⟨within_treeSpendings regular, within_treeSpendings stake⟩

end Trees

end Within

section Runs

variable {start : TxTables} {checked : Bool} {txs : List ExtractedTx}

/-- The transactions that are not in the table under the hash of their block, all of them
when duplicates are not looked for. -/
def newTxs (start : TxTables) (checked : Bool) (txs : List ExtractedTx) : List ExtractedTx :=
  txs.filter fun dbtx => ¬ (checked = true ∧ dbtx.tx.hashes ∈ start.txHashes)

/-- The kept transactions are as many as the rows that are inserted. -/
theorem length_keptTxs {outs : List (List Nat × List Nat)} (fit : FitOuts outs txs) :
    (keptTxs start checked outs txs).length = (newTxs start checked txs).length := by
  let isNew (hashes : Hash × Hash) : Bool := ¬ (checked = true ∧ hashes ∈ start.txHashes)
  calc (keptTxs start checked outs txs).length
      = ((keyedTxs outs txs).map KeyedTx.tx).countP (isNew ∘ Tx.hashes) :=
        List.countP_eq_length_filter.symm
    _ = (txs.map fun dbtx => dbtx.tx.hashes).countP isNew := by
        rw [← List.countP_map, hashes_keyedTxs fit]
    _ = txs.countP (isNew ∘ fun dbtx => dbtx.tx.hashes) := List.countP_map
    _ = (newTxs start checked txs).length := List.countP_eq_length_filter

/-- The address rows of a tree pay the outputs of its first transactions, as many as were
inserted. -/
theorem payments_fundedRows {outs : List (List Nat × List Nat)} (fit : FitOuts outs txs)
    (txDbIDs : List Nat) : (fundedRows txDbIDs (keyedTxs outs txs)).map AddressRow.payment =
      paymentsOf ((txs.take txDbIDs.length).flatMap ExtractedTx.vouts) := by
  have first : (keyedTxs outs txs).take txDbIDs.length =
      keyedTxs (outs.take txDbIDs.length) (txs.take txDbIDs.length) := by
    rw [keyedTxs, ← List.map_take, List.zip, List.take_zipWith]
    rfl
  rw [map_fundedRows AddressRow.payment fun _ _ => rfl, first,
    payments_keyedTxs (List.forall₂_take _ fit)]

/-- How many ids a tree is handed does not depend on which. -/
theorem TreeIds.Fit.length_eq {ids others : TreeIds} (fit : ids.Fit start checked txs)
    (fitToo : others.Fit start checked txs) (table : Table) :
    (ids.of table).length = (others.of table).length := by
  have outs : ∀ {outs : List (List Nat × List Nat)} {txs : List ExtractedTx}, FitOuts outs txs →
      outs.map (fun each => (each.1.length, each.2.length)) =
        txs.map fun dbtx => (dbtx.vouts.length, dbtx.vins.length) := by
    intro outs txs fit
    induction fit with
    | nil => rfl
    | cons lengths _ inductionHypothesis =>
      rw [List.map_cons, List.map_cons, inductionHypothesis, lengths.1, lengths.2]
  have same := (outs fit.outs).trans (outs fitToo.outs).symm
  have transactions : ids.txs.length = others.txs.length := by
    rw [fit.txs, fitToo.txs, length_keptTxs fit.outs, length_keptTxs fitToo.outs]
  cases table with
  | vouts =>
    have lengths := congrArg (fun each => (each.map Prod.fst).sum) same
    simpa [TreeIds.of, List.length_flatMap, List.map_map, Function.comp_def] using lengths
  | vins =>
    have lengths := congrArg (fun each => (each.map Prod.snd).sum) same
    simpa [TreeIds.of, List.length_flatMap, List.map_map, Function.comp_def] using lengths
  | transactions => exact transactions
  | addresses =>
    have paid := congrArg List.length (payments_fundedRows fit.outs ids.txs)
    have paidToo := congrArg List.length (payments_fundedRows fitToo.outs others.txs)
    rw [List.length_map] at paid paidToo
    show ids.addresses.length = others.addresses.length
    rw [fit.addresses, fitToo.addresses, paid, paidToo, transactions]

/-- The ids that a tree is handed are known from those of each table. -/
theorem TreeIds.Fit.renamed_eq {ids others : TreeIds} (fit : ids.Fit start checked txs)
    (fitToo : others.Fit start checked txs) {perm : RowRenaming}
    (moved : ∀ table, (ids.of table).map (perm table) = others.of table) :
    ids.renamed perm = others := by
  have outs : ∀ {outs outsToo : List (List Nat × List Nat)} {txs : List ExtractedTx},
      FitOuts outs txs → FitOuts outsToo txs →
      (outs.flatMap Prod.fst).map (perm .vouts) = outsToo.flatMap Prod.fst →
      (outs.flatMap Prod.snd).map (perm .vins) = outsToo.flatMap Prod.snd →
      outs.map (renamedOuts perm) = outsToo := by
    intro outs outsToo txs fit fitToo vouts vins
    induction fit generalizing outsToo with
    | nil =>
      cases fitToo
      rfl
    | cons lengths _ inductionHypothesis =>
      cases fitToo with
      | cons lengthsToo fitRest =>
        rw [List.flatMap_cons, List.flatMap_cons, List.map_append] at vouts vins
        obtain ⟨firstVouts, laterVouts⟩ := List.append_inj vouts (by
          rw [List.length_map, lengths.1, lengthsToo.1])
        obtain ⟨firstVins, laterVins⟩ := List.append_inj vins (by
          rw [List.length_map, lengths.2, lengthsToo.2])
        rw [List.map_cons, inductionHypothesis fitRest laterVouts laterVins]
        exact congrArg (· :: _) (Prod.ext firstVouts firstVins)
  obtain ⟨othersOuts, othersTxs, othersAddresses⟩ := others
  rw [TreeIds.renamed, TreeIds.mk.injEq]
  exact ⟨outs fit.outs fitToo.outs (moved .vouts) (moved .vins), moved .transactions, moved .addresses⟩

/-- Which transactions have rows is read off the unique index. -/
theorem TreeIds.Fit.congr {ids : TreeIds} {other : TxTables} (same : start.txHashes = other.txHashes)
    (fit : ids.Fit start checked txs) : ids.Fit other checked txs := by
  refine ⟨fit.outs, ?_, fit.addresses⟩
  rw [fit.txs, length_keptTxs fit.outs, length_keptTxs fit.outs, newTxs, newTxs, same]

/-- A block is stored in two databases that are the same up to row ids, and they stay the same.

The permutation of a table is changed to move the ids that the one run was handed to those
that the other was handed. No id of the tables before is among them. -/
theorem BlockDone.renamed {tx other final finalToo : TxDb} {perm : RowRenaming} (closed : tx.Closed)
    (closedToo : other.Closed) (same : tx.tables.renamed perm = other.tables)
    {updateAddressesSpendingInfo : Bool} {reg stk : List ExtractedTx}
    {regIds stkIds regIdsToo stkIdsToo : TreeIds}
    (done : BlockDone tx checked updateAddressesSpendingInfo reg stk regIds stkIds final)
    (doneToo : BlockDone other checked updateAddressesSpendingInfo reg stk regIdsToo stkIdsToo
      finalToo) :
    ∃ extended : RowRenaming, final.tables.renamed extended = finalToo.tables ∧
      regIds.renamed extended = regIdsToo ∧ stkIds.renamed extended = stkIdsToo ∧
      ∀ table id, id < tx.sequences table ∧ perm table id < other.sequences table →
        extended table id = perm table id := by
  have index : other.tables.txHashes = tx.tables.txHashes := by
    rw [← same, TxTables.txHashes_renamed]
  have regFit := doneToo.regFit.congr index
  have stkFit := doneToo.stkFit.congr index
  have regLength := done.regFit.length_eq regFit
  have stkLength := done.stkFit.length_eq stkFit
  have exists_extended : ∀ table, ∃ extended : Equiv.Perm Nat,
      (regIds.of table ++ stkIds.of table).map extended = regIdsToo.of table ++ stkIdsToo.of table ∧
        ∀ id, id < tx.sequences table ∧ perm table id < other.sequences table →
          extended id = perm table id := by
    intro table
    have fresh := done.fresh table
    have freshToo := doneToo.fresh table
    obtain ⟨extended, moved, kept⟩ :=
      Renaming.extend_perm (perm table) fresh.distinct freshToo.distinct (by
        rw [List.length_append, List.length_append, regLength, stkLength])
    refine ⟨extended, moved, ?_⟩
    rintro id ⟨isGiven, isGivenToo⟩
    apply kept id
    · exact fun member => absurd isGiven (Nat.not_lt.mpr (fresh.bounds id member).1)
    · exact fun member => absurd isGivenToo (Nat.not_lt.mpr (freshToo.bounds _ member).1)
  choose extended moved agree using exists_extended
  have trees : ∀ table, (regIds.of table).map (extended table) = regIdsToo.of table ∧
      (stkIds.of table).map (extended table) = stkIdsToo.of table := by
    intro table
    have both := moved table
    rw [List.map_append] at both
    exact List.append_inj both ((List.length_map _).trans (regLength table))
  have regular := done.regFit.renamed_eq regFit fun table => (trees table).1
  have stake := done.stkFit.renamed_eq stkFit fun table => (trees table).2
  refine ⟨extended, ?_, regular, stake, agree⟩
  rw [TxDb.Closed, ← same] at closedToo
  rw [done.tables, doneToo.tables, blockTables_renamed, regular, stake,
    (closed.and closedToo.of_renamed).renamed_congr agree, same]

/-- Two runs that store a block over the same tables end the same up to row ids. -/
theorem BlockDone.sameUpToIds {tx final other : TxDb} (closed : tx.Closed)
    {updateAddressesSpendingInfo : Bool} {reg stk : List ExtractedTx}
    {regIds stkIds regIdsToo stkIdsToo : TreeIds}
    (done : BlockDone tx checked updateAddressesSpendingInfo reg stk regIds stkIds final)
    (doneToo : BlockDone tx checked updateAddressesSpendingInfo reg stk regIdsToo stkIdsToo other) :
    SameUpToIds final.tables other.tables := by
  obtain ⟨perm, same, -⟩ := done.renamed closed closed (TxTables.renamed_refl _) doneToo
  exact ⟨perm, same⟩

end Runs

end Hcexplorer.Hcpg

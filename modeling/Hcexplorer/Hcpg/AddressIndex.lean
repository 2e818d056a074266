import Hcexplorer.Hcpg.StoredRows
import Hcexplorer.Sample
import Hcexplorer.Library.Runs

/-!
# The unique index on the outputs of the addresses table

`IndexAddressTable` builds two indexes on the addresses table. The one on the
address is not unique. The one on `vout_row_id` is: it can be built when no two rows
have the same output, and while it is there the server refuses a row whose output is
in the table.

`InsertVouts` makes a row for each address of an output, all with the row id of the
output. Ids are given out once, so rows of different outputs differ, in every
interleaving of the two goroutines and over any chain. The index is respected
exactly when no output pays to two addresses. A multisignature output does.
-/

namespace Hcexplorer.Hcpg

open Interactive Runs

section Index

/-- The column `vout_row_id` of the addresses table, as a multiset. -/
def TxTables.voutIDs (tables : TxTables) : Multiset Nat :=
  tables.addresses.map fun stored => stored.row.voutDbID

/-- An empty table has no ids of outputs. -/
@[simp] theorem TxTables.voutIDs_zero : (0 : TxTables).voutIDs = 0 := rfl

/-- The ids of outputs in the rows of two tables together are those of the one and those of the
other. -/
@[simp] theorem TxTables.voutIDs_add (left right : TxTables) :
    (left + right).voutIDs = left.voutIDs + right.voutIDs := by simp [TxTables.voutIDs]

/-- An update that sets spending columns leaves the outputs of the rows. -/
@[simp] theorem TxTables.voutIDs_spend (set : SetSpending) (tables : TxTables) :
    (tables.spend set).voutIDs = tables.voutIDs := by
  simp only [TxTables.voutIDs, TxTables.spend, Multiset.map_map, Function.comp_def]
  apply Multiset.map_congr rfl
  intro stored _
  rw [AddressRow.spend]
  split <;> rfl

/-- Any number of updates leave the outputs of the rows. -/
@[simp] theorem TxTables.voutIDs_spendAll (sets : List SetSpending) (tables : TxTables) :
    (tables.spendAll sets).voutIDs = tables.voutIDs := by
  induction sets generalizing tables with
  | nil => rfl
  | cons set rest inductionHypothesis =>
    rw [TxTables.spendAll_cons, inductionHypothesis, TxTables.voutIDs_spend]

/-- `IndexAddressTable`: its second index can be built when no output is there twice. -/
def TxTables.indexAddressTable (tables : TxTables) : Except String Unit :=
  if tables.voutIDs.Nodup then .ok ()
  else .error "pq: could not create unique index \"uix_addresses_vout_id\""

/-- The output of the row is in the index. -/
def Insert.duplicates (tables : TxTables) : Insert → Prop
  | .address row => row.voutDbID ∈ tables.voutIDs
  | .vout _ | .vin _ | .tx _ _ => False

instance (tables : TxTables) : (insert : Insert) → Decidable (insert.duplicates tables)
  | .address row => inferInstanceAs (Decidable (row.voutDbID ∈ tables.voutIDs))
  | .vout _ => inferInstanceAs (Decidable False)
  | .vin _ => inferInstanceAs (Decidable False)
  | .tx _ _ => inferInstanceAs (Decidable False)

/-- The reply of the server while the unique index is there: a second row for an output is
refused. -/
def indexedReply (request : Statement) (here : Conn) (db : TxDb) : Reply :=
  match request with
  | .insert insert =>
    if insert.duplicates (db.tables + here.pending) then
      .error "pq: duplicate key value violates unique constraint \"uix_addresses_vout_id\""
    else reply (.insert insert) here db
  | request => reply request here db

/-- The PostgreSQL server, with the unique index over the outputs of the addresses table or
without it. -/
def postgresWith (indexed : Bool) : Interactive.Server Statement Reply Conn Effect TxDb :=
  { postgres with reply := if indexed then indexedReply else reply }

/-- The index grows by the outputs of the committed rows. -/
theorem voutIDs_applyAll (done : List Effect) (db : TxDb) :
    (postgres.applyAll done db).tables.voutIDs = db.tables.voutIDs + (committed done).voutIDs := by
  induction done generalizing db with
  | nil => simp [committed]
  | cons effect rest inductionHypothesis =>
    rw [Server.applyAll_cons, inductionHypothesis, committed_cons]
    cases effect with
    | none | nextval | rows | spend => simp [postgres, Effect.apply, Effect.committed, add_assoc]

end Index

section Contract

/-- The contract of a program whose address rows have outputs that were inserted
before, each once, when the ids that it was handed differ. -/
def voutContract : Contract Statement Reply Conn Effect where
  allowed _ _ _ := True
  asks done here request := (handed .vouts done).Nodup →
    (∀ id ∈ here.pending.voutIDs, id ∈ handed .vouts done) ∧
      ∀ row, request = .insert (.address row) → row.voutDbID ∈ handed .vouts done ∧
        row.voutDbID ∉ here.pending.voutIDs + (committed done).voutIDs
  owns _ := True

/-- The statement inserts no address row, so the index has nothing to refuse. -/
def NoAddress (request : Statement) : Prop := ∀ row, request ≠ .insert (.address row)

/-- A program that inserts no address rows keeps the contract about the outputs. -/
theorem voutContract_of_only {α : Type} {program : Sql α} {done : List Effect} {here : Conn}
    (only : program.Only NoAddress) (nothing : here.pending.voutIDs = 0) :
    Meets postgres voutContract (fun _ _ after => after.pending.voutIDs = 0) program done here := by
  refine Meets.of_only ?_ ?_ only nothing
  · intro done here request noAddress nothing _
    refine ⟨?_, fun row isInsert => absurd isInsert (noAddress row)⟩
    rw [nothing]
    simp
  · intro here request reply noAddress nothing
    refine ⟨trivial, ?_⟩
    cases request with
    | begin | commit | rollback => rfl
    | prepare | setSpending => exact nothing
    | insert insert =>
      have without : ∀ id, (insert.rows id).voutIDs = 0 := by
        intro id
        cases insert with
        | vout | vin | tx => rfl
        | address row => exact absurd rfl (noAddress row)
      rcases reply with err | _ | id
      · exact nothing
      · exact nothing
      · show (here.pending + insert.rows id).voutIDs = 0
        rw [TxTables.voutIDs_add, nothing, without, add_zero]

/-- The statements around insertions, which begin and end database transactions, insert no
address row. -/
theorem noAddress_brackets : Brackets NoAddress := by
  constructor <;> simp [NoAddress]

/-- The rows to insert have outputs that were inserted before, each once, and none that
is in the table. -/
def Insertable (done : List Effect) (pending : TxTables) (items : List AddressRow) : Prop :=
  (handed .vouts done).Nodup → (∀ id ∈ pending.voutIDs, id ∈ handed .vouts done) ∧
    (items.map AddressRow.voutDbID).Nodup ∧ ∀ id ∈ items.map AddressRow.voutDbID,
      id ∈ handed .vouts done ∧ id ∉ pending.voutIDs + (committed done).voutIDs

/-- The pending rows have outputs that were inserted before. -/
def Owned (done : List Effect) (here : Conn) : Prop :=
  (handed .vouts done).Nodup → ∀ id ∈ here.pending.voutIDs, id ∈ handed .vouts done

/-- An address row takes no id of an output, and commits nothing. -/
theorem address_effect (row : AddressRow) (reply : Reply) (here : Conn) (done : List Effect) :
    let later := done ++ [postgres.effect (.insert (.address row)) reply here]
    handed .vouts later = handed .vouts done ∧ committed later = committed done := by
  cases reply with
  | error err => simp [postgres, effect, Effect.handed, Effect.committed]
  | ok id => cases id <;> simp [postgres, effect, Effect.handed, Effect.committed, Insert.table]

section Insertable

variable {item : AddressRow} {rest : List AddressRow} {done later : List Effect} {here : Conn}

/-- Where the next row was not inserted, the rest of the rows can still be inserted. -/
theorem Insertable.skipped {pending : TxTables} (insertable : Insertable done pending (item :: rest))
    (same : handed .vouts later = handed .vouts done ∧ committed later = committed done) :
    Insertable later pending rest := by
  intro distinct
  rw [same.1] at distinct ⊢
  rw [same.2]
  obtain ⟨own, different, free⟩ := insertable distinct
  rw [List.map_cons] at different free
  exact ⟨own, different.of_cons, fun id member => free id (List.mem_cons_of_mem _ member)⟩

/-- Where the next row was inserted, the rest of the rows can be inserted after it, since their
outputs are others. -/
theorem Insertable.inserted (insertable : Insertable done here.pending (item :: rest))
    (same : handed .vouts later = handed .vouts done ∧ committed later = committed done) (id : Nat) :
    Insertable later (postgres.advance (.insert (.address item)) (.ok (some id)) here).pending rest := by
  have grown : (postgres.advance (.insert (.address item)) (.ok (some id)) here).pending.voutIDs =
      here.pending.voutIDs + {item.voutDbID} :=
    TxTables.voutIDs_add here.pending ((Insert.address item).rows id)
  intro distinct
  rw [same.1] at distinct ⊢
  rw [grown, same.2]
  obtain ⟨pending, different, free⟩ := insertable distinct
  rw [List.map_cons] at different free
  obtain ⟨absent, different⟩ := List.nodup_cons.mp different
  obtain ⟨own, unused⟩ := free item.voutDbID List.mem_cons_self
  refine ⟨?_, different, ?_⟩
  · intro other member
    rcases Multiset.mem_add.mp member with before | now
    · exact pending other before
    · exact Multiset.mem_singleton.mp now ▸ own
  · intro other member
    obtain ⟨mine, free⟩ := free other (List.mem_cons_of_mem _ member)
    refine ⟨mine, ?_⟩
    have apart : other ≠ item.voutDbID := fun same => absent (same ▸ member)
    simp only [Multiset.mem_add, Multiset.mem_singleton] at free ⊢
    tauto

end Insertable

/-- The loop over address rows keeps the contract: each of its rows is for an output that has
none yet. -/
theorem insertLoop_addresses {refuse : Option String → Option String} {items : List AddressRow}
    {done : List Effect} {here : Conn} (insertable : Insertable done here.pending items) :
    Meets postgres voutContract (fun _ done after => Owned done after)
      (insertLoop Insert.address refuse items) done here := by
  induction items generalizing done here with
  | nil => exact fun distinct => (insertable distinct).1
  | cons item rest inductionHypothesis =>
    refine ⟨fun distinct => ?_, fun reply _ => ⟨trivial, ?_⟩⟩
    · obtain ⟨pending, -, free⟩ := insertable distinct
      refine ⟨pending, ?_⟩
      rintro _ ⟨⟩
      exact free _ (List.mem_map_of_mem List.mem_cons_self)
    have same := address_effect item reply here done
    -- without a row the loop goes on or stops, as `refuse` says
    have goesOn : Meets postgres voutContract (fun _ done after => Owned done after)
        (insertLoop Insert.address refuse rest)
        (done ++ [postgres.effect (.insert (.address item)) reply here])
        { here with issued := here.issued + 1 } := inductionHypothesis (insertable.skipped same)
    have stops : ∀ err, Meets postgres voutContract (fun _ done after => Owned done after)
        (.call .rollback fun _ => .ret (.error err) : Sql (List (AddressRow × Nat)))
        (done ++ [postgres.effect (.insert (.address item)) reply here])
        { here with issued := here.issued + 1 } := by
      intro err
      refine ⟨fun distinct => ⟨?_, by simp⟩, fun _ _ => ⟨trivial, ?_⟩⟩
      · rw [same.1] at distinct ⊢
        exact (insertable distinct).1
      · intro _ id member
        exact absurd member (Multiset.notMem_zero id)
    rcases reply with err | _ | id
    · cases isRefused : refuse (failure (.error err)) with
      | none =>
        simp only [isRefused]
        exact goesOn
      | some err =>
        simp only [isRefused]
        exact stops err
    · cases isRefused : refuse (failure (.ok none)) with
      | none =>
        simp only [isRefused]
        exact goesOn
      | some err =>
        simp only [isRefused]
        exact stops err
    · apply Meets.attempt
      refine (inductionHypothesis (insertable.inserted same id)).mono ?_
      intro result done here owned
      cases result with
      | ok value => exact owned
      | error err => exact owned

/-- `InsertAddressOuts` keeps the contract for rows that can be inserted. -/
theorem insertAddressOuts_addresses {items : List AddressRow} {done : List Effect} {here : Conn}
    (nothing : here.pending.voutIDs = 0) (insertable : Insertable done 0 items) :
    Meets postgres voutContract
      (fun result _ after => ∀ value, result = .ok value → after.pending.voutIDs = 0)
      (insertAddressOuts items) done here := by
  have noRows : ∀ (done : List Effect) (here : Conn) (request : Statement),
      here.pending.voutIDs = 0 → (∀ insert, request ≠ .insert insert) →
      voutContract.asks done here request := by
    intro done here request nothing noInsert _
    refine ⟨?_, fun row isInsert => absurd isInsert (noInsert _)⟩
    rw [nothing]
    simp
  apply Meets.attempt
  refine ⟨noRows _ _ _ nothing (by simp), fun begun _ => ⟨trivial, ?_⟩⟩
  cases begun with
  | error err =>
    rintro value ⟨⟩
  | ok begun =>
    refine ⟨noRows _ _ _ rfl (by simp), fun prepared _ => ⟨trivial, ?_⟩⟩
    cases prepared with
    | error err =>
      refine ⟨noRows _ _ _ rfl (by simp), fun _ _ => ⟨trivial, ?_⟩⟩
      rintro value ⟨⟩
    | ok prepared =>
      apply Meets.attempt
      refine (insertLoop_addresses ?_).mono ?_
      · intro distinct
        simp only [handed_append, handed_cons, handed_nil, committed_append, committed_cons,
          committed_nil] at distinct ⊢
        simpa [postgres, effect, advance, Effect.handed, Effect.committed] using
          insertable (by simpa [postgres, effect, Effect.handed] using distinct)
      · intro result done here owned
        cases result with
        | error err =>
          rintro value ⟨⟩
        | ok inserted =>
          refine ⟨fun distinct => ⟨owned distinct, by simp⟩, fun finished _ => ⟨trivial, ?_⟩⟩
          cases finished with
          | error err =>
            rintro value ⟨⟩
          | ok _ =>
            intro value _
            rfl

end Contract

section Tree

/-- The outputs of extracted transactions with their row ids. -/
def keyedVouts (outs : List (List Nat × List Nat)) (txs : List ExtractedTx) : List (Vout × Nat) :=
  (outs.zip txs).flatMap fun (ids, dbtx) => dbtx.vouts.zip ids.1

/-- The row id of an output, once for each of its addresses. -/
def paidIDs (vouts : List (Vout × Nat)) : List Nat :=
  vouts.flatMap fun (vout, voutDbID) =>
    List.replicate vout.scriptPubKeyData.addresses.length voutDbID

/-- No output pays to two addresses, so that no output has two rows in the addresses table. -/
def PaysOnce (vouts : List Vout) : Prop :=
  ∀ vout ∈ vouts, vout.scriptPubKeyData.addresses.length ≤ 1

variable {outs : List (List Nat × List Nat)} {txs : List ExtractedTx}

/-- The outputs and their ids are paired in order. -/
theorem keyedVouts_unzip (fit : FitOuts outs txs) :
    (keyedVouts outs txs).map Prod.fst = txs.flatMap ExtractedTx.vouts ∧
      (keyedVouts outs txs).map Prod.snd = outs.flatMap Prod.fst := by
  induction fit with
  | nil => exact ⟨rfl, rfl⟩
  | @cons ids dbtx outs txs lengths _ inductionHypothesis =>
    obtain ⟨vouts, ids'⟩ := inductionHypothesis
    rw [keyedVouts] at vouts ids'
    simp only [keyedVouts, List.zip_cons_cons, List.flatMap_cons, List.map_append, vouts, ids',
      List.map_fst_zip lengths.1.ge, List.map_snd_zip lengths.1.le, and_self]

/-- The ids of outputs in all address rows are those of the outputs that pay, once for each
address. -/
theorem voutDbIDs_keyedTxs (outs : List (List Nat × List Nat)) (txs : List ExtractedTx) :
    ((keyedTxs outs txs).flatMap fun each => each.addressRows.map AddressRow.voutDbID) =
      paidIDs (keyedVouts outs txs) := by
  simp only [keyedTxs, keyedTx, paidIDs, keyedVouts, List.flatMap_map, List.map_flatMap,
    List.flatMap_assoc, addressRowsOf, List.map_map, Function.comp_def, List.map_const']

/-- The ids in address rows are those of outputs that were inserted. -/
theorem paidIDs_subset (vouts : List (Vout × Nat)) : paidIDs vouts ⊆ vouts.map Prod.snd := by
  intro id member
  obtain ⟨⟨vout, voutDbID⟩, paired, replicated⟩ := List.mem_flatMap.mp member
  obtain rfl := List.eq_of_mem_replicate replicated
  exact List.mem_map_of_mem paired

/-- When each output pays at most once, an id is there at most once. -/
theorem paidIDs_sublist {vouts : List (Vout × Nat)} (once : PaysOnce (vouts.map Prod.fst)) :
    (paidIDs vouts).Sublist (vouts.map Prod.snd) := by
  induction vouts with
  | nil => exact List.Sublist.refl _
  | cons first rest inductionHypothesis =>
    have later := inductionHypothesis fun vout member => once vout (List.mem_cons_of_mem _ member)
    have single : (List.replicate first.1.scriptPubKeyData.addresses.length first.2).Sublist
        [first.2] :=
      List.replicate_sublist_replicate first.2 |>.mpr (once first.1 List.mem_cons_self)
    exact single.append later

/-- Ids that differ are there once exactly when no output pays twice. -/
theorem nodup_paidIDs {vouts : List (Vout × Nat)} (distinct : (vouts.map Prod.snd).Nodup) :
    (paidIDs vouts).Nodup ↔ PaysOnce (vouts.map Prod.fst) := by
  constructor
  · intro different vout member
    obtain ⟨⟨same, voutDbID⟩, paired, rfl⟩ := List.mem_map.mp member
    have part : (List.replicate same.scriptPubKeyData.addresses.length voutDbID).Sublist
        (paidIDs vouts) := by
      rw [paidIDs, List.flatMap_def]
      exact List.sublist_flatten_of_mem (List.mem_map_of_mem paired)
    exact List.nodup_replicate.mp (different.sublist part)
  · intro once
    exact distinct.sublist (paidIDs_sublist once)

/-- The rows of outputs, inputs and transactions fund nothing. -/
theorem voutIDs_outsRows (outs : List (List Nat × List Nat)) (txs : List ExtractedTx) :
    (outsRows outs txs).voutIDs = 0 := by
  rw [TxTables.voutIDs, addresses_outsRows]
  rfl

/-- Rows of the transactions table have no outputs of addresses. -/
theorem voutIDs_insertedTxs (checked : Bool) (rows : List Tx) (ids : List Nat) :
    (insertedRows (rows.map (Insert.tx checked)) ids).voutIDs = 0 := by
  rw [TxTables.voutIDs, addresses_insertedTxs]
  rfl

/-- The address rows of a tree have different outputs when those of its transactions
have, each inserted by the tree, and none pays twice. -/
theorem fundedRows_sublist (fit : FitOuts outs txs)
    (once : PaysOnce (txs.flatMap ExtractedTx.vouts)) (txDbIDs : List Nat) :
    ((fundedRows txDbIDs (keyedTxs outs txs)).map AddressRow.voutDbID).Sublist
      (outs.flatMap Prod.fst) := by
  obtain ⟨vouts, ids⟩ := keyedVouts_unzip fit
  rw [map_fundedRows AddressRow.voutDbID fun _ _ => rfl, ← ids]
  refine List.Sublist.trans ?_ (paidIDs_sublist (vouts ▸ once))
  rw [← voutDbIDs_keyedTxs]
  exact (List.take_sublist _ _).flatMap _

/-- The statements on the outputs of a tree insert these and no row of an address. -/
theorem storeOuts_both {start : TxTables} {here : Conn} {checked : Bool} {txs : List ExtractedTx}
    (clean : here.Clean) (nothing : here.pending.voutIDs = 0) :
    Meets postgres ((treeContract start (footprintOf txs)).and voutContract)
      (fun result done after => (∃ outs, result = .ok (keyedTxs outs txs) ∧ FitOuts outs txs ∧
        after.Clean ∧ Grown [] done (outsRows outs txs) (TreeIds.of ⟨outs, [], []⟩)) ∧
          after.pending.voutIDs = 0)
      (storeOuts checked txs) [] here := by
  have outsDone : Meets postgres (treeContract start (footprintOf txs))
      (fun result done after => ∃ outs, result = .ok (keyedTxs outs txs) ∧ FitOuts outs txs ∧
        after.Clean ∧ Grown [] done (outsRows outs txs) (TreeIds.of ⟨outs, [], []⟩))
      (storeOuts checked txs) [] here :=
    storeOuts_meets clean fun outs after later fit cleanAfter grown =>
      ⟨outs, rfl, fit, cleanAfter, grown⟩
  have outsOnly : (storeOuts checked txs).Only NoAddress :=
    (yields_storeOuts noAddress_brackets (by simp [NoAddress]) (by simp [NoAddress]) checked txs).only
  exact outsDone.and (voutContract_of_only outsOnly nothing)

/-- The statements on the transactions of a tree insert these and no row of an address. -/
theorem insertTxns_both {start : TxTables} {here : Conn} {checked : Bool} {hcd : Hcd}
    {msgBlock : MsgBlock} {tree : TxTree} {outs : List (List Nat × List Nat)} {done : List Effect}
    (distinct : ((treeTransactions msgBlock tree).map hcd.txHash).Nodup)
    (fit : FitOuts outs (extractBlockTransactions hcd msgBlock tree)) (clean : here.Clean)
    (grown : Grown [] done (outsRows outs (extractBlockTransactions hcd msgBlock tree))
      (TreeIds.of ⟨outs, [], []⟩)) (nothing : here.pending.voutIDs = 0) :
    let txs := extractBlockTransactions hcd msgBlock tree
    Meets postgres ((treeContract start (footprintOf txs)).and voutContract)
      (fun result after here => (∃ txDbIDs, result = .ok txDbIDs ∧
        txDbIDs.length = (keptTxs start checked outs txs).length ∧ here.Clean ∧
        Grown done after (insertedRows ((keptTxs start checked outs txs).map (Insert.tx checked))
          txDbIDs) (only .transactions txDbIDs)) ∧ here.pending.voutIDs = 0)
      (insertTxns ((keyedTxs outs txs).map KeyedTx.tx) checked) done here := by
  intro txs
  have pairs : (((keyedTxs outs txs).map KeyedTx.tx).map Tx.hashes).Nodup := by
    rw [hashes_keyedTxs fit]
    exact nodup_extracted_hashes distinct
  have noHashes : (committed done).txHashes = 0 := by
    rw [grown.committed]
    simp [txHashes_outsRows]
  have txnsDone : Meets postgres (treeContract start (footprintOf txs))
      (fun result after here => ∃ txDbIDs, result = .ok txDbIDs ∧
        txDbIDs.length = (keptTxs start checked outs txs).length ∧ here.Clean ∧
        Grown done after (insertedRows ((keptTxs start checked outs txs).map (Insert.tx checked))
          txDbIDs) (only .transactions txDbIDs))
      (insertTxns ((keyedTxs outs txs).map KeyedTx.tx) checked) done here :=
    insertTxns_meets clean pairs (mine_keyedTxs fit) noHashes
      fun txDbIDs after later length cleanAfter grown => ⟨txDbIDs, rfl, length, cleanAfter, grown⟩
  have noAddresses : (insertTxns ((keyedTxs outs txs).map KeyedTx.tx) checked).Only NoAddress :=
    (only_insertAll noAddress_brackets (by simp [NoAddress])).attempt fun _ => trivial
  exact txnsDone.and (voutContract_of_only noAddresses nothing)

/-- After the outputs and the transactions of a tree the address rows are of outputs that were
inserted, each once, when no output pays twice. -/
theorem insertable_fundedRows {txs : List ExtractedTx} {outs : List (List Nat × List Nat)}
    {txDbIDs : List Nat} {done : List Effect} (fit : FitOuts outs txs)
    (once : PaysOnce (txs.flatMap ExtractedTx.vouts))
    (ids : handed .vouts done = outs.flatMap Prod.fst) (noRows : (committed done).voutIDs = 0) :
    Insertable done 0 (fundedRows txDbIDs (keyedTxs outs txs)) := by
  intro different
  have sublist := fundedRows_sublist fit once txDbIDs
  rw [ids] at different ⊢
  refine ⟨by simp, different.sublist sublist, fun id member => ⟨sublist.subset member, ?_⟩⟩
  simp [noRows]

/-- `storeTxns` stores its tree, with rows of outputs inserted before, each once, when no
output pays twice. -/
theorem storeTxns_paysOnce {start : TxTables} {here : Conn} {hcd : Hcd}
    {checked updateAddressesSpendingInfo : Bool} {msgBlock : MsgBlock} {tree : TxTree}
    (clean : here.Clean) (nothing : here.pending.voutIDs = 0)
    (distinct : ((treeTransactions msgBlock tree).map hcd.txHash).Nodup)
    (once : PaysOnce ((extractBlockTransactions hcd msgBlock tree).flatMap ExtractedTx.vouts)) :
    let txs := extractBlockTransactions hcd msgBlock tree
    Meets postgres ((treeContract start (footprintOf txs)).and voutContract)
      (fun result done _ => ∃ ids, TreeDone start checked updateAddressesSpendingInfo txs ids done ∧
        ∃ stored, result = .ok stored ∧ stored.txDbIDs = ids.txs)
      (storeTxns hcd checked msgBlock tree updateAddressesSpendingInfo) [] here := by
  intro txs
  apply Meets.attempt
  refine (storeOuts_both clean nothing).mono ?_
  rintro _ doneOuts hereOuts ⟨⟨outs, rfl, fit, cleanOuts, grownOuts⟩, nothingOuts⟩
  apply Meets.attempt
  refine (insertTxns_both distinct fit cleanOuts grownOuts nothingOuts).mono ?_
  rintro _ doneTxs hereTxs ⟨⟨txDbIDs, rfl, lengthTxs, cleanTxs, grownTxs⟩, nothingTxs⟩
  have addressesDone : Meets postgres (treeContract start (footprintOf txs))
      (fun result done after => ∃ ids : List Nat, result = .ok ids ∧
        ids.length = (fundedRows txDbIDs (keyedTxs outs txs)).length ∧ after.Clean ∧
        Grown doneTxs done (insertedRows ((fundedRows txDbIDs (keyedTxs outs txs)).map
          Insert.address) ids) (only .addresses ids))
      (insertAddressOuts (fundedRows txDbIDs (keyedTxs outs txs))) doneTxs hereTxs :=
    insertAddressOuts_meets cleanTxs (fun row member => outpoint_fundedRows member)
      fun ids after later length cleanAfter grown => ⟨ids, rfl, length, cleanAfter, grown⟩
  have grown := grownOuts.trans grownTxs
  have insertable : Insertable doneTxs 0 (fundedRows txDbIDs (keyedTxs outs txs)) := by
    apply insertable_fundedRows fit once
    · rw [grown.handed]
      simp [TreeIds.of, only]
    · rw [grown.committed]
      simp [voutIDs_outsRows, voutIDs_insertedTxs]
  apply Meets.attempt
  refine (addressesDone.and (insertAddressOuts_addresses nothingTxs insertable)).mono ?_
  rintro _ front hereAddresses ⟨⟨addressIds, rfl, lengthAddresses, cleanAddresses, grownAddresses⟩,
    nothingAddresses⟩
  let ids : TreeIds := ⟨outs, txDbIDs, addressIds⟩
  have owned : ∀ set ∈ treeSpendings updateAddressesSpendingInfo ids txs,
      set.outpoint ∈ (footprintOf txs).spent := owned_treeSpendings
  have spendingsDone : Meets postgres (treeContract start (footprintOf txs))
      (fun result done _ => result = .ok () ∧
        done = front ++ (treeSpendings updateAddressesSpendingInfo ids txs).map .spend)
      (setSpendings (treeSpendings updateAddressesSpendingInfo ids txs)) front hereAddresses :=
    setSpendings_meets cleanAddresses owned fun after cleanAfter => ⟨rfl, rfl⟩
  apply Meets.attempt
  refine (spendingsDone.and (voutContract_of_only (only_setSpendings (by simp [NoAddress]) _)
    (nothingAddresses _ rfl))).mono ?_
  rintro _ _ after ⟨⟨rfl, rfl⟩, -⟩
  have fits : ids.Fit start checked txs := ⟨fit, lengthTxs, lengthAddresses⟩
  exact ⟨ids, treeDone_of_grown fits grownOuts grownTxs grownAddresses, _, rfl, rfl⟩

end Tree

section Interleaving

variable {start : TxDb} {mine others : List Effect} {here : Conn} {request : Statement}

/-- Ids of one goroutine: each given out once, none before the start, none to the
other. -/
structure OwnIDs (start : TxDb) (mine others : List Effect) : Prop where
  distinct : (handed .vouts mine).Nodup
  later : ∀ id ∈ handed .vouts mine, start.sequences .vouts ≤ id
  apart : ∀ id ∈ handed .vouts mine, id ∉ handed .vouts others

/-- Where the outputs are handed apart, each of the two goroutines has ids of its own. -/
theorem HandedApart.own (apart : HandedApart start mine others) :
    OwnIDs start mine others ∧ OwnIDs start others mine := by
  obtain ⟨distinct, bounds⟩ := apart .vouts
  obtain ⟨left, right, different⟩ := List.nodup_append.mp distinct
  refine ⟨⟨left, ?_, ?_⟩, right, ?_, ?_⟩
  · intro id member
    exact (bounds id (List.mem_append_left _ member)).1
  · intro id member other
    exact different id member id other rfl
  · intro id member
    exact (bounds id (List.mem_append_right _ member)).1
  · intro id member other
    exact different id other id member rfl

/-- The address rows that were committed have outputs of their own goroutine. -/
def OwnRows (done : List Effect) : Prop := ∀ id ∈ (committed done).voutIDs, id ∈ handed .vouts done

/-- The index refuses no row of a goroutine that keeps the contract. -/
theorem indexedReply_eq {db : TxDb} (old : ∀ id ∈ start.tables.voutIDs, id < start.sequences .vouts)
    (own : OwnIDs start mine others) (rows : OwnRows others)
    (index : db.tables.voutIDs =
      start.tables.voutIDs + ((committed mine).voutIDs + (committed others).voutIDs))
    (asks : voutContract.asks mine here request) :
    indexedReply request here db = reply request here db := by
  cases request with
  | begin | prepare | commit | rollback | setSpending => rfl
  | insert insert =>
    have accepted : ¬ insert.duplicates (db.tables + here.pending) := by
      cases insert with
      | vout | vin | tx => exact id
      | address row =>
        obtain ⟨handedToMe, free⟩ := (asks own.distinct).2 row rfl
        have notOld : row.voutDbID ∉ start.tables.voutIDs := fun member =>
          absurd (old _ member) (Nat.not_lt.mpr (own.later _ handedToMe))
        have notOther : row.voutDbID ∉ (committed others).voutIDs := fun member =>
          own.apart _ handedToMe (rows _ member)
        simp only [Insert.duplicates, TxTables.voutIDs_add, index, Multiset.mem_add] at free ⊢
        tauto
    exact if_neg accepted

/-- A statement commits outputs of its own goroutine only. -/
theorem OwnRows.step (rows : OwnRows mine) (distinct : (handed .vouts mine).Nodup)
    (asks : voutContract.asks mine here request) (reply : Reply) :
    OwnRows (mine ++ [postgres.effect request reply here]) := by
  intro id member
  rw [committed_append, TxTables.voutIDs_add, Multiset.mem_add, committed_cons, committed_nil,
    add_zero] at member
  rw [handed_append, List.mem_append]
  refine Or.inl ?_
  rcases member with before | now
  · exact rows id before
  · have pending := (asks distinct).1
    cases request with
    | begin | prepare | rollback => exact absurd now (Multiset.notMem_zero id)
    | insert insert => cases reply <;> exact absurd now (Multiset.notMem_zero id)
    | setSpending set => cases reply <;> exact absurd now (Multiset.notMem_zero id)
    | commit =>
      cases reply with
      | error err => exact absurd now (Multiset.notMem_zero id)
      | ok _ => exact pending id now

/-- The goroutines of a block whose outputs pay at most once each are compatible with
the index there. -/
theorem indexed_compatible {left right : Footprint} (apart : left.Apart right)
    (old : ∀ id ∈ start.tables.voutIDs, id < start.sequences .vouts) :
    Compatible (postgresWith true) ((treeContract start.tables left).and voutContract)
      ((treeContract start.tables right).and voutContract) start
      (fun doneLeft doneRight => HandedApart start doneLeft doneRight ∧ OwnRows doneLeft ∧
        OwnRows doneRight) where
  commute mine other db ownsMine ownsOther := effects_comm apart ownsMine.1 ownsOther.1 db
  leftStep doneLeft doneRight here request ownsLeft ownsRight holds asks := by
    obtain ⟨handedApart, rowsLeft, rowsRight⟩ := holds
    have index : (postgres.after start doneLeft doneRight).tables.voutIDs = start.tables.voutIDs +
        ((committed doneLeft).voutIDs + (committed doneRight).voutIDs) := by
      rw [Server.after, voutIDs_applyAll, voutIDs_applyAll, add_assoc]
    have same : (postgresWith true).reply request here ((postgresWith true).after start doneLeft
        doneRight) = postgres.reply request here (postgres.after start doneLeft doneRight) :=
      indexedReply_eq old handedApart.own.1 rowsRight index asks.2
    have step := (trees_compatible apart).leftStep doneLeft doneRight here request
      (fun effect member => (ownsLeft effect member).1)
      (fun effect member => (ownsRight effect member).1) handedApart asks.1
    rw [same]
    exact ⟨⟨step.1, trivial⟩, step.2, rowsLeft.step handedApart.own.1.distinct asks.2 _, rowsRight⟩
  rightStep doneLeft doneRight here request ownsLeft ownsRight holds asks := by
    obtain ⟨handedApart, rowsLeft, rowsRight⟩ := holds
    have index : (postgres.after start doneLeft doneRight).tables.voutIDs = start.tables.voutIDs +
        ((committed doneRight).voutIDs + (committed doneLeft).voutIDs) := by
      rw [Server.after, voutIDs_applyAll, voutIDs_applyAll, add_assoc, add_comm (committed _).voutIDs]
    have same : (postgresWith true).reply request here ((postgresWith true).after start doneLeft
        doneRight) = postgres.reply request here (postgres.after start doneLeft doneRight) :=
      indexedReply_eq old handedApart.own.2 rowsLeft index asks.2
    have step := (trees_compatible apart).rightStep doneLeft doneRight here request
      (fun effect member => (ownsLeft effect member).1)
      (fun effect member => (ownsRight effect member).1) handedApart asks.1
    rw [same]
    exact ⟨⟨step.1, trivial⟩, step.2, rowsLeft, rowsRight.step handedApart.own.2.distinct asks.2 _⟩

end Interleaving

section Chain

/-- What one `StoreBlock` is given, with whether the index is there. -/
structure Storing where
  env : StoreEnv
  msgBlock : MsgBlock
  dupChecks : Bool
  updateAddressesSpendingInfo : Bool
  indexed : Bool

namespace Storing

/-- The two goroutines of `StoreBlock`, one for each tree, interleaved by the schedule of the
storing. -/
def trees (hcd : Hcd) (storing : Storing) (db : TxDb) :
    Except String StoreTxnsResult × Except String StoreTxnsResult × TxDb :=
  (postgresWith storing.indexed).interleave storing.env.schedule
    (storeTxns hcd storing.dupChecks storing.msgBlock .regular storing.updateAddressesSpendingInfo)
    (storeTxns hcd storing.dupChecks storing.msgBlock .stake storing.updateAddressesSpendingInfo)
    (Conn.fresh storing.env.regularFaults) (Conn.fresh storing.env.stakeFaults) db

/-- Without the index they are those of `StoreBlock` on its tables. -/
theorem trees_unindexed (hcd : Hcd) (env : StoreEnv) (msgBlock : MsgBlock)
    (updateAddressesSpendingInfo : Bool) (pgb : ChainDB) :
    trees hcd ⟨env, msgBlock, pgb.dupChecks, updateAddressesSpendingInfo, false⟩ pgb.db.tx =
      pgb.storeTrees hcd env msgBlock updateAddressesSpendingInfo := rfl

/-- The tables after a block, if both goroutines succeed. -/
def perform (hcd : Hcd) (db : TxDb) (storing : Storing) : Option TxDb :=
  match storing.trees hcd db with
  | (.ok _, .ok _, after) => some after
  | _ => none

/-- Two goroutines that succeed make the storing succeed. -/
theorem perform_of_trees {hcd : Hcd} {storing : Storing} {db after : TxDb}
    {reg stk : StoreTxnsResult} (ran : storing.trees hcd db = (.ok reg, .ok stk, after)) :
    storing.perform hcd db = some after := by
  rw [perform, ran]

end Storing

variable {hcd : Hcd}

/-- No output of a block pays to two addresses. -/
def BlockPaysOnce (hcd : Hcd) (msgBlock : MsgBlock) : Prop :=
  ∀ tree, PaysOnce (treeVouts hcd msgBlock tree)

/-- Without failures a valid block is stored, with the index there or not, when no output
pays twice. Without the index it is stored anyway. -/
theorem Storing.perform_done {storing : Storing} (clean : storing.env.TreesClean)
    (valid : ValidBlock hcd storing.msgBlock)
    (once : storing.indexed = true → BlockPaysOnce hcd storing.msgBlock) {db : TxDb}
    (old : ∀ id ∈ db.tables.voutIDs, id < db.sequences .vouts) :
    ∃ regIds stkIds after, storing.perform hcd db = some after ∧
      BlockDone db storing.dupChecks storing.updateAddressesSpendingInfo
        (extractBlockTransactions hcd storing.msgBlock .regular)
        (extractBlockTransactions hcd storing.msgBlock .stake) regIds stkIds after := by
  obtain ⟨env, msgBlock, dupChecks, updateAddressesSpendingInfo, indexed⟩ := storing
  cases indexed with
  | false =>
    let pgb := (newChainDB ⟨db, [], 1, []⟩).enableDuplicateCheckOnInsert dupChecks
    obtain ⟨regIds, stkIds, reg, stk, after, -, -, ran, done⟩ :=
      pgb.storeTrees_done clean valid updateAddressesSpendingInfo
    rw [← Storing.trees_unindexed] at ran
    exact ⟨regIds, stkIds, after, Storing.perform_of_trees ran, done⟩
  | true =>
    have pays : ∀ tree, PaysOnce ((extractBlockTransactions hcd msgBlock tree).flatMap
        ExtractedTx.vouts) := by
      intro tree
      rw [valid.vouts_eq]
      exact once rfl tree
    have cleanLeft : (Conn.fresh env.regularFaults).Clean := clean.regular
    have cleanRight : (Conn.fresh env.stakeFaults).Clean := clean.stake
    have nothing : HandedApart db [] [] := by
      intro table
      exact ⟨List.nodup_nil, by simp⟩
    have noRows : OwnRows [] := by
      intro id member
      exact absurd member (Multiset.notMem_zero id)
    obtain ⟨_, _, doneLeft, doneRight, _, _, ran, ⟨regIds, left, reg, rfl, -⟩,
        ⟨stkIds, right, stk, rfl, -⟩, apart, -⟩ :=
      (indexed_compatible valid.apart old).interleave env.schedule
        ((storeTxns_paysOnce cleanLeft rfl (valid.distinct_tree .regular) (pays .regular)).withReply
          indexedReply)
        ((storeTxns_paysOnce cleanRight rfl (valid.distinct_tree .stake) (pays .stake)).withReply
          indexedReply) (by simp) (by simp) ⟨nothing, noRows, noRows⟩
    exact ⟨regIds, stkIds, _, Storing.perform_of_trees ran,
      blockDone_after left right valid.apart.leftSpends apart⟩

/-- The outputs of the address rows of a tree with a new hash. -/
theorem voutIDs_treeRows {start : TxTables} {checked : Bool} {msgBlock : MsgBlock} {tree : TxTree}
    {ids : TreeIds} (fit : ids.Fit start checked (extractBlockTransactions hcd msgBlock tree))
    (new : ∀ pair ∈ start.txHashes, pair.2 ≠ hcd.hashOf msgBlock) :
    (treeRows start checked ids (extractBlockTransactions hcd msgBlock tree)).voutIDs =
      (paidIDs (keyedVouts ids.outs (extractBlockTransactions hcd msgBlock tree)) :
        Multiset Nat) := by
  rw [TxTables.voutIDs, map_addresses_treeRows AddressRow.voutDbID (fun _ _ => rfl) fit new,
    voutDbIDs_keyedTxs]

/-- The tables after some blocks: ids of outputs were given out, pairs of hashes are of
stored blocks, and the index can be built exactly when no output pays twice. -/
structure IndexedBy (hcd : Hcd) (stored : List MsgBlock) (db : TxDb) : Prop where
  old : ∀ id ∈ db.tables.voutIDs, id < db.sequences .vouts
  hashes : ∀ pair ∈ db.tables.txHashes, ∃ block ∈ stored, pair.2 = hcd.hashOf block
  nodup : db.tables.voutIDs.Nodup ↔ ∀ block ∈ stored, BlockPaysOnce hcd block

/-- A block pays once for each output exactly when each of its trees does. -/
theorem blockPaysOnce_iff (msgBlock : MsgBlock) : BlockPaysOnce hcd msgBlock ↔
    PaysOnce (treeVouts hcd msgBlock .regular) ∧ PaysOnce (treeVouts hcd msgBlock .stake) := by
  constructor
  · intro once
    exact ⟨once .regular, once .stake⟩
  · rintro ⟨regular, stake⟩ tree
    cases tree with
    | regular => exact regular
    | stake => exact stake

/-- Ids that a sequence gave out later are none of those below its value before. -/
theorem disjoint_of_given {given later : Multiset Nat} {next : Nat} (below : ∀ id ∈ given, id < next)
    (above : ∀ id ∈ later, next ≤ id) : Disjoint given later := by
  rw [Multiset.disjoint_left]
  intro id before now
  exact absurd (below id before) (Nat.not_lt.mpr (above id now))

/-- The step of the chain: a block with a new hash. -/
theorem IndexedBy.step {stored : List MsgBlock} {db after : TxDb} {msgBlock : MsgBlock}
    {checked updateAddressesSpendingInfo : Bool} {regIds stkIds : TreeIds}
    (indexedBy : IndexedBy hcd stored db) (valid : ValidBlock hcd msgBlock)
    (new : hcd.hashOf msgBlock ∉ stored.map hcd.hashOf)
    (done : BlockDone db checked updateAddressesSpendingInfo
      (extractBlockTransactions hcd msgBlock .regular)
      (extractBlockTransactions hcd msgBlock .stake) regIds stkIds after) :
    IndexedBy hcd (stored ++ [msgBlock]) after := by
  have unmet : ∀ pair ∈ db.tables.txHashes, pair.2 ≠ hcd.hashOf msgBlock := by
    intro pair member same
    obtain ⟨block, isStored, isHash⟩ := indexedBy.hashes pair member
    exact new (List.mem_map.mpr ⟨block, isStored, isHash.symm.trans same⟩)
  obtain ⟨regVouts, regOuts⟩ := keyedVouts_unzip done.regFit.outs
  obtain ⟨stkVouts, stkOuts⟩ := keyedVouts_unzip done.stkFit.outs
  rw [valid.vouts_eq] at regVouts stkVouts
  have fresh := done.fresh .vouts
  simp only [TreeIds.of, ← regOuts, ← stkOuts] at fresh
  obtain ⟨regDistinct, stkDistinct, apart⟩ := List.nodup_append.mp fresh.distinct
  have regBounds : ∀ id ∈ paidIDs (keyedVouts regIds.outs
      (extractBlockTransactions hcd msgBlock .regular)),
      db.sequences .vouts ≤ id ∧ id < after.sequences .vouts := fun id member =>
    fresh.bounds id (List.mem_append_left _ (paidIDs_subset _ member))
  have stkBounds : ∀ id ∈ paidIDs (keyedVouts stkIds.outs
      (extractBlockTransactions hcd msgBlock .stake)),
      db.sequences .vouts ≤ id ∧ id < after.sequences .vouts := fun id member =>
    fresh.bounds id (List.mem_append_right _ (paidIDs_subset _ member))
  have index : after.tables.voutIDs = db.tables.voutIDs +
      (paidIDs (keyedVouts regIds.outs (extractBlockTransactions hcd msgBlock .regular)) :
        Multiset Nat) +
      (paidIDs (keyedVouts stkIds.outs (extractBlockTransactions hcd msgBlock .stake)) :
        Multiset Nat) := by
    rw [done.tables, blockTables, TxTables.voutIDs_spendAll, TxTables.voutIDs_add,
      TxTables.voutIDs_add, voutIDs_treeRows done.regFit unmet, voutIDs_treeRows done.stkFit unmet]
  constructor
  · intro id member
    rw [index, Multiset.mem_add, Multiset.mem_add] at member
    rcases member with (before | regular) | stake
    · exact lt_of_lt_of_le (indexedBy.old id before) (done.sequences .vouts)
    · exact (regBounds id regular).2
    · exact (stkBounds id stake).2
  · intro pair member
    rw [done.tables, blockTables, TxTables.txHashes_spendAll, TxTables.txHashes_add,
      TxTables.txHashes_add, Multiset.mem_add, Multiset.mem_add] at member
    rcases member with (before | regular) | stake
    · obtain ⟨block, isStored, isHash⟩ := indexedBy.hashes pair before
      exact ⟨block, List.mem_append_left _ isStored, isHash⟩
    · exact ⟨msgBlock, by simp, hashes_treeRows done.regFit.outs regular⟩
    · exact ⟨msgBlock, by simp, hashes_treeRows done.stkFit.outs stake⟩
  · have ownReg := disjoint_of_given indexedBy.old fun id member =>
      (regBounds id (Multiset.mem_coe.mp member)).1
    have ownStk := disjoint_of_given indexedBy.old fun id member =>
      (stkBounds id (Multiset.mem_coe.mp member)).1
    have trees : Disjoint (paidIDs (keyedVouts regIds.outs
        (extractBlockTransactions hcd msgBlock .regular)) : Multiset Nat)
        (paidIDs (keyedVouts stkIds.outs (extractBlockTransactions hcd msgBlock .stake)) :
          Multiset Nat) := by
      rw [Multiset.disjoint_left]
      intro id regular now
      exact apart id (paidIDs_subset _ regular) id (paidIDs_subset _ now) rfl
    rw [index, Multiset.nodup_add, Multiset.nodup_add, Multiset.disjoint_add_left, indexedBy.nodup,
      Multiset.coe_nodup, Multiset.coe_nodup, nodup_paidIDs regDistinct, nodup_paidIDs stkDistinct,
      regVouts, stkVouts, List.forall_mem_append, List.forall_mem_singleton, blockPaysOnce_iff]
    tauto

/-- A run over blocks with new hashes, which pay once for each output while the index is there,
succeeds and keeps what is known of the rows. -/
theorem IndexedBy.exec {storings : List Storing} {stored : List MsgBlock} {db : TxDb}
    (indexedBy : IndexedBy hcd stored db)
    (clean : ∀ storing ∈ storings, storing.env.TreesClean)
    (valid : ∀ storing ∈ storings, ValidBlock hcd storing.msgBlock)
    (once : ∀ storing ∈ storings, storing.indexed = true → BlockPaysOnce hcd storing.msgBlock)
    (distinct : ((stored ++ storings.map Storing.msgBlock).map hcd.hashOf).Nodup) :
    ∃ final, exec (Storing.perform hcd) db storings = some final ∧
      IndexedBy hcd (stored ++ storings.map Storing.msgBlock) final := by
  induction storings generalizing stored db with
  | nil => exact ⟨db, rfl, by simpa using indexedBy⟩
  | cons storing rest inductionHypothesis =>
    obtain ⟨regIds, stkIds, after, performed, done⟩ := Storing.perform_done
      (clean storing List.mem_cons_self) (valid storing List.mem_cons_self)
      (once storing List.mem_cons_self) indexedBy.old
    have new : hcd.hashOf storing.msgBlock ∉ stored.map hcd.hashOf := by
      rw [List.map_append, List.map_cons, List.map_cons] at distinct
      obtain ⟨-, -, apart⟩ := List.nodup_append.mp distinct
      exact fun member => apart _ member _ List.mem_cons_self rfl
    have joined : stored ++ (storing :: rest).map Storing.msgBlock =
        stored ++ [storing.msgBlock] ++ rest.map Storing.msgBlock := by simp
    rw [joined] at distinct ⊢
    obtain ⟨final, ran, ends⟩ := inductionHypothesis
      (indexedBy.step (valid storing List.mem_cons_self) new done)
      (fun later member => clean later (List.mem_cons_of_mem _ member))
      (fun later member => valid later (List.mem_cons_of_mem _ member))
      (fun later member => once later (List.mem_cons_of_mem _ member)) distinct
    refine ⟨final, ?_, ends⟩
    rw [Runs.exec, performed]
    exact ran

/-- The tables as they are created have no row. -/
theorem IndexedBy.created : IndexedBy hcd [] ChainTables.created.tx where
  old id member := absurd member (Multiset.notMem_zero id)
  hashes pair member := absurd member (Multiset.notMem_zero pair)
  nodup := iff_of_true Multiset.nodup_zero (by simp)

/-- The index can be built when no output is there twice. -/
theorem TxTables.indexAddressTable_ok {tables : TxTables} :
    tables.indexAddressTable = .ok () ↔ tables.voutIDs.Nodup := by
  unfold TxTables.indexAddressTable
  split <;> simp_all

/-- The address rows of a chain respect the index exactly when no output of it pays to two
addresses: then every block is stored in every interleaving, with the index there or
not at each of them, and the index can be built after it. Otherwise it cannot be
built after a bulk load. -/
theorem indexAddressTable_iff {chain : List MsgBlock} (valid : ∀ block ∈ chain, ValidBlock hcd block)
    (distinct : (chain.map hcd.hashOf).Nodup) :
    (∀ storings : List Storing, storings.map Storing.msgBlock = chain →
      (∀ storing ∈ storings, storing.env.TreesClean) →
      ∃ final, exec (Storing.perform hcd) ChainTables.created.tx storings = some final ∧
        final.tables.indexAddressTable = .ok ()) ↔
      ∀ block ∈ chain, BlockPaysOnce hcd block := by
  constructor
  · intro respects
    let bulk : List Storing := chain.map fun block => ⟨.noFaults [], block, false, false, false⟩
    have isChain : bulk.map Storing.msgBlock = chain := by simp [bulk, Function.comp_def]
    have clean : ∀ storing ∈ bulk, storing.env.TreesClean := by
      intro storing member
      obtain ⟨block, -, rfl⟩ := List.mem_map.mp member
      exact (StoreEnv.noFaults_clean []).toTreesClean
    have unindexed : ∀ storing ∈ bulk, storing.indexed = true → BlockPaysOnce hcd storing.msgBlock := by
      intro storing member
      obtain ⟨block, -, rfl⟩ := List.mem_map.mp member
      simp
    have validBulk : ∀ storing ∈ bulk, ValidBlock hcd storing.msgBlock := by
      intro storing member
      exact valid _ (isChain ▸ List.mem_map_of_mem member)
    obtain ⟨final, ran, built⟩ := respects bulk isChain clean
    obtain ⟨same, ranToo, ends⟩ := IndexedBy.created.exec clean validBulk unindexed
      (by simpa [isChain] using distinct)
    obtain rfl := Option.some.inj (ran.symm.trans ranToo)
    rw [List.nil_append, isChain] at ends
    exact ends.nodup.mp (TxTables.indexAddressTable_ok.mp built)
  · intro once storings isChain clean
    subst isChain
    have member : ∀ storing ∈ storings, storing.msgBlock ∈ storings.map Storing.msgBlock :=
      fun storing listed => List.mem_map_of_mem listed
    obtain ⟨final, ran, ends⟩ := IndexedBy.created.exec clean
      (fun storing listed => valid _ (member storing listed))
      (fun storing listed _ => once _ (member storing listed)) (by simpa using distinct)
    exact ⟨final, ran, TxTables.indexAddressTable_ok.mpr (ends.nodup.mpr once)⟩

end Chain

section Multisignature

/-- A block with one transaction, which pays to the addresses of a script. -/
def payingBlock (script : List UInt8) : MsgBlock :=
  ⟨Sample.header 0 0 0, [⟨1, [], [⟨100, 0, script⟩], 1, 0⟩], []⟩

/-- Store it alone, with the index there or not. -/
def storePaying (script : List UInt8) (indexed : Bool) : List Storing :=
  [⟨.noFaults [], payingBlock script, false, false, indexed⟩]

/-- The paying block is valid, since its one transaction has no inputs. -/
theorem payingBlock_valid (script : List UInt8) : ValidBlock Sample.hcd (payingBlock script) where
  regular tx member := by
    obtain rfl := List.mem_singleton.mp member
    rfl
  distinct := List.nodup_singleton _
  once tree vin member := by cases tree <;> cases member
  separate tree vin member := by cases tree <;> cases member

/-- A child of that block, with an output without an address and one with an address. -/
def payingChild : MsgBlock :=
  ⟨Sample.header 1 1 (Sample.hcd.hashOf (payingBlock [1])),
    [⟨1, [], [⟨60, 0, []⟩, ⟨40, 0, [2]⟩], 2, 0⟩], []⟩

/-- The child of the paying block is valid, since its transaction has no inputs either. -/
theorem payingChild_valid : ValidBlock Sample.hcd payingChild where
  regular tx member := by
    obtain rfl := List.mem_singleton.mp member
    rfl
  distinct := List.nodup_singleton _
  once tree vin member := by cases tree <;> cases member
  separate tree vin member := by cases tree <;> cases member

/-- The law at two blocks none of whose outputs pays to two addresses: the first is stored in
bulk, and the second while the index is there. -/
theorem indexAddressTable_single : ∃ final,
    exec (Storing.perform Sample.hcd) ChainTables.created.tx
        (storePaying [1] false ++ [⟨.noFaults [], payingChild, true, true, true⟩]) = some final ∧
      final.tables.indexAddressTable = .ok () := by
  have valid : ∀ block ∈ [payingBlock [1], payingChild], ValidBlock Sample.hcd block := by
    intro block member
    rcases List.mem_pair.mp member with rfl | rfl
    · exact payingBlock_valid [1]
    · exact payingChild_valid
  have once : ∀ block ∈ [payingBlock [1], payingChild], BlockPaysOnce Sample.hcd block := by
    rintro block member (_ | _) vout paid
    · rcases List.mem_pair.mp member with rfl | rfl
      · obtain rfl := List.mem_singleton.mp paid
        exact le_refl 1
      · rcases List.mem_pair.mp paid with rfl | rfl
        · exact Nat.zero_le 1
        · exact le_refl 1
    · rcases List.mem_pair.mp member with rfl | rfl <;> cases paid
  have clean : ∀ storing ∈ storePaying [1] false ++
      [⟨.noFaults [], payingChild, true, true, true⟩], storing.env.TreesClean := by
    intro storing member
    rcases List.mem_pair.mp member with rfl | rfl <;> exact (StoreEnv.noFaults_clean []).toTreesClean
  exact (indexAddressTable_iff valid (by decide)).mpr once _ rfl clean

/-- An output with two addresses makes two rows with its id. Stored in bulk they keep the
index from being built, and while the index is there the block is not stored. -/
theorem indexAddressTable_multisig : ValidBlock Sample.hcd (payingBlock [1, 2]) ∧
    (∃ final, exec (Storing.perform Sample.hcd) ChainTables.created.tx (storePaying [1, 2] false) =
        some final ∧ final.tables.voutIDs = {1, 1} ∧ final.tables.indexAddressTable =
          .error "pq: could not create unique index \"uix_addresses_vout_id\"") ∧
      exec (Storing.perform Sample.hcd) ChainTables.created.tx (storePaying [1, 2] true) = none := by
  refine ⟨payingBlock_valid _, ⟨_, rfl, rfl, ?_⟩, rfl⟩
  exact if_neg (by decide)

end Multisignature

end Hcexplorer.Hcpg

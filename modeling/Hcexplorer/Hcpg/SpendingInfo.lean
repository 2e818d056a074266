import Hcexplorer.Hcpg.StoredRows
import Hcexplorer.Hcpg.BlockLinks
import Hcexplorer.Hcpg.BlocksTable

/-!
# Spending information after synchronizations

The spending columns of an address row are written in two ways: with each stored
block, or by one pass over the vins table at the end of a synchronization. Each start
chooses one of them from the number of blocks that it is behind. A start that leaves
the columns to the pass, and is ended by quit, leaves its blocks to the next start,
which may choose the other way and never make the pass.

The law carries the heights of such blocks through any history of starts: the columns
of an outpoint spent at one of them are NULL, and those of every other outpoint name
its spender. So after a synchronization that finishes, spending information is
complete exactly when it made the pass, or none of the waiting blocks spends an
outpoint of the addresses table.
-/

namespace Hcexplorer.Hcpg

open Runs

section Updates

/-- The update that names an input as the spender of its outpoint. -/
def VinTxProperty.spentAs (txDbID vinDbID : Nat) (vin : VinTxProperty) : SetSpending :=
  ⟨vin.prevTxHash, vin.prevTxIndex, ⟨txDbID, vin.txID, vin.txIndex, vinDbID⟩⟩

/-- The row names the input as its spender, by its hash and index. -/
def AddressRow.Carries (vin : VinTxProperty) (row : AddressRow) : Prop :=
  ∃ spending, row.spending = some spending ∧ spending.spendingTxHash = vin.txID ∧
    spending.spendingTxVinIndex = vin.txIndex

/-- Updated address rows are those before with the updates of each. -/
theorem mem_addresses_spendAll {sets : List SetSpending} {tables : TxTables}
    {stored : Stored AddressRow} : stored ∈ (tables.spendAll sets).addresses ↔
      ∃ base ∈ tables.addresses, stored = { base with row := base.row.spendAll sets } := by
  rw [TxTables.spendAll_eq, Multiset.mem_map]
  exact exists_congr fun base => and_congr_right fun _ => eq_comm

variable {ids : TreeIds} {txs : List ExtractedTx} {updateAddressesSpendingInfo : Bool}

/-- The updates of a tree name inputs of the tree. -/
theorem mem_treeSpendings {set : SetSpending}
    (member : set ∈ treeSpendings updateAddressesSpendingInfo ids txs) :
    updateAddressesSpendingInfo = true ∧ ∃ vin ∈ inputs txs, vin.prevTxHash ≠ 0 ∧
      ∃ txDbID ∈ ids.txs, ∃ vinDbID, set = vin.spentAs txDbID vinDbID := by
  cases updateAddressesSpendingInfo with
  | false => cases member
  | true =>
    obtain ⟨⟨txDbID, each⟩, paired, ofTx⟩ := List.mem_flatMap.mp member
    obtain ⟨isTx, isKeyed⟩ := List.of_mem_zip paired
    obtain ⟨ids, _, dbtx, extracted, rfl⟩ := mem_keyedTxs isKeyed
    obtain ⟨vin, vinDbID, input, regular, rfl⟩ := mem_spendingsOf.mp ofTx
    have isInput : vin ∈ inputs txs :=
      List.mem_flatMap.mpr ⟨dbtx, extracted, (List.of_mem_zip input).1⟩
    exact ⟨rfl, vin, isInput, regular, txDbID, isTx, vinDbID, rfl⟩

/-- The updates of a tree are those of its first transaction and those of the rest. -/
theorem spendings_cons (txDbID : Nat) (rest : List Nat) (each : List Nat × List Nat)
    (outs : List (List Nat × List Nat)) (dbtx : ExtractedTx) (txs : List ExtractedTx) :
    spendings (txDbID :: rest) (keyedTxs (each :: outs) (dbtx :: txs)) =
      spendingsOf txDbID (keyedTx each dbtx) ++ spendings rest (keyedTxs outs txs) := by
  simp only [spendings, keyedTxs, List.zip_cons_cons, List.map_cons, List.flatMap_cons]

/-- The ids of inserted transactions go to the first ones of the tree: each input of those
that spends an outpoint is named by some update.

Induction on the transactions with the ids of their inputs: an input is one of the
first transaction, which the first id is for, or one of the rest. -/
theorem exists_treeSpending (fit : FitOuts ids.outs txs) {vin : VinTxProperty}
    (input : vin ∈ inputs (txs.take ids.txs.length)) (regular : vin.prevTxHash ≠ 0) :
    ∃ set ∈ treeSpendings true ids txs, set.outpoint = vin.outpoint := by
  have named : ∀ {outs : List (List Nat × List Nat)} {txs : List ExtractedTx}, FitOuts outs txs →
      ∀ {txDbIDs : List Nat}, vin ∈ inputs (txs.take txDbIDs.length) →
      ∃ set ∈ spendings txDbIDs (keyedTxs outs txs), set.outpoint = vin.outpoint := by
    intro outs txs fit
    induction fit with
    | nil =>
      intro _ input
      rw [List.take_nil] at input
      cases input
    | @cons ids dbtx outs txs lengths _ inductionHypothesis =>
      intro txDbIDs input
      cases txDbIDs with
      | nil => cases input
      | cons txDbID rest =>
        rw [spendings_cons]
        rw [List.length_cons, List.take_succ_cons, inputs, List.flatMap_cons, List.mem_append] at input
        rcases input with here | later
        · have zipped : vin ∈ (dbtx.vins.zip ids.2).map Prod.fst := by
            rw [List.map_fst_zip lengths.2.ge]
            exact here
          obtain ⟨⟨same, vinDbID⟩, paired, rfl⟩ := List.mem_map.mp zipped
          refine ⟨_, List.mem_append_left _ (mem_spendingsOf.mpr ⟨_, vinDbID, paired, regular, rfl⟩), rfl⟩
        · obtain ⟨set, member, same⟩ := inductionHypothesis later
          exact ⟨set, List.mem_append_right _ member, same⟩
  exact named fit input

/-- An address row is inserted without a spender, whichever tree it is of. -/
theorem unspent_treeRows {start : TxTables} {checked : Bool} {stored : Stored AddressRow}
    (member : stored ∈ (treeRows start checked ids txs).addresses) : stored.row.spending = none := by
  have listed := (List.of_mem_zip (mem_addresses_treeRows.mp member)).1
  obtain ⟨⟨txDbID, each⟩, paired, funded⟩ := List.mem_flatMap.mp listed
  obtain ⟨dba, paid, same⟩ := List.mem_map.mp funded
  obtain ⟨ids, _, dbtx, extracted, rfl⟩ := mem_keyedTxs (List.of_mem_zip paired).2
  obtain ⟨⟨vout, voutDbID⟩, output, made⟩ := List.mem_flatMap.mp paid
  obtain ⟨addr, _, rfl⟩ := List.mem_map.mp made
  rw [← same]

end Updates

section Chain

/-- The block spends an outpoint by an input, which a coinbase input does not. -/
def Spends (hcd : Hcd) (msgBlock : MsgBlock) (vin : VinTxProperty) : Prop :=
  vin ∈ blockVins hcd msgBlock ∧ vin.prevTxHash ≠ 0

/-- What consensus promises of a main chain: its blocks are valid, no outpoint is
spent by two of them, and none spends an output of a later one. -/
structure ValidChain (hcd : Hcd) (chain : List MsgBlock) : Prop extends MainChain hcd chain where
  valid : ∀ block ∈ chain, ValidBlock hcd block
  once : ∀ (i j : Nat) before after vin second, chain[i]? = some before → chain[j]? = some after →
    Spends hcd before vin → Spends hcd after second → vin.outpoint = second.outpoint → i = j
  ordered : ∀ (i j : Nat) before after vin vout, i < j → chain[i]? = some before →
    chain[j]? = some after → Spends hcd before vin → vout ∈ blockVouts hcd after →
    vin.outpoint ≠ vout.outpoint

/-- An input of a block is one of a tree. -/
theorem mem_blockVins {hcd : Hcd} {msgBlock : MsgBlock} {vin : VinTxProperty} :
    vin ∈ blockVins hcd msgBlock ↔ ∃ tree, vin ∈ treeVins hcd msgBlock tree := by
  rw [blockVins, List.mem_append, TxTree.exists_iff]

/-- Two inputs of a chain that spend one outpoint are one. -/
theorem ValidChain.spender_eq {hcd : Hcd} {chain : List MsgBlock} (valid : ValidChain hcd chain)
    {i j : Nat} {before after : MsgBlock} {vin second : VinTxProperty}
    (isBefore : chain[i]? = some before) (isAfter : chain[j]? = some after)
    (spends : Spends hcd before vin) (spendsToo : Spends hcd after second)
    (same : vin.outpoint = second.outpoint) : i = j ∧ vin = second := by
  have position := valid.once i j before after vin second isBefore isAfter spends spendsToo same
  subst position
  obtain rfl : before = after := Option.some.inj (isBefore.symm.trans isAfter)
  obtain ⟨tree, input⟩ := mem_blockVins.mp spends.1
  obtain ⟨other, inputToo⟩ := mem_blockVins.mp spendsToo.1
  refine ⟨rfl, ?_⟩
  exact (valid.valid before (List.mem_of_getElem? isBefore)).once tree vin input other second
    inputToo spends.2 same

/-- The tables hold the first blocks of the chain. The columns of an outpoint spent at
a deferred height are NULL, and those of an outpoint spent at another one name the
spender. -/
structure Recorded (hcd : Hcd) (chain : List MsgBlock) (deferred : List Nat) (count : Nat)
    (tx : TxDb) : Prop where
  rows : RowsOf hcd (chain.take count) tx
  carried : ∀ i block vin, i < count → chain[i]? = some block → i ∉ deferred →
    Spends hcd block vin → ∀ stored ∈ tx.tables.addresses, stored.row.outpoint = vin.outpoint →
    stored.row.Carries vin
  written : ∀ stored ∈ tx.tables.addresses, stored.row.spending ≠ none → ∃ i block vin,
    i < count ∧ chain[i]? = some block ∧ i ∉ deferred ∧ Spends hcd block vin ∧
      vin.outpoint = stored.row.outpoint
  deferred_lt : ∀ i ∈ deferred, i < count

namespace Recorded

variable {hcd : Hcd} {chain : List MsgBlock} {deferred : List Nat} {count : Nat} {tx after : TxDb}
  {checked updateAddressesSpendingInfo : Bool} {regIds stkIds : TreeIds} {msgBlock : MsgBlock}

/-- The updates of a block name its inputs, and each of them is for the outpoint that the input
spends. -/
theorem mem_blockSpendings (valid : ValidBlock hcd msgBlock) {set : SetSpending}
    (member : set ∈ treeSpendings updateAddressesSpendingInfo regIds
        (extractBlockTransactions hcd msgBlock .regular) ++
      treeSpendings updateAddressesSpendingInfo stkIds
        (extractBlockTransactions hcd msgBlock .stake)) :
    updateAddressesSpendingInfo = true ∧ ∃ vin txDbID vinDbID, Spends hcd msgBlock vin ∧
      set = vin.spentAs txDbID vinDbID := by
  rcases List.mem_append.mp member with regular | stake
  · obtain ⟨updates, vin, input, nonzero, txDbID, -, vinDbID, isSet⟩ := mem_treeSpendings regular
    rw [valid.inputs_eq] at input
    exact ⟨updates, vin, txDbID, vinDbID, ⟨mem_blockVins.mpr ⟨_, input⟩, nonzero⟩, isSet⟩
  · obtain ⟨updates, vin, input, nonzero, txDbID, -, vinDbID, isSet⟩ := mem_treeSpendings stake
    rw [valid.inputs_eq] at input
    exact ⟨updates, vin, txDbID, vinDbID, ⟨mem_blockVins.mpr ⟨_, input⟩, nonzero⟩, isSet⟩

/-- An address row of a stored block was there before, or is of the block and was
inserted without a spender. -/
theorem mem_inserted (valid : ValidBlock hcd msgBlock) {stored : Stored AddressRow}
    (member : stored ∈ (tx.tables + treeRows tx.tables checked regIds
        (extractBlockTransactions hcd msgBlock .regular) + treeRows tx.tables checked stkIds
        (extractBlockTransactions hcd msgBlock .stake)).addresses) :
    stored ∈ tx.tables.addresses ∨ stored.row.spending = none ∧
      ∃ vout ∈ blockVouts hcd msgBlock, vout.outpoint = stored.row.outpoint := by
  rw [TxTables.add_addresses, TxTables.add_addresses, Multiset.mem_add, Multiset.mem_add] at member
  rcases member with (before | regular) | stake
  · exact Or.inl before
  · have created := outpoint_treeRows regular
    rw [valid.createdBy_eq] at created
    obtain ⟨vout, output, same⟩ := List.mem_map.mp created
    exact Or.inr ⟨unspent_treeRows regular, vout, List.mem_append_left _ output, same⟩
  · have created := outpoint_treeRows stake
    rw [valid.createdBy_eq] at created
    obtain ⟨vout, output, same⟩ := List.mem_map.mp created
    exact Or.inr ⟨unspent_treeRows stake, vout, List.mem_append_right _ output, same⟩

/-- The heights that wait for the pass after the next block. -/
def deferNext (updateAddressesSpendingInfo : Bool) (deferred : List Nat) (count : Nat) : List Nat :=
  if updateAddressesSpendingInfo then deferred else deferred ++ [count]

/-- The heights that wait are those from before, and that of the block when its updates are left
out. -/
theorem mem_deferNext_iff {i : Nat} : i ∈ deferNext updateAddressesSpendingInfo deferred count ↔
    i ∈ deferred ∨ updateAddressesSpendingInfo = false ∧ i = count := by
  cases updateAddressesSpendingInfo <;> simp [deferNext]

/-- A block of the chain has another hash than those below it. -/
theorem hashOf_notMem (valid : ValidChain hcd chain) (isNext : chain[count]? = some msgBlock) :
    hcd.hashOf msgBlock ∉ (chain.take count).map hcd.hashOf := by
  have taken : chain.take (count + 1) = chain.take count ++ [msgBlock] := by
    rw [List.take_add_one, isNext]
    rfl
  have distinct : ((chain.take (count + 1)).map hcd.hashOf).Nodup :=
    valid.distinct.sublist ((List.take_sublist _ _).map _)
  rw [taken, List.map_append] at distinct
  obtain ⟨-, -, apart⟩ := List.nodup_append.mp distinct
  exact fun member => apart _ member _ (by simp) rfl

/-- When the updates of a block are not left out, some update of a tree names each of its inputs
that spends an outpoint. -/
theorem exists_blockSpending (validBlock : ValidBlock hcd msgBlock) {tree : TxTree} {ids : TreeIds}
    (fit : ids.Fit tx.tables checked (extractBlockTransactions hcd msgBlock tree))
    (unmet : ∀ pair ∈ tx.tables.txHashes, pair.2 ≠ hcd.hashOf msgBlock) {vin : VinTxProperty}
    (input : vin ∈ treeVins hcd msgBlock tree) (nonzero : vin.prevTxHash ≠ 0) :
    ∃ set ∈ treeSpendings true ids (extractBlockTransactions hcd msgBlock tree),
      set.outpoint = vin.outpoint := by
  have all : (extractBlockTransactions hcd msgBlock tree).take ids.txs.length =
      extractBlockTransactions hcd msgBlock tree := by
    apply List.take_of_length_le
    rw [fit.txs, keptTxs_new fit.outs unmet, List.length_map, length_keyedTxs fit.outs]
  apply exists_treeSpending fit.outs _ nonzero
  rw [all, validBlock.inputs_eq]
  exact input

/-- After the next block, the rows of an outpoint spent at a height that does not wait name the
spender. -/
theorem store_carried (recorded : Recorded hcd chain deferred count tx) (valid : ValidChain hcd chain)
    (isNext : chain[count]? = some msgBlock)
    (done : BlockDone tx checked updateAddressesSpendingInfo
      (extractBlockTransactions hcd msgBlock .regular)
      (extractBlockTransactions hcd msgBlock .stake) regIds stkIds after)
    {i : Nat} {block : MsgBlock} {vin : VinTxProperty} (inside : i < count + 1)
    (isBlock : chain[i]? = some block)
    (notDeferred : i ∉ deferNext updateAddressesSpendingInfo deferred count)
    (spends : Spends hcd block vin) {stored : Stored AddressRow}
    (member : stored ∈ after.tables.addresses) (same : stored.row.outpoint = vin.outpoint) :
    stored.row.Carries vin := by
  have validBlock := valid.valid msgBlock (List.mem_of_getElem? isNext)
  have unmet := recorded.rows.unmet (hashOf_notMem valid isNext)
  rw [mem_deferNext_iff, not_or, not_and] at notDeferred
  rw [done.tables, blockTables] at member
  obtain ⟨base, isBase, rfl⟩ := mem_addresses_spendAll.mp member
  rw [AddressRow.outpoint_spendAll] at same
  rcases base.row.spendAll_cases _ with ⟨set, listed, isOutpoint, ends⟩ | ⟨never, ends⟩
  · obtain ⟨-, spender, txDbID, vinDbID, spendsToo, rfl⟩ := mem_blockSpendings validBlock listed
    obtain ⟨-, rfl⟩ := valid.spender_eq isNext isBlock spendsToo spends (isOutpoint.trans same)
    rw [ends]
    exact ⟨_, rfl, rfl, rfl⟩
  · rw [ends]
    by_cases atEnd : i = count
    · -- no update named the inputs of the block itself, but one does
      subst atEnd
      obtain rfl : block = msgBlock := Option.some.inj (isBlock.symm.trans isNext)
      obtain rfl : updateAddressesSpendingInfo = true :=
        Bool.eq_true_of_not_eq_false fun leftOut => notDeferred.2 leftOut rfl
      rcases List.mem_append.mp spends.1 with regular | stake
      · obtain ⟨set, listed, isOutpoint⟩ :=
          exists_blockSpending validBlock done.regFit unmet regular spends.2
        exact absurd (isOutpoint.trans same.symm) (never set (List.mem_append_left _ listed))
      · obtain ⟨set, listed, isOutpoint⟩ :=
          exists_blockSpending validBlock done.stkFit unmet stake spends.2
        exact absurd (isOutpoint.trans same.symm) (never set (List.mem_append_right _ listed))
    · have before : i < count := by omega
      rcases mem_inserted validBlock isBase with old | ⟨-, vout, output, isOutpoint⟩
      · exact recorded.carried i block vin before isBlock notDeferred.1 spends base old same
      · exact absurd (same.symm.trans isOutpoint.symm)
          (valid.ordered i count block msgBlock vin vout before isBlock isNext spends output)

/-- After the next block, a row that names a spender is of an outpoint spent at a height that does
not wait. -/
theorem store_written (recorded : Recorded hcd chain deferred count tx) (valid : ValidChain hcd chain)
    (isNext : chain[count]? = some msgBlock)
    (done : BlockDone tx checked updateAddressesSpendingInfo
      (extractBlockTransactions hcd msgBlock .regular)
      (extractBlockTransactions hcd msgBlock .stake) regIds stkIds after)
    {stored : Stored AddressRow} (member : stored ∈ after.tables.addresses)
    (spent : stored.row.spending ≠ none) :
    ∃ i block vin, i < count + 1 ∧ chain[i]? = some block ∧
      i ∉ deferNext updateAddressesSpendingInfo deferred count ∧ Spends hcd block vin ∧
        vin.outpoint = stored.row.outpoint := by
  have validBlock := valid.valid msgBlock (List.mem_of_getElem? isNext)
  simp only [mem_deferNext_iff]
  rw [done.tables, blockTables] at member
  obtain ⟨base, isBase, rfl⟩ := mem_addresses_spendAll.mp member
  rw [AddressRow.outpoint_spendAll]
  rcases base.row.spendAll_cases _ with ⟨set, listed, isOutpoint, -⟩ | ⟨-, ends⟩
  · obtain ⟨updates, spender, txDbID, vinDbID, spends, rfl⟩ := mem_blockSpendings validBlock listed
    refine ⟨count, msgBlock, spender, Nat.lt_succ_self _, isNext, ?_, spends, isOutpoint⟩
    rintro (waiting | ⟨leftOut, -⟩)
    · exact Nat.lt_irrefl _ (recorded.deferred_lt count waiting)
    · exact Bool.false_ne_true (leftOut.symm.trans updates)
  · rw [ends] at spent
    rcases mem_inserted validBlock isBase with old | ⟨unspent, -⟩
    · obtain ⟨i, block, vin, inside, isBlock, notDeferred, spends, same⟩ :=
        recorded.written base old spent
      refine ⟨i, block, vin, Nat.lt_succ_of_lt inside, isBlock, ?_, spends, same⟩
      rintro (waiting | ⟨-, rfl⟩)
      · exact notDeferred waiting
      · exact Nat.lt_irrefl _ inside
    · exact absurd unspent spent

/-- The next block is stored, and what is recorded now includes its rows and, unless it waits,
its updates. -/
theorem store (recorded : Recorded hcd chain deferred count tx) (valid : ValidChain hcd chain)
    (isNext : chain[count]? = some msgBlock)
    (done : BlockDone tx checked updateAddressesSpendingInfo
      (extractBlockTransactions hcd msgBlock .regular)
      (extractBlockTransactions hcd msgBlock .stake) regIds stkIds after) :
    Recorded hcd chain (deferNext updateAddressesSpendingInfo deferred count) (count + 1) after where
  rows := by
    have taken : chain.take (count + 1) = chain.take count ++ [msgBlock] := by
      rw [List.take_add_one, isNext]
      rfl
    rw [taken]
    exact recorded.rows.store (valid.valid msgBlock (List.mem_of_getElem? isNext))
      (hashOf_notMem valid isNext) done
  carried _ _ _ inside isBlock notDeferred spends _ member same :=
    recorded.store_carried valid isNext done inside isBlock notDeferred spends member same
  written _ member spent := recorded.store_written valid isNext done member spent
  deferred_lt i member := by
    rcases mem_deferNext_iff.mp member with old | ⟨-, rfl⟩
    · exact Nat.lt_succ_of_lt (recorded.deferred_lt i old)
    · exact Nat.lt_succ_self _

/-- The slices of a list, joined again, are the list. -/
theorem chunks_flatten {α : Type} (all : List α) : (chunks all).flatten = all := by
  have slices : ∀ count : Nat, ((List.range count).map fun chunk =>
      (all.drop (chunk * 1000)).take 1000).flatten = all.take (count * 1000) := by
    intro count
    induction count with
    | zero => simp
    | succ count inductionHypothesis =>
      rw [List.range_succ, List.map_append, List.flatten_append, inductionHypothesis, List.map_singleton,
        List.flatten_singleton, Nat.succ_mul, List.take_add]
  rw [chunks, slices]
  apply List.take_of_length_le
  omega

/-- The pass without failures makes the update of each listed vins row. -/
theorem updateSpendingInfoInAllAddresses_eq {faults : Nat → Option String}
    (clean : ∀ index, faults index = none) (allVins : List (Stored VinTxProperty))
    (tables : TxTables) : updateSpendingInfoInAllAddresses faults allVins tables =
      tables.spendAll (allVins.filterMap bulkSpending) := by
  have passes : ∀ (slices : List (List (Stored VinTxProperty))) (first : Nat) (tables : TxTables),
      (slices.zipIdx first).foldl (fun current indexed =>
        setSpendingForVinDbIDs (faults indexed.2) indexed.1 current) tables =
      tables.spendAll (slices.flatten.filterMap bulkSpending) := by
    intro slices
    induction slices with
    | nil => intro first tables; rfl
    | cons slice rest inductionHypothesis =>
      intro first tables
      rw [List.zipIdx_cons, List.foldl_cons, inductionHypothesis, List.flatten_cons,
        List.filterMap_append, TxTables.spendAll_append]
      simp only [setSpendingForVinDbIDs, clean]
  exact (passes (chunks allVins) 0 tables).trans (by rw [chunks_flatten])

/-- The update of a vins row names it as the spender, if it spends an outpoint. -/
theorem bulkSpending_eq_some {vin : Stored VinTxProperty} {set : SetSpending} :
    bulkSpending vin = some set ↔ vin.row.prevTxHash ≠ 0 ∧ set = vin.row.spentAs 0 vin.id := by
  unfold bulkSpending
  by_cases coinbase : vin.row.prevTxHash = 0
  · simp [coinbase]
  · simp only [coinbase, if_false, Option.some.injEq, ne_eq, not_false_eq_true, true_and]
    exact eq_comm

/-- The first blocks of a chain are those at the heights below their number. -/
theorem mem_take_iff {block : MsgBlock} :
    block ∈ chain.take count ↔ ∃ i, i < count ∧ chain[i]? = some block := by
  rw [List.mem_iff_getElem?]
  refine exists_congr fun i => ?_
  rw [List.getElem?_take]
  split
  · rename_i inside
    simp [inside]
  · rename_i outside
    simp [outside]

/-- A vins row is an input of a stored block, and each of these has one. -/
theorem mem_vins (recorded : Recorded hcd chain deferred count tx) {vin : VinTxProperty} :
    (∃ stored ∈ tx.tables.vins, stored.row = vin) ↔
      ∃ i block, i < count ∧ chain[i]? = some block ∧ vin ∈ blockVins hcd block := by
  have listed : (∃ stored ∈ tx.tables.vins, stored.row = vin) ↔ vin ∈ tx.tables.vinRows :=
    Multiset.mem_map.symm
  rw [listed, recorded.rows.vins, Multiset.mem_coe, List.mem_flatMap]
  constructor
  · rintro ⟨block, isStored, input⟩
    obtain ⟨i, inside, isBlock⟩ := mem_take_iff.mp isStored
    exact ⟨i, block, inside, isBlock, input⟩
  · rintro ⟨i, block, inside, isBlock, input⟩
    exact ⟨block, mem_take_iff.mpr ⟨i, inside, isBlock⟩, input⟩

/-- The pass over all vins rows leaves no height waiting. -/
theorem populate (recorded : Recorded hcd chain deferred count tx) (valid : ValidChain hcd chain)
    {listing : List (Stored VinTxProperty)}
    (all : (listing : Multiset (Stored VinTxProperty)) = tx.tables.vins) :
    Recorded hcd chain [] count
      { tx with tables := tx.tables.spendAll (listing.filterMap bulkSpending) } := by
  have named : ∀ set ∈ listing.filterMap bulkSpending, ∃ i block vin vinDbID, i < count ∧
      chain[i]? = some block ∧ Spends hcd block vin ∧ set = vin.spentAs 0 vinDbID := by
    intro set member
    obtain ⟨vin, listed, isSet⟩ := List.mem_filterMap.mp member
    obtain ⟨nonzero, rfl⟩ := bulkSpending_eq_some.mp isSet
    have present : vin ∈ tx.tables.vins := all ▸ Multiset.mem_coe.mpr listed
    obtain ⟨i, block, inside, isBlock, input⟩ := recorded.mem_vins.mp ⟨vin, present, rfl⟩
    exact ⟨i, block, vin.row, vin.id, inside, isBlock, ⟨input, nonzero⟩, rfl⟩
  constructor
  · exact ⟨fun pair member => recorded.rows.hashes pair (TxTables.txHashes_spendAll .. ▸ member),
      (TxTables.vinRows_spendAll ..).trans recorded.rows.vins,
      (TxTables.payments_spendAll ..).trans recorded.rows.payments⟩
  · intro i block vin inside isBlock _ spends stored member same
    obtain ⟨base, isBase, rfl⟩ := mem_addresses_spendAll.mp member
    rw [AddressRow.outpoint_spendAll] at same
    rcases base.row.spendAll_cases _ with ⟨set, listed, isOutpoint, ends⟩ | ⟨never, -⟩
    · obtain ⟨j, other, spender, vinDbID, -, isOther, spendsToo, rfl⟩ := named set listed
      obtain ⟨-, rfl⟩ := valid.spender_eq isOther isBlock spendsToo spends (isOutpoint.trans same)
      rw [ends]
      exact ⟨_, rfl, rfl, rfl⟩
    · obtain ⟨row, isRow, rfl⟩ := recorded.mem_vins.mpr ⟨i, block, inside, isBlock, spends.1⟩
      have isListed : row ∈ listing := Multiset.mem_coe.mp (all ▸ isRow)
      have isSet := bulkSpending_eq_some.mpr ⟨spends.2, rfl⟩
      exact absurd same.symm (never _ (List.mem_filterMap.mpr ⟨row, isListed, isSet⟩))
  · intro stored member spent
    obtain ⟨base, isBase, rfl⟩ := mem_addresses_spendAll.mp member
    rw [AddressRow.outpoint_spendAll]
    rcases base.row.spendAll_cases _ with ⟨set, listed, isOutpoint, -⟩ | ⟨-, ends⟩
    · obtain ⟨i, block, spender, vinDbID, inside, isBlock, spends, rfl⟩ := named set listed
      exact ⟨i, block, spender, inside, isBlock, List.not_mem_nil, spends, isOutpoint⟩
    · rw [ends] at spent
      obtain ⟨i, block, vin, inside, isBlock, -, spends, same⟩ := recorded.written base isBase spent
      exact ⟨i, block, vin, inside, isBlock, List.not_mem_nil, spends, same⟩
  · intro i member
    cases member

/-- No block at a deferred height spends an outpoint of the addresses table. -/
def NothingWaits (hcd : Hcd) (chain : List MsgBlock) (deferred : List Nat) (tables : TxTables) :
    Prop :=
  ∀ i ∈ deferred, ∀ block, chain[i]? = some block → ∀ vin, Spends hcd block vin →
    ∀ stored ∈ tables.addresses, stored.row.outpoint ≠ vin.outpoint

/-- Every address row whose outpoint is an input of a stored block carries the
spender. -/
def SpendingComplete (hcd : Hcd) (chain : List MsgBlock) (count : Nat) (tables : TxTables) : Prop :=
  ∀ i block, i < count → chain[i]? = some block → ∀ vin, Spends hcd block vin →
    ∀ stored ∈ tables.addresses, stored.row.outpoint = vin.outpoint → stored.row.Carries vin

/-- Spending information is complete when nothing waits, and only then. -/
theorem complete_iff (recorded : Recorded hcd chain deferred count tx)
    (valid : ValidChain hcd chain) :
    SpendingComplete hcd chain count tx.tables ↔ NothingWaits hcd chain deferred tx.tables := by
  constructor
  · intro complete i waiting block isBlock vin spends stored member same
    obtain ⟨spending, isSpent, -⟩ :=
      complete i block (recorded.deferred_lt i waiting) isBlock vin spends stored member same
    obtain ⟨j, other, second, -, isOther, absent, spendsToo, sameToo⟩ :=
      recorded.written stored member (by simp [isSpent])
    obtain ⟨rfl, -⟩ := valid.spender_eq isOther isBlock spendsToo spends (sameToo.trans same)
    exact absent waiting
  · intro nothing i block inside isBlock vin spends stored member same
    by_cases waiting : i ∈ deferred
    · exact absurd same (nothing i waiting block isBlock vin spends stored member)
    · exact recorded.carried i block vin inside isBlock waiting spends stored member same

/-- The outpoints of the addresses table that a stored block spends are there when the
block is stored. -/
theorem nothingWaits_iff (recorded : Recorded hcd chain deferred count tx)
    (valid : ValidChain hcd chain) {waiting others : List Nat} {countBefore : Nat} {txBefore : TxDb}
    (before : Recorded hcd chain others countBefore txBefore) (grows : countBefore ≤ count)
    (old : ∀ i ∈ waiting, i < countBefore) :
    NothingWaits hcd chain waiting tx.tables ↔ NothingWaits hcd chain waiting txBefore.tables := by
  have same : ∀ {i : Nat} {block : MsgBlock} {vin : VinTxProperty}, i ∈ waiting →
      chain[i]? = some block → Spends hcd block vin →
      ((∃ stored ∈ tx.tables.addresses, stored.row.outpoint = vin.outpoint) ↔
        ∃ stored ∈ txBefore.tables.addresses, stored.row.outpoint = vin.outpoint) := by
    intro i block vin isWaiting isBlock spends
    have paid : ∀ {deferred : List Nat} {count : Nat} {tx : TxDb},
        Recorded hcd chain deferred count tx →
        ((∃ stored ∈ tx.tables.addresses, stored.row.outpoint = vin.outpoint) ↔
          ∃ payment ∈ (chain.take count).flatMap (fun block => paymentsOf (blockVouts hcd block)),
            payment.2 = vin.outpoint) := by
      intro deferred count tx recorded
      have listed : ∀ payment, payment ∈ tx.tables.payments ↔ payment ∈
          (chain.take count).flatMap (fun block => paymentsOf (blockVouts hcd block)) := by
        intro payment
        rw [recorded.rows.payments, Multiset.mem_coe]
      simp only [← listed, TxTables.payments, Multiset.mem_map]
      constructor
      · rintro ⟨stored, member, isOutpoint⟩
        exact ⟨_, ⟨stored, member, rfl⟩, isOutpoint⟩
      · rintro ⟨_, ⟨stored, member, rfl⟩, isOutpoint⟩
        exact ⟨stored, member, isOutpoint⟩
    rw [paid recorded, paid before]
    constructor
    · rintro ⟨payment, member, isOutpoint⟩
      obtain ⟨other, isStored, paidBy⟩ := List.mem_flatMap.mp member
      obtain ⟨j, -, isOther⟩ := mem_take_iff.mp isStored
      obtain ⟨vout, output, made⟩ := List.mem_flatMap.mp paidBy
      obtain ⟨addr, -, rfl⟩ := List.mem_map.mp made
      have early : ¬ i < j := by
        intro late
        exact valid.ordered i j block other vin vout late isBlock isOther spends output isOutpoint.symm
      have isOld := old i isWaiting
      have isBefore := mem_take_iff.mpr ⟨j, (by omega : j < countBefore), isOther⟩
      exact ⟨_, List.mem_flatMap.mpr ⟨other, isBefore, paidBy⟩, isOutpoint⟩
    · rintro ⟨payment, member, isOutpoint⟩
      obtain ⟨other, isStored, paidBy⟩ := List.mem_flatMap.mp member
      obtain ⟨j, inside, isOther⟩ := mem_take_iff.mp isStored
      have isAfter := mem_take_iff.mpr ⟨j, Nat.lt_of_lt_of_le inside grows, isOther⟩
      exact ⟨payment, List.mem_flatMap.mpr ⟨other, isAfter, paidBy⟩, isOutpoint⟩
  constructor
  · intro nothing i isWaiting block isBlock vin spends stored member isOutpoint
    obtain ⟨other, present, sameOutpoint⟩ :=
      (same isWaiting isBlock spends).mpr ⟨stored, member, isOutpoint⟩
    exact nothing i isWaiting block isBlock vin spends other present sameOutpoint
  · intro nothing i isWaiting block isBlock vin spends stored member isOutpoint
    obtain ⟨other, present, sameOutpoint⟩ :=
      (same isWaiting isBlock spends).mp ⟨stored, member, isOutpoint⟩
    exact nothing i isWaiting block isBlock vin spends other present sameOutpoint

end Recorded

end Chain

section Synchronization

variable {hcd : Hcd} {chain : List MsgBlock} {deferred : List Nat}

/-- `StoreBlock` without failures of the goroutines does the block to the transaction tables
and goes on to its own rows. -/
theorem ChainDB.storeBlock_rows {env : StoreEnv} (clean : env.TreesClean) {msgBlock : MsgBlock}
    (valid : ValidBlock hcd msgBlock) (isValid updateAddressesSpendingInfo : Bool) (pgb : ChainDB) :
    ∃ regIds stkIds tx counts, BlockDone pgb.db.tx pgb.dupChecks updateAddressesSpendingInfo
        (extractBlockTransactions hcd msgBlock .regular)
        (extractBlockTransactions hcd msgBlock .stake) regIds stkIds tx ∧
      let stored := (pgb.withTx tx).storeBlockRows hcd env msgBlock
        ((msgBlockToDBBlock hcd msgBlock).withTxDbIDs regIds.txs stkIds.txs) isValid
      pgb.storeBlock hcd env msgBlock isValid updateAddressesSpendingInfo =
        (stored.1.map fun _ => counts, stored.2) := by
  obtain ⟨regIds, stkIds, reg, stk, tx, isReg, isStk, ran, done⟩ :=
    pgb.storeTrees_done clean valid updateAddressesSpendingInfo
  refine ⟨regIds, stkIds, tx,
    (stk.numVins + reg.numVins, stk.numVouts + reg.numVouts), done, ?_⟩
  rcases pgb.storeBlock_cases hcd env msgBlock isValid updateAddressesSpendingInfo with
    ⟨⟨err, failed⟩ | ⟨err, failed⟩, -⟩ | ⟨regToo, stkToo, sameReg, sameStk, stored⟩
  · simp [ran] at failed
  · simp [ran] at failed
  · rw [ran] at sameReg sameStk stored
    obtain rfl := Except.ok.inj sameReg
    obtain rfl := Except.ok.inj sameStk
    rw [isReg, isStk] at stored
    exact stored

/-- `StoreBlock` without failures does the block to the transaction tables. -/
theorem ChainDB.storeBlock_done {env : StoreEnv} (clean : env.TreesClean) {msgBlock : MsgBlock}
    (valid : ValidBlock hcd msgBlock) (isValid updateAddressesSpendingInfo : Bool) (pgb : ChainDB) :
    ∃ regIds stkIds, BlockDone pgb.db.tx pgb.dupChecks updateAddressesSpendingInfo
      (extractBlockTransactions hcd msgBlock .regular)
      (extractBlockTransactions hcd msgBlock .stake) regIds stkIds
      (pgb.storeBlock hcd env msgBlock isValid updateAddressesSpendingInfo).2.db.tx := by
  obtain ⟨regIds, stkIds, tx, counts, done, stored⟩ :=
    pgb.storeBlock_rows clean valid isValid updateAddressesSpendingInfo
  refine ⟨regIds, stkIds, ?_⟩
  rw [stored, ChainDB.storeBlockRows_tx]
  exact done

/-- The heights that wait for the pass during a synchronization that found a number of
blocks. -/
def deferSince (updateAllAddresses : Bool) (deferred : List Nat) (found count : Nat) : List Nat :=
  if updateAllAddresses then deferred ++ List.range' found (count - found) else deferred

/-- One more block waits for the pass if the pass is due, and otherwise none does. -/
theorem deferNext_deferSince (updateAllAddresses : Bool) {found count : Nat} (least : found ≤ count) :
    Recorded.deferNext (!updateAllAddresses) (deferSince updateAllAddresses deferred found count) count =
      deferSince updateAllAddresses deferred found (count + 1) := by
  cases updateAllAddresses with
  | false => rfl
  | true =>
    have last : count + 1 - found = count - found + 1 := by omega
    have isCount : found + (count - found) = count := by omega
    simp only [Recorded.deferNext, deferSince, Bool.not_true, Bool.false_eq_true, if_false, if_true,
      last, List.range'_concat, Nat.one_mul, isCount, List.append_assoc]

/-- A process over tables that hold the first blocks of the chain. -/
structure Recording (hcd : Hcd) (chain : List MsgBlock) (deferred : List Nat) (pgb : ChainDB) : Prop where
  inProcess : ∃ first before opened, InProcess hcd chain first before opened pgb
  recorded : Recorded hcd chain deferred pgb.db.blocks.length pgb.db.tx

variable {pgb after : ChainDB}

/-- Whether inserts are checked does not matter to what is recorded. -/
theorem Recording.withChecks (recording : Recording hcd chain deferred pgb) (dupChecks : Bool) :
    Recording hcd chain deferred (pgb.enableDuplicateCheckOnInsert dupChecks) := by
  obtain ⟨⟨first, before, opened, inProcess⟩, recorded⟩ := recording
  exact ⟨⟨first, before, opened, inProcess.links, inProcess.opened_le, inProcess.before_lt,
    inProcess.known⟩, recorded⟩

/-- A new process over the tables knows no block. -/
theorem Recording.opened (recording : Recording hcd chain deferred pgb) :
    Recording hcd chain deferred (newChainDB pgb.db) := by
  obtain ⟨⟨first, before, opened, inProcess⟩, recorded⟩ := recording
  exact ⟨⟨first, _, _, inProcess.links.openProcess true⟩, recorded⟩

/-- `StoreBlock` of the next block records it, and keeps the earlier blocks recorded. -/
theorem Recording.storeBlock (recording : Recording hcd chain deferred pgb)
    (valid : ValidChain hcd chain) {block : MsgBlock}
    (isNext : chain[pgb.db.blocks.length]? = some block) {env : StoreEnv} (clean : env.Clean)
    (updateAddressesSpendingInfo : Bool) :
    ∃ counts after, pgb.storeBlock hcd env block true updateAddressesSpendingInfo =
        (.ok counts, after) ∧ after.db.blocks.length = pgb.db.blocks.length + 1 ∧
      Recording hcd chain (Recorded.deferNext updateAddressesSpendingInfo deferred
        pgb.db.blocks.length) after := by
  obtain ⟨⟨first, before, opened, inProcess⟩, recorded⟩ := recording
  obtain ⟨counts, after, stored, kept, length⟩ :=
    inProcess.storeBlock valid.toMainChain isNext clean updateAddressesSpendingInfo
  obtain ⟨regIds, stkIds, done⟩ := pgb.storeBlock_done clean.toTreesClean
    (valid.valid block (List.mem_of_getElem? isNext)) true updateAddressesSpendingInfo
  rw [stored] at done
  refine ⟨counts, after, stored, length, ⟨first, before, opened, kept⟩, ?_⟩
  rw [length]
  exact recorded.store valid isNext done

/-- The loop of a synchronization stores the next blocks. -/
theorem Recording.syncLoop (valid : ValidChain hcd chain) {updateAllAddresses : Bool}
    {steps : List SyncStep} (clean : ∀ step ∈ steps, step.Clean chain) {tip found : Nat}
    (inChain : tip < chain.length) (grown : found ≤ pgb.db.blocks.length)
    (recording : Recording hcd chain
      (deferSince updateAllAddresses deferred found pgb.db.blocks.length) pgb) {ended : LoopEnd}
    (ran : syncLoop hcd updateAllAddresses steps pgb.db.blocks.length tip pgb = some (ended, after)) :
    found ≤ after.db.blocks.length ∧
      Recording hcd chain (deferSince updateAllAddresses deferred found after.db.blocks.length) after ∧
      ∀ height err, ended ≠ .failed height err := by
  induction steps generalizing pgb tip with
  | nil =>
    rw [Hcpg.syncLoop] at ran
    split at ran
    · obtain ⟨rfl, rfl⟩ := Prod.mk.inj (Option.some.inj ran)
      exact ⟨grown, recording, by simp⟩
    · cases ran
  | cons step rest inductionHypothesis =>
    rw [Hcpg.syncLoop] at ran
    split at ran
    · obtain ⟨rfl, rfl⟩ := Prod.mk.inj (Option.some.inj ran)
      exact ⟨grown, recording, by simp⟩
    · rename_i notReached
      have notReached : ¬ tip < pgb.db.blocks.length := by exact_mod_cast notReached
      split at ran
      · obtain ⟨rfl, rfl⟩ := Prod.mk.inj (Option.some.inj ran)
        exact ⟨grown, recording, by simp⟩
      · have cleanStep := clean step List.mem_cons_self
        obtain ⟨nextTip, nextInChain, isBest⟩ := cleanStep.getBestBlock
        have isNext : chain[pgb.db.blocks.length]? = some chain[pgb.db.blocks.length] :=
          List.getElem?_eq_getElem (by omega)
        obtain ⟨counts, middle, stored, length, kept⟩ :=
          recording.storeBlock valid isNext cleanStep.store (!updateAllAddresses)
        rw [deferNext_deferSince updateAllAddresses grown, ← length] at kept
        rw [cleanStep.getBlock _ _ isNext] at ran
        simp only [stored, isBest] at ran
        have sameHeight : (pgb.db.blocks.length : Int) + 1 = middle.db.blocks.length := by
          rw [length]
          push_cast
          rfl
        rw [sameHeight] at ran
        exact inductionHypothesis (fun other member => clean other (List.mem_cons_of_mem _ member))
          nextInChain (by omega) kept ran

/-- A synchronization whose loop finishes goes on to what follows. -/
theorem ChainDB.syncChainDB_of_finished {env : SyncEnv} {nodeHeight height : Int} {middle : ChainDB}
    {updateAllAddresses newIndexes : Bool} (best : env.getBestBlock = .ok nodeHeight)
    (readable : env.heightDB = none) (dropped : env.deindexAll = none)
    (looped : syncLoop hcd updateAllAddresses env.steps (pgb.db.lastHeight + 1) nodeHeight
      (pgb.enableDuplicateCheckOnInsert !reindexing newIndexes nodeHeight pgb.db.lastHeight) =
        some (.finished height, middle)) :
    pgb.syncChainDB hcd env updateAllAddresses newIndexes = some (middle.finishSync env
      updateAllAddresses (reindexing newIndexes nodeHeight pgb.db.lastHeight) height) := by
  simp only [syncChainDB, best, readable, dropped, ite_self, looped, Option.map_some]

/-- A synchronization whose loop is ended by a quit ends as its loop does. -/
theorem ChainDB.syncChainDB_of_quit {env : SyncEnv} {nodeHeight height : Int} {middle : ChainDB}
    {updateAllAddresses newIndexes : Bool} (best : env.getBestBlock = .ok nodeHeight)
    (readable : env.heightDB = none) (dropped : env.deindexAll = none)
    (looped : syncLoop hcd updateAllAddresses env.steps (pgb.db.lastHeight + 1) nodeHeight
      (pgb.enableDuplicateCheckOnInsert !reindexing newIndexes nodeHeight pgb.db.lastHeight) =
        some (.quit height, middle)) :
    pgb.syncChainDB hcd env updateAllAddresses newIndexes = some (.quit height, middle) := by
  simp only [syncChainDB, best, readable, dropped, ite_self, looped, Option.map_some]

/-- The vins table is listed, and no slice of the pass fails. -/
structure SyncEnv.Rebuilds (env : SyncEnv) : Prop where
  allVins : ∃ listing, env.allVins = .ok listing ∧
    ∀ tables : TxTables, (listing tables : Multiset (Stored VinTxProperty)) = tables.vins
  chunkFaults : ∀ index, env.chunkFaults index = none

/-- The synchronization reached the node's height, so that its last part was performed. -/
def SyncEnd.isFinished : SyncEnd → Bool
  | .finished _ => true
  | .quit _ | .failed _ _ => false

/-- The heights that wait for the pass after a synchronization. -/
def deferAfter (updateAllAddresses finished : Bool) (deferred : List Nat) (found count : Nat) :
    List Nat :=
  if updateAllAddresses && finished then [] else deferSince updateAllAddresses deferred found count

/-- A synchronization without failures finishes or is ended by quit. -/
theorem Recording.syncChainDB (recording : Recording hcd chain deferred pgb)
    (valid : ValidChain hcd chain) {env : SyncEnv} (clean : env.Clean chain)
    (rebuilds : env.Rebuilds) {updateAllAddresses newIndexes : Bool} {ended : SyncEnd}
    (ran : pgb.syncChainDB hcd env updateAllAddresses newIndexes = some (ended, after)) :
    pgb.db.blocks.length ≤ after.db.blocks.length ∧
      Recording hcd chain (deferAfter updateAllAddresses ended.isFinished deferred
        pgb.db.blocks.length after.db.blocks.length) after := by
  obtain ⟨tip, inChain, isTip⟩ := clean.getBestBlock
  rcases ChainDB.syncChainDB_cases ran with ⟨-, -, early⟩ |
    ⟨nodeHeight, loopEnd, middle, best, looped, exits⟩
  · rcases early with ⟨err, unreachable⟩ | unreadable | undropped
    · rw [isTip] at unreachable
      cases unreachable
    · exact absurd clean.heightDB unreadable
    · exact absurd clean.deindexAll undropped
  · obtain rfl : (tip : Int) = nodeHeight := Except.ok.inj (isTip.symm.trans best)
    have resumed : pgb.db.lastHeight + 1 = pgb.db.blocks.length := by
      obtain ⟨first, before, opened, inProcess⟩ := recording.inProcess
      exact inProcess.links.lastHeight valid.toMainChain
    rw [resumed] at looped
    have nothingYet : deferSince updateAllAddresses deferred pgb.db.blocks.length
        pgb.db.blocks.length = deferred := by
      cases updateAllAddresses <;> simp [deferSince]
    have atStart := recording.withChecks
      (!ChainDB.reindexing newIndexes tip pgb.db.lastHeight)
    rw [← nothingYet] at atStart
    have none_stored : pgb.db.blocks.length ≤ (pgb.enableDuplicateCheckOnInsert
        (!ChainDB.reindexing newIndexes tip pgb.db.lastHeight)).db.blocks.length := Nat.le_refl _
    obtain ⟨grown, kept, noFailure⟩ :=
      Recording.syncLoop valid clean.steps inChain none_stored atStart looped
    rcases exits with ⟨height, rfl, finish⟩ | ⟨height, rfl, rfl, rfl⟩ | ⟨height, err, rfl, -, -⟩
    · obtain ⟨⟨first, before, opened, inProcess⟩, recorded⟩ := kept
      obtain ⟨_, finished, keptAfter, length⟩ := inProcess.finishSync clean updateAllAddresses
        (ChainDB.reindexing newIndexes tip pgb.db.lastHeight) height
      obtain ⟨rfl, rfl⟩ := Prod.mk.inj (finished.symm.trans finish)
      rw [length]
      refine ⟨grown, ⟨first, before, opened, keptAfter⟩, ?_⟩
      rw [length]
      cases updateAllAddresses with
      | false =>
        simp only [ChainDB.finishSync, clean.indexAll, clean.indexAddressTable, ite_self,
          Bool.false_eq_true, if_false, Prod.mk.injEq, true_and] at finish
        rw [← finish]
        exact recorded
      | true =>
        obtain ⟨listing, isListing, all⟩ := rebuilds.allVins
        simp only [ChainDB.finishSync, clean.indexAll, ite_self, if_true, Prod.mk.injEq, true_and,
          ChainDB.populateSpending, isListing,
          Recorded.updateSpendingInfoInAllAddresses_eq rebuilds.chunkFaults] at finish
        rw [← finish]
        exact recorded.populate valid (all _)
    · refine ⟨grown, ?_⟩
      have same : deferAfter updateAllAddresses (SyncEnd.quit height).isFinished deferred
          pgb.db.blocks.length after.db.blocks.length =
          deferSince updateAllAddresses deferred pgb.db.blocks.length after.db.blocks.length := by
        simp [deferAfter, SyncEnd.isFinished]
      rw [same]
      exact kept
    · exact absurd rfl (noFailure height err)

end Synchronization

section History

/-- A synchronization as `mainCore` starts it: in a new process, with the flags that it
chooses from the node's height, or once more in the same process with both flags off,
when the two databases ended at different heights. -/
inductive SyncStart where
  | process (height : Int) (env : SyncEnv)
  | again (env : SyncEnv)

/-- What is decided outside of the synchronization: the answers of the node and the failures. -/
def SyncStart.env : SyncStart → SyncEnv
  | .process _ env => env
  | .again env => env

/-- The flags of the synchronization, if it takes place. -/
def SyncStart.flags (db : ChainTables) : SyncStart → Option (Bool × Bool)
  | .process height _ => chooseFlags height db.heightDB
  | .again _ => some (false, false)

/-- The ChainDB that the synchronization is given, newly opened in a new process. -/
def SyncStart.opened (pgb : ChainDB) : SyncStart → ChainDB
  | .process _ _ => newChainDB pgb.db
  | .again _ => pgb

/-- The synchronizations so far: what they left, whether the last one finished, and,
for the law only, the heights whose blocks wait for a pass over the vins table. -/
structure SyncHistory where
  pgb : ChainDB
  finished : Bool
  deferred : List Nat

/-- No synchronization has been made yet, over the tables as they are created. -/
def SyncHistory.created : SyncHistory := ⟨newChainDB .created, false, []⟩

/-- The history with what a synchronization left, and with the heights that wait after it. -/
def SyncHistory.ended (history : SyncHistory) (updateAllAddresses : Bool) (ended : SyncEnd)
    (pgb : ChainDB) : SyncHistory where
  pgb := pgb
  finished := ended.isFinished
  deferred := deferAfter updateAllAddresses ended.isFinished history.deferred
    history.pgb.db.blocks.length pgb.db.blocks.length

/-- Synchronize with the flags of a start, if it has some and the synchronization ends. -/
def SyncHistory.synchronize (hcd : Hcd) (history : SyncHistory) (start : SyncStart) :
    Option SyncHistory :=
  (start.flags history.pgb.db).bind fun flags =>
    ((start.opened history.pgb).syncFromMain hcd start.env flags.1 flags.2).map fun result =>
      history.ended flags.1 result.1 result.2

/-- One more synchronization. It is repeated only when it finished. -/
def SyncHistory.step (hcd : Hcd) (history : SyncHistory) : SyncStart → Option SyncHistory
  | .process height env => history.synchronize hcd (.process height env)
  | .again env => if history.finished then history.synchronize hcd (.again env) else none

/-- The synchronization leaves the spending columns to the pass at its end. -/
def SyncStart.MakesPass (db : ChainTables) (start : SyncStart) : Prop :=
  ∃ newPGIndexes, start.flags db = some (true, newPGIndexes)

/-- The node follows the chain, and no statement fails. -/
structure SyncStart.Clean (chain : List MsgBlock) (start : SyncStart) : Prop where
  clean : start.env.Clean chain
  rebuilds : start.env.Rebuilds

variable {hcd : Hcd} {chain : List MsgBlock} {history after : SyncHistory} {start : SyncStart}

/-- What a synchronization does: it has flags, ends, and leaves the history with its result. -/
theorem SyncHistory.step_cases (taken : history.step hcd start = some after) :
    ∃ updateAllAddresses newPGIndexes ended,
      start.flags history.pgb.db = some (updateAllAddresses, newPGIndexes) ∧
      (start.opened history.pgb).syncChainDB hcd start.env updateAllAddresses newPGIndexes =
        some (ended, after.pgb) ∧
      after.finished = ended.isFinished ∧
      after.deferred = deferAfter updateAllAddresses ended.isFinished history.deferred
        history.pgb.db.blocks.length after.pgb.db.blocks.length := by
  have ran : history.synchronize hcd start = some after := by
    cases start with
    | process height env => exact taken
    | again env =>
      rw [SyncHistory.step] at taken
      split at taken
      · exact taken
      · cases taken
  obtain ⟨⟨updateAllAddresses, newPGIndexes⟩, isFlags, synchronized⟩ := Option.bind_eq_some_iff.mp ran
  obtain ⟨⟨ended, pgb⟩, finished, rfl⟩ := Option.map_eq_some_iff.mp synchronized
  exact ⟨updateAllAddresses, newPGIndexes, ended, isFlags, finished, rfl, rfl⟩

/-- What a history records holds of its tables, with the blocks that wait left out. -/
def SyncHistory.Holds (hcd : Hcd) (chain : List MsgBlock) (history : SyncHistory) : Prop :=
  Recording hcd chain history.deferred history.pgb

/-- One more synchronization without failures keeps what is recorded and takes no block away. -/
theorem SyncHistory.Holds.step (valid : ValidChain hcd chain) (holds : history.Holds hcd chain)
    (clean : start.Clean chain) (taken : history.step hcd start = some after) :
    history.pgb.db.blocks.length ≤ after.pgb.db.blocks.length ∧ after.Holds hcd chain := by
  obtain ⟨updateAllAddresses, newPGIndexes, ended, -, synchronized, -, deferred⟩ :=
    SyncHistory.step_cases taken
  have opened : Recording hcd chain history.deferred (start.opened history.pgb) := by
    cases start with
    | process height env => exact Recording.opened holds
    | again env => exact holds
  have sameTables : (start.opened history.pgb).db = history.pgb.db := by cases start <;> rfl
  obtain ⟨grows, kept⟩ := opened.syncChainDB valid clean.clean clean.rebuilds synchronized
  rw [sameTables] at grows kept
  rw [SyncHistory.Holds, deferred]
  exact ⟨grows, kept⟩

/-- Nothing is recorded at first, so that it holds of the created tables. -/
theorem SyncHistory.Holds.created : SyncHistory.created.Holds hcd chain := by
  have links : Links hcd chain 1 [] ChainTables.created := by
    refine ⟨?_, ?_, ?_, ?_, ?_, ?_⟩ <;> simp [ChainTables.created]
  refine ⟨⟨1, [], 0, links.openProcess true⟩, RowsOf.created, ?_, ?_, ?_⟩
  · intro i block vin inside
    cases inside
  · intro stored member
    exact absurd member (Multiset.notMem_zero stored)
  · intro i member
    cases member

/-- A history without failures records its blocks, whatever its synchronizations and quits. -/
theorem SyncHistory.Holds.exec (valid : ValidChain hcd chain) {starts : List SyncStart}
    (clean : ∀ start ∈ starts, start.Clean chain)
    (ran : Runs.exec (SyncHistory.step hcd) .created starts = some history) :
    history.Holds hcd chain := by
  exact exec_invariant (SyncHistory.Holds hcd chain)
    (fun history start next holds clean taken => (holds.step valid clean taken).2)
    SyncHistory.Holds.created (admitted_of_mem clean _) ran

/-- After a synchronization that finishes, spending information is complete exactly
when it made the pass over the vins table, or no block that waits for one spends an
outpoint of the addresses table. -/
theorem spendingComplete_iff (valid : ValidChain hcd chain) {starts : List SyncStart}
    (clean : ∀ start ∈ starts, start.Clean chain)
    (ran : Runs.exec (SyncHistory.step hcd) .created starts = some history)
    (cleanLast : start.Clean chain) (taken : history.step hcd start = some after)
    (finished : after.finished = true) :
    Recorded.SpendingComplete hcd chain after.pgb.db.blocks.length after.pgb.db.tx.tables ↔
      start.MakesPass history.pgb.db ∨
        Recorded.NothingWaits hcd chain history.deferred history.pgb.db.tx.tables := by
  have holds := SyncHistory.Holds.exec valid clean ran
  obtain ⟨grows, holdsAfter⟩ := holds.step valid cleanLast taken
  obtain ⟨updateAllAddresses, newPGIndexes, ended, isFlags, -, isEnd, deferred⟩ :=
    SyncHistory.step_cases taken
  rw [finished] at isEnd
  rw [← isEnd] at deferred
  rw [holdsAfter.recorded.complete_iff valid]
  cases updateAllAddresses with
  | true =>
    have nothing : after.deferred = [] := deferred
    rw [nothing]
    refine iff_of_true ?_ (Or.inl ⟨newPGIndexes, isFlags⟩)
    intro i member
    cases member
  | false =>
    have same : after.deferred = history.deferred := deferred
    have noPass : ¬ start.MakesPass history.pgb.db := by
      rintro ⟨_, isPass⟩
      cases isFlags.symm.trans isPass
    rw [same, holdsAfter.recorded.nothingWaits_iff valid holds.recorded grows
      holds.recorded.deferred_lt]
    exact (or_iff_right noPass).symm

end History

section Samples

/-- A transaction that pays to an address and spends nothing. -/
def payingTx : MsgTx := ⟨1, [⟨⟨0, 0xffffffff, 0⟩, 0, 0, 0, 0, []⟩], [⟨100, 0, [1]⟩], 1, 0⟩

/-- A transaction that spends the output of the paying one. -/
def spendingTx : MsgTx := ⟨1, [⟨⟨Sample.hcd.txHash payingTx, 0, 0⟩, 0, 100, 0, 0, []⟩], [], 2, 0⟩

/-- The block at a height: the genesis block pays, its child spends, the others have no
transactions. -/
def spendBlock (height : Nat) : MsgBlock :=
  ⟨Sample.header (UInt32.ofNat height) (UInt32.ofNat height)
      (if height = 0 then 0 else BitVec.ofNat 256 height),
    if height = 0 then [payingTx] else if height = 1 then [spendingTx] else [], []⟩

/-- A chain of such blocks, of which the first pays and the second spends. -/
def spendChain (count : Nat) : List MsgBlock := (List.range count).map spendBlock

/-- The block at a position of the sample chain is the one of that height. -/
theorem getElem?_spendChain {count i : Nat} {block : MsgBlock} :
    (spendChain count)[i]? = some block ↔ i < count ∧ block = spendBlock i := by
  rw [spendChain, List.getElem?_map]
  by_cases inside : i < count
  · rw [List.getElem?_range inside]
    simp [inside, eq_comm]
  · rw [List.getElem?_eq_none (by simpa using inside)]
    simp [inside]

/-- The input of the spending transaction, as a row of the vins table. -/
def spendingVin : VinTxProperty := ⟨Sample.hcd.txHash spendingTx, 0, 0, Sample.hcd.txHash payingTx, 0, 0⟩

/-- Only the block at height one spends an outpoint. -/
theorem spends_spendBlock {height : Nat} {vin : VinTxProperty} :
    Spends Sample.hcd (spendBlock height) vin ↔ height = 1 ∧ vin = spendingVin := by
  rcases height with _ | _ | height
  · constructor
    · rintro ⟨input, regular⟩
      obtain rfl : vin = ⟨Sample.hcd.txHash payingTx, 0, 0, 0, 0xffffffff, 0⟩ :=
        List.mem_singleton.mp input
      exact absurd rfl regular
    · rintro ⟨⟨⟩, -⟩
  · constructor
    · rintro ⟨input, -⟩
      exact ⟨rfl, List.mem_singleton.mp input⟩
    · rintro ⟨-, rfl⟩
      exact ⟨List.mem_singleton.mpr rfl, by decide⟩
  · constructor
    · rintro ⟨input, -⟩
      cases input
    · rintro ⟨isOne, -⟩
      omega

/-- Only the genesis block of the sample chain has an output. -/
theorem mem_vouts_spendBlock {height : Nat} {tree : TxTree} {vout : Vout}
    (output : vout ∈ treeVouts Sample.hcd (spendBlock height) tree) : height = 0 := by
  rcases height with _ | _ | height
  · rfl
  · cases tree <;> cases output
  · cases tree <;> cases output

/-- The blocks of the sample chain are valid. -/
theorem spendBlock_valid (height : Nat) : ValidBlock Sample.hcd (spendBlock height) where
  regular tx member := by
    rcases height with _ | _ | height
    · obtain rfl := List.mem_singleton.mp member
      rfl
    · obtain rfl := List.mem_singleton.mp member
      rfl
    · cases member
  distinct := by
    rcases height with _ | _ | height
    · exact List.nodup_singleton _
    · exact List.nodup_singleton _
    · exact List.nodup_nil
  once tree vin input other second inputToo regular same := by
    have isOne := spends_spendBlock.mp ⟨mem_blockVins.mpr ⟨tree, input⟩, regular⟩
    have sameHash : vin.prevTxHash = second.prevTxHash := congrArg Prod.fst same
    have regularToo : second.prevTxHash ≠ 0 := sameHash ▸ regular
    have isOneToo := spends_spendBlock.mp ⟨mem_blockVins.mpr ⟨other, inputToo⟩, regularToo⟩
    rw [isOne.2, isOneToo.2]
  separate tree vin input other vout output regular _ := by
    have isOne := spends_spendBlock.mp ⟨mem_blockVins.mpr ⟨tree, input⟩, regular⟩
    have isZero := mem_vouts_spendBlock output
    omega

/-- The sample chain is valid when its heights fit their field. -/
theorem spendChain_valid {count : Nat} (positive : 0 < count) (fits : count ≤ 2 ^ 32) :
    ValidChain Sample.hcd (spendChain count) := by
  have height : ∀ {i : Nat}, i < count → (UInt32.ofNat i).toNat = i := by
    intro i inside
    exact UInt32.toNat_ofNat_of_lt' (Nat.lt_of_lt_of_le inside fits)
  have hashOf : ∀ {i : Nat}, i < count →
      Sample.hcd.hashOf (spendBlock i) = BitVec.ofNat 256 (i + 1) := by
    intro i inside
    show BitVec.ofNat 256 ((UInt32.ofNat i).toNat + 1) = _
    rw [height inside]
  have small : ∀ {i : Nat}, i ≤ count → (BitVec.ofNat 256 i).toNat = i := by
    intro i inside
    rw [BitVec.toNat_ofNat]
    exact Nat.mod_eq_of_lt (by omega)
  have length : (spendChain count).length = count := by simp [spendChain]
  have found : ∀ {i : Nat} (inside : i < (spendChain count).length),
      (spendChain count)[i] = spendBlock i := by
    intro i inside
    exact (getElem?_spendChain.mp (List.getElem?_eq_getElem inside)).2
  refine ⟨⟨⟨?_, ?_, ?_⟩, ?_, ?_⟩, ?_, ?_, ?_⟩
  · intro empty
    rw [empty] at length
    exact absurd length (Nat.ne_of_lt positive)
  · intro first isFirst
    rw [List.head?_eq_getElem?] at isFirst
    obtain ⟨-, rfl⟩ := getElem?_spendChain.mp isFirst
    rfl
  · refine List.isChain_iff_getElem.mpr fun i inside => ?_
    rw [found, found]
    rw [length] at inside
    refine ⟨?_, ?_⟩
    · show (if i + 1 = 0 then 0 else BitVec.ofNat 256 (i + 1)) = Sample.hcd.hashOf (spendBlock i)
      rw [if_neg (Nat.succ_ne_zero i), hashOf (Nat.lt_of_succ_lt inside)]
    · show ((UInt32.ofNat (i + 1)).toNat : Int) = ((UInt32.ofNat i).toNat : Int) + 1
      rw [height inside, height (Nat.lt_of_succ_lt inside)]
      push_cast
      rfl
  · rw [List.nodup_iff_injective_getElem]
    rintro ⟨i, insideI⟩ ⟨j, insideJ⟩ same
    rw [List.length_map, length] at insideI insideJ
    simp only [List.getElem_map, found, hashOf insideI, hashOf insideJ] at same
    have sameNat := congrArg BitVec.toNat same
    rw [small (by omega), small (by omega)] at sameNat
    exact Fin.ext (Nat.succ.inj sameNat)
  · intro genesis isGenesis block member same
    rw [List.head?_eq_getElem?] at isGenesis
    obtain ⟨-, rfl⟩ := getElem?_spendChain.mp isGenesis
    obtain ⟨i, isBlock⟩ := List.mem_iff_getElem?.mp member
    obtain ⟨inside, rfl⟩ := getElem?_spendChain.mp isBlock
    rw [hashOf inside] at same
    have sameNat : (BitVec.ofNat 256 (i + 1)).toNat = (0 : BitVec 256).toNat := congrArg BitVec.toNat same
    rw [small (by omega)] at sameNat
    exact absurd sameNat (Nat.succ_ne_zero i)
  · intro block member
    obtain ⟨i, isBlock⟩ := List.mem_iff_getElem?.mp member
    obtain ⟨-, rfl⟩ := getElem?_spendChain.mp isBlock
    exact spendBlock_valid i
  · intro i j before after vin second isBefore isAfter spends spendsToo _
    obtain ⟨-, rfl⟩ := getElem?_spendChain.mp isBefore
    obtain ⟨-, rfl⟩ := getElem?_spendChain.mp isAfter
    exact (spends_spendBlock.mp spends).1.trans (spends_spendBlock.mp spendsToo).1.symm
  · intro i j before after vin vout earlier _ isAfter _ output
    obtain ⟨-, rfl⟩ := getElem?_spendChain.mp isAfter
    have isZero : j = 0 := by
      rcases List.mem_append.mp output with regular | stake
      · exact mem_vouts_spendBlock regular
      · exact mem_vouts_spendBlock stake
    omega

/-- Some passes toward a height, and then quit, if it is to come. -/
def stepsToward (chain : List MsgBlock) (tip passes : Nat) (quits : Bool) : List SyncStep :=
  List.replicate passes (passToward chain tip) ++
    if quits then [{ passToward chain tip with quit := true }] else []

/-- A synchronization toward a height with a number of passes, at whose end it may be told to
quit. -/
noncomputable def syncToward (chain : List MsgBlock) (tip passes : Nat) (quits : Bool) : SyncEnv :=
  ⟨.ok tip, none, none, stepsToward chain tip passes quits, none, none,
    .ok fun tables => tables.vins.toList, fun _ => none⟩

variable {hcd : Hcd} {chain : List MsgBlock} {deferred : List Nat} {pgb : ChainDB} {tip passes : Nat}
  {quits : Bool}

/-- No statement of such a synchronization fails, and its pass has all inputs. -/
theorem syncToward_clean (inChain : tip < chain.length) (passes : Nat) (quits : Bool) :
    (syncToward chain tip passes quits).Clean chain ∧ (syncToward chain tip passes quits).Rebuilds := by
  have cleanPass : ∀ quit, SyncStep.Clean chain { passToward chain tip with quit := quit } := by
    intro quit
    refine ⟨StoreEnv.noFaults_clean [], ?_, tip, inChain, rfl⟩
    intro i block found
    simp [passToward, found]
  refine ⟨⟨⟨tip, inChain, rfl⟩, rfl, rfl, rfl, rfl, ?_⟩, ⟨_, rfl, fun tables => ?_⟩, fun _ => rfl⟩
  · intro step member
    rcases List.mem_append.mp member with pass | last
    · obtain rfl := List.eq_of_mem_replicate pass
      exact cleanPass false
    · cases quits with
      | false => cases last
      | true =>
        obtain rfl := List.mem_singleton.mp last
        exact cleanPass true
  · exact Multiset.coe_toList tables.vins

/-- Passes toward a height store as many blocks, where there is room for them. -/
theorem Recording.storePasses (recording : Recording hcd chain deferred pgb) (valid : ValidChain hcd chain)
    (inChain : tip < chain.length) (updateAllAddresses : Bool) (rest : List SyncStep)
    (room : pgb.db.blocks.length + passes ≤ tip + 1) :
    ∃ deferredAfter after, Recording hcd chain deferredAfter after ∧
      after.db.blocks.length = pgb.db.blocks.length + passes ∧
      Hcpg.syncLoop hcd updateAllAddresses (List.replicate passes (passToward chain tip) ++ rest)
          pgb.db.blocks.length tip pgb =
        Hcpg.syncLoop hcd updateAllAddresses rest after.db.blocks.length tip after := by
  induction passes generalizing pgb deferred with
  | zero => exact ⟨deferred, pgb, recording, rfl, rfl⟩
  | succ passes inductionHypothesis =>
    have isNext : chain[pgb.db.blocks.length]? = some chain[pgb.db.blocks.length] :=
      List.getElem?_eq_getElem (by omega)
    obtain ⟨counts, middle, stored, length, kept⟩ :=
      recording.storeBlock valid isNext (StoreEnv.noFaults_clean []) (!updateAllAddresses)
    obtain ⟨deferredAfter, after, keptAfter, lengthAfter, continued⟩ :=
      inductionHypothesis kept (by omega)
    refine ⟨deferredAfter, after, keptAfter, by omega, ?_⟩
    have notReached : ¬ (tip : Int) < pgb.db.blocks.length := by
      have inside : pgb.db.blocks.length ≤ tip := by omega
      exact_mod_cast Nat.not_lt.mpr inside
    have sameHeight : (pgb.db.blocks.length : Int) + 1 = middle.db.blocks.length := by
      rw [length]
      push_cast
      rfl
    rw [List.replicate_succ, List.cons_append, Hcpg.syncLoop, if_neg notReached, ← continued,
      ← sameHeight]
    simp only [passToward, Bool.false_eq_true, if_false, Int.toNat_natCast, isNext,
      Option.elim_some, stored]

/-- A synchronization ends after these passes: by quit before the height is reached, or at the
height. -/
theorem Recording.syncToward (recording : Recording hcd chain deferred pgb)
    (valid : ValidChain hcd chain) (inChain : tip < chain.length) (updateAllAddresses newIndexes : Bool)
    (room : if quits then pgb.db.blocks.length + passes ≤ tip
      else pgb.db.blocks.length + passes = tip + 1) :
    ∃ ended after, pgb.syncChainDB hcd (syncToward chain tip passes quits) updateAllAddresses newIndexes =
        some (ended, after) ∧ ended.isFinished = !quits ∧
      after.db.blocks.length = pgb.db.blocks.length + passes := by
  have resumed : pgb.db.lastHeight + 1 = pgb.db.blocks.length := by
    obtain ⟨first, before, opened, inProcess⟩ := recording.inProcess
    exact inProcess.links.lastHeight valid.toMainChain
  have opened := recording.withChecks (!ChainDB.reindexing newIndexes tip pgb.db.lastHeight)
  have enough : pgb.db.blocks.length + passes ≤ tip + 1 := by split at room <;> omega
  obtain ⟨_, middle, kept, length, looped⟩ := opened.storePasses valid inChain updateAllAddresses
    (if quits then [{ passToward chain tip with quit := true }] else []) enough
  have count : middle.db.blocks.length = pgb.db.blocks.length + passes := length
  have fromHere : Hcpg.syncLoop hcd updateAllAddresses (stepsToward chain tip passes quits)
      (pgb.db.lastHeight + 1) tip (pgb.enableDuplicateCheckOnInsert
        !ChainDB.reindexing newIndexes tip pgb.db.lastHeight) =
      Hcpg.syncLoop hcd updateAllAddresses
        (if quits then [{ passToward chain tip with quit := true }] else [])
        middle.db.blocks.length tip middle := by
    rw [resumed]
    exact looped
  have clean : (Hcpg.syncToward chain tip passes quits).Clean chain := (syncToward_clean inChain passes quits).1
  obtain ⟨first, before, position, inProcess⟩ := kept.inProcess
  obtain ⟨after, finished, -, lengthAfter⟩ := inProcess.finishSync clean updateAllAddresses
    (ChainDB.reindexing newIndexes tip pgb.db.lastHeight) tip
  cases quits with
  | true =>
    have notReached : ¬ (tip : Int) < middle.db.blocks.length := by
      have inside : middle.db.blocks.length ≤ tip := by
        rw [count]
        exact room
      exact_mod_cast Nat.not_lt.mpr inside
    rw [if_pos rfl, Hcpg.syncLoop, if_neg notReached] at fromHere
    exact ⟨_, middle, ChainDB.syncChainDB_of_quit rfl rfl rfl fromHere, rfl, count⟩
  | false =>
    have reached : (tip : Int) < middle.db.blocks.length := by
      have outside : tip < middle.db.blocks.length := by
        rw [count]
        have all : pgb.db.blocks.length + passes = tip + 1 := room
        omega
      exact_mod_cast outside
    rw [if_neg Bool.false_ne_true, Hcpg.syncLoop, if_pos reached] at fromHere
    exact ⟨_, after, (ChainDB.syncChainDB_of_finished rfl rfl rfl fromHere).trans (congrArg some finished),
      rfl, lengthAfter.trans count⟩

/-- A process that starts so ends, by the quit or at the node's height, with as many more blocks
as it has passes. -/
theorem SyncHistory.Holds.stepToward {history : SyncHistory} (holds : history.Holds hcd chain)
    (valid : ValidChain hcd chain) (inChain : tip < chain.length) (passes : Nat) (quits : Bool)
    (height : Int) {updateAllAddresses newPGIndexes : Bool} (isFlags : chooseFlags height history.pgb.db.heightDB =
      some (updateAllAddresses, newPGIndexes))
    (room : if quits then history.pgb.db.blocks.length + passes ≤ tip
      else history.pgb.db.blocks.length + passes = tip + 1) :
    ∃ after, history.step hcd (.process height (syncToward chain tip passes quits)) = some after ∧
      after.finished = (!quits) ∧
      after.pgb.db.blocks.length = history.pgb.db.blocks.length + passes ∧
      after.deferred = deferAfter updateAllAddresses (!quits) history.deferred
        history.pgb.db.blocks.length (history.pgb.db.blocks.length + passes) := by
  obtain ⟨ended, pgb, ran, isEnd, length⟩ :=
    (Recording.opened holds).syncToward valid inChain updateAllAddresses newPGIndexes room
  refine ⟨history.ended updateAllAddresses ended pgb, ?_, isEnd, length, ?_⟩
  · simp only [SyncHistory.step, SyncHistory.synchronize, SyncStart.flags, isFlags, Option.bind_some,
      SyncStart.opened, SyncStart.env, ChainDB.syncFromMain_eq]
    exact congrArg (Option.map _) ran
  · rw [SyncHistory.ended, isEnd, length]
    rfl

/-- The height of the tables of a history is that of its last block, and none without blocks. -/
theorem SyncHistory.Holds.heightDB {history : SyncHistory} (holds : history.Holds hcd chain)
    (valid : ValidChain hcd chain) : history.pgb.db.heightDB =
      if history.pgb.db.blocks.length = 0 then none else some (history.pgb.db.blocks.length - 1) := by
  obtain ⟨first, before, opened, inProcess⟩ := holds.inProcess
  exact inProcess.links.heightDB valid.toMainChain

/-- The law at one process that stores two blocks: the output of the genesis block is
spent. -/
theorem spendingComplete_one_process : ∃ after,
    SyncHistory.created.step Sample.hcd (.process 1 (syncToward (spendChain 2) 1 2 false)) = some after ∧
      Recorded.SpendingComplete Sample.hcd (spendChain 2) after.pgb.db.blocks.length
        after.pgb.db.tx.tables := by
  have valid : ValidChain Sample.hcd (spendChain 2) := spendChain_valid (by decide) (by decide)
  have inChain : 1 < (spendChain 2).length := by decide
  have created : SyncHistory.created.Holds Sample.hcd (spendChain 2) := SyncHistory.Holds.created
  have flags : chooseFlags 1 SyncHistory.created.pgb.db.heightDB = some (false, false) := by decide
  obtain ⟨after, taken, finished, -⟩ := created.stepToward valid inChain 2 false 1 flags (by decide)
  have clean : (SyncStart.process 1 (syncToward (spendChain 2) 1 2 false)).Clean (spendChain 2) :=
    ⟨(syncToward_clean inChain 2 false).1, (syncToward_clean inChain 2 false).2⟩
  have noStarts : ∀ start ∈ ([] : List SyncStart), start.Clean (spendChain 2) := by simp
  refine ⟨after, taken, ?_⟩
  refine (spendingComplete_iff valid noStarts rfl clean taken finished).mpr (Or.inr ?_)
  intro i member
  cases member

/-- A process that is 7502 blocks behind leaves spending information to the pass at its
end, stores three blocks and is ended by quit. The next one is 7500 blocks behind and
makes no pass: the output spent at height one stays unspent in the addresses table. -/
theorem spendingComplete_not_after_quit :
    let chain := spendChain 7503
    let starts : List SyncStart :=
      [.process 7502 (syncToward chain 7502 3 true), .process 7502 (syncToward chain 7502 7500 false)]
    ValidChain Sample.hcd chain ∧ (∀ start ∈ starts, start.Clean chain) ∧
      ∃ after, Runs.exec (SyncHistory.step Sample.hcd) .created starts = some after ∧
        after.finished = true ∧ ¬ Recorded.SpendingComplete Sample.hcd chain
          after.pgb.db.blocks.length after.pgb.db.tx.tables := by
  intro chain starts
  have length : chain.length = 7503 := by simp [chain, spendChain]
  have inChain : 7502 < chain.length := by omega
  have valid : ValidChain Sample.hcd chain := spendChain_valid (by decide) (by decide)
  have cleanStart : ∀ (passes : Nat) (quits : Bool),
      (SyncStart.process 7502 (syncToward chain 7502 passes quits)).Clean chain := fun passes quits =>
    ⟨(syncToward_clean inChain passes quits).1, (syncToward_clean inChain passes quits).2⟩
  have clean : ∀ start ∈ starts, start.Clean chain := by
    intro start member
    rcases List.mem_cons.mp member with rfl | later
    · exact cleanStart 3 true
    · obtain rfl := List.mem_singleton.mp later
      exact cleanStart 7500 false
  refine ⟨valid, clean, ?_⟩
  have created : SyncHistory.created.Holds Sample.hcd chain := SyncHistory.Holds.created
  have bulk : chooseFlags 7502 SyncHistory.created.pgb.db.heightDB = some (true, false) := by decide
  obtain ⟨middle, first, -, count, waiting⟩ :=
    created.stepToward valid inChain 3 true 7502 bulk (by decide)
  have three : middle.pgb.db.blocks.length = 3 := count
  have holds := (created.step valid (cleanStart 3 true) first).2
  have behind : chooseFlags 7502 middle.pgb.db.heightDB = some (false, false) := by
    rw [holds.heightDB valid, three]
    decide
  have room : middle.pgb.db.blocks.length + 7500 = 7502 + 1 := by omega
  obtain ⟨after, second, finished, total, stillWaiting⟩ :=
    holds.stepToward valid inChain 7500 false 7502 behind room
  have holdsAfter := (holds.step valid (cleanStart 7500 false) second).2
  refine ⟨after, ?_, finished, ?_⟩
  · rw [Runs.exec, first, Option.bind_some, Runs.exec, second]
    rfl
  · intro complete
    have deferred : after.deferred = [0, 1, 2] := stillWaiting.trans waiting
    have isSpender : chain[1]? = some (spendBlock 1) := getElem?_spendChain.mpr ⟨by decide, rfl⟩
    have isGenesis : chain[0]? = some (spendBlock 0) := getElem?_spendChain.mpr ⟨by decide, rfl⟩
    have spends : Spends Sample.hcd (spendBlock 1) spendingVin := spends_spendBlock.mpr ⟨rfl, rfl⟩
    have paid : ("1", spendingVin.outpoint) ∈ after.pgb.db.tx.tables.payments := by
      rw [holdsAfter.recorded.rows.payments, Multiset.mem_coe]
      refine List.mem_flatMap.mpr ⟨spendBlock 0, Recorded.mem_take_iff.mpr ⟨0, ?_, isGenesis⟩, ?_⟩
      · omega
      · decide
    obtain ⟨stored, member, isPayment⟩ := Multiset.mem_map.mp paid
    exact (holdsAfter.recorded.complete_iff valid).mp complete 1 (by simp [deferred]) _ isSpender _
      spends stored member (congrArg Prod.snd isPayment)

end Samples

end Hcexplorer.Hcpg

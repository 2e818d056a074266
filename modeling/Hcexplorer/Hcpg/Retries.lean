import Hcexplorer.Hcpg.EarlyFailures
import Hcexplorer.Hcpg.StoreInterleavings

/-!
# Storing a block again after a failure

A call of `StoreBlock` that failed is followed by others for the same block, the last one
without failures. When every failing statement falls into the first database transaction of
each tree, nothing was committed by the calls that failed: the tables end the same, up to
row ids, as those of a run in which nothing failed. Each call after a failure was handed
other ids than the run it is compared with, so the comparison carries a permutation of ids
from block to block.

A failure after the first commit leaves the outputs that were committed, and their INSERT
has no ON CONFLICT clause: the next call inserts them again.
-/

namespace Hcexplorer.Hcpg

section Renamed

/-- The block with renamed ids of its transactions and everything else as it was. -/
def Block.renamed (perm : RowRenaming) (dbBlock : Block) : Block :=
  dbBlock.withTxDbIDs (dbBlock.txDbIDs.map (perm .transactions))
    (dbBlock.stxDbIDs.map (perm .transactions))

/-- A row of the blocks table with renamed ids of transactions. -/
def BlockRow.renamed (perm : RowRenaming) (row : BlockRow) : BlockRow :=
  { row with block := row.block.renamed perm }

/-- All tables under renamed ids of transactions, with other sequences. -/
def ChainTables.renamed (perm : RowRenaming) (sequences : Table → Nat) (db : ChainTables) :
    ChainTables :=
  { db with
    tx := ⟨db.tx.tables.renamed perm, sequences⟩
    blocks := db.blocks.map fun stored => ⟨stored.id, stored.row.renamed perm⟩ }

/-- The ChainDB over renamed tables, with other sequences and everything else as it was. -/
def ChainDB.renamed (perm : RowRenaming) (sequences : Table → Nat) (pgb : ChainDB) : ChainDB :=
  { pgb with db := pgb.db.renamed perm sequences }

/-- The rows of the six tables are the same, in any order, when the ids of the four
transaction tables and those of blocks are renamed. -/
def ChainTables.SameRows (db other : ChainTables) : Prop :=
  ∃ (perm : RowRenaming) (blockPerm : Equiv.Perm Nat),
    db.tx.tables.renamed perm = other.tx.tables ∧
    (db.blocks.map fun stored => (⟨blockPerm stored.id, stored.row.renamed perm⟩ : Stored BlockRow)).Perm
      other.blocks ∧
    (db.blockChain.map fun row => { row with blockDbID := blockPerm row.blockDbID }).Perm other.blockChain

variable {perm : RowRenaming} {sequences : Table → Nat}

/-- Renamed tables have the same rows, as the renaming itself shows. -/
theorem ChainTables.sameRows_renamed (db : ChainTables) :
    db.SameRows (db.renamed perm sequences) := by
  refine ⟨perm, Equiv.refl Nat, rfl, List.Perm.refl _, ?_⟩
  rw [show (fun row : BlockChainRow => { row with blockDbID := (Equiv.refl Nat) row.blockDbID }) = id
    from rfl, List.map_id]
  exact List.Perm.refl _

/-- `InsertBlock` over renamed tables returns the same, and leaves the renamed result. -/
theorem insertBlock_renamed (fault : Option String) (dbBlock : Block) (isValid checked : Bool)
    (db : ChainTables) :
    insertBlock fault (dbBlock.renamed perm) isValid checked (db.renamed perm sequences) =
      ((insertBlock fault dbBlock isValid checked db).1,
        (insertBlock fault dbBlock isValid checked db).2.renamed perm sequences) := by
  cases fault with
  | some err => rfl
  | none =>
    have present : (∃ stored ∈ (db.renamed perm sequences).blocks,
        stored.row.block.hash = (dbBlock.renamed perm).hash) ↔
        ∃ stored ∈ db.blocks, stored.row.block.hash = dbBlock.hash := by
      simp only [ChainTables.renamed, List.mem_map, exists_exists_and_eq_and]
      rfl
    simp only [insertBlock, present]
    split
    · rfl
    · simp only [ChainTables.renamed, List.map_append]
      rfl

/-- `InsertBlockPrevNext` over renamed tables returns the same, and leaves the renamed result. -/
theorem insertBlockPrevNext_renamed (fault : Option String) (row : BlockChainRow) (db : ChainTables) :
    insertBlockPrevNext fault row (db.renamed perm sequences) =
      ((insertBlockPrevNext fault row db).1,
        (insertBlockPrevNext fault row db).2.renamed perm sequences) := by
  cases fault with
  | some err => rfl
  | none =>
    by_cases present : ∃ present ∈ db.blockChain, present.thisHash = row.thisHash
    · have presentToo : ∃ present ∈ (db.renamed perm sequences).blockChain,
          present.thisHash = row.thisHash := present
      simp only [insertBlockPrevNext, if_pos present, if_pos presentToo]
    · have absentToo : ¬ ∃ present ∈ (db.renamed perm sequences).blockChain,
          present.thisHash = row.thisHash := present
      simp only [insertBlockPrevNext, if_neg present, if_neg absentToo]
      rfl

/-- `UpdateLastBlock` over renamed tables returns the same, and leaves the renamed result. -/
theorem updateLastBlock_renamed (fault : Option String) (blockDbID : Nat) (isValid : Bool)
    (db : ChainTables) :
    updateLastBlock fault blockDbID isValid (db.renamed perm sequences) =
      ((updateLastBlock fault blockDbID isValid db).1,
        (updateLastBlock fault blockDbID isValid db).2.renamed perm sequences) := by
  cases fault with
  | some err => rfl
  | none =>
    simp only [updateLastBlock, ChainTables.renamed, List.countP_map, List.map_map]
    congr 3
    funext stored
    simp only [Function.comp_apply]
    split <;> rfl

/-- `UpdateBlockNext` over renamed tables returns the same, and leaves the renamed result. -/
theorem updateBlockNext_renamed (fault : Option String) (blockDbID : Nat) (next : Hash)
    (db : ChainTables) :
    updateBlockNext fault blockDbID next (db.renamed perm sequences) =
      ((updateBlockNext fault blockDbID next db).1,
        (updateBlockNext fault blockDbID next db).2.renamed perm sequences) := by
  cases fault <;> rfl

/-- The part of `StoreBlock` on the block before, over renamed tables. -/
theorem ChainDB.updatePrevious_renamed (env : StoreEnv) (msgBlock : MsgBlock) (dbBlock : Block)
    (pgb : ChainDB) :
    (pgb.renamed perm sequences).updatePrevious env msgBlock (dbBlock.renamed perm) =
      ((pgb.updatePrevious env msgBlock dbBlock).1,
        (pgb.updatePrevious env msgBlock dbBlock).2.renamed perm sequences) := by
  cases known : pgb.lastBlock msgBlock.header.prevBlock with
  | none =>
    have knownToo : (pgb.renamed perm sequences).lastBlock msgBlock.header.prevBlock = none := known
    simp only [updatePrevious, known, knownToo]
    rfl
  | some lastBlockDbID =>
    have knownToo : (pgb.renamed perm sequences).lastBlock msgBlock.header.prevBlock =
      some lastBlockDbID := known
    have tables : (pgb.renamed perm sequences).db = pgb.db.renamed perm sequences := rfl
    have hash : (dbBlock.renamed perm).hash = dbBlock.hash := rfl
    have judged : (if (dbBlock.renamed perm).voteBits &&& 1 ≠ 0 then
          ((.ok (), pgb.db.renamed perm sequences) : Except String Unit × ChainTables)
        else updateLastBlock env.updateLastBlock lastBlockDbID
          (decide ((dbBlock.renamed perm).voteBits &&& 1 ≠ 0)) (pgb.db.renamed perm sequences)) =
        Prod.map id (ChainTables.renamed perm sequences) (if dbBlock.voteBits &&& 1 ≠ 0 then (.ok (), pgb.db)
          else updateLastBlock env.updateLastBlock lastBlockDbID
            (decide (dbBlock.voteBits &&& 1 ≠ 0)) pgb.db) := by
      rw [apply_ite (Prod.map id (ChainTables.renamed perm sequences)), updateLastBlock_renamed]
      rfl
    simp only [updatePrevious, known, knownToo, hash, tables, judged]
    generalize (if dbBlock.voteBits &&& 1 ≠ 0 then
      ((.ok (), pgb.db) : Except String Unit × ChainTables) else _) = updated
    obtain ⟨result, db⟩ := updated
    cases result with
    | error err => rfl
    | ok _ =>
      simp only [Prod.map, id_eq, updateBlockNext_renamed]
      generalize updateBlockNext env.updateBlockNext lastBlockDbID dbBlock.hash db = linked
      obtain ⟨result, db⟩ := linked
      cases result <;> rfl

/-- The part of `StoreBlock` after the goroutines, over renamed tables. -/
theorem ChainDB.storeBlockRows_renamed (hcd : Hcd) (env : StoreEnv) (msgBlock : MsgBlock)
    (dbBlock : Block) (isValid : Bool) (pgb : ChainDB) :
    (pgb.renamed perm sequences).storeBlockRows hcd env msgBlock (dbBlock.renamed perm) isValid =
      ((pgb.storeBlockRows hcd env msgBlock dbBlock isValid).1,
        (pgb.storeBlockRows hcd env msgBlock dbBlock isValid).2.renamed perm sequences) := by
  have tables : (pgb.renamed perm sequences).db = pgb.db.renamed perm sequences := rfl
  have dupChecks : (pgb.renamed perm sequences).dupChecks = pgb.dupChecks := rfl
  simp only [storeBlockRows, tables, dupChecks, insertBlock_renamed]
  generalize insertBlock env.insertBlock dbBlock isValid pgb.dupChecks pgb.db = inserted
  obtain ⟨result, db⟩ := inserted
  cases result with
  | error err => rfl
  | ok blockDbID =>
    have row : (⟨blockDbID, (dbBlock.renamed perm).previousHash, (dbBlock.renamed perm).hash, none⟩ :
      BlockChainRow) = ⟨blockDbID, dbBlock.previousHash, dbBlock.hash, none⟩ := rfl
    simp only [row, insertBlockPrevNext_renamed]
    generalize insertBlockPrevNext env.insertBlockPrevNext
      ⟨blockDbID, dbBlock.previousHash, dbBlock.hash, none⟩ db = chained
    obtain ⟨result, db⟩ := chained
    cases result with
    | error err => rfl
    | ok _ =>
      let following : ChainDB :=
        { pgb with
          db := db
          lastBlock := fun hash => if hash = hcd.hashOf msgBlock then some blockDbID else pgb.lastBlock hash
          bestBlock := (dbBlock.height.toNat : Int) }
      exact updatePrevious_renamed env msgBlock dbBlock following

end Renamed

section Blocks

variable {holds : Block → Prop} {db : ChainTables} {pgb : ChainDB}

/-- All blocks of the blocks table are as stated. -/
def ChainTables.EveryBlock (holds : Block → Prop) (db : ChainTables) : Prop :=
  ∀ stored ∈ db.blocks, holds stored.row.block

/-- `InsertBlock` keeps what holds of every block's row, if it holds of the new one. -/
theorem insertBlock_every (fault : Option String) {dbBlock : Block} (new : holds dbBlock)
    (isValid checked : Bool) (every : db.EveryBlock holds) :
    (insertBlock fault dbBlock isValid checked db).2.EveryBlock holds := by
  cases fault with
  | some err => exact every
  | none =>
    simp only [insertBlock]
    split
    · exact every
    · intro stored member
      rcases List.mem_append.mp member with before | added
      · exact every stored before
      · obtain rfl := List.mem_singleton.mp added
        exact new

/-- `InsertBlockPrevNext` keeps what holds of every block's row. -/
theorem insertBlockPrevNext_every (fault : Option String) (row : BlockChainRow)
    (every : db.EveryBlock holds) : (insertBlockPrevNext fault row db).2.EveryBlock holds := by
  cases fault with
  | some err => exact every
  | none =>
    simp only [insertBlockPrevNext]
    split <;> exact every

/-- `UpdateLastBlock` keeps what holds of every block's row. -/
theorem updateLastBlock_every (fault : Option String) (blockDbID : Nat) (isValid : Bool)
    (every : db.EveryBlock holds) : (updateLastBlock fault blockDbID isValid db).2.EveryBlock holds := by
  cases fault with
  | some err => exact every
  | none =>
    intro stored member
    obtain ⟨before, isBefore, rfl⟩ := List.mem_map.mp member
    split <;> exact every before isBefore

/-- `UpdateBlockNext` keeps what holds of every block's row. -/
theorem updateBlockNext_every (fault : Option String) (blockDbID : Nat) (next : Hash)
    (every : db.EveryBlock holds) : (updateBlockNext fault blockDbID next db).2.EveryBlock holds := by
  cases fault <;> exact every

/-- The last part of `StoreBlock` leaves the blocks of the table, and adds the new one. -/
theorem ChainDB.storeBlockRows_every (hcd : Hcd) (env : StoreEnv) (msgBlock : MsgBlock)
    {dbBlock : Block} (new : holds dbBlock) (isValid : Bool) (every : pgb.db.EveryBlock holds) :
    (pgb.storeBlockRows hcd env msgBlock dbBlock isValid).2.db.EveryBlock holds := by
  have previous : ∀ pgb : ChainDB, pgb.db.EveryBlock holds →
      (pgb.updatePrevious env msgBlock dbBlock).2.db.EveryBlock holds := by
    intro pgb every
    cases known : pgb.lastBlock msgBlock.header.prevBlock with
    | none => simpa only [updatePrevious, known] using every
    | some lastBlockDbID =>
      have judged : (if dbBlock.voteBits &&& 1 ≠ 0 then
          ((.ok (), pgb.db) : Except String Unit × ChainTables)
          else updateLastBlock env.updateLastBlock lastBlockDbID
            (decide (dbBlock.voteBits &&& 1 ≠ 0)) pgb.db).2.EveryBlock holds := by
        split
        · exact every
        · exact updateLastBlock_every _ _ _ every
      have linked := updateBlockNext_every env.updateBlockNext lastBlockDbID dbBlock.hash judged
      simp only [updatePrevious, known]
      split
      · exact judged
      · split
        · rename_i isLinked
          rw [isLinked] at linked
          exact linked
        · rename_i isLinked
          rw [isLinked] at linked
          exact linked
  have inserted := insertBlock_every env.insertBlock new isValid pgb.dupChecks every
  unfold storeBlockRows
  split
  · rename_i isInserted
    rw [isInserted] at inserted
    exact inserted
  · rename_i blockDbID tables isInserted
    rw [isInserted] at inserted
    have chained := insertBlockPrevNext_every env.insertBlockPrevNext
      ⟨blockDbID, dbBlock.previousHash, dbBlock.hash, none⟩ inserted
    dsimp only
    split
    · rename_i isChained
      rw [isChained] at chained
      exact chained
    · rename_i isChained
      rw [isChained] at chained
      exact previous _ chained

end Blocks

section Closed

variable {hcd : Hcd} {msgBlock : MsgBlock} {env : StoreEnv} {pgb : ChainDB}

/-- The block refers to such ids of transactions only. -/
def Block.Within (given : Nat → Prop) (dbBlock : Block) : Prop :=
  (∀ id ∈ dbBlock.txDbIDs, given id) ∧ ∀ id ∈ dbBlock.stxDbIDs, given id

/-- The tables know the ids that the sequences gave out, and no others. -/
structure ChainTables.Closed (db : ChainTables) : Prop where
  tx : db.tx.Closed
  blocks : db.EveryBlock (Block.Within fun id => id < db.tx.sequences .transactions)

/-- The tables as they are created refer to given row ids only, as they have no rows. -/
theorem ChainTables.Closed.created : ChainTables.created.Closed := ⟨TxDb.Closed.created, nofun⟩

/-- A block without failures of the goroutines leaves closed tables closed. -/
theorem ChainTables.Closed.storeBlock (closed : pgb.db.Closed) (valid : ValidBlock hcd msgBlock)
    (clean : env.TreesClean) (isValid updateAddressesSpendingInfo : Bool) :
    (pgb.storeBlock hcd env msgBlock isValid updateAddressesSpendingInfo).2.db.Closed := by
  obtain ⟨regIds, stkIds, tx, counts, done, stored⟩ :=
    pgb.storeBlock_rows clean valid isValid updateAddressesSpendingInfo
  have own : ∀ id ∈ regIds.txs ++ stkIds.txs, id < tx.sequences .transactions :=
    fun id member => ((done.fresh .transactions).bounds id member).2
  have before : (pgb.withTx tx).db.EveryBlock
      (Block.Within fun id => id < tx.sequences .transactions) := by
    intro each member
    obtain ⟨regular, stake⟩ := closed.blocks each member
    exact ⟨fun id present => Nat.lt_of_lt_of_le (regular id present) (done.sequences _),
      fun id present => Nat.lt_of_lt_of_le (stake id present) (done.sequences _)⟩
  rw [stored]
  constructor
  · rw [ChainDB.storeBlockRows_tx]
    exact closed.tx.store done
  · rw [ChainDB.storeBlockRows_tx]
    exact ChainDB.storeBlockRows_every hcd env msgBlock
      ⟨fun id present => own id (List.mem_append_left _ present),
        fun id present => own id (List.mem_append_right _ present)⟩ isValid before

/-- Without failures, the last part of `StoreBlock` does not depend on how the goroutines were
interleaved. -/
theorem ChainDB.storeBlockRows_clean (clean : env.Clean) (dbBlock : Block) (isValid : Bool)
    (pgb : ChainDB) : pgb.storeBlockRows hcd env msgBlock dbBlock isValid =
      pgb.storeBlockRows hcd (.noFaults []) msgBlock dbBlock isValid := by
  have previous : ∀ pgb : ChainDB, pgb.updatePrevious env msgBlock dbBlock =
      pgb.updatePrevious (.noFaults []) msgBlock dbBlock := by
    intro pgb
    simp only [updatePrevious, clean.updateLastBlock, clean.updateBlockNext, StoreEnv.noFaults]
  simp only [storeBlockRows, clean.insertBlock, clean.insertBlockPrevNext, previous, StoreEnv.noFaults]

/-- A block is stored without failures in two databases that are the same up to row ids, and they
stay the same. -/
theorem ChainDB.storeBlock_renamed {envToo : StoreEnv} {perm : RowRenaming}
    {sequences : Table → Nat} (closed : pgb.db.Closed)
    (closedToo : (pgb.renamed perm sequences).db.Closed) (valid : ValidBlock hcd msgBlock)
    (clean : env.Clean) (cleanToo : envToo.Clean) (isValid updateAddressesSpendingInfo : Bool) :
    ∃ extended later,
      ((pgb.renamed perm sequences).storeBlock hcd envToo msgBlock isValid
        updateAddressesSpendingInfo).2 =
      (pgb.storeBlock hcd env msgBlock isValid updateAddressesSpendingInfo).2.renamed extended later := by
  obtain ⟨regIds, stkIds, tx, counts, done, stored⟩ :=
    pgb.storeBlock_rows clean.toTreesClean valid isValid updateAddressesSpendingInfo
  obtain ⟨regIdsToo, stkIdsToo, txToo, countsToo, doneToo, storedToo⟩ :=
    (pgb.renamed perm sequences).storeBlock_rows cleanToo.toTreesClean valid isValid
      updateAddressesSpendingInfo
  obtain ⟨extended, same, regular, stake, agree⟩ := done.renamed closed.tx closedToo.tx rfl doneToo
  refine ⟨extended, txToo.sequences, ?_⟩
  have blocks : ∀ each ∈ pgb.db.blocks, each.row.renamed perm = each.row.renamed extended := by
    intro each member
    obtain ⟨regularIds, stakeIds⟩ := closed.blocks each member
    obtain ⟨regularImages, stakeImages⟩ := closedToo.blocks _ (List.mem_map_of_mem member)
    have moved : ∀ {ids : List Nat}, (∀ id ∈ ids, id < pgb.db.tx.sequences .transactions) →
        (∀ id ∈ ids.map (perm .transactions), id < sequences .transactions) →
        ids.map (perm .transactions) = ids.map (extended .transactions) := by
      intro ids given images
      apply List.map_congr_left
      intro id present
      exact (agree .transactions id ⟨given id present, images _ (List.mem_map_of_mem present)⟩).symm
    rw [BlockRow.renamed, Block.renamed, moved regularIds regularImages, moved stakeIds stakeImages]
    rfl
  have start : (pgb.renamed perm sequences).withTx txToo =
      (pgb.withTx tx).renamed extended txToo.sequences := by
    have rows : pgb.db.blocks.map (fun each => (⟨each.id, each.row.renamed perm⟩ : Stored BlockRow)) =
        pgb.db.blocks.map fun each => ⟨each.id, each.row.renamed extended⟩ :=
      List.map_congr_left fun each member => by rw [blocks each member]
    simp only [withTx, ChainDB.renamed, ChainTables.renamed, rows, same]
  have ids : (msgBlockToDBBlock hcd msgBlock).withTxDbIDs regIdsToo.txs stkIdsToo.txs =
      ((msgBlockToDBBlock hcd msgBlock).withTxDbIDs regIds.txs stkIds.txs).renamed extended := by
    rw [← regular, ← stake]
    rfl
  rw [stored, storedToo, storeBlockRows_clean cleanToo, storeBlockRows_clean clean, start, ids,
    storeBlockRows_renamed]

end Closed

section Runs

/-- The calls for one block: those that are followed by another, and the last. -/
structure Retried where
  msgBlock : MsgBlock
  attempts : List StoreEnv
  last : StoreEnv

/-- The calls for a block in their order, the failed attempts before the last one. -/
def Retried.storings (retried : Retried) : List (StoreEnv × MsgBlock) :=
  (retried.attempts ++ [retried.last]).map fun env => (env, retried.msgBlock)

variable {hcd : Hcd} {pgb : ChainDB} {perm : RowRenaming} {sequences : Table → Nat}
  {updateAddressesSpendingInfo : Bool}

/-- Calls that fail before rows are committed leave what other sequences would have left. -/
theorem ChainDB.storeChain_attempts {msgBlock : MsgBlock} {attempts : List StoreEnv}
    (early : ∀ env ∈ attempts, env.FailsEarly hcd msgBlock) (closed : pgb.db.Closed)
    (updateAddressesSpendingInfo : Bool) (perm : RowRenaming) (sequences : Table → Nat) :
    let after := pgb.storeChain hcd updateAddressesSpendingInfo
      (attempts.map fun env => (env, msgBlock))
    after.renamed perm sequences = pgb.renamed perm sequences ∧ after.db.Closed := by
  induction attempts generalizing pgb with
  | nil => exact ⟨rfl, closed⟩
  | cons env rest inductionHypothesis =>
    obtain ⟨err, tx, untouched, failed⟩ := pgb.storeBlock_failsEarly (early env List.mem_cons_self)
      true updateAddressesSpendingInfo
    have closedNext : (pgb.withTx tx).db.Closed := by
      refine ⟨?_, fun each member => ?_⟩
      · have before := closed.tx.mono fun table id given =>
          Nat.lt_of_lt_of_le given (untouched.sequences table)
        rw [← untouched.tables] at before
        exact before
      · obtain ⟨regular, stake⟩ := closed.blocks each member
        exact ⟨fun id present => Nat.lt_of_lt_of_le (regular id present) (untouched.sequences _),
          fun id present => Nat.lt_of_lt_of_le (stake id present) (untouched.sequences _)⟩
    obtain ⟨same, closedAfter⟩ := inductionHypothesis
      (fun later member => early later (List.mem_cons_of_mem _ member)) closedNext
    have first : pgb.storeChain hcd updateAddressesSpendingInfo
        ((env :: rest).map fun env => (env, msgBlock)) =
        (pgb.withTx tx).storeChain hcd updateAddressesSpendingInfo
          (rest.map fun env => (env, msgBlock)) := by
      rw [ChainDB.storeChain, List.map_cons, List.foldl_cons, failed]
      rfl
    rw [first]
    refine ⟨same.trans ?_, closedAfter⟩
    rw [ChainDB.renamed, ChainDB.renamed, ChainTables.renamed, ChainTables.renamed, ChainDB.withTx,
      untouched.tables]

/-- A run in which calls fail before rows are committed, and are followed by others for the
same block, ends as a run without failures, up to row ids.

Induction on the blocks; what is carried along is a permutation that takes the one database
to the other. -/
theorem ChainDB.storeChain_renamed {run : List Retried}
    (valid : ∀ retried ∈ run, ValidBlock hcd retried.msgBlock)
    (ends : ∀ retried ∈ run, retried.last.Clean)
    (early : ∀ retried ∈ run, ∀ env ∈ retried.attempts, env.FailsEarly hcd retried.msgBlock)
    {storings : List (StoreEnv × MsgBlock)} (clean : ∀ storing ∈ storings, storing.1.Clean)
    (sameBlocks : storings.map Prod.snd = run.map Retried.msgBlock) (closed : pgb.db.Closed)
    (closedToo : (pgb.renamed perm sequences).db.Closed) :
    ∃ extended later,
      (pgb.renamed perm sequences).storeChain hcd updateAddressesSpendingInfo storings =
        (pgb.storeChain hcd updateAddressesSpendingInfo (run.flatMap Retried.storings)).renamed
          extended later := by
  induction run generalizing pgb perm sequences storings with
  | nil =>
    obtain rfl := List.map_eq_nil_iff.mp sameBlocks
    exact ⟨perm, sequences, rfl⟩
  | cons retried rest inductionHypothesis =>
    cases storings with
    | nil => cases sameBlocks
    | cons storing storings =>
      obtain ⟨env, msgBlock⟩ := storing
      rw [List.map_cons, List.map_cons, List.cons.injEq] at sameBlocks
      obtain ⟨rfl, sameRest⟩ := sameBlocks
      have validBlock := valid retried List.mem_cons_self
      have cleanLast := ends retried List.mem_cons_self
      have cleanEnv := clean _ List.mem_cons_self
      obtain ⟨unchanged, closedMiddle⟩ := storeChain_attempts (early retried List.mem_cons_self) closed
        updateAddressesSpendingInfo perm sequences
      generalize isMiddle : pgb.storeChain hcd updateAddressesSpendingInfo
        (retried.attempts.map fun env => (env, retried.msgBlock)) = middle at unchanged closedMiddle
      rw [← unchanged] at closedToo
      obtain ⟨next, later, stored⟩ := storeBlock_renamed closedMiddle closedToo validBlock cleanLast
        cleanEnv true updateAddressesSpendingInfo
      have closedNext := closedMiddle.storeBlock validBlock cleanLast.toTreesClean true
        updateAddressesSpendingInfo
      have closedNextToo := closedToo.storeBlock validBlock cleanEnv.toTreesClean true
        updateAddressesSpendingInfo
      rw [stored] at closedNextToo
      obtain ⟨extended, final, restStored⟩ := inductionHypothesis
        (fun each member => valid each (List.mem_cons_of_mem _ member))
        (fun each member => ends each (List.mem_cons_of_mem _ member))
        (fun each member => early each (List.mem_cons_of_mem _ member))
        (fun each member => clean each (List.mem_cons_of_mem _ member)) sameRest closedNext closedNextToo
      refine ⟨extended, final, ?_⟩
      have other : (pgb.renamed perm sequences).storeChain hcd updateAddressesSpendingInfo
          ((env, retried.msgBlock) :: storings) =
          ((middle.storeBlock hcd retried.last retried.msgBlock true
            updateAddressesSpendingInfo).2.renamed next later).storeChain hcd
              updateAddressesSpendingInfo storings := by
        rw [← stored, unchanged]
        rfl
      have own : pgb.storeChain hcd updateAddressesSpendingInfo
          ((retried :: rest).flatMap Retried.storings) =
          (middle.storeBlock hcd retried.last retried.msgBlock true
            updateAddressesSpendingInfo).2.storeChain hcd updateAddressesSpendingInfo
              (rest.flatMap Retried.storings) := by
        rw [← isMiddle, List.flatMap_cons, Retried.storings, List.map_append]
        simp only [ChainDB.storeChain, List.foldl_append, List.map_cons, List.map_nil, List.foldl_cons,
          List.foldl_nil]
      rw [other, own, restStored]

/-- The ChainDB under the ids that its tables have. -/
theorem ChainDB.renamed_refl (pgb : ChainDB) :
    pgb.renamed (fun _ => Equiv.refl Nat) pgb.db.tx.sequences = pgb := by
  have rows : pgb.db.blocks.map (fun stored =>
      (⟨stored.id, stored.row.renamed fun _ => Equiv.refl Nat⟩ : Stored BlockRow)) = pgb.db.blocks := by
    refine (List.map_congr_left fun stored _ => ?_).trans (List.map_id _)
    rw [BlockRow.renamed, Block.renamed, Equiv.coe_refl, List.map_id, List.map_id]
    rfl
  rw [ChainDB.renamed, ChainTables.renamed, rows, TxTables.renamed_refl]

/-- Storing each block again after failures loses and duplicates nothing, when those failures
fall before the first commit of each tree. -/
theorem ChainDB.storeChain_retried {run : List Retried}
    (valid : ∀ retried ∈ run, ValidBlock hcd retried.msgBlock)
    (ends : ∀ retried ∈ run, retried.last.Clean)
    (early : ∀ retried ∈ run, ∀ env ∈ retried.attempts, env.FailsEarly hcd retried.msgBlock)
    {storings : List (StoreEnv × MsgBlock)} (clean : ∀ storing ∈ storings, storing.1.Clean)
    (sameBlocks : storings.map Prod.snd = run.map Retried.msgBlock) (closed : pgb.db.Closed) :
    (pgb.storeChain hcd updateAddressesSpendingInfo (run.flatMap Retried.storings)).db.SameRows
      (pgb.storeChain hcd updateAddressesSpendingInfo storings).db := by
  have closedToo : (pgb.renamed (fun _ => Equiv.refl Nat) pgb.db.tx.sequences).db.Closed := by
    rw [ChainDB.renamed_refl]
    exact closed
  obtain ⟨extended, later, stored⟩ := storeChain_renamed valid ends early clean sameBlocks closed
    closedToo
  rw [ChainDB.renamed_refl] at stored
  rw [stored]
  exact ChainTables.sameRows_renamed _

end Runs

section Samples

/-- A call whose connection for the regular tree fails at a statement. -/
def failingAt (statement : Nat) : StoreEnv :=
  { StoreEnv.noFaults [] with
    regularFaults := fun issued => if issued = statement then some "connection lost" else none }

/-- The genesis block is stored at the third call, the first two fail when they begin and when
they insert its output. -/
def retriedGenesis : Retried := ⟨spendBlock 0, [failingAt 0, failingAt 2], .noFaults []⟩

/-- The law at a genesis block that is stored at the second attempt. -/
theorem storeChain_retried_genesis :
    ((freshChainDB true).storeChain Sample.hcd true ([retriedGenesis].flatMap Retried.storings)).db.SameRows
      ((freshChainDB true).storeChain Sample.hcd true [(.noFaults [true, false], spendBlock 0)]).db := by
  apply ChainDB.storeChain_retried
  · intro retried member
    obtain rfl := List.mem_singleton.mp member
    exact spendBlock_valid 0
  · intro retried member
    obtain rfl := List.mem_singleton.mp member
    exact StoreEnv.noFaults_clean []
  · intro retried member env attempt
    obtain rfl := List.mem_singleton.mp member
    have early : ∀ statement ≤ 3, (failingAt statement).FailsEarly Sample.hcd (spendBlock 0) := by
      intro statement near
      refine ⟨fun tree => ?_, .regular, by decide⟩
      cases tree with
      | regular => exact ⟨statement, near, "connection lost", if_pos (Nat.zero_add statement)⟩
      | stake => trivial
    rcases List.mem_cons.mp attempt with rfl | attempt
    · exact early 0 (by decide)
    · obtain rfl := List.mem_singleton.mp attempt
      exact early 2 (by decide)
  · intro storing member
    obtain rfl := List.mem_singleton.mp member
    exact StoreEnv.noFaults_clean _
  · rfl
  · exact ChainTables.Closed.created

/-- Renamed tables have as many rows as the tables themselves. -/
theorem ChainTables.SameRows.card_vouts {db other : ChainTables} (same : db.SameRows other) :
    db.tx.tables.vouts.card = other.tx.tables.vouts.card := by
  obtain ⟨perm, -, tables, -⟩ := same
  rw [← tables]
  exact (Multiset.card_map _ _).symm

/-- When the first call fails as it begins to insert the inputs, its outputs are committed, and
the second call inserts them again. -/
theorem storeChain_again_twice :
    ¬ ((freshChainDB true).storeChain Sample.hcd true
        [(failingAt 4, spendBlock 0), (.noFaults [], spendBlock 0)]).db.SameRows
      ((freshChainDB true).storeChain Sample.hcd true [(.noFaults [], spendBlock 0)]).db := by
  intro same
  have twice : ((freshChainDB true).storeChain Sample.hcd true
      [(failingAt 4, spendBlock 0), (.noFaults [], spendBlock 0)]).db.tx.tables.vouts.card = 2 := by
    decide +kernel
  have once : ((freshChainDB true).storeChain Sample.hcd true
      [(.noFaults [], spendBlock 0)]).db.tx.tables.vouts.card = 1 := by
    decide +kernel
  have equal := same.card_vouts
  rw [twice, once] at equal
  cases equal

end Samples

end Hcexplorer.Hcpg

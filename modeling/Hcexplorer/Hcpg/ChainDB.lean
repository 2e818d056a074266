import Hcexplorer.Hcpg.StoreTxns

/-!
# Storing blocks, one by one and in a synchronization

`hcpg.ChainDB` over its tables. `StoreBlock` runs the two goroutines of
`storeTxns` in some interleaving and then issues four statements on the blocks and
block_chain tables, with an in-memory map from block hashes to row ids.
`SyncChainDB` stores the node's blocks from the height of the tables on, and then
builds indexes and spending information; `mainCore` chooses its two flags.

The answers of the node, the quit signal and the statements that fail come from
outside. They are arguments: one `StoreEnv` for a stored block, one `SyncStep` for
a pass of the loop. A synchronization that has used up its list of passes is still
running.

The cache of address balances, the counts of the logged progress and the indexes
themselves, apart from the failures of building them, are left out. An empty
`next_hash` is `none`.
-/

namespace Hcexplorer.Hcpg

open Interactive

/-- The block with the ids of its transactions, which are known once these are inserted. -/
def Block.withTxDbIDs (txDbIDs stxDbIDs : List Nat) (dbBlock : Block) : Block :=
  { dbBlock with txDbIDs := txDbIDs, stxDbIDs := stxDbIDs }

/-- A row of the blocks table: the block, and whether its regular tree is valid. -/
structure BlockRow where
  block : Block
  isValid : Bool
deriving DecidableEq, Repr

/-- A row of the block_chain table: a block's id and hash, its parent, and its successor if one
is recorded. -/
structure BlockChainRow where
  blockDbID : Nat
  prevHash : Hash
  thisHash : Hash
  nextHash : Option Hash
deriving DecidableEq, Repr

/-- The tables of the database, in the order of insertion for blocks. -/
structure ChainTables where
  tx : TxDb
  blocks : List (Stored BlockRow)
  blocksSequence : Nat
  blockChain : List BlockChainRow

/-- The tables as they are created, with their sequences at one. -/
def ChainTables.created : ChainTables := ⟨⟨0, fun _ => 1⟩, [], 1, []⟩

/-- `hcpg.ChainDB`, the database with the flags and heights that the process keeps in memory. -/
structure ChainDB where
  db : ChainTables
  dupChecks : Bool
  bestBlock : Int
  lastBlock : Hash → Option Nat
  validHeight : Int

/-- `RetrieveBestBlockHeight`, the greatest height of the blocks table; no row is `none`. -/
def ChainTables.heightDB (db : ChainTables) : Option Nat :=
  (db.blocks.map fun stored => stored.row.block.height.toNat).max?

/-- The height to resume above: -1 for empty tables. -/
def ChainTables.lastHeight (db : ChainTables) : Int := db.heightDB.elim (-1) fun height => height

/-- `NewChainDB` over existing tables: the best height is read, and the map of last blocks is
empty. -/
def newChainDB (db : ChainTables) : ChainDB where
  db := db
  dupChecks := true
  bestBlock := db.heightDB.getD 0
  lastBlock _ := none
  validHeight := 0

/-- What is decided outside of one `StoreBlock`: the interleaving of the two
goroutines, and the failures. -/
structure StoreEnv where
  schedule : List Bool
  regularFaults : Nat → Option String
  stakeFaults : Nat → Option String
  insertBlock : Option String
  insertBlockPrevNext : Option String
  updateLastBlock : Option String
  updateBlockNext : Option String

/-- `InsertBlock`. Checked, a block whose hash is present returns no row. -/
def insertBlock (fault : Option String) (dbBlock : Block) (isValid checked : Bool)
    (db : ChainTables) : Except String Nat × ChainTables :=
  match fault with
  | some err => (.error err, db)
  | none =>
    let blockDbID := db.blocksSequence
    let db := { db with blocksSequence := blockDbID + 1 }
    if checked ∧ ∃ stored ∈ db.blocks, stored.row.block.hash = dbBlock.hash then
      (.error "sql: no rows in result set", db)
    else
      (.ok blockDbID, { db with blocks := db.blocks ++ [⟨blockDbID, ⟨dbBlock, isValid⟩⟩] })

/-- `InsertBlockPrevNext`, with its ON CONFLICT (this_hash) DO NOTHING, by which a present row
stays as it is. -/
def insertBlockPrevNext (fault : Option String) (row : BlockChainRow) (db : ChainTables) :
    Except String Unit × ChainTables :=
  match fault with
  | some err => (.error err, db)
  | none =>
    if ∃ present ∈ db.blockChain, present.thisHash = row.thisHash then (.ok (), db)
    else (.ok (), { db with blockChain := db.blockChain ++ [row] })

/-- The error that both updates return unless exactly one row was updated, with the number of
rows in its text. -/
def exactlyOne (function : String) (numRows : Nat) : Except String Unit :=
  if numRows ≠ 1 then
    .error (function ++ " failed to update exactly 1 row (" ++ toString numRows ++ ")")
  else .ok ()

/-- `UpdateLastBlock`, which sets the validity of the row with an id. -/
def updateLastBlock (fault : Option String) (blockDbID : Nat) (isValid : Bool) (db : ChainTables) :
    Except String Unit × ChainTables :=
  match fault with
  | some err => (.error err, db)
  | none =>
    (exactlyOne "UpdateLastBlock" (db.blocks.countP fun stored => stored.id = blockDbID),
      { db with blocks := db.blocks.map fun stored =>
          if stored.id = blockDbID then { stored with row := { stored.row with isValid := isValid } }
          else stored })

/-- `UpdateBlockNext`, which sets the successor in the row with an id. -/
def updateBlockNext (fault : Option String) (blockDbID : Nat) (next : Hash) (db : ChainTables) :
    Except String Unit × ChainTables :=
  match fault with
  | some err => (.error err, db)
  | none =>
    (exactlyOne "UpdateBlockNext" (db.blockChain.countP fun row => row.blockDbID = blockDbID),
      { db with blockChain := db.blockChain.map fun row =>
          if row.blockDbID = blockDbID then { row with nextHash := some next } else row })

namespace ChainDB

/-- The last part of `StoreBlock`: the block before is set invalid if the votes
say so, and linked to this one, when its row id is known. -/
def updatePrevious (env : StoreEnv) (msgBlock : MsgBlock) (dbBlock : Block) (pgb : ChainDB) :
    Except String Unit × ChainDB :=
  match pgb.lastBlock msgBlock.header.prevBlock with
  | none => (.ok (), { pgb with validHeight := msgBlock.height })
  | some lastBlockDbID =>
    let lastIsValid := dbBlock.voteBits &&& 1 ≠ 0
    let (updated, db) :=
      if lastIsValid then (.ok (), pgb.db)
      else updateLastBlock env.updateLastBlock lastBlockDbID lastIsValid pgb.db
    match updated with
    | .error err => (.error err, { pgb with db := db })
    | .ok _ =>
      match updateBlockNext env.updateBlockNext lastBlockDbID dbBlock.hash db with
      | (.error err, db) => (.error err, { pgb with db := db })
      | (.ok _, db) => (.ok (), { pgb with db := db, validHeight := msgBlock.height })

/-- `StoreBlock` after the goroutines: the block's own rows, then those of the
block before. -/
def storeBlockRows (hcd : Hcd) (env : StoreEnv) (msgBlock : MsgBlock) (dbBlock : Block)
    (isValid : Bool) (pgb : ChainDB) : Except String Unit × ChainDB :=
  match insertBlock env.insertBlock dbBlock isValid pgb.dupChecks pgb.db with
  | (.error err, db) => (.error err, { pgb with db := db })
  | (.ok blockDbID, db) =>
    let lastBlock := fun hash => if hash = hcd.hashOf msgBlock then some blockDbID else pgb.lastBlock hash
    let bestBlock := (dbBlock.height.toNat : Int)
    match insertBlockPrevNext env.insertBlockPrevNext
        ⟨blockDbID, dbBlock.previousHash, dbBlock.hash, none⟩ db with
    | (.error err, db) =>
      (.error err, { pgb with db := db, lastBlock := lastBlock, bestBlock := bestBlock })
    | (.ok _, db) =>
      updatePrevious env msgBlock dbBlock
        { pgb with db := db, lastBlock := lastBlock, bestBlock := bestBlock }

/-- Run the two goroutines of `StoreBlock`, one for each tree, interleaved by a schedule. -/
def storeTrees (hcd : Hcd) (env : StoreEnv) (msgBlock : MsgBlock)
    (updateAddressesSpendingInfo : Bool) (pgb : ChainDB) :
    Except String StoreTxnsResult × Except String StoreTxnsResult × TxDb :=
  postgres.interleave env.schedule
    (storeTxns hcd pgb.dupChecks msgBlock .regular updateAddressesSpendingInfo)
    (storeTxns hcd pgb.dupChecks msgBlock .stake updateAddressesSpendingInfo)
    (Conn.fresh env.regularFaults) (Conn.fresh env.stakeFaults) pgb.db.tx

/-- The ChainDB with other transaction tables and everything else as it was. -/
def withTx (tx : TxDb) (pgb : ChainDB) : ChainDB := { pgb with db := { pgb.db with tx := tx } }

/-- `StoreBlock`. It returns the numbers of vins and vouts stored. -/
def storeBlock (hcd : Hcd) (env : StoreEnv) (msgBlock : MsgBlock)
    (isValid updateAddressesSpendingInfo : Bool) (pgb : ChainDB) :
    Except String (Nat × Nat) × ChainDB :=
  let (resReg, resStk, tx) := pgb.storeTrees hcd env msgBlock updateAddressesSpendingInfo
  match resReg, resStk with
  | .ok _, .error errStk => (.error errStk, pgb.withTx tx)
  | .error errReg, .error errStk => (.error (errReg ++ ", " ++ errStk), pgb.withTx tx)
  | .error errReg, .ok _ => (.error errReg, pgb.withTx tx)
  | .ok reg, .ok stk =>
    let dbBlock := (msgBlockToDBBlock hcd msgBlock).withTxDbIDs reg.txDbIDs stk.txDbIDs
    let (result, pgb) := (pgb.withTx tx).storeBlockRows hcd env msgBlock dbBlock isValid
    (result.map fun _ => (stk.numVins + reg.numVins, stk.numVouts + reg.numVouts), pgb)

/-- What `StoreBlock` did: a goroutine failed and nothing followed, or the block's
own rows followed. -/
theorem storeBlock_cases (hcd : Hcd) (env : StoreEnv) (msgBlock : MsgBlock)
    (isValid updateAddressesSpendingInfo : Bool) (pgb : ChainDB) :
    let trees := pgb.storeTrees hcd env msgBlock updateAddressesSpendingInfo
    (((∃ err, trees.1 = .error err) ∨ ∃ err, trees.2.1 = .error err) ∧
        ∃ err, pgb.storeBlock hcd env msgBlock isValid updateAddressesSpendingInfo =
          (.error err, pgb.withTx trees.2.2)) ∨
      ∃ reg stk, trees.1 = .ok reg ∧ trees.2.1 = .ok stk ∧
        let stored := (pgb.withTx trees.2.2).storeBlockRows hcd env msgBlock
          ((msgBlockToDBBlock hcd msgBlock).withTxDbIDs reg.txDbIDs stk.txDbIDs) isValid
        pgb.storeBlock hcd env msgBlock isValid updateAddressesSpendingInfo =
          (stored.1.map fun _ => (stk.numVins + reg.numVins, stk.numVouts + reg.numVouts),
            stored.2) := by
  simp only [storeBlock]
  generalize pgb.storeTrees hcd env msgBlock updateAddressesSpendingInfo = trees
  obtain ⟨resReg, resStk, tx⟩ := trees
  cases resReg with
  | error errReg =>
    cases resStk with
    | error errStk => exact Or.inl ⟨Or.inl ⟨errReg, rfl⟩, errReg ++ ", " ++ errStk, rfl⟩
    | ok stk => exact Or.inl ⟨Or.inl ⟨errReg, rfl⟩, errReg, rfl⟩
  | ok reg =>
    cases resStk with
    | error errStk => exact Or.inl ⟨Or.inr ⟨errStk, rfl⟩, errStk, rfl⟩
    | ok stk => exact Or.inr ⟨reg, stk, rfl, rfl, rfl⟩

/-- `Store`, the saver of a connected block, which checks for duplicates and updates spending
columns. -/
def store (hcd : Hcd) (env : StoreEnv) (msgBlock : MsgBlock) (pgb : ChainDB) :
    Except String Unit × ChainDB :=
  let (result, pgb) := pgb.storeBlock hcd env msgBlock true true
  (result.map fun _ => (), pgb)

end ChainDB

/-- The update of `SetSpendingForVinDbIDs` for one vins row, which takes no
transaction id. -/
def bulkSpending (vin : Stored VinTxProperty) : Option SetSpending :=
  if vin.row.prevTxHash = 0 then none
  else some ⟨vin.row.prevTxHash, vin.row.prevTxIndex, ⟨0, vin.row.txID, vin.row.txIndex, vin.id⟩⟩

/-- The updates of spending columns one after another. -/
def TxTables.spendAll (sets : List SetSpending) (tables : TxTables) : TxTables :=
  sets.foldl (fun current set => current.spend set) tables

/-- `SetSpendingForVinDbIDs`, one database transaction, so that a failure updates nothing. -/
def setSpendingForVinDbIDs (fault : Option String) (vins : List (Stored VinTxProperty))
    (tables : TxTables) : TxTables :=
  match fault with
  | some _ => tables
  | none => tables.spendAll (vins.filterMap bulkSpending)

/-- The slices of a thousand of `UpdateSpendingInfoInAllAddresses`, the last one with what is
left. -/
def chunks {α : Type} (all : List α) : List (List α) :=
  (List.range ((all.length + 999) / 1000)).map fun chunk => (all.drop (chunk * 1000)).take 1000

/-- `UpdateSpendingInfoInAllAddresses` over the vins rows in the order they are
listed. A chunk that fails is logged and left. -/
def updateSpendingInfoInAllAddresses (faults : Nat → Option String)
    (allVins : List (Stored VinTxProperty)) (tables : TxTables) : TxTables :=
  (chunks allVins).zipIdx.foldl
    (fun current (chunk, index) => setSpendingForVinDbIDs (faults index) chunk current) tables

/-- One pass of the loop of `SyncChainDB`: whether it is told to quit, and what the node and the
statements answer. -/
structure SyncStep where
  quit : Bool
  getBlock : Int → Except String MsgBlock
  store : StoreEnv
  getBestBlock : Except String Int

/-- What is decided outside of one `SyncChainDB`. The error of `DeindexAll` is one
that does not say that an index does not exist. `allVins` is the listing of the
vins table by `RetrieveAllVinDbIDs`, or its error. -/
structure SyncEnv where
  getBestBlock : Except String Int
  heightDB : Option String
  deindexAll : Option String
  steps : List SyncStep
  indexAll : Option String
  indexAddressTable : Option String
  allVins : Except String (TxTables → List (Stored VinTxProperty))
  chunkFaults : Nat → Option String

/-- How the loop of `SyncChainDB` ends: at the node's height, by a quit signal, or with an error. -/
inductive LoopEnd where
  | finished (nodeHeight : Int)
  | quit (height : Int)
  | failed (height : Int) (err : String)
deriving DecidableEq, Repr

/-- The loop of `SyncChainDB` from a height, toward the node's best height. -/
def syncLoop (hcd : Hcd) (updateAllAddresses : Bool) :
    List SyncStep → Int → Int → ChainDB → Option (LoopEnd × ChainDB)
  | steps, ib, nodeHeight, db =>
    if nodeHeight < ib then some (.finished nodeHeight, db)
    else
      match steps with
      | [] => none
      | step :: rest =>
        if step.quit then some (.quit (ib - 1), db)
        else
          match step.getBlock ib with
          | .error err => some (.failed (ib - 1) err, db)
          | .ok block =>
            match db.storeBlock hcd step.store block true (!updateAllAddresses) with
            | (.error err, db) => some (.failed (ib - 1) ("StoreBlock failed: " ++ err), db)
            | (.ok _, db) =>
              match step.getBestBlock with
              | .error err => some (.failed ib ("GetBestBlock failed: " ++ err), db)
              | .ok nodeHeight => syncLoop hcd updateAllAddresses rest (ib + 1) nodeHeight db

/-- How a synchronization ends: at a height, by quit or not, or with an error. -/
inductive SyncEnd where
  | finished (height : Int)
  | quit (height : Int)
  | failed (height : Int) (err : String)
deriving DecidableEq, Repr

namespace ChainDB

/-- The bulk update of `SyncChainDB`, whose errors are only logged. -/
def populateSpending (env : SyncEnv) (pgb : ChainDB) : ChainDB :=
  match env.allVins with
  | .error _ => pgb
  | .ok listing =>
    pgb.withTx { pgb.db.tx with
      tables := updateSpendingInfoInAllAddresses env.chunkFaults (listing pgb.db.tx.tables)
        pgb.db.tx.tables }

/-- `SyncChainDB` after its loop. The error it returns at the end is that of the
last index it builds outside the bulk update. -/
def finishSync (env : SyncEnv) (updateAllAddresses reindexing : Bool) (nodeHeight : Int)
    (pgb : ChainDB) : SyncEnd × ChainDB :=
  match (if reindexing then env.indexAll else none) with
  | some err => (.failed nodeHeight ("IndexAll failed: " ++ err), pgb)
  | none =>
    if updateAllAddresses then (.finished nodeHeight, pgb.populateSpending env)
    else
      match (if reindexing then env.indexAddressTable else none) with
      | some err => (.failed nodeHeight err, pgb)
      | none => (.finished nodeHeight, pgb)

/-- `EnableDuplicateCheckOnInsert`, which sets the flag for the INSERTs to come. -/
def enableDuplicateCheckOnInsert (dupCheck : Bool) (pgb : ChainDB) : ChainDB :=
  { pgb with dupChecks := dupCheck }

/-- Whether the synchronization drops the indexes and disables the duplicate
checks. -/
def reindexing (newIndexes : Bool) (nodeHeight lastBlock : Int) : Bool :=
  newIndexes || decide (nodeHeight.tdiv 2 < nodeHeight - lastBlock)

/-- `SyncChainDB`, with the preparation before its loop and the indexes after it; none while it
is running. -/
def syncChainDB (hcd : Hcd) (env : SyncEnv) (updateAllAddresses newIndexes : Bool)
    (pgb : ChainDB) : Option (SyncEnd × ChainDB) :=
  match env.getBestBlock with
  | .error err => some (.failed (-1) ("GetBestBlock failed: " ++ err), pgb)
  | .ok nodeHeight =>
    match env.heightDB with
    | some err => some (.failed (-1) ("RetrieveBestBlockHeight: " ++ err), pgb)
    | none =>
      let lastBlock := pgb.db.lastHeight
      let large := reindexing newIndexes nodeHeight lastBlock
      match (if large then env.deindexAll else none) with
      | some err => some (.failed lastBlock err, pgb)
      | none =>
        (syncLoop hcd updateAllAddresses env.steps (lastBlock + 1) nodeHeight
            (pgb.enableDuplicateCheckOnInsert !large)).map fun
          | (.finished nodeHeight, pgb) => pgb.finishSync env updateAllAddresses large nodeHeight
          | (.quit height, pgb) => (.quit height, pgb)
          | (.failed height err, pgb) => (.failed height err, pgb)

/-- A synchronization that ended either failed before its loop and changed nothing,
or ended with its loop, or with what follows a finished loop. -/
theorem syncChainDB_cases {hcd : Hcd} {env : SyncEnv} {updateAllAddresses newIndexes : Bool}
    {pgb after : ChainDB} {ended : SyncEnd}
    (ran : pgb.syncChainDB hcd env updateAllAddresses newIndexes = some (ended, after)) :
    ((∃ height err, ended = .failed height err) ∧ after = pgb ∧
        ((∃ err, env.getBestBlock = .error err) ∨ env.heightDB ≠ none ∨ env.deindexAll ≠ none)) ∨
      ∃ nodeHeight loopEnd middle, env.getBestBlock = .ok nodeHeight ∧
        syncLoop hcd updateAllAddresses env.steps (pgb.db.lastHeight + 1) nodeHeight
          (pgb.enableDuplicateCheckOnInsert
            !reindexing newIndexes nodeHeight pgb.db.lastHeight) = some (loopEnd, middle) ∧
        ((∃ height, loopEnd = .finished height ∧ middle.finishSync env updateAllAddresses
            (reindexing newIndexes nodeHeight pgb.db.lastHeight) height = (ended, after)) ∨
          (∃ height, loopEnd = .quit height ∧ ended = .quit height ∧ after = middle) ∨
          ∃ height err, loopEnd = .failed height err ∧ ended = .failed height err ∧ after = middle) := by
  unfold syncChainDB at ran
  split at ran
  · rename_i err unreachable
    obtain ⟨rfl, rfl⟩ := Prod.mk.inj (Option.some.inj ran)
    exact Or.inl ⟨⟨_, _, rfl⟩, rfl, Or.inl ⟨err, unreachable⟩⟩
  · rename_i nodeHeight best
    split at ran
    · rename_i err unreadable
      obtain ⟨rfl, rfl⟩ := Prod.mk.inj (Option.some.inj ran)
      exact Or.inl ⟨⟨_, _, rfl⟩, rfl, Or.inr (Or.inl (by simp [unreadable]))⟩
    · dsimp only at ran
      split at ran
      · rename_i err undropped
        obtain ⟨rfl, rfl⟩ := Prod.mk.inj (Option.some.inj ran)
        refine Or.inl ⟨⟨_, _, rfl⟩, rfl, Or.inr (Or.inr ?_)⟩
        intro dropped
        simp [dropped] at undropped
      · obtain ⟨⟨loopEnd, middle⟩, looped, same⟩ := Option.map_eq_some_iff.mp ran
        refine Or.inr ⟨nodeHeight, loopEnd, middle, best, looped, ?_⟩
        cases loopEnd with
        | finished height => exact Or.inl ⟨height, rfl, same⟩
        | quit height =>
          obtain ⟨rfl, rfl⟩ := Prod.mk.inj same
          exact Or.inr (Or.inl ⟨height, rfl, rfl, rfl⟩)
        | failed height err =>
          obtain ⟨rfl, rfl⟩ := Prod.mk.inj same
          exact Or.inr (Or.inr ⟨height, err, rfl, rfl, rfl⟩)

/-- `SyncChainDBAsync`, which passes its two flags on in the other order. -/
def syncChainDBAsync (hcd : Hcd) (env : SyncEnv) (updateAllAddresses newIndexes : Bool)
    (pgb : ChainDB) : Option (SyncEnd × ChainDB) :=
  pgb.syncChainDB hcd env newIndexes updateAllAddresses

end ChainDB

/-- The flags that `mainCore` chooses, `updateAllAddresses` and `newPGIndexes`, from
the node's height and that of the database. None is its error for a node that is
behind. -/
def chooseFlags (height : Int) (heightDB : Option Nat) : Option (Bool × Bool) :=
  let blocksBehind := height - (heightDB.getD 0 : Int)
  if blocksBehind < 0 then none
  else some (decide (7500 < blocksBehind), decide (7500 < blocksBehind ∧ 40000 < blocksBehind))

/-- The synchronization as `mainCore` starts it with its flags: they too are passed
in the other order, so that the two exchanges cancel. -/
def ChainDB.syncFromMain (hcd : Hcd) (env : SyncEnv) (updateAllAddresses newPGIndexes : Bool)
    (pgb : ChainDB) : Option (SyncEnd × ChainDB) :=
  pgb.syncChainDBAsync hcd env newPGIndexes updateAllAddresses

/-- The flags of the main function reach the parameters of their names. -/
theorem ChainDB.syncFromMain_eq (hcd : Hcd) (env : SyncEnv) (updateAllAddresses newPGIndexes : Bool)
    (pgb : ChainDB) : pgb.syncFromMain hcd env updateAllAddresses newPGIndexes =
      pgb.syncChainDB hcd env updateAllAddresses newPGIndexes := rfl

end Hcexplorer.Hcpg

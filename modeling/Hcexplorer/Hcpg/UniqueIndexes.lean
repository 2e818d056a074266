import Hcexplorer.Hcpg.BlockLinks

/-!
# The unique indexes under the duplicate checks

A checked INSERT names the columns of a unique index in its ON CONFLICT clause, and
PostgreSQL refuses it when there is no such index. `SyncChainDB` decides by the
height alone: far below the node it drops all indexes, turns the checks off, and
builds the indexes at its end; near the node it turns the checks on. Which indexes
are there depends on where an earlier process stopped.

The state between processes is the tables and the indexes. A process that drops the
indexes builds the two that the checks rely on when it goes through: no statement on
an index fails, the quit channel stays open, and every pass of its loop gets its block,
stores it and hears of the node's height. A process that leaves the indexes alone finds
them when the last one that dropped them went through. Where it did not, the next
process near the node executes `StoreBlock` with duplicate checks and without indexes.
-/

namespace Hcexplorer.Hcpg

open Runs

/-- The indexes that `IndexAll` and `IndexAddressTable` create, and that `DeindexAll` drops. -/
inductive Index where
  | blockHash
  | txHashes
  | txBlockIn
  | vin
  | vinPrevOut
  | voutTxHashIdx
  | voutTxHash
  | addressesAddress
  | addressesVoutID
  | addressesFundingTx
deriving DecidableEq, Repr

/-- Which indexes are in the database at a time. -/
abbrev Indexes := Index → Bool

/-- Why a DROP INDEX failed: with a text that says that something does not exist, in one of
the two languages that `SyncChainDB` looks for, or with another. -/
inductive DropError where
  | doesNotExist
  | other (reason : String)
deriving DecidableEq, Repr

/-- The error of `DeindexAll` that ends `SyncChainDB`, which does not mind an index that is not
there. -/
def DropError.refused : DropError → Option String
  | .doesNotExist => none
  | .other reason => some reason

/-- One DROP INDEX, whose error tells apart whether the index is not there. -/
def dropIndex (fault : Option DropError) (index : Index) (indexes : Indexes) :
    Option DropError × Indexes :=
  match fault with
  | some err => (some err, indexes)
  | none =>
    if indexes index then (none, Function.update indexes index false)
    else (some .doesNotExist, indexes)

/-- DROP INDEX for each of some indexes, whatever the errors; the last error is returned. -/
def dropIndexes (faults : Index → Option DropError) :
    List Index → Indexes → Option DropError × Indexes
  | [], indexes => (none, indexes)
  | index :: rest, indexes =>
    let (err, indexes) := dropIndex (faults index) index indexes
    let (errAny, indexes) := dropIndexes faults rest indexes
    (errAny.or err, indexes)

/-- One CREATE INDEX. It fails when the index is there, or as decided outside (two equal
rows under a unique index are such a failure). -/
def createIndex (fault : Option String) (index : Index) (indexes : Indexes) :
    Option String × Indexes :=
  match fault with
  | some err => (some err, indexes)
  | none =>
    if indexes index then (some "pq: relation already exists", indexes)
    else (none, Function.update indexes index true)

/-- CREATE INDEX for each, up to the first error. -/
def createIndexes (faults : Index → Option String) :
    List Index → Indexes → Option String × Indexes
  | [], indexes => (none, indexes)
  | index :: rest, indexes =>
    match createIndex (faults index) index indexes with
    | (some err, indexes) => (some err, indexes)
    | (none, indexes) => createIndexes faults rest indexes

/-- `DeindexAll`, over all indexes with those of the addresses table. -/
def deindexAll (faults : Index → Option DropError) : Indexes → Option DropError × Indexes :=
  dropIndexes faults [.blockHash, .txHashes, .txBlockIn, .vin, .vinPrevOut, .voutTxHashIdx,
    .voutTxHash, .addressesAddress, .addressesVoutID, .addressesFundingTx]

/-- `IndexAll`, which creates the indexes but two of the addresses table and stops at the first
error. -/
def indexAll (faults : Index → Option String) : Indexes → Option String × Indexes :=
  createIndexes faults [.blockHash, .txHashes, .txBlockIn, .vin, .vinPrevOut, .voutTxHashIdx,
    .voutTxHash, .addressesFundingTx]

/-- `IndexAddressTable`, which creates the two indexes that `IndexAll` leaves out. -/
def indexAddressTable (faults : Index → Option String) : Indexes → Option String × Indexes :=
  createIndexes faults [.addressesAddress, .addressesVoutID]

/-- `DeindexAddressTable`, which drops the two indexes that `IndexAddressTable` creates. -/
def deindexAddressTable (faults : Index → Option DropError) : Indexes → Option DropError × Indexes :=
  dropIndexes faults [.addressesAddress, .addressesVoutID]

/-- The failures of the index statements of one `SyncChainDB`: of `DeindexAll`, of
`IndexAll` and `IndexAddressTable`, and of `DeindexAddressTable`. -/
structure IndexEnv where
  drops : Index → Option DropError
  creates : Index → Option String
  addressDrops : Index → Option DropError

/-- The indexes are dropped by `DeindexAll` if the synchronization is large. -/
def deindexLarge (indexEnv : IndexEnv) (large : Bool) (indexes : Indexes) :
    Option DropError × Indexes :=
  if large then deindexAll indexEnv.drops indexes else (none, indexes)

namespace ChainDB

/-- `SyncChainDB` after its loop: the indexes are created as it is told, and the bulk update is
made. -/
def finishIndexed (env : SyncEnv) (indexEnv : IndexEnv) (updateAllAddresses reindexing : Bool)
    (nodeHeight : Int) (pgb : ChainDB) (indexes : Indexes) : SyncEnd × ChainDB × Indexes :=
  match (if reindexing then indexAll indexEnv.creates indexes else (none, indexes)) with
  | (some err, indexes) => (.failed nodeHeight ("IndexAll failed: " ++ err), pgb, indexes)
  | (none, indexes) =>
    if updateAllAddresses then
      (.finished nodeHeight, pgb.populateSpending env,
        (indexAddressTable indexEnv.creates
          (deindexAddressTable indexEnv.addressDrops indexes).2).2)
    else
      match (if reindexing then indexAddressTable indexEnv.creates indexes else (none, indexes)) with
      | (some err, indexes) => (.failed nodeHeight err, pgb, indexes)
      | (none, indexes) => (.finished nodeHeight, pgb, indexes)

/-- `SyncChainDB` with the indexes; none while it is running. -/
def syncIndexed (hcd : Hcd) (env : SyncEnv) (indexEnv : IndexEnv)
    (updateAllAddresses newIndexes : Bool) (pgb : ChainDB) (indexes : Indexes) :
    Option (SyncEnd × ChainDB × Indexes) :=
  match env.getBestBlock with
  | .error err => some (.failed (-1) ("GetBestBlock failed: " ++ err), pgb, indexes)
  | .ok nodeHeight =>
    match env.heightDB with
    | some err => some (.failed (-1) ("RetrieveBestBlockHeight: " ++ err), pgb, indexes)
    | none =>
      let lastBlock := pgb.db.lastHeight
      let large := reindexing newIndexes nodeHeight lastBlock
      let (errAny, indexes) := deindexLarge indexEnv large indexes
      match errAny.bind DropError.refused with
      | some err => some (.failed lastBlock err, pgb, indexes)
      | none =>
        (syncLoop hcd updateAllAddresses env.steps (lastBlock + 1) nodeHeight
            (pgb.enableDuplicateCheckOnInsert !large)).map fun
          | (.finished nodeHeight, pgb) =>
            pgb.finishIndexed env indexEnv updateAllAddresses large nodeHeight indexes
          | (.quit height, pgb) => (.quit height, pgb, indexes)
          | (.failed height err, pgb) => (.failed height err, pgb, indexes)

/-- The failures of index statements that `SyncChainDB` meets with these indexes. -/
def indexFailures (env : SyncEnv) (indexEnv : IndexEnv) (large : Bool) (indexes : Indexes) :
    SyncEnv :=
  let dropped := deindexLarge indexEnv large indexes
  let built := indexAll indexEnv.creates dropped.2
  { env with
    deindexAll := dropped.1.bind DropError.refused
    indexAll := built.1
    indexAddressTable := (indexAddressTable indexEnv.creates built.2).1 }

/-- The last part of `SyncChainDB` is that without indexes, with these failures. -/
theorem finishIndexed_fst (env : SyncEnv) (indexEnv : IndexEnv) (updateAllAddresses large : Bool)
    (nodeHeight : Int) (pgb : ChainDB) (indexes : Indexes) :
    let ended := pgb.finishIndexed env indexEnv updateAllAddresses large nodeHeight
      (deindexLarge indexEnv large indexes).2
    (ended.1, ended.2.1) = pgb.finishSync (indexFailures env indexEnv large indexes)
      updateAllAddresses large nodeHeight := by
  simp only [finishIndexed, finishSync, indexFailures]
  cases large with
  | false => cases updateAllAddresses <;> rfl
  | true =>
    simp only [if_true]
    rcases indexAll indexEnv.creates (deindexLarge indexEnv true indexes).2 with ⟨_ | err, built⟩
    · cases updateAllAddresses with
      | true => rfl
      | false =>
        simp only [Bool.false_eq_true, if_false]
        rcases indexAddressTable indexEnv.creates built with ⟨_ | err, _⟩
        · rfl
        · rfl
    · rfl

/-- With the indexes `SyncChainDB` ends, and leaves the tables, as without, with the
failures that the indexes lead to. -/
theorem syncIndexed_eq (hcd : Hcd) (env : SyncEnv) (indexEnv : IndexEnv)
    (updateAllAddresses newIndexes : Bool) (pgb : ChainDB) (indexes : Indexes) (nodeHeight : Int)
    (best : env.getBestBlock = .ok nodeHeight) :
    (pgb.syncIndexed hcd env indexEnv updateAllAddresses newIndexes indexes).map
        (fun ended => (ended.1, ended.2.1)) =
      pgb.syncChainDB hcd (indexFailures env indexEnv
        (reindexing newIndexes nodeHeight pgb.db.lastHeight) indexes)
        updateAllAddresses newIndexes := by
  unfold syncIndexed syncChainDB
  have sameBest : (indexFailures env indexEnv (reindexing newIndexes nodeHeight pgb.db.lastHeight)
      indexes).getBestBlock = .ok nodeHeight := best
  have finish := finishIndexed_fst env indexEnv updateAllAddresses
    (reindexing newIndexes nodeHeight pgb.db.lastHeight)
  simp only [best, sameBest]
  generalize reindexing newIndexes nodeHeight pgb.db.lastHeight = large at finish ⊢
  cases unread : env.heightDB with
  | some err => simp [indexFailures, unread]
  | none =>
    have dropped : (if large then (indexFailures env indexEnv large indexes).deindexAll else none) =
        (deindexLarge indexEnv large indexes).1.bind DropError.refused := by
      cases large <;> rfl
    have height : (indexFailures env indexEnv large indexes).heightDB = none := unread
    have steps : (indexFailures env indexEnv large indexes).steps = env.steps := rfl
    simp only [height, dropped, steps]
    cases (deindexLarge indexEnv large indexes).1.bind DropError.refused with
    | some err => rfl
    | none =>
      simp only [Option.map_map]
      congr 1
      funext pair
      obtain ⟨loopEnd, after⟩ := pair
      cases loopEnd with
      | finished height => exact finish height after indexes
      | quit height => rfl
      | failed height err => rfl

/-- The ChainDBs on which the loop of `SyncChainDB` executes `StoreBlock`, whether it ends or
is still running. -/
def loopStores (hcd : Hcd) (updateAllAddresses : Bool) :
    List SyncStep → Int → Int → ChainDB → List ChainDB
  | steps, ib, nodeHeight, db =>
    if nodeHeight < ib then []
    else
      match steps with
      | [] => []
      | step :: rest =>
        if step.quit then []
        else
          match step.getBlock ib with
          | .error _ => []
          | .ok block =>
            db :: match db.storeBlock hcd step.store block true (!updateAllAddresses) with
              | (.error _, _) => []
              | (.ok _, db) =>
                match step.getBestBlock with
                | .error _ => []
                | .ok nodeHeight => loopStores hcd updateAllAddresses rest (ib + 1) nodeHeight db

/-- Nothing is left to do at a height above the node's. -/
theorem syncLoop_behind {hcd : Hcd} {updateAllAddresses : Bool} {steps : List SyncStep}
    {ib nodeHeight : Int} (behind : nodeHeight < ib) (pgb : ChainDB) :
    syncLoop hcd updateAllAddresses steps ib nodeHeight pgb = some (.finished nodeHeight, pgb) ∧
      loopStores hcd updateAllAddresses steps ib nodeHeight pgb = [] := by
  cases steps with
  | nil =>
    rw [syncLoop, loopStores, if_pos behind, if_pos behind]
    exact ⟨rfl, rfl⟩
  | cons step rest =>
    rw [syncLoop, loopStores, if_pos behind, if_pos behind]
    exact ⟨rfl, rfl⟩

/-- The loop goes through: from the height on, every pass up to the node's best height finds
the quit channel open, gets its block, stores it and hears of the node's height. -/
inductive GoesThrough (hcd : Hcd) (updateAllAddresses : Bool) :
    List SyncStep → Int → Int → ChainDB → Prop
  | reached {steps : List SyncStep} {ib nodeHeight : Int} {pgb : ChainDB} :
      nodeHeight < ib → GoesThrough hcd updateAllAddresses steps ib nodeHeight pgb
  | pass {step : SyncStep} {rest : List SyncStep} {ib nodeHeight nextHeight : Int}
      {block : MsgBlock} {counts : Nat × Nat} {pgb stored : ChainDB} :
      ib ≤ nodeHeight → step.quit = false → step.getBlock ib = .ok block →
      pgb.storeBlock hcd step.store block true (!updateAllAddresses) = (.ok counts, stored) →
      step.getBestBlock = .ok nextHeight →
      GoesThrough hcd updateAllAddresses rest (ib + 1) nextHeight stored →
      GoesThrough hcd updateAllAddresses (step :: rest) ib nodeHeight pgb

/-- The loop is finished, at any height, exactly when it goes through. -/
theorem goesThrough_iff {hcd : Hcd} {updateAllAddresses : Bool} {steps : List SyncStep}
    {ib nodeHeight : Int} {pgb : ChainDB} :
    GoesThrough hcd updateAllAddresses steps ib nodeHeight pgb ↔
      ∃ height after,
        syncLoop hcd updateAllAddresses steps ib nodeHeight pgb = some (.finished height, after) := by
  constructor
  · intro through
    induction through with
    | reached behind =>
      exact ⟨_, _, (syncLoop_behind behind _).1⟩
    | pass ahead runs got stored best _ inductionHypothesis =>
      rw [syncLoop, if_neg (by omega)]
      simpa only [runs, got, stored, best, Bool.false_eq_true, if_false] using inductionHypothesis
  · rintro ⟨height, after, finished⟩
    induction steps generalizing ib nodeHeight pgb with
    | nil =>
      rw [syncLoop] at finished
      split at finished
      · rename_i behind
        exact .reached behind
      · cases finished
    | cons step rest inductionHypothesis =>
      rw [syncLoop] at finished
      split at finished
      · rename_i behind
        exact .reached behind
      · rename_i ahead
        split at finished
        · cases finished
        · rename_i runs
          split at finished
          · cases finished
          · rename_i block got
            split at finished
            · cases finished
            · rename_i counts stored isStored
              split at finished
              · cases finished
              · rename_i nextHeight best
                exact .pass (by omega) (by simpa using runs) got isStored best
                  (inductionHypothesis finished)

/-- `StoreBlock` leaves the setting of the duplicate checks as it was. -/
theorem storeBlock_dupChecks (hcd : Hcd) (env : StoreEnv) (msgBlock : MsgBlock)
    (isValid updateAddressesSpendingInfo : Bool) (pgb : ChainDB) :
    (pgb.storeBlock hcd env msgBlock isValid updateAddressesSpendingInfo).2.dupChecks =
      pgb.dupChecks := by
  have previous : ∀ (dbBlock : Block) (pgb : ChainDB),
      (pgb.updatePrevious env msgBlock dbBlock).2.dupChecks = pgb.dupChecks := by
    intro dbBlock pgb
    unfold updatePrevious
    dsimp only
    split
    · rfl
    · split
      · rfl
      · split <;> rfl
  have rows : ∀ (dbBlock : Block) (pgb : ChainDB),
      (pgb.storeBlockRows hcd env msgBlock dbBlock isValid).2.dupChecks = pgb.dupChecks := by
    intro dbBlock pgb
    unfold storeBlockRows
    split
    · rfl
    · dsimp only
      split
      · rfl
      · rw [previous]
  rcases pgb.storeBlock_cases hcd env msgBlock isValid updateAddressesSpendingInfo with
    ⟨-, err, stored⟩ | ⟨reg, stk, -, -, stored⟩
  · rw [stored]
    rfl
  · rw [stored, rows]
    rfl

/-- The passes of the loop leave the setting of the duplicate checks as it was. -/
theorem loopStores_dupChecks {hcd : Hcd} {updateAllAddresses : Bool} {steps : List SyncStep}
    {ib nodeHeight : Int} {pgb : ChainDB} :
    ∀ each ∈ loopStores hcd updateAllAddresses steps ib nodeHeight pgb,
      each.dupChecks = pgb.dupChecks := by
  induction steps generalizing ib nodeHeight pgb with
  | nil =>
    intro each member
    rw [loopStores] at member
    split at member <;> cases member
  | cons step rest inductionHypothesis =>
    intro each member
    rw [loopStores] at member
    split at member
    · cases member
    · split at member
      · cases member
      · split at member
        · cases member
        · rename_i block _
          rcases List.mem_cons.mp member with rfl | later
          · rfl
          · have same := storeBlock_dupChecks hcd step.store block true (!updateAllAddresses) pgb
            split at later
            · cases later
            · rename_i ended stored
              rw [stored] at same
              split at later
              · cases later
              · exact (inductionHypothesis each later).trans same

end ChainDB

section Processes

/-- What is in the database between processes: the tables and the indexes. The third field
is not in it. It is the history of the processes before: the last one that dropped the
indexes, if there was one, went through. -/
structure IndexedTables where
  db : ChainTables
  indexes : Indexes
  built : Prop

/-- The indexes that the ON CONFLICT clauses of `insertBlockRowChecked` and
`insertTxRowChecked` name. -/
def Checkable (indexes : Indexes) : Prop := indexes .blockHash = true ∧ indexes .txHashes = true

instance (indexes : Indexes) : Decidable (Checkable indexes) :=
  inferInstanceAs (Decidable (_ ∧ _))

/-- The created tables have no indexes, and no process has dropped any. -/
def IndexedTables.created : IndexedTables := ⟨.created, fun _ => false, True⟩

/-- One process: it opens the tables and runs `SyncChainDB`. -/
structure SyncRun where
  env : SyncEnv
  indexEnv : IndexEnv
  updateAllAddresses : Bool
  newIndexes : Bool

namespace SyncRun

/-- Whether the process comes to `DeindexAll`, or to enabling the duplicate checks. None is an
early error. -/
def large (run : SyncRun) (db : ChainTables) : Option Bool :=
  match run.env.getBestBlock, run.env.heightDB with
  | .ok nodeHeight, none => some (ChainDB.reindexing run.newIndexes nodeHeight db.lastHeight)
  | _, _ => none

/-- A process that drops the indexes goes through: every DROP INDEX succeeds or finds no
index, its loop goes through, and CREATE INDEX does not fail for the two that the duplicate
checks rely on. -/
structure Builds (hcd : Hcd) (db : ChainTables) (run : SyncRun) : Prop where
  drops : ∀ index, run.indexEnv.drops index = none
  passes : ∃ nodeHeight, run.env.getBestBlock = .ok nodeHeight ∧
    ChainDB.GoesThrough hcd run.updateAllAddresses run.env.steps (db.lastHeight + 1) nodeHeight
      ((newChainDB db).enableDuplicateCheckOnInsert false)
  creates : run.indexEnv.creates .blockHash = none ∧ run.indexEnv.creates .txHashes = none

/-- The database after the process, if it ends. The history is about this process when it
drops the indexes, and about an earlier one otherwise. -/
def perform (hcd : Hcd) (state : IndexedTables) (run : SyncRun) : Option IndexedTables :=
  ((newChainDB state.db).syncIndexed hcd run.env run.indexEnv run.updateAllAddresses run.newIndexes
      state.indexes).map fun (_, pgb, indexes) =>
    ⟨pgb.db, indexes,
      (run.large state.db = some true → run.Builds hcd state.db) ∧
        (run.large state.db ≠ some true → state.built)⟩

/-- The executions of `StoreBlock` in the process: whether with duplicate checks, and the
indexes then. -/
def stores (hcd : Hcd) (state : IndexedTables) (run : SyncRun) : List (Bool × Indexes) :=
  match run.env.getBestBlock, run.env.heightDB with
  | .ok nodeHeight, none =>
    let large := ChainDB.reindexing run.newIndexes nodeHeight state.db.lastHeight
    let dropped := deindexLarge run.indexEnv large state.indexes
    match dropped.1.bind DropError.refused with
    | some _ => []
    | none =>
      (ChainDB.loopStores hcd run.updateAllAddresses run.env.steps (state.db.lastHeight + 1)
        nodeHeight ((newChainDB state.db).enableDuplicateCheckOnInsert !large)).map
          fun pgb => (pgb.dupChecks, dropped.2)
  | _, _ => []

/-- A process that comes so far has read both heights. -/
theorem large_eq_some {db : ChainTables} {run : SyncRun} {isLarge : Bool}
    (decided : run.large db = some isLarge) :
    ∃ nodeHeight, run.env.getBestBlock = .ok nodeHeight ∧ run.env.heightDB = none ∧
      ChainDB.reindexing run.newIndexes nodeHeight db.lastHeight = isLarge := by
  unfold large at decided
  split at decided
  · exact ⟨_, by assumption, by assumption, Option.some.inj decided⟩
  · cases decided

/-- Each execution of `StoreBlock` with duplicate checks finds the indexes that they rely
on. -/
def Checks (hcd : Hcd) (state : IndexedTables) (run : SyncRun) : Prop :=
  ∀ store ∈ run.stores hcd state, store.1 = true → Checkable store.2

/-- A process that leaves the indexes alone comes to a block: the heights are read, the node
is ahead by a few blocks, and the first pass finds the quit channel open and gets its
block. -/
def ComesToBlock (db : ChainTables) (run : SyncRun) : Prop :=
  run.large db = some false ∧ ∃ nodeHeight step rest block,
    run.env.getBestBlock = .ok nodeHeight ∧ db.lastHeight + 1 ≤ nodeHeight ∧
      run.env.steps = step :: rest ∧ step.quit = false ∧
      step.getBlock (db.lastHeight + 1) = .ok block

/-- A process that leaves the indexes alone comes to a block only if the last process that
dropped them went through. -/
def AfterBuilding (state : IndexedTables) (run : SyncRun) : Prop :=
  run.ComesToBlock state.db → state.built

/-- The statements of `IndexAddressTable` and `DeindexAddressTable` are about other
indexes. -/
theorem dropIndexes_other {faults : Index → Option DropError} {statements : List Index}
    {index : Index} (other : index ∉ statements) (indexes : Indexes) :
    (dropIndexes faults statements indexes).2 index = indexes index := by
  induction statements generalizing indexes with
  | nil => rfl
  | cons first rest inductionHypothesis =>
    rw [List.mem_cons, not_or] at other
    rw [dropIndexes, inductionHypothesis other.2]
    unfold dropIndex
    split
    · rfl
    · split
      · exact Function.update_of_ne other.1 _ _
      · rfl

/-- Statements for other indexes leave an index as it was. -/
theorem createIndexes_other {faults : Index → Option String} {statements : List Index}
    {index : Index} (other : index ∉ statements) (indexes : Indexes) :
    (createIndexes faults statements indexes).2 index = indexes index := by
  induction statements generalizing indexes with
  | nil => rfl
  | cons first rest inductionHypothesis =>
    rw [List.mem_cons, not_or] at other
    have one : (createIndex (faults first) first indexes).2 index = indexes index := by
      unfold createIndex
      split
      · rfl
      · split
        · rfl
        · exact Function.update_of_ne other.1 _ _
    rw [createIndexes]
    split
    · rename_i err after created
      rw [created] at one
      exact one
    · rename_i after created
      rw [created] at one
      rw [inductionHypothesis other.2]
      exact one

/-- Dropping and building the indexes on addresses leaves the two. -/
theorem checkable_addresses (indexEnv : IndexEnv) (indexes : Indexes) :
    (Checkable (indexAddressTable indexEnv.creates indexes).2 ↔ Checkable indexes) ∧
      (Checkable (deindexAddressTable indexEnv.addressDrops indexes).2 ↔ Checkable indexes) := by
  have other : Index.blockHash ∉ [Index.addressesAddress, .addressesVoutID] ∧
      Index.txHashes ∉ [Index.addressesAddress, .addressesVoutID] := by decide
  unfold Checkable indexAddressTable deindexAddressTable
  constructor
  · rw [createIndexes_other other.1, createIndexes_other other.2]
  · rw [dropIndexes_other other.1, dropIndexes_other other.2]

/-- After its loop a process that leaves the indexes alone touches at most those on
addresses. One that dropped them has the two that `IndexAll` leaves. -/
theorem finishIndexed_checkable (env : SyncEnv) (indexEnv : IndexEnv)
    (updateAllAddresses large : Bool) (nodeHeight : Int) (pgb : ChainDB) (indexes : Indexes) :
    Checkable (pgb.finishIndexed env indexEnv updateAllAddresses large nodeHeight indexes).2.2 ↔
      Checkable (if large then (indexAll indexEnv.creates indexes).2 else indexes) := by
  have built := fun start => (checkable_addresses indexEnv start).1
  have dropped := fun start => (checkable_addresses indexEnv start).2
  unfold ChainDB.finishIndexed
  cases large with
  | false =>
    simp only [Bool.false_eq_true, if_false]
    cases updateAllAddresses with
    | false => exact Iff.rfl
    | true => simp only [if_true, built, dropped]
  | true =>
    simp only [if_true]
    rcases indexAll indexEnv.creates indexes with ⟨_ | err, after⟩
    · cases updateAllAddresses with
      | true => simp only [if_true, built, dropped]
      | false =>
        have same := built after
        simp only [Bool.false_eq_true, if_false]
        rcases indexed : indexAddressTable indexEnv.creates after with ⟨_ | err, last⟩
        · rwa [indexed] at same
        · rwa [indexed] at same
    · exact Iff.rfl

/-- When no DROP INDEX fails, the indexes are gone, and what is reported at most is that one
does not exist, which `SyncChainDB` accepts. -/
theorem dropIndexes_gone {faults : Index → Option DropError} (succeed : ∀ index, faults index = none)
    (statements : List Index) (indexes : Indexes) :
    (∀ index ∈ statements, (dropIndexes faults statements indexes).2 index = false) ∧
      (dropIndexes faults statements indexes).1.bind DropError.refused = none := by
  induction statements generalizing indexes with
  | nil => exact ⟨by simp, rfl⟩
  | cons first rest inductionHypothesis =>
    obtain ⟨gone, accepted⟩ := inductionHypothesis (dropIndex none first indexes).2
    have here : (dropIndex none first indexes).2 first = false ∧
        (dropIndex none first indexes).1.bind DropError.refused = none := by
      unfold dropIndex
      by_cases present : indexes first = true
      · simp [present]
      · simp [present, DropError.refused]
    rw [dropIndexes, succeed first]
    constructor
    · intro index member
      by_cases later : index ∈ rest
      · exact gone index later
      · obtain rfl : index = first := (List.mem_cons.mp member).resolve_right later
        exact (dropIndexes_other later _).trans here.1
    · simp only
      cases last : (dropIndexes faults rest (dropIndex none first indexes).2).1 with
      | none => exact here.2
      | some err => rwa [last] at accepted

/-- `IndexAll` leaves the two indexes, from a database without them, exactly when CREATE
INDEX fails for neither: they are the first that it builds. -/
theorem indexAll_checkable {faults : Index → Option String} {indexes : Indexes}
    (absent : indexes .blockHash = false ∧ indexes .txHashes = false) :
    Checkable (indexAll faults indexes).2 ↔ faults .blockHash = none ∧ faults .txHashes = none := by
  unfold indexAll
  rw [createIndexes]
  cases block : faults .blockHash with
  | some err => simp [createIndex, Checkable, absent]
  | none =>
    simp only [createIndex, absent.1, Bool.false_eq_true, if_false, true_and]
    have unbuilt : Function.update indexes Index.blockHash true .txHashes = false :=
      (Function.update_of_ne (by decide) _ _).trans absent.2
    rw [createIndexes]
    cases transaction : faults .txHashes with
    | some err => simp [createIndex, Checkable, absent.2]
    | none =>
      simp only [createIndex, unbuilt, Bool.false_eq_true, if_false]
      unfold Checkable
      rw [createIndexes_other (by decide), createIndexes_other (by decide)]
      simp

/-- Over tables without blocks a process leaves the indexes alone only when the node has
no blocks either. -/
theorem no_blocks_ahead {db : ChainTables} (empty : db.blocks = []) {newIndexes : Bool}
    {nodeHeight : Int} (small : ChainDB.reindexing newIndexes nodeHeight db.lastHeight = false) :
    nodeHeight < db.lastHeight + 1 := by
  have isLast : db.lastHeight = -1 := by
    simp [ChainTables.lastHeight, ChainTables.heightDB, empty]
  rw [isLast] at small ⊢
  simp only [ChainDB.reindexing, Bool.or_eq_false_iff, decide_eq_false_iff_not] at small
  by_contra ahead
  have nonneg : 0 ≤ nodeHeight := by omega
  rw [Int.tdiv_eq_ediv_of_nonneg nonneg] at small
  omega

/-- The bulk update leaves the blocks and only writes spending columns. -/
theorem finishIndexed_blocks (env : SyncEnv) (indexEnv : IndexEnv) (updateAllAddresses : Bool)
    (nodeHeight : Int) (pgb : ChainDB) (indexes : Indexes) :
    (pgb.finishIndexed env indexEnv updateAllAddresses false nodeHeight indexes).2.1.db.blocks =
      pgb.db.blocks := by
  simp only [ChainDB.finishIndexed, Bool.false_eq_true, if_false]
  cases updateAllAddresses with
  | false => rfl
  | true =>
    simp only [if_true, ChainDB.populateSpending]
    split <;> rfl

/-- A process that leaves the indexes alone leaves the two where they are or missing, and
stores no first block. -/
theorem perform_small {hcd : Hcd} {state : IndexedTables} {run : SyncRun} {ended : SyncEnd}
    {pgb : ChainDB} {indexes : Indexes} (small : run.large state.db ≠ some true)
    (ran : (newChainDB state.db).syncIndexed hcd run.env run.indexEnv run.updateAllAddresses
      run.newIndexes state.indexes = some (ended, pgb, indexes)) :
    (Checkable indexes ↔ Checkable state.indexes) ∧
      (state.db.blocks = [] → pgb.db.blocks = []) := by
  have sameTables : (newChainDB state.db).db = state.db := rfl
  cases best : run.env.getBestBlock with
  | error err =>
    simp only [ChainDB.syncIndexed, best, Option.some.injEq, Prod.mk.injEq] at ran
    obtain ⟨-, rfl, rfl⟩ := ran
    exact ⟨Iff.rfl, id⟩
  | ok nodeHeight =>
    cases unread : run.env.heightDB with
    | some err =>
      simp only [ChainDB.syncIndexed, best, unread, Option.some.injEq, Prod.mk.injEq] at ran
      obtain ⟨-, rfl, rfl⟩ := ran
      exact ⟨Iff.rfl, id⟩
    | none =>
      have alone : ChainDB.reindexing run.newIndexes nodeHeight state.db.lastHeight = false := by
        simpa [large, best, unread] using small
      simp only [ChainDB.syncIndexed, best, unread, sameTables, alone, deindexLarge,
        Bool.false_eq_true, if_false, Option.bind_none] at ran
      obtain ⟨⟨loopEnd, middle⟩, looped, finished⟩ := Option.map_eq_some_iff.mp ran
      have noBlocks : state.db.blocks = [] → middle.db.blocks = [] := by
        intro empty
        rw [(ChainDB.syncLoop_behind (no_blocks_ahead empty alone) _).1] at looped
        obtain ⟨-, rfl⟩ := Prod.mk.inj (Option.some.inj looped)
        exact empty
      cases loopEnd with
      | finished height =>
        have checkable := finishIndexed_checkable run.env run.indexEnv run.updateAllAddresses false
          height middle state.indexes
        have blocks := finishIndexed_blocks run.env run.indexEnv run.updateAllAddresses height
          middle state.indexes
        simp only at finished
        rw [finished] at checkable blocks
        exact ⟨checkable, fun empty => blocks.trans (noBlocks empty)⟩
      | quit height =>
        obtain ⟨-, rfl, rfl⟩ : _ ∧ middle = pgb ∧ state.indexes = indexes := by
          simpa using finished
        exact ⟨Iff.rfl, noBlocks⟩
      | failed height err =>
        obtain ⟨-, rfl, rfl⟩ : _ ∧ middle = pgb ∧ state.indexes = indexes := by
          simpa using finished
        exact ⟨Iff.rfl, noBlocks⟩

/-- A process that drops the indexes, with no DROP INDEX failing, leaves the two exactly when
it goes through. Proof: they are gone before the loop, and `IndexAll` runs only after a
loop that went through. -/
theorem perform_large {hcd : Hcd} {state : IndexedTables} {run : SyncRun} {ended : SyncEnd}
    {pgb : ChainDB} {indexes : Indexes} (isLarge : run.large state.db = some true)
    (succeed : ∀ index, run.indexEnv.drops index = none)
    (ran : (newChainDB state.db).syncIndexed hcd run.env run.indexEnv run.updateAllAddresses
      run.newIndexes state.indexes = some (ended, pgb, indexes)) :
    Checkable indexes ↔ run.Builds hcd state.db := by
  have sameTables : (newChainDB state.db).db = state.db := rfl
  obtain ⟨nodeHeight, best, unread, all⟩ := large_eq_some isLarge
  obtain ⟨gone, accepted⟩ := dropIndexes_gone succeed
    [.blockHash, .txHashes, .txBlockIn, .vin, .vinPrevOut, .voutTxHashIdx, .voutTxHash,
      .addressesAddress, .addressesVoutID, .addressesFundingTx] state.indexes
  have absent : (deindexAll run.indexEnv.drops state.indexes).2 .blockHash = false ∧
      (deindexAll run.indexEnv.drops state.indexes).2 .txHashes = false :=
    ⟨gone _ (by decide), gone _ (by decide)⟩
  have unrefused : (deindexAll run.indexEnv.drops state.indexes).1.bind DropError.refused = none :=
    accepted
  simp only [ChainDB.syncIndexed, best, unread, sameTables, all, deindexLarge, if_true, unrefused,
    Bool.not_true] at ran
  obtain ⟨⟨loopEnd, middle⟩, looped, finished⟩ := Option.map_eq_some_iff.mp ran
  have builds_iff : run.Builds hcd state.db ↔ (∃ height, loopEnd = .finished height) ∧
      run.indexEnv.creates .blockHash = none ∧ run.indexEnv.creates .txHashes = none := by
    constructor
    · rintro ⟨-, ⟨height, isBest, through⟩, created⟩
      obtain rfl : nodeHeight = height := Except.ok.inj (best.symm.trans isBest)
      obtain ⟨height, after, ended⟩ := ChainDB.goesThrough_iff.mp through
      rw [looped] at ended
      exact ⟨⟨height, (Prod.mk.inj (Option.some.inj ended)).1⟩, created⟩
    · rintro ⟨⟨height, rfl⟩, created⟩
      exact ⟨succeed, ⟨nodeHeight, best, ChainDB.goesThrough_iff.mpr ⟨height, middle, looped⟩⟩, created⟩
  rw [builds_iff]
  cases loopEnd with
  | finished height =>
    have checkable := finishIndexed_checkable run.env run.indexEnv run.updateAllAddresses true height
      middle (deindexAll run.indexEnv.drops state.indexes).2
    simp only at finished
    rw [finished] at checkable
    rw [if_pos rfl, indexAll_checkable absent] at checkable
    rw [checkable]
    exact ⟨fun created => ⟨⟨height, rfl⟩, created⟩, And.right⟩
  | quit height =>
    obtain ⟨-, rfl, rfl⟩ : _ ∧ middle = pgb ∧ (deindexAll run.indexEnv.drops state.indexes).2 = indexes := by
      simpa using finished
    simp [Checkable, absent]
  | failed height err =>
    obtain ⟨-, rfl, rfl⟩ : _ ∧ middle = pgb ∧ (deindexAll run.indexEnv.drops state.indexes).2 = indexes := by
      simpa using finished
    simp [Checkable, absent]

/-- In the database between processes: after a process that went through the two indexes are
there, or no block is stored yet. -/
def Tracked (state : IndexedTables) : Prop :=
  state.built → state.db.blocks = [] ∨ Checkable state.indexes

/-- Every process keeps track of the two indexes, however it ends. -/
theorem perform_tracked {hcd : Hcd} {state next : IndexedTables} {run : SyncRun}
    (tracked : Tracked state) (performed : run.perform hcd state = some next) : Tracked next := by
  obtain ⟨⟨ended, pgb, indexes⟩, ran, rfl⟩ := Option.map_eq_some_iff.mp performed
  rintro ⟨builds, earlier⟩
  by_cases isLarge : run.large state.db = some true
  · have through := builds isLarge
    exact Or.inr ((perform_large isLarge through.drops ran).mpr through)
  · obtain ⟨same, noBlocks⟩ := perform_small isLarge ran
    exact (tracked (earlier isLarge)).imp noBlocks same.mpr

/-- When no DROP INDEX fails, a process that did not go through leaves one of the two missing,
until another goes through. -/
theorem perform_missing {hcd : Hcd} {state next : IndexedTables} {run : SyncRun}
    (succeed : ∀ index, run.indexEnv.drops index = none)
    (missing : ¬ state.built → ¬ Checkable state.indexes)
    (performed : run.perform hcd state = some next) : ¬ next.built → ¬ Checkable next.indexes := by
  obtain ⟨⟨ended, pgb, indexes⟩, ran, rfl⟩ := Option.map_eq_some_iff.mp performed
  intro unbuilt checkable
  by_cases isLarge : run.large state.db = some true
  · have through : run.Builds hcd state.db := (perform_large isLarge succeed ran).mp checkable
    exact unbuilt ⟨fun _ => through, fun small => absurd isLarge small⟩
  · refine missing (fun built => ?_) ((perform_small isLarge ran).1.mp checkable)
    exact unbuilt ⟨fun isLarge' => absurd isLarge' isLarge, fun _ => built⟩

/-- The first pass of the loop executes `StoreBlock` exactly when it comes to a block. -/
theorem loopStores_ne_nil {hcd : Hcd} {updateAllAddresses : Bool} {steps : List SyncStep}
    {ib nodeHeight : Int} {pgb : ChainDB} :
    ChainDB.loopStores hcd updateAllAddresses steps ib nodeHeight pgb ≠ [] ↔
      ∃ step rest block, ib ≤ nodeHeight ∧ steps = step :: rest ∧ step.quit = false ∧
        step.getBlock ib = .ok block := by
  cases steps with
  | nil =>
    rw [ChainDB.loopStores]
    simp
  | cons step rest =>
    rw [ChainDB.loopStores]
    by_cases behind : nodeHeight < ib
    · simp [behind]
    · cases quits : step.quit with
      | true => simp [behind, quits]
      | false =>
        cases got : step.getBlock ib with
        | error err => simp [behind, quits, got]
        | ok block => simp [behind, quits, got, Int.not_lt.mp behind]

/-- An execution of `StoreBlock` with duplicate checks is one of a process that leaves the
indexes alone, finds the indexes of the start, and a block in the table. -/
theorem mem_stores {hcd : Hcd} {state : IndexedTables} {run : SyncRun} {store : Bool × Indexes}
    (member : store ∈ run.stores hcd state) (checked : store.1 = true) :
    run.ComesToBlock state.db ∧ store.2 = state.indexes ∧ state.db.blocks ≠ [] := by
  obtain ⟨nodeHeight, best, unread⟩ : ∃ nodeHeight, run.env.getBestBlock = .ok nodeHeight ∧
      run.env.heightDB = none := by
    unfold stores at member
    split at member
    · exact ⟨_, by assumption, by assumption⟩
    · cases member
  simp only [stores, best, unread] at member
  split at member
  · cases member
  · obtain ⟨each, executed, rfl⟩ := List.mem_map.mp member
    have same : each.dupChecks =
        !ChainDB.reindexing run.newIndexes nodeHeight state.db.lastHeight :=
      ChainDB.loopStores_dupChecks each executed
    have alone : ChainDB.reindexing run.newIndexes nodeHeight state.db.lastHeight = false := by
      simpa [same] using checked
    obtain ⟨step, rest, block, ahead, passes, runs, got⟩ :=
      loopStores_ne_nil.mp (List.ne_nil_of_mem executed)
    refine ⟨⟨by simp [large, best, unread, alone], nodeHeight, step, rest, block, best, ahead, passes,
      runs, got⟩, by rw [alone]; rfl, fun empty => ?_⟩
    have behind := no_blocks_ahead empty alone
    omega

/-- A process that leaves the indexes alone and comes to a block executes `StoreBlock` with
duplicate checks, over the indexes of its start. -/
theorem exists_store {hcd : Hcd} {state : IndexedTables} {run : SyncRun}
    (comes : run.ComesToBlock state.db) : (true, state.indexes) ∈ run.stores hcd state := by
  obtain ⟨small, nodeHeight, step, rest, block, best, ahead, passes, runs, got⟩ := comes
  obtain ⟨other, isBest, unread, alone⟩ := large_eq_some small
  obtain rfl : nodeHeight = other := Except.ok.inj (best.symm.trans isBest)
  obtain ⟨each, executed⟩ := List.exists_mem_of_ne_nil _ (loopStores_ne_nil.mpr
    ⟨step, rest, block, ahead, passes, runs, got⟩ :
      ChainDB.loopStores hcd run.updateAllAddresses run.env.steps (state.db.lastHeight + 1) nodeHeight
        ((newChainDB state.db).enableDuplicateCheckOnInsert true) ≠ [])
  have checks : each.dupChecks = true := ChainDB.loopStores_dupChecks each executed
  simp only [stores, best, unread, alone, deindexLarge, Bool.false_eq_true, if_false,
    Option.bind_none, Bool.not_false]
  exact List.mem_map.mpr ⟨each, executed, by rw [checks]⟩

/-- In every sequence of processes from created tables, each ended by completion, by quit or
by any error: if a process that leaves the indexes alone comes to a block only after the
last process that dropped them went through, the duplicate checks find their indexes at
every `StoreBlock`. Where no DROP INDEX fails, they find them only then. -/
theorem checks_of_afterBuilding (hcd : Hcd) (runs : List SyncRun) :
    (Admitted (perform hcd) AfterBuilding .created runs →
        Admitted (perform hcd) (fun state run => run.Checks hcd state) .created runs) ∧
      ((∀ run ∈ runs, ∀ index, run.indexEnv.drops index = none) →
        Admitted (perform hcd) (fun state run => run.Checks hcd state) .created runs →
          Admitted (perform hcd) AfterBuilding .created runs) := by
  constructor
  · have tracked : Tracked .created := fun _ => Or.inl rfl
    refine Admitted.imp Tracked (fun _ _ _ start _ performed => perform_tracked start performed)
      (fun state run start after store member checked => ?_) tracked
    obtain ⟨comes, sameIndexes, blocks⟩ := mem_stores member checked
    rw [sameIndexes]
    exact (start (after comes)).resolve_left blocks
  · intro succeed checks
    have missing : ¬ IndexedTables.created.built → ¬ Checkable IndexedTables.created.indexes :=
      fun unbuilt => absurd trivial unbuilt
    refine Admitted.imp (fun state => ¬ state.built → ¬ Checkable state.indexes)
      (fun _ _ _ start both performed => perform_missing both.2 start performed)
      (fun state run start both comes => ?_) missing (checks.and_mem succeed)
    by_contra unbuilt
    exact start unbuilt (both.1 _ (exists_store comes) rfl)

/-- A process toward a best height of the node, in some passes, whose index statements do not
fail. -/
def toward (tip : Int) (steps : List SyncStep) : SyncRun where
  env := ⟨.ok tip, none, none, steps, none, none, .error "not needed", fun _ => none⟩
  indexEnv := ⟨fun _ => none, fun _ => none, fun _ => none⟩
  updateAllAddresses := false
  newIndexes := false

/-- The first process loads two blocks and goes through. The second is near the node, turns
the checks on, and stores the third block over both indexes. -/
theorem checks_after_load :
    let loaded := toward 1 [passToward sampleChain 1, passToward sampleChain 1]
    let resumed := toward 2 [passToward sampleChain 2]
    (∃ state, exec (perform Sample.hcd) .created [loaded] = some state ∧
      (resumed.stores Sample.hcd state).map
        (fun store => (store.1, store.2 .blockHash, store.2 .txHashes)) = [(true, true, true)]) ∧
      Admitted (perform Sample.hcd) (fun state run => run.Checks Sample.hcd state) .created
        [loaded, resumed] := by
  intro loaded resumed
  have reads : (exec (perform Sample.hcd) .created [loaded]).map (fun state =>
      (resumed.stores Sample.hcd state).map
        fun store => (store.1, store.2 .blockHash, store.2 .txHashes)) =
      some [(true, true, true)] := by decide +kernel
  have isLarge : loaded.large ChainTables.created = some true := by decide +kernel
  have through : loaded.Builds Sample.hcd .created := by
    have finished : (syncLoop Sample.hcd false loaded.env.steps 0 1
        ((newChainDB .created).enableDuplicateCheckOnInsert false)).map Prod.fst =
        some (.finished 1) := by decide +kernel
    obtain ⟨⟨_, after⟩, looped, rfl⟩ := Option.map_eq_some_iff.mp finished
    exact ⟨fun _ => rfl, ⟨1, rfl, ChainDB.goesThrough_iff.mpr ⟨1, after, looped⟩⟩, rfl, rfl⟩
  refine ⟨Option.map_eq_some_iff.mp reads, ?_⟩
  refine (checks_of_afterBuilding Sample.hcd [loaded, resumed]).1 ⟨fun _ => trivial, ?_⟩
  intro next performed
  obtain ⟨_, -, rfl⟩ := Option.map_eq_some_iff.mp performed
  exact ⟨fun _ => ⟨fun _ => through, fun small => absurd isLarge small⟩, fun _ _ => trivial⟩

/-- A pass that finds the quit channel closed, and so is the last one. -/
def quitPass : SyncStep := { passToward sampleChain 2 with quit := true }

/-- A pass whose checked INSERT of the block is refused, as there is no index. -/
def refusedPass : SyncStep :=
  { passToward sampleChain 2 with
    store := { StoreEnv.noFaults [] with
      insertBlock := some ("pq: there is no unique or exclusion constraint matching the " ++
        "ON CONFLICT specification") } }

/-- The first process is ended by quit when two of three blocks are stored. The second is
near the node and turns the checks on, with no index there, and its `StoreBlock`
fails. So does that of every later one. -/
theorem checks_not_after_quit :
    let interrupted := toward 2 [passToward sampleChain 2, passToward sampleChain 2, quitPass]
    let resumed := toward 2 [refusedPass]
    (∃ state, exec (perform Sample.hcd) .created [interrupted] = some state ∧
      (resumed.stores Sample.hcd state).map
        (fun store => (store.1, store.2 .blockHash, store.2 .txHashes)) = [(true, false, false)]) ∧
      ¬ Admitted (perform Sample.hcd) (fun state run => run.Checks Sample.hcd state) .created
        [interrupted, resumed] := by
  intro interrupted resumed
  have reads : (exec (perform Sample.hcd) .created [interrupted]).map (fun state =>
      (resumed.stores Sample.hcd state).map
        fun store => (store.1, store.2 .blockHash, store.2 .txHashes)) =
      some [(true, false, false)] := by decide +kernel
  obtain ⟨state, ran, stored⟩ := Option.map_eq_some_iff.mp reads
  refine ⟨⟨state, ran, stored⟩, ?_⟩
  rintro ⟨-, later⟩
  obtain ⟨middle, performed, same⟩ := Option.bind_eq_some_iff.mp ran
  obtain rfl : middle = state := Option.some.inj same
  have checks : resumed.Checks Sample.hcd middle := (later middle performed).1
  obtain ⟨store, member, fields⟩ := List.mem_map.mp (stored ▸ List.mem_singleton_self _)
  simp only [Prod.mk.injEq] at fields
  obtain ⟨checked, missing, -⟩ := fields
  have present : store.2 .blockHash = true := (checks store member checked).1
  rw [missing] at present
  cases present

end SyncRun

end Processes

end Hcexplorer.Hcpg

import Hcexplorer.Hcpg.BlockLinks
import Hcexplorer.Hcpg.BlocksTable
import Hcexplorer.CollectedBlocks

/-!
# Blocks missing from the database

Three paths store blocks: the synchronization at the start of a process, the saver
of connected blocks, and, in a reorganization, nobody. The synchronization resumes
above the greatest stored height. So a height that was skipped, by a store that
failed before another one succeeded, or whose block was exchanged by a
reorganization, is never returned to.

The law is about runs of notifications, reorganizations, failing statements and
restarts, against a node whose main chain changes at any time, also between the
calls of a synchronization. As long as no reorganization detaches a stored block
and every connected block that is stored is at most one above the stored ones, each
synchronization that finishes at a height leaves the main chain up to that height
in the table.
-/

namespace Hcexplorer.Hcpg

open Runs Collection

section Runs

/-- A main chain of the node: a block's position is its height. -/
structure NodeChain where
  blocks : List MsgBlock
  height_eq : ∀ (i : Nat) block, blocks[i]? = some block → block.header.height.toNat = i

/-- The main chain during a synchronization: when the best height is asked and when
the next block is asked, with a number of blocks stored. -/
structure NodeAt where
  atBestBlock : Nat → NodeChain
  atGetBlock : Nat → NodeChain

/-- The node, the monitor of the running process, and the database. `synced` is the
height at which a synchronization has just finished. -/
structure Explorer where
  main : NodeChain
  monitor : Collection.ChainMonitor
  running : Bool
  pgb : ChainDB
  synced : Option Int

/-- What happens: the node's main chain changes, a connected block is handled, a
reorganization is noted, or a process starts over the tables and synchronizes. -/
inductive Occurrence where
  | node (main : NodeChain)
  | block (hash : Hash) (answers : Answers) (env : StoreEnv)
  | reorganization (data : ReorgData)
  | restart (sync : SyncEnv) (updateAllAddresses newIndexes : Bool) (nodeAt : NodeAt)

/-- The calls of `Store` of the PostgreSQL saver. Nobody looks at the errors. -/
def storeCalls {measures : Measures} (hcd : Hcd) (env : StoreEnv) (calls : List (StoreCall measures))
    (pgb : ChainDB) : ChainDB :=
  (calls.filter fun call => call.saver = .chainDB).foldl
    (fun pgb call => (pgb.store hcd env call.msgBlock).2) pgb

/-- Perform an occurrence. A process whose synchronization has not finished ends,
and handles no block. -/
def Explorer.step (hcd : Hcd) (params : ChainParams) (measures : Measures) (state : Explorer) :
    Occurrence → Option Explorer
  | .node main => some { state with main := main, synced := none }
  | .block hash answers env =>
    if state.running then
      (state.monitor.blockConnected hcd params measures answers hash).result?.map
        fun (monitor, calls) => { state with
          monitor := monitor, pgb := storeCalls hcd env calls state.pgb, synced := none }
    else none
  | .reorganization data =>
    if state.running then
      some { state with monitor := state.monitor.reorganization data, synced := none }
    else none
  | .restart sync updateAllAddresses newIndexes nodeAt =>
    ((newChainDB state.pgb.db).syncFromMain hcd sync updateAllAddresses newIndexes).map
      fun (ended, pgb) =>
        let synced := match ended with
          | .finished height => some height
          | .quit _ => none
          | .failed _ _ => none
        { main := nodeAt.atBestBlock pgb.db.count
          monitor := ⟨[], false, none⟩
          running := synced.isSome
          pgb := pgb
          synced := synced }

/-- The node while a synchronization goes through its passes: its answers are those
of its main chain at the time, which then contains the blocks kept so far. -/
def Follows (nodeAt : NodeAt) : List SyncStep → List MsgBlock → Prop
  | [], kept => kept <+: (nodeAt.atBestBlock kept.length).blocks
  | step :: rest, kept =>
    kept <+: (nodeAt.atBestBlock kept.length).blocks ∧
    kept <+: (nodeAt.atGetBlock kept.length).blocks ∧
    ∀ block, step.getBlock kept.length = .ok block →
      (nodeAt.atGetBlock kept.length).blocks[kept.length]? = some block ∧
      (∀ tip, step.getBestBlock = .ok tip →
        tip + 1 = (nodeAt.atBestBlock (kept.length + 1)).blocks.length) ∧
      Follows nodeAt rest (kept ++ [block])

/-- The blocks of the main chain at the stored heights. -/
def Explorer.kept (state : Explorer) : List MsgBlock :=
  state.main.blocks.take state.pgb.db.count

/-- The node's main chain keeps the blocks at stored heights, and a connected block
whose row is inserted is one of them or the next one. -/
def Contiguous (state : Explorer) : Occurrence → Prop
  | .node main => main.blocks.take state.pgb.db.count = state.kept
  | .block hash answers env => state.monitor.reorganizing = false →
      ∀ block, answers.getBlock hash = .ok block →
        env.insertBlock ≠ none ∨ ∃ i ≤ state.pgb.db.count, state.main.blocks[i]? = some block
  | .reorganization _ => True
  | .restart sync _ _ nodeAt => Follows nodeAt sync.steps state.kept ∧
      ∀ tip, sync.getBestBlock = .ok tip →
        tip + 1 = (nodeAt.atBestBlock state.pgb.db.count).blocks.length

/-- The blocks have a row each, at their positions, and nothing higher is stored. -/
structure Keeps (hcd : Hcd) (kept : List MsgBlock) (db : ChainTables) : Prop where
  count : db.count = kept.length
  stored : ∀ (i : Nat) block, kept[i]? = some block → (hcd.hashOf block, i) ∈ db.stored

variable {hcd : Hcd} {params : ChainParams} {measures : Measures} {kept : List MsgBlock}
  {pgb : ChainDB}

/-- Only the rows of the blocks table matter to what is kept. -/
theorem Keeps.congr {db after : ChainTables} (keeps : Keeps hcd kept db)
    (same : after.stored = db.stored) : Keeps hcd kept after :=
  ⟨(ChainTables.count_congr same).trans keeps.count, same ▸ keeps.stored⟩

/-- Storing the next block keeps it too, or it fails. -/
theorem Keeps.storeNext (keeps : Keeps hcd kept pgb.db) (main : NodeChain) {block : MsgBlock}
    (isNext : main.blocks[kept.length]? = some block) (env : StoreEnv)
    (updateAddressesSpendingInfo : Bool) :
    let result := pgb.storeBlock hcd env block true updateAddressesSpendingInfo
    ((∃ err, result.1 = .error err) ∧ Keeps hcd kept result.2.db) ∨
      (env.insertBlock = none ∧ Keeps hcd (kept ++ [block]) result.2.db) := by
  intro result
  rcases pgb.storeBlock_stored hcd env block true updateAddressesSpendingInfo with
    ⟨failed, same⟩ | ⟨noFault, added⟩
  · exact Or.inl ⟨failed, keeps.congr same⟩
  · refine Or.inr ⟨noFault, ?_, ?_⟩
    · rw [ChainTables.count_append added, keeps.count, main.height_eq _ block isNext,
        List.length_append, List.length_singleton]
      omega
    · intro i other found
      rw [show result.2.db.stored = _ from added]
      by_cases old : i < kept.length
      · rw [List.getElem?_append_left old] at found
        exact List.mem_append_left _ (keeps.stored i other found)
      · have inside := (List.getElem?_eq_some_iff.mp found).1
        rw [List.length_append, List.length_singleton] at inside
        obtain rfl : i = kept.length := by omega
        rw [List.getElem?_append_right (Nat.le_refl _), Nat.sub_self] at found
        obtain rfl : block = other := Option.some.inj found
        rw [main.height_eq _ block isNext]
        exact List.mem_append_right _ (List.mem_singleton.mpr rfl)

/-- Storing a block that is kept already leaves the rows of the others. -/
theorem Keeps.storeAgain (keeps : Keeps hcd kept pgb.db) (main : NodeChain) {block : MsgBlock}
    {i : Nat} (isBlock : main.blocks[i]? = some block) (inside : i < kept.length) (env : StoreEnv)
    (updateAddressesSpendingInfo : Bool) :
    Keeps hcd kept (pgb.storeBlock hcd env block true updateAddressesSpendingInfo).2.db := by
  rcases pgb.storeBlock_stored hcd env block true updateAddressesSpendingInfo with
    ⟨-, same⟩ | ⟨-, added⟩
  · exact keeps.congr same
  · refine ⟨?_, ?_⟩
    · rw [ChainTables.count_append added, keeps.count, main.height_eq _ block isBlock]
      omega
    · intro j other found
      rw [added]
      exact List.mem_append_left _ (keeps.stored j other found)

/-- The node's main chain starts with the kept blocks. -/
theorem Follows.start {nodeAt : NodeAt} {steps : List SyncStep}
    (follows : Follows nodeAt steps kept) : kept <+: (nodeAt.atBestBlock kept.length).blocks := by
  cases steps with
  | nil => exact follows
  | cons step rest => exact follows.1

/-- The loop of a synchronization keeps the blocks it stores, in the order of the
main chain, and does not finish below the node's height. -/
theorem Keeps.syncLoop {nodeAt : NodeAt} {updateAllAddresses : Bool} {steps : List SyncStep}
    (follows : Follows nodeAt steps kept) (keeps : Keeps hcd kept pgb.db) {nodeHeight : Int}
    (isBest : nodeHeight + 1 = (nodeAt.atBestBlock kept.length).blocks.length) {ended : LoopEnd}
    {after : ChainDB}
    (ran : syncLoop hcd updateAllAddresses steps kept.length nodeHeight pgb = some (ended, after)) :
    ∃ final, Keeps hcd final after.db ∧ final <+: (nodeAt.atBestBlock final.length).blocks ∧
      ∀ height, ended = .finished height →
        height + 1 = (nodeAt.atBestBlock final.length).blocks.length ∧ height < final.length := by
  induction steps generalizing kept pgb nodeHeight with
  | nil =>
    rw [Hcpg.syncLoop] at ran
    split at ran
    · rename_i reached
      obtain ⟨rfl, rfl⟩ := Prod.mk.inj (Option.some.inj ran)
      refine ⟨kept, keeps, follows, ?_⟩
      rintro height ⟨⟩
      exact ⟨isBest, reached⟩
    · cases ran
  | cons step rest inductionHypothesis =>
    obtain ⟨atBest, -, answers⟩ := follows
    rw [Hcpg.syncLoop] at ran
    split at ran
    · rename_i reached
      obtain ⟨rfl, rfl⟩ := Prod.mk.inj (Option.some.inj ran)
      refine ⟨kept, keeps, atBest, ?_⟩
      rintro height ⟨⟩
      exact ⟨isBest, reached⟩
    · split at ran
      · obtain ⟨rfl, rfl⟩ := Prod.mk.inj (Option.some.inj ran)
        exact ⟨kept, keeps, atBest, by simp⟩
      · split at ran
        · obtain ⟨rfl, rfl⟩ := Prod.mk.inj (Option.some.inj ran)
          exact ⟨kept, keeps, atBest, by simp⟩
        · rename_i block fetched
          obtain ⟨isNext, bestNext, followsNext⟩ := answers block fetched
          have stores := keeps.storeNext (nodeAt.atGetBlock kept.length) isNext step.store
            (!updateAllAddresses)
          have atNext : kept ++ [block] <+:
              (nodeAt.atBestBlock (kept ++ [block]).length).blocks := followsNext.start
          split at ran
          · rename_i err middle failed
            obtain ⟨rfl, rfl⟩ := Prod.mk.inj (Option.some.inj ran)
            rw [failed] at stores
            rcases stores with ⟨-, same⟩ | ⟨-, grown⟩
            · exact ⟨kept, same, atBest, by simp⟩
            · exact ⟨kept ++ [block], grown, atNext, by simp⟩
          · rename_i counts middle stored
            rw [stored] at stores
            obtain ⟨-, grown⟩ := stores.resolve_left (by rintro ⟨⟨err, impossible⟩, -⟩; cases impossible)
            split at ran
            · obtain ⟨rfl, rfl⟩ := Prod.mk.inj (Option.some.inj ran)
              exact ⟨kept ++ [block], grown, atNext, by simp⟩
            · rename_i next asked
              have length : (kept ++ [block]).length = kept.length + 1 := by simp
              have isBestNext :
                  next + 1 = (nodeAt.atBestBlock (kept ++ [block]).length).blocks.length := by
                rw [length]
                exact bestNext next asked
              refine inductionHypothesis followsNext grown isBestNext ?_
              rw [length]
              exact_mod_cast ran

/-- What follows the loop leaves the rows, and finishes at the loop's height or
fails. -/
theorem Keeps.finishSync {env : SyncEnv} {updateAllAddresses reindexing : Bool} {nodeHeight : Int}
    {ended : SyncEnd} {after : ChainDB} (keeps : Keeps hcd kept pgb.db)
    (finished : pgb.finishSync env updateAllAddresses reindexing nodeHeight = (ended, after)) :
    Keeps hcd kept after.db ∧ ∀ height, ended = .finished height → height = nodeHeight := by
  unfold ChainDB.finishSync at finished
  split at finished
  · obtain ⟨rfl, rfl⟩ := Prod.mk.inj finished
    exact ⟨keeps, by simp⟩
  · split at finished
    · obtain ⟨rfl, rfl⟩ := Prod.mk.inj finished
      refine ⟨keeps.congr ?_, by simp [eq_comm]⟩
      unfold ChainDB.populateSpending
      split <;> rfl
    · split at finished
      · obtain ⟨rfl, rfl⟩ := Prod.mk.inj finished
        exact ⟨keeps, by simp⟩
      · obtain ⟨rfl, rfl⟩ := Prod.mk.inj finished
        exact ⟨keeps, by simp [eq_comm]⟩

/-- A synchronization keeps the blocks it stores. One that finishes has stored the
main chain up to its height. -/
theorem Keeps.syncChainDB {nodeAt : NodeAt} {sync : SyncEnv} {updateAllAddresses newIndexes : Bool}
    (follows : Follows nodeAt sync.steps kept) (keeps : Keeps hcd kept pgb.db)
    (isBest : ∀ tip, sync.getBestBlock = .ok tip →
      tip + 1 = (nodeAt.atBestBlock kept.length).blocks.length)
    {ended : SyncEnd} {after : ChainDB}
    (ran : pgb.syncChainDB hcd sync updateAllAddresses newIndexes = some (ended, after)) :
    ∃ final, Keeps hcd final after.db ∧ final <+: (nodeAt.atBestBlock final.length).blocks ∧
      ∀ height, ended = .finished height →
        height + 1 = (nodeAt.atBestBlock final.length).blocks.length ∧ height < final.length := by
  have atBest := follows.start
  rcases ChainDB.syncChainDB_cases ran with ⟨⟨height, err, rfl⟩, rfl, -⟩ |
    ⟨nodeHeight, loopEnd, middle, best, looped, exits⟩
  · exact ⟨kept, keeps, atBest, by simp⟩
  · rw [ChainTables.lastHeight_succ, keeps.count] at looped
    have started : Keeps hcd kept (pgb.enableDuplicateCheckOnInsert
        !ChainDB.reindexing newIndexes nodeHeight pgb.db.lastHeight).db := keeps
    obtain ⟨final, kept, within, finishes⟩ := started.syncLoop follows (isBest _ best) looped
    rcases exits with ⟨height, rfl, finish⟩ | ⟨height, rfl, rfl, rfl⟩ | ⟨height, err, rfl, rfl, rfl⟩
    · obtain ⟨keptAfter, sameHeight⟩ := kept.finishSync finish
      refine ⟨final, keptAfter, within, ?_⟩
      intro other finished
      obtain rfl := sameHeight other finished
      exact finishes _ rfl
    · exact ⟨final, kept, within, by simp⟩
    · exact ⟨final, kept, within, by simp⟩

/-- The blocks of the node's main chain at the stored heights have their rows, and
a synchronization that has just finished is at the node's height and no higher
than what is stored. -/
structure Covered (hcd : Hcd) (state : Explorer) : Prop where
  keeps : Keeps hcd state.kept state.pgb.db
  synced : ∀ height, state.synced = some height →
    height + 1 = state.main.blocks.length ∧ height < state.kept.length

/-- A list of blocks that the main chain starts with and that is kept, is the kept
part of the main chain. -/
theorem Keeps.covered {state : Explorer} (keeps : Keeps hcd kept state.pgb.db)
    (within : kept <+: state.main.blocks)
    (synced : ∀ height, state.synced = some height →
      height + 1 = state.main.blocks.length ∧ height < kept.length) : Covered hcd state := by
  have same : kept = state.kept := by
    rw [Explorer.kept, keeps.count]
    exact List.prefix_iff_eq_take.mp within
  exact ⟨same ▸ keeps, same ▸ synced⟩

/-- The PostgreSQL saver is called with the announced block, once or not at all, and
not at all in a reorganization. -/
theorem storeCalls_cases {monitor after : Collection.ChainMonitor} {answers : Answers} {hash : Hash}
    {calls : List (StoreCall measures)} (env : StoreEnv)
    (returned : monitor.blockConnected hcd params measures answers hash = .returned (after, calls)) :
    storeCalls hcd env calls pgb = pgb ∨ (monitor.reorganizing = false ∧
      ∃ block, answers.getBlock hash = .ok block ∧
        storeCalls hcd env calls pgb = (pgb.store hcd env block).2) := by
  have elsewhere (data : BlockData measures) (block : MsgBlock) :
      (reorgDataSavers.map fun s => (⟨s, data, block⟩ : StoreCall measures)).filter
        (fun call => call.saver = .chainDB) = [] := by simp [reorgDataSavers]
  have once (data : BlockData measures) (block : MsgBlock) :
      (dataSavers.map fun s => (⟨s, data, block⟩ : StoreCall measures)).filter
        (fun call => call.saver = .chainDB) = [⟨.chainDB, data, block⟩] := by simp [dataSavers]
  unfold Collection.ChainMonitor.blockConnected at returned
  split at returned
  · left
    split at returned
    · cases returned
    · split at returned
      · obtain ⟨-, rfl⟩ := Prod.mk.inj (Outcome.returned.inj returned)
        rfl
      · obtain ⟨inner, collected, same⟩ := Outcome.bind_eq_returned.mp returned
        obtain ⟨-, rfl⟩ := Prod.mk.inj (Outcome.returned.inj same)
        rcases collectAndStore_cases collected with rfl | ⟨block, count, data, _, -, -, rfl, -⟩
        · rfl
        · rw [storeCalls, elsewhere]
          rfl
  · rename_i notReorganizing
    obtain ⟨inner, collected, same⟩ := Outcome.bind_eq_returned.mp returned
    obtain ⟨-, rfl⟩ := Prod.mk.inj (Outcome.returned.inj same)
    rcases collectAndStore_cases collected with rfl | ⟨block, count, data, _, found, -, rfl, -⟩
    · exact Or.inl rfl
    · refine Or.inr ⟨Bool.eq_false_iff.mpr notReorganizing, block, found, ?_⟩
      rw [storeCalls, once]
      rfl

/-- After a connected block the tables have a first part of the main chain, if the block is a
stored one or the next, or its row is not inserted. -/
theorem Covered.storeBlock {state : Explorer} (covered : Covered hcd state) {env : StoreEnv}
    {block : MsgBlock} (inTurn : env.insertBlock ≠ none ∨
      ∃ i ≤ state.pgb.db.count, state.main.blocks[i]? = some block) :
    ∃ kept, Keeps hcd kept (state.pgb.storeBlock hcd env block true true).2.db ∧
      kept <+: state.main.blocks := by
  have within : state.kept <+: state.main.blocks := List.take_prefix _ _
  rcases inTurn with isFault | ⟨i, below, isBlock⟩
  · rcases state.pgb.storeBlock_stored hcd env block true true with ⟨-, same⟩ | ⟨noFault, -⟩
    · exact ⟨_, covered.keeps.congr same, within⟩
    · exact absurd noFault isFault
  · rw [covered.keeps.count] at below
    by_cases again : i < state.kept.length
    · exact ⟨_, covered.keeps.storeAgain state.main isBlock again env true, within⟩
    · obtain rfl : i = state.kept.length := by omega
      rcases covered.keeps.storeNext state.main isBlock env true with ⟨-, same⟩ | ⟨-, grown⟩
      · exact ⟨_, same, within⟩
      · refine ⟨_, grown, ?_⟩
        have oneMore : state.kept ++ [block] =
            state.main.blocks.take (state.pgb.db.count + 1) := by
          rw [← covered.keeps.count] at isBlock
          rw [List.take_add_one, isBlock, Explorer.kept]
          rfl
        rw [oneMore]
        exact List.take_prefix _ _

/-- Every occurrence that meets the condition keeps the main chain covered. -/
theorem Covered.step {state next : Explorer} {occurrence : Occurrence} (covered : Covered hcd state)
    (contiguous : Contiguous state occurrence)
    (taken : state.step hcd params measures occurrence = some next) : Covered hcd next := by
  cases occurrence with
  | node main =>
    obtain rfl := Option.some.inj taken
    refine ⟨?_, by simp⟩
    rw [Explorer.kept, show main.blocks.take state.pgb.db.count = state.kept from contiguous]
    exact covered.keeps
  | reorganization data =>
    simp only [Explorer.step] at taken
    split at taken
    · obtain rfl := Option.some.inj taken
      exact ⟨covered.keeps, by simp⟩
    · cases taken
  | block hash answers env =>
    simp only [Explorer.step] at taken
    split at taken
    · obtain ⟨⟨monitor, calls⟩, ended, rfl⟩ := Option.map_eq_some_iff.mp taken
      rcases storeCalls_cases env (Outcome.result?_eq_some.mp ended) with
        unchanged | ⟨notReorganizing, block, found, stored⟩
      · refine Keeps.covered ?_ (List.take_prefix _ _ : state.kept <+: state.main.blocks) (by simp)
        rw [unchanged]
        exact covered.keeps
      · have isStore : (state.pgb.store hcd env block).2 =
            (state.pgb.storeBlock hcd env block true true).2 := rfl
        obtain ⟨kept, keeps, within⟩ := covered.storeBlock (contiguous notReorganizing block found)
        refine Keeps.covered ?_ within (by simp)
        rw [stored, isStore]
        exact keeps
    · cases taken
  | restart sync updateAllAddresses newIndexes nodeAt =>
    obtain ⟨follows, isBest⟩ := contiguous
    obtain ⟨⟨ended, pgb⟩, ran, rfl⟩ := Option.map_eq_some_iff.mp taken
    rw [ChainDB.syncFromMain_eq] at ran
    have opened : Keeps hcd state.kept (newChainDB state.pgb.db).db := covered.keeps
    rw [covered.keeps.count] at isBest
    obtain ⟨final, keeps, within, finishes⟩ := opened.syncChainDB follows isBest ran
    have isMain : nodeAt.atBestBlock pgb.db.count = nodeAt.atBestBlock final.length := by
      rw [keeps.count]
    rw [← isMain] at within finishes
    refine keeps.covered within ?_
    intro height synced
    cases ended with
    | finished reached => exact finishes height (by rw [← Option.some.inj synced])
    | quit _ => cases synced
    | failed _ _ => cases synced

/-- Whenever a synchronization has finished at a height, the blocks table has the
node's main-chain block at every height up to it, in every run from empty tables in
which no stored block is detached and no connected block is stored above a gap.

Covering is kept by each occurrence; a finished synchronization is at the node's
height, and below what is stored. -/
theorem mainChain_stored {start state : Explorer} (noBlocks : start.pgb.db.blocks = [])
    (notSynced : start.synced = none) {occurrences : List Occurrence}
    (contiguous : Admitted (Explorer.step hcd params measures) Contiguous start occurrences)
    (ran : exec (Explorer.step hcd params measures) start occurrences = some state)
    {height : Int} (synced : state.synced = some height) (i : Nat) (reached : i ≤ height) :
    ∃ block, state.main.blocks[i]? = some block ∧ ∃ stored ∈ state.pgb.db.blocks,
      stored.row.block.hash = hcd.hashOf block ∧ stored.row.block.height.toNat = i := by
  have empty : Keeps hcd [] start.pgb.db := by
    refine ⟨?_, by simp⟩
    simp [ChainTables.count, ChainTables.heightDB, noBlocks]
  have started : Covered hcd start := empty.covered List.nil_prefix (by simp [notSynced])
  have covered : Covered hcd state := exec_invariant (Covered hcd)
    (fun _ _ _ holds allowed taken => holds.step allowed taken) started contiguous ran
  have below : i < state.kept.length := by
    have := (covered.synced height synced).2
    omega
  have isKept := List.getElem?_eq_getElem below
  have isMain : state.main.blocks[i]? = some state.kept[i] := by
    rw [← isKept, Explorer.kept, List.getElem?_take_of_lt]
    rw [covered.keeps.count]
    exact below
  obtain ⟨stored, member, isRow⟩ := List.mem_map.mp (covered.keeps.stored i _ isKept)
  obtain ⟨sameHash, sameHeight⟩ := Prod.mk.inj isRow
  exact ⟨_, isMain, stored, member, sameHash, sameHeight⟩

end Runs

section Samples

/-- The first blocks of the sample chain, as the main chain of a node. -/
def sampleNode (count : Nat) : NodeChain where
  blocks := sampleChain.take count
  height_eq i block found := sampleChain_main.height_eq <| by
    have inside := (List.getElem?_eq_some_iff.mp found).1
    rw [List.length_take] at inside
    rw [List.getElem?_take_of_lt (by omega)] at found
    exact found

/-- A process that synchronizes with the first blocks of the sample chain. -/
def sampleRestart (count passes : Nat) : Occurrence :=
  .restart (processToward sampleChain (count - 1) passes).sync false false
    ⟨fun _ => sampleNode count, fun _ => sampleNode count⟩

/-- A block of the sample chain is connected while it is the best one. -/
def sampleConnected (block : MsgBlock) (env : StoreEnv) : Occurrence :=
  .block (Sample.hcd.hashOf block) (sampleAnswers (sampleMoments block block)) env

/-- The program before its first start, with a node that has the genesis block and empty tables. -/
def beforeStart : Explorer := ⟨sampleNode 1, ⟨[], false, none⟩, false, newChainDB .created, none⟩

/-- A synchronization, a connected block and another synchronization, with the node's chain
growing between them. -/
def sampleRun : List Occurrence :=
  [sampleRestart 1 1, .node (sampleNode 2), sampleConnected Sample.firstBlock (.noFaults []),
    sampleRestart 2 0]

/-- What can be read off a state: the rows, the node's blocks, the flag of the monitor and the
height of the sync. -/
def Explorer.summary (state : Explorer) : Nat × List MsgBlock × Bool × Option Int :=
  (state.pgb.db.count, state.main.blocks, state.monitor.reorganizing, state.synced)

/-- What a run of the sample leaves, read off its evaluation. -/
theorem summary_eq {occurrences : List Occurrence} {state : Explorer}
    {expected : Nat × List MsgBlock × Bool × Option Int}
    (evaluates : (exec (Explorer.step Sample.hcd ⟨16, 144⟩ sampleMeasures) beforeStart
      occurrences).map Explorer.summary = some expected)
    (ran : exec (Explorer.step Sample.hcd ⟨16, 144⟩ sampleMeasures) beforeStart occurrences =
      some state) : state.summary = expected := by
  rw [ran] at evaluates
  exact Option.some.inj evaluates

/-- The sample run meets the condition: every block is stored where the one before it is. -/
theorem sampleRun_contiguous :
    Admitted (Explorer.step Sample.hcd ⟨16, 144⟩ sampleMeasures) Contiguous beforeStart sampleRun := by
  refine ⟨⟨⟨List.nil_prefix, List.nil_prefix, ?_⟩, ?_⟩, fun opened taken => ⟨?_,
    fun grown takenNode => ⟨?_, fun stored takenBlock => ⟨?_, fun _ _ => trivial⟩⟩⟩⟩
  · intro block found
    obtain rfl : Sample.genesis = block := Except.ok.inj found
    refine ⟨rfl, ?_, List.prefix_rfl⟩
    intro tip isTip
    obtain rfl : (0 : Int) = tip := Except.ok.inj isTip
    rfl
  · intro tip isTip
    obtain rfl : (0 : Int) = tip := Except.ok.inj isTip
    rfl
  · have ran : exec (Explorer.step Sample.hcd ⟨16, 144⟩ sampleMeasures) beforeStart
        (sampleRun.take 1) = some opened := by simp [sampleRun, exec, taken]
    have isSummary : opened.summary = (1, sampleChain.take 1, false, some 0) :=
      summary_eq (by decide +kernel) ran
    simp only [Explorer.summary, Prod.mk.injEq] at isSummary
    simp only [Contiguous, Explorer.kept, isSummary]
    rfl
  · have ran : exec (Explorer.step Sample.hcd ⟨16, 144⟩ sampleMeasures) beforeStart
        (sampleRun.take 2) = some grown := by simp [sampleRun, exec, taken, takenNode]
    have isSummary : grown.summary = (1, sampleChain.take 2, false, none) :=
      summary_eq (by decide +kernel) ran
    simp only [Explorer.summary, Prod.mk.injEq] at isSummary
    intro _ block found
    obtain rfl : Sample.firstBlock = block := Except.ok.inj found
    refine Or.inr ⟨1, Nat.le_of_eq isSummary.1.symm, ?_⟩
    rw [isSummary.2.1]
    rfl
  · have ran : exec (Explorer.step Sample.hcd ⟨16, 144⟩ sampleMeasures) beforeStart
        (sampleRun.take 3) = some stored := by simp [sampleRun, exec, taken, takenNode, takenBlock]
    have isSummary : stored.summary = (2, sampleChain.take 2, false, none) :=
      summary_eq (by decide +kernel) ran
    simp only [Explorer.summary, Prod.mk.injEq] at isSummary
    simp only [Contiguous, Explorer.kept, isSummary, sampleRestart, processToward,
      List.replicate_zero, Follows]
    refine ⟨List.prefix_rfl, fun tip isTip => ?_⟩
    obtain rfl : (1 : Int) = tip := Except.ok.inj isTip
    rfl

/-- The law at this run: both blocks are stored. -/
theorem mainChain_stored_sample :
    ∃ state, exec (Explorer.step Sample.hcd ⟨16, 144⟩ sampleMeasures) beforeStart sampleRun =
        some state ∧ ∀ i : Nat, (i : Int) ≤ 1 → ∃ block, state.main.blocks[i]? = some block ∧
          ∃ stored ∈ state.pgb.db.blocks, stored.row.block.hash = Sample.hcd.hashOf block ∧
            stored.row.block.height.toNat = i := by
  have evaluates : (exec (Explorer.step Sample.hcd ⟨16, 144⟩ sampleMeasures) beforeStart
      sampleRun).map Explorer.summary = some (2, sampleChain.take 2, false, some 1) := by
    decide +kernel
  obtain ⟨state, ran, isSummary⟩ := Option.map_eq_some_iff.mp evaluates
  refine ⟨state, ran, fun i reached => ?_⟩
  have synced : state.synced = some 1 := congrArg (fun summary => summary.2.2.2) isSummary
  exact mainChain_stored rfl rfl sampleRun_contiguous ran synced i reached

/-- The first connected block is not stored because of an error, the next one is:
the next synchronization resumes above both, finishes, and leaves the gap. -/
theorem mainChain_not_stored :
    ∃ state, exec (Explorer.step Sample.hcd ⟨16, 144⟩ sampleMeasures) beforeStart
        [sampleRestart 1 1, .node (sampleNode 2),
          sampleConnected Sample.firstBlock
            { StoreEnv.noFaults [] with insertBlock := some "connection reset" },
          .node (sampleNode 3), sampleConnected Sample.secondBlock (.noFaults []),
          sampleRestart 3 0] = some state ∧
      state.main.blocks[1]? = some Sample.firstBlock ∧ state.synced = some 2 ∧
      ∀ stored ∈ state.pgb.db.blocks, stored.row.block.hash ≠ Sample.hcd.hashOf Sample.firstBlock := by
  have evaluates : (exec (Explorer.step Sample.hcd ⟨16, 144⟩ sampleMeasures) beforeStart
      [sampleRestart 1 1, .node (sampleNode 2),
        sampleConnected Sample.firstBlock
          { StoreEnv.noFaults [] with insertBlock := some "connection reset" },
        .node (sampleNode 3), sampleConnected Sample.secondBlock (.noFaults []),
        sampleRestart 3 0]).map (fun state => (state.main.blocks, state.synced, state.pgb.db.stored)) =
      some (sampleChain, some 2,
        [(Sample.hcd.hashOf Sample.genesis, 0), (Sample.hcd.hashOf Sample.secondBlock, 2)]) := by
    decide +kernel
  obtain ⟨state, ran, read⟩ := Option.map_eq_some_iff.mp evaluates
  simp only [Prod.mk.injEq] at read
  obtain ⟨isMain, synced, isStored⟩ := read
  refine ⟨state, ran, by rw [isMain]; rfl, synced, ?_⟩
  intro stored member same
  have isRow : (stored.row.block.hash, stored.row.block.height.toNat) ∈ state.pgb.db.stored :=
    List.mem_map_of_mem member
  rw [isStored, same] at isRow
  rcases List.mem_cons.mp isRow with first | later
  · exact absurd (Prod.mk.inj first).1 (by decide +kernel)
  · exact absurd (Prod.mk.inj (List.mem_singleton.mp later)).1 (by decide +kernel)

end Samples

end Hcexplorer.Hcpg

import Mathlib.Algebra.Field.Rat
import Hcexplorer.Collector
import Hcexplorer.Library.Runs

/-!
# What is stored of a connected block

The law of the collection: a call of `Store` describes one block exactly when the
node was not asked twice about its best block with a change in between. The
handler compares the height of the announced block with the node's best height
and, when they agree, collects whatever block is best at the later moment, with
the stake difficulty of a still later one.

`Moments` is the node as the calls find it: any best block at any of the calls,
since any number of blocks may arrive between two of them. What a block's hash
stands for does not change.
-/

namespace Hcexplorer.Collection

open Runs

variable {hcd : Hcd} {params : ChainParams} {measures : Measures}

/-- The node at the moments of one handling: the block of each hash, and the best
block when its height, its hash and the stake difficulty are asked for. -/
structure Moments where
  blocks : Hash → Option MsgBlock
  atBlockCount : MsgBlock
  atBestBlockHash : MsgBlock
  atStakeDifficulty : MsgBlock

/-- What the node documents of its answers: a hash is that of its block, and each call answers
about the block it is asked for, or about the best one at its moment. -/
structure Documented (hcd : Hcd) (moments : Moments) (answers : Answers) : Prop where
  hash_eq : ∀ hash block, moments.blocks hash = some block → hcd.hashOf block = hash
  getBlock : ∀ hash block, answers.getBlock hash = .ok block → moments.blocks hash = some block
  collectGetBlock : ∀ hash block, answers.collectGetBlock hash = .ok block →
    moments.blocks hash = some block
  getBlockCount : ∀ count, answers.getBlockCount = .ok count → count = moments.atBlockCount.height
  getBestBlockHash : ∀ hash, answers.getBestBlockHash = some (.ok hash) →
    hash = hcd.hashOf moments.atBestBlockHash
  getStakeDifficulty : ∀ diff, answers.getStakeDifficulty = .ok diff →
    diff.currentStakeDifficulty = hcd.toCoin moments.atStakeDifficulty.header.sBits
  getBlockHeaderVerbose : ∀ hash header, answers.getBlockHeaderVerbose hash = .ok header →
    header.hash = hash ∧ ∀ block, moments.blocks hash = some block →
      header.height = block.header.height

/-- A call of `Store` for an announced block describes that block. -/
structure Describes (hcd : Hcd) (params : ChainParams) (hash : Hash) (call : StoreCall measures) :
    Prop where
  announced : hcd.hashOf call.msgBlock = hash
  header_hash : call.blockData.header.hash = hcd.hashOf call.msgBlock
  header_height : call.blockData.header.height = call.msgBlock.header.height
  stakeDifficulty : call.blockData.currentStakeDiff.currentStakeDifficulty =
    hcd.toCoin call.msgBlock.header.sBits
  priceWindowNum : call.blockData.priceWindowNum =
    call.msgBlock.height.tdiv params.stakeDiffWindowSize.toInt
  idxBlockInWindow : call.blockData.idxBlockInWindow =
    call.msgBlock.height.tmod params.stakeDiffWindowSize.toInt + 1

/-- If the best height was that of the block, the block was still the best one
when the hash was asked for, and its stake difficulty was still the node's. -/
def Steady (hcd : Hcd) (moments : Moments) (block : MsgBlock) : Prop :=
  moments.atBlockCount.height = block.height →
    hcd.hashOf moments.atBestBlockHash = hcd.hashOf block ∧
      moments.atStakeDifficulty.header.sBits = block.header.sBits

/-- What the block information is made of, when `CollectBlockInfo` returns without an error. -/
theorem collectBlockInfo_ok {answers : Answers} {hash : Hash} {info : BlockInfo measures}
    (collected : collectBlockInfo hcd measures answers hash = .ok info) :
    answers.collectGetBlock hash = .ok info.msgBlock ∧
      answers.getBlockHeaderVerbose hash = .ok info.header ∧
      info.basic.height = info.msgBlock.header.height ∧
      info.basic.stakeDiff = hcd.toCoin info.msgBlock.header.sBits := by
  unfold collectBlockInfo at collected
  split at collected
  · cases collected
  · rename_i msgBlock found
    dsimp only at collected
    split at collected
    · cases collected
    · rename_i header answered
      obtain rfl := Except.ok.inj collected
      exact ⟨found, answered, rfl, rfl⟩

/-- The data of either path is assembled from the block information of a hash, and
from a stake difficulty: that of the block for `CollectHash`. -/
theorem collectHash_ok {answers : Answers} {hash : Hash} {data : BlockData measures}
    {msgBlock : MsgBlock}
    (collected : collectHash hcd params measures answers hash = .ok (data, msgBlock)) :
    ∃ info numConn, collectBlockInfo hcd measures answers hash = .ok info ∧
      data = assemble params info numConn ⟨info.basic.stakeDiff, 0⟩ ⟨0, 0, 0, none⟩ := by
  unfold collectHash at collected
  split at collected
  · cases collected
  · rename_i info inner
    split at collected
    · cases collected
    · rename_i numConn counted
      obtain ⟨rfl, -⟩ := Prod.mk.inj (Except.ok.inj collected)
      exact ⟨info, numConn, inner, rfl⟩

/-- For `Collect` the hash is that of the best block and the stake difficulty the
node's, each as the node answered. -/
theorem collect_ok {answers : Answers} {data : BlockData measures} {msgBlock : MsgBlock}
    (collected : collect hcd params measures answers = .returned (.ok (data, msgBlock))) :
    ∃ hash stakeDiff estStakeDiff info numConn, answers.getBestBlockHash = some (.ok hash) ∧
      answers.getStakeDifficulty = .ok stakeDiff ∧
      collectBlockInfo hcd measures answers hash = .ok info ∧
      data = assemble params info numConn stakeDiff estStakeDiff := by
  unfold collect at collected
  split at collected
  · cases collected
  · rename_i answer best
    split at collected
    · cases collected
    · rename_i stakeDiff isDiff
      dsimp only at collected
      split at collected
      · split at collected
        · cases collected
        · cases collected
      · rename_i hash
        split at collected
        · cases collected
        · rename_i info inner
          split at collected
          · cases collected
          · rename_i numConn counted
            simp only [Outcome.returned.injEq, Except.ok.injEq, Prod.mk.injEq] at collected
            exact ⟨hash, stakeDiff, _, info, numConn, best, isDiff, inner, collected.1.symm⟩

/-- Every call of `Store` passes the announced block, with the data collected by
its hash when the node's height differs, else with the data of the best block. -/
theorem collectAndStore_cases {answers : Answers} {savers : List Saver} {hash : Hash}
    {calls : List (StoreCall measures)}
    (returned : collectAndStore hcd params measures answers savers hash = .returned calls) :
    calls = [] ∨ ∃ block count data msgBlock, answers.getBlock hash = .ok block ∧
      answers.getBlockCount = .ok count ∧ calls = savers.map (fun s => ⟨s, data, block⟩) ∧
      ((count ≠ block.height ∧
          collectHash hcd params measures answers hash = .ok (data, msgBlock)) ∨
        (count = block.height ∧
          collect hcd params measures answers = .returned (.ok (data, msgBlock)))) := by
  unfold collectAndStore at returned
  split at returned
  · cases returned
  · rename_i block found
    split at returned
    · exact Or.inl (Outcome.returned.inj returned).symm
    · rename_i count counted
      obtain ⟨result, collected, stored⟩ := Outcome.bind_eq_returned.mp returned
      cases result with
      | error err => exact Or.inl (Outcome.returned.inj stored).symm
      | ok collectedPair =>
        obtain ⟨data, msgBlock⟩ := collectedPair
        refine Or.inr ⟨block, count, data, msgBlock, found, counted,
          (Outcome.returned.inj stored).symm, ?_⟩
        by_cases behind : count ≠ block.height
        · rw [if_pos behind] at collected
          exact Or.inl ⟨behind, Outcome.returned.inj collected⟩
        · rw [if_neg behind] at collected
          exact Or.inr ⟨not_not.mp behind, collected⟩

/-- The data assembled for the announced block describes it when the stake
difficulty that was put in is its own. -/
theorem assemble_describes {moments : Moments} {answers : Answers}
    (documented : Documented hcd moments answers) {hash : Hash} {block : MsgBlock}
    (isBlock : moments.blocks hash = some block) {info : BlockInfo measures}
    (collected : collectBlockInfo hcd measures answers hash = .ok info) {saver : Saver} {numConn : Int}
    {stakeDiff : StakeDifficulty} {estStakeDiff : EstimateStakeDiff}
    (own : stakeDiff.currentStakeDifficulty = hcd.toCoin block.header.sBits) :
    Describes hcd params hash
      ⟨saver, assemble params info numConn stakeDiff estStakeDiff, block⟩ := by
  obtain ⟨found, answered, sameHeight, -⟩ := collectBlockInfo_ok collected
  obtain rfl : block = info.msgBlock :=
    Option.some.inj (isBlock.symm.trans (documented.collectGetBlock hash _ found))
  obtain ⟨headerHash, headerHeight⟩ := documented.getBlockHeaderVerbose hash _ answered
  have announced : hcd.hashOf info.msgBlock = hash := documented.hash_eq hash _ isBlock
  refine ⟨announced, headerHash.trans announced.symm, headerHeight _ isBlock, own, ?_, ?_⟩
  · simp only [assemble, priceWindow, sameHeight, MsgBlock.height]
  · simp only [assemble, priceWindow, sameHeight, MsgBlock.height]

/-- A call of `Store` describes the announced block when the node was steady, and, if
amounts can be told apart by their coins, only then. -/
theorem collectAndStore_describes {moments : Moments} {answers : Answers}
    (documented : Documented hcd moments answers) {savers : List Saver} {hash : Hash}
    {calls : List (StoreCall measures)} {call : StoreCall measures}
    (returned : collectAndStore hcd params measures answers savers hash = .returned calls)
    (stored : call ∈ calls) :
    (Steady hcd moments call.msgBlock → Describes hcd params hash call) ∧
      (hcd.toHcutil.Exact → Describes hcd params hash call → Steady hcd moments call.msgBlock) := by
  rcases collectAndStore_cases returned with rfl |
    ⟨block, count, data, msgBlock, found, counted, rfl, path⟩
  · cases stored
  · obtain ⟨saver, -, rfl⟩ := List.mem_map.mp stored
    have isBlock : moments.blocks hash = some block := documented.getBlock hash block found
    have announced : hcd.hashOf block = hash := documented.hash_eq hash block isBlock
    have countIs : count = moments.atBlockCount.height := documented.getBlockCount count counted
    rcases path with ⟨behind, collected⟩ | ⟨atTip, collected⟩
    · obtain ⟨info, numConn, inner, rfl⟩ := collectHash_ok collected
      obtain ⟨again, -, -, own⟩ := collectBlockInfo_ok inner
      obtain rfl : block = info.msgBlock :=
        Option.some.inj (isBlock.symm.trans (documented.collectGetBlock hash _ again))
      constructor
      · intro _
        exact assemble_describes documented isBlock inner own
      · intro _ _ sameHeight
        exact absurd (countIs.trans sameHeight) behind
    · obtain ⟨best, stakeDiff, estStakeDiff, info, numConn, isBest, isDiff, inner, rfl⟩ :=
        collect_ok collected
      have bestIs : best = hcd.hashOf moments.atBestBlockHash :=
        documented.getBestBlockHash best isBest
      have diffIs := documented.getStakeDifficulty stakeDiff isDiff
      constructor
      · intro steady
        obtain ⟨sameHash, sameDiff⟩ := steady (countIs.symm.trans atTip)
        obtain rfl : best = hash := bestIs.trans (sameHash.trans announced)
        exact assemble_describes documented isBlock inner (by rw [diffIs, sameDiff])
      · intro exactCoins describes sameHeight
        obtain ⟨-, answered, -, -⟩ := collectBlockInfo_ok inner
        have headerIs : info.header.hash = best :=
          (documented.getBlockHeaderVerbose best _ answered).1
        have ownHash : info.header.hash = hcd.hashOf block := describes.header_hash
        have ownDiff : stakeDiff.currentStakeDifficulty = hcd.toCoin block.header.sBits :=
          describes.stakeDifficulty
        refine ⟨bestIs.symm.trans (headerIs.symm.trans ownHash), ?_⟩
        exact exactCoins.toCoin_injective (diffIs.symm.trans ownDiff)

/-- Whatever the handler stores of a block describes it when the node was steady, and, if
amounts can be told apart by their coins, only then, in a reorganization or not. -/
theorem blockConnected_describes {moments : Moments} {answers : Answers}
    (documented : Documented hcd moments answers) {monitor after : ChainMonitor} {hash : Hash}
    {calls : List (StoreCall measures)} {call : StoreCall measures}
    (returned : monitor.blockConnected hcd params measures answers hash = .returned (after, calls))
    (stored : call ∈ calls) :
    (Steady hcd moments call.msgBlock → Describes hcd params hash call) ∧
      (hcd.toHcutil.Exact → Describes hcd params hash call → Steady hcd moments call.msgBlock) := by
  unfold ChainMonitor.blockConnected at returned
  split at returned
  · split at returned
    · cases returned
    · split at returned
      · obtain ⟨-, rfl⟩ := Prod.mk.inj (Outcome.returned.inj returned)
        cases stored
      · obtain ⟨inner, collected, same⟩ := Outcome.bind_eq_returned.mp returned
        obtain ⟨-, rfl⟩ := Prod.mk.inj (Outcome.returned.inj same)
        exact collectAndStore_describes documented collected stored
  · obtain ⟨inner, collected, same⟩ := Outcome.bind_eq_returned.mp returned
    obtain ⟨-, rfl⟩ := Prod.mk.inj (Outcome.returned.inj same)
    exact collectAndStore_describes documented collected stored

/-- One step of the monitor's goroutines: a queued block is handled, with the node
at the moments of its calls, or a reorganization is noted. -/
inductive Event where
  | block (hash : Hash) (moments : Moments) (answers : Answers)
  | reorganization (data : ReorgData)

/-- The monitor and all the calls of `Store` so far, in order. -/
structure Collecting (measures : Measures) where
  monitor : ChainMonitor
  stored : List (StoreCall measures)

/-- Perform an event: a block is handled or a reorganization begins. It is none when the handler
panics. -/
def step (hcd : Hcd) (params : ChainParams) (state : Collecting measures) :
    Event → Option (Collecting measures)
  | .block hash _ answers =>
    (state.monitor.blockConnected hcd params measures answers hash).result?.map
      fun (monitor, calls) => ⟨monitor, state.stored ++ calls⟩
  | .reorganization data => some ⟨state.monitor.reorganization data, state.stored⟩

/-- No call whose error is looked at fails, for the blocks the node has. -/
structure Complete (moments : Moments) (answers : Answers) (hash : Hash) : Prop where
  getBlock : ∃ block, answers.getBlock hash = .ok block
  getBlockCount : ∃ count, answers.getBlockCount = .ok count
  getBestBlockHash : ∃ best, answers.getBestBlockHash = some (.ok best)
  getStakeDifficulty : ∃ diff, answers.getStakeDifficulty = .ok diff
  collectGetBlock : ∀ known block, moments.blocks known = some block →
    answers.collectGetBlock known = .ok block
  getBlockHeaderVerbose : ∀ known block, moments.blocks known = some block →
    ∃ header, answers.getBlockHeaderVerbose known = .ok header
  getConnectionCount : ∃ count, answers.getConnectionCount = .ok count

/-- A block is handled without an error, by a steady node and outside of a
reorganization. -/
def Allowed (hcd : Hcd) (state : Collecting measures) : Event → Prop
  | .block hash moments answers => state.monitor.reorganizing = false ∧
      Documented hcd moments answers ∧ Complete moments answers hash ∧
      ∀ block, moments.blocks hash = some block → Steady hcd moments block
  | .reorganization _ => False

/-- The hashes of the blocks of a list of events. -/
def handled : List Event → List Hash
  | [] => []
  | .block hash _ _ :: rest => hash :: handled rest
  | .reorganization _ :: rest => handled rest

/-- Without an error the block information of a known block is collected. -/
theorem collectBlockInfo_complete {moments : Moments} {answers : Answers} {wanted hash : Hash}
    (complete : Complete moments answers wanted) {block : MsgBlock}
    (isBlock : moments.blocks hash = some block) :
    ∃ info, collectBlockInfo hcd measures answers hash = .ok info := by
  obtain ⟨header, answered⟩ := complete.getBlockHeaderVerbose hash block isBlock
  simp only [collectBlockInfo, complete.collectGetBlock hash block isBlock, answered]
  exact ⟨_, rfl⟩

/-- Without an error, and with a steady node, each saver is called once. -/
theorem collectAndStore_complete {moments : Moments} {answers : Answers} {hash : Hash}
    (documented : Documented hcd moments answers) (complete : Complete moments answers hash)
    (steady : ∀ block, moments.blocks hash = some block → Steady hcd moments block)
    {savers : List Saver} {calls : List (StoreCall measures)}
    (returned : collectAndStore hcd params measures answers savers hash = .returned calls) :
    ∃ data block, moments.blocks hash = some block ∧
      calls = savers.map fun s => ⟨s, data, block⟩ := by
  obtain ⟨block, found⟩ := complete.getBlock
  obtain ⟨count, counted⟩ := complete.getBlockCount
  obtain ⟨best, isBest⟩ := complete.getBestBlockHash
  obtain ⟨diff, isDiff⟩ := complete.getStakeDifficulty
  obtain ⟨numConn, connected⟩ := complete.getConnectionCount
  have isBlock : moments.blocks hash = some block := documented.getBlock hash block found
  obtain ⟨info, collected⟩ : ∃ info, collectBlockInfo hcd measures answers hash = .ok info :=
    collectBlockInfo_complete complete isBlock
  simp only [collectAndStore, found, counted] at returned
  by_cases behind : count ≠ block.height
  · simp only [if_pos behind, collectHash, collected, connected, Outcome.bind_returned,
      Outcome.returned.injEq] at returned
    exact ⟨_, block, isBlock, returned.symm⟩
  · have sameHeight : moments.atBlockCount.height = block.height :=
      (documented.getBlockCount count counted).symm.trans (not_not.mp behind)
    obtain ⟨sameHash, -⟩ := steady block isBlock sameHeight
    have bestIs : best = hash := by
      rw [documented.getBestBlockHash best isBest, sameHash, documented.hash_eq hash block isBlock]
    simp only [if_neg behind, collect, isBest, isDiff, bestIs, collected, connected,
      Outcome.bind_returned, Outcome.returned.injEq] at returned
    exact ⟨_, block, isBlock, returned.symm⟩

/-- Each call of `Store` describes one block exactly when the node was steady while
the block was handled; that it does so only then takes `ToCoin` as exact, for two stake
difficulties are told apart by their coins. In every run without errors and reorganizations in which
it always was, each handled block is stored once by each saver, in the order of
the queue, and what the SQLite saver stores is the block of the PostgreSQL saver.

The first half is the equivalence for one block; the second is an induction over the
queue, each step of which appends the calls for its block. -/
theorem stored_describe_block :
    (∀ (monitor after : ChainMonitor) (hash : Hash) (moments : Moments) (answers : Answers)
        (calls : List (StoreCall measures)) (call : StoreCall measures),
      Documented hcd moments answers →
      monitor.blockConnected hcd params measures answers hash = .returned (after, calls) →
      call ∈ calls → (Steady hcd moments call.msgBlock → Describes hcd params hash call) ∧
        (hcd.toHcutil.Exact → Describes hcd params hash call →
          Steady hcd moments call.msgBlock)) ∧
    (∀ (start final : Collecting measures) (events : List Event),
      Admitted (step hcd params) (Allowed hcd) start events →
      exec (step hcd params) start events = some final →
      ∃ records : List (BlockData measures × MsgBlock),
        records.map (fun record => hcd.hashOf record.2) = handled events ∧
        final.stored = start.stored ++
          records.flatMap (fun record => dataSavers.map fun s => ⟨s, record.1, record.2⟩) ∧
        ∀ record ∈ records, Describes hcd params (hcd.hashOf record.2)
            (⟨.sqliteDB, record.1, record.2⟩ : StoreCall measures) ∧
          record.1.toBlockSummary.hash = hcd.hashOf record.2 ∧
          record.1.toBlockSummary.height = record.2.header.height) := by
  constructor
  · intro monitor after hash moments answers calls call documented returned stored
    exact blockConnected_describes documented returned stored
  · intro start final events admitted ran
    induction events generalizing start with
    | nil =>
      obtain rfl := Option.some.inj ran
      exact ⟨[], rfl, by simp, by simp⟩
    | cons event rest inductionHypothesis =>
      obtain ⟨next, taken, continued⟩ := Option.bind_eq_some_iff.mp ran
      obtain ⟨allowed, later⟩ := admitted
      obtain ⟨records, queued, appended, describe⟩ :=
        inductionHypothesis next (later next taken) continued
      cases event with
      | reorganization data => exact absurd allowed id
      | block hash moments answers =>
        obtain ⟨notReorganizing, documented, complete, steady⟩ := allowed
        obtain ⟨⟨monitor, calls⟩, ended, rfl⟩ := Option.map_eq_some_iff.mp taken
        have returned := Outcome.result?_eq_some.mp ended
        have inner := returned
        unfold ChainMonitor.blockConnected at inner
        rw [if_neg (by simp [notReorganizing])] at inner
        obtain ⟨storedCalls, collected, same⟩ := Outcome.bind_eq_returned.mp inner
        obtain ⟨-, rfl⟩ := Prod.mk.inj (Outcome.returned.inj same)
        obtain ⟨data, block, isBlock, rfl⟩ :=
          collectAndStore_complete documented complete steady collected
        have announced : hcd.hashOf block = hash := documented.hash_eq hash block isBlock
        have isCall : (⟨.sqliteDB, data, block⟩ : StoreCall measures) ∈
            dataSavers.map fun s => ⟨s, data, block⟩ := by simp [dataSavers]
        have describes : Describes hcd params hash (⟨.sqliteDB, data, block⟩ : StoreCall measures) :=
          (blockConnected_describes documented returned isCall).1 (steady block isBlock)
        refine ⟨(data, block) :: records, ?_, ?_, ?_⟩
        · rw [List.map_cons, queued, handled, announced]
        · rw [appended, List.flatMap_cons, List.append_assoc]
        · intro record member
          rcases List.mem_cons.mp member with rfl | old
          · refine ⟨?_, describes.header_hash, describes.header_height⟩
            rw [announced]
            exact describes
          · exact describe record old

/-- A node that has three blocks and answers from the given moments. -/
def sampleAnswers (moments : Moments) : Answers where
  getBlock hash := (moments.blocks hash).elim (.error "not found") .ok
  getBlockCount := .ok moments.atBlockCount.height
  getBestBlockHash := some (.ok (Sample.hcd.hashOf moments.atBestBlockHash))
  getStakeDifficulty := .ok ⟨Sample.hcd.toCoin moments.atStakeDifficulty.header.sBits, 0⟩
  estimateStakeDiff := .ok ⟨0, 0, 0, none⟩
  collectGetBlock hash := (moments.blocks hash).elim (.error "not found") .ok
  getCoinSupply := .ok 0
  getBlockSubsidy _ := .error "not available"
  poolInfo _ := none
  poolInfoBest := (⟨0, 0, 0⟩, 0)
  getBlockHeaderVerbose hash := (moments.blocks hash).elim (.error "not found") fun block =>
    .ok ⟨hash, block.header.height, 5, 0, 0, Sample.hcd.toCoin block.header.sBits, block.header.size,
      block.header.timestamp, 1⟩
  getConnectionCount := .ok 8

/-- The main chain grows from one block to the next between the first question and
the later ones. -/
def sampleMoments (first later : MsgBlock) : Moments where
  blocks hash := [Sample.genesis, Sample.firstBlock, Sample.secondBlock].find? fun block =>
    Sample.hcd.hashOf block == hash
  atBlockCount := first
  atBestBlockHash := later
  atStakeDifficulty := later

/-- Statistics that are all zero, for samples in which no floating-point number matters. -/
def sampleMeasures : Measures := ⟨Unit, fun _ => (), fun _ => 1⟩

/-- The sample node keeps what the node documents, whichever two blocks it has. -/
theorem sampleAnswers_documented (first later : MsgBlock) :
    Documented Sample.hcd (sampleMoments first later) (sampleAnswers (sampleMoments first later)) := by
  have elim_ok {hash : Hash} {block : MsgBlock}
      (answered : ((sampleMoments first later).blocks hash).elim (.error "not found") .ok =
        (.ok block : Except String MsgBlock)) :
      (sampleMoments first later).blocks hash = some block := by
    cases found : (sampleMoments first later).blocks hash with
    | none => simp [found] at answered
    | some other => simpa [found] using answered
  refine ⟨?_, fun _ _ => elim_ok, fun _ _ => elim_ok, ?_, ?_, ?_, ?_⟩
  · intro hash block found
    have chosen := List.find?_some found
    exact eq_of_beq chosen
  · rintro _ ⟨⟩
    rfl
  · rintro _ ⟨⟩
    rfl
  · rintro _ ⟨⟩
    rfl
  · intro hash header answered
    cases found : (sampleMoments first later).blocks hash with
    | none => simp [sampleAnswers, found] at answered
    | some block =>
      obtain rfl : _ = header := by simpa [sampleAnswers, found] using answered
      refine ⟨rfl, ?_⟩
      rintro other ⟨⟩
      rfl

/-- The monitor at the start of the program, before the first block. -/
def started : Collecting sampleMeasures := ⟨⟨[], false, none⟩, []⟩

/-- A block is handled while it is the node's best block. -/
def sampleEvent (block : MsgBlock) : Event :=
  .block (Sample.hcd.hashOf block) (sampleMoments block block) (sampleAnswers (sampleMoments block block))

/-- A known block handled while it is the best block is handled as the law asks. -/
theorem sampleEvent_allowed {state : Collecting sampleMeasures} {block : MsgBlock}
    (idle : state.monitor.reorganizing = false)
    (isKnown : (sampleMoments block block).blocks (Sample.hcd.hashOf block) = some block) :
    Allowed Sample.hcd state (sampleEvent block) := by
  have answered (known : Hash) (found : MsgBlock)
      (isBlock : (sampleMoments block block).blocks known = some found) :
      ((sampleMoments block block).blocks known).elim (.error "not found") .ok =
        (.ok found : Except String MsgBlock) := by rw [isBlock, Option.elim_some]
  refine ⟨idle, sampleAnswers_documented block block, ?_, ?_⟩
  · refine ⟨⟨block, answered _ _ isKnown⟩, ⟨_, rfl⟩, ⟨_, rfl⟩, ⟨_, rfl⟩, answered, ?_, ⟨_, rfl⟩⟩
    intro known found isBlock
    exact ⟨_, by simp only [sampleAnswers, isBlock, Option.elim_some]; rfl⟩
  · intro found isBlock
    obtain rfl : block = found := Option.some.inj (isKnown.symm.trans isBlock)
    exact fun _ => ⟨rfl, rfl⟩

/-- The law at two blocks, each handled while it is the best block. -/
theorem stored_describe_block_started :
    ∃ final, exec (step Sample.hcd ⟨16, 144⟩) started
        [sampleEvent Sample.firstBlock, sampleEvent Sample.secondBlock] = some final ∧
      (∃ records : List (BlockData sampleMeasures × MsgBlock),
        records.map (fun record => Sample.hcd.hashOf record.2) =
          [Sample.hcd.hashOf Sample.firstBlock, Sample.hcd.hashOf Sample.secondBlock] ∧
        final.stored =
          records.flatMap fun record => dataSavers.map fun s => ⟨s, record.1, record.2⟩) := by
  refine ⟨_, rfl, ?_⟩
  have admitted : Admitted (step Sample.hcd ⟨16, 144⟩) (Allowed Sample.hcd) started
      [sampleEvent Sample.firstBlock, sampleEvent Sample.secondBlock] :=
    admitted_cons rfl (sampleEvent_allowed rfl rfl)
      (admitted_cons rfl (sampleEvent_allowed rfl rfl) trivial)
  obtain ⟨records, queued, stored, -⟩ := stored_describe_block.2 started _ _ admitted rfl
  exact ⟨records, queued, stored⟩

/-- The second block arrives while the first is handled: the savers are passed the
data of the second with the first, whose own data is never collected. -/
theorem stored_other_block :
    let moments := sampleMoments Sample.firstBlock Sample.secondBlock
    ∃ after calls, ChainMonitor.blockConnected Sample.hcd ⟨16, 144⟩ sampleMeasures
        (sampleAnswers moments) (Sample.hcd.hashOf Sample.firstBlock) ⟨[], false, none⟩ =
          .returned (after, calls) ∧
      calls.map (fun call => (call.saver, call.blockData.header.height, call.msgBlock.header.height)) =
        [(.chainDB, 2, 1), (.sqliteDB, 2, 1), (.webUI, 2, 1), (.explore, 2, 1)] ∧
      ∀ call ∈ calls, ¬ Describes Sample.hcd ⟨16, 144⟩ (Sample.hcd.hashOf Sample.firstBlock) call := by
  intro moments
  refine ⟨_, _, rfl, by decide, ?_⟩
  intro call stored describes
  obtain ⟨saver, -, rfl⟩ := List.mem_map.mp stored
  have heights : (2 : UInt32) = 1 := describes.header_height
  exact absurd heights (by decide)

end Hcexplorer.Collection

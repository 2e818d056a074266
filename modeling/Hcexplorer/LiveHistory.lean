import Hcexplorer.LiveInvariant

/-!
# The tables follow the node's main chain

The law of the two monitors together: in every run without errors, in which each monitor
takes the notifications in the node's order and does not panic, the SQLite tables always
mirror a main chain that the node has had, and the savers were called once for each change
of it up to there.

The order is a condition, as for the stake database: nothing in the code enforces it.
-/

namespace Hcexplorer.Live

open Collection Hcsqlite Announcements LinkedChain Runs

variable {hcd : Hcd} {params : ChainParams} {statistics : Statistics} {start : List MsgBlock}

/-- The system when the live notifications begin: the tables were synchronized to the
node's main chain, and nothing is under way. -/
def begun (hcd : Hcd) (main : List MsgBlock) (db : DB statistics.Rates) : State hcd statistics where
  main := main
  known := main
  history := []
  outgoing := []
  queue := []
  monitors := fun _ => ⟨[], [], none, ⟨[], false, none⟩⟩
  round := .waiting
  db := db
  stored := []

/-- A state in which nothing has happened yet keeps the invariant, if the tables mirror the main
chain. -/
theorem keeps_begun {main : List MsgBlock} {db : DB statistics.Rates}
    (rooted : (chainView hcd).Rooted main) (mirrors : Mirrors hcd db main) :
    Keeps params main (begun hcd main db) := by
  have heard (name : MonitorName) : Heard (begun hcd main db) name [] := ⟨rfl, rfl⟩
  have idle : Fields ⟨[], false, none⟩ (listening []) := ⟨rfl, nofun, rfl⟩
  refine ⟨⟨rooted, trivial, nofun, rfl, (List.append_nil main).symm⟩, fun name => by cases name <;> rfl,
    [], [], heard _, heard _, ?_⟩
  exact .before (Or.inl rfl) rfl idle idle ⟨le_rfl, le_rfl, mirrors, [], rfl, .nil⟩

/-- Every state of a run keeps the invariant, if each of its steps is one without an error and in
order. -/
theorem keeps_of_run {main : List MsgBlock} {db : DB statistics.Rates}
    (rooted : (chainView hcd).Rooted main) (mirrors : Mirrors hcd db main)
    {final : State hcd statistics} {actions : List Action}
    (admitted : Admitted (State.step params)
      (fun state action => NoError state action ∧ InOrder state action) (begun hcd main db) actions)
    (ran : exec (State.step params) (begun hcd main db) actions = some final) :
    Keeps params main final :=
  exec_invariant (Keeps params main)
    (fun _ _ _ keeps allowed stepped => keeps_step keeps allowed.1 allowed.2 stepped)
    (keeps_begun rooted mirrors) admitted ran

/-- What the tables and the savers have got covers first parts of the history. -/
theorem Keeps.shows {state : State hcd statistics} (keeps : Keeps params start state) :
    ∃ tables calls, Shows params start state tables calls := by
  obtain ⟨-, -, taken, other, -, -, stage⟩ := keeps
  cases stage with
  | before round same first second shown => exact ⟨_, _, shown⟩
  | clearing hash front round isTaken same first second shown => exact ⟨_, _, shown⟩
  | collecting hash savers front tail round isTaken noBlocks same kind first second shown =>
    exact ⟨_, _, shown⟩
  | between hash front tail round isTaken noBlocks same first second shown => exact ⟨_, _, shown⟩
  | switching hash front tail done round isTaken isOther noBlocks first second shown =>
    exact ⟨_, _, shown⟩

/-- When every notification has been handled they cover the whole history. -/
theorem Keeps.shows_all {state : State hcd statistics} (keeps : Keeps params start state)
    (quiescent : state.Quiescent) :
    Shows params start state state.history.length state.history.length := by
  obtain ⟨noOutgoing, noQueue, waiting, free⟩ := quiescent
  obtain ⟨grown, queued, taken, other, first, second, stage⟩ := keeps
  have noneOutstanding : (state.monitors .blockdata).outstanding = [] := by
    refine Follower.notifications_eq_nil ?_ ?_
    · rw [queued .blockdata, waiting, noQueue]
      rfl
    · rw [← first.sent, (free .blockdata).1, (free .blockdata).2]
      rfl
  have all : taken = announceAll hcd.hashOf state.history := by
    have split := first.split
    rwa [noneOutstanding, noOutgoing, List.append_nil, List.map_nil, List.append_nil] at split
  have count : completedBy taken = state.history.length := by
    rw [completedBy, all, (Listener.announced_changes grown.announceable).2, List.length_map]
  cases stage with
  | before round same firstFields secondFields shown => exact count ▸ shown
  | clearing hash front round => cases waiting.symm.trans round
  | collecting hash savers front tail round => cases waiting.symm.trans round
  | between hash front tail round => cases waiting.symm.trans round
  | switching hash front tail done round =>
    rw [waiting] at round
    cases done <;> cases round

/-- The best block of tables that mirror a chain is its tip. -/
theorem Mirrors.best {db : DB statistics.Rates} {chain : List MsgBlock} {tip : MsgBlock}
    (mirrors : Mirrors hcd db chain) (rooted : (chainView hcd).Rooted chain)
    (atEnd : chain.getLast? = some tip) :
    ∃ best, (db.getBestBlockSummary none none).1 = some best ∧ best.hash = hcd.hashOf tip ∧
      best.height = tip.header.height := by
  obtain ⟨rows, ⟨summaries, -⟩, related⟩ := mirrors.rows
  have positive : 0 < chain.length := List.length_pos_of_ne_nil rooted.nonempty
  have isLast : chain[chain.length - 1]? = some tip := List.getLast?_eq_getElem? ▸ atEnd
  obtain ⟨row, atTip, isRow⟩ := exists_row related isLast
  have tipHeight : tip.height = (chain.length - 1 : Nat) := rooted.height_eq isLast
  have inTable : row.1 ∈ db.summaries.rows := by
    rw [summaries]
    exact List.mem_map_of_mem (List.mem_of_getElem? atTip)
  have isKey : summaryKey row.1 = db.dbSummaryHeight := by
    rw [isRow.keys.1, tipHeight, mirrors.summaryHeight]
    omega
  have known : 0 ≤ db.dbSummaryHeight := by
    rw [mirrors.summaryHeight]
    omega
  refine ⟨row.1, ?_, isRow.hash, isRow.height⟩
  simp only [DB.getBestBlockSummary, DB.getBlockSummaryHeight_known known]
  rw [← isKey]
  exact KeyedTable.find_key inTable

/-- In every run without errors in which the node's best block does not move while a block is
collected, both monitors take the notifications in the node's order and neither panics, the SQLite tables mirror a main chain that the node has had: one
summary and one stake info for each block, in order, and no others. When every notification
has been handled it is the node's main chain, and the best block is its tip. -/
theorem tables_mirror_main {main : List MsgBlock} {db : DB statistics.Rates}
    (rooted : (chainView hcd).Rooted main) (mirrors : Mirrors hcd db main)
    {final : State hcd statistics} {actions : List Action}
    (admitted : Admitted (State.step params)
      (fun state action => NoError state action ∧ InOrder state action) (begun hcd main db) actions)
    (ran : exec (State.step params) (begun hcd main db) actions = some final) :
    (∃ passed, passed <+: final.history ∧ Mirrors hcd final.db (Change.applyAll main passed)) ∧
      (final.Quiescent → Mirrors hcd final.db final.main ∧
        ∃ tip best, final.main.getLast? = some tip ∧
          (final.db.getBestBlockSummary none none).1 = some best ∧ best.hash = hcd.hashOf tip ∧
            best.height = tip.header.height) := by
  have keeps := keeps_of_run rooted mirrors admitted ran
  obtain ⟨tables, calls, shown⟩ := keeps.shows
  refine ⟨⟨_, List.take_prefix tables _, shown.mirrors⟩, fun quiescent => ?_⟩
  have all := (keeps.shows_all quiescent).mirrors
  have stillRooted := (keeps.grown.allFit.at rooted final.history.length).1
  rw [List.take_length, ← keeps.grown.main] at all stillRooted
  obtain ⟨tip, atEnd⟩ := stillRooted.exists_tip
  obtain ⟨best, isBest, isHash, isHeight⟩ := all.best stillRooted atEnd
  exact ⟨all, tip, best, atEnd, isBest, isHash, isHeight⟩

/-- The block that is announced outside of a reorganization. -/
def extended : Change MsgBlock → Option MsgBlock
  | .extend block => some block
  | .replace _ _ => none

/-- The last block of a change, which is the tip of the chain after it. -/
def lastBlock (change : Change MsgBlock) : Option MsgBlock := change.blocks.getLast?

/-- The blocks that a saver was called with, in the order of the calls. -/
def storedBy (saver : Saver) (calls : List (StoreCall (statistics.measures hcd))) : List MsgBlock :=
  (calls.filter fun call => call.saver = saver).map StoreCall.msgBlock

/-- The calls for one change, by saver: the two databases get the block of an extension, and the
pages get the last block of any change. -/
theorem Reports.storedBy {change : Change MsgBlock}
    {calls : List (StoreCall (statistics.measures hcd))} (isReport : Reports hcd params change calls) :
    Live.storedBy .chainDB calls = (extended change).toList ∧
      Live.storedBy .sqliteDB calls = (extended change).toList ∧
      Live.storedBy .webUI calls = (lastBlock change).toList ∧
      Live.storedBy .explore calls = (lastBlock change).toList := by
  obtain ⟨tip, data, isTip, rfl, -⟩ := isReport
  cases change with
  | extend block =>
    obtain rfl : block = tip := Option.some.inj isTip
    exact ⟨rfl, rfl, rfl, rfl⟩
  | replace fork side =>
    have last : lastBlock (.replace fork side) = some tip := isTip
    rw [last]
    exact ⟨rfl, rfl, rfl, rfl⟩

/-- The calls for several changes, by saver, are those for each of the changes in order, and each
call describes its block. -/
theorem storedBy_flatten {changes : List (Change MsgBlock)}
    {groups : List (List (StoreCall (statistics.measures hcd)))}
    (reports : List.Forall₂ (Reports hcd params) changes groups) :
    storedBy .chainDB groups.flatten = changes.filterMap extended ∧
      storedBy .sqliteDB groups.flatten = changes.filterMap extended ∧
      storedBy .webUI groups.flatten = changes.filterMap lastBlock ∧
      storedBy .explore groups.flatten = changes.filterMap lastBlock ∧
      ∀ call ∈ groups.flatten, Describes hcd params (hcd.hashOf call.msgBlock) call := by
  induction reports with
  | nil => exact ⟨rfl, rfl, rfl, rfl, fun call member => absurd member List.not_mem_nil⟩
  | @cons change calls changes groups isReport _ inductionHypothesis =>
    obtain ⟨chainDB, sqliteDB, webUI, explore, describe⟩ := inductionHypothesis
    obtain ⟨atChainDB, atSqliteDB, atWebUI, atExplore⟩ := isReport.storedBy
    have split (saver : Saver) : storedBy saver (calls :: groups).flatten =
        storedBy saver calls ++ storedBy saver groups.flatten := by
      simp [Live.storedBy]
    have listed (pick : Change MsgBlock → Option MsgBlock) :
        (change :: changes).filterMap pick = (pick change).toList ++ changes.filterMap pick := by
      cases isPick : pick change <;> simp [isPick]
    refine ⟨?_, ?_, ?_, ?_, ?_⟩
    · rw [split, listed, atChainDB, chainDB]
    · rw [split, listed, atSqliteDB, sqliteDB]
    · rw [split, listed, atWebUI, webUI]
    · rw [split, listed, atExplore, explore]
    · intro call member
      rcases List.mem_append.mp (List.flatten_cons ▸ member) with here | later
      · obtain ⟨tip, data, -, rfl, describes⟩ := isReport
        have isBlock : call.msgBlock = tip := by
          obtain ⟨saver, -, rfl⟩ := List.mem_map.mp here
          rfl
        exact isBlock ▸ describes call here
      · exact describe call later

/-- In the same runs each call of `Store` describes its block, and at each moment the calls
cover a first part of the changes of the main chain: the databases get the blocks announced
outside of reorganizations, in order and once each, so no block of a side chain, and the web
pages get the last block of every change. When every notification has been handled they
cover all changes, and the last block that the web pages got is the tip. -/
theorem savers_get_changes {main : List MsgBlock} {db : DB statistics.Rates}
    (rooted : (chainView hcd).Rooted main) (mirrors : Mirrors hcd db main)
    {final : State hcd statistics} {actions : List Action}
    (admitted : Admitted (State.step params)
      (fun state action => NoError state action ∧ InOrder state action) (begun hcd main db) actions)
    (ran : exec (State.step params) (begun hcd main db) actions = some final) :
    (∀ call ∈ final.stored, Describes hcd params (hcd.hashOf call.msgBlock) call) ∧
      (∃ passed, passed <+: final.history ∧ (final.Quiescent → passed = final.history) ∧
        storedBy .chainDB final.stored = passed.filterMap extended ∧
        storedBy .sqliteDB final.stored = passed.filterMap extended ∧
        storedBy .webUI final.stored = passed.filterMap lastBlock ∧
        storedBy .explore final.stored = passed.filterMap lastBlock) ∧
      (final.Quiescent → final.history ≠ [] →
        (storedBy .explore final.stored).getLast? = final.main.getLast?) := by
  have keeps := keeps_of_run rooted mirrors admitted ran
  obtain ⟨count, groups, stored, related, whole⟩ : ∃ count groups, final.stored = groups.flatten ∧
      List.Forall₂ (Reports hcd params) (final.history.take count) groups ∧
      (final.Quiescent → count = final.history.length) := by
    by_cases quiescent : final.Quiescent
    · obtain ⟨groups, stored, related⟩ := (keeps.shows_all quiescent).reports
      exact ⟨_, groups, stored, related, fun _ => rfl⟩
    · obtain ⟨tables, calls, shown⟩ := keeps.shows
      obtain ⟨groups, stored, related⟩ := shown.reports
      exact ⟨calls, groups, stored, related, fun isQuiescent => absurd isQuiescent quiescent⟩
  obtain ⟨chainDB, sqliteDB, webUI, explore, describe⟩ := storedBy_flatten related
  rw [← stored] at chainDB sqliteDB webUI explore describe
  refine ⟨describe, ⟨final.history.take count, List.take_prefix _ _, ?_, chainDB, sqliteDB, webUI,
    explore⟩, ?_⟩
  · intro quiescent
    rw [whole quiescent, List.take_length]
  · intro quiescent changed
    rw [whole quiescent, List.take_length] at explore
    obtain ⟨earlier, last, isLast⟩ : ∃ earlier last, final.history = earlier ++ [last] :=
      ⟨_, _, (List.dropLast_append_getLast changed).symm⟩
    obtain ⟨tip, isTip⟩ : ∃ tip, lastBlock last = some tip := by
      have announceable := keeps.grown.announceable last (by simp [isLast])
      cases last with
      | extend block => exact ⟨block, rfl⟩
      | replace fork side =>
        obtain ⟨before, tip, rfl, -⟩ := announceable
        exact ⟨tip, by simp [lastBlock, Change.blocks]⟩
    have mainTip : final.main.getLast? = some tip := by
      rw [keeps.grown.main, isLast, Change.applyAll_concat]
      cases last with
      | extend block =>
        obtain rfl : block = tip := Option.some.inj isTip
        simp [Change.apply]
      | replace fork side =>
        have isLastSide : side.getLast? = some tip := isTip
        rw [Change.apply, List.getLast?_append, isLastSide]
        rfl
    rw [explore, isLast, List.filterMap_append, mainTip]
    simp [isTip]

section SampleRun

/-- The blocks that the node of the run below has heard of. -/
def runBlocks : List MsgBlock :=
  [Sample.genesis, Sample.firstBlock, Sample.sideBlock, Sample.sideChild]

/-- A node that has these blocks, and one of them as its best. -/
def runMoments (best : MsgBlock) : Moments where
  blocks hash := runBlocks.find? fun block => Sample.hcd.hashOf block == hash
  atBlockCount := best
  atBestBlockHash := best
  atStakeDifficulty := best

/-- The data of the best block are collected, as the node answers for it. -/
def runCollect (best : MsgBlock) : Action :=
  .collect (runMoments best) (sampleAnswers (runMoments best)) ⟨none, none⟩

/-- The side chain is stored in the tables, without a failure. -/
def runSwitch : Action :=
  .switch (fun _ => sampleAnswers (runMoments Sample.sideChild)) (fun _ => ⟨none, none⟩) none none

/-- A block is connected, then replaced by a side chain of two; each monitor takes the
notifications in order. -/
def runActions : List Action :=
  [.extend Sample.firstBlock, .deliver, .beginBlock, .readBlockdata, runCollect Sample.firstBlock,
    .readHcsqlite, .reorganize 0 [Sample.sideBlock, Sample.sideChild], .deliver,
    .receiveReorg .blockdata, .applyReorg .blockdata, .deliver, .deliver, .beginBlock,
    .readBlockdata, .receiveReorg .hcsqlite, .applyReorg .hcsqlite, .readHcsqlite, .beginBlock,
    .readBlockdata, .clearBlockdata, runCollect Sample.sideChild, .readHcsqlite, runSwitch,
    .clearHcsqlite]

/-- The tables of the genesis block, with its height in memory. -/
def runTables : DB noRates.Rates := ⟨genesisSummaries, genesisInfos, 0, 0⟩

/-- What is checked of a state and an action of the run. -/
def checked (state : State Sample.hcd noRates) : Action → Bool
  | .reorganize _ side => (side.map Sample.hcd.hashOf).Nodup
  | .deliver => (state.monitors .blockdata).reorgChan.length < reorgBuffer &&
      (state.monitors .hcsqlite).reorgChan.length < reorgBuffer
  | .applyReorg name => !(state.monitors name).fields.reorganizing &&
      (state.monitors name).outstanding.head?.any (!·.isBlock)
  | .readBlockdata => (state.monitors .blockdata).outstanding.head?.any (·.isBlock)
  | .readHcsqlite => (state.monitors .hcsqlite).outstanding.head?.any (·.isBlock)
  | .collect moments _ _ => state.known.all (runBlocks.contains ·) && match state.round with
    | .collecting hash _ => runBlocks.contains moments.atBestBlockHash &&
        Sample.hcd.hashOf moments.atBestBlockHash == hash
    | _ => true
  | .switch .. => state.known.all (runBlocks.contains ·)
  | _ => true

/-- The collections and the switch are those of the run. -/
def Answered : Action → Prop
  | .collect moments answers faults => ∃ best, moments = runMoments best ∧
      answers = sampleAnswers (runMoments best) ∧ faults = ⟨none, none⟩
  | .switch answers faults heightFault rowFault =>
      (∀ i, answers i = sampleAnswers (runMoments Sample.sideChild) ∧ faults i = ⟨none, none⟩) ∧
        heightFault = none ∧ rowFault = none
  | _ => True

/-- The node finds each of its blocks by the hash. -/
theorem runMoments_blocks (best : MsgBlock) {block : MsgBlock} (member : block ∈ runBlocks) :
    (runMoments best).blocks (Sample.hcd.hashOf block) = some block := by
  simp only [runBlocks, List.mem_cons, List.not_mem_nil, or_false] at member
  rcases member with rfl | rfl | rfl | rfl <;> rfl

/-- What the node answers for a block that it has. -/
theorem runAnswers_found (best : MsgBlock) {hash : Hash} {block : MsgBlock}
    (isBlock : (runMoments best).blocks hash = some block) :
    ((runMoments best).blocks hash).elim (.error "not found") .ok =
      (.ok block : Except String MsgBlock) := by
  rw [isBlock, Option.elim_some]

/-- The node of the run keeps what it documents of its answers. -/
theorem runMoments_documented (best : MsgBlock) :
    Documented Sample.hcd (runMoments best) (sampleAnswers (runMoments best)) := by
  have found {hash : Hash} {block : MsgBlock}
      (answered : ((runMoments best).blocks hash).elim (.error "not found") .ok =
        (.ok block : Except String MsgBlock)) : (runMoments best).blocks hash = some block := by
    cases isBlock : (runMoments best).blocks hash with
    | none => simp [isBlock] at answered
    | some other => simpa [isBlock] using answered
  refine ⟨?_, fun _ _ => found, fun _ _ => found, ?_, ?_, ?_, ?_⟩
  · intro hash block isBlock
    have chosen := List.find?_some isBlock
    exact eq_of_beq chosen
  · rintro _ ⟨⟩
    rfl
  · rintro _ ⟨⟩
    rfl
  · rintro _ ⟨⟩
    rfl
  · intro hash header answered
    cases isBlock : (runMoments best).blocks hash with
    | none => simp [sampleAnswers, isBlock] at answered
    | some block =>
      obtain rfl : _ = header := by simpa [sampleAnswers, isBlock] using answered
      exact ⟨rfl, fun other isOther => by rw [← Option.some.inj isOther]⟩

/-- The node of the run answers for every block that it has. -/
theorem runMoments_complete (best : MsgBlock) {block : MsgBlock} (member : block ∈ runBlocks) :
    Collection.Complete (runMoments best) (sampleAnswers (runMoments best))
      (Sample.hcd.hashOf block) := by
  have header (hash : Hash) (found : MsgBlock) (isBlock : (runMoments best).blocks hash = some found) :
      ∃ header, (sampleAnswers (runMoments best)).getBlockHeaderVerbose hash = .ok header :=
    ⟨_, by simp only [sampleAnswers, isBlock, Option.elim_some]; rfl⟩
  exact ⟨⟨block, runAnswers_found best (runMoments_blocks best member)⟩, ⟨_, rfl⟩, ⟨_, rfl⟩, ⟨_, rfl⟩,
    fun hash found isBlock => runAnswers_found best isBlock, header, ⟨_, rfl⟩⟩

/-- A notification that is no block is a reorganization. -/
theorem head_of_any {outstanding : List Notification}
    (isFirst : outstanding.head?.any (!·.isBlock) = true) :
    ∃ data, outstanding.head? = some (.reorganization data) := by
  cases outstanding with
  | nil => cases isFirst
  | cons notification rest =>
    cases notification with
    | blockConnected hash => cases isFirst
    | reorganization data => exact ⟨data, rfl⟩

/-- A first notification that is of a block is a notification of some connected block. -/
theorem head_of_any_block {outstanding : List Notification}
    (isFirst : outstanding.head?.any (·.isBlock) = true) :
    ∃ hash, outstanding.head? = some (.blockConnected hash) := by
  cases outstanding with
  | nil => cases isFirst
  | cons notification rest =>
    cases notification with
    | blockConnected hash => exact ⟨hash, rfl⟩
    | reorganization data => cases isFirst

/-- What was checked is what the laws ask for. -/
theorem allowed_of_checked {state : State Sample.hcd noRates} {action : Action}
    (isChecked : checked state action = true) (answered : Answered action) :
    NoError state action ∧ InOrder state action := by
  have knownBlocks (all : state.known.all (runBlocks.contains ·) = true) :
      ∀ block ∈ state.known, block ∈ runBlocks := fun block member => by
    simpa using List.all_eq_true.mp all block member
  cases action with
  | extend block => exact ⟨trivial, trivial⟩
  | reorganize fork side =>
    refine ⟨?_, trivial⟩
    rintro before tip rfl
    have distinct : ((before ++ [tip]).map Sample.hcd.hashOf).Nodup := of_decide_eq_true isChecked
    rw [List.map_append, List.nodup_append] at distinct
    exact fun member => distinct.2.2 _ member _ List.mem_cons_self rfl
  | deliver =>
    simp only [checked, Bool.and_eq_true, decide_eq_true_eq] at isChecked
    refine ⟨trivial, fun data _ name => ?_⟩
    cases name with
    | blockdata => exact isChecked.1
    | hcsqlite => exact isChecked.2
  | receiveReorg name => exact ⟨trivial, trivial⟩
  | applyReorg name =>
    simp only [checked, Bool.and_eq_true, Bool.not_eq_true'] at isChecked
    exact ⟨trivial, isChecked.1, head_of_any isChecked.2⟩
  | beginBlock => exact ⟨trivial, trivial⟩
  | readBlockdata => exact ⟨trivial, head_of_any_block isChecked⟩
  | clearBlockdata => exact ⟨trivial, trivial⟩
  | collect moments answers faults =>
    obtain ⟨best, rfl, rfl, rfl⟩ := answered
    simp only [checked, Bool.and_eq_true] at isChecked
    refine ⟨⟨rfl, runMoments_documented best, fun block member =>
      runMoments_blocks best (knownBlocks isChecked.1 block member), ?_⟩, trivial⟩
    intro hash savers isRound
    have atRound := isChecked.2
    rw [isRound] at atRound
    simp only [Bool.and_eq_true, beq_iff_eq] at atRound
    obtain ⟨member, rfl⟩ := atRound
    have isMember : best ∈ runBlocks := by simpa [runMoments] using member
    refine ⟨runMoments_complete best isMember, fun block isBlock _ => ?_⟩
    obtain rfl : best = block :=
      Option.some.inj ((runMoments_blocks best isMember).symm.trans isBlock)
    exact ⟨rfl, rfl⟩
  | readHcsqlite => exact ⟨trivial, head_of_any_block isChecked⟩
  | switch answers faults heightFault rowFault =>
    obtain ⟨each, rfl, rfl⟩ := answered
    refine ⟨⟨fun i => ⟨(each i).2, ?_⟩, rfl, rfl⟩, trivial⟩
    rw [(each i).1]
    have has (block : MsgBlock) (member : block ∈ state.known) :=
      runMoments_blocks Sample.sideChild (knownBlocks isChecked block member)
    refine ⟨fun block member => runAnswers_found _ (has block member), fun block member => ?_⟩
    exact ⟨_, by simp only [sampleAnswers, has block member, Option.elim_some]; rfl⟩
  | clearHcsqlite => exact ⟨trivial, trivial⟩

/-- The run is allowed: each of its steps is without an error and in order. -/
theorem runActions_admitted : Admitted (State.step ⟨16, 144⟩)
    (fun (state : State Sample.hcd noRates) action => NoError state action ∧ InOrder state action)
    (begun Sample.hcd [Sample.genesis] runTables) runActions := by
  have each : ∀ action ∈ runActions, Answered action := by
    have collects (best : MsgBlock) : Answered (runCollect best) := ⟨best, rfl, rfl, rfl⟩
    have switches : Answered runSwitch := ⟨fun _ => ⟨rfl, rfl⟩, rfl, rfl⟩
    simp only [runActions, List.forall_mem_cons]
    exact ⟨trivial, trivial, trivial, trivial, collects _, trivial, trivial, trivial, trivial, trivial,
      trivial, trivial, trivial, trivial, trivial, trivial, trivial, trivial, trivial, trivial,
      collects _, trivial, switches, trivial, fun _ member => absurd member List.not_mem_nil⟩
  have all : Admitted (State.step ⟨16, 144⟩)
      (fun (state : State Sample.hcd noRates) action => checked state action = true)
      (begun Sample.hcd [Sample.genesis] runTables) runActions := by
    decide +kernel
  exact (all.and_mem each).imp (fun _ => True) (fun _ _ _ _ _ _ => trivial)
    (fun _ _ _ both => allowed_of_checked both.1 both.2) trivial

/-- The chain of the genesis block, and its tables. -/
theorem genesis_rooted : (chainView Sample.hcd).Rooted [Sample.genesis] :=
  ⟨List.cons_ne_nil _ _, by rintro first ⟨⟩; rfl, List.isChain_singleton _⟩

/-- The tables of the genesis block mirror a main chain of this block. -/
theorem runTables_mirror : Mirrors Sample.hcd runTables [Sample.genesis] := by
  let summary := resyncSummary Sample.hcd noRates (Sample.hcd.hashOf Sample.genesis) ⟨0, 0, 0⟩ Sample.genesis
  let info : StakeInfoExtended Unit :=
    ⟨feeRateInfoBlock Sample.hcd noRates Sample.genesis, 0, 0, 0, ⟨0, 0, 0⟩⟩
  exact ⟨⟨[(summary, info)], ⟨rfl, rfl⟩, .cons ⟨rfl, rfl, rfl⟩ .nil⟩, rfl, rfl⟩

/-- The law of the tables at the run, which ends with the side chain as the main chain. -/
theorem tables_mirror_main_run :
    ∃ final : State Sample.hcd noRates, exec (State.step ⟨16, 144⟩)
        (begun Sample.hcd [Sample.genesis] runTables) runActions = some final ∧
      final.main = [Sample.genesis, Sample.sideBlock, Sample.sideChild] ∧
      Mirrors Sample.hcd final.db final.main := by
  have outcome : (exec (State.step ⟨16, 144⟩)
      (begun Sample.hcd [Sample.genesis] runTables : State Sample.hcd noRates) runActions).map
        (fun final => (final.main, decide final.Quiescent)) =
      some ([Sample.genesis, Sample.sideBlock, Sample.sideChild], true) := by
    decide +kernel
  obtain ⟨final, ran, same⟩ := Option.map_eq_some_iff.mp outcome
  obtain ⟨isMain, quiescent⟩ := Prod.mk.inj same
  exact ⟨final, ran, isMain, ((tables_mirror_main genesis_rooted runTables_mirror runActions_admitted
    ran).2 (of_decide_eq_true quiescent)).1⟩

/-- The law of the savers at the run, whose calls describe the blocks that they are for. -/
theorem savers_get_changes_run :
    ∃ final : State Sample.hcd noRates, exec (State.step ⟨16, 144⟩)
        (begun Sample.hcd [Sample.genesis] runTables) runActions = some final ∧
      ∀ call ∈ final.stored,
        Describes Sample.hcd ⟨16, 144⟩ (Sample.hcd.hashOf call.msgBlock) call := by
  have outcome : (exec (State.step ⟨16, 144⟩)
      (begun Sample.hcd [Sample.genesis] runTables : State Sample.hcd noRates) runActions).isSome =
        true := by
    decide +kernel
  obtain ⟨final, ran⟩ := Option.isSome_iff_exists.mp outcome
  exact ⟨final, ran,
    (savers_get_changes genesis_rooted runTables_mirror runActions_admitted ran).1⟩

end SampleRun

end Hcexplorer.Live

import Hcexplorer.Hcsqlite.Tables
import Hcexplorer.Sample

/-!
# The start-up synchronization

`resyncDBWithPoolValue`: the node's blocks above the lowest of three heights, those
of the two tables and that of the stake node, are read one after another, and
each of the three stores takes the blocks it does not have. A stake node that is
ahead of a table is first taken back to it.

The stake database is an interface here: its height, and the calls that move it.
Calls are answered by the passes of the two loops; a run whose passes are used up
is still going on. A run returns with a height, because it is done, because of a
quit, or with an error. It may also panic, for one of the two reasons that its
loops check, or in a call or a division.
-/

namespace Hcexplorer.Hcsqlite

open Collection

/-- The stake database, as far as the synchronization uses it. -/
structure StakeStore where
  State : Type
  opened : State → Bool
  height : State → Nat
  connectBlock : Environment → MsgBlock → State → Outcome (State × Option String)
  disconnectBlock : Environment → State → Outcome (State × Option String)
  poolInfo : Hash → State → Option TicketPoolInfo
  poolInfoBest : Environment → State → Outcome (TicketPoolInfo × Nat × State)

/-- One pass of the loop that takes the stake node back. -/
structure RewindPass where
  quit : Bool
  env : Environment

/-- One pass of the loop over the blocks: whether it is told to quit, and what the node and the
statements answer. -/
structure ScanPass where
  quit : Bool
  client : NodeClient
  env : Environment
  storeBlockSummary : Option String
  storeStakeInfoExtended : Option String
  getBestBlock : Except String Int

/-- What is decided outside of one synchronization: the node's answers and the failures of
statements. -/
structure ResyncEnv where
  getBestBlock : Except String Int
  summaryHeight : Option String
  stakeInfoHeight : Option String
  rewinds : List RewindPass
  scans : List ScanPass

/-- Why the synchronization returned: it is done, it was told to quit, or it failed. -/
inductive Return where
  | finished
  | quit
  | failed (err : String)
deriving DecidableEq, Repr

/-- How the synchronization ended. `died` is a panic or a wait for ever of a call,
or a division by zero. -/
inductive ResyncEnd where
  | returned (height : Int) (how : Return)
  | rewindFailed
  | wrongBlock (height : Int)
  | died
deriving DecidableEq, Repr

variable {sDB : StakeStore} {Rates : Type}

/-- The loop that takes the stake node back to a height. It ends with the height of
the stake node, or with the synchronization. -/
def rewindLoop (sDB : StakeStore) (startHeight : Int) :
    List RewindPass → Int → sDB.State → Option ((Int ⊕ ResyncEnd) × sDB.State)
  | passes, bestNodeHeight, state =>
    if bestNodeHeight ≤ startHeight then some (.inl bestNodeHeight, state)
    else
      match passes with
      | [] => none
      | pass :: rest =>
        if pass.quit then some (.inr (.returned startHeight .quit), state)
        else
          match sDB.disconnectBlock pass.env state with
          | .returned (state, none) => rewindLoop sDB startHeight rest (sDB.height state) state
          | .returned (state, some err) => some (.inr (.returned startHeight (.failed err)), state)
          | .blocked | .panicked => some (.inr .died, state)

/-- The pool information of a block: what was recorded for it, else that of the best
stake node. -/
def ticketPoolInfo (sDB : StakeStore) (env : Environment) (blockhash : Hash) (state : sDB.State) :
    Outcome (TicketPoolInfo × sDB.State) :=
  match sDB.poolInfo blockhash state with
  | some tpi => .returned (tpi, state)
  | none => (sDB.poolInfoBest env state).bind fun (tpi, _, state) => .returned (tpi, state)

/-- The summary of a block, as the synchronization writes it from the block and its ticket pool. -/
def resyncSummary (hcd : Hcd) (statistics : Statistics) (blockhash : Hash) (tpi : TicketPoolInfo)
    (block : MsgBlock) : BlockDataBasic where
  height := block.header.height
  size := block.header.size
  hash := blockhash
  difficulty := statistics.getDifficultyRatio block.header.bits
  stakeDiff := hcd.toCoin block.header.sBits
  time := block.header.timestamp
  poolInfo := tpi

/-- The stake info of a block, unless the window size is zero. The stake difficulty
is left at zero. -/
def resyncStakeInfo (hcd : Hcd) (params : ChainParams) (statistics : Statistics) (i : Int)
    (tpi : TicketPoolInfo) (block : MsgBlock) : Option (StakeInfoExtended statistics.Rates) :=
  let winSize : Int := params.stakeDiffWindowSize.toUInt64.toUInt32.toNat
  if winSize = 0 then none
  else some {
    feeinfo := feeRateInfoBlock hcd statistics block
    stakeDiff := 0
    priceWindowNum := i.tdiv winSize
    idxBlockInWindow := i.tmod winSize + 1
    poolInfo := tpi }

/-- The block of a pass, connected to the stake node if it is above it. -/
def resyncConnect (sDB : StakeStore) (bestNodeHeight i : Int) (pass : ScanPass) (block : MsgBlock)
    (state : sDB.State) : Option ResyncEnd × sDB.State :=
  if bestNodeHeight < i then
    if i ≠ sDB.height state + 1 then (some (.wrongBlock i), state)
    else
      match sDB.connectBlock pass.env block state with
      | .returned (state, none) => (none, state)
      | .returned (state, some err) => (some (.returned (i - 1) (.failed err)), state)
      | .blocked | .panicked => (some .died, state)
  else (none, state)

/-- The heights that the loop starts with: those of the two tables and that of the stake
database. -/
structure Heights where
  bestBlockHeight : Int
  bestStakeHeight : Int
  bestNodeHeight : Int
deriving DecidableEq, Repr

/-- The rows of a block, stored in the tables that do not have it. It ends with the
height of the node after that, or with the synchronization. -/
def resyncStore (hcd : Hcd) (params : ChainParams) (statistics : Statistics) (heights : Heights)
    (i : Int) (pass : ScanPass) (block : MsgBlock) (blockhash : Hash) (tpi : TicketPoolInfo)
    (db : DB statistics.Rates) : (Int ⊕ ResyncEnd) × DB statistics.Rates :=
  let (stored, db) :=
    if heights.bestBlockHeight < i then
      db.storeBlockSummary pass.storeBlockSummary (resyncSummary hcd statistics blockhash tpi block)
    else (none, db)
  match stored with
  | some err =>
    let err := "Unable to store block summary in database: " ++ err
    (.inr (.returned (i - 1) (.failed err)), db)
  | none =>
    if i ≤ heights.bestStakeHeight then
      match pass.getBestBlock with
      | .error err => (.inr (.returned (i - 1) (.failed ("GetBestBlock failed: " ++ err))), db)
      | .ok height => (.inl height, db)
    else
      match resyncStakeInfo hcd params statistics i tpi block with
      | none => (.inr .died, db)
      | some si =>
        match db.storeStakeInfoExtended pass.storeStakeInfoExtended si with
        | (some err, db) =>
          let err := "Unable to store stake info in database: " ++ err
          (.inr (.returned (i - 1) (.failed err)), db)
        | (none, db) =>
          match pass.getBestBlock with
          | .error err => (.inr (.returned i (.failed ("GetBestBlock failed: " ++ err))), db)
          | .ok height => (.inl height, db)

/-- One pass of the loop at a height: it ends with the height of the node, or with
the synchronization. -/
def scanPass (hcd : Hcd) (params : ChainParams) (statistics : Statistics) (sDB : StakeStore)
    (heights : Heights) (i : Int) (pass : ScanPass) (state : sDB.State) (db : DB statistics.Rates) :
    (Int ⊕ ResyncEnd) × sDB.State × DB statistics.Rates :=
  if pass.quit then (.inr (.returned (i - 1) .quit), state, db)
  else
    match pass.client.getBlockAt i with
    | .error err => (.inr (.returned (i - 1) (.failed ("GetBlock failed: " ++ err))), state, db)
    | .ok (block, blockhash) =>
      match resyncConnect sDB heights.bestNodeHeight i pass block state with
      | (some ended, state) => (.inr ended, state, db)
      | (none, state) =>
        match ticketPoolInfo sDB pass.env blockhash state with
        | .blocked | .panicked => (.inr .died, state, db)
        | .returned (tpi, state) =>
          let (ended, db) := resyncStore hcd params statistics heights i pass block blockhash tpi db
          (ended, state, db)

/-- The loop over the blocks, from a height toward the node's best height. -/
def scanLoop (hcd : Hcd) (params : ChainParams) (statistics : Statistics) (sDB : StakeStore)
    (heights : Heights) : List ScanPass → Int → Int → sDB.State → DB statistics.Rates →
      Option (ResyncEnd × sDB.State × DB statistics.Rates)
  | passes, i, height, state, db =>
    if height < i then some (.returned height .finished, state, db)
    else
      match passes with
      | [] => none
      | pass :: rest =>
        match scanPass hcd params statistics sDB heights i pass state db with
        | (.inr ended, state, db) => some (ended, state, db)
        | (.inl height, state, db) =>
          scanLoop hcd params statistics sDB heights rest (i + 1) height state db

/-- The part of `resyncDBWithPoolValue` after the stake node was taken back. -/
def resyncFrom (hcd : Hcd) (params : ChainParams) (statistics : Statistics) (sDB : StakeStore)
    (heights : Heights) (scans : List ScanPass) (startHeight height : Int) (state : sDB.State)
    (db : DB statistics.Rates) : Option (ResyncEnd × sDB.State × DB statistics.Rates) :=
  let startHeight := if startHeight < -1 then -1 else startHeight
  if height - startHeight < 1 then some (.returned startHeight .finished, state, db)
  else scanLoop hcd params statistics sDB heights scans (startHeight + 1) height state db

/-- `resyncDBWithPoolValue`, from its start to its return; none while it is running. -/
def resyncDBWithPoolValue (hcd : Hcd) (params : ChainParams) (statistics : Statistics)
    (sDB : StakeStore) (env : ResyncEnv) (state : sDB.State) (db : DB statistics.Rates) :
    Option (ResyncEnd × sDB.State × DB statistics.Rates) :=
  match env.getBestBlock with
  | .error err => some (.returned (-1) (.failed ("GetBestBlock failed: " ++ err)), state, db)
  | .ok height =>
    let (bestBlockHeight, db) := db.getBlockSummaryHeight env.summaryHeight
    let (bestStakeHeight, db) := db.getStakeInfoHeight env.stakeInfoHeight
    if !sDB.opened state then
      some (.returned (-1) (.failed "Cannot resync without the stake DB"), state, db)
    else
      let bestNodeHeight : Int := sDB.height state
      let startHeight := if bestBlockHeight < bestStakeHeight then bestBlockHeight
        else bestStakeHeight
      if bestNodeHeight < startHeight then
        resyncFrom hcd params statistics sDB ⟨bestBlockHeight, bestStakeHeight, bestNodeHeight⟩
          env.scans bestNodeHeight height state db
      else if startHeight < bestNodeHeight ∧ 0 < bestNodeHeight then
        if startHeight < 0 ∨ 2 * startHeight < bestNodeHeight then
          some (.returned (-1) (.failed "delete stake db (ffldb_stake) and try again"), state, db)
        else
          match rewindLoop sDB startHeight env.rewinds bestNodeHeight state with
          | none => none
          | some (.inr ended, state) => some (ended, state, db)
          | some (.inl bestNodeHeight, state) =>
            if bestNodeHeight ≠ startHeight then some (.rewindFailed, state, db)
            else
              resyncFrom hcd params statistics sDB
                ⟨bestBlockHeight, bestStakeHeight, bestNodeHeight⟩ env.scans startHeight height
                state db
      else
        resyncFrom hcd params statistics sDB ⟨bestBlockHeight, bestStakeHeight, bestNodeHeight⟩
          env.scans startHeight height state db

section Complete

/-- What the program relies on of the stake database: a connection and a
disconnection move it by exactly one height, and one that fails leaves its height. -/
structure StakeStore.MovesByOne (sDB : StakeStore) : Prop where
  connect : ∀ env block state after, sDB.connectBlock env block state = .returned (after, none) →
    sDB.height after = sDB.height state + 1
  connectFailed : ∀ env block state after err,
    sDB.connectBlock env block state = .returned (after, some err) →
      sDB.height after = sDB.height state
  disconnect : ∀ env state after, sDB.disconnectBlock env state = .returned (after, none) →
    sDB.height after + 1 = sDB.height state
  disconnectFailed : ∀ env state after err,
    sDB.disconnectBlock env state = .returned (after, some err) →
      sDB.height after = sDB.height state
  poolInfoBest : ∀ env state tpi height after,
    sDB.poolInfoBest env state = .returned (tpi, height, after) →
      sDB.height after = sDB.height state

/-- The rows of the tables are kept, both are complete up to a height, and the stake
node is at that height or above. -/
structure Resynced (sDB : StakeStore) (before after : DB Rates) (state : sDB.State) (height : Int) :
    Prop where
  summaries : ∀ wanted, 0 ≤ wanted → wanted ≤ height → after.summaries.Has wanted
  stakeInfos : ∀ wanted, 0 ≤ wanted → wanted ≤ height → after.stakeInfos.Has wanted
  node : height ≤ sDB.height state
  summariesKept : ∀ row ∈ before.summaries.rows, row ∈ after.summaries.rows
  stakeInfosKept : ∀ row ∈ before.stakeInfos.rows, row ∈ after.stakeInfos.rows

/-- The heights of the three stores: the tables are complete up to theirs and have
nothing above it. -/
structure Reached (sDB : StakeStore) (before : DB Rates) (heights : Heights) (state : sDB.State)
    (db : DB Rates) : Prop where
  summaries : ∀ wanted, db.summaries.Has wanted ↔ 0 ≤ wanted ∧ wanted ≤ heights.bestBlockHeight
  stakeInfos : ∀ wanted, db.stakeInfos.Has wanted ↔ 0 ≤ wanted ∧ wanted ≤ heights.bestStakeHeight
  node : (sDB.height state : Int) = heights.bestNodeHeight
  summariesKept : ∀ row ∈ before.summaries.rows, row ∈ db.summaries.rows
  stakeInfosKept : ∀ row ∈ before.stakeInfos.rows, row ∈ db.stakeInfos.rows

/-- The heights after the blocks up to one were read: each store has moved up to it
or was above it. -/
def Heights.upTo (heights : Heights) (i : Int) : Heights :=
  ⟨max heights.bestBlockHeight i, max heights.bestStakeHeight i, max heights.bestNodeHeight i⟩

variable {before db : DB Rates} {heights : Heights} {state : sDB.State}

/-- Up to the lowest of the three heights, all is there. -/
theorem Reached.resynced {b s n height : Int} (reached : Reached sDB before ⟨b, s, n⟩ state db)
    (inSummaries : height ≤ b) (inStakeInfos : height ≤ s) (inNode : height ≤ n) :
    Resynced sDB before db state height where
  summaries wanted low high := (reached.summaries wanted).mpr ⟨low, high.trans inSummaries⟩
  stakeInfos wanted low high := (reached.stakeInfos wanted).mpr ⟨low, high.trans inStakeInfos⟩
  node := inNode.trans_eq reached.node.symm
  summariesKept := reached.summariesKept
  stakeInfosKept := reached.stakeInfosKept

/-- The synchronization ended as it should: not by a panic of its own, and when it
returned, with a height up to which it is complete. -/
def EndsWell (sDB : StakeStore) (before after : DB Rates) (state : sDB.State) : ResyncEnd → Prop
  | .returned height _ => Resynced sDB before after state height
  | .rewindFailed => False
  | .wrongBlock _ => False
  | .died => True

/-- The loop that takes the stake node back ends at the height, or above it with the
synchronization. -/
theorem rewindLoop_ends (moves : sDB.MovesByOne) {startHeight bestNodeHeight : Int}
    {passes : List RewindPass} {final : sDB.State} {ended : Int ⊕ ResyncEnd}
    (atNode : (sDB.height state : Int) = bestNodeHeight) (above : startHeight ≤ bestNodeHeight)
    (ran : rewindLoop sDB startHeight passes bestNodeHeight state = some (ended, final)) :
    (ended = .inl startHeight ∧ (sDB.height final : Int) = startHeight) ∨
      ended = .inr .died ∨
        ∃ how, ended = .inr (.returned startHeight how) ∧ startHeight ≤ sDB.height final := by
  induction passes generalizing bestNodeHeight state with
  | nil =>
    unfold rewindLoop at ran
    split at ran
    · obtain ⟨rfl, rfl⟩ := Prod.mk.inj (Option.some.inj ran)
      have same : bestNodeHeight = startHeight := by omega
      exact Or.inl ⟨by rw [same], by omega⟩
    · cases ran
  | cons pass rest inductionHypothesis =>
    unfold rewindLoop at ran
    split at ran
    · obtain ⟨rfl, rfl⟩ := Prod.mk.inj (Option.some.inj ran)
      have same : bestNodeHeight = startHeight := by omega
      exact Or.inl ⟨by rw [same], by omega⟩
    · rename_i higher
      dsimp only at ran
      split at ran
      · obtain ⟨rfl, rfl⟩ := Prod.mk.inj (Option.some.inj ran)
        exact Or.inr (Or.inr ⟨.quit, rfl, by omega⟩)
      · split at ran
        · rename_i after disconnected
          have lower := moves.disconnect _ _ _ disconnected
          exact inductionHypothesis rfl (by omega) ran
        · rename_i after err disconnected
          obtain ⟨rfl, rfl⟩ := Prod.mk.inj (Option.some.inj ran)
          have same := moves.disconnectFailed _ _ _ _ disconnected
          exact Or.inr (Or.inr ⟨.failed err, rfl, by omega⟩)
        · obtain ⟨rfl, rfl⟩ := Prod.mk.inj (Option.some.inj ran)
          exact Or.inr (Or.inl rfl)
        · obtain ⟨rfl, rfl⟩ := Prod.mk.inj (Option.some.inj ran)
          exact Or.inr (Or.inl rfl)

/-- A block is connected when it is the next one, and the check before it never
fails. -/
theorem resyncConnect_ends (moves : sDB.MovesByOne) {i bestNodeHeight : Int} {pass : ScanPass}
    {block : MsgBlock} {after : sDB.State} {ended : Option ResyncEnd}
    (atNode : (sDB.height state : Int) = max bestNodeHeight (i - 1))
    (ran : resyncConnect sDB bestNodeHeight i pass block state = (ended, after)) :
    (ended = none ∧ (sDB.height after : Int) = max bestNodeHeight i) ∨ ended = some .died ∨
      ∃ err, ended = some (.returned (i - 1) (.failed err)) ∧
        (sDB.height after : Int) = max bestNodeHeight (i - 1) := by
  unfold resyncConnect at ran
  split at ran
  · rename_i needed
    have next : i = sDB.height state + 1 := by omega
    rw [if_neg (not_not_intro next)] at ran
    split at ran
    · rename_i connected isConnected
      obtain ⟨rfl, rfl⟩ := Prod.mk.inj ran
      have higher := moves.connect _ _ _ _ isConnected
      exact Or.inl ⟨rfl, by omega⟩
    · rename_i failed err isFailed
      obtain ⟨rfl, rfl⟩ := Prod.mk.inj ran
      have same := moves.connectFailed _ _ _ _ _ isFailed
      exact Or.inr (Or.inr ⟨err, rfl, by omega⟩)
    · obtain ⟨rfl, rfl⟩ := Prod.mk.inj ran
      exact Or.inr (Or.inl rfl)
    · obtain ⟨rfl, rfl⟩ := Prod.mk.inj ran
      exact Or.inr (Or.inl rfl)
  · obtain ⟨rfl, rfl⟩ := Prod.mk.inj ran
    exact Or.inl ⟨rfl, by omega⟩

/-- The row of the next height completes the summaries up to it. -/
theorem Reached.storeBlockSummary {i b s n : Int} {bd : BlockDataBasic} (low : 0 ≤ i)
    (isKey : summaryKey bd = i) (next : b + 1 = i)
    (reached : Reached sDB before ⟨b, s, n⟩ state db) :
    Reached sDB before ⟨i, s, n⟩ state (db.storeBlockSummary none bd).2 where
  summaries wanted := by
    have prior := reached.summaries wanted
    simp only [DB.storeBlockSummary, KeyedTable.has_insertOrReplace, isKey, prior]
    omega
  stakeInfos := reached.stakeInfos
  node := reached.node
  summariesKept row member := by
    apply KeyedTable.mem_insertOrReplace_of_new _ (reached.summariesKept row member)
    rw [isKey, reached.summaries]
    rintro ⟨-, below⟩
    have inside : i ≤ b := below
    omega
  stakeInfosKept := reached.stakeInfosKept

/-- The stake info of the next height takes the table of stake infos up to it. -/
theorem Reached.storeStakeInfoExtended {i b s n : Int} {si : StakeInfoExtended Rates} (low : 0 ≤ i)
    (isKey : stakeInfoKey Rates si = i) (next : s + 1 = i)
    (reached : Reached sDB before ⟨b, s, n⟩ state db) :
    Reached sDB before ⟨b, i, n⟩ state (db.storeStakeInfoExtended none si).2 where
  summaries := reached.summaries
  stakeInfos wanted := by
    have prior := reached.stakeInfos wanted
    simp only [DB.storeStakeInfoExtended, KeyedTable.has_insertOrReplace, isKey, prior]
    omega
  node := reached.node
  summariesKept := reached.summariesKept
  stakeInfosKept row member := by
    apply KeyedTable.mem_insertOrReplace_of_new _ (reached.stakeInfosKept row member)
    rw [isKey, reached.stakeInfos]
    rintro ⟨-, below⟩
    have inside : i ≤ s := below
    omega

variable {hcd : Hcd} {params : ChainParams} {statistics : Statistics}

/-- The summaries after the first half of a round, whether the row was needed or not: they are
stored through the height of the block, or the statement failed and nothing was written. -/
theorem resyncSummary_ends {before db middle : DB statistics.Rates} {i n : Int} {pass : ScanPass}
    {block : MsgBlock} {blockhash : Hash} {tpi : TicketPoolInfo} {stored : Option String}
    (isHeight : block.height = i)
    (reached : Reached sDB before
      ⟨max heights.bestBlockHeight (i - 1), max heights.bestStakeHeight (i - 1), n⟩ state db)
    (first : (if heights.bestBlockHeight < i then
        db.storeBlockSummary pass.storeBlockSummary (resyncSummary hcd statistics blockhash tpi block)
      else (none, db)) = (stored, middle)) :
    (∃ err, stored = some err ∧ middle = db) ∨ (stored = none ∧ Reached sDB before
      ⟨max heights.bestBlockHeight i, max heights.bestStakeHeight (i - 1), n⟩ state middle) := by
  have low : 0 ≤ i := isHeight ▸ height_nonneg block
  split at first
  · rename_i needed
    cases fault : pass.storeBlockSummary with
    | some err =>
      rw [fault] at first
      obtain ⟨rfl, rfl⟩ := Prod.mk.inj first
      exact Or.inl ⟨err, rfl, rfl⟩
    | none =>
      rw [fault] at first
      obtain ⟨rfl, rfl⟩ := Prod.mk.inj first
      have next : max heights.bestBlockHeight (i - 1) + 1 = i := by omega
      have top : max heights.bestBlockHeight i = i := by omega
      rw [top]
      exact Or.inr ⟨rfl, reached.storeBlockSummary low isHeight next⟩
  · obtain ⟨rfl, rfl⟩ := Prod.mk.inj first
    have same : max heights.bestBlockHeight (i - 1) = max heights.bestBlockHeight i := by omega
    exact Or.inr ⟨rfl, same ▸ reached⟩

/-- What `resyncStore` leaves: each table has moved up to the block or was above it,
or the synchronization ends with the height before. -/
theorem resyncStore_ends {before db after : DB statistics.Rates} {i n : Int} {pass : ScanPass}
    {block : MsgBlock} {blockhash : Hash} {tpi : TicketPoolInfo} {ended : Int ⊕ ResyncEnd}
    (isHeight : block.height = i) (connected : i ≤ n)
    (reached : Reached sDB before
      ⟨max heights.bestBlockHeight (i - 1), max heights.bestStakeHeight (i - 1), n⟩ state db)
    (ran : resyncStore hcd params statistics heights i pass block blockhash tpi db = (ended, after)) :
    (∃ height, ended = .inl height ∧ Reached sDB before
        ⟨max heights.bestBlockHeight i, max heights.bestStakeHeight i, n⟩ state after) ∨
      ∃ final, ended = .inr final ∧ EndsWell sDB before after state final := by
  have low : 0 ≤ i := isHeight ▸ height_nonneg block
  obtain ⟨stored, middle, first⟩ : ∃ stored middle, (if heights.bestBlockHeight < i then
      db.storeBlockSummary pass.storeBlockSummary (resyncSummary hcd statistics blockhash tpi block)
    else (none, db)) = (stored, middle) := ⟨_, _, rfl⟩
  have summary := resyncSummary_ends isHeight reached first
  simp only [resyncStore, first] at ran
  rcases summary with ⟨err, rfl, rfl⟩ | ⟨rfl, half⟩
  · obtain ⟨rfl, rfl⟩ := Prod.mk.inj ran
    exact Or.inr ⟨_, rfl, reached.resynced (le_max_right _ _) (le_max_right _ _) (by omega)⟩
  · have before_i : ∀ {s : Int} {db : DB statistics.Rates}, i - 1 ≤ s → Reached sDB before
        ⟨max heights.bestBlockHeight i, s, n⟩ state db → Resynced sDB before db state (i - 1) :=
      fun {s db} above at_i => at_i.resynced (by omega) above (by omega)
    dsimp only at ran
    split at ran
    · rename_i unneeded
      have same : max heights.bestStakeHeight (i - 1) = max heights.bestStakeHeight i := by omega
      split at ran
      · obtain ⟨rfl, rfl⟩ := Prod.mk.inj ran
        exact Or.inr ⟨_, rfl, before_i (le_max_right _ _) half⟩
      · obtain ⟨rfl, rfl⟩ := Prod.mk.inj ran
        exact Or.inl ⟨_, rfl, same ▸ half⟩
    · rename_i needed
      have next : max heights.bestStakeHeight (i - 1) + 1 = i := by omega
      have top : max heights.bestStakeHeight i = i := by omega
      split at ran
      · obtain ⟨rfl, rfl⟩ := Prod.mk.inj ran
        exact Or.inr ⟨_, rfl, trivial⟩
      · rename_i si isInfo
        have isKey : stakeInfoKey statistics.Rates si = i := by
          simp only [resyncStakeInfo] at isInfo
          split at isInfo
          · cases isInfo
          · cases isInfo
            exact isHeight
        cases fault : pass.storeStakeInfoExtended with
        | some err =>
          simp only [fault, DB.storeStakeInfoExtended] at ran
          obtain ⟨rfl, rfl⟩ := Prod.mk.inj ran
          exact Or.inr ⟨_, rfl, before_i (le_max_right _ _) half⟩
        | none =>
          have whole := half.storeStakeInfoExtended low isKey next
          simp only [fault] at ran
          split at ran
          · rename_i err _ failed
            cases congrArg Prod.fst failed
          · rename_i stored isStored
            have same : (middle.storeStakeInfoExtended none si).2 = stored :=
              congrArg Prod.snd isStored
            rw [same] at whole
            split at ran
            · obtain ⟨rfl, rfl⟩ := Prod.mk.inj ran
              exact Or.inr ⟨_, rfl, whole.resynced (le_max_right _ _) le_rfl connected⟩
            · obtain ⟨rfl, rfl⟩ := Prod.mk.inj ran
              exact Or.inl ⟨_, rfl, top.symm ▸ whole⟩

/-- The pool information is found without moving the stake node. -/
theorem ticketPoolInfo_height (moves : sDB.MovesByOne) {env : Environment} {blockhash : Hash}
    {tpi : TicketPoolInfo} {after : sDB.State}
    (found : ticketPoolInfo sDB env blockhash state = .returned (tpi, after)) :
    sDB.height after = sDB.height state := by
  unfold ticketPoolInfo at found
  split at found
  · obtain ⟨rfl, rfl⟩ := Prod.mk.inj (Outcome.returned.inj found)
    rfl
  · obtain ⟨⟨best, height, moved⟩, isBest, same⟩ := Outcome.bind_eq_returned.mp found
    obtain ⟨rfl, rfl⟩ := Prod.mk.inj (Outcome.returned.inj same)
    exact moves.poolInfoBest _ _ _ _ _ isBest

/-- The stores are where they are whatever the state of the stake database is beside
its height. -/
theorem Reached.move {n : Int} {after : sDB.State} (reached : Reached sDB before heights state db)
    (moved : (sDB.height after : Int) = n) :
    Reached sDB before { heights with bestNodeHeight := n } after db :=
  ⟨reached.summaries, reached.stakeInfos, moved, reached.summariesKept, reached.stakeInfosKept⟩

/-- One pass moves each store up to its block, or ends the synchronization well. -/
theorem scanPass_ends (moves : sDB.MovesByOne) {before db after : DB statistics.Rates} {i : Int}
    {pass : ScanPass} {final : sDB.State} {ended : Int ⊕ ResyncEnd}
    (heightOf : ∀ block hash, pass.client.getBlockAt i = .ok (block, hash) → block.height = i)
    (reached : Reached sDB before (heights.upTo (i - 1)) state db)
    (ran : scanPass hcd params statistics sDB heights i pass state db = (ended, final, after)) :
    (∃ height, ended = .inl height ∧ Reached sDB before (heights.upTo i) final after) ∨
      ∃ last, ended = .inr last ∧ EndsWell sDB before after final last := by
  have stopped : ∀ how, EndsWell sDB before db state (.returned (i - 1) how) := fun how =>
    reached.resynced (le_max_right _ _) (le_max_right _ _) (le_max_right _ _)
  unfold scanPass at ran
  split at ran
  · cases ran
    exact Or.inr ⟨_, rfl, stopped .quit⟩
  · split at ran
    · cases ran
      exact Or.inr ⟨_, rfl, stopped _⟩
    · rename_i block blockhash fetched
      have isHeight := heightOf block blockhash fetched
      obtain ⟨result, connected, isConnected⟩ : ∃ result connected,
        resyncConnect sDB heights.bestNodeHeight i pass block state = (result, connected) :=
        ⟨_, _, rfl⟩
      simp only [isConnected] at ran
      rcases resyncConnect_ends moves reached.node isConnected with ⟨rfl, atBlock⟩ | rfl |
        ⟨err, rfl, stays⟩
      · dsimp only at ran
        split at ran
        · cases ran
          exact Or.inr ⟨_, rfl, trivial⟩
        · cases ran
          exact Or.inr ⟨_, rfl, trivial⟩
        · rename_i tpi pooled found
          have atNode : (sDB.height pooled : Int) = max heights.bestNodeHeight i := by
            rw [ticketPoolInfo_height moves found, atBlock]
          cases ran
          rcases resyncStore_ends isHeight (le_max_right _ _) (reached.move atNode) rfl with
            ⟨height, isHeight, whole⟩ | ⟨last, isLast, well⟩
          · exact Or.inl ⟨height, isHeight, whole⟩
          · exact Or.inr ⟨last, isLast, well⟩
      · cases ran
        exact Or.inr ⟨_, rfl, trivial⟩
      · cases ran
        exact Or.inr ⟨_, rfl, (reached.move stays).resynced (le_max_right _ _) (le_max_right _ _)
          (le_max_right _ _)⟩

/-- The loop ends well from what has been reached, whether it is done, is told to quit or fails. -/
theorem scanLoop_ends (moves : sDB.MovesByOne) {before db after : DB statistics.Rates} {i height : Int}
    {passes : List ScanPass} {final : sDB.State} {ended : ResyncEnd}
    (heightOf : ∀ pass ∈ passes, ∀ ind block hash,
      pass.client.getBlockAt ind = .ok (block, hash) → block.height = ind)
    (reached : Reached sDB before (heights.upTo (i - 1)) state db)
    (ran : scanLoop hcd params statistics sDB heights passes i height state db =
      some (ended, final, after)) : EndsWell sDB before after final ended := by
  have finished : height < i → EndsWell sDB before db state (.returned height .finished) := by
    intro past
    exact reached.resynced (by omega) (by omega) (by omega)
  induction passes generalizing i height state db with
  | nil =>
    unfold scanLoop at ran
    split at ran
    · rename_i past
      cases ran
      exact finished past
    · cases ran
  | cons pass rest inductionHypothesis =>
    unfold scanLoop at ran
    split at ran
    · rename_i past
      cases ran
      exact finished past
    · have mine := heightOf pass List.mem_cons_self i
      have others := fun next member => heightOf next (List.mem_cons_of_mem _ member)
      dsimp only at ran
      split at ran
      · rename_i last next stored passed
        cases ran
        rcases scanPass_ends moves mine reached passed with ⟨_, impossible, _⟩ | ⟨_, same, well⟩
        · cases impossible
        · cases same
          exact well
      · rename_i newHeight next stored passed
        rcases scanPass_ends moves mine reached passed with ⟨_, _, whole⟩ | ⟨_, impossible, _⟩
        · have same : i = i + 1 - 1 := by omega
          rw [same] at whole
          exact inductionHypothesis others whole ran fun past =>
            whole.resynced (by omega) (by omega) (by omega)
        · cases impossible

/-- The part after the stake node was taken back ends well, from a height that no
store is below. -/
theorem resyncFrom_ends (moves : sDB.MovesByOne) {before db after : DB statistics.Rates}
    {startHeight height : Int} {scans : List ScanPass} {final : sDB.State} {ended : ResyncEnd}
    (heightOf : ∀ pass ∈ scans, ∀ ind block hash,
      pass.client.getBlockAt ind = .ok (block, hash) → block.height = ind)
    (reached : Reached sDB before heights state db) (low : -1 ≤ startHeight)
    (inSummaries : startHeight ≤ heights.bestBlockHeight)
    (inStakeInfos : startHeight ≤ heights.bestStakeHeight)
    (inNode : startHeight ≤ heights.bestNodeHeight)
    (ran : resyncFrom hcd params statistics sDB heights scans startHeight height state db =
      some (ended, final, after)) : EndsWell sDB before after final ended := by
  have stays : (if startHeight < -1 then -1 else startHeight) = startHeight := if_neg (by omega)
  simp only [resyncFrom, stays] at ran
  split at ran
  · cases ran
    exact reached.resynced inSummaries inStakeInfos inNode
  · have same : heights.upTo (startHeight + 1 - 1) = heights := by
      have sum : startHeight + 1 - 1 = startHeight := by omega
      rw [Heights.upTo, sum, max_eq_left inSummaries, max_eq_left inStakeInfos, max_eq_left inNode]
    exact scanLoop_ends moves heightOf (same.symm ▸ reached) ran

/-- Reading the height of the summaries changes no table. -/
theorem DB.getBlockSummaryHeight_frame (fault : Option String) (db : DB Rates) :
    (db.getBlockSummaryHeight fault).2.summaries = db.summaries ∧
      (db.getBlockSummaryHeight fault).2.stakeInfos = db.stakeInfos ∧
      (db.getBlockSummaryHeight fault).2.dbStakeInfoHeight = db.dbStakeInfoHeight := by
  unfold DB.getBlockSummaryHeight
  split
  · split
    · exact ⟨rfl, rfl, rfl⟩
    · exact ⟨rfl, rfl, rfl⟩
  · exact ⟨rfl, rfl, rfl⟩

/-- `GetStakeInfoHeight` changes no row of either table. -/
theorem DB.getStakeInfoHeight_frame (fault : Option String) (db : DB Rates) :
    (db.getStakeInfoHeight fault).2.summaries = db.summaries ∧
      (db.getStakeInfoHeight fault).2.stakeInfos = db.stakeInfos := by
  unfold DB.getStakeInfoHeight
  split
  · split
    · exact ⟨rfl, rfl⟩
    · exact ⟨rfl, rfl⟩
  · exact ⟨rfl, rfl⟩

/-- The two heights are read independently of each other. -/
theorem DB.getStakeInfoHeight_after (summaryFault stakeFault : Option String) (db : DB Rates) :
    ((db.getBlockSummaryHeight summaryFault).2.getStakeInfoHeight stakeFault).1 =
      (db.getStakeInfoHeight stakeFault).1 := by
  have same : ∀ other : DB Rates, other.stakeInfos = db.stakeInfos →
      other.dbStakeInfoHeight = db.dbStakeInfoHeight →
      (other.getStakeInfoHeight stakeFault).1 = (db.getStakeInfoHeight stakeFault).1 := by
    intro other sameTable sameHeight
    have sameRead : other.retrieveLatestStakeInfoHeight stakeFault =
        db.retrieveLatestStakeInfoHeight stakeFault := by
      simp only [DB.retrieveLatestStakeInfoHeight, sameTable]
    simp only [DB.getStakeInfoHeight, sameHeight, sameRead]
    split
    · split <;> rfl
    · rfl
  obtain ⟨-, sameTable, sameHeight⟩ := DB.getBlockSummaryHeight_frame summaryFault db
  exact same _ sameTable sameHeight

/-- No height of summaries is read below minus one. -/
theorem DB.getBlockSummaryHeight_ge (fault : Option String) (db : DB Rates) :
    -1 ≤ (db.getBlockSummaryHeight fault).1 := by
  unfold DB.getBlockSummaryHeight DB.retrieveBestBlockHeight
  split
  · split
    · exact le_rfl
    · rename_i height isHeight
      split at isHeight
      · cases isHeight
      · cases isHeight
      · cases isHeight
        simp only [summaryKey]
        omega
  · simp only
    omega

/-- No height of stake infos is read below minus one. -/
theorem DB.getStakeInfoHeight_ge (fault : Option String) (db : DB Rates) :
    -1 ≤ (db.getStakeInfoHeight fault).1 := by
  unfold DB.getStakeInfoHeight DB.retrieveLatestStakeInfoHeight
  split
  · split
    · exact le_rfl
    · rename_i height isHeight
      split at isHeight
      · cases isHeight
      · cases isHeight
      · cases isHeight
        simp only [stakeInfoKey]
        omega
  · simp only
    omega

/-- The table of summaries is complete up to the height that is read, and has
nothing above it. -/
def DB.SummariesComplete (fault : Option String) (db : DB Rates) : Prop :=
  ∀ wanted, db.summaries.Has wanted ↔ 0 ≤ wanted ∧ wanted ≤ (db.getBlockSummaryHeight fault).1

/-- The table of stake infos has exactly the heights from zero up to the one that is read. -/
def DB.StakeInfosComplete (fault : Option String) (db : DB Rates) : Prop :=
  ∀ wanted, db.stakeInfos.Has wanted ↔ 0 ≤ wanted ∧ wanted ≤ (db.getStakeInfoHeight fault).1

/-- The two heights that a synchronization reads, one after the other, and that reading them
keeps the tables. -/
theorem DB.heights_read (summaryFault stakeFault : Option String) (db : DB Rates) :
    ∃ B S middle start, db.getBlockSummaryHeight summaryFault = (B, middle) ∧
      middle.getStakeInfoHeight stakeFault = (S, start) ∧
      (db.getStakeInfoHeight stakeFault).1 = S ∧ -1 ≤ B ∧ -1 ≤ S ∧
      start.summaries = db.summaries ∧ start.stakeInfos = db.stakeInfos := by
  have readFrame := DB.getBlockSummaryHeight_frame summaryFault db
  have sameStake := DB.getStakeInfoHeight_after summaryFault stakeFault db
  have lowSummary := DB.getBlockSummaryHeight_ge summaryFault db
  have lowStake := DB.getStakeInfoHeight_ge stakeFault db
  obtain ⟨B, middle, readSummary⟩ :
      ∃ B middle, db.getBlockSummaryHeight summaryFault = (B, middle) := ⟨_, _, rfl⟩
  have stakeFrame := DB.getStakeInfoHeight_frame stakeFault middle
  obtain ⟨S, start, readStake⟩ :
      ∃ S start, middle.getStakeInfoHeight stakeFault = (S, start) := ⟨_, _, rfl⟩
  rw [readSummary] at readFrame sameStake lowSummary
  rw [readStake] at sameStake stakeFrame
  rw [← sameStake] at lowStake
  exact ⟨B, S, middle, start, readSummary, readStake, sameStake.symm, lowSummary, lowStake,
    stakeFrame.1.trans readFrame.1, stakeFrame.2.trans readFrame.2.1⟩

/-- How a synchronization that ended went on from the two heights of the tables: it failed at
once, or it went on from the node's height, from the lower height of the tables with the node
where it was, or with the node taken back. -/
theorem resync_cases {env : ResyncEnv} {state final : sDB.State}
    {db middle start after : DB statistics.Rates} {ended : ResyncEnd} {B S : Int}
    (readSummary : db.getBlockSummaryHeight env.summaryHeight = (B, middle))
    (readStake : middle.getStakeInfoHeight env.stakeInfoHeight = (S, start))
    (ran : resyncDBWithPoolValue hcd params statistics sDB env state db =
      some (ended, final, after)) :
    (∃ text, ended = .returned (-1) (.failed text) ∧ final = state ∧ (after = db ∨ after = start)) ∨
      ∃ height, env.getBestBlock = .ok height ∧
        ((sDB.height state < min B S ∧
            resyncFrom hcd params statistics sDB ⟨B, S, sDB.height state⟩ env.scans
              (sDB.height state) height state start = some (ended, final, after)) ∨
          (min B S ≤ sDB.height state ∧ (0 < sDB.height state → min B S = sDB.height state) ∧
            resyncFrom hcd params statistics sDB ⟨B, S, sDB.height state⟩ env.scans (min B S) height
              state start = some (ended, final, after)) ∨
          (min B S < sDB.height state ∧ 0 ≤ min B S ∧
            ((rewindLoop sDB (min B S) env.rewinds (sDB.height state) state =
                some (.inr ended, final) ∧ after = start) ∨
              ∃ reached moved, rewindLoop sDB (min B S) env.rewinds (sDB.height state) state =
                  some (.inl reached, moved) ∧
                ((reached ≠ min B S ∧ ended = .rewindFailed ∧ final = moved ∧ after = start) ∨
                  (reached = min B S ∧
                    resyncFrom hcd params statistics sDB ⟨B, S, reached⟩ env.scans (min B S)
                      height moved start = some (ended, final, after)))))) := by
  have isMin : (if B < S then B else S) = min B S := by
    split <;> omega
  cases isBest : env.getBestBlock with
  | error err =>
    simp only [resyncDBWithPoolValue, isBest] at ran
    cases ran
    exact .inl ⟨_, rfl, rfl, .inl rfl⟩
  | ok height =>
    simp only [resyncDBWithPoolValue, isBest, readSummary, readStake, isMin] at ran
    by_cases closed : (!sDB.opened state) = true
    · rw [if_pos closed] at ran
      cases ran
      exact .inl ⟨_, rfl, rfl, .inr rfl⟩
    rw [if_neg closed] at ran
    by_cases below : (sDB.height state : Int) < min B S
    · rw [if_pos below] at ran
      exact .inr ⟨height, rfl, .inl ⟨below, ran⟩⟩
    rw [if_neg below] at ran
    by_cases above : min B S < sDB.height state ∧ (0 : Int) < sDB.height state
    · rw [if_pos above] at ran
      by_cases far : min B S < 0 ∨ 2 * min B S < sDB.height state
      · rw [if_pos far] at ran
        cases ran
        exact .inl ⟨_, rfl, rfl, .inr rfl⟩
      rw [if_neg far] at ran
      refine .inr ⟨height, rfl, .inr (.inr ⟨above.1, by omega, ?_⟩)⟩
      rcases rewound : rewindLoop sDB (min B S) env.rewinds (sDB.height state) state with
        _ | ⟨reached | last, moved⟩
      · simp only [rewound] at ran
        cases ran
      · simp only [rewound] at ran
        by_cases other : reached ≠ min B S
        · rw [if_pos other] at ran
          cases ran
          exact .inr ⟨reached, _, rfl, .inl ⟨other, rfl, rfl, rfl⟩⟩
        · rw [if_neg other] at ran
          exact .inr ⟨reached, moved, rfl, .inr ⟨not_not.mp other, ran⟩⟩
      · simp only [rewound] at ran
        cases ran
        exact .inl ⟨rfl, rfl⟩
    · rw [if_neg above] at ran
      exact .inr ⟨height, rfl, .inr (.inl ⟨by omega, by omega, ran⟩)⟩

/-- A synchronization of tables that are complete ends well. -/
theorem resync_endsWell (moves : sDB.MovesByOne) {env : ResyncEnv} {state final : sDB.State}
    {db after : DB statistics.Rates} {ended : ResyncEnd}
    (heightOf : ∀ pass ∈ env.scans, ∀ ind block hash,
      pass.client.getBlockAt ind = .ok (block, hash) → block.height = ind)
    (summaries : db.SummariesComplete env.summaryHeight)
    (stakeInfos : db.StakeInfosComplete env.stakeInfoHeight)
    (ran : resyncDBWithPoolValue hcd params statistics sDB env state db =
      some (ended, final, after)) : EndsWell sDB db after final ended := by
  obtain ⟨B, S, middle, start, readSummary, readStake, isStake, lowSummary, lowStake, sameSummaries,
    sameStakeInfos⟩ := DB.heights_read env.summaryHeight env.stakeInfoHeight db
  simp only [DB.SummariesComplete, readSummary] at summaries
  simp only [DB.StakeInfosComplete, isStake] at stakeInfos
  have atNode : ∀ {N : Int} {moved : sDB.State}, (sDB.height moved : Int) = N →
      Reached sDB db ⟨B, S, N⟩ moved start := by
    intro N moved atHeight
    refine ⟨?_, ?_, atHeight, ?_, ?_⟩
    · rw [sameSummaries]
      exact summaries
    · rw [sameStakeInfos]
      exact stakeInfos
    · rw [sameSummaries]
      exact fun row => id
    · rw [sameStakeInfos]
      exact fun row => id
  rcases resync_cases readSummary readStake ran with
    ⟨text, rfl, rfl, rfl | rfl⟩ | ⟨height, -, ⟨below, went⟩ | ⟨above, -, went⟩ | ⟨above, low, back⟩⟩
  · refine ⟨?_, ?_, by omega, fun row => id, fun row => id⟩
    · omega
    · omega
  · exact (atNode rfl).resynced lowSummary lowStake (by omega)
  · exact resyncFrom_ends moves heightOf (atNode rfl) (by dsimp only; omega)
      (by dsimp only; omega) (by dsimp only; omega) le_rfl went
  · exact resyncFrom_ends moves heightOf (atNode rfl) (by omega) (by dsimp only; omega)
      (by dsimp only; omega) (by dsimp only; omega) went
  · rcases back with ⟨rewound, rfl⟩ | ⟨reached, moved, rewound, ended⟩
    · rcases rewindLoop_ends moves rfl (by omega) rewound with
        ⟨impossible, -⟩ | same | ⟨how, same, higher⟩
      · cases impossible
      · cases same
        exact trivial
      · cases same
        exact (atNode rfl).resynced (by omega) (by omega) higher
    · rcases rewindLoop_ends moves rfl (by omega) rewound with
        ⟨same, isStart⟩ | impossible | ⟨_, impossible, _⟩
      · cases same
        rcases ended with ⟨other, -⟩ | ⟨-, went⟩
        · exact absurd rfl other
        · exact resyncFrom_ends moves heightOf (atNode isStart) (by dsimp only; omega)
            (by dsimp only; omega) (by dsimp only; omega) le_rfl went
      · cases impossible
      · cases impossible

/-- Whenever the synchronization returns with a height, whatever the three heights it
started from, the heights the node answered, quits and errors, both tables are
complete up to that height, the stake node is not below it, and no row that was
there was rewritten. Its two panics are not reached. The two tables are complete at
the start through the heights that the synchronization reads from them; a table with
rows whose height could not be read is not complete in this sense, and nothing is said
about a start from it. -/
theorem resync_complete (hcd : Hcd) (params : ChainParams) (statistics : Statistics)
    (moves : sDB.MovesByOne) {env : ResyncEnv} {state final : sDB.State}
    {db after : DB statistics.Rates} {ended : ResyncEnd}
    (heightOf : ∀ pass ∈ env.scans, ∀ ind block hash,
      pass.client.getBlockAt ind = .ok (block, hash) → block.height = ind)
    (summaries : db.SummariesComplete env.summaryHeight)
    (stakeInfos : db.StakeInfosComplete env.stakeInfoHeight)
    (ran : resyncDBWithPoolValue hcd params statistics sDB env state db =
      some (ended, final, after)) :
    (∀ height how, ended = .returned height how → Resynced sDB db after final height) ∧
      ended ≠ .rewindFailed ∧ ∀ height, ended ≠ .wrongBlock height := by
  have well := resync_endsWell moves heightOf summaries stakeInfos ran
  refine ⟨?_, ?_, ?_⟩
  · rintro height how rfl
    exact well
  · rintro rfl
    exact well
  · rintro height rfl
    exact well

/-- A stake database that is its height, which connects only the next block. -/
def heightStore : StakeStore where
  State := Nat
  opened _ := true
  height state := state
  connectBlock _ block state :=
    if block.height ≤ state then .returned (state, some "cannot connect") else .returned (state + 1, none)
  disconnectBlock _ state :=
    match state with
    | 0 => .returned (0, some "no parent")
    | parent + 1 => .returned (parent, none)
  poolInfo _ _ := none
  poolInfoBest _ state := .returned (⟨0, 0, 0⟩, state, state)

/-- The database that is its height moves as the stake database does, by one block at a time. -/
theorem heightStore_movesByOne : heightStore.MovesByOne where
  connect env block state after connected := by
    simp only [heightStore] at connected
    split at connected
    · cases connected
    · cases connected
      rfl
  connectFailed env block state after err failed := by
    simp only [heightStore] at failed
    split at failed
    · cases failed
      rfl
    · cases failed
  disconnect env state after disconnected := by
    cases state with
    | zero => cases disconnected
    | succ parent =>
      cases disconnected
      rfl
  disconnectFailed env state after err failed := by
    cases state with
    | zero =>
      cases failed
      rfl
    | succ parent => cases failed
  poolInfoBest env state tpi height after found := by
    cases found
    rfl

/-- A node with two blocks, of which the second is the best one. -/
def twoBlocks : NodeClient :=
  { Sample.client [Sample.genesis, Sample.firstBlock] [Sample.genesis, Sample.firstBlock] with
    getBlockHash := fun ind =>
      if ind = 0 then .ok (Sample.hcd.hashOf Sample.genesis)
      else if ind = 1 then .ok (Sample.hcd.hashOf Sample.firstBlock)
      else .error "block number out of range" }

/-- Fee rates left out, so that the examples need no arithmetic of them. -/
def noRates : Statistics := ⟨Unit, fun _ => (), fun _ => 1⟩

/-- A synchronization in which both blocks are read, without failures. -/
def firstSync : ResyncEnv :=
  let pass : ScanPass := ⟨false, twoBlocks, Sample.environment [] [], none, none, .ok 1⟩
  ⟨.ok 1, none, none, [], [pass, pass]⟩

/-- The law at the first synchronization of empty tables. -/
theorem resync_complete_firstSync :
    ∃ ended final after, resyncDBWithPoolValue Sample.hcd ⟨16, 144⟩ noRates heightStore firstSync (0 : Nat)
        (DB.newDB none none .empty .empty) = some (ended, final, after) ∧
      ended = .returned 1 .finished ∧ Resynced heightStore (DB.newDB none none .empty .empty)
        after final 1 := by
  have outcome : (resyncDBWithPoolValue Sample.hcd ⟨16, 144⟩ noRates heightStore firstSync (0 : Nat)
      (DB.newDB none none .empty .empty)).map Prod.fst = some (.returned 1 .finished) := by
    decide +kernel
  obtain ⟨⟨ended, final, after⟩, ran, isEnd⟩ := Option.map_eq_some_iff.mp outcome
  have heightOf : ∀ pass ∈ firstSync.scans, ∀ ind block hash,
      pass.client.getBlockAt ind = .ok (block, hash) → block.height = ind := by
    intro pass member ind block hash fetched
    have isClient : pass.client = twoBlocks := by
      simp only [firstSync, List.mem_cons, List.not_mem_nil, or_false, or_self] at member
      rw [member]
    rw [isClient] at fetched
    by_cases first : ind = 0
    · subst first
      cases fetched
      rfl
    · by_cases second : ind = 1
      · subst second
        cases fetched
        rfl
      · simp only [NodeClient.getBlockAt, twoBlocks, if_neg first, if_neg second] at fetched
        cases fetched
  have summaries : (DB.newDB none none .empty .empty : DB Unit).SummariesComplete none := by
    rintro wanted
    constructor
    · rintro ⟨row, impossible, -⟩
      cases impossible
    · rintro ⟨low, high⟩
      exact absurd (low.trans high) (by decide)
  have stakeInfos : (DB.newDB none none .empty .empty : DB Unit).StakeInfosComplete none := by
    rintro wanted
    constructor
    · rintro ⟨row, impossible, -⟩
      cases impossible
    · rintro ⟨low, high⟩
      exact absurd (low.trans high) (by decide)
  have law := resync_complete Sample.hcd ⟨16, 144⟩ noRates heightStore_movesByOne heightOf summaries
    stakeInfos ran
  exact ⟨ended, final, after, ran, isEnd, law.1 1 .finished isEnd⟩

end Complete

end Hcexplorer.Hcsqlite

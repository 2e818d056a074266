import Hcexplorer.Hcpg.Completeness
import Hcexplorer.LiveTables

/-!
# The two databases at the start of a process

`mainCore` synchronizes the PostgreSQL and the SQLite database in rounds, until both end
a round at one height. The flags of a bulk import are set for the first round only. A
round that fails or sees the quit signal ends the process.

When the loop is left, both databases have the node's main chain up to that height: the
SQLite tables mirror it, and each of its blocks has its row in PostgreSQL. The node may
extend or reorganize its chain meanwhile, above the blocks that it has returned.
-/

namespace Hcexplorer.Startup

open Collection Hcsqlite Hcpg LinkedChain Live KeyedTable

/-- `dbtypes.SyncResult`. `sawQuit` is set when the synchronization was ended by the quit
channel, which stays closed. -/
structure SyncResult where
  height : Int
  error : Option String
  sawQuit : Bool
deriving DecidableEq, Repr

/-- What is decided outside of one round. `ping` is the first error of the two pings of
the SQLite side. -/
structure Round where
  ping : Option String
  sqlite : ResyncEnv
  pg : SyncEnv
  quit : Bool

/-- The two databases and the stake database. Without PostgreSQL there is no `ChainDB`. -/
structure Databases (sDB : StakeStore) (Rates : Type) where
  stake : sDB.State
  sqlite : DB Rates
  pg : Option ChainDB

/-- How the start-up synchronization ends: at a height, by a quit signal, with an error, or with
a crash. -/
inductive Started where
  | ready (height : Int)
  | quit
  | failed (err : String)
  | crashed
deriving DecidableEq, Repr

variable {sDB : StakeStore} {statistics : Statistics} {hcd : Hcd} {params : ChainParams}

/-- The result of an ended `resyncDBWithPoolValue`, none for a panic. -/
def syncResult : ResyncEnd → Option SyncResult
  | .returned height .finished => some ⟨height, none, false⟩
  | .returned height .quit => some ⟨height, none, true⟩
  | .returned height (.failed err) => some ⟨height, some err, false⟩
  | .rewindFailed | .wrongBlock _ | .died => none

/-- `hcsqlite.SyncDBAsync`, the synchronization of the SQLite side; none while it is running. -/
def syncDBAsync (hcd : Hcd) (params : ChainParams) (statistics : Statistics) (sDB : StakeStore)
    (round : Round) (stake : sDB.State) (db : DB statistics.Rates) :
    Option (Option SyncResult × sDB.State × DB statistics.Rates) :=
  match round.ping with
  | some err =>
    let (height, db) := db.getBlockSummaryHeight round.sqlite.summaryHeight
    some (some ⟨height, some err, false⟩, stake, db)
  | none =>
    (resyncDBWithPoolValue hcd params statistics sDB round.sqlite stake db).map
      fun (ended, stake, db) => (syncResult ended, stake, db)

/-- `hcpg.SyncChainDBAsync`, also of a nil `ChainDB`; none while it is running. -/
def syncChainDBAsync (hcd : Hcd) (round : Round) (updateAllAddresses newPGIndexes : Bool) :
    Option ChainDB → Option (SyncResult × Option ChainDB)
  | none => some (⟨-1, some "ChainDB (psql) disabled", false⟩, none)
  | some pgb =>
    (pgb.syncFromMain hcd round.pg updateAllAddresses newPGIndexes).map fun
      | (.finished height, pgb) => (⟨height, none, false⟩, some pgb)
      | (.quit height, pgb) => (⟨height, none, true⟩, some pgb)
      | (.failed height err, pgb) => (⟨height, some err, false⟩, some pgb)

/-- What `mainCore` does with the results of a round: it leaves the loop, or goes on. -/
def afterRound (quit usePG : Bool) (sqliteRes pgRes : SyncResult) : Option Started :=
  if quit || sqliteRes.sawQuit || pgRes.sawQuit then some .quit
  else
    match sqliteRes.error, usePG, pgRes.error with
    | some sqliteErr, true, some pgErr => some (.failed (sqliteErr ++ " ,  " ++ pgErr ++ "\n"))
    | some sqliteErr, _, _ => some (.failed sqliteErr)
    | none, true, some pgErr => some (.failed pgErr)
    | none, _, _ =>
      if !usePG || pgRes.height == sqliteRes.height then some (.ready sqliteRes.height) else none

/-- The loop of `mainCore`; none while it is running. -/
def syncRounds (hcd : Hcd) (params : ChainParams) (statistics : Statistics) (sDB : StakeStore) :
    List Round → Bool → Bool → Databases sDB statistics.Rates →
      Option (Started × Databases sDB statistics.Rates)
  | [], _, _, _ => none
  | round :: rest, updateAllAddresses, newPGIndexes, dbs =>
    match syncDBAsync hcd params statistics sDB round dbs.stake dbs.sqlite,
      syncChainDBAsync hcd round updateAllAddresses newPGIndexes dbs.pg with
    | some (none, stake, sqlite), _ => some (.crashed, ⟨stake, sqlite, dbs.pg⟩)
    | some (some sqliteRes, stake, sqlite), some (pgRes, pg) =>
      match afterRound round.quit dbs.pg.isSome sqliteRes pgRes with
      | some ended => some (ended, ⟨stake, sqlite, pg⟩)
      | none => syncRounds hcd params statistics sDB rest false false ⟨stake, sqlite, pg⟩
    | _, _ => none

/-- The part of `mainCore` that synchronizes the databases, from the best height of the
node and that of the PostgreSQL database, whose query may fail. -/
def startupSync (hcd : Hcd) (params : ChainParams) (statistics : Statistics) (sDB : StakeStore)
    (getBestBlock : Except String Int) (heightDB : Option String) (rounds : List Round)
    (dbs : Databases sDB statistics.Rates) : Option (Started × Databases sDB statistics.Rates) :=
  match getBestBlock, dbs.pg, heightDB with
  | .error err, _, _ => some (.failed ("Unable to get block from node: " ++ err), dbs)
  | .ok _, none, _ => syncRounds hcd params statistics sDB rounds false false dbs
  | .ok _, some _, some err =>
    some (.failed ("Unable to get height from PostgreSQL DB: " ++ err), dbs)
  | .ok height, some pgb, none =>
    match chooseFlags height pgb.db.heightDB with
    | none =>
      let heightDB := pgb.db.heightDB.getD 0
      some (.failed s!"Node is still syncing. Node height = {height}, DB height = {heightDB}", dbs)
    | some (updateAllAddresses, newPGIndexes) =>
      syncRounds hcd params statistics sDB rounds updateAllAddresses newPGIndexes dbs

/-- The heights that the node answered, without its errors. -/
def heights (answers : List (Except String Int)) : List Int := answers.filterMap Except.toOption

/-- The best heights that the SQLite side of a round asks for. -/
def Round.sqliteTips (round : Round) : List Int :=
  heights (round.sqlite.getBestBlock :: round.sqlite.scans.map ScanPass.getBestBlock)

/-- The best heights that the PostgreSQL side of a round asks for. -/
def Round.pgTips (round : Round) : List Int :=
  heights (round.pg.getBestBlock :: round.pg.steps.map SyncStep.getBestBlock)

/-- The blocks that the node returns in a round are on its main chain, at their heights. -/
structure Round.OnMain (hcd : Hcd) (main : List MsgBlock) (round : Round) : Prop where
  sqlite : ∀ pass ∈ round.sqlite.scans, ∀ ind block hash,
    pass.client.getBlockAt ind = .ok (block, hash) →
      0 ≤ ind ∧ main[ind.toNat]? = some block ∧ hash = hcd.hashOf block
  pg : ∀ step ∈ round.pg.steps, ∀ height : Nat, ∀ block,
    step.getBlock height = .ok block → main[height]? = some block

/-- The tables have the rows of the first blocks of the main chain and no others, and the
heights in memory are those of the last ones. -/
structure UpTo (hcd : Hcd) (main : List MsgBlock) (summaries infos : Nat)
    (db : DB statistics.Rates) : Prop where
  summaryRows : List.Forall₂ (fun block (row : BlockDataBasic) =>
    row.height = block.header.height ∧ row.hash = hcd.hashOf block)
    (main.take summaries) db.summaries.rows
  infoRows : List.Forall₂ (fun block (row : StakeInfoExtended statistics.Rates) =>
    row.feeinfo = feeRateInfoBlock hcd statistics block) (main.take infos) db.stakeInfos.rows
  summaryHeight : db.dbSummaryHeight = summaries - 1
  infoHeight : db.dbStakeInfoHeight = infos - 1
  summariesInside : summaries ≤ main.length
  infosInside : infos ≤ main.length

section Summaries

variable {main : List MsgBlock} {summaries infos : Nat} {db : DB statistics.Rates}

/-- Rows that belong to the first blocks of a rooted chain have their positions as keys. -/
theorem consecutive_of_taken {Row : Type} {key : Row → Int} {isRow : MsgBlock → Row → Prop}
    (ofBlock : ∀ block row, isRow block row → key row = block.height)
    (rooted : (chainView hcd).Rooted main) {count : Nat} {rows : List Row}
    (related : List.Forall₂ isRow (main.take count) rows) : Consecutive key 0 rows := by
  intro position row found
  obtain ⟨inside, here⟩ := List.getElem?_eq_some_iff.mp found
  have inTaken : position < (main.take count).length := related.length_eq ▸ inside
  have isPair := related.get inTaken inside
  rw [List.get_eq_getElem, List.get_eq_getElem, here, List.getElem_take] at isPair
  have inMain : position < main.length := by
    rw [List.length_take] at inTaken
    omega
  have atPosition : (main[position]).height = position :=
    rooted.height_eq (List.getElem?_eq_getElem inMain)
  rw [ofBlock _ _ isPair, atPosition]
  exact (Int.zero_add _).symm

/-- A row of the next block is appended to a table. -/
theorem taken_insert {Row : Type} {key : Row → Int} {isRow : MsgBlock → Row → Prop}
    (ofBlock : ∀ block row, isRow block row → key row = block.height)
    (rooted : (chainView hcd).Rooted main) {count : Nat} {table : KeyedTable key}
    (related : List.Forall₂ isRow (main.take count) table.rows) {block : MsgBlock}
    (isNext : main[count]? = some block) {row : Row} (ofNext : isRow block row) :
    List.Forall₂ isRow (main.take (count + 1)) (table.insertOrReplace row).rows := by
  have inside : count < main.length := (List.getElem?_eq_some_iff.mp isNext).1
  have length : table.rows.length = count := by
    rw [← related.length_eq, List.length_take, Nat.min_eq_left inside.le]
  have atNext : block.height = count := rooted.height_eq isNext
  have inserted := rows_insert_consecutive
    (consecutive_of_taken ofBlock rooted related) ((ofBlock _ _ ofNext).trans atNext)
  rw [List.take_of_length_le length.le, List.drop_of_length_le (by omega)] at inserted
  rw [inserted, List.take_add_one, isNext]
  exact List.rel_append related (.cons ofNext .nil)

/-- The summary of the next block is stored, and the summaries reach one block further. -/
theorem UpTo.storeBlockSummary (upTo : UpTo hcd main summaries infos db)
    (rooted : (chainView hcd).Rooted main) {block : MsgBlock}
    (isNext : main[summaries]? = some block) {row : BlockDataBasic}
    (isRow : row.height = block.header.height ∧ row.hash = hcd.hashOf block) :
    UpTo hcd main (summaries + 1) infos (db.storeBlockSummary none row).2 := by
  have atNext : block.height = summaries := rooted.height_eq isNext
  have isKey : summaryKey row = summaries := by
    rw [summaryKey, isRow.1]
    exact atNext
  refine ⟨taken_insert ?_ rooted upTo.summaryRows isNext isRow, upTo.infoRows, ?_, upTo.infoHeight,
    (List.getElem?_eq_some_iff.mp isNext).1, upTo.infosInside⟩
  · intro other otherRow isOther
    rw [summaryKey, isOther.1]
    rfl
  · simp only [DB.storeBlockSummary, upTo.summaryHeight, isKey]
    split <;> omega

/-- The stake info of the next block is stored, and the stake infos reach one block further. -/
theorem UpTo.storeStakeInfoExtended (upTo : UpTo hcd main summaries infos db)
    (rooted : (chainView hcd).Rooted main) {block : MsgBlock} (isNext : main[infos]? = some block)
    {row : StakeInfoExtended statistics.Rates}
    (isRow : row.feeinfo = feeRateInfoBlock hcd statistics block) :
    UpTo hcd main summaries (infos + 1) (db.storeStakeInfoExtended none row).2 := by
  have atNext : block.height = infos := rooted.height_eq isNext
  have isKey : stakeInfoKey statistics.Rates row = infos := by
    rw [stakeInfoKey, isRow]
    exact atNext
  refine ⟨upTo.summaryRows, taken_insert ?_ rooted upTo.infoRows isNext isRow, upTo.summaryHeight, ?_,
    upTo.summariesInside, (List.getElem?_eq_some_iff.mp isNext).1⟩
  · intro other otherRow isOther
    rw [stakeInfoKey, isOther]
    rfl
  · simp only [DB.storeStakeInfoExtended, upTo.infoHeight, isKey]
    split <;> omega

/-- The rows of a block do not end a synchronization as finished. -/
theorem resyncStore_not_finished {bounds : Heights} {i last : Int} {pass : ScanPass}
    {block : MsgBlock} {blockhash : Hash} {tpi : TicketPoolInfo} :
    (resyncStore hcd params statistics bounds i pass block blockhash tpi db).1 ≠
      .inr (.returned last .finished) := by
  simp only [resyncStore]
  split
  · simp
  · split
    · split <;> simp
    · split
      · simp
      · split
        · simp
        · split <;> simp

/-- A pass of the scan does not end the synchronization as finished. -/
theorem scanPass_not_finished {bounds : Heights} {i last : Int} {pass : ScanPass} {state : sDB.State} :
    (scanPass hcd params statistics sDB bounds i pass state db).1 ≠ .inr (.returned last .finished) := by
  unfold scanPass
  split
  · simp
  · split
    · simp
    · split
      · rename_i ended moved connected
        intro same
        unfold resyncConnect at connected
        split at connected
        · split at connected
          · obtain rfl := Option.some.inj (congrArg Prod.fst connected)
            cases same
          · split at connected
            · cases congrArg Prod.fst connected
            · obtain rfl := Option.some.inj (congrArg Prod.fst connected)
              cases same
            · obtain rfl := Option.some.inj (congrArg Prod.fst connected)
              cases same
            · obtain rfl := Option.some.inj (congrArg Prod.fst connected)
              cases same
        · cases congrArg Prod.fst connected
      · split
        · simp
        · simp
        · exact resyncStore_not_finished

/-- The first half of a pass: without an error the summaries are stored up to the next height, by
an insert or because the summary of this one is there already. -/
theorem upTo_summary {middle : DB statistics.Rates} {i : Nat} {bounds : Heights}
    (rooted : (chainView hcd).Rooted main) (isSummary : bounds.bestBlockHeight = summaries - 1)
    (upTo : UpTo hcd main (max summaries i) (max infos i) db) {fault : Option String}
    {block : MsgBlock} (isBlock : main[i]? = some block) {tpi : TicketPoolInfo}
    (stored : (if bounds.bestBlockHeight < i then
        db.storeBlockSummary fault (resyncSummary hcd statistics (hcd.hashOf block) tpi block)
      else (none, db)) = (none, middle)) :
    UpTo hcd main (max summaries (i + 1)) (max infos i) middle := by
  split at stored
  · rename_i needed
    have here : max summaries i = i := by omega
    have next : max summaries (i + 1) = i + 1 := by omega
    rw [here] at upTo
    rw [next]
    cases fault with
    | some err => cases congrArg Prod.fst stored
    | none =>
      obtain rfl : (db.storeBlockSummary none _).2 = middle := congrArg Prod.snd stored
      exact upTo.storeBlockSummary rooted isBlock ⟨rfl, rfl⟩
  · have same : max summaries (i + 1) = max summaries i := by omega
    obtain rfl : db = middle := congrArg Prod.snd stored
    exact same ▸ upTo

/-- The stake info of a pass has the fees of its block, if it is made. -/
theorem feeinfo_resyncStakeInfo {i : Int} {tpi : TicketPoolInfo}
    {block : MsgBlock} {si : StakeInfoExtended statistics.Rates}
    (made : resyncStakeInfo hcd params statistics i tpi block = some si) :
    si.feeinfo = feeRateInfoBlock hcd statistics block := by
  simp only [resyncStakeInfo] at made
  split at made
  · cases made
  · cases made
    rfl

/-- The tables of a pass that goes on have the rows of its block. -/
theorem resyncStore_next {after : DB statistics.Rates} {i : Nat} {bounds : Heights}
    (rooted : (chainView hcd).Rooted main) (isSummary : bounds.bestBlockHeight = summaries - 1)
    (isInfo : bounds.bestStakeHeight = infos - 1)
    (upTo : UpTo hcd main (max summaries i) (max infos i) db) {pass : ScanPass} {block : MsgBlock}
    (isBlock : main[i]? = some block) {tpi : TicketPoolInfo} {tip : Int}
    (ran : resyncStore hcd params statistics bounds i pass block (hcd.hashOf block) tpi db =
      (.inl tip, after)) :
    pass.getBestBlock = .ok tip ∧
      UpTo hcd main (max summaries (i + 1)) (max infos (i + 1)) after := by
  obtain ⟨stored, middle, first⟩ : ∃ stored middle, (if bounds.bestBlockHeight < i then
      db.storeBlockSummary pass.storeBlockSummary
        (resyncSummary hcd statistics (hcd.hashOf block) tpi block)
    else (none, db)) = (stored, middle) := ⟨_, _, rfl⟩
  simp only [resyncStore, first] at ran
  cases stored with
  | some err => cases congrArg Prod.fst ran
  | none =>
    have halfDone := upTo_summary rooted isSummary upTo isBlock first
    dsimp only at ran
    split at ran
    · have same : max infos (i + 1) = max infos i := by omega
      split at ran
      · cases congrArg Prod.fst ran
      · rename_i height asked
        obtain ⟨isTip, rfl⟩ := Prod.mk.inj ran
        obtain rfl : height = tip := Sum.inl.inj isTip
        exact ⟨asked, same ▸ halfDone⟩
    · have here : max infos i = i := by omega
      have next : max infos (i + 1) = i + 1 := by omega
      rw [here] at halfDone
      rw [next]
      split at ran
      · cases congrArg Prod.fst ran
      · rename_i si isStakeInfo
        cases fault : pass.storeStakeInfoExtended with
        | some err =>
          simp only [fault, DB.storeStakeInfoExtended] at ran
          cases congrArg Prod.fst ran
        | none =>
          have whole := halfDone.storeStakeInfoExtended rooted isBlock
            (feeinfo_resyncStakeInfo isStakeInfo)
          simp only [fault] at ran
          split at ran
          · rename_i failed
            cases congrArg Prod.fst failed
          · rename_i after isStored
            rw [show (middle.storeStakeInfoExtended none si).2 = after from
              congrArg Prod.snd isStored] at whole
            split at ran
            · cases congrArg Prod.fst ran
            · rename_i height asked
              obtain ⟨isTip, rfl⟩ := Prod.mk.inj ran
              obtain rfl : height = tip := Sum.inl.inj isTip
              exact ⟨asked, whole⟩

/-- A pass that goes on has stored its block. -/
theorem scanPass_next {after : DB statistics.Rates} {i : Nat} {bounds : Heights}
    (rooted : (chainView hcd).Rooted main) (isSummary : bounds.bestBlockHeight = summaries - 1)
    (isInfo : bounds.bestStakeHeight = infos - 1)
    (upTo : UpTo hcd main (max summaries i) (max infos i) db) {pass : ScanPass}
    (onMain : ∀ block hash, pass.client.getBlockAt i = .ok (block, hash) →
      main[i]? = some block ∧ hash = hcd.hashOf block)
    {state final : sDB.State} {tip : Int}
    (ran : scanPass hcd params statistics sDB bounds i pass state db = (.inl tip, final, after)) :
    pass.getBestBlock = .ok tip ∧ i < main.length ∧
      UpTo hcd main (max summaries (i + 1)) (max infos (i + 1)) after := by
  unfold scanPass at ran
  split at ran
  · cases congrArg Prod.fst ran
  · split at ran
    · cases congrArg Prod.fst ran
    · rename_i block blockhash fetched
      obtain ⟨isBlock, rfl⟩ := onMain block blockhash fetched
      split at ran
      · cases congrArg Prod.fst ran
      · split at ran
        · cases congrArg Prod.fst ran
        · cases congrArg Prod.fst ran
        · rename_i tpi pooled found
          obtain ⟨isEnd, same⟩ := Prod.mk.inj ran
          have stored := resyncStore_next rooted isSummary isInfo upTo isBlock
            (Prod.ext isEnd (Prod.mk.inj same).2)
          exact ⟨stored.1, (List.getElem?_eq_some_iff.mp isBlock).1, stored.2⟩

/-- Tables that are behind a position have got the blocks before it. -/
theorem UpTo.reached {i : Nat} (upTo : UpTo hcd main (max summaries i) (max infos i) db)
    (behindSummaries : summaries ≤ i) (behindInfos : infos ≤ i) : UpTo hcd main i i db := by
  rwa [max_eq_right behindSummaries, max_eq_right behindInfos] at upTo

/-- What an ended loop returned are its height and its tables. -/
theorem scan_ended {height last : Int} {state final : sDB.State} {after : DB statistics.Rates}
    (ended : some (ResyncEnd.returned height .finished, state, db) =
      some (ResyncEnd.returned last .finished, final, after)) : height = last ∧ db = after := by
  obtain ⟨same, rest⟩ := Prod.mk.inj (Option.some.inj ended)
  injection same with isLast
  exact ⟨isLast, (Prod.mk.inj rest).2⟩

/-- A scan that finished at a height has stored the main chain up to it, when the node's
best height never went down. -/
theorem scanLoop_finished {after : DB statistics.Rates} {i : Nat} {bounds : Heights}
    (rooted : (chainView hcd).Rooted main) (isSummary : bounds.bestBlockHeight = summaries - 1)
    (isInfo : bounds.bestStakeHeight = infos - 1)
    (upTo : UpTo hcd main (max summaries i) (max infos i) db) {passes : List ScanPass}
    (onMain : ∀ pass ∈ passes, ∀ ind block hash, pass.client.getBlockAt ind = .ok (block, hash) →
      0 ≤ ind ∧ main[ind.toNat]? = some block ∧ hash = hcd.hashOf block)
    {height : Int} (sorted : (height :: heights (passes.map ScanPass.getBestBlock)).Pairwise (· ≤ ·))
    (low : summaries ≤ height + 1 ∧ infos ≤ height + 1 ∧ i ≤ height + 1)
    {state final : sDB.State} {last : Int}
    (ran : scanLoop hcd params statistics sDB bounds passes i height state db =
      some (.returned last .finished, final, after)) :
    last ∈ height :: heights (passes.map ScanPass.getBestBlock) ∧
      ∃ count : Nat, last + 1 = count ∧ UpTo hcd main count count after := by
  induction passes generalizing i height state db with
  | nil =>
    unfold scanLoop at ran
    split at ran
    · rename_i past
      obtain ⟨rfl, rfl⟩ := scan_ended ran
      exact ⟨List.mem_cons_self, i, by omega, upTo.reached (by omega) (by omega)⟩
    · cases ran
  | cons pass rest inductionHypothesis =>
    unfold scanLoop at ran
    split at ran
    · rename_i past
      obtain ⟨rfl, rfl⟩ := scan_ended ran
      exact ⟨List.mem_cons_self, i, by omega, upTo.reached (by omega) (by omega)⟩
    · dsimp only at ran
      split at ran
      · rename_i ended moved stored passed
        obtain ⟨rfl, -⟩ := Prod.mk.inj (Option.some.inj ran)
        exact absurd (congrArg Prod.fst passed) scanPass_not_finished
      · rename_i tip moved stored passed
        have mine : ∀ block hash, pass.client.getBlockAt i = .ok (block, hash) →
            main[i]? = some block ∧ hash = hcd.hashOf block := fun block hash fetched =>
          (onMain pass List.mem_cons_self i block hash fetched).2
        obtain ⟨asked, inside, next⟩ := scanPass_next rooted isSummary isInfo upTo mine passed
        have isTips : heights ((pass :: rest).map ScanPass.getBestBlock) =
            tip :: heights (rest.map ScanPass.getBestBlock) := by
          simp [heights, asked, Except.toOption]
        rw [isTips] at sorted ⊢
        have higher : height ≤ tip := (List.pairwise_cons.mp sorted).1 tip List.mem_cons_self
        obtain ⟨isTip, stored⟩ := inductionHypothesis next
          (fun other member => onMain other (List.mem_cons_of_mem _ member))
          (List.pairwise_cons.mp sorted).2 (by omega) (by exact_mod_cast ran)
        exact ⟨List.mem_cons_of_mem _ isTip, stored⟩

/-- The part after the stake node was taken back, from a height that neither table is below. -/
theorem resyncFrom_finished {after : DB statistics.Rates} {bounds : Heights}
    (rooted : (chainView hcd).Rooted main) (isSummary : bounds.bestBlockHeight = summaries - 1)
    (isInfo : bounds.bestStakeHeight = infos - 1) (upTo : UpTo hcd main summaries infos db)
    {passes : List ScanPass}
    (onMain : ∀ pass ∈ passes, ∀ ind block hash, pass.client.getBlockAt ind = .ok (block, hash) →
      0 ≤ ind ∧ main[ind.toNat]? = some block ∧ hash = hcd.hashOf block)
    {height : Int} (sorted : (height :: heights (passes.map ScanPass.getBestBlock)).Pairwise (· ≤ ·))
    (low : summaries ≤ height + 1 ∧ infos ≤ height + 1) {startHeight : Int}
    (above : -1 ≤ startHeight) (inSummaries : startHeight < summaries) (inInfos : startHeight < infos)
    {state final : sDB.State} {last : Int}
    (ran : resyncFrom hcd params statistics sDB bounds passes startHeight height state db =
      some (.returned last .finished, final, after)) :
    last ∈ height :: heights (passes.map ScanPass.getBestBlock) ∧
      ∃ count : Nat, last + 1 = count ∧ UpTo hcd main count count after := by
  obtain ⟨i, isStart⟩ : ∃ i : Nat, startHeight + 1 = i := ⟨(startHeight + 1).toNat, by omega⟩
  have atSummary : max summaries i = summaries := by omega
  have atInfo : max infos i = infos := by omega
  have here : UpTo hcd main (max summaries i) (max infos i) db := by
    rwa [atSummary, atInfo]
  simp only [resyncFrom, if_neg (not_lt.mpr above), isStart] at ran
  split at ran
  · obtain ⟨rfl, rfl⟩ := scan_ended ran
    have isTip : startHeight = height := by omega
    exact ⟨isTip ▸ List.mem_cons_self, i, isStart, here.reached (by omega) (by omega)⟩
  · exact scanLoop_finished rooted isSummary isInfo here onMain sorted (by omega) ran

/-- The heights that a synchronization reads, whether or not the reads fail. -/
theorem UpTo.reads (upTo : UpTo hcd main summaries infos db) (fault : Option String) :
    db.getBlockSummaryHeight fault = ((summaries - 1 : Int), db) ∧
      db.getStakeInfoHeight fault = ((infos - 1 : Int), db) := by
  constructor
  · unfold DB.getBlockSummaryHeight DB.retrieveBestBlockHeight
    rw [upTo.summaryHeight]
    split
    · rename_i negative
      obtain rfl : summaries = 0 := by omega
      have noRows : db.summaries.rows = [] := List.forall₂_nil_left_iff.mp upTo.summaryRows
      have noLast : db.summaries.last? = none := by rw [KeyedTable.last?, noRows]; rfl
      rw [noLast]
      cases fault <;> rfl
    · rfl
  · unfold DB.getStakeInfoHeight DB.retrieveLatestStakeInfoHeight
    rw [upTo.infoHeight]
    split
    · rename_i negative
      obtain rfl : infos = 0 := by omega
      have noRows : db.stakeInfos.rows = [] := List.forall₂_nil_left_iff.mp upTo.infoRows
      have noLast : db.stakeInfos.last? = none := by rw [KeyedTable.last?, noRows]; rfl
      rw [noLast]
      cases fault <;> rfl
    · rfl

/-- Taking the stake node back does not end a synchronization as finished. -/
theorem rewindLoop_not_finished {startHeight bestNodeHeight last : Int} {passes : List RewindPass}
    {state final : sDB.State} : rewindLoop sDB startHeight passes bestNodeHeight state ≠
      some (.inr (.returned last .finished), final) := by
  induction passes generalizing bestNodeHeight state with
  | nil =>
    unfold rewindLoop
    split <;> simp
  | cons pass rest inductionHypothesis =>
    unfold rewindLoop
    split
    · simp
    · dsimp only
      split
      · simp
      · split
        · exact inductionHypothesis
        · simp
        · simp
        · simp

/-- A SQLite synchronization that finished at a height has stored the main chain up to it, in
both tables, and the height is one that the node answered. -/
theorem resync_finished {after : DB statistics.Rates} (rooted : (chainView hcd).Rooted main)
    (upTo : UpTo hcd main summaries infos db) {env : ResyncEnv}
    (onMain : ∀ pass ∈ env.scans, ∀ ind block hash, pass.client.getBlockAt ind = .ok (block, hash) →
      0 ≤ ind ∧ main[ind.toNat]? = some block ∧ hash = hcd.hashOf block)
    (sorted : (((max summaries infos : Nat) - 1 : Int) ::
      heights (env.getBestBlock :: env.scans.map ScanPass.getBestBlock)).Pairwise (· ≤ ·))
    {state final : sDB.State} {last : Int}
    (ran : resyncDBWithPoolValue hcd params statistics sDB env state db =
      some (.returned last .finished, final, after)) :
    last ∈ heights (env.getBestBlock :: env.scans.map ScanPass.getBestBlock) ∧
      ∃ count : Nat, last + 1 = count ∧ UpTo hcd main count count after := by
  have readSummary := (upTo.reads env.summaryHeight).1
  have readInfo := (upTo.reads env.stakeInfoHeight).2
  rcases resync_cases readSummary readInfo ran with ⟨text, impossible, -⟩ | ⟨height, best, went⟩
  · cases impossible
  · have isTips : heights (env.getBestBlock :: env.scans.map ScanPass.getBestBlock) =
        height :: heights (env.scans.map ScanPass.getBestBlock) := by
      simp [heights, best, Except.toOption]
    rw [isTips] at sorted ⊢
    have low : ((max summaries infos : Nat) - 1 : Int) ≤ height :=
      (List.pairwise_cons.mp sorted).1 height List.mem_cons_self
    have later := (List.pairwise_cons.mp sorted).2
    rcases went with ⟨below, went⟩ | ⟨above, -, went⟩ | ⟨above, notNegative, back⟩
    · exact resyncFrom_finished rooted rfl rfl upTo onMain later (by omega) (by omega) (by omega)
        (by omega) went
    · exact resyncFrom_finished rooted rfl rfl upTo onMain later (by omega) (by omega) (by omega)
        (by omega) went
    · rcases back with ⟨rewound, -⟩ | ⟨reached, moved, rewound, ⟨-, impossible, -⟩ | ⟨rfl, went⟩⟩
      · exact absurd rewound rewindLoop_not_finished
      · cases impossible
      · exact resyncFrom_finished rooted rfl rfl upTo onMain later (by omega) (by omega) (by omega)
          (by omega) went

/-- Tables that are at one height mirror the chain up to it. -/
theorem UpTo.mirrors {count : Nat} (upTo : UpTo hcd main count count db) :
    Mirrors hcd db (main.take count) := by
  have length : (main.take count).length = count := by
    rw [List.length_take, Nat.min_eq_left upTo.summariesInside]
  have sameLength : db.summaries.rows.length = db.stakeInfos.rows.length :=
    upTo.summaryRows.length_eq.symm.trans upTo.infoRows.length_eq
  refine ⟨⟨db.summaries.rows.zip db.stakeInfos.rows, ⟨?_, ?_⟩, ?_⟩, ?_, ?_⟩
  · exact (List.map_fst_zip sameLength.le).symm
  · exact (List.map_snd_zip sameLength.ge).symm
  · refine List.forall₂_iff_get.mpr ⟨?_, ?_⟩
    · rw [List.length_zip, ← sameLength, Nat.min_self]
      exact upTo.summaryRows.length_eq
    · intro position inChain inRows
      rw [List.length_zip] at inRows
      have summary := upTo.summaryRows.get inChain (by omega)
      have info := upTo.infoRows.get inChain (by omega)
      simp only [List.get_eq_getElem] at summary info ⊢
      rw [List.getElem_zip]
      exact ⟨summary.1, summary.2, info⟩
  · rw [upTo.summaryHeight, length]
  · rw [upTo.infoHeight, length]

end Summaries

section Blocks

variable {main : List MsgBlock} {pgb after : ChainDB} {count : Nat}

/-- A rooted chain as the node's main chain: the position of a block is its height. -/
def nodeChain (rooted : (chainView hcd).Rooted main) : NodeChain where
  blocks := main
  height_eq i block found := by
    have isHeight : block.height = i := rooted.height_eq found
    exact Int.ofNat.inj isHeight

/-- A PostgreSQL scan that finished at a height has stored the main chain up to it. -/
theorem syncLoop_finished (rooted : (chainView hcd).Rooted main) {steps : List SyncStep}
    (onMain : ∀ step ∈ steps, ∀ height : Nat, ∀ block,
      step.getBlock height = .ok block → main[height]? = some block)
    {nodeHeight : Int}
    (sorted : (nodeHeight :: heights (steps.map SyncStep.getBestBlock)).Pairwise (· ≤ ·))
    (inside : count ≤ main.length) (low : count ≤ nodeHeight + 1)
    (keeps : Keeps hcd (main.take count) pgb.db) {updateAllAddresses : Bool} {last : Int}
    (ran : syncLoop hcd updateAllAddresses steps count nodeHeight pgb =
      some (.finished last, after)) :
    last ∈ nodeHeight :: heights (steps.map SyncStep.getBestBlock) ∧
      ∃ stored : Nat, last + 1 = stored ∧ stored ≤ main.length ∧
        Keeps hcd (main.take stored) after.db := by
  induction steps generalizing count nodeHeight pgb with
  | nil =>
    rw [syncLoop] at ran
    split at ran
    · obtain ⟨same, rfl⟩ := Prod.mk.inj (Option.some.inj ran)
      injection same with isLast
      subst isLast
      exact ⟨List.mem_cons_self, count, by omega, inside, keeps⟩
    · cases ran
  | cons step rest inductionHypothesis =>
    rw [syncLoop] at ran
    split at ran
    · obtain ⟨same, rfl⟩ := Prod.mk.inj (Option.some.inj ran)
      injection same with isLast
      subst isLast
      exact ⟨List.mem_cons_self, count, by omega, inside, keeps⟩
    · split at ran
      · cases congrArg Prod.fst (Option.some.inj ran)
      · split at ran
        · cases congrArg Prod.fst (Option.some.inj ran)
        · rename_i block fetched
          have isNext : main[count]? = some block := onMain step List.mem_cons_self count block fetched
          have grows : count + 1 ≤ main.length := (List.getElem?_eq_some_iff.mp isNext).1
          have length : (main.take count).length = count := by
            rw [List.length_take, Nat.min_eq_left inside]
          have stores := keeps.storeNext (nodeChain rooted) (length.symm ▸ isNext) step.store
            (!updateAllAddresses)
          split at ran
          · cases congrArg Prod.fst (Option.some.inj ran)
          · rename_i counts middle stored
            rw [stored] at stores
            obtain ⟨-, grown⟩ := stores.resolve_left (by rintro ⟨⟨err, impossible⟩, -⟩; cases impossible)
            split at ran
            · cases congrArg Prod.fst (Option.some.inj ran)
            · rename_i tip asked
              have isTips : heights ((step :: rest).map SyncStep.getBestBlock) =
                  tip :: heights (rest.map SyncStep.getBestBlock) := by
                simp [heights, asked, Except.toOption]
              rw [isTips] at sorted ⊢
              have higher : nodeHeight ≤ tip := (List.pairwise_cons.mp sorted).1 tip List.mem_cons_self
              have taken : main.take count ++ [block] = main.take (count + 1) := by
                rw [List.take_add_one, isNext]
                rfl
              obtain ⟨isTip, whole⟩ := inductionHypothesis
                (fun other member => onMain other (List.mem_cons_of_mem _ member))
                (List.pairwise_cons.mp sorted).2 grows (by omega) (taken ▸ grown)
                (by exact_mod_cast ran)
              exact ⟨List.mem_cons_of_mem _ isTip, whole⟩

/-- A synchronization that finished has stored the main chain up to its height, which is one that
the node answered. -/
theorem syncChainDB_finished (rooted : (chainView hcd).Rooted main) {env : SyncEnv}
    (onMain : ∀ step ∈ env.steps, ∀ height : Nat, ∀ block,
      step.getBlock height = .ok block → main[height]? = some block)
    (sorted : ((count - 1 : Int) ::
      heights (env.getBestBlock :: env.steps.map SyncStep.getBestBlock)).Pairwise (· ≤ ·))
    (inside : count ≤ main.length) (keeps : Keeps hcd (main.take count) pgb.db)
    {updateAllAddresses newIndexes : Bool} {last : Int}
    (ran : pgb.syncChainDB hcd env updateAllAddresses newIndexes = some (.finished last, after)) :
    last ∈ heights (env.getBestBlock :: env.steps.map SyncStep.getBestBlock) ∧
      ∃ stored : Nat, last + 1 = stored ∧ stored ≤ main.length ∧
        Keeps hcd (main.take stored) after.db := by
  rcases ChainDB.syncChainDB_cases ran with ⟨⟨height, err, impossible⟩, -⟩ |
    ⟨nodeHeight, loopEnd, middle, best, looped, exits⟩
  · cases impossible
  · have isTips : heights (env.getBestBlock :: env.steps.map SyncStep.getBestBlock) =
        nodeHeight :: heights (env.steps.map SyncStep.getBestBlock) := by
      simp [heights, best, Except.toOption]
    rw [isTips] at sorted ⊢
    have low : (count - 1 : Int) ≤ nodeHeight :=
      (List.pairwise_cons.mp sorted).1 nodeHeight List.mem_cons_self
    have isCount : pgb.db.count = count := by
      rw [keeps.count, List.length_take, Nat.min_eq_left inside]
    rw [ChainTables.lastHeight_succ, isCount] at looped
    rcases exits with ⟨height, rfl, finish⟩ | ⟨height, -, impossible, -⟩ |
      ⟨height, err, -, impossible, -⟩
    · have started : Keeps hcd (main.take count) (pgb.enableDuplicateCheckOnInsert
          !ChainDB.reindexing newIndexes nodeHeight pgb.db.lastHeight).db := keeps
      obtain ⟨isTip, stored, isStored, within, kept⟩ := syncLoop_finished rooted onMain
        (List.pairwise_cons.mp sorted).2 inside (by omega) started looped
      obtain ⟨keptAfter, sameHeight⟩ := kept.finishSync finish
      obtain rfl := sameHeight last rfl
      exact ⟨isTip, stored, isStored, within, keptAfter⟩
    · cases impossible
    · cases impossible

end Blocks

section Rounds

variable {main : List MsgBlock} {summaries infos blocks : Nat}
  {dbs after : Databases sDB statistics.Rates}

/-- What the databases have of the main chain: as many summaries, stake infos and blocks of its
front. -/
structure Has (hcd : Hcd) (main : List MsgBlock) (summaries infos blocks : Nat)
    (dbs : Databases sDB statistics.Rates) : Prop where
  sqlite : UpTo hcd main summaries infos dbs.sqlite
  pg : ∀ pgb, dbs.pg = some pgb → Keeps hcd (main.take blocks) pgb.db
  inside : blocks ≤ main.length

/-- The rows of a table that has the first blocks are at the heights of these. -/
theorem has_iff_of_taken {Row : Type} {key : Row → Int} {isRow : MsgBlock → Row → Prop}
    (ofBlock : ∀ block row, isRow block row → key row = block.height)
    (rooted : (chainView hcd).Rooted main) {count : Nat} (inside : count ≤ main.length)
    {table : KeyedTable key} (related : List.Forall₂ isRow (main.take count) table.rows)
    (wanted : Int) : table.Has wanted ↔ 0 ≤ wanted ∧ wanted ≤ (count - 1 : Int) := by
  have consecutive := consecutive_of_taken ofBlock rooted related
  have length : table.rows.length = count := by
    rw [← related.length_eq, List.length_take, Nat.min_eq_left inside]
  constructor
  · rintro ⟨row, member, rfl⟩
    obtain ⟨position, here⟩ := List.mem_iff_getElem?.mp member
    have atPosition := consecutive position row here
    have below := (List.getElem?_eq_some_iff.mp here).1
    omega
  · rintro ⟨low, high⟩
    have below : wanted.toNat < table.rows.length := by omega
    refine ⟨table.rows[wanted.toNat], List.getElem_mem below, ?_⟩
    rw [consecutive wanted.toNat _ (List.getElem?_eq_getElem below)]
    omega

/-- After a SQLite synchronization that finished, the stake node is not below its height. -/
theorem resync_stake (rooted : (chainView hcd).Rooted main) (moves : sDB.MovesByOne)
    {db last : DB statistics.Rates} (upTo : UpTo hcd main summaries infos db) {env : ResyncEnv}
    (onMain : ∀ pass ∈ env.scans, ∀ ind block hash, pass.client.getBlockAt ind = .ok (block, hash) →
      0 ≤ ind ∧ main[ind.toNat]? = some block ∧ hash = hcd.hashOf block)
    {state final : sDB.State} {height : Int} {how : Return}
    (ran : resyncDBWithPoolValue hcd params statistics sDB env state db =
      some (.returned height how, final, last)) : height ≤ sDB.height final := by
  have heightOf : ∀ pass ∈ env.scans, ∀ ind block hash,
      pass.client.getBlockAt ind = .ok (block, hash) → block.height = ind := by
    intro pass member ind block hash fetched
    obtain ⟨notNegative, isBlock, -⟩ := onMain pass member ind block hash fetched
    have atHeight : block.height = ind.toNat := rooted.height_eq isBlock
    omega
  have summariesComplete : db.SummariesComplete env.summaryHeight := by
    intro wanted
    rw [(upTo.reads _).1]
    refine has_iff_of_taken ?_ rooted upTo.summariesInside upTo.summaryRows wanted
    intro block row isRow
    rw [summaryKey, isRow.1]
    rfl
  have infosComplete : db.StakeInfosComplete env.stakeInfoHeight := by
    intro wanted
    rw [(upTo.reads _).2]
    refine has_iff_of_taken ?_ rooted upTo.infosInside upTo.infoRows wanted
    intro block row isRow
    rw [stakeInfoKey, isRow]
    rfl
  exact (resync_endsWell moves heightOf summariesComplete infosComplete ran).node

/-- When `mainCore` goes on after a round, or leaves the loop to start the explorer, no
synchronization failed or was ended by the quit channel. -/
theorem afterRound_well {quit usePG : Bool} {sqliteRes pgRes : SyncResult}
    (well : afterRound quit usePG sqliteRes pgRes = none ∨
      ∃ height, afterRound quit usePG sqliteRes pgRes = some (.ready height)) :
    (sqliteRes.sawQuit = false ∧ sqliteRes.error = none) ∧
      (usePG = true → pgRes.sawQuit = false ∧ pgRes.error = none) := by
  unfold afterRound at well
  split at well
  · simp at well
  · rename_i noQuit
    simp only [Bool.or_eq_true, not_or, Bool.not_eq_true] at noQuit
    split at well
    · simp at well
    · simp at well
    · simp at well
    · rename_i noError other
      refine ⟨⟨noQuit.1.2, noError⟩, fun isPG => ⟨noQuit.2, ?_⟩⟩
      cases isError : pgRes.error with
      | none => rfl
      | some err => exact absurd isError (other err isPG)

/-- The loop is left at the height of SQLite, which is that of PostgreSQL too. -/
theorem afterRound_ready {quit usePG : Bool} {sqliteRes pgRes : SyncResult} {height : Int}
    (ready : afterRound quit usePG sqliteRes pgRes = some (.ready height)) :
    height = sqliteRes.height ∧ (usePG = true → pgRes.height = height) := by
  unfold afterRound at ready
  split at ready
  · cases ready
  · split at ready
    · cases ready
    · cases ready
    · cases ready
    · split at ready
      · rename_i leaves
        obtain rfl := Started.ready.inj (Option.some.inj ready)
        refine ⟨rfl, fun isPG => ?_⟩
        simpa [isPG] using leaves
      · cases ready

/-- Another round is only started with PostgreSQL. -/
theorem afterRound_again {quit usePG : Bool} {sqliteRes pgRes : SyncResult}
    (again : afterRound quit usePG sqliteRes pgRes = none) : usePG = true := by
  unfold afterRound at again
  split at again
  · cases again
  · split at again
    · cases again
    · cases again
    · cases again
    · split at again
      · cases again
      · rename_i stays
        simp only [Bool.or_eq_true, Bool.not_eq_true', not_or, Bool.not_eq_false] at stays
        exact stays.1

/-- What a round leaves that `mainCore` goes on after. -/
structure RoundWell (hcd : Hcd) (main : List MsgBlock) (round : Round) (sqliteRes pgRes : SyncResult)
    (dbs : Databases sDB statistics.Rates) : Prop where
  sqliteTip : sqliteRes.height ∈ round.sqliteTips
  sqlite : ∃ count : Nat, sqliteRes.height + 1 = count ∧ UpTo hcd main count count dbs.sqlite
  stake : sqliteRes.height ≤ sDB.height dbs.stake
  pgTip : dbs.pg.isSome = true → pgRes.height ∈ round.pgTips
  pg : ∀ pgb, dbs.pg = some pgb → ∃ count : Nat, pgRes.height + 1 = count ∧ count ≤ main.length ∧
    Keeps hcd (main.take count) pgb.db

/-- A round that neither failed nor saw the quit signal. -/
theorem round_well (rooted : (chainView hcd).Rooted main) (moves : sDB.MovesByOne)
    (has : Has hcd main summaries infos blocks dbs) {round : Round} (onMain : round.OnMain hcd main)
    (sqliteSorted : (((max summaries infos : Nat) - 1 : Int) :: round.sqliteTips).Pairwise (· ≤ ·))
    (pgSorted : ((blocks - 1 : Int) :: round.pgTips).Pairwise (· ≤ ·))
    {updateAllAddresses newPGIndexes : Bool} {sqliteRes pgRes : SyncResult} {stake : sDB.State}
    {sqlite : DB statistics.Rates} {pg : Option ChainDB}
    (sqliteRan : syncDBAsync hcd params statistics sDB round dbs.stake dbs.sqlite =
      some (some sqliteRes, stake, sqlite))
    (pgRan : syncChainDBAsync hcd round updateAllAddresses newPGIndexes dbs.pg = some (pgRes, pg))
    (sqliteWell : sqliteRes.sawQuit = false ∧ sqliteRes.error = none)
    (pgWell : dbs.pg.isSome = true → pgRes.sawQuit = false ∧ pgRes.error = none) :
    pg.isSome = dbs.pg.isSome ∧ RoundWell hcd main round sqliteRes pgRes ⟨stake, sqlite, pg⟩ := by
  -- the SQLite side returned because it was done
  have sqliteDone : resyncDBWithPoolValue hcd params statistics sDB round.sqlite dbs.stake dbs.sqlite =
      some (.returned sqliteRes.height .finished, stake, sqlite) := by
    unfold syncDBAsync at sqliteRan
    split at sqliteRan
    · obtain ⟨isRes, -⟩ := Prod.mk.inj (Option.some.inj sqliteRan)
      obtain rfl := Option.some.inj isRes
      cases sqliteWell.2
    · obtain ⟨⟨ended, moved, stored⟩, ran, same⟩ := Option.map_eq_some_iff.mp sqliteRan
      obtain ⟨isRes, same⟩ := Prod.mk.inj same
      obtain ⟨rfl, rfl⟩ := Prod.mk.inj same
      rw [ran]
      cases ended with
      | returned height how =>
        cases how with
        | finished =>
          obtain rfl := Option.some.inj isRes
          rfl
        | quit =>
          obtain rfl := Option.some.inj isRes
          cases sqliteWell.1
        | failed err =>
          obtain rfl := Option.some.inj isRes
          cases sqliteWell.2
      | rewindFailed => cases isRes
      | wrongBlock height => cases isRes
      | died => cases isRes
  obtain ⟨sqliteTip, stored⟩ := resync_finished rooted has.sqlite onMain.sqlite sqliteSorted sqliteDone
  have higher := resync_stake rooted moves has.sqlite onMain.sqlite sqliteDone
  cases isPG : dbs.pg with
  | none =>
    rw [isPG] at pgRan
    obtain ⟨-, rfl⟩ := Prod.mk.inj (Option.some.inj pgRan)
    exact ⟨rfl, sqliteTip, stored, higher, nofun, nofun⟩
  | some pgb =>
    rw [isPG] at pgRan
    obtain ⟨⟨ended, afterPG⟩, ran, same⟩ := Option.map_eq_some_iff.mp pgRan
    have noFailure := pgWell (by rw [isPG]; rfl)
    cases ended with
    | finished height =>
      obtain ⟨rfl, rfl⟩ := Prod.mk.inj same
      obtain ⟨pgTip, count, isCount, inside, kept⟩ := syncChainDB_finished rooted onMain.pg pgSorted
        has.inside (has.pg pgb isPG) ran
      refine ⟨rfl, sqliteTip, stored, higher, fun _ => pgTip, ?_⟩
      intro other isOther
      obtain rfl : afterPG = other := Option.some.inj isOther
      exact ⟨count, isCount, inside, kept⟩
    | quit height =>
      obtain ⟨rfl, rfl⟩ := Prod.mk.inj same
      cases noFailure.1
    | failed height err =>
      obtain ⟨rfl, rfl⟩ := Prod.mk.inj same
      cases noFailure.2

/-- When both sides ended at one height, all databases have the main chain up to it. -/
theorem RoundWell.ready {round : Round} {sqliteRes pgRes : SyncResult}
    (well : RoundWell hcd main round sqliteRes pgRes dbs)
    (sameHeight : dbs.pg.isSome = true → pgRes.height = sqliteRes.height) :
    ∃ count : Nat, sqliteRes.height + 1 = count ∧ Mirrors hcd dbs.sqlite (main.take count) ∧
      ∀ pgb, dbs.pg = some pgb → Keeps hcd (main.take count) pgb.db := by
  obtain ⟨count, isCount, upTo⟩ := well.sqlite
  refine ⟨count, isCount, upTo.mirrors, ?_⟩
  intro pgb isPG
  obtain ⟨other, isOther, inside, kept⟩ := well.pg pgb isPG
  have same := sameHeight (by rw [isPG]; rfl)
  obtain rfl : other = count := by omega
  exact kept

/-- The databases have first parts of the main chain for the next round, up to the heights at
which this one ended. -/
theorem RoundWell.next {round : Round} {sqliteRes pgRes : SyncResult}
    (well : RoundWell hcd main round sqliteRes pgRes dbs) (usePG : dbs.pg.isSome = true) :
    ∃ count stored : Nat, sqliteRes.height = count - 1 ∧ pgRes.height = stored - 1 ∧
      Has hcd main count count stored dbs := by
  obtain ⟨count, isCount, upTo⟩ := well.sqlite
  obtain ⟨pgb, isPG⟩ := Option.isSome_iff_exists.mp usePG
  obtain ⟨stored, isStored, inside, kept⟩ := well.pg pgb isPG
  refine ⟨count, stored, by omega, by omega, upTo, ?_, inside⟩
  intro other isOther
  obtain rfl : pgb = other := Option.some.inj (isPG.symm.trans isOther)
  exact kept

/-- The best heights of later rounds are not below one of this round. -/
theorem sorted_later {start tip : Int} {tips later : List Int}
    (sorted : (start :: (tips ++ later)).Pairwise (· ≤ ·)) (member : tip ∈ tips) :
    (tip :: later).Pairwise (· ≤ ·) :=
  (sorted.sublist (List.sublist_cons_self _ _)).sublist
    ((List.singleton_sublist.mpr member).append (List.Sublist.refl _))

/-- When the loop is left, all databases have the main chain up to one height, that both sides
were answered by the node. -/
theorem syncRounds_ready (rooted : (chainView hcd).Rooted main) (moves : sDB.MovesByOne)
    {rounds : List Round} (onMain : ∀ round ∈ rounds, round.OnMain hcd main)
    (has : Has hcd main summaries infos blocks dbs)
    (sqliteSorted : (((max summaries infos : Nat) - 1 : Int) ::
      rounds.flatMap Round.sqliteTips).Pairwise (· ≤ ·))
    (pgSorted : ((blocks - 1 : Int) :: rounds.flatMap Round.pgTips).Pairwise (· ≤ ·))
    {updateAllAddresses newPGIndexes : Bool} {height : Int}
    (ran : syncRounds hcd params statistics sDB rounds updateAllAddresses newPGIndexes dbs =
      some (.ready height, after)) :
    ∃ count : Nat, height + 1 = count ∧ Mirrors hcd after.sqlite (main.take count) ∧
      height ≤ sDB.height after.stake ∧ after.pg.isSome = dbs.pg.isSome ∧
      (∀ pgb, after.pg = some pgb → Keeps hcd (main.take count) pgb.db) ∧
      ∃ round ∈ rounds, height ∈ round.sqliteTips ∧
        (dbs.pg.isSome = true → height ∈ round.pgTips) := by
  induction rounds generalizing dbs summaries infos blocks updateAllAddresses newPGIndexes with
  | nil => cases ran
  | cons round rest inductionHypothesis =>
    rw [List.flatMap_cons] at sqliteSorted pgSorted
    have sqliteHere := sqliteSorted.sublist (List.sublist_append_left (_ :: round.sqliteTips) _)
    have pgHere := pgSorted.sublist (List.sublist_append_left (_ :: round.pgTips) _)
    have mine := onMain round List.mem_cons_self
    rw [syncRounds] at ran
    split at ran
    · cases congrArg Prod.fst (Option.some.inj ran)
    · rename_i sqliteRes stake sqlite pgRes pg sqliteRan pgRan
      split at ran
      · rename_i ended left
        obtain ⟨rfl, rfl⟩ := Prod.mk.inj (Option.some.inj ran)
        obtain ⟨sqliteWell, pgWell⟩ := afterRound_well (Or.inr ⟨height, left⟩)
        obtain ⟨rfl, sameHeight⟩ := afterRound_ready left
        obtain ⟨samePG, well⟩ := round_well rooted moves has mine sqliteHere pgHere sqliteRan pgRan
          sqliteWell pgWell
        obtain ⟨count, isCount, mirrors, kept⟩ :=
          well.ready fun isPG => sameHeight (samePG.symm.trans isPG)
        refine ⟨count, isCount, mirrors, well.stake, samePG, kept, round, List.mem_cons_self,
          well.sqliteTip, fun isPG => ?_⟩
        have tip := well.pgTip (samePG.trans isPG)
        rwa [sameHeight isPG] at tip
      · rename_i goesOn
        obtain ⟨sqliteWell, pgWell⟩ := afterRound_well (Or.inl goesOn)
        obtain ⟨samePG, well⟩ := round_well rooted moves has mine sqliteHere pgHere sqliteRan pgRan
          sqliteWell pgWell
        have usePG := samePG.trans (afterRound_again goesOn)
        obtain ⟨count, stored, sqliteHeight, pgHeight, hasNext⟩ := well.next usePG
        have sqliteNext := sorted_later sqliteSorted well.sqliteTip
        have pgNext := sorted_later pgSorted (well.pgTip usePG)
        rw [sqliteHeight, ← max_self count] at sqliteNext
        rw [pgHeight] at pgNext
        obtain ⟨last, isLast, mirrors, higher, same, keptLast, final, member, tips⟩ :=
          inductionHypothesis (fun other member => onMain other (List.mem_cons_of_mem _ member))
            hasNext sqliteNext pgNext ran
        exact ⟨last, isLast, mirrors, higher, same.trans samePG, keptLast, final,
          List.mem_cons_of_mem _ member, tips.1, fun isPG => tips.2 (samePG.trans isPG)⟩
    · cases ran

end Rounds

section Sample

/-- Two blocks, of which the PostgreSQL side sees the first one only in its first round. -/
def sampleRounds : List Round :=
  [⟨none, firstSync, (processToward sampleChain 0 1).sync, false⟩,
    ⟨none, ⟨.ok 1, none, none, [], []⟩, (processToward sampleChain 1 1).sync, false⟩]

/-- Empty databases of all three kinds, before the first start. -/
def emptyDatabases : Databases heightStore noRates.Rates :=
  ⟨(0 : Nat), DB.newDB none none .empty .empty, some (newChainDB .created)⟩

/-- The node's answers in these rounds are on the chain. -/
theorem sampleRounds_onMain : ∀ round ∈ sampleRounds, round.OnMain Sample.hcd sampleChain := by
  have pgOnMain (tip : Nat) : ∀ step ∈ (processToward sampleChain tip 1).sync.steps,
      ∀ height : Nat, ∀ block, step.getBlock height = .ok block → sampleChain[height]? = some block := by
    intro step member height block fetched
    obtain rfl := List.eq_of_mem_replicate member
    simp only [passToward, Int.toNat_natCast] at fetched
    cases found : sampleChain[height]? with
    | none =>
      rw [found] at fetched
      cases fetched
    | some other =>
      rw [found] at fetched
      rw [Except.ok.inj fetched]
  have sqliteOnMain : ∀ pass ∈ firstSync.scans, ∀ ind block hash,
      pass.client.getBlockAt ind = .ok (block, hash) →
        0 ≤ ind ∧ sampleChain[ind.toNat]? = some block ∧ hash = Sample.hcd.hashOf block := by
    intro pass member ind block hash fetched
    have isClient : pass.client = twoBlocks := by
      simp only [firstSync, List.mem_cons, List.not_mem_nil, or_false, or_self] at member
      rw [member]
    rw [isClient] at fetched
    by_cases first : ind = 0
    · subst first
      cases fetched
      exact ⟨le_rfl, rfl, rfl⟩
    · by_cases second : ind = 1
      · subst second
        cases fetched
        exact ⟨Int.one_nonneg, rfl, rfl⟩
      · simp only [NodeClient.getBlockAt, twoBlocks, if_neg first, if_neg second] at fetched
        cases fetched
  intro round member
  rcases List.mem_pair.mp member with rfl | rfl
  · exact ⟨sqliteOnMain, pgOnMain 0⟩
  · exact ⟨fun pass noPass => absurd noPass List.not_mem_nil, pgOnMain 1⟩

end Sample

end Hcexplorer.Startup

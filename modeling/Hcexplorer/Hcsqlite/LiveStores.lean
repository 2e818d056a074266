import Mathlib.Data.Int.Interval
import Hcexplorer.Library.Runs
import Hcexplorer.Hcsqlite.StakeInfoRows

/-!
# Holes in the tables

After the start-up synchronization the tables grow by live stores, by the stores of
reorganizations, and over restarts of the database. A block whose data cannot be
collected is skipped, and each of the two inserts of a block may fail on its own;
nothing goes back to what was left out. The queries for a range of heights check
the largest height only.

A run keeps both tables complete up to that height when each stored summary closes
the heights below it. The law of one store says that nothing less will do.
-/

namespace Hcexplorer.Hcsqlite

open Collection Runs

/-- The failures of the two inserts of a block. -/
structure StoreFaults where
  summary : Option String
  stakeInfo : Option String
deriving DecidableEq, Repr

section Stores

variable {statistics : Statistics}

/-- `DBDataSaver.Store`: the stake info is not stored when the summary was not. -/
def DB.store {hcd : Hcd} (faults : StoreFaults) (data : BlockData (statistics.measures hcd))
    (db : DB statistics.Rates) : Option String × DB statistics.Rates :=
  match db.storeBlockSummary faults.summary data.toBlockSummary with
  | (some err, db) => (some err, db)
  | (none, db) => db.storeStakeInfoExtended faults.stakeInfo (toStakeInfoExtended data)

/-- The data that the handler of a connected block passes to the SQLite saver, if it
comes so far. -/
def liveData (hcd : Hcd) (params : ChainParams) (statistics : Statistics) (answers : Answers)
    (hash : Hash) : Option (BlockData (statistics.measures hcd)) :=
  match collectAndStore hcd params (statistics.measures hcd) answers dataSavers hash with
  | .returned calls => (calls.find? fun call => call.saver = .sqliteDB).map StoreCall.blockData
  | .blocked | .panicked => none

/-- A live store: what `BlockConnectedHandler` of `blockdata` does to the tables for a
connected block. -/
def liveStore (hcd : Hcd) (params : ChainParams) (statistics : Statistics) (answers : Answers)
    (hash : Hash) (faults : StoreFaults) (db : DB statistics.Rates) : DB statistics.Rates :=
  match liveData hcd params statistics answers hash with
  | none => db
  | some data => (db.store faults data).2

/-- One block of `switchToSideChain`: the second insert is tried whatever became of the
first. -/
def sideStore (hcd : Hcd) (params : ChainParams) (statistics : Statistics) (answers : Answers)
    (hash : Hash) (faults : StoreFaults) (db : DB statistics.Rates) : DB statistics.Rates :=
  match collectAPITypes hcd params statistics answers hash with
  | none => db
  | some (blockDataSummary, stakeInfoSummaryExtended) =>
    ((db.storeBlockSummary faults.summary blockDataSummary).2.storeStakeInfoExtended faults.stakeInfo
      stakeInfoSummaryExtended).2

/-- The stores of `switchToSideChain`, one block of the side chain after another. -/
def switchToSideChain (hcd : Hcd) (params : ChainParams) (statistics : Statistics)
    (sideChain : List (Hash × Answers × StoreFaults)) (db : DB statistics.Rates) :
    DB statistics.Rates :=
  sideChain.foldl
    (fun db (hash, answers, faults) => sideStore hcd params statistics answers hash faults db) db

/-- What happens to the tables. A reorganization is one event for each block of its
side chain. -/
inductive TableEvent where
  | live (hash : Hash) (answers : Answers) (faults : StoreFaults)
  | side (hash : Hash) (answers : Answers) (faults : StoreFaults)
  | restart (summaryFault stakeFault : Option String)

/-- The tables after an event, a block that is stored as it arrives or one of a side chain. -/
def perform (hcd : Hcd) (params : ChainParams) (statistics : Statistics)
    (db : DB statistics.Rates) : TableEvent → Option (DB statistics.Rates)
  | .live hash answers faults => some (liveStore hcd params statistics answers hash faults db)
  | .side hash answers faults => some (sideStore hcd params statistics answers hash faults db)
  | .restart summaryFault stakeFault =>
    some (.newDB summaryFault stakeFault db.summaries db.stakeInfos)

/-- A reorganization is the run of its blocks, each stored as an event of its own. -/
theorem switchToSideChain_eq (hcd : Hcd) (params : ChainParams) (statistics : Statistics)
    (sideChain : List (Hash × Answers × StoreFaults)) (db : DB statistics.Rates) :
    exec (perform hcd params statistics) db
        (sideChain.map fun (hash, answers, faults) => .side hash answers faults) =
      some (switchToSideChain hcd params statistics sideChain db) := by
  induction sideChain generalizing db with
  | nil => rfl
  | cons block rest inductionHypothesis =>
    exact inductionHypothesis (sideStore hcd params statistics block.2.1 block.1 block.2.2 db)

end Stores

section Completeness

variable {Rates : Type}

/-- `GetBlockSummaryHeight` when the table can be read: the height in memory, or else that of the
last row. -/
def DB.summaryHeight (db : DB Rates) : Int := (db.getBlockSummaryHeight none).1

/-- Both tables have a row for every height up to `GetBlockSummaryHeight`. -/
def DB.Complete (db : DB Rates) : Prop :=
  ∀ height, 0 ≤ height → height ≤ db.summaryHeight →
    db.summaries.Has height ∧ db.stakeInfos.Has height

/-- No summary is above a height that one of the tables does not have, and the height
in memory is that of a summary. -/
structure DB.Closed (db : DB Rates) : Prop where
  below : ∀ height top, 0 ≤ height → height ≤ top → db.summaries.Has top →
    db.summaries.Has height ∧ db.stakeInfos.Has height
  memory : db.dbSummaryHeight = -1 ∨ db.summaries.Has db.dbSummaryHeight

/-- A summary has a height of a block, which is not negative. -/
theorem DB.nonneg_of_has {db : DB Rates} {height : Int} (has : db.summaries.Has height) :
    0 ≤ height := by
  obtain ⟨row, -, rfl⟩ := has
  exact Int.natCast_nonneg _

/-- The height that is read: that in memory, or the largest of a summary. -/
theorem DB.summaryHeight_cases (db : DB Rates) :
    (0 ≤ db.dbSummaryHeight ∧ db.summaryHeight = db.dbSummaryHeight) ∨
      (db.dbSummaryHeight < 0 ∧
        ((db.summaryHeight = -1 ∧ ∀ height, ¬db.summaries.Has height) ∨
          (db.summaries.Has db.summaryHeight ∧
            ∀ height, db.summaries.Has height → height ≤ db.summaryHeight))) := by
  unfold DB.summaryHeight DB.getBlockSummaryHeight DB.retrieveBestBlockHeight
  by_cases inMemory : db.dbSummaryHeight < 0
  · refine Or.inr ⟨inMemory, ?_⟩
    rw [if_pos inMemory]
    cases last : db.summaries.last? with
    | none =>
      have noRows := KeyedTable.last?_eq_none.mp last
      refine Or.inl ⟨rfl, ?_⟩
      rintro height ⟨row, member, -⟩
      rw [noRows] at member
      cases member
    | some row =>
      refine Or.inr ⟨⟨row, KeyedTable.mem_of_last? last, rfl⟩, ?_⟩
      rintro height ⟨other, member, rfl⟩
      exact KeyedTable.key_le_last last member
  · rw [if_neg inMemory]
    exact Or.inl ⟨by omega, rfl⟩

/-- The height that is read is that of a summary, if it is not minus one. -/
theorem DB.Closed.has_summaryHeight {db : DB Rates} (closed : db.Closed) :
    db.summaryHeight = -1 ∨ db.summaries.Has db.summaryHeight := by
  rcases DB.summaryHeight_cases db with ⟨inMemory, same⟩ | ⟨-, ⟨isEmpty, -⟩ | ⟨has, -⟩⟩
  · rw [same]
    exact closed.memory
  · exact Or.inl isEmpty
  · exact Or.inr has

/-- Closed tables are complete: below the last summary no height is missing in either table. -/
theorem DB.Closed.complete {db : DB Rates} (closed : db.Closed) : db.Complete := by
  intro height low high
  rcases closed.has_summaryHeight with isEmpty | has
  · omega
  · exact closed.below height _ low high has

/-- The height in memory after a summary is stored, or none. -/
def raised (height : Int) : Option Int → Int
  | none => height
  | some stored => if height < stored then stored else height

/-- What the inserts of a block add: a summary at a height and a stake info at a height,
each if it is stored. -/
structure Adds (before after : DB Rates) (summaryAt infoAt : Option Int) : Prop where
  summaries : ∀ height, after.summaries.Has height ↔
    before.summaries.Has height ∨ summaryAt = some height
  stakeInfos : ∀ height, after.stakeInfos.Has height ↔
    before.stakeInfos.Has height ∨ infoAt = some height
  memory : after.dbSummaryHeight = raised before.dbSummaryHeight summaryAt

/-- The heights between the last summary and a new one are closed by it. -/
def Closes (before : DB Rates) (summaryAt infoAt : Option Int) : Prop :=
  ∀ top, summaryAt = some top → ∀ height, before.summaryHeight < height → height ≤ top →
    (before.summaries.Has height ∨ height = top) ∧
      (before.stakeInfos.Has height ∨ infoAt = some height)

variable {before after : DB Rates} {summaryAt infoAt : Option Int}

/-- A summary that closes the heights below it leaves closed tables. -/
theorem Adds.closed (adds : Adds before after summaryAt infoAt) (closed : before.Closed)
    (closes : Closes before summaryAt infoAt) : after.Closed := by
  constructor
  · intro height top low high has
    rw [adds.summaries, adds.stakeInfos]
    rcases (adds.summaries top).mp has with wasThere | isNew
    · obtain ⟨summary, info⟩ := closed.below height top low high wasThere
      exact ⟨Or.inl summary, Or.inl info⟩
    · by_cases under : height ≤ before.summaryHeight
      · obtain ⟨summary, info⟩ := closed.complete height low under
        exact ⟨Or.inl summary, Or.inl info⟩
      · obtain ⟨summary, info⟩ := closes top isNew height (by omega) high
        refine ⟨summary.imp_right ?_, info⟩
        rintro rfl
        exact isNew
  · rw [adds.memory]
    cases summaryAt with
    | none => exact closed.memory.imp_right fun has => (adds.summaries _).mpr (Or.inl has)
    | some top =>
      rw [raised]
      split
      · exact Or.inr ((adds.summaries top).mpr (Or.inr rfl))
      · exact closed.memory.imp_right fun has => (adds.summaries _).mpr (Or.inl has)

/-- The height that is read is at least that of a new summary. -/
theorem Adds.le_summaryHeight (adds : Adds before after summaryAt infoAt) {top : Int}
    (isNew : summaryAt = some top) : top ≤ after.summaryHeight := by
  have isMemory := adds.memory
  rw [isNew, raised] at isMemory
  have has : after.summaries.Has top := (adds.summaries top).mpr (Or.inr isNew)
  have low := DB.nonneg_of_has has
  rcases DB.summaryHeight_cases after with ⟨-, same⟩ | ⟨negative, -⟩
  · rw [same, isMemory]
    split <;> omega
  · rw [isMemory] at negative
    split at negative <;> omega

/-- The tables are complete after the inserts of a block exactly when its summary, if
it is stored, closes the heights below it. -/
theorem Adds.complete_iff (adds : Adds before after summaryAt infoAt) (closed : before.Closed) :
    after.Complete ↔ Closes before summaryAt infoAt := by
  constructor
  · intro complete top isNew height above under
    have low : 0 ≤ height := by
      rcases closed.has_summaryHeight with isEmpty | has
      · omega
      · have nonneg := DB.nonneg_of_has has
        omega
    obtain ⟨summary, info⟩ := complete height low (under.trans (adds.le_summaryHeight isNew))
    refine ⟨((adds.summaries height).mp summary).imp_right ?_, (adds.stakeInfos height).mp info⟩
    intro isHeight
    exact Option.some.inj (isHeight.symm.trans isNew)
  · exact fun closes => (adds.closed closed closes).complete

/-- The height of a row, if its insert does not fail. -/
def storedAt (fault : Option String) (height : Int) : Option Int :=
  if fault = none then some height else none

/-- The first insert of a block adds its summary, unless the statement fails. -/
theorem storeBlockSummary_adds (fault : Option String) (summary : BlockDataBasic) (db : DB Rates) :
    Adds db (db.storeBlockSummary fault summary).2 (storedAt fault (summaryKey summary)) none := by
  cases fault with
  | some err => exact ⟨by simp [DB.storeBlockSummary, storedAt], by simp [DB.storeBlockSummary], rfl⟩
  | none =>
    refine ⟨fun height => ?_, by simp [DB.storeBlockSummary], rfl⟩
    simp only [DB.storeBlockSummary, KeyedTable.has_insertOrReplace, storedAt, if_true,
      Option.some.injEq]
    rw [or_comm, eq_comm]

/-- The second insert of a block adds its stake info, unless the statement fails. -/
theorem Adds.storeStakeInfoExtended (fault : Option String) (info : StakeInfoExtended Rates)
    (adds : Adds before after summaryAt none) :
    Adds before (after.storeStakeInfoExtended fault info).2 summaryAt
      (storedAt fault (stakeInfoKey Rates info)) := by
  cases fault with
  | some err => exact adds
  | none =>
    refine ⟨adds.summaries, fun height => ?_, adds.memory⟩
    simp only [DB.storeStakeInfoExtended, KeyedTable.has_insertOrReplace, adds.stakeInfos, storedAt,
      if_true, Option.some.injEq, reduceCtorEq, or_false]
    rw [or_comm, eq_comm]

end Completeness

section Runs

variable {hcd : Hcd} {params : ChainParams} {statistics : Statistics}

/-- The rows of a block close the heights below its summary, if that is stored. -/
def StoreFits (db : DB statistics.Rates) (summary : BlockDataBasic)
    (info : StakeInfoExtended statistics.Rates) (faults : StoreFaults) : Prop :=
  Closes db (storedAt faults.summary (summaryKey summary))
    (storedAt faults.stakeInfo (stakeInfoKey statistics.Rates info))

/-- An event keeps the tables closed: what is collected fits, if anything is. -/
def EventFits (hcd : Hcd) (params : ChainParams) (statistics : Statistics)
    (db : DB statistics.Rates) : TableEvent → Prop
  | .live hash answers faults => ∀ data, liveData hcd params statistics answers hash = some data →
      StoreFits db data.toBlockSummary (toStakeInfoExtended data) faults
  | .side hash answers faults => ∀ summary info,
      collectAPITypes hcd params statistics answers hash = some (summary, info) →
        StoreFits db summary info faults
  | .restart _ _ => True

/-- A live store adds its rows, the stake info only with the summary. -/
theorem store_adds (faults : StoreFaults) (data : BlockData (statistics.measures hcd))
    (db : DB statistics.Rates) :
    Adds db (db.store faults data).2 (storedAt faults.summary (summaryKey data.toBlockSummary))
      (if faults.summary = none then
        storedAt faults.stakeInfo (stakeInfoKey statistics.Rates (toStakeInfoExtended data))
        else none) := by
  have first := storeBlockSummary_adds faults.summary data.toBlockSummary db
  unfold DB.store
  cases fault : faults.summary with
  | some err =>
    rw [fault] at first
    exact first
  | none =>
    rw [fault] at first
    exact first.storeStakeInfoExtended faults.stakeInfo (toStakeInfoExtended data)

/-- Without a summary there is nothing to close, whatever became of the stake info. -/
theorem closes_none {Rates : Type} (db : DB Rates) (infoAt : Option Int) : Closes db none infoAt :=
  nofun

/-- Reading the height of the stake infos leaves that of the summaries in memory. -/
theorem DB.getStakeInfoHeight_memory {Rates : Type} (fault : Option String) (db : DB Rates) :
    (db.getStakeInfoHeight fault).2.dbSummaryHeight = db.dbSummaryHeight := by
  unfold DB.getStakeInfoHeight
  split
  · split
    · rfl
    · rfl
  · rfl

/-- What the database is after a restart: its rows, and the heights that are read from them. -/
theorem newDB_closed {Rates : Type} {summaries : KeyedTable summaryKey}
    {stakeInfos : KeyedTable (stakeInfoKey Rates)} (summaryFault stakeFault : Option String)
    (below : ∀ height top, 0 ≤ height → height ≤ top → summaries.Has top →
      summaries.Has height ∧ stakeInfos.Has height) :
    (DB.newDB summaryFault stakeFault summaries stakeInfos).Closed := by
  let d : DB Rates := ⟨summaries, stakeInfos, -1, -1⟩
  have frame := DB.getBlockSummaryHeight_frame summaryFault d
  have stakeFrame := DB.getStakeInfoHeight_frame stakeFault
    { (d.getBlockSummaryHeight summaryFault).2 with
      dbSummaryHeight := (d.getBlockSummaryHeight summaryFault).1 }
  have sameSummaries : (DB.newDB summaryFault stakeFault summaries stakeInfos).summaries = summaries :=
    stakeFrame.1.trans frame.1
  have sameStakeInfos :
      (DB.newDB summaryFault stakeFault summaries stakeInfos).stakeInfos = stakeInfos :=
    stakeFrame.2.trans frame.2.1
  have sameHeight : (DB.newDB summaryFault stakeFault summaries stakeInfos).dbSummaryHeight =
      (d.getBlockSummaryHeight summaryFault).1 := DB.getStakeInfoHeight_memory stakeFault _
  constructor
  · rw [sameSummaries, sameStakeInfos]
    exact below
  · rw [sameSummaries, sameHeight]
    unfold DB.getBlockSummaryHeight DB.retrieveBestBlockHeight
    split
    · split
      · exact Or.inl rfl
      · rename_i height isHeight
        split at isHeight
        · cases isHeight
        · cases isHeight
        · rename_i row isLast
          cases isHeight
          exact Or.inr ⟨row, KeyedTable.mem_of_last? isLast, rfl⟩
    · rename_i impossible
      exact absurd (by decide : (-1 : Int) < 0) impossible

/-- The tables are complete after an event exactly when it fits, and closed again. -/
theorem perform_complete_iff {db after : DB statistics.Rates} {event : TableEvent}
    (closed : db.Closed) (performed : perform hcd params statistics db event = some after) :
    (after.Complete ↔ EventFits hcd params statistics db event) ∧
      (EventFits hcd params statistics db event → after.Closed) := by
  cases event with
  | live hash answers faults =>
    cases performed
    cases collected : liveData hcd params statistics answers hash with
    | none =>
      have fits : EventFits hcd params statistics db (.live hash answers faults) := by
        intro data isData
        rw [collected] at isData
        cases isData
      simp only [liveStore, collected]
      exact ⟨⟨fun _ => fits, fun _ => closed.complete⟩, fun _ => closed⟩
    | some data =>
      have adds := store_adds faults data db
      have same : EventFits hcd params statistics db (.live hash answers faults) ↔
          Closes db (storedAt faults.summary (summaryKey data.toBlockSummary))
            (if faults.summary = none then
              storedAt faults.stakeInfo (stakeInfoKey statistics.Rates (toStakeInfoExtended data))
              else none) := by
        simp only [EventFits, collected, Option.some.injEq, forall_eq', StoreFits]
        cases faults.summary with
        | some err => exact ⟨fun _ => closes_none _ _, fun _ => closes_none _ _⟩
        | none => exact Iff.rfl
      simp only [liveStore, collected, same]
      exact ⟨adds.complete_iff closed, adds.closed closed⟩
  | side hash answers faults =>
    cases performed
    cases collected : collectAPITypes hcd params statistics answers hash with
    | none =>
      have fits : EventFits hcd params statistics db (.side hash answers faults) := by
        intro summary info isRows
        rw [collected] at isRows
        cases isRows
      simp only [sideStore, collected]
      exact ⟨⟨fun _ => fits, fun _ => closed.complete⟩, fun _ => closed⟩
    | some rows =>
      obtain ⟨summary, info⟩ := rows
      have adds := (storeBlockSummary_adds faults.summary summary db).storeStakeInfoExtended
        faults.stakeInfo info
      have same : EventFits hcd params statistics db (.side hash answers faults) ↔
          Closes db (storedAt faults.summary (summaryKey summary))
            (storedAt faults.stakeInfo (stakeInfoKey statistics.Rates info)) := by
        constructor
        · exact fun fits => fits summary info collected
        · intro fits other rest isRows
          obtain ⟨rfl, rfl⟩ := Prod.mk.inj (Option.some.inj (collected.symm.trans isRows))
          exact fits
      simp only [sideStore, collected, same]
      exact ⟨adds.complete_iff closed, adds.closed closed⟩
  | restart summaryFault stakeFault =>
    cases performed
    have restarted := newDB_closed summaryFault stakeFault closed.below
    exact ⟨⟨fun _ => trivial, fun _ => restarted.complete⟩, fun _ => restarted⟩

/-- Complete tables return a row for each height of a range. -/
theorem DB.Complete.ranges {Rates : Type} {db : DB Rates} (complete : db.Complete)
    (hcutil : Hcutil) {ind0 ind1 : Int} (low : 0 ≤ ind0) (ordered : ind0 ≤ ind1) (high : ind1 ≤ db.summaryHeight) :
    (∃ sizes, (db.getBlockSummaryHeight none).2.retrieveBlockSizeRange none ind0 ind1 = .ok sizes ∧
        (sizes.length : Int) = ind1 - ind0 + 1) ∧
      ∃ values sizes,
        (db.getBlockSummaryHeight none).2.retrievePoolValAndSizeRange hcutil none ind0 ind1 =
          .ok (values, sizes) ∧ (values.length : Int) = ind1 - ind0 + 1 ∧
          (sizes.length : Int) = ind1 - ind0 + 1 := by
  have frame := DB.getBlockSummaryHeight_frame none db
  have inMemory : (db.getBlockSummaryHeight none).2.dbSummaryHeight = db.summaryHeight := by
    have read : 0 ≤ db.summaryHeight := by omega
    revert read
    unfold DB.summaryHeight DB.getBlockSummaryHeight
    split
    · split
      · intro impossible
        omega
      · exact fun _ => rfl
    · exact fun _ => rfl
  have rows : ((db.summaries.between ind0 ind1).length : Int) = ind1 - ind0 + 1 := by
    rw [KeyedTable.between_length fun height above below => (complete height (by omega) (by omega)).1,
      Int.card_Icc]
    omega
  have nonempty : ind1 - ind0 + 1 ≠ 0 := by omega
  have positive : ¬ind1 - ind0 + 1 < 0 := by omega
  have inside : ¬((db.getBlockSummaryHeight none).2.dbSummaryHeight < ind1 ∨ ind0 < 0) := by
    rw [inMemory]
    omega
  constructor
  · refine ⟨(db.summaries.between ind0 ind1).map fun row => scanInt32 row.size, ?_, ?_⟩
    · simp only [DB.retrieveBlockSizeRange, if_neg nonempty, if_neg positive, if_neg inside, frame.1]
    · rw [List.length_map]
      exact rows
  · refine ⟨(db.summaries.between ind0 ind1).map fun row => hcutil.toCoin row.poolInfo.value,
      (db.summaries.between ind0 ind1).map fun row => (row.poolInfo.size.toNat : Rat), ?_, ?_, ?_⟩
    · simp only [DB.retrievePoolValAndSizeRange, if_neg nonempty, if_neg positive, if_neg inside,
        frame.1]
    · rw [List.length_map]
      exact rows
    · rw [List.length_map]
      exact rows

/-- From tables complete up to some height, in every run of live stores,
reorganization stores and restarts in which each stored summary closes the heights
below it, both tables have a row for every height up to `GetBlockSummaryHeight`, and
the range queries return one entry for each height. -/
theorem tables_complete (hcd : Hcd) (params : ChainParams) (statistics : Statistics)
    {summaries : KeyedTable summaryKey} {stakeInfos : KeyedTable (stakeInfoKey statistics.Rates)}
    {best : Int} (summariesUpTo : ∀ height, summaries.Has height ↔ 0 ≤ height ∧ height ≤ best)
    (stakeInfosUpTo : ∀ height, 0 ≤ height → height ≤ best → stakeInfos.Has height)
    {summaryFault stakeFault : Option String} {events : List TableEvent} {db : DB statistics.Rates}
    (admitted : Admitted (perform hcd params statistics) (EventFits hcd params statistics)
      (.newDB summaryFault stakeFault summaries stakeInfos) events)
    (ran : exec (perform hcd params statistics)
      (.newDB summaryFault stakeFault summaries stakeInfos) events = some db) :
    (∀ height, 0 ≤ height → height ≤ (db.getBlockSummaryHeight none).1 →
        db.summaries.Has height ∧ db.stakeInfos.Has height) ∧
      ∀ ind0 ind1, 0 ≤ ind0 → ind0 ≤ ind1 → ind1 ≤ (db.getBlockSummaryHeight none).1 →
        (∃ sizes, (db.getBlockSummaryHeight none).2.retrieveBlockSizeRange none ind0 ind1 =
            .ok sizes ∧ (sizes.length : Int) = ind1 - ind0 + 1) ∧
          ∃ values sizes,
            (db.getBlockSummaryHeight none).2.retrievePoolValAndSizeRange hcd.toHcutil none ind0
                ind1 = .ok (values, sizes) ∧ (values.length : Int) = ind1 - ind0 + 1 ∧
                (sizes.length : Int) = ind1 - ind0 + 1 := by
  have start : (DB.newDB summaryFault stakeFault summaries stakeInfos).Closed := by
    apply newDB_closed
    intro height top low high has
    have inTable := (summariesUpTo top).mp has
    exact ⟨(summariesUpTo height).mpr ⟨low, by omega⟩, stakeInfosUpTo height low (by omega)⟩
  have closed : db.Closed := exec_invariant DB.Closed
    (fun state event next holds allowed performed =>
      (perform_complete_iff holds performed).2 allowed) start admitted ran
  exact ⟨closed.complete, fun ind0 ind1 low ordered high => closed.complete.ranges hcd.toHcutil low ordered high⟩

end Runs

section SampleStores

/-- The table of summaries after the genesis block. -/
def genesisSummaries : KeyedTable summaryKey :=
  KeyedTable.empty.insertOrReplace
    (resyncSummary Sample.hcd noRates (Sample.hcd.hashOf Sample.genesis) ⟨0, 0, 0⟩ Sample.genesis)

/-- The table of stake infos after the genesis block. -/
def genesisInfos : KeyedTable (stakeInfoKey Unit) :=
  KeyedTable.empty.insertOrReplace
    ⟨feeRateInfoBlock Sample.hcd noRates Sample.genesis, 0, 0, 0, ⟨0, 0, 0⟩⟩

/-- The live store of a block, its node answering. -/
def liveBlock (block : MsgBlock) : TableEvent :=
  .live (Sample.hcd.hashOf block) (answersOf block ⟨1, 5, 5⟩) ⟨none, none⟩

/-- The summaries after the genesis block are those of height zero. -/
theorem genesisSummaries_upTo (height : Int) :
    genesisSummaries.Has height ↔ 0 ≤ height ∧ height ≤ 0 := by
  have isKey : summaryKey
      (resyncSummary Sample.hcd noRates (Sample.hcd.hashOf Sample.genesis) ⟨0, 0, 0⟩ Sample.genesis) = 0 := by
    decide
  rw [genesisSummaries, KeyedTable.has_insertOrReplace, isKey]
  constructor
  · rintro (rfl | ⟨row, impossible, -⟩)
    · decide
    · cases impossible
  · rintro ⟨low, high⟩
    exact Or.inl (by omega)

/-- The stake infos after the genesis block have the one of height zero. -/
theorem genesisInfos_upTo (height : Int) (low : 0 ≤ height) (high : height ≤ 0) :
    genesisInfos.Has height := by
  obtain rfl : height = 0 := by omega
  exact KeyedTable.has_insertOrReplace.mpr (Or.inl rfl)

/-- The law at a run of one live store. -/
theorem tables_complete_firstBlock :
    ∃ db, exec (perform Sample.hcd ⟨16, 144⟩ noRates)
        (.newDB none none genesisSummaries genesisInfos) [liveBlock Sample.firstBlock] = some db ∧
      db.summaries.Has 1 ∧ db.stakeInfos.Has 1 := by
  have admitted : Admitted (perform Sample.hcd ⟨16, 144⟩ noRates)
      (EventFits Sample.hcd ⟨16, 144⟩ noRates) (.newDB none none genesisSummaries genesisInfos)
      [liveBlock Sample.firstBlock] := by
    refine ⟨?_, fun _ _ => trivial⟩
    intro data isData top isTop height above under
    have keys : (liveData Sample.hcd ⟨16, 144⟩ noRates (answersOf Sample.firstBlock ⟨1, 5, 5⟩)
        (Sample.hcd.hashOf Sample.firstBlock)).map (fun data => (summaryKey data.toBlockSummary,
          stakeInfoKey Unit (toStakeInfoExtended data))) = some (1, 1) := by
      decide +kernel
    rw [isData] at keys
    obtain ⟨summaryAt, infoAt⟩ := Prod.mk.inj (Option.some.inj keys)
    have isHeight : (DB.newDB none none genesisSummaries genesisInfos).summaryHeight = 0 := by
      decide +kernel
    have isOne : top = 1 := (Option.some.inj isTop).symm.trans summaryAt
    have low : 0 < height := isHeight.symm.trans_lt above
    have same : height = 1 := by omega
    exact ⟨Or.inr (same.trans isOne.symm), Or.inr (congrArg some (infoAt.trans same.symm))⟩
  obtain ⟨db, ran⟩ : ∃ db, exec (perform Sample.hcd ⟨16, 144⟩ noRates)
      (.newDB none none genesisSummaries genesisInfos) [liveBlock Sample.firstBlock] = some db :=
    ⟨_, rfl⟩
  have law := tables_complete Sample.hcd ⟨16, 144⟩ noRates genesisSummaries_upTo genesisInfos_upTo
    admitted ran
  have reached : (exec (perform Sample.hcd ⟨16, 144⟩ noRates)
      (.newDB none none genesisSummaries genesisInfos) [liveBlock Sample.firstBlock]).map
        (fun db => (db.getBlockSummaryHeight none).1) = some 1 := by
    decide +kernel
  rw [ran] at reached
  have isHeight : (db.getBlockSummaryHeight none).1 = 1 := Option.some.inj reached
  exact ⟨db, ran, law.1 1 (by decide) isHeight.ge⟩

/-- The data of the first block cannot be collected, the next block is stored. -/
def skippedBlock : List TableEvent :=
  [.live (Sample.hcd.hashOf Sample.firstBlock)
      { answersOf Sample.firstBlock ⟨1, 5, 5⟩ with
        getBlockHeaderVerbose := fun _ => .error "connection reset" } ⟨none, none⟩,
    liveBlock Sample.secondBlock]

/-- After a block was skipped neither table has a row for height one, and a range of three
heights returns two entries. -/
theorem skippedBlock_leaves_hole :
    ∃ db, exec (perform Sample.hcd ⟨16, 144⟩ noRates)
        (.newDB none none genesisSummaries genesisInfos) skippedBlock = some db ∧
      (db.getBlockSummaryHeight none).1 = 2 ∧ ¬db.summaries.Has 1 ∧ ¬db.stakeInfos.Has 1 ∧
      ∃ sizes, db.retrieveBlockSizeRange none 0 2 = .ok sizes ∧ sizes.length = 2 := by
  have outcome : (exec (perform Sample.hcd ⟨16, 144⟩ noRates)
      (.newDB none none genesisSummaries genesisInfos) skippedBlock).map (fun db =>
        ((db.getBlockSummaryHeight none).1, decide (db.summaries.Has 1), decide (db.stakeInfos.Has 1),
          (db.retrieveBlockSizeRange none 0 2).toOption)) =
      some (2, false, false, some [1000, 1000]) := by
    decide +kernel
  obtain ⟨db, ran, same⟩ := Option.map_eq_some_iff.mp outcome
  simp only [Prod.mk.injEq, decide_eq_false_iff_not] at same
  obtain ⟨isHeight, noSummary, noInfo, sizes⟩ := same
  refine ⟨db, ran, isHeight, noSummary, noInfo, [1000, 1000], ?_, rfl⟩
  cases found : db.retrieveBlockSizeRange none 0 2 with
  | error err =>
    rw [found] at sizes
    cases sizes
  | ok entries =>
    rw [found] at sizes
    exact congrArg Except.ok (Option.some.inj sizes)

end SampleStores

end Hcexplorer.Hcsqlite

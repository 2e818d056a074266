import Hcexplorer.Hcsqlite.LiveStores

/-!
# Switching to a side chain in the SQLite database

`switchToSideChain` of the SQLite chain monitor stores the rows of the side chain over
those of the old main chain, one block after another, and reads the best row back. No
row is deleted and the heights in memory only grow, so the tables are those of the new
main chain when its tip is not below the old one, and otherwise they keep the rows, the
height and the tip of the old chain.
-/

namespace Hcexplorer.Hcsqlite

open Collection LinkedChain KeyedTable

section Model

variable {Rates : Type}

/-- `GetBestBlockSummary`, the row at the height in memory, with the height that it leaves there. -/
def DB.getBestBlockSummary (heightFault rowFault : Option String) (db : DB Rates) :
    Option BlockDataBasic × DB Rates :=
  let (dbBlkHeight, db) := db.getBlockSummaryHeight heightFault
  match rowFault with
  | some _ => (none, db)
  | none => (db.summaries.find dbBlkHeight, db)

/-- `switchToSideChain`, with the tip that it reads back from the tables for its result. -/
def switchAndReadTip (hcd : Hcd) (params : ChainParams) (statistics : Statistics)
    (sideChain : List (Hash × Answers × StoreFaults)) (heightFault rowFault : Option String)
    (db : DB statistics.Rates) : Except String (Int32 × Hash) × DB statistics.Rates :=
  match sideChain with
  | [] => (.error "no side chain", db)
  | _ :: _ =>
    let db := switchToSideChain hcd params statistics sideChain db
    match db.getBestBlockSummary heightFault rowFault with
    | (none, db) => (.error "unable to retrieve best block summary", db)
    | (some bestBlockSummary, db) =>
      (.ok (bestBlockSummary.height.toInt32, bestBlockSummary.hash), db)

/-- The two rows of a block, its summary and its stake info. -/
abbrev BlockRows (Rates : Type) := BlockDataBasic × StakeInfoExtended Rates

/-- The tables hold the rows of these blocks and no others. -/
def DB.Holds (db : DB Rates) (rows : List (BlockRows Rates)) : Prop :=
  db.summaries.rows = rows.map Prod.fst ∧ db.stakeInfos.rows = rows.map Prod.snd

/-- The tables hold a main chain, with both rows of each height from zero on, and each
height in memory is that of its tip or not read yet. -/
structure DB.StoresChain (db : DB Rates) (rows : List (BlockRows Rates)) : Prop where
  holds : db.Holds rows
  summaryKeys : Consecutive summaryKey 0 (rows.map Prod.fst)
  stakeInfoKeys : Consecutive (stakeInfoKey Rates) 0 (rows.map Prod.snd)
  summaryHeight : db.dbSummaryHeight < 0 ∨ db.dbSummaryHeight = rows.length - 1
  stakeInfoHeight : db.dbStakeInfoHeight < 0 ∨ db.dbStakeInfoHeight = rows.length - 1

/-- A block of a side chain, the answers while its data is collected, and its rows. -/
structure SideBlock (Rates : Type) where
  block : MsgBlock
  answers : Answers
  rows : BlockRows Rates

/-- What the chain monitor has of the block, when neither insert fails. -/
def SideBlock.entry (hcd : Hcd) (side : SideBlock Rates) : Hash × Answers × StoreFaults :=
  (hcd.hashOf side.block, side.answers, ⟨none, none⟩)

/-- The data of the block is collected without an error. -/
structure SideBlock.Collected {statistics : Statistics} (hcd : Hcd) (params : ChainParams)
    (side : SideBlock statistics.Rates) : Prop where
  block : side.answers.collectGetBlock (hcd.hashOf side.block) = .ok side.block
  rows : collectAPITypes hcd params statistics side.answers (hcd.hashOf side.block) = some side.rows

/-- The tables hold exactly the rows, both best heights are that of the tip, and the tip
is what the switch returned. -/
structure SwitchedTo (hcd : Hcd) (rows : List (BlockRows Rates)) (tip : MsgBlock)
    (ended : Except String (Int32 × Hash) × DB Rates) : Prop where
  holds : ended.2.Holds rows
  bestBlockHeight : (ended.2.getBlockSummaryHeight none).1 = tip.height
  stakeInfoHeight : (ended.2.getStakeInfoHeight none).1 = tip.height
  returned : ∃ height : Int32, ended.1 = .ok (height, hcd.hashOf tip) ∧ height.toInt = tip.height

end Model

variable {hcd : Hcd} {params : ChainParams} {statistics : Statistics}

/-- The collected rows have the height of the block, and its hash. -/
theorem SideBlock.Collected.height {side : SideBlock statistics.Rates}
    (collected : side.Collected hcd params) :
    side.rows.1.height = side.block.header.height ∧ side.rows.1.hash = hcd.hashOf side.block ∧
      side.rows.2.feeinfo.height = side.block.header.height := by
  have rows := collected.rows
  simp only [collectAPITypes, collectBlockInfo, collected.block] at rows
  cases answered : side.answers.getBlockHeaderVerbose (hcd.hashOf side.block) with
  | error err => simp [answered] at rows
  | ok header =>
    simp only [answered, Option.some.injEq] at rows
    rw [← rows]
    exact ⟨rfl, rfl, rfl⟩

/-- The stores of a block whose data was collected. -/
theorem SideBlock.Collected.sideStore_eq {side : SideBlock statistics.Rates}
    (collected : side.Collected hcd params) (db : DB statistics.Rates) :
    sideStore hcd params statistics side.answers (hcd.hashOf side.block) ⟨none, none⟩ db = {
      summaries := db.summaries.insertOrReplace side.rows.1
      stakeInfos := db.stakeInfos.insertOrReplace side.rows.2
      dbSummaryHeight := if db.dbSummaryHeight < summaryKey side.rows.1 then summaryKey side.rows.1
        else db.dbSummaryHeight
      dbStakeInfoHeight := if db.dbStakeInfoHeight < stakeInfoKey statistics.Rates side.rows.2 then
        stakeInfoKey statistics.Rates side.rows.2 else db.dbStakeInfoHeight } := by
  simp only [sideStore, collected.rows, DB.storeBlockSummary, DB.storeStakeInfoExtended]
  rfl

/-- A height in memory after rows from a first height on were stored. -/
def raisedOver (memory : Int) (first count : Nat) : Int :=
  if count = 0 then memory else max memory (first + count - 1)

/-- What a side chain leaves in the tables and in memory. -/
theorem switchToSideChain_collected {sides : List (SideBlock statistics.Rates)} {first : Nat}
    (collected : ∀ side ∈ sides, side.Collected hcd params)
    (heights : ∀ (position : Nat) side, sides[position]? = some side →
      side.block.height = first + position) (db : DB statistics.Rates) :
    switchToSideChain hcd params statistics (sides.map (SideBlock.entry hcd)) db = {
      summaries := (sides.map fun side => side.rows.1).foldl
        (fun table row => table.insertOrReplace row) db.summaries
      stakeInfos := (sides.map fun side => side.rows.2).foldl
        (fun table row => table.insertOrReplace row) db.stakeInfos
      dbSummaryHeight := raisedOver db.dbSummaryHeight first sides.length
      dbStakeInfoHeight := raisedOver db.dbStakeInfoHeight first sides.length } := by
  induction sides generalizing first db with
  | nil => rfl
  | cons side rest inductionHypothesis =>
    have isCollected := collected side List.mem_cons_self
    obtain ⟨summaryHeight, -, infoHeight⟩ := isCollected.height
    have isFirst : side.block.height = first := by simpa using heights 0 side rfl
    have summaryIs : summaryKey side.rows.1 = first := by
      rw [summaryKey, summaryHeight]
      exact isFirst
    have infoIs : stakeInfoKey statistics.Rates side.rows.2 = first := by
      rw [stakeInfoKey, infoHeight]
      exact isFirst
    have later : ∀ (position : Nat) other, rest[position]? = some other →
        other.block.height = (first + 1 : Nat) + position := by
      intro position other found
      have isHeight := heights (position + 1) other found
      push_cast at isHeight ⊢
      omega
    have raised (memory : Int) :
        raisedOver (if memory < first then (first : Int) else memory) (first + 1) rest.length =
          raisedOver memory first (rest.length + 1) := by
      unfold raisedOver
      push_cast
      split <;> split <;> omega
    have stored := inductionHypothesis (fun other member =>
      collected other (List.mem_cons_of_mem _ member)) later
      (sideStore hcd params statistics side.answers (hcd.hashOf side.block) ⟨none, none⟩ db)
    refine stored.trans ?_
    rw [isCollected.sideStore_eq, summaryIs, infoIs, raised, raised]
    rfl

/-- The blocks of a side chain stand one above the other. -/
theorem heights_of_linked {ancestor : MsgBlock} {fork : Nat} (ancestorHeight : ancestor.height = fork)
    {side : List MsgBlock} (linked : (chainView hcd).Linked (ancestor :: side)) {position : Nat}
    {block : MsgBlock} (found : side[position]? = some block) :
    block.height = (fork + 1 : Nat) + position := by
  have isHeight : block.height = ancestor.height + (position + 1 : Nat) :=
    View.linked_height linked ancestor rfl (position + 1) block found
  push_cast at isHeight ⊢
  omega

/-- A height in memory is the tip of the new chain when the old tip is not above it. -/
theorem raisedOver_eq {memory : Int} {length first count : Nat} (positive : count ≠ 0)
    (known : memory < 0 ∨ memory = length - 1) (covers : length ≤ first + count) :
    raisedOver memory first count = first + count - 1 := by
  rw [raisedOver, if_neg positive]
  omega

/-- A height below `2 ^ 31` is its signed value. -/
theorem toInt_toInt32 {height : UInt32} (fits : (height.toNat : Int) < 2 ^ 31) :
    height.toInt32.toInt = height.toNat := by
  have half : 2 * height.toBitVec.toNat < 2 ^ 32 := by
    rw [UInt32.toNat_toBitVec]
    omega
  exact BitVec.toInt_eq_toNat_of_lt half

/-- A height of summaries that is in memory is read from there. -/
theorem DB.getBlockSummaryHeight_known {Rates : Type} {fault : Option String} {db : DB Rates}
    (known : 0 ≤ db.dbSummaryHeight) :
    db.getBlockSummaryHeight fault = (db.dbSummaryHeight, db) := by
  rw [DB.getBlockSummaryHeight, if_neg (Int.not_lt.mpr known)]

/-- A height of stake infos that is in memory is read from there. -/
theorem DB.getStakeInfoHeight_known {Rates : Type} {fault : Option String} {db : DB Rates}
    (known : 0 ≤ db.dbStakeInfoHeight) :
    db.getStakeInfoHeight fault = (db.dbStakeInfoHeight, db) := by
  rw [DB.getStakeInfoHeight, if_neg (Int.not_lt.mpr known)]

/-- With a height in memory the tip is read in the state that the stores left. -/
theorem switchAndReadTip_known {sideChain : List (Hash × Answers × StoreFaults)}
    {db : DB statistics.Rates} (someBlock : sideChain ≠ [])
    (known : 0 ≤ (switchToSideChain hcd params statistics sideChain db).dbSummaryHeight) :
    (switchAndReadTip hcd params statistics sideChain none none db).2 =
        switchToSideChain hcd params statistics sideChain db ∧
      ∀ best, (switchToSideChain hcd params statistics sideChain db).summaries.find
          (switchToSideChain hcd params statistics sideChain db).dbSummaryHeight = some best →
        (switchAndReadTip hcd params statistics sideChain none none db).1 =
          .ok (best.height.toInt32, best.hash) := by
  obtain ⟨first, rest, rfl⟩ := List.exists_cons_of_ne_nil someBlock
  simp only [switchAndReadTip, DB.getBestBlockSummary, DB.getBlockSummaryHeight_known known]
  constructor
  · cases (switchToSideChain hcd params statistics (first :: rest) db).summaries.find
      (switchToSideChain hcd params statistics (first :: rest) db).dbSummaryHeight <;> rfl
  · intro best found
    rw [found]

/-- Rows written over those of a chain are the rows of the new chain when nothing of the
old one is left behind them. -/
theorem overwritten_eq_iff {Rates Row : Type} (row : BlockRows Rates → Row) (main : List (BlockRows Rates))
    (sides : List (SideBlock Rates)) (first : Nat) :
    (main.map row).take first ++ sides.map (fun side => row side.rows) ++
        (main.map row).drop (first + sides.length) =
      (main.take first ++ sides.map SideBlock.rows).map row ↔ main.length ≤ first + sides.length := by
  have newRows : (main.take first ++ sides.map SideBlock.rows).map row =
      (main.map row).take first ++ sides.map fun side => row side.rows := by
    rw [List.map_append, List.map_take, List.map_map]
    rfl
  rw [newRows, List.append_right_eq_self, List.drop_eq_nil_iff, List.length_map]

/-- Rows of a side chain whose keys are the heights of their blocks follow each other. -/
theorem consecutive_sides {Rates Row : Type} {sides : List (SideBlock Rates)} {first : Nat}
    (heights : ∀ (position : Nat) side, sides[position]? = some side →
      side.block.height = first + position)
    {place : Row → Int} {row : SideBlock Rates → Row}
    (keys : ∀ side ∈ sides, place (row side) = side.block.height) :
    Consecutive place first (sides.map row) := by
  intro position written found
  rw [List.getElem?_map] at found
  obtain ⟨side, atPosition, rfl⟩ := Option.map_eq_some_iff.mp found
  rw [keys side (List.mem_of_getElem? atPosition)]
  exact heights position side atPosition

/-- The new tip is the block of the last side. -/
theorem exists_tip {Rates : Type} {sides : List (SideBlock Rates)} {newTip : MsgBlock}
    (lastIs : (sides.map SideBlock.block).getLast? = some newTip) :
    ∃ before side, sides = before ++ [side] ∧ side.block = newTip := by
  rw [List.getLast?_map] at lastIs
  obtain ⟨side, isLast, isTip⟩ := Option.map_eq_some_iff.mp lastIs
  obtain ⟨before, isSides⟩ := List.getLast?_eq_some_iff.mp isLast
  exact ⟨before, side, isSides, isTip⟩

/-- After the switch the tables hold the new main chain exactly when its tip is not below the old
one, for the rows of the side chain overwrite those of its heights and leave the others. -/
theorem switchToSideChain_holds_iff (hcd : Hcd) (params : ChainParams) (statistics : Statistics)
    {db : DB statistics.Rates} {main : List (BlockRows statistics.Rates)}
    (stores : db.StoresChain main) {fork : Nat} (forks : fork < main.length)
    {sides : List (SideBlock statistics.Rates)}
    (heights : ∀ (position : Nat) side, sides[position]? = some side →
      side.block.height = (fork + 1 : Nat) + position)
    (collected : ∀ side ∈ sides, side.Collected hcd params) :
    (switchToSideChain hcd params statistics (sides.map (SideBlock.entry hcd)) db).Holds
        (main.take (fork + 1) ++ sides.map SideBlock.rows) ↔
      main.length ≤ fork + 1 + sides.length := by
  have stored := switchToSideChain_collected collected heights db
  have summaryRows : Consecutive summaryKey (fork + 1) (sides.map fun side => side.rows.1) :=
    consecutive_sides heights fun side member =>
      congrArg (fun height : UInt32 => (height.toNat : Int)) (collected side member).height.1
  have infoRows : Consecutive (stakeInfoKey statistics.Rates) (fork + 1)
      (sides.map fun side => side.rows.2) :=
    consecutive_sides heights fun side member =>
      congrArg (fun height : UInt32 => (height.toNat : Int)) (collected side member).height.2.2
  obtain ⟨oldSummaries, oldInfos⟩ := stores.holds
  have newSummaries := rows_insert_all (oldSummaries ▸ stores.summaryKeys) summaryRows
    (by rw [oldSummaries, List.length_map]; exact forks)
  have newInfos := rows_insert_all (oldInfos ▸ stores.stakeInfoKeys) infoRows
    (by rw [oldInfos, List.length_map]; exact forks)
  rw [DB.Holds, stored, newSummaries, newInfos, oldSummaries, oldInfos, List.length_map,
    List.length_map, overwritten_eq_iff Prod.fst, overwritten_eq_iff Prod.snd, and_self_iff]

/-- After a switch to a side chain whose data was collected, the tables, the best heights
and the returned tip are those of the new main chain exactly when its tip is not below
the old one and its height fits the returned integer. -/
theorem switchedTo_iff (hcd : Hcd) (params : ChainParams) (statistics : Statistics)
    {db : DB statistics.Rates} {main : List (BlockRows statistics.Rates)}
    (stores : db.StoresChain main) {fork : Nat} (forks : fork < main.length) {ancestor newTip : MsgBlock}
    (ancestorHeight : ancestor.height = fork) {sides : List (SideBlock statistics.Rates)}
    (linked : (chainView hcd).Linked (ancestor :: sides.map SideBlock.block))
    (lastIs : (sides.map SideBlock.block).getLast? = some newTip)
    (collected : ∀ side ∈ sides, side.Collected hcd params) :
    SwitchedTo hcd (main.take (fork + 1) ++ sides.map SideBlock.rows) newTip
        (switchAndReadTip hcd params statistics (sides.map (SideBlock.entry hcd)) none none db) ↔
      main.length ≤ fork + 1 + sides.length ∧ newTip.height < 2 ^ 31 := by
  have heights : ∀ (position : Nat) side, sides[position]? = some side →
      side.block.height = (fork + 1 : Nat) + position := by
    intro position side found
    refine heights_of_linked ancestorHeight linked ?_
    rw [List.getElem?_map, found]
    rfl
  have stored := switchToSideChain_collected collected heights db
  have overwritten := switchToSideChain_holds_iff hcd params statistics stores forks heights collected
  set switched := switchToSideChain hcd params statistics (sides.map (SideBlock.entry hcd)) db
    with switchedIs
  obtain ⟨before, side, isSides, isTip⟩ := exists_tip lastIs
  have count : sides.length = before.length + 1 := by rw [isSides, List.length_append]; rfl
  have atTip : sides[before.length]? = some side := by simp [isSides]
  have tipHeight : newTip.height = (fork + 1 : Nat) + before.length :=
    isTip ▸ heights before.length side atTip
  obtain ⟨rowHeight, rowHash, -⟩ := (collected side (List.mem_of_getElem? atTip)).height
  have summaryHeight : switched.dbSummaryHeight =
      raisedOver db.dbSummaryHeight (fork + 1) sides.length := by rw [stored]
  have infoHeight : switched.dbStakeInfoHeight =
      raisedOver db.dbStakeInfoHeight (fork + 1) sides.length := by rw [stored]
  have nonempty : sides.length ≠ 0 := by omega
  have known : 0 ≤ switched.dbSummaryHeight := by
    rw [summaryHeight, raisedOver, if_neg nonempty]
    omega
  have someSide : sides.map (SideBlock.entry hcd) ≠ [] := by
    rw [isSides, List.map_append]
    exact List.append_ne_nil_of_right_ne_nil _ (List.cons_ne_nil _ _)
  obtain ⟨endsIn, readsTip⟩ := switchAndReadTip_known someSide known
  constructor
  · intro complete
    have holds := complete.holds
    rw [endsIn] at holds
    obtain ⟨height, -, isHeight⟩ := complete.returned
    exact ⟨overwritten.mp holds, isHeight ▸ height.toInt_lt⟩
  · rintro ⟨covers, fits⟩
    have summaryIsTip : switched.dbSummaryHeight = newTip.height := by
      rw [summaryHeight, tipHeight, raisedOver_eq nonempty stores.summaryHeight covers]
      omega
    have infoIsTip : switched.dbStakeInfoHeight = newTip.height := by
      rw [infoHeight, tipHeight, raisedOver_eq nonempty stores.stakeInfoHeight covers]
      omega
    have tipStored : side.rows.1 ∈ switched.summaries.rows := by
      rw [(overwritten.mpr covers).1, List.map_append, List.map_map, isSides, List.map_append]
      exact List.mem_append_right _ (List.mem_append_right _ List.mem_cons_self)
    have tipKey : summaryKey side.rows.1 = switched.dbSummaryHeight := by
      rw [summaryKey, rowHeight, isTip, summaryIsTip]
      rfl
    refine ⟨by rw [endsIn]; exact overwritten.mpr covers, ?_, ?_, ?_⟩
    · rw [endsIn, DB.getBlockSummaryHeight_known known, summaryIsTip]
    · have infoKnown : 0 ≤ switched.dbStakeInfoHeight := infoIsTip ▸ height_nonneg newTip
      rw [endsIn, DB.getStakeInfoHeight_known infoKnown, infoIsTip]
    · refine ⟨newTip.header.height.toInt32, ?_, toInt_toInt32 fits⟩
      rw [readsTip side.rows.1 (tipKey ▸ find_key tipStored), rowHeight, rowHash, isTip]

section SampleSwitch

/-- The rows that are collected for a block of the small node. -/
def sampleRows (block : MsgBlock) : BlockRows noRates.Rates :=
  (collectAPITypes Sample.hcd ⟨16, 144⟩ noRates (answersOf block ⟨1, 5, 5⟩)
    (Sample.hcd.hashOf block)).getD
      (resyncSummary Sample.hcd noRates (Sample.hcd.hashOf block) ⟨0, 0, 0⟩ block,
        ⟨feeRateInfoBlock Sample.hcd noRates block, 0, 0, 0, ⟨0, 0, 0⟩⟩)

/-- The block on a side chain, its node answering. -/
def sampleSide (block : MsgBlock) : SideBlock noRates.Rates :=
  ⟨block, answersOf block ⟨1, 5, 5⟩, sampleRows block⟩

/-- The tables of a main chain of three blocks. -/
def threeBlockRows : List (BlockRows noRates.Rates) :=
  [Sample.genesis, Sample.firstBlock, Sample.secondBlock].map sampleRows

/-- The tables with the rows of three blocks and nothing in memory. -/
def threeBlockTables : DB noRates.Rates where
  summaries := (threeBlockRows.map Prod.fst).foldl (fun table row => table.insertOrReplace row) empty
  stakeInfos := (threeBlockRows.map Prod.snd).foldl (fun table row => table.insertOrReplace row) empty
  dbSummaryHeight := 2
  dbStakeInfoHeight := 2

/-- The data of a block of the small node is collected. -/
theorem sampleSide_collected (block : MsgBlock) :
    (sampleSide block).Collected Sample.hcd ⟨16, 144⟩ where
  block := rfl
  rows := by
    unfold sampleSide sampleRows
    cases isRows : collectAPITypes Sample.hcd ⟨16, 144⟩ noRates (answersOf block ⟨1, 5, 5⟩)
        (Sample.hcd.hashOf block) with
    | none => cases isRows
    | some rows => rfl

/-- The three rows are those of a main chain. -/
theorem threeBlockTables_stores : threeBlockTables.StoresChain threeBlockRows where
  holds := ⟨rfl, rfl⟩
  summaryKeys := consecutive_of_map (by decide +kernel)
  stakeInfoKeys := consecutive_of_map (by decide +kernel)
  summaryHeight := Or.inr rfl
  stakeInfoHeight := Or.inr rfl

/-- The law at a side chain as long as what it replaces. -/
theorem switchedTo_longerSide :
    SwitchedTo Sample.hcd
      (threeBlockRows.take 1 ++ [Sample.sideBlock, Sample.sideChild].map sampleRows) Sample.sideChild
      (switchAndReadTip Sample.hcd ⟨16, 144⟩ noRates
        (([Sample.sideBlock, Sample.sideChild].map sampleSide).map (SideBlock.entry Sample.hcd))
        none none threeBlockTables) := by
  have linked : (chainView Sample.hcd).Linked (Sample.genesis ::
      ([Sample.sideBlock, Sample.sideChild].map sampleSide).map SideBlock.block) :=
    List.isChain_cons_cons.mpr ⟨⟨rfl, rfl⟩,
      List.isChain_cons_cons.mpr ⟨⟨rfl, rfl⟩, List.isChain_singleton _⟩⟩
  have collected : ∀ side ∈ [Sample.sideBlock, Sample.sideChild].map sampleSide,
      side.Collected Sample.hcd ⟨16, 144⟩ := by
    intro side member
    obtain ⟨block, -, rfl⟩ := List.mem_map.mp member
    exact sampleSide_collected block
  have forks : 0 < threeBlockRows.length := by decide
  have isGenesis : Sample.genesis.height = (0 : Nat) := rfl
  exact (switchedTo_iff Sample.hcd ⟨16, 144⟩ noRates threeBlockTables_stores forks isGenesis linked rfl
    collected).mpr (by decide)

/-- A side chain of one block replaces two blocks: both tables keep the row of height two,
and it is the tip that the switch returns. -/
theorem lowerSide_keeps_old_tip :
    threeBlockTables.StoresChain threeBlockRows ∧
      (chainView Sample.hcd).Linked [Sample.genesis, Sample.sideBlock] ∧
      (sampleSide Sample.sideBlock).Collected Sample.hcd ⟨16, 144⟩ ∧
      ∃ ended db, switchAndReadTip Sample.hcd ⟨16, 144⟩ noRates
          [(sampleSide Sample.sideBlock).entry Sample.hcd] none none threeBlockTables = (ended, db) ∧
        db.summaries.Has 2 ∧ db.stakeInfos.Has 2 ∧ (db.getBlockSummaryHeight none).1 = 2 ∧
        (db.getStakeInfoHeight none).1 = 2 ∧
        ended.toOption = some (2, Sample.hcd.hashOf Sample.secondBlock) ∧
        ¬SwitchedTo Sample.hcd (threeBlockRows.take 1 ++ [sampleRows Sample.sideBlock]) Sample.sideBlock
          (ended, db) := by
  refine ⟨threeBlockTables_stores, List.isChain_cons_cons.mpr ⟨⟨rfl, rfl⟩, List.isChain_singleton _⟩,
    sampleSide_collected _, _, _, rfl, by decide +kernel, by decide +kernel, by decide +kernel,
    by decide +kernel, by decide +kernel, ?_⟩
  intro switched
  have fewer : (threeBlockRows.take 1 ++ [sampleRows Sample.sideBlock]).length = 2 := rfl
  have rows := congrArg List.length switched.holds.1
  rw [List.length_map, fewer] at rows
  exact absurd rows (by decide +kernel)

end SampleSwitch

end Hcexplorer.Hcsqlite

import Hcexplorer.Collector
import Hcexplorer.Library.KeyedTable

/-!
# The SQLite database

`hcsqlite.DB`: a table of block summaries and one of stake infos, both with the
height as primary key, and for each the largest height that was stored, kept in
memory. A row is inserted or replaces the one of its height. A negative height in
memory is read from the table when it is asked for; every restart reads both.

Each statement may fail, which leaves its table as it was. The ticket fee rates of
a block are floating-point statistics of its ticket purchases and stay a
parameter.
-/

namespace Hcexplorer.Hcsqlite

open Collection

/-- The ticket purchases of a block, the second result of `TicketsInBlock`. -/
def ticketPurchases (hcd : Hcd) (block : MsgBlock) : List MsgTx :=
  block.sTransactions.filter fun stx => hcd.determineTxType stx == .sstx

/-- `hcjson.FeeInfoBlock`, with its five fee rates as one value. -/
structure FeeInfoBlock (Rates : Type) where
  height : UInt32
  number : UInt32
  rates : Rates
deriving DecidableEq

/-- The floating-point functions of `txhelpers`: the fee rates of ticket purchases
and the difficulty ratio of the bits of a header. -/
structure Statistics where
  Rates : Type
  feeRates : List MsgTx → Rates
  getDifficultyRatio : UInt32 → Rat

/-- `FeeRateInfoBlock`, which counts the tickets of a block and computes their fee rates. It
never returns nil. -/
def feeRateInfoBlock (hcd : Hcd) (statistics : Statistics) (block : MsgBlock) :
    FeeInfoBlock statistics.Rates :=
  ⟨block.header.height, UInt32.ofNat (ticketPurchases hcd block).length,
    statistics.feeRates (ticketPurchases hcd block)⟩

/-- The measures that the collector takes of a block. -/
abbrev Statistics.measures (hcd : Hcd) (statistics : Statistics) : Measures where
  FeeInfoBlock := FeeInfoBlock statistics.Rates
  feeRateInfoBlock := feeRateInfoBlock hcd statistics
  getDifficultyRatio := statistics.getDifficultyRatio

/-- `apitypes.StakeInfoExtended`, the row of a stake info, with the fees, the price, the window
and the ticket pool. -/
structure StakeInfoExtended (Rates : Type) where
  feeinfo : FeeInfoBlock Rates
  stakeDiff : Rat
  priceWindowNum : Int
  idxBlockInWindow : Int
  poolInfo : TicketPoolInfo
deriving DecidableEq

/-- The primary key of the summaries, which is the block's height. -/
def summaryKey (row : BlockDataBasic) : Int := row.height.toNat
/-- The primary key of the stake infos, which is the height of the fee info. -/
def stakeInfoKey (Rates : Type) (row : StakeInfoExtended Rates) : Int := row.feeinfo.height.toNat

/-- `hcsqlite.DB`, the tables with the heights that are kept in memory. -/
structure DB (Rates : Type) where
  summaries : KeyedTable summaryKey
  stakeInfos : KeyedTable (stakeInfoKey Rates)
  dbSummaryHeight : Int
  dbStakeInfoHeight : Int

namespace DB

variable {Rates : Type}

/-- `RetrieveBestBlockHeight`, the height of the last summary; an empty table is an error. -/
def retrieveBestBlockHeight (fault : Option String) (db : DB Rates) : Except String Int :=
  match fault, db.summaries.last? with
  | some err, _ => .error err
  | none, none => .error "sql: no rows in result set"
  | none, some row => .ok (summaryKey row)

/-- The height of `RetrieveLatestStakeInfoExtended`, that of the last stake info; an empty table
is an error. -/
def retrieveLatestStakeInfoHeight (fault : Option String) (db : DB Rates) : Except String Int :=
  match fault, db.stakeInfos.last? with
  | some err, _ => .error err
  | none, none => .error "sql: no rows in result set"
  | none, some row => .ok (stakeInfoKey Rates row)

/-- `GetBlockSummaryHeight`, the height in memory or else in the table, with the height it leaves
in memory. -/
def getBlockSummaryHeight (fault : Option String) (db : DB Rates) : Int × DB Rates :=
  if db.dbSummaryHeight < 0 then
    match db.retrieveBestBlockHeight fault with
    | .error _ => (-1, db)
    | .ok height => (height, { db with dbSummaryHeight := height })
  else (db.dbSummaryHeight, db)

/-- `GetStakeInfoHeight`, the same for the table of stake infos. -/
def getStakeInfoHeight (fault : Option String) (db : DB Rates) : Int × DB Rates :=
  if db.dbStakeInfoHeight < 0 then
    match db.retrieveLatestStakeInfoHeight fault with
    | .error _ => (-1, db)
    | .ok height => (height, { db with dbStakeInfoHeight := height })
  else (db.dbStakeInfoHeight, db)

/-- `NewDB`, at every start: the heights are read from the tables. -/
def newDB (summaryFault stakeFault : Option String) (summaries : KeyedTable summaryKey)
    (stakeInfos : KeyedTable (stakeInfoKey Rates)) : DB Rates :=
  let d : DB Rates := ⟨summaries, stakeInfos, -1, -1⟩
  let (summaryHeight, d) := d.getBlockSummaryHeight summaryFault
  let d := { d with dbSummaryHeight := summaryHeight }
  let (stakeInfoHeight, d) := d.getStakeInfoHeight stakeFault
  { d with dbStakeInfoHeight := stakeInfoHeight }

/-- `StoreBlockSummary`, which replaces the row at the height and raises the height in memory to
it. -/
def storeBlockSummary (fault : Option String) (bd : BlockDataBasic) (db : DB Rates) :
    Option String × DB Rates :=
  match fault with
  | some err => (some err, db)
  | none =>
    (none, { db with
      summaries := db.summaries.insertOrReplace bd
      dbSummaryHeight := if db.dbSummaryHeight < summaryKey bd then summaryKey bd
        else db.dbSummaryHeight })

/-- `StoreStakeInfoExtended`, which replaces the row at the height and raises the height in
memory to it. -/
def storeStakeInfoExtended (fault : Option String) (si : StakeInfoExtended Rates) (db : DB Rates) :
    Option String × DB Rates :=
  match fault with
  | some err => (some err, db)
  | none =>
    (none, { db with
      stakeInfos := db.stakeInfos.insertOrReplace si
      dbStakeInfoHeight := if db.dbStakeInfoHeight < stakeInfoKey Rates si then
        stakeInfoKey Rates si else db.dbStakeInfoHeight })

/-- A size read into an int32. One that does not fit is logged, and leaves zero. -/
def scanInt32 (size : UInt32) : Int32 := if size.toNat < 2147483648 then size.toInt32 else 0

/-- `RetrieveBlockSizeRange`, the sizes of the rows within a range of heights; a reversed range
is an error. -/
def retrieveBlockSizeRange (fault : Option String) (ind0 ind1 : Int) (db : DB Rates) :
    Except String (List Int32) :=
  let N := ind1 - ind0 + 1
  if N = 0 then .ok []
  else if N < 0 then .error s!"Cannot retrieve block size range ({ind1}<{ind0})"
  else if db.dbSummaryHeight < ind1 ∨ ind0 < 0 then
    let height := db.dbSummaryHeight
    .error s!"Cannot retrieve block size range [{ind1},{ind0}], have height {height}"
  else
    match fault with
    | some err => .error err
    | none => .ok ((db.summaries.between ind0 ind1).map fun row => scanInt32 row.size)

/-- `RetrievePoolValAndSizeRange`, from the table of summaries. A number of rows
that is not expected is only logged. -/
def retrievePoolValAndSizeRange (hcutil : Hcutil) (fault : Option String) (ind0 ind1 : Int)
    (db : DB Rates) : Except String (List Rat × List Rat) :=
  let N := ind1 - ind0 + 1
  if N = 0 then .ok ([], [])
  else if N < 0 then .error s!"Cannot retrieve pool val and size range ({ind1}<{ind0})"
  else if db.dbSummaryHeight < ind1 ∨ ind0 < 0 then
    let height := db.dbSummaryHeight
    .error s!"Cannot retrieve pool val and size range [{ind1},{ind0}], have height {height}"
  else
    match fault with
    | some err => .error err
    | none =>
      let rows := db.summaries.between ind0 ind1
      .ok (rows.map fun row => hcutil.toCoin row.poolInfo.value,
        rows.map fun row => (row.poolInfo.size.toNat : Rat))

end DB

/-- `ToStakeInfoExtended`, what the live path stores beside the summary. -/
def toStakeInfoExtended {hcd : Hcd} {statistics : Statistics}
    (b : BlockData (statistics.measures hcd)) : StakeInfoExtended statistics.Rates where
  feeinfo := b.feeInfo
  stakeDiff := b.currentStakeDiff.currentStakeDifficulty
  priceWindowNum := b.priceWindowNum
  idxBlockInWindow := b.idxBlockInWindow
  poolInfo := b.poolInfo

/-- `CollectAPITypes`: the two rows of the block with a hash. -/
def collectAPITypes (hcd : Hcd) (params : ChainParams) (statistics : Statistics) (answers : Answers)
    (hash : Hash) : Option (BlockDataBasic × StakeInfoExtended statistics.Rates) :=
  match collectBlockInfo hcd (statistics.measures hcd) answers hash with
  | .error _ => none
  | .ok info =>
    let height : Int := info.basic.height.toNat
    some (info.basic,
      { feeinfo := info.feeInfo
        stakeDiff := info.basic.stakeDiff
        priceWindowNum := (priceWindow params height).1
        idxBlockInWindow := (priceWindow params height).2
        poolInfo := info.basic.poolInfo })

end Hcexplorer.Hcsqlite

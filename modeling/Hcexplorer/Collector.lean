import Hcexplorer.StakeMonitor

/-!
# Collecting the data of a connected block

`blockdata.Collector` and the `BlockConnectedHandler` of `blockdata`: for a block
the node announced, the handler asks the node for the block and for its best
height, collects the block's data by one of two paths, and passes the data with
the block to each saver.

Every call to the node is answered at a moment of its own, so each has its own
answer here; two calls of one method on the way are two fields of `Answers`. The
answers of the stake database to `PoolInfo` and `PoolInfoBest` are taken in the
same way. The fee statistics and the difficulty ratio of a block are floating-point
functions of it and stay parameters; the other amounts are exact. The list of
watched addresses is never filled by the program and is left out.
-/

namespace Hcexplorer.Collection

/-- `hcjson.GetStakeDifficultyResult`, the difficulty of the best block and of the one that
follows. -/
structure StakeDifficulty where
  currentStakeDifficulty : Rat
  nextStakeDifficulty : Rat
deriving DecidableEq

/-- `hcjson.EstimateStakeDiffResult`, the node's estimates of the next difficulty. -/
structure EstimateStakeDiff where
  min : Rat
  max : Rat
  expected : Rat
  user : Option Rat
deriving DecidableEq

/-- `hcjson.GetBlockSubsidyResult`, the parts of the subsidy of a block in atoms. -/
structure BlockSubsidy where
  developer : Int64
  pos : Int64
  pow : Int64
  total : Int64
deriving DecidableEq

/-- `hcjson.GetBlockHeaderVerboseResult`, the fields of the header that are read. -/
structure BlockHeaderVerbose where
  hash : Hash
  height : UInt32
  voters : UInt16
  freshStake : UInt8
  revocations : UInt8
  sBits : Rat
  size : UInt32
  time : Int64
  difficulty : Rat
deriving DecidableEq

/-- `apitypes.BlockDataBasic`, the summary of a block that is stored and shown. -/
structure BlockDataBasic where
  height : UInt32
  size : UInt32
  hash : Hash
  difficulty : Rat
  stakeDiff : Rat
  time : Int64
  poolInfo : TicketPoolInfo
deriving DecidableEq

/-- `apitypes.BlockExplorerExtraInfo`, whose formatted time is set later and left out here. -/
structure ExtraInfo where
  txLen : Nat
  coinSupply : Int
  nextBlockSubsidy : Option BlockSubsidy
deriving DecidableEq

/-- The floating-point functions of `txhelpers`, which are not computed here. -/
structure Measures where
  FeeInfoBlock : Type
  feeRateInfoBlock : MsgBlock → FeeInfoBlock
  getDifficultyRatio : UInt32 → Rat

/-- `blockdata.BlockData`, what one collection hands over to the savers. -/
structure BlockData (measures : Measures) where
  header : BlockHeaderVerbose
  connections : Int32
  feeInfo : measures.FeeInfoBlock
  currentStakeDiff : StakeDifficulty
  estStakeDiff : EstimateStakeDiff
  poolInfo : TicketPoolInfo
  extraInfo : ExtraInfo
  priceWindowNum : Int
  idxBlockInWindow : Int

variable {measures : Measures}

/-- `ToBlockSummary`, what the SQLite saver stores of the block. -/
def BlockData.toBlockSummary (b : BlockData measures) : BlockDataBasic :=
  ⟨b.header.height, b.header.size, b.header.hash, b.header.difficulty, b.header.sBits,
    b.header.time, b.poolInfo⟩

/-- The answers to the calls made while one block is handled. `getBlock` and
`getBlockCount` are those of the handler; `collectGetBlock` is that of
`CollectBlockInfo`. A `getBestBlockHash` of `none` is the timeout. -/
structure Answers where
  getBlock : Hash → Except String MsgBlock
  getBlockCount : Except String Int
  getBestBlockHash : Option (Except String Hash)
  getStakeDifficulty : Except String StakeDifficulty
  estimateStakeDiff : Except String EstimateStakeDiff
  collectGetBlock : Hash → Except String MsgBlock
  getCoinSupply : Except String Int
  getBlockSubsidy : Int → Except String BlockSubsidy
  poolInfo : Hash → Option TicketPoolInfo
  poolInfoBest : TicketPoolInfo × Nat
  getBlockHeaderVerbose : Hash → Except String BlockHeaderVerbose
  getConnectionCount : Except String Int

/-- What `CollectBlockInfo` returns beside its error: the summary of a block, and the answers
that it was made of. -/
structure BlockInfo (measures : Measures) where
  basic : BlockDataBasic
  feeInfo : measures.FeeInfoBlock
  header : BlockHeaderVerbose
  extra : ExtraInfo
  msgBlock : MsgBlock

/-- `PriceWindowNum` and `IdxBlockInWindow` of a height, by a division that truncates. -/
def priceWindow (params : ChainParams) (height : Int) : Int × Int :=
  (height.tdiv params.stakeDiffWindowSize.toInt, height.tmod params.stakeDiffWindowSize.toInt + 1)

/-- `CollectBlockInfo`. The coin supply and the subsidy may fail; a block without
recorded pool information takes that of the best stake node. -/
def collectBlockInfo (hcd : Hcd) (measures : Measures) (answers : Answers) (hash : Hash) :
    Except String (BlockInfo measures) :=
  match answers.collectGetBlock hash with
  | .error err => .error err
  | .ok msgBlock =>
    let coinSupply := answers.getCoinSupply.toOption.getD 0
    let nbSubsidy := (answers.getBlockSubsidy (msgBlock.height + 1)).toOption
    let ticketPoolInfo := (answers.poolInfo hash).getD answers.poolInfoBest.1
    match answers.getBlockHeaderVerbose hash with
    | .error err => .error err
    | .ok blockHeaderResults =>
      .ok {
        basic :=
          ⟨msgBlock.header.height, UInt32.ofNat (hcd.blockSerializeSize msgBlock), hash,
            measures.getDifficultyRatio msgBlock.header.bits, hcd.toCoin msgBlock.header.sBits,
            msgBlock.header.timestamp, ticketPoolInfo⟩
        feeInfo := measures.feeRateInfoBlock msgBlock
        header := blockHeaderResults
        extra := ⟨msgBlock.transactions.length, coinSupply, nbSubsidy⟩
        msgBlock := msgBlock }

/-- The data both paths build from the block information. -/
def assemble (params : ChainParams) (info : BlockInfo measures) (numConn : Int)
    (stakeDiff : StakeDifficulty) (estStakeDiff : EstimateStakeDiff) : BlockData measures where
  header := info.header
  connections := Int32.ofInt numConn
  feeInfo := info.feeInfo
  currentStakeDiff := stakeDiff
  estStakeDiff := estStakeDiff
  poolInfo := info.basic.poolInfo
  extraInfo := info.extra
  priceWindowNum := (priceWindow params info.basic.height.toNat).1
  idxBlockInWindow := (priceWindow params info.basic.height.toNat).2

/-- `CollectHash`: the data of the block with a hash. A failed connection count is
the error it returns. -/
def collectHash (hcd : Hcd) (params : ChainParams) (measures : Measures) (answers : Answers)
    (hash : Hash) : Except String (BlockData measures × MsgBlock) :=
  match collectBlockInfo hcd measures answers hash with
  | .error err => .error err
  | .ok info =>
    match answers.getConnectionCount with
    | .error err => .error err
    | .ok numConn =>
      .ok (assemble params info numConn ⟨info.basic.stakeDiff, 0⟩ ⟨0, 0, 0, none⟩, info.msgBlock)

/-- `Collect`: the data of the block that is best when the node is asked. The
error of that question is not looked at; a nil hash is then refused by the node
as the next block to get, or dereferenced. -/
def collect (hcd : Hcd) (params : ChainParams) (measures : Measures) (answers : Answers) :
    Outcome (Except String (BlockData measures × MsgBlock)) :=
  match answers.getBestBlockHash with
  | none => .returned (.error "Timeout")
  | some bestBlockHash =>
    match answers.getStakeDifficulty with
    | .error err => .returned (.error err)
    | .ok stakeDiff =>
      let estStakeDiff := answers.estimateStakeDiff.toOption.getD ⟨0, 0, 0, none⟩
      match bestBlockHash with
      | .error _ =>
        match answers.collectGetBlock 0 with
        | .error err => .returned (.error err)
        | .ok _ => .panicked
      | .ok hash =>
        match collectBlockInfo hcd measures answers hash with
        | .error err => .returned (.error err)
        | .ok info =>
          match answers.getConnectionCount with
          | .error err => .returned (.error err)
          | .ok numConn =>
            .returned (.ok (assemble params info numConn stakeDiff estStakeDiff, info.msgBlock))

/-- The block data savers of the program, the ones that `main.go` puts in its two lists. -/
inductive Saver where
  | chainDB
  | sqliteDB
  | webUI
  | explore
deriving DecidableEq, Repr

/-- The savers of a connected block, in the order of `mainCore`. -/
def dataSavers : List Saver := [.chainDB, .sqliteDB, .webUI, .explore]

/-- The savers of the last block of a reorganization. -/
def reorgDataSavers : List Saver := [.webUI, .explore]

/-- One call of a saver's `Store`, with the data of a block and the block. -/
structure StoreCall (measures : Measures) where
  saver : Saver
  blockData : BlockData measures
  msgBlock : MsgBlock

/-- The reorganization state of `blockdata.chainMonitor`, which its two handlers share. -/
structure ChainMonitor where
  sideChain : List Hash
  reorganizing : Bool
  reorgData : Option ReorgData
deriving DecidableEq, Repr

/-- The second half of `BlockConnectedHandler`: the data of the block are collected, and the
savers are called one after another. -/
def collectAndStore (hcd : Hcd) (params : ChainParams) (measures : Measures) (answers : Answers)
    (savers : List Saver) (hash : Hash) : Outcome (List (StoreCall measures)) :=
  match answers.getBlock hash with
  -- the error is not looked at, and the nil block is dereferenced
  | .error _ => .panicked
  | .ok msgBlock =>
    match answers.getBlockCount with
    | .error _ => .returned []
    | .ok chainHeight =>
      (if chainHeight ≠ msgBlock.height then .returned (collectHash hcd params measures answers hash)
        else collect hcd params measures answers).bind fun
        | .error _ => .returned []
        | .ok (blockData, _) => .returned (savers.map fun s => ⟨s, blockData, msgBlock⟩)

/-- `BlockConnectedHandler` on one block, with the calls of `Store` it makes.
Blocks of a side chain are only buffered, until the new tip is reached. -/
def ChainMonitor.blockConnected (hcd : Hcd) (params : ChainParams) (measures : Measures)
    (answers : Answers) (hash : Hash) (p : ChainMonitor) :
    Outcome (ChainMonitor × List (StoreCall measures)) :=
  if p.reorganizing then
    match p.reorgData with
    | none => .panicked
    | some reorgData =>
      if reorgData.newChainHead ≠ hash then
        .returned ({ p with sideChain := p.sideChain ++ [hash] }, [])
      else
        (collectAndStore hcd params measures answers reorgDataSavers hash).bind fun calls =>
          .returned ({ p with sideChain := [], reorganizing := false }, calls)
  else
    (collectAndStore hcd params measures answers dataSavers hash).bind fun calls =>
      .returned (p, calls)

/-- `ReorgHandler` on one reorganization, which it refuses while another one is under way. -/
def ChainMonitor.reorganization (data : ReorgData) (p : ChainMonitor) : ChainMonitor :=
  if p.reorganizing then p else { p with reorganizing := true, reorgData := some data }

end Hcexplorer.Collection

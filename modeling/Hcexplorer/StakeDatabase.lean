import Mathlib.Data.Rat.Defs
import Mathlib.Logic.Function.Basic
import Hcexplorer.Wire
import Hcexplorer.Library.Outcome

/-!
# The stake database

`stakedb.StakeDatabase`: the best stake node, its persisted state, a cache of
connected blocks by height, the values of live tickets and the pool information
of every connected block. The methods below are those of `stakedb/stakedb.go`,
with the effects of every early return: which fields were already written, and
whether `nodeMtx` was given back.

hcd's stake node and its database are not part of this repository. `StakeApi`
carries them as a parameter, and `Environment` carries what one call is answered
by the node's RPC server and by the database, failures included. `nodeMtx` is
recorded by whether some call returned while still holding it: no later call can
then acquire it.

Amounts are `int64` numbers of atoms, and adding them wraps around as it does there.
-/

namespace Hcexplorer

/-- The parameters of the chain that the explorer reads. -/
structure ChainParams where
  ticketMaturity : UInt16
  stakeDiffWindowSize : Int64
deriving DecidableEq, Repr

/-- `TicketsInBlock`, the hashes of the ticket purchases in the stake tree. -/
def ticketsInBlock (hcd : Hcd) (block : MsgBlock) : List Hash :=
  (block.sTransactions.filter fun stx => hcd.determineTxType stx == .sstx).map hcd.txHash

/-- `TicketsSpentInBlock`: the ticket each vote spends, its second input. An
absent input is an index out of range. -/
def ticketsSpentInBlock (hcd : Hcd) (block : MsgBlock) : Option (List Hash) :=
  (block.sTransactions.filter fun stx => hcd.determineTxType stx == .ssgen).mapM
    fun stx => stx.txIn[1]?.map (·.previousOutPoint.hash)

/-- `RevokedTicketsInBlock`: the ticket each revocation spends, its first input. -/
def revokedTicketsInBlock (hcd : Hcd) (block : MsgBlock) : Option (List Hash) :=
  (block.sTransactions.filter fun stx => hcd.determineTxType stx == .ssrtx).mapM
    fun stx => stx.txIn[0]?.map (·.previousOutPoint.hash)

/-- The RPC calls of `hcrpcclient.Client` that the stake database makes. -/
structure NodeClient where
  getBlockHash : Int → Except String Hash
  getBlock : Hash → Except String MsgBlock
  getBlockHeader : Hash → Except String BlockHeader
  getRawTransaction : Hash → Except String MsgTx

/-- `rpcutils.GetBlock`: the block of the node's main chain at a height. -/
def NodeClient.getBlockAt (client : NodeClient) (ind : Int) : Except String (MsgBlock × Hash) :=
  match client.getBlockHash ind with
  | .error err => .error s!"GetBlockHash({ind}) failed: {err}"
  | .ok blockhash =>
    match client.getBlock blockhash with
    | .error err => .error s!"GetBlock failed: {err}"
    | .ok block => .ok (block, blockhash)

/-- hcd's `stake.Node` and the stake bucket of its database, as far as they are called here.
`chainState` reads the key `stakechainstate`. -/
structure StakeApi where
  Node : Type
  Store : Type
  Undo : Type
  height : Node → Nat
  poolSize : Node → Nat
  liveTickets : Node → List Hash
  undoData : Node → Undo
  connectNode : Node → BlockHeader → List Hash → List Hash → List Hash → Except String Node
  disconnectNode : Node → BlockHeader → Store → Except String Node
  chainState : Store → Option (Hash × Nat)
  writeConnectedBestNode : Store → Node → Hash → Store
  writeDisconnectedBestNode : Store → Node → Hash → Undo → Store

/-- What hcd documents of a stake node: connecting a block yields a node one
height higher or an error, disconnecting one a node one height lower or an error. -/
structure StakeApi.Documented (api : StakeApi) : Prop where
  connect_height : ∀ node header spent revoked maturing after,
    api.connectNode node header spent revoked maturing = .ok after →
      api.height after = api.height node + 1
  disconnect_height : ∀ node header store before,
    api.disconnectNode node header store = .ok before → api.height before + 1 = api.height node

/-- The answers to one call: the node's, and the failures of its database
transactions, whether in their body or in their commit. `stateErr` and `viewErr`
are those of the two read transactions, `updateErr` that of the write. -/
structure Environment where
  client : NodeClient
  stateErr : Option String
  viewErr : Option String
  updateErr : Option String

/-- The errors the methods return, by where they come from. -/
inductive StakeError where
  | rpc (reason : String)
  | database (reason : String)
  | stakeNode (reason : String)
  | cannotConnect (height best : Int)
deriving DecidableEq, Repr

/-- The text of an error, as the source writes it. -/
def StakeError.text : StakeError → String
  | .rpc reason => reason
  | .database reason => reason
  | .stakeNode reason => reason
  | .cannotConnect height best => s!"cannot connect block height {height} at height {best}"

/-- `apitypes.TicketPoolInfo`: size, value and average of the ticket pool, the value in atoms. -/
structure TicketPoolInfo where
  size : UInt32
  value : Int64
  valAvg : Rat
deriving DecidableEq

/-- `stakedb.StakeDatabase`. A nil `BestNode` is `none`; `nodeMtx` is true once
a call has returned without unlocking it. -/
structure StakeDatabase (api : StakeApi) where
  nodeMtx : Bool
  stakeDB : api.Store
  bestNode : Option api.Node
  blockCache : Int → Option MsgBlock
  liveTicketCache : Hash → Option Int64
  poolInfo : Hash → Option TicketPoolInfo

namespace StakeDatabase

variable {api : StakeApi}

/-- `block`: the cached block at a height, else the one the node returns for it;
the second component says that it was cached. -/
def block (client : NodeClient) (ind : Int) (db : StakeDatabase api) : Option MsgBlock × Bool :=
  match db.blockCache ind with
  | some cached => (some cached, true)
  | none =>
    match client.getBlockAt ind with
    | .error _ => (none, false)
    | .ok (fetched, _) => (some fetched, false)

/-- `ForgetBlock`, which takes a height out of the block cache. -/
def forgetBlock (ind : Int) (db : StakeDatabase api) : StakeDatabase api :=
  { db with blockCache := Function.update db.blockCache ind none }

/-- The write of `ConnectBlock` to the block cache, at the block's height. -/
def cacheBlock (block : MsgBlock) (db : StakeDatabase api) : StakeDatabase api :=
  { db with blockCache := Function.update db.blockCache block.height (some block) }

/-- The loop of `PoolInfoBest`: a failed look-up skips its ticket. A transaction
without outputs is an index out of range. -/
def poolValue (client : NodeClient) :
    List Hash → Int64 → (Hash → Option Int64) → Option (Int64 × (Hash → Option Int64))
  | [], value, cache => some (value, cache)
  | hash :: rest, value, cache =>
    match cache hash with
    | some val => poolValue client rest (value + val) cache
    | none =>
      match client.getRawTransaction hash with
      | .error _ => poolValue client rest value cache
      | .ok tx =>
        match tx.txOut with
        | [] => none
        | out :: _ =>
          poolValue client rest (value + out.value) (Function.update cache hash (some out.value))

/-- `PoolInfoBest` at a node, with the live-ticket cache it leaves. -/
def poolInfoBest (hcd : Hcd) (client : NodeClient) (node : api.Node) (db : StakeDatabase api) :
    Option (TicketPoolInfo × Nat × StakeDatabase api) :=
  match poolValue client (api.liveTickets node) 0 db.liveTicketCache with
  | none => none
  | some (value, cache) =>
    let valAvg := if 0 < (api.liveTickets node).length
      then hcd.toCoin value / (api.poolSize node : Rat) else 0
    some (⟨UInt32.ofNat (api.poolSize node), value, valAvg⟩, api.height node,
      { db with liveTicketCache := cache })

/-- `cleanLiveTicketCache`, deferred by `connectBlock`: tickets that were spent or revoked leave
the cache. -/
def cleanLiveTicketCache (spent revoked : List Hash) (db : StakeDatabase api) :
    StakeDatabase api :=
  { db with liveTicketCache := fun hash =>
      if hash ∈ spent ∨ hash ∈ revoked then none else db.liveTicketCache hash }

/-- The tickets `ConnectBlock` takes from the block `TicketMaturity` below, and
the cache without that block if it was in it. `none` is the nil block that
`TicketsInBlock` dereferences when neither the cache nor the node has one. -/
def maturingTickets (hcd : Hcd) (params : ChainParams) (client : NodeClient) (height : Int)
    (db : StakeDatabase api) : Option (List Hash × StakeDatabase api) :=
  let maturingHeight := height - params.ticketMaturity.toNat
  if 0 ≤ maturingHeight then
    match db.block client maturingHeight with
    | (none, _) => none
    | (some maturingBlock, true) =>
      some (ticketsInBlock hcd maturingBlock, db.forgetBlock maturingHeight)
    | (some maturingBlock, false) => some (ticketsInBlock hcd maturingBlock, db)
  else some ([], db)

/-- `connectBlock`, the unexported method, from a node it has locked. Its two
error returns leave `nodeMtx` locked, and a failed `ConnectNode` has already
overwritten the best node by the nil it returns. -/
def unexportedConnectBlock (hcd : Hcd) (env : Environment) (block : MsgBlock)
    (spent revoked maturing : List Hash) (node : api.Node) (db : StakeDatabase api) :
    Outcome (StakeDatabase api × Option StakeError) :=
  match api.connectNode node block.header spent revoked maturing with
  | .error err =>
    .returned (({ db with bestNode := none, nodeMtx := true } : StakeDatabase api).cleanLiveTicketCache
      spent revoked, some (.stakeNode err))
  | .ok connected =>
    match env.updateErr with
    | some err =>
      .returned (({ db with bestNode := some connected, nodeMtx := true } :
        StakeDatabase api).cleanLiveTicketCache spent revoked, some (.database err))
    | none =>
      let db : StakeDatabase api :=
        { db with
          bestNode := some connected
          stakeDB := api.writeConnectedBestNode db.stakeDB connected (hcd.hashOf block) }
      match db.poolInfoBest hcd env.client connected with
      | none => .panicked
      | some (tpi, _, db) =>
        .returned (({ db with poolInfo := Function.update db.poolInfo (hcd.hashOf block) (some tpi) } :
          StakeDatabase api).cleanLiveTicketCache spent revoked, none)

/-- `ConnectBlock`. The block is cached before its height is compared with that
of the best node. -/
def connectBlock (hcd : Hcd) (params : ChainParams) (env : Environment) (block : MsgBlock)
    (db : StakeDatabase api) : Outcome (StakeDatabase api × Option StakeError) :=
  match db.maturingTickets hcd params env.client block.height with
  | none => .panicked
  | some (maturing, db) =>
    let db := db.cacheBlock block
    match revokedTicketsInBlock hcd block, ticketsSpentInBlock hcd block with
    | some revoked, some spent =>
      if db.nodeMtx then .blocked
      else
        match db.bestNode with
        | none => .panicked
        | some node =>
          if block.height ≤ api.height node then
            .returned (db, some (.cannotConnect block.height (api.height node)))
          else db.unexportedConnectBlock hcd env block spent revoked maturing node
    | _, _ => .panicked

/-- `ConnectBlockHash`, which gets the block from the node and connects it. -/
def connectBlockHash (hcd : Hcd) (params : ChainParams) (env : Environment) (hash : Hash)
    (db : StakeDatabase api) : Outcome (StakeDatabase api × Except StakeError MsgBlock) :=
  match env.client.getBlock hash with
  | .error err => .returned (db, .error (.rpc err))
  | .ok block =>
    (db.connectBlock hcd params env block).bind fun (db, err) =>
      .returned (db, match err with
        | some err => .error err
        | none => .ok block)

/-- `dbState`, the height and hash that the stake bucket has for its best node. -/
def dbState (env : Environment) (db : StakeDatabase api) : Except StakeError (Nat × Hash) :=
  match env.stateErr with
  | some err => .error (.database err)
  | none =>
    match api.chainState db.stakeDB with
    | none => .error (.database "missing key for chain state data")
    | some (hash, height) => .ok (height, hash)

/-- `DBTipBlockHeader`: the header of the persisted best block, from the node. -/
def dbTipBlockHeader (env : Environment) (db : StakeDatabase api) :
    Outcome (Except StakeError BlockHeader) :=
  if db.nodeMtx then .blocked
  else
    match db.dbState env with
    | .error err => .returned (.error err)
    | .ok (_, hash) =>
      match env.client.getBlockHeader hash with
      | .error err => .returned (.error (.rpc err))
      | .ok header => .returned (.ok header)

/-- `dbPrevBlock`: the parent of the persisted best block, from the node. -/
def dbPrevBlock (env : Environment) (db : StakeDatabase api) : Except StakeError MsgBlock :=
  match db.dbState env with
  | .error err => .error err
  | .ok (_, hash) =>
    match env.client.getBlockHeader hash with
    | .error err => .error (.rpc err)
    | .ok parentHeader =>
      match env.client.getBlock parentHeader.prevBlock with
      | .error err => .error (.rpc err)
      | .ok parentBlock => .ok parentBlock

/-- `disconnectBlock`, the unexported method, at a node its caller has locked.
The best node is replaced before the database is written. -/
def unexportedDisconnectBlock (hcd : Hcd) (env : Environment) (db : StakeDatabase api) :
    Outcome (StakeDatabase api × Option StakeError) :=
  match db.bestNode with
  | none => .panicked
  | some child =>
    match db.dbPrevBlock env with
    | .error err => .returned (db, some err)
    | .ok parentBlock =>
      -- "BestNode and stake DB are inconsistent"
      if parentBlock.height ≠ (api.height child : Int) - 1 then .panicked
      else
        let childUndoData := api.undoData child
        match env.viewErr with
        | some err => .returned (db, some (.database err))
        | none =>
          match api.disconnectNode child parentBlock.header db.stakeDB with
          | .error err => .returned (db, some (.stakeNode err))
          | .ok parentStakeNode =>
            let db := { db with bestNode := some parentStakeNode }
            match env.updateErr with
            | some err => .returned (db, some (.database err))
            | none =>
              let stakeDB := api.writeDisconnectedBestNode db.stakeDB parentStakeNode
                (hcd.hashOf parentBlock) childUndoData
              .returned ({ db with stakeDB := stakeDB }, none)

/-- `DisconnectBlock`, which takes the lock and disconnects the best block. -/
def disconnectBlock (hcd : Hcd) (env : Environment) (db : StakeDatabase api) :
    Outcome (StakeDatabase api × Option StakeError) :=
  if db.nodeMtx then .blocked else db.unexportedDisconnectBlock hcd env

/-- The loop of `DisconnectBlocks`, with the number of blocks it disconnected. -/
def disconnectLoop (hcd : Hcd) (envs : Nat → Environment) :
    Nat → Nat → StakeDatabase api → Outcome (StakeDatabase api × Option StakeError × Nat)
  | 0, done, db => .returned (db, none, done)
  | remaining + 1, done, db =>
    match db.unexportedDisconnectBlock hcd (envs done) with
    | .blocked => .blocked
    | .panicked => .panicked
    | .returned (db, some err) => .returned (db, some err, done)
    | .returned (db, none) => disconnectLoop hcd envs remaining (done + 1) db

/-- `DisconnectBlocks`, which takes the lock once for all rounds; the third result counts the
completed iterations. -/
def disconnectBlocks (hcd : Hcd) (envs : Nat → Environment) (count : Int)
    (db : StakeDatabase api) : Outcome (StakeDatabase api × Option StakeError × Nat) :=
  if db.nodeMtx then .blocked else disconnectLoop hcd envs count.toNat 0 db

/-- `Height`: zero, with a log entry, before the database is opened. -/
def height (db : StakeDatabase api) : Outcome Nat :=
  match db.bestNode with
  | none => .returned 0
  | some node => if db.nodeMtx then .blocked else .returned (api.height node)

end StakeDatabase

end Hcexplorer

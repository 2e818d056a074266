import Hcexplorer.StakeChain

/-!
# The stake database's chain monitor

The part of the explorer between the node's notifications and the stake database:
the notification handlers of `ntfnhandlers.go`, the block queue and the
reorganization channel they fill, and the two goroutines of
`stakedb/chainmonitor.go` that empty them. A state holds both sides of each
channel; a step is one action of the node, of a notification handler or of a
goroutine between two of its synchronization points.

`ReorgHandler` takes a reorganization from its channel in one step and acts on it,
under the lock, in another. `BlockConnectedHandler` takes a block and reads the
flag in one step, works on the database in the next, and after a reorganization
clears the flag in a third. Blocks reach it through `ProcessBlocks`, which waits
for each to be finished, so it has at most one at hand.

The node sends a reorganization before the blocks of the new chain. The queue of
ten million blocks is not modelled as bounded; the channel of reorganizations is,
and a notification that finds it full is dropped. `outstanding` is a history
variable: the notifications that a handler delivered and no goroutine has taken
yet, in the node's order.
-/

namespace Hcexplorer

open LinkedChain

variable {api : StakeApi}

/-- `stakedb.ReorgData`, the heads of the old and the new chain with their heights. -/
structure ReorgData where
  oldChainHead : Hash
  oldChainHeight : Int32
  newChainHead : Hash
  newChainHeight : Int32
deriving DecidableEq, Repr

namespace Session

/-- `ConnectBlockHash` on a session, which keeps the chain of connected blocks beside the
database. -/
def connectBlockHash (hcd : Hcd) (params : ChainParams) (env : Environment) (hash : Hash)
    (session : Session api) : Outcome (Session api × Except StakeError MsgBlock) :=
  (session.db.connectBlockHash hcd params env hash).bind fun (db, result) =>
    .returned (⟨db, match result with
      | .ok block => session.connected ++ [block]
      | .error _ => session.connected⟩, result)

/-- `DisconnectBlocks` on a session, which takes as many blocks off the chain as iterations were
completed. -/
def disconnectBlocks (hcd : Hcd) (envs : Nat → Environment) (count : Int)
    (session : Session api) : Outcome (Session api × Option StakeError) :=
  (session.db.disconnectBlocks hcd envs count).bind fun (db, err, done) =>
    .returned (⟨db, session.connected.take (session.connected.length - done)⟩, err)

end Session

/-- The errors of `switchToSideChain`, in the order of its checks. -/
inductive SwitchError where
  | noSideChain
  | noRoot
  | noCommonAncestor
  | disconnect (err : StakeError)
  | connect (hash : Hash)
deriving DecidableEq, Repr

/-- What the calls of one `switchToSideChain` are answered by: the block at the
root of the side chain, its parent, each disconnection and each connection. -/
structure SwitchAnswers where
  root : NodeClient
  ancestor : NodeClient
  disconnects : Nat → Environment
  connects : Nat → Environment

/-- `stakedb.ChainMonitor`: its database, the buffer of side-chain blocks and the
two fields that `reorgLock` protects. -/
structure ChainMonitor (api : StakeApi) where
  db : Session api
  sideChain : List Hash
  reorganizing : Bool
  reorgData : Option ReorgData

namespace ChainMonitor

/-- The last loop of `switchToSideChain`, with the last block it connected. When
a connection fails the tip is read for the message first: for ever if the failed
call kept the lock, and with a nil header if the read fails. -/
def connectSideChain (hcd : Hcd) (params : ChainParams) (envs : Nat → Environment) :
    Nat → MsgBlock → List Hash → Session api →
      Outcome (Session api × Except SwitchError MsgBlock)
  | _, block, [], db => .returned (db, .ok block)
  | i, _, hash :: rest, db =>
    (db.connectBlockHash hcd params (envs i) hash).bind fun
      | (db, .ok block) => connectSideChain hcd params envs (i + 1) block rest db
      | (db, .error _) => db.db.height.bind fun _ =>
        (db.db.dbTipBlockHeader (envs i)).bind fun
          | .error _ => .panicked
          | .ok _ => .returned (db, .error (.connect hash))

/-- `switchToSideChain`: back to the ancestor of the side chain, and then its blocks one by one. -/
def switchToSideChain (hcd : Hcd) (params : ChainParams) (answers : SwitchAnswers)
    (sideChain : List Hash) (db : Session api) :
    Outcome (Session api × Except SwitchError (Int32 × Hash)) :=
  match sideChain with
  | [] => .returned (db, .error .noSideChain)
  | rootHash :: _ =>
    match answers.root.getBlock rootHash with
    | .error _ => .returned (db, .error .noRoot)
    | .ok block =>
      match answers.ancestor.getBlock block.header.prevBlock with
      | .error _ => .returned (db, .error .noCommonAncestor)
      | .ok prevBlock =>
        let commonAncestorHeight := block.height - 1
        -- "Failed to determine common ancestor."
        if prevBlock.height ≠ commonAncestorHeight then .panicked
        else
          db.db.height.bind fun mainTip =>
            (db.disconnectBlocks hcd answers.disconnects (mainTip - commonAncestorHeight)).bind fun
              | (db, some err) => .returned (db, .error (.disconnect err))
              | (db, none) => db.db.height.bind fun mainTip =>
                -- "disconnect blocks failed"
                if (mainTip : Int) ≠ commonAncestorHeight then .panicked
                else
                  (connectSideChain hcd params answers.connects 0 block sideChain db).bind fun
                    | (db, .error err) => .returned (db, .error err)
                    | (db, .ok block) => db.db.height.bind fun mainTip =>
                      -- "connected block height not db tip height"
                      if (mainTip : Int) ≠ block.height then .panicked
                      else .returned (db, .ok (Int32.ofInt mainTip, hcd.hashOf block))

end ChainMonitor

/-- A notification of the node, as the handlers use it. -/
inductive Notification where
  | blockConnected (hash : Hash)
  | reorganization (data : ReorgData)
deriving DecidableEq, Repr

/-- Whether a notification is one of a connected block. -/
def Notification.isBlock : Notification → Bool
  | .blockConnected _ => true
  | .reorganization _ => false

/-- Where `BlockConnectedHandler` stands with the block at hand: the flag and the
data are read, or the side chain is connected and the flag not yet cleared. -/
inductive Handling where
  | started (hash : Hash) (reorg : Bool) (reorgData : Option ReorgData)
  | switched

/-- The node, the channels and the goroutines of the monitor. -/
structure Follower (api : StakeApi) where
  main : List MsgBlock
  known : List MsgBlock
  outgoing : List Notification
  queue : List Hash
  reorgChan : List ReorgData
  outstanding : List Notification
  received : Option ReorgData
  handling : Option Handling
  monitor : ChainMonitor api

/-- One action of the node or of one of the goroutines. -/
inductive Action where
  | extend (block : MsgBlock)
  | reorganize (fork : Nat) (side : List MsgBlock)
  | deliver
  | receiveReorg
  | applyReorg
  | beginBlock
  | handleBlock (env : Environment) (answers : SwitchAnswers)
  | finishReorg

/-- The buffer size of the reorganization channels, two messages. -/
def reorgBuffer : Nat := 2

namespace Follower

/-- What the node sends of a reorganization from one tip to another. -/
def reorgNotification (hcd : Hcd) (oldTip newTip : MsgBlock) : Notification :=
  .reorganization ⟨hcd.hashOf oldTip, Int32.ofInt oldTip.height,
    hcd.hashOf newTip, Int32.ofInt newTip.height⟩

/-- The node's main chain grows by a child of its tip. -/
def extend (hcd : Hcd) (block : MsgBlock) (follower : Follower api) : Option (Follower api) :=
  match follower.main.getLast? with
  | none => none
  | some tip =>
    if block.header.prevBlock = hcd.hashOf tip ∧ block.height = tip.height + 1 then
      some { follower with
        main := follower.main ++ [block]
        known := follower.known ++ [block]
        outgoing := follower.outgoing ++ [.blockConnected (hcd.hashOf block)] }
    else none

/-- Every block of a list is the child of the one before it. -/
def isLinked (hcd : Hcd) : MsgBlock → List MsgBlock → Bool
  | _, [] => true
  | before, block :: rest =>
    block.header.prevBlock = hcd.hashOf before && block.height = before.height + 1 &&
      isLinked hcd block rest

/-- The node replaces the blocks above the one at height `fork`, of which there
are some, by a side chain. -/
def reorganize (hcd : Hcd) (fork : Nat) (side : List MsgBlock) (follower : Follower api) :
    Option (Follower api) :=
  match follower.main[fork]?, follower.main.getLast?, side.getLast? with
  | some ancestor, some oldTip, some newTip =>
    if fork + 1 < follower.main.length ∧ isLinked hcd ancestor side then
      some { follower with
        main := follower.main.take (fork + 1) ++ side
        known := follower.known ++ side
        outgoing := follower.outgoing ++ reorgNotification hcd oldTip newTip ::
          side.map fun block => .blockConnected (hcd.hashOf block) }
    else none
  | _, _, _ => none

/-- `OnBlockConnected` and `OnReorganization`, which exclude each other: the next
notification is queued, or sent to the reorganization channel if that is not full. -/
def deliver (follower : Follower api) : Option (Follower api) :=
  match follower.outgoing with
  | [] => none
  | .blockConnected hash :: rest =>
    some { follower with
      outgoing := rest
      queue := follower.queue ++ [hash]
      outstanding := follower.outstanding ++ [.blockConnected hash] }
  | .reorganization data :: rest =>
    if follower.reorgChan.length < reorgBuffer then
      some { follower with
        outgoing := rest
        reorgChan := follower.reorgChan ++ [data]
        outstanding := follower.outstanding ++ [.reorganization data] }
    else some { follower with outgoing := rest }

/-- `ReorgHandler` receives, and waits for the lock with what it received. -/
def receiveReorg (follower : Follower api) : Option (Follower api) :=
  match follower.received, follower.reorgChan with
  | none, data :: rest => some { follower with received := some data, reorgChan := rest }
  | _, _ => none

/-- `ReorgHandler` under the lock: a reorganization in progress is not replaced. -/
def applyReorg (follower : Follower api) : Option (Follower api) :=
  match follower.received with
  | none => none
  | some data =>
    let outstanding := follower.outstanding.eraseP (!·.isBlock)
    if follower.monitor.reorganizing then
      some { follower with received := none, outstanding := outstanding }
    else
      some { follower with
        received := none
        outstanding := outstanding
        monitor := { follower.monitor with reorganizing := true, reorgData := some data } }

/-- `ProcessBlocks` hands the next block over and `BlockConnectedHandler` reads
the flag and the data under the lock. -/
def beginBlock (follower : Follower api) : Option (Follower api) :=
  match follower.handling, follower.queue with
  | none, hash :: rest =>
    some { follower with
      queue := rest
      outstanding := follower.outstanding.eraseP (·.isBlock)
      handling := some (.started hash follower.monitor.reorganizing follower.monitor.reorgData) }
  | _, _ => none

/-- `BlockConnectedHandler` works on the block at hand; a panic ends the process. -/
def handleBlock (hcd : Hcd) (params : ChainParams) (env : Environment) (answers : SwitchAnswers)
    (follower : Follower api) : Option (Follower api) :=
  match follower.handling with
  | some (.started hash true (some reorgData)) =>
    let sideChain := follower.monitor.sideChain ++ [hash]
    if reorgData.newChainHead ≠ hash then
      some { follower with
        handling := none
        monitor := { follower.monitor with sideChain := sideChain } }
    else
      match ChainMonitor.switchToSideChain hcd params answers sideChain follower.monitor.db,
          follower.monitor.reorgData with
      | .returned (db, .ok (newHeight, newHash)), some reorgData =>
        if reorgData.newChainHead ≠ newHash ∨ reorgData.newChainHeight ≠ newHeight then none
        else
          some { follower with
            handling := some .switched
            monitor := { follower.monitor with sideChain := sideChain, db := db } }
      | _, _ => none
  | some (.started hash false _) =>
    match follower.monitor.db.connectBlockHash hcd params env hash with
    | .returned (db, _) =>
      some { follower with handling := none, monitor := { follower.monitor with db := db } }
    | _ => none
  | _ => none

/-- `BlockConnectedHandler` ends a reorganization, once the side chain is connected. -/
def finishReorg (follower : Follower api) : Option (Follower api) :=
  match follower.handling with
  | some .switched =>
    some { follower with
      handling := none
      monitor := { follower.monitor with sideChain := [], reorganizing := false } }
  | _ => none

/-- One step of the system; none where the action cannot happen, panics or waits
for ever. -/
def step (hcd : Hcd) (params : ChainParams) (follower : Follower api) :
    Action → Option (Follower api)
  | .extend block => follower.extend hcd block
  | .reorganize fork side => follower.reorganize hcd fork side
  | .deliver => follower.deliver
  | .receiveReorg => follower.receiveReorg
  | .applyReorg => follower.applyReorg
  | .beginBlock => follower.beginBlock
  | .handleBlock env answers => follower.handleBlock hcd params env answers
  | .finishReorg => follower.finishReorg

/-- Every notification has been handled, so that nothing is under way. -/
def quiescent (follower : Follower api) : Prop :=
  follower.outgoing = [] ∧ follower.queue = [] ∧ follower.reorgChan = [] ∧
    follower.received = none ∧ follower.handling.isNone

end Follower

end Hcexplorer

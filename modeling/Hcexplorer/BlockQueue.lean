import Hcexplorer.Library.Goroutines
import Hcexplorer.StakeMonitor

/-!
# The block queue and the goroutines of the three monitors

The code that passes a connected block from the queue of `ntfnhandlers.go` to the
chain monitors of the stake database, of blockdata and of hcsqlite, one goroutine
after another: `ProcessBlocks`, which calls the `BlockConnectedSync` of each in
order, the three `BlockConnectedHandler`s, and the three `ReorgHandler`s. The
order of the monitors and the buffers are those of `main.go` and `ntfnchans.go`.

What a handler does with a block is a sequence of actions. Those on the fields
that `reorgLock` protects are modelled, each as one action, for the lock is held
only for them. The others, on the node, the databases and the savers, are the
handler's own work: `works` says what they may return. The channels are closed and
`quit` is signalled at shutdown only, which is not modelled.
-/

namespace Hcexplorer.BlockQueue

open Goroutines

/-- The chain monitors that have synchronous handlers, in the order in which these are called. -/
inductive Monitor where
  | stakedb
  | blockdata
  | hcsqlite
deriving DecidableEq, Repr

/-- `blockHashHeight`, what the notification handler queues for a connected block. -/
structure BlockHashHeight where
  hash : Hash
  height : Int64
deriving DecidableEq, Repr

/-- The queue `q.q`, the channels of `ntfnChans` that `ProcessBlocks` signals on,
and those of each monitor. -/
inductive Channel where
  | queue
  | newTxChan
  | updateStatusNodeHeight
  | connectingLock (monitor : Monitor)
  | blockChan (monitor : Monitor)
  | doneConnecting (monitor : Monitor)
  | reorgChan (monitor : Monitor)
deriving DecidableEq, Repr

/-- What is sent on a channel. A new transaction is sent by its hash, or with no hash
for a mined block. -/
def Channel.Value : Channel → Type
  | .queue => BlockHashHeight
  | .newTxChan => Option Hash
  | .updateStatusNodeHeight => UInt32
  | .connectingLock _ => Unit
  | .blockChan _ => Hash
  | .doneConnecting _ => Unit
  | .reorgChan _ => ReorgData

/-- The buffers. `newTxChan` is made only if the mempool is monitored, and a send on a
channel that was not made is never ready. -/
def Channel.capacity (monitorMempool : Bool) : Channel → Nat
  | .queue => 10000000
  | .newTxChan => if monitorMempool then 48 else 0
  | .updateStatusNodeHeight => 64
  | .connectingLock _ => 1
  | .blockChan .stakedb => 0
  | .blockChan _ => 64
  | .doneConnecting _ => 0
  | .reorgChan _ => 2

/-- The goroutines: the one of the queue, and for each monitor that of its blocks and that of its
reorganizations. -/
inductive Thread where
  | processBlocks
  | blockConnectedHandler (monitor : Monitor)
  | reorgHandler (monitor : Monitor)
deriving DecidableEq, Repr

variable {BlockData Saver : Type}

variable (BlockData Saver) in
/-- What the handlers do between two operations on a channel. -/
inductive Action where
  | readReorg (monitor : Monitor)
  | startReorg (monitor : Monitor) (data : ReorgData)
  | endReorg (monitor : Monitor)
  | appendSideChain (monitor : Monitor) (hash : Hash)
  | switchToSideChain (monitor : Monitor)
  | connectBlockHash (hash : Hash)
  | getBlock (hash : Hash)
  | blockReceivesToAddresses (hash : Hash)
  | sendRecvTxBlock (hash : Hash)
  | getBlockCount
  | collectHash (hash : Hash)
  | collect
  | store (saver : Saver) (blockData : BlockData) (hash : Hash)

/-- What they return. `getBlock` is used for the height of the block, and its error is
dropped: without a block there is none. -/
def Action.Result : Action BlockData Saver → Type
  | .readReorg _ => Bool × Option ReorgData
  | .startReorg .. => Unit
  | .endReorg _ => Unit
  | .appendSideChain .. => Unit
  | .switchToSideChain _ => Int32 × Option Hash × Option String
  | .connectBlockHash _ => Except String MsgBlock
  | .getBlock _ => Option Int
  | .blockReceivesToAddresses _ => Bool
  | .sendRecvTxBlock _ => Unit
  | .getBlockCount => Except String Int
  | .collectHash _ => Except String BlockData
  | .collect => Except String BlockData
  | .store .. => Option String

variable (BlockData Saver) in
/-- Channels, actions, and the mutex `syncConnect` of each monitor. -/
abbrev signature : Signature where
  Channel := Channel
  Value := Channel.Value
  Mutex := Monitor
  Action := Action BlockData Saver
  Result := Action.Result

/-- The fields of a monitor that `reorgLock` protects, and its side chain. -/
structure Reorganization where
  reorganizing : Bool
  reorgData : Option ReorgData
  sideChain : List Hash
deriving DecidableEq

/-- What `main.go` gives to the monitors, and what the work of the handlers may
return. -/
structure Setup (BlockData Saver : Type) where
  dataSavers : List (Option Saver)
  reorgDataSavers : List (Option Saver)
  watching : Bool
  monitorMempool : Bool
  works : (action : Action BlockData Saver) → (Monitor → Reorganization) → action.Result → Prop

/-- `BlockConnectedSync`, the same for each monitor: under its lock it hands the block over and
waits for the signal of the handler. -/
def blockConnectedSync (monitor : Monitor) (hash : Hash) : Code (signature BlockData Saver) :=
  .lock monitor <|
  .send (.connectingLock monitor) () <|
  .send (.blockChan monitor) hash <|
  .receive (.doneConnecting monitor) fun _ =>
  .unlock monitor .done

/-- The calls of the synchronous handlers one after another, each of which returns before the
next one begins. -/
def callHandlers : List Monitor → Hash → Code (signature BlockData Saver)
  | [], _ => .done
  | monitor :: rest, hash => (blockConnectedSync monitor hash).andThen (callHandlers rest hash)

/-- The two signals behind the handlers, which are dropped when their channels are full. -/
def signals (height : Int64) : Code (signature BlockData Saver) :=
  .trySend .newTxChan none <|
  .trySend .updateStatusNodeHeight height.toUInt64.toUInt32 .done

/-- The synchronous handlers in the order in which `main.go` sets them. -/
def syncHandlers : List Monitor := [.stakedb, .blockdata, .hcsqlite]

/-- One round of the loop of `ProcessBlocks`: a block is received, the handlers are called, and
the signals are sent. -/
def processBlocks : Code (signature BlockData Saver) :=
  .receive .queue fun bh => (callHandlers syncHandlers bh.hash).andThen (signals bh.height)

/-- `release`: it signals if the handler took the connecting lock over. -/
def release (monitor : Monitor) (handoff : Option Unit) (next : Code (signature BlockData Saver)) :
    Code (signature BlockData Saver) :=
  match handoff with
  | some _ => .send (.doneConnecting monitor) () next
  | none => next

/-- The check that a reorganization has got to the announced block. The announcement
cannot be another one than the handler read, since none is taken meanwhile. -/
def reached (data : Option ReorgData) (newHeight : Int32) (newHash : Option Hash) : Bool :=
  match data, newHash with
  | some data, some newHash => data.newChainHead = newHash && data.newChainHeight = newHeight
  | _, _ => false

/-- The handler of the stake database, once it has a block. -/
def stakedbConnected (hash : Hash) (handoff : Option Unit) : Code (signature BlockData Saver) :=
  .act (.readReorg .stakedb) fun reorg =>
  if reorg.1 then
    .act (.appendSideChain .stakedb hash) fun _ =>
    match reorg.2 with
    | none => .panic
    | some reorgData =>
      if reorgData.newChainHead ≠ hash then release .stakedb handoff .done
      else
        .act (.switchToSideChain .stakedb) fun switched =>
        if switched.2.2.isSome then .panic
        else if reached (some reorgData) switched.1 switched.2.1 then
          .act (.endReorg .stakedb) fun _ => release .stakedb handoff .done
        else .panic
  else
    .act (.connectBlockHash hash) fun _ => release .stakedb handoff .done

/-- The savers of blockdata, one after another. Their errors are dropped. -/
def storeAll (savers : List (Option Saver)) (blockData : BlockData) (hash : Hash)
    (next : Code (signature BlockData Saver)) : Code (signature BlockData Saver) :=
  match savers with
  | [] => next
  | some saver :: rest => .act (.store saver blockData hash) fun _ =>
      storeAll rest blockData hash next
  | none :: rest => storeAll rest blockData hash next

/-- Blockdata's handler from the collection of the data on. -/
def collectAndStore (setup : Setup BlockData Saver) (hash : Hash) (handoff : Option Unit)
    (reorg : Bool) (height : Int) : Code (signature BlockData Saver) :=
  let collected (result : Except String BlockData) : Code (signature BlockData Saver) :=
    match result with
    | .error _ => release .blockdata handoff .done
    | .ok blockData =>
      storeAll (if reorg then setup.reorgDataSavers else setup.dataSavers) blockData hash
        (release .blockdata handoff .done)
  .act .getBlockCount fun
  | .error _ => release .blockdata handoff .done
  | .ok chainHeight =>
    if chainHeight ≠ height then .act (.collectHash hash) collected
    else .act .collect collected

/-- Blockdata's handler from the request for the block on. -/
def collectBlock (setup : Setup BlockData Saver) (hash : Hash) (handoff : Option Unit)
    (reorg : Bool) : Code (signature BlockData Saver) :=
  .act (.getBlock hash) fun
  | none => .panic
  | some height =>
    if setup.watching then
      .act (.blockReceivesToAddresses hash) fun (found : Bool) =>
      if found then
        .act (.sendRecvTxBlock hash) fun _ => collectAndStore setup hash handoff reorg height
      else collectAndStore setup hash handoff reorg height
    else collectAndStore setup hash handoff reorg height

/-- The handler of blockdata, once it has a block. -/
def blockdataConnected (setup : Setup BlockData Saver) (hash : Hash) (handoff : Option Unit) :
    Code (signature BlockData Saver) :=
  .act (.readReorg .blockdata) fun reorg =>
  if reorg.1 then
    .act (.appendSideChain .blockdata hash) fun _ =>
    match reorg.2 with
    | none => .panic
    | some reorgData =>
      if reorgData.newChainHead ≠ hash then release .blockdata handoff .done
      else .act (.endReorg .blockdata) fun _ => collectBlock setup hash handoff true
  else collectBlock setup hash handoff false

/-- The handler of hcsqlite, once it has a block. An error of the switch is logged
only, and before the panic the caller is released. -/
def hcsqliteConnected (hash : Hash) (handoff : Option Unit) : Code (signature BlockData Saver) :=
  .act (.readReorg .hcsqlite) fun reorg =>
  if reorg.1 then
    .act (.appendSideChain .hcsqlite hash) fun _ =>
    match reorg.2 with
    | none => .panic
    | some reorgData =>
      if reorgData.newChainHead ≠ hash then release .hcsqlite handoff .done
      else
        .act (.switchToSideChain .hcsqlite) fun switched =>
        if reached (some reorgData) switched.1 switched.2.1 then
          .act (.endReorg .hcsqlite) fun _ => release .hcsqlite handoff .done
        else release .hcsqlite handoff .panic
  else release .hcsqlite handoff .done

/-- What each monitor does once it has a block. -/
def blockConnected (setup : Setup BlockData Saver) :
    Monitor → Hash → Option Unit → Code (signature BlockData Saver)
  | .stakedb => stakedbConnected
  | .blockdata => blockdataConnected setup
  | .hcsqlite => hcsqliteConnected

/-- One round of the loop of `BlockConnectedHandler`, from the receive of a block to the release
of the caller. -/
def blockConnectedHandler (setup : Setup BlockData Saver) (monitor : Monitor) :
    Code (signature BlockData Saver) :=
  .receive (.blockChan monitor) fun hash =>
  .tryReceive (.connectingLock monitor) fun handoff =>
  blockConnected setup monitor hash handoff

/-- One round of `ReorgHandler`, the same for each monitor. -/
def reorgHandler (monitor : Monitor) : Code (signature BlockData Saver) :=
  .receive (.reorgChan monitor) fun data =>
  .act (.startReorg monitor data) fun _ => .done

/-- What an action returns and does to the fields of the monitors. -/
def performs (setup : Setup BlockData Saver) : (action : Action BlockData Saver) →
    (Monitor → Reorganization) → action.Result → (Monitor → Reorganization) → Prop
  | .readReorg monitor, memory, result, after =>
    result = ((memory monitor).reorganizing, (memory monitor).reorgData) ∧ after = memory
  | .startReorg monitor data, memory, _, after =>
    -- a reorganization announced during another is only logged
    after = if (memory monitor).reorganizing then memory else
      Function.update memory monitor
        { memory monitor with reorganizing := true, reorgData := some data }
  | .endReorg monitor, memory, _, after =>
    after = Function.update memory monitor
      { memory monitor with reorganizing := false, sideChain := [] }
  | .appendSideChain monitor hash, memory, _, after =>
    after = Function.update memory monitor
      { memory monitor with sideChain := (memory monitor).sideChain ++ [hash] }
  | action, memory, result, after => setup.works action memory result ∧ after = memory

/-- The goroutines together. Notifications of the node fill the queue and the
channels of reorganizations, and its new transactions `newTxChan`; the mempool monitor
and the status handler empty the channels that `ProcessBlocks` signals on. -/
def system (setup : Setup BlockData Saver) :
    System (signature BlockData Saver) Thread (Monitor → Reorganization) where
  main
    | .processBlocks => processBlocks
    | .blockConnectedHandler monitor => blockConnectedHandler setup monitor
    | .reorgHandler monitor => reorgHandler monitor
  capacity := Channel.capacity setup.monitorMempool
  performs := performs setup
  inward channel := channel = .queue ∨ channel = .newTxChan ∨
    ∃ monitor, channel = .reorgChan monitor
  outward channel := channel = .newTxChan ∨ channel = .updateStatusNodeHeight

/-- The monitors as they are made, with no reorganization under way and empty side chains. -/
def noReorganization : Monitor → Reorganization := fun _ => ⟨false, none, []⟩

end Hcexplorer.BlockQueue

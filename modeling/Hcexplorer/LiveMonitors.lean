import Hcexplorer.CollectedBlocks
import Hcexplorer.Hcsqlite.SideChainSwitch
import Hcexplorer.Library.Announcements

/-!
# The two monitors that fill the SQLite database

What happens to the SQLite tables and to the savers between two notifications of the
node: the notification handlers, `ProcessBlocks`, and the goroutines of the chain
monitors of `blockdata` and of `hcsqlite`. A block goes to the handler of `blockdata`
first and to that of `hcsqlite` when the first is done with it. Outside of a
reorganization the first one stores the block; in a reorganization both only collect its
hash, until the announced tip: then the first one stores the tip for the web pages, and
the second one writes the rows of the whole side chain.

Each monitor has a channel of reorganizations and a flag of its own, raised by its
`ReorgHandler`. A step is one action of the node, of a notification handler or of a
goroutine between two of its synchronization points; a step that would panic is not
defined. The stake database, whose handler comes first, has no part in this state.

`outstanding` and `history` are history variables: the notifications that were delivered
to a monitor and not taken yet, and the changes of the node's main chain so far.
-/

namespace Hcexplorer.Live

open Collection Hcsqlite Announcements

/-- The chain monitors that a block is handed to, in order. -/
inductive MonitorName where
  | blockdata
  | hcsqlite
deriving DecidableEq, Repr

/-- A chain monitor: its channel of reorganizations, the one `ReorgHandler` has received,
and the fields of the two goroutines, which are the same in both packages. -/
structure Monitor where
  reorgChan : List ReorgData
  outstanding : List Notification
  received : Option ReorgData
  fields : Collection.ChainMonitor
deriving DecidableEq, Repr

/-- Where `ProcessBlocks` is with the block at hand, from the handler of one monitor to that of
the other. -/
inductive Round where
  /-- It waits for the next block. -/
  | waiting
  /-- The block was sent to the handler of `blockdata`. -/
  | toBlockdata (hash : Hash)
  /-- A reorganization is complete, the flag is still up. -/
  | clearing (hash : Hash)
  /-- The data of the block is to be collected for the savers. -/
  | collecting (hash : Hash) (savers : List Saver)
  /-- The block was sent to the handler of `hcsqlite`. -/
  | toHcsqlite (hash : Hash)
  /-- A side chain is complete and to be stored. -/
  | switching (hash : Hash)
  /-- The side chain is stored, the flag is still up. -/
  | switched (hash : Hash)
deriving DecidableEq, Repr

/-- The node, the queue, the monitors, the tables and the calls of `Store`. -/
structure State (hcd : Hcd) (statistics : Statistics) where
  main : List MsgBlock
  known : List MsgBlock
  history : List (Change MsgBlock)
  outgoing : List Notification
  queue : List Hash
  monitors : MonitorName → Monitor
  round : Round
  db : DB statistics.Rates
  stored : List (StoreCall (statistics.measures hcd))

/-- One action. What the node and the database answer is part of it. -/
inductive Action where
  | extend (block : MsgBlock)
  | reorganize (fork : Nat) (side : List MsgBlock)
  | deliver
  | receiveReorg (name : MonitorName)
  | applyReorg (name : MonitorName)
  | beginBlock
  | readBlockdata
  | clearBlockdata
  | collect (moments : Moments) (answers : Answers) (faults : StoreFaults)
  | readHcsqlite
  | switch (answers : Nat → Answers) (faults : Nat → StoreFaults) (heightFault rowFault : Option String)
  | clearHcsqlite

variable {hcd : Hcd} {statistics : Statistics}

namespace Monitor

/-- `OnBlockConnected` and `OnReorganization` at one monitor: a reorganization that finds
the channel full is dropped. -/
def deliver (notification : Notification) (monitor : Monitor) : Monitor :=
  match notification with
  | .blockConnected _ => { monitor with outstanding := monitor.outstanding ++ [notification] }
  | .reorganization data =>
    if monitor.reorgChan.length < reorgBuffer then
      { monitor with
        reorgChan := monitor.reorgChan ++ [data]
        outstanding := monitor.outstanding ++ [notification] }
    else monitor

/-- `ReorgHandler` receives, and waits for the lock with what it received. -/
def receiveReorg (monitor : Monitor) : Option Monitor :=
  match monitor.received, monitor.reorgChan with
  | none, data :: rest => some { monitor with received := some data, reorgChan := rest }
  | _, _ => none

/-- `ReorgHandler` under the lock, where it sets the fields of the reorganization. -/
def applyReorg (monitor : Monitor) : Option Monitor :=
  match monitor.received with
  | none => none
  | some data => some { monitor with
      received := none
      outstanding := monitor.outstanding.eraseP (!·.isBlock)
      fields := monitor.fields.reorganization data }

/-- `BlockConnectedHandler` takes a block, the oldest one that is outstanding. -/
def takeBlock (monitor : Monitor) : Monitor :=
  { monitor with outstanding := monitor.outstanding.eraseP (·.isBlock) }

/-- The block goes to the side chain that the monitor collects. -/
def appendSideChain (hash : Hash) (monitor : Monitor) : Monitor :=
  { monitor with fields := { monitor.fields with sideChain := monitor.fields.sideChain ++ [hash] } }

/-- The end of a reorganization, with no side chain and the flag down. -/
def endReorg (monitor : Monitor) : Monitor :=
  { monitor with fields := { monitor.fields with sideChain := [], reorganizing := false } }

end Monitor

namespace State

/-- Change one monitor and leave the other as it is. -/
def setMonitor (name : MonitorName) (monitor : Monitor) (state : State hcd statistics) :
    State hcd statistics :=
  { state with monitors := Function.update state.monitors name monitor }

/-- The node's main chain grows by a child of its tip. -/
def extend (block : MsgBlock) (state : State hcd statistics) : Option (State hcd statistics) :=
  match state.main.getLast? with
  | none => none
  | some tip =>
    if block.header.prevBlock = hcd.hashOf tip ∧ block.height = tip.height + 1 then
      some { state with
        main := state.main ++ [block]
        known := state.known ++ [block]
        history := state.history ++ [.extend block]
        outgoing := state.outgoing ++ [.blockConnected (hcd.hashOf block)] }
    else none

/-- The node replaces the blocks above the one at height `fork`, of which there are some,
by a side chain, which it announces before its blocks. -/
def reorganize (fork : Nat) (side : List MsgBlock) (state : State hcd statistics) :
    Option (State hcd statistics) :=
  match state.main[fork]?, state.main.getLast?, side.getLast? with
  | some ancestor, some oldTip, some newTip =>
    if fork + 1 < state.main.length ∧ Follower.isLinked hcd ancestor side then
      some { state with
        main := state.main.take (fork + 1) ++ side
        known := state.known ++ side
        history := state.history ++ [.replace fork side]
        outgoing := state.outgoing ++ Follower.reorgNotification hcd oldTip newTip ::
          side.map fun block => .blockConnected (hcd.hashOf block) }
    else none
  | _, _, _ => none

/-- The next notification is handled: a block is queued, a reorganization is sent to each
monitor. -/
def deliver (state : State hcd statistics) : Option (State hcd statistics) :=
  match state.outgoing with
  | [] => none
  | notification :: rest =>
    some { state with
      outgoing := rest
      queue := match notification with
        | .blockConnected hash => state.queue ++ [hash]
        | .reorganization _ => state.queue
      monitors := fun name => (state.monitors name).deliver notification }

/-- `ProcessBlocks` takes a block from the queue, if it is done with the one before. -/
def beginBlock (state : State hcd statistics) : Option (State hcd statistics) :=
  match state.round, state.queue with
  | .waiting, hash :: rest => some { state with queue := rest, round := .toBlockdata hash }
  | _, _ => none

/-- The handler of `blockdata` takes the block and reads the flag. -/
def readBlockdata (state : State hcd statistics) : Option (State hcd statistics) :=
  match state.round with
  | .toBlockdata hash =>
    let monitor := (state.monitors .blockdata).takeBlock
    if monitor.fields.reorganizing then
      match monitor.fields.reorgData with
      | none => none
      | some reorgData =>
        some { state.setMonitor .blockdata (monitor.appendSideChain hash) with
          round := if reorgData.newChainHead ≠ hash then .toHcsqlite hash else .clearing hash }
    else some { state.setMonitor .blockdata monitor with round := .collecting hash dataSavers }
  | _ => none

/-- The handler of `blockdata` ends a reorganization, before it collects the tip. -/
def clearBlockdata (state : State hcd statistics) : Option (State hcd statistics) :=
  match state.round with
  | .clearing hash =>
    some { state.setMonitor .blockdata (state.monitors .blockdata).endReorg with
      round := .collecting hash reorgDataSavers }
  | _ => none

/-- What the calls of `Store` do to the tables: one of the savers writes them. -/
def storeCalls (faults : StoreFaults) (calls : List (StoreCall (statistics.measures hcd)))
    (db : DB statistics.Rates) : DB statistics.Rates :=
  calls.foldl
    (fun db call => if call.saver = .sqliteDB then (db.store faults call.blockData).2 else db) db

/-- The handler of `blockdata` collects the data of the block and calls the savers. -/
def collect (params : ChainParams) (answers : Answers) (faults : StoreFaults)
    (state : State hcd statistics) : Option (State hcd statistics) :=
  match state.round with
  | .collecting hash savers =>
    match collectAndStore hcd params (statistics.measures hcd) answers savers hash with
    | .returned calls => some { state with
        round := .toHcsqlite hash
        db := storeCalls faults calls state.db
        stored := state.stored ++ calls }
    | _ => none
  | _ => none

/-- The handler of `hcsqlite` takes the block and reads the flag. Without a reorganization
there is nothing to do. -/
def readHcsqlite (state : State hcd statistics) : Option (State hcd statistics) :=
  match state.round with
  | .toHcsqlite hash =>
    let monitor := (state.monitors .hcsqlite).takeBlock
    if monitor.fields.reorganizing then
      match monitor.fields.reorgData with
      | none => none
      | some reorgData =>
        some { state.setMonitor .hcsqlite (monitor.appendSideChain hash) with
          round := if reorgData.newChainHead ≠ hash then .waiting else .switching hash }
    else some { state.setMonitor .hcsqlite monitor with round := .waiting }
  | _ => none

/-- The handler of `hcsqlite` switches to the side chain, and panics when the tip that it
reads back is not the announced one. -/
def switch (params : ChainParams) (answers : Nat → Answers) (faults : Nat → StoreFaults)
    (heightFault rowFault : Option String) (state : State hcd statistics) :
    Option (State hcd statistics) :=
  match state.round with
  | .switching hash =>
    let fields := (state.monitors .hcsqlite).fields
    let sideChain := fields.sideChain.zipIdx.map fun (hash, i) => (hash, answers i, faults i)
    match switchAndReadTip hcd params statistics sideChain heightFault rowFault state.db,
        fields.reorgData with
    | (.ok (newHeight, newHash), db), some reorgData =>
      if reorgData.newChainHead ≠ newHash ∨ reorgData.newChainHeight ≠ newHeight then none
      else some { state with round := .switched hash, db := db }
    | _, _ => none
  | _ => none

/-- The handler of `hcsqlite` ends a reorganization, once the side chain is stored. -/
def clearHcsqlite (state : State hcd statistics) : Option (State hcd statistics) :=
  match state.round with
  | .switched _ =>
    some { state.setMonitor .hcsqlite (state.monitors .hcsqlite).endReorg with round := .waiting }
  | _ => none

/-- One step; none where the action cannot happen or panics. -/
def step (params : ChainParams) (state : State hcd statistics) :
    Action → Option (State hcd statistics)
  | .extend block => state.extend block
  | .reorganize fork side => state.reorganize fork side
  | .deliver => state.deliver
  | .receiveReorg name =>
    (state.monitors name).receiveReorg.map fun monitor => state.setMonitor name monitor
  | .applyReorg name =>
    (state.monitors name).applyReorg.map fun monitor => state.setMonitor name monitor
  | .beginBlock => state.beginBlock
  | .readBlockdata => state.readBlockdata
  | .clearBlockdata => state.clearBlockdata
  | .collect _ answers faults => state.collect params answers faults
  | .readHcsqlite => state.readHcsqlite
  | .switch answers faults heightFault rowFault =>
    state.switch params answers faults heightFault rowFault
  | .clearHcsqlite => state.clearHcsqlite

/-- Every notification has been handled, so that nothing is under way. -/
def Quiescent (state : State hcd statistics) : Prop :=
  state.outgoing = [] ∧ state.queue = [] ∧ state.round = .waiting ∧
    ∀ name, (state.monitors name).reorgChan = [] ∧ (state.monitors name).received = none

instance (state : State hcd statistics) : Decidable state.Quiescent :=
  decidable_of_iff (state.outgoing = [] ∧ state.queue = [] ∧ state.round = .waiting ∧
      ((state.monitors .blockdata).reorgChan = [] ∧ (state.monitors .blockdata).received = none) ∧
      (state.monitors .hcsqlite).reorgChan = [] ∧ (state.monitors .hcsqlite).received = none)
    ⟨fun ⟨noOutgoing, noQueue, waiting, first, second⟩ => ⟨noOutgoing, noQueue, waiting, fun
        | .blockdata => first
        | .hcsqlite => second⟩,
      fun ⟨noOutgoing, noQueue, waiting, free⟩ => ⟨noOutgoing, noQueue, waiting, free _, free _⟩⟩

end State

end Hcexplorer.Live

import Hcexplorer.Collector
import Hcexplorer.Library.Runs

/-!
# The status of the web API

`appContext.StatusNtfnHandler` of `apiroutes.go`: one goroutine that receives node
heights, which `ProcessBlocks` sends, and database heights, which `DBDataSaver.Store`
sends, and records both in one `apitypes.Status`. Both senders give up when the
channel is full. What the node and the data source answer while a message is handled
is arbitrary, and so is the order in which the messages of the two channels are
received: each run of the events below is one interleaving.

`Ready` is computed when a database height is handled. A node height sets it only
when the connection count cannot be had, so it is kept across a change of the very
height it was compared with. The laws say which node heights do no harm.
-/

namespace Hcexplorer.ApiStatus

open Collection Runs

/-- `apitypes.Status`, what the route of the status answers. -/
structure Status where
  ready : Bool
  dbHeight : UInt32
  height : UInt32
  nodeConnections : Int64
  apiVersion : Int
  hcdataVersion : String
deriving DecidableEq, Repr

/-- What `GetConnectionCount` or `GetBlockCount` returns: a number, which is zero beside an
error. -/
structure Count where
  count : Int64
  err : Option String
deriving DecidableEq, Repr

/-- What the data source answers while one database height is handled:
`GetBestBlockSummary`, nil for `none`, and `GetHeight`. -/
structure DataSource where
  bestBlockSummary : Option BlockDataBasic
  height : Int64
deriving DecidableEq

/-- `blockConnChanBuffer`, the number of heights that wait in one of the channels at most. -/
def blockConnChanBuffer : Nat := 64

/-- The conversion `uint32(height)` of a signed height, which keeps its lowest 32 bits. -/
def toUint32 (height : Int64) : UInt32 := height.toUInt64.toUInt32

/-- The status that `newContext` makes from two answers of the node, whose errors it only logs. -/
def newContext (connections blockCount : Count) (apiVersion : Int) (version : String) : Status where
  ready := false
  dbHeight := 0
  height := toUint32 blockCount.count
  nodeConnections := connections.count
  apiVersion := apiVersion
  hcdataVersion := version

/-- What `StatusNtfnHandler` does with a height of the node. The status is not ready when the
number of connections cannot be had. -/
def handleNodeHeight (height : UInt32) (connections : Count) (status : Status) : Status :=
  let status := { status with height := height, nodeConnections := connections.count }
  match connections.err with
  | some _ => { status with ready := false }
  | none => status

/-- What `StatusNtfnHandler` does with a height of the database, which is recorded when the data
source has that height and a summary of it. -/
def handleDBHeight (height : UInt32) (blockData : DataSource) (status : Status) : Status :=
  match blockData.bestBlockSummary with
  | none => status
  | some summary =>
    let bdHeight := blockData.height
    if 0 ≤ bdHeight ∧ summary.height = toUint32 bdHeight ∧ height = toUint32 bdHeight then
      let status := { status with dbHeight := height }
      if status.height = height then { status with ready := true }
      else { status with ready := false }
    else { status with ready := false }

/-- The handler with its two channels. `running` ends with `quit` or a closed
channel. The last two fields record the last message of each channel that was
handled, with the answers; the program does not keep them. -/
structure Monitor where
  status : Status
  updateStatusNodeHeight : List UInt32
  updateStatusDBHeight : List UInt32
  running : Bool
  lastNode : Option (UInt32 × Count)
  lastDB : Option (UInt32 × DataSource)

/-- A context with its handler running, before its first message on either channel. -/
def Monitor.new (status : Status) : Monitor := ⟨status, [], [], true, none, none⟩

/-- What happens: a height is sent on one of the channels, the next one is handled,
or the handler ends. -/
inductive Event where
  | sendNodeHeight (height : UInt32)
  | sendDBHeight (height : UInt32)
  | nodeHeight (connections : Count)
  | dbHeight (blockData : DataSource)
  | quit

/-- A send that gives up when the channel is full. -/
def offer (height : UInt32) (channel : List UInt32) : List UInt32 :=
  if channel.length < blockConnChanBuffer then channel ++ [height] else channel

/-- One event. A channel must hold a message for one to be handled. -/
def step (monitor : Monitor) : Event → Option Monitor
  | .sendNodeHeight height =>
    some { monitor with updateStatusNodeHeight := offer height monitor.updateStatusNodeHeight }
  | .sendDBHeight height =>
    some { monitor with updateStatusDBHeight := offer height monitor.updateStatusDBHeight }
  | .nodeHeight connections =>
    match monitor.running, monitor.updateStatusNodeHeight with
    | true, height :: rest => some { monitor with
        status := handleNodeHeight height connections monitor.status
        updateStatusNodeHeight := rest
        lastNode := some (height, connections) }
    | _, _ => none
  | .dbHeight blockData =>
    match monitor.running, monitor.updateStatusDBHeight with
    | true, height :: rest => some { monitor with
        status := handleDBHeight height blockData monitor.status
        updateStatusDBHeight := rest
        lastDB := some (height, blockData) }
    | _, _ => none
  | .quit => some { monitor with running := false }

/-- The data source is at a height: it answers the height and a summary of it. -/
def DataSource.At (blockData : DataSource) (height : UInt32) : Prop :=
  blockData.height.toInt = height.toNat ∧
    ∃ summary, blockData.bestBlockSummary = some summary ∧ summary.height = height

/-- If the API is ready, the two recorded heights agree. -/
def ReadyAgrees (monitor : Monitor) : Prop :=
  monitor.status.ready = true → monitor.status.dbHeight = monitor.status.height

/-- Both channels are drained, their last messages were both a height, the node
answered for it and the data source was at it. -/
structure DrainedAt (height : UInt32) (monitor : Monitor) : Prop where
  noNodeHeight : monitor.updateStatusNodeHeight = []
  noDBHeight : monitor.updateStatusDBHeight = []
  node : ∃ connections, monitor.lastNode = some (height, connections) ∧ connections.err = none
  db : ∃ blockData, monitor.lastDB = some (height, blockData) ∧ blockData.At height

/-- What readiness promises: the recorded heights agree whenever the status is ready, and it is
ready once both channels are drained at one height. -/
def Promised (monitor : Monitor) : Prop :=
  ReadyAgrees monitor ∧ ∀ height, DrainedAt height monitor → monitor.status.ready = true

/-- A node height that does no harm, if the node answers: a ready status has it as its
database height already, and a status that is not ready is not drained by it at the
height of the last database message. -/
def FitsStatus (monitor : Monitor) : Event → Prop
  | .nodeHeight connections => ∀ height rest, monitor.running = true →
      monitor.updateStatusNodeHeight = height :: rest → connections.err = none →
        (monitor.status.ready = true → monitor.status.dbHeight = height) ∧
        (monitor.status.ready = false → rest = [] → monitor.updateStatusDBHeight = [] →
          ¬ ∃ blockData, monitor.lastDB = some (height, blockData) ∧ blockData.At height)
  | _ => True

/-- The recorded node height is that of the last node message. -/
def Recorded (monitor : Monitor) : Prop :=
  ∀ height connections, monitor.lastNode = some (height, connections) →
    monitor.status.height = height

/-- A height that is the number of a node height converts to it. -/
theorem toUint32_eq {bdHeight : Int64} {height : UInt32} (same : bdHeight.toInt = height.toNat) :
    0 ≤ bdHeight ∧ toUint32 bdHeight = height := by
  have nonneg : 0 ≤ bdHeight := by
    rw [Int64.le_iff_toInt_le, same]
    simp
  refine ⟨nonneg, UInt32.toNat_inj.mp ?_⟩
  have small : height.toNat < 4294967296 := height.toNat_lt
  rw [toUint32, UInt64.toNat_toUInt32, Int64.toNat_toUInt64_of_le nonneg, Int64.toNatClampNeg, same]
  omega

/-- A data source at the height of a message is consistent with it: the status takes
the height, and is ready if the node height is the same. -/
theorem DataSource.At.handleDBHeight {blockData : DataSource} {height : UInt32}
    (atHeight : blockData.At height) (status : Status) :
    handleDBHeight height blockData status =
      { status with dbHeight := height, ready := decide (status.height = height) } := by
  obtain ⟨same, summary, isBest, isHeight⟩ := atHeight
  obtain ⟨nonneg, converted⟩ := toUint32_eq same
  simp only [ApiStatus.handleDBHeight, isBest, converted, isHeight, nonneg, and_self, if_true]
  by_cases agrees : status.height = height <;> simp [agrees]

/-- A database height leaves the node height alone, and leaves the two heights equal
if the status is ready after it, unless it was ready before with other heights. -/
theorem handleDBHeight_agrees (height : UInt32) (blockData : DataSource) (status : Status) :
    (handleDBHeight height blockData status).height = status.height ∧
      ((status.ready = true → status.dbHeight = status.height) →
        (handleDBHeight height blockData status).ready = true →
          (handleDBHeight height blockData status).dbHeight =
            (handleDBHeight height blockData status).height) := by
  unfold handleDBHeight
  cases blockData.bestBlockSummary with
  | none => exact ⟨rfl, id⟩
  | some summary =>
    dsimp only
    split
    · split
      · rename_i agrees
        exact ⟨rfl, fun _ _ => agrees.symm⟩
      · exact ⟨rfl, fun _ impossible => by cases impossible⟩
    · exact ⟨rfl, fun _ impossible => by cases impossible⟩

/-- A channel is not drained by a send, not even by one that is dropped because the channel is
full. -/
theorem offer_ne_nil (height : UInt32) (channel : List UInt32) : offer height channel ≠ [] := by
  unfold offer
  by_cases room : channel.length < blockConnChanBuffer
  · simp [room]
  · rw [if_neg room]
    rintro rfl
    exact room (by decide)

/-- The record of the last node message is kept right by every event. -/
theorem recorded_step {monitor next : Monitor} {event : Event} (recorded : Recorded monitor)
    (taken : step monitor event = some next) : Recorded next := by
  cases event with
  | sendNodeHeight height => exact Option.some.inj taken ▸ recorded
  | sendDBHeight height => exact Option.some.inj taken ▸ recorded
  | quit => exact Option.some.inj taken ▸ recorded
  | nodeHeight connections =>
    simp only [step] at taken
    split at taken
    · obtain rfl := Option.some.inj taken
      rintro _ _ ⟨⟩
      unfold handleNodeHeight
      cases connections.err <;> rfl
    · cases taken
  | dbHeight blockData =>
    simp only [step] at taken
    split at taken
    · obtain rfl := Option.some.inj taken
      intro height connections last
      exact (handleDBHeight_agrees _ _ _).1.trans (recorded height connections last)
    · cases taken

/-- A node height keeps the promise exactly when it fits the status. -/
theorem nodeHeight_promised_iff {monitor : Monitor} {connections : Count} {height : UInt32}
    {rest : List UInt32} :
    Promised { monitor with
        status := handleNodeHeight height connections monitor.status
        updateStatusNodeHeight := rest
        lastNode := some (height, connections) } ↔
      (connections.err = none →
        (monitor.status.ready = true → monitor.status.dbHeight = height) ∧
        (monitor.status.ready = false → rest = [] → monitor.updateStatusDBHeight = [] →
          ¬ ∃ blockData, monitor.lastDB = some (height, blockData) ∧ blockData.At height)) := by
  cases answered : connections.err with
  | some reason =>
    refine iff_of_true ⟨?_, ?_⟩ (fun impossible => by cases impossible)
    · intro ready
      simp [handleNodeHeight, answered] at ready
    · rintro _ ⟨-, -, ⟨_, ⟨⟩, noError⟩, -⟩
      rw [answered] at noError
      cases noError
  | none =>
    have sameReady : (handleNodeHeight height connections monitor.status).ready =
        monitor.status.ready := by simp [handleNodeHeight, answered]
    have sameDB : (handleNodeHeight height connections monitor.status).dbHeight =
        monitor.status.dbHeight := by simp [handleNodeHeight, answered]
    have newHeight : (handleNodeHeight height connections monitor.status).height = height := by
      simp [handleNodeHeight, answered]
    constructor
    · rintro ⟨agrees, drained⟩ -
      simp only [ReadyAgrees, sameReady, sameDB, newHeight] at agrees drained
      refine ⟨agrees, ?_⟩
      rintro notReady rfl noDB ⟨blockData, last, atHeight⟩
      have ready := drained height ⟨rfl, noDB, ⟨connections, rfl, answered⟩, blockData, last, atHeight⟩
      rw [notReady] at ready
      cases ready
    · intro fits
      obtain ⟨agrees, notDrained⟩ := fits rfl
      refine ⟨?_, ?_⟩
      · simpa only [ReadyAgrees, sameReady, sameDB, newHeight] using agrees
      · rintro _ ⟨noNode, noDB, ⟨_, ⟨⟩, -⟩, lastAt⟩
        rw [sameReady]
        cases ready : monitor.status.ready with
        | true => rfl
        | false => exact absurd lastAt (notDrained ready noNode noDB)

/-- The handling of a database height keeps the promise, because readiness is decided anew there. -/
theorem dbHeight_promised {monitor : Monitor} {blockData : DataSource} {height : UInt32}
    {rest : List UInt32} (recorded : Recorded monitor) (promised : Promised monitor) :
    Promised { monitor with
      status := handleDBHeight height blockData monitor.status
      updateStatusDBHeight := rest
      lastDB := some (height, blockData) } := by
  refine ⟨(handleDBHeight_agrees height blockData monitor.status).2 promised.1, ?_⟩
  rintro _ ⟨-, -, ⟨connections, last, -⟩, _, ⟨⟩, atHeight⟩
  have same : monitor.status.height = height := recorded height connections last
  simp only [atHeight.handleDBHeight, same, decide_true]

/-- One event keeps the promise exactly when it fits the status. -/
theorem fitsStatus_iff {monitor : Monitor} (recorded : Recorded monitor)
    (promised : Promised monitor) (event : Event) :
    FitsStatus monitor event ↔ ∀ next, step monitor event = some next → Promised next := by
  cases event with
  | sendNodeHeight height =>
    refine iff_of_true trivial fun next taken => ?_
    obtain rfl := Option.some.inj taken
    exact ⟨promised.1, fun _ drained => absurd drained.noNodeHeight (offer_ne_nil _ _)⟩
  | sendDBHeight height =>
    refine iff_of_true trivial fun next taken => ?_
    obtain rfl := Option.some.inj taken
    exact ⟨promised.1, fun _ drained => absurd drained.noDBHeight (offer_ne_nil _ _)⟩
  | quit =>
    refine iff_of_true trivial fun next taken => ?_
    obtain rfl := Option.some.inj taken
    exact ⟨promised.1, fun height drained => promised.2 height ⟨drained.1, drained.2, drained.3, drained.4⟩⟩
  | dbHeight blockData =>
    refine iff_of_true trivial fun next taken => ?_
    simp only [step] at taken
    split at taken
    · obtain rfl := Option.some.inj taken
      exact dbHeight_promised recorded promised
    · cases taken
  | nodeHeight connections =>
    constructor
    · intro fits next taken
      simp only [step] at taken
      split at taken
      · rename_i height rest isRunning received
        obtain rfl := Option.some.inj taken
        exact nodeHeight_promised_iff.mpr (fits height rest isRunning received)
      · cases taken
    · intro keeps height rest isRunning received
      refine nodeHeight_promised_iff.mp (keeps _ ?_)
      simp only [step, isRunning, received]

/-- The promise of readiness holds in every state of exactly the runs all of whose
node heights fit the status they find. -/
theorem ready_iff (connections blockCount : Count) (apiVersion : Int) (version : String)
    (events : List Event) :
    Throughout step Promised (.new (newContext connections blockCount apiVersion version)) events ↔
      Admitted step FitsStatus (.new (newContext connections blockCount apiVersion version))
        events := by
  refine throughout_iff_admitted Recorded
    (fun monitor event next recorded _ taken _ => recorded_step recorded taken)
    (fun monitor event recorded promised => fitsStatus_iff recorded promised event) ?_ ⟨?_, ?_⟩
  · rintro _ _ ⟨⟩
  · rintro ⟨⟩
  · rintro _ ⟨-, -, ⟨_, ⟨⟩, -⟩, -⟩

/-- A context started at a node height of five. -/
def atFive : Monitor := .new (newContext ⟨8, none⟩ ⟨5, none⟩ 1 "1.0.0")

/-- A data source whose best block has a height. -/
def sourceAt (height : UInt32) : DataSource :=
  ⟨some ⟨height, 300, 0, 1, 2, 0, ⟨0, 0, 0⟩⟩, Int64.ofNat height.toNat⟩

/-- The start of the program, which sends the height of the database. -/
def begun : List Event := [.sendDBHeight 5, .dbHeight (sourceAt 5)]

/-- Block six is stored, and then the handlers of its notification are done. -/
def storedFirst : List Event :=
  begun ++ [.sendDBHeight 6, .dbHeight (sourceAt 6), .sendNodeHeight 6, .nodeHeight ⟨8, none⟩]

/-- The node reports block six, but the database never reports that it stored it. -/
def notStored : List Event := begun ++ [.sendNodeHeight 6, .nodeHeight ⟨8, none⟩]

/-- In the program's own order of the two messages of a block, both channels are
drained with the height of the block while the data source is at it, and the API is
not ready. When the database stays behind, the API stays ready. -/
theorem ready_not_promised :
    (∃ final, exec step atFive storedFirst = some final ∧
      final.updateStatusNodeHeight = [] ∧ final.updateStatusDBHeight = [] ∧
      final.status.height = 6 ∧ final.status.dbHeight = 6 ∧ (sourceAt 6).At 6 ∧
      final.status.ready = false) ∧
    (∃ final, exec step atFive notStored = some final ∧
      final.status.ready = true ∧ final.status.height = 6 ∧ final.status.dbHeight = 5) ∧
    ¬ Throughout step Promised atFive storedFirst ∧ ¬ Throughout step Promised atFive notStored := by
  refine ⟨⟨_, rfl, rfl, rfl, rfl, rfl, ⟨rfl, _, rfl, rfl⟩, rfl⟩, ⟨_, rfl, rfl, rfl, rfl⟩, ?_, ?_⟩
  · intro throughout
    have ready := (throughout.final rfl).2 6
      ⟨rfl, rfl, ⟨_, rfl, rfl⟩, _, rfl, rfl, _, rfl, rfl⟩
    cases ready
  · intro throughout
    have same : (5 : UInt32) = 6 := (throughout.final rfl).1 rfl
    exact absurd same (by decide)

end Hcexplorer.ApiStatus

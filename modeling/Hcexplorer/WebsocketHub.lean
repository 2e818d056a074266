import Mathlib.Data.Finset.Basic
import Mathlib.Logic.Function.Basic
import Hcexplorer.Library.Runs

/-!
# The websocket hubs

`WebsocketHub` of `websocket.go` and of `explorer/websocket.go`, which differ in their
signals only, with the connection handlers that use them, `WSBlockUpdater` and
`rootWebsocket`. A client is the pointer to a handler's update channel, so each handler
has one of its own.

The goroutines are the `run` loop, any number of handlers, any number of `Stop` calls,
whoever relays a signal, and the unregistrations that the relay loop spawns. They take
atomic steps in any order: the rendezvous on the hub's channels, the insertion into the
map of clients, each turn of a `range` over that map, the relay loop's `select`, and the
four steps of `unregisterClient`. No sender blocks on an update channel, since the one
place that sends has a `default`, so the receive of `safeClose` takes its `default` exactly
when the channel is open.

What a handler writes to its connection, and the races of Go's maps on memory, are not
part of the model.
-/

namespace Hcexplorer.Websocket

open Runs

/-- `hubSignal`, an integer for each kind of message. -/
abbrev HubSignal := Int

/-- The two packages that have a `WebsocketHub` of their own. -/
inductive Package where
  | main
  | explorer
deriving DecidableEq, Repr

namespace Package

/-- `sigNewBlock`, by the constants of each package. -/
def sigNewBlock : Package → HubSignal
  | main => 0
  | explorer => 3

/-- `sigMempoolFeeInfoUpdate`, which only package `main` has. -/
def sigMempoolFeeInfoUpdate : HubSignal := 1

/-- `sigPingAndUserCount`, by the constants of each package. -/
def sigPingAndUserCount : Package → HubSignal
  | main => 2
  | explorer => 4

/-- `eventIDs`, the names of the events that are sent for signals. -/
def eventIDs (package : Package) (signal : HubSignal) : Option String :=
  if signal = package.sigNewBlock then some "newblock"
  else if package = main ∧ signal = sigMempoolFeeInfoUpdate then some "mempoolsstxfeeinfo"
  else if signal = package.sigPingAndUserCount then some "ping"
  else none

/-- The `switch` of `run` has a case for the signal. -/
def relays (package : Package) (signal : HubSignal) : Bool :=
  signal = package.sigNewBlock || (package = main && signal = sigMempoolFeeInfoUpdate) ||
    signal = package.sigPingAndUserCount

/-- The hub relays exactly the signals that its handlers have an event for, so the test
of a handler against `eventIDs` never ends its loop. -/
theorem relays_iff (package : Package) (signal : HubSignal) :
    package.relays signal = true ↔ (package.eventIDs signal).isSome = true := by
  unfold relays eventIDs
  split_ifs <;> simp_all

end Package

/-- Where a connection handler stands: before its channel exists, in `RegisterClient`,
between that and its loop, in the loop's `select`, after the receipt of a signal, in the
`UnregisterClient` of a handler that saw its channel closed, in the deferred one, or at
its end. -/
inductive HandlerStep where
  | connecting
  | registering
  | starting
  | waiting
  | signaled (signal : HubSignal)
  | sawClosed
  | returning
  | returned
deriving DecidableEq, Repr

/-- The handler has not yet handed its client to the hub. -/
def HandlerStep.isNew : HandlerStep → Bool
  | connecting => true
  | registering => true
  | _ => false

/-- The step that an `unregisterClient` takes next: the check of the map, the deletion,
the receive of `safeClose` or its close. -/
inductive UnregisterStep where
  | check
  | delete
  | receive
  | close
deriving DecidableEq, Repr

/-- A goroutine that calls `unregisterClient`: the `run` loop, a call of `Stop`, or one
that the relay loop spawned. -/
inductive Goroutine where
  | run
  | stop (number : Nat)
  | spawned (number : Nat)
deriving DecidableEq, Repr

variable {Client : Type}

/-- A `range` over the map of clients: the clients that were present when it began and
those it has yielded. -/
structure MapRange (Client : Type) where
  present : Finset Client
  yielded : Finset Client

namespace MapRange

/-- A range that begins over the clients of the map. -/
def start (clients : Finset Client) : MapRange Client := ⟨clients, ∅⟩

variable [DecidableEq Client]

/-- A range may yield any client that is in the map and that it has not yielded yet. An
entry that was inserted meanwhile may be yielded or not. -/
def Yields (range : MapRange Client) (clients : Finset Client) (c : Client) : Prop :=
  c ∈ clients ∧ c ∉ range.yielded

instance (range : MapRange Client) (clients : Finset Client) (c : Client) :
    Decidable (range.Yields clients c) :=
  inferInstanceAs (Decidable (_ ∧ _))

/-- A range may end when it has yielded every client that was present from its beginning. -/
def Ended (range : MapRange Client) (clients : Finset Client) : Prop :=
  ∀ c ∈ range.present, c ∈ clients → c ∈ range.yielded

instance (range : MapRange Client) (clients : Finset Client) : Decidable (range.Ended clients) :=
  inferInstanceAs (Decidable (∀ c ∈ range.present, c ∈ clients → c ∈ range.yielded))

/-- The range after it yielded a client. -/
def after (range : MapRange Client) (c : Client) : MapRange Client :=
  { range with yielded := insert c range.yielded }

end MapRange

/-- Where the `run` loop stands: in its `select` or the unregistration of a client it took
there, before the insertion of a client, in the relay of a signal, before the `select` that
sends the signal to a client, before the close of the quit channel, or at its end. -/
inductive RunStep (Client : Type) where
  | selecting
  | registering (c : Client)
  | relaying (signal : HubSignal) (range : MapRange Client)
  | sending (signal : HubSignal) (range : MapRange Client) (c : Client)
  | quitting
  | returned

namespace RunStep

/-- The client that the loop is about to insert. -/
def registers : RunStep Client → Option Client
  | registering c => some c
  | _ => none

/-- The client that the loop is about to send a signal to. -/
def sends : RunStep Client → Option Client
  | sending _ _ c => some c
  | _ => none

end RunStep

/-- Where a call of `Stop` stands: not made yet, in its send on the quit channel, in its
range over the clients, or at its end. -/
inductive StopStep (Client : Type) where
  | uncalled
  | sending
  | ranging (range : MapRange Client)
  | returned

namespace StopStep

/-- The call waits in its send on the quit channel. -/
def isSending : StopStep Client → Bool
  | sending => true
  | _ => false

end StopStep

/-- `WebsocketHub` with the goroutines that use it: the map of clients, the update channels
that are closed, where each goroutine stands, and the unregistrations under way. -/
structure Hub (Client : Type) where
  clients : Finset Client
  closed : Finset Client
  runLoop : RunStep Client
  handler : Client → HandlerStep
  stops : Nat → StopStep Client
  unregistering : Goroutine → Option (Client × UnregisterStep)
  spawned : Nat
  quitClosed : Bool
  panicked : Bool

/-- The atomic steps of the connections, the loops and the goroutines. -/
inductive Event (Client : Type) where
  | connect (c : Client)
  | register (c : Client)
  | insert
  | startLoop (c : Client)
  | relay (signal : HubSignal)
  | yieldToRelay (c : Client)
  | endRelay
  | send
  | unregister (c : Client)
  | advance (goroutine : Goroutine)
  | write (c : Client) (sent : Bool)
  | seeClosed (c : Client)
  | seeQuit (c : Client)
  | stop (number : Nat)
  | quitRun (number : Nat)
  | quitHandler (number : Nat) (c : Client)
  | quitTwice (number : Nat)
  | closeQuit
  | seeQuitClosed
  | yieldToStop (number : Nat) (c : Client)
  | endStop (number : Nat)
deriving DecidableEq, Repr

/-- `NewWebsocketHub` with its `run` loop started, before any connection. -/
def newWebsocketHub : Hub Client where
  clients := ∅
  closed := ∅
  runLoop := .selecting
  handler := fun _ => .connecting
  stops := fun _ => .uncalled
  unregistering := fun _ => none
  spawned := 0
  quitClosed := false
  panicked := false

namespace Hub

/-- The `run` loop waits in its `select`, and is not about to unregister a client. -/
def selects (hub : Hub Client) : Bool :=
  match hub.runLoop, hub.unregistering .run with
  | .selecting, none => true
  | _, _ => false

variable [DecidableEq Client]

/-- A handler moves on, and the others stay where they are. -/
def handle (hub : Hub Client) (c : Client) (handlerStep : HandlerStep) : Hub Client :=
  { hub with handler := Function.update hub.handler c handlerStep }

/-- A call of `Stop` moves on, and the others stay where they are. -/
def moveStop (hub : Hub Client) (number : Nat) (stopStep : StopStep Client) : Hub Client :=
  { hub with stops := Function.update hub.stops number stopStep }

/-- A goroutine stands at a step of `unregisterClient`, or has left it. -/
def call (hub : Hub Client) (goroutine : Goroutine) (call : Option (Client × UnregisterStep)) :
    Hub Client :=
  { hub with unregistering := Function.update hub.unregistering goroutine call }

/-- One step of `unregisterClient`, with `safeClose`, which panics where the channel has been
closed. -/
def unregisterClient (hub : Hub Client) (goroutine : Goroutine) (c : Client) :
    UnregisterStep → Hub Client
  | .check =>
    if c ∈ hub.clients then hub.call goroutine (some (c, .delete))
    else hub.call goroutine none
  | .delete =>
    { hub with clients := hub.clients.erase c }.call goroutine (some (c, .receive))
  | .receive =>
    if c ∈ hub.closed then hub.call goroutine none
    else hub.call goroutine (some (c, .close))
  | .close =>
    -- the close of a closed channel
    if c ∈ hub.closed then { hub with panicked := true }
    else { hub with closed := Insert.insert c hub.closed }.call goroutine none

/-- The `select` of the relay loop: a send on a closed channel, one to a handler that waits,
or the spawning of an unregistration. -/
def signal (hub : Hub Client) (signal : HubSignal) (range : MapRange Client) (c : Client) :
    Hub Client :=
  let next := { hub with runLoop := .relaying signal range }
  if c ∈ hub.closed then { hub with panicked := true }
  else if hub.handler c = .waiting then next.handle c (.signaled signal)
  else { next with spawned := hub.spawned + 1 }.call (.spawned hub.spawned) (some (c, .check))

end Hub

variable [DecidableEq Client]

/-- One step of any goroutine while the program runs. -/
def move (package : Package) (hub : Hub Client) : Event Client → Option (Hub Client)
  | .connect c =>
    if hub.handler c = .connecting then some (hub.handle c .registering) else none
  | .register c =>
    if hub.selects ∧ hub.handler c = .registering then
      some ({ hub with runLoop := .registering c }.handle c .starting)
    else none
  | .insert =>
    match hub.runLoop with
    | .registering c =>
      some { hub with clients := Insert.insert c hub.clients, runLoop := .selecting }
    | _ => none
  | .startLoop c =>
    if hub.handler c = .starting then some (hub.handle c .waiting) else none
  | .relay signal =>
    if hub.selects then
      -- an unknown signal is an error in the log
      if package.relays signal then
        some { hub with runLoop := .relaying signal (.start hub.clients) }
      else some hub
    else none
  | .yieldToRelay c =>
    match hub.runLoop with
    | .relaying signal range =>
      if range.Yields hub.clients c then
        some { hub with runLoop := .sending signal (range.after c) c }
      else none
    | _ => none
  | .endRelay =>
    match hub.runLoop with
    | .relaying _ range =>
      if range.Ended hub.clients then some { hub with runLoop := .selecting } else none
    | _ => none
  | .send =>
    match hub.runLoop with
    | .sending signal range c => some (hub.signal signal range c)
    | _ => none
  | .unregister c =>
    if hub.selects then
      match hub.handler c with
      | .sawClosed => some ((hub.handle c .returning).call .run (some (c, .check)))
      | .returning => some ((hub.handle c .returned).call .run (some (c, .check)))
      | _ => none
    else none
  | .advance goroutine =>
    match hub.unregistering goroutine with
    | some (c, unregisterStep) => some (hub.unregisterClient goroutine c unregisterStep)
    | none => none
  | .write c sent =>
    match hub.handler c with
    | .signaled signal =>
      if (package.eventIDs signal).isSome && sent then some (hub.handle c .waiting)
      else some (hub.handle c .returning)
    | _ => none
  | .seeClosed c =>
    if hub.handler c = .waiting ∧ c ∈ hub.closed then some (hub.handle c .sawClosed) else none
  | .seeQuit c =>
    if hub.handler c = .waiting ∧ hub.quitClosed then some (hub.handle c .returning) else none
  | .stop number =>
    match hub.stops number with
    | .uncalled => some (hub.moveStop number .sending)
    | _ => none
  | .quitRun number =>
    if (hub.stops number).isSending ∧ hub.selects ∧ hub.quitClosed = false then
      some ({ hub with runLoop := .quitting }.moveStop number (.ranging (.start hub.clients)))
    else none
  | .quitHandler number c =>
    if (hub.stops number).isSending ∧ hub.handler c = .waiting ∧ hub.quitClosed = false then
      some ((hub.handle c .returning).moveStop number (.ranging (.start hub.clients)))
    else none
  | .quitTwice number =>
    -- the send of a `Stop` on the closed quit channel
    if (hub.stops number).isSending ∧ hub.quitClosed then some { hub with panicked := true }
    else none
  | .closeQuit =>
    match hub.runLoop with
    | .quitting => some { hub with runLoop := .returned, quitClosed := true }
    | _ => none
  | .seeQuitClosed =>
    if hub.selects ∧ hub.quitClosed then some { hub with runLoop := .returned } else none
  | .yieldToStop number c =>
    match hub.stops number, hub.unregistering (.stop number) with
    | .ranging range, none =>
      if range.Yields hub.clients c then
        some ((hub.moveStop number (.ranging (range.after c))).call (.stop number)
          (some (c, .check)))
      else none
    | _, _ => none
  | .endStop number =>
    match hub.stops number, hub.unregistering (.stop number) with
    | .ranging range, none =>
      if range.Ended hub.clients then some (hub.moveStop number .returned) else none
    | _, _ => none

/-- One step of any goroutine. Nothing follows a panic. -/
def step (package : Package) (hub : Hub Client) (event : Event Client) : Option (Hub Client) :=
  if hub.panicked then none else move package hub event

end Hcexplorer.Websocket

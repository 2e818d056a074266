import Hcexplorer.WebsocketHub

/-!
# Sends and closes on the update channels

`unregisterClient` tests the map, deletes and closes in steps that other goroutines'
steps come between, so a channel can be closed twice, and the relay loop can send to a
client whose channel was closed since the range yielded it. The law names the steps after
which that happens, and says that a run without them never panics.
-/

namespace Hcexplorer.Websocket

open Runs

variable {Client : Type} [DecidableEq Client]

/-- The step is a send on a closed channel or the close of one. -/
def Panics (hub : Hub Client) : Event Client → Prop
  | .send => ∃ c, hub.runLoop.sends = some c ∧ c ∈ hub.closed
  | .advance goroutine => ∃ c, hub.unregistering goroutine = some (c, .close) ∧ c ∈ hub.closed
  | .quitTwice _ => True
  | _ => False

/-- A step that leaves the map, the update channels and the unregistrations, and after
which nobody else is about to insert, to send or to stop the hub, its own event apart. -/
structure Quiet (event : Event Client) (hub next : Hub Client) : Prop where
  clients : next.clients = hub.clients
  closed : next.closed = hub.closed
  unregistering : next.unregistering = hub.unregistering
  panicked : next.panicked = hub.panicked
  registers : ∀ c, next.runLoop.registers = some c → hub.runLoop.registers = some c
  sends : ∀ c, next.runLoop.sends = some c → hub.runLoop.sends = some c
  handler : ∀ c, (next.handler c).isNew = true → (hub.handler c).isNew = true
  stops : ∀ number, (next.stops number).isSending = true →
    (hub.stops number).isSending = true ∨ event = .stop number
  quitClosed : next.quitClosed = true → hub.quitClosed = true ∨ event = .closeQuit

/-- What a step that is no panic does: nothing to the update channels and to those who may
send or close, or one step of the life of a client. -/
inductive Effect (hub : Hub Client) : Event Client → Hub Client → Prop
  | quiet {event : Event Client} {next : Hub Client} (quiet : Quiet event hub next) :
      Effect hub event next
  | registered (c : Client) (isNew : (hub.handler c).isNew = true) :
      Effect hub (.register c) ({ hub with runLoop := .registering c }.handle c .starting)
  | inserted (c : Client) (registers : hub.runLoop.registers = some c) :
      Effect hub .insert
        { hub with clients := Insert.insert c hub.clients, runLoop := .selecting }
  | yielded (signal : HubSignal) (range : MapRange Client) (c : Client)
      (member : c ∈ hub.clients) :
      Effect hub (.yieldToRelay c) { hub with runLoop := .sending signal range c }
  | began {event : Event Client} {moved : Hub Client} (goroutine : Goroutine) (c : Client)
      (quiet : Quiet event hub moved)
      (known : c ∈ hub.clients ∨ hub.runLoop.sends = some c ∨
        (hub.runLoop.registers = none ∧ (hub.handler c).isNew = false)) :
      Effect hub event (moved.call goroutine (some (c, .check)))
  | left (goroutine : Goroutine) :
      Effect hub (.advance goroutine) (hub.call goroutine none)
  | found (goroutine : Goroutine) (c : Client)
      (call : hub.unregistering goroutine = some (c, .check)) :
      Effect hub (.advance goroutine) (hub.call goroutine (some (c, .delete)))
  | deleted (goroutine : Goroutine) (c : Client)
      (call : hub.unregistering goroutine = some (c, .delete)) :
      Effect hub (.advance goroutine)
        ({ hub with clients := hub.clients.erase c }.call goroutine (some (c, .receive)))
  | received (goroutine : Goroutine) (c : Client)
      (call : hub.unregistering goroutine = some (c, .receive)) (isOpen : c ∉ hub.closed) :
      Effect hub (.advance goroutine) (hub.call goroutine (some (c, .close)))
  | closed (goroutine : Goroutine) (c : Client)
      (call : hub.unregistering goroutine = some (c, .close)) (isOpen : c ∉ hub.closed) :
      Effect hub (.advance goroutine)
        ({ hub with closed := Insert.insert c hub.closed }.call goroutine none)

omit [DecidableEq Client] in
/-- The loop waits in its `select` exactly when no unregistration of its own is under way. -/
theorem Hub.selects_iff {hub : Hub Client} :
    hub.selects = true ↔ hub.runLoop = .selecting ∧ hub.unregistering .run = none := by
  unfold Hub.selects
  split
  · rename_i selecting idle
    simp [selecting, idle]
  · rename_i other
    simpa using other

section Steps
variable {package : Package} {hub next : Hub Client} {event : Event Client}

/-- A step is a move of a program that runs. -/
theorem step_eq_some :
    step package hub event = some next ↔
      hub.panicked = false ∧ move package hub event = some next := by
  cases dead : hub.panicked <;> simp [step, dead]

namespace Quiet

omit [DecidableEq Client] in
/-- The event by itself changes nothing that the quiet steps must keep. -/
theorem refl (event : Event Client) (hub : Hub Client) : Quiet event hub hub :=
  ⟨rfl, rfl, rfl, rfl, fun _ => id, fun _ => id, fun _ => id, fun _ => .inl, .inl⟩

omit [DecidableEq Client] in
/-- The loop moves to where it neither inserts nor sends. -/
theorem run (quiet : Quiet event hub next) {runStep : RunStep Client}
    (registers : runStep.registers = none) (sends : runStep.sends = none) :
    Quiet event hub { next with runLoop := runStep } :=
  { quiet with
    registers := fun c inserts => by rw [registers] at inserts; cases inserts
    sends := fun c sending => by rw [sends] at sending; cases sending }

/-- A handler moves on, and stays old if it was. -/
theorem handle (quiet : Quiet event hub next) {c : Client} {handlerStep : HandlerStep}
    (old : handlerStep.isNew = true → (hub.handler c).isNew = true) :
    Quiet event hub (next.handle c handlerStep) := by
  refine { quiet with handler := fun other isNew => ?_ }
  by_cases same : other = c
  · subst same
    exact old (by simpa [Hub.handle] using isNew)
  · exact quiet.handler other (by simpa [Hub.handle, same] using isNew)

omit [DecidableEq Client] in
/-- A `Stop` moves on, and does not begin to send but by its own event. -/
theorem moveStop (quiet : Quiet event hub next) {number : Nat} {stopStep : StopStep Client}
    (later : stopStep.isSending = true → event = .stop number) :
    Quiet event hub (next.moveStop number stopStep) := by
  refine { quiet with stops := fun other sending => ?_ }
  by_cases same : other = number
  · subst same
    exact .inr (later (by simpa [Hub.moveStop] using sending))
  · exact quiet.stops other (by simpa [Hub.moveStop, same] using sending)

/-- A handler moves to where it is not new. -/
theorem handleOld (quiet : Quiet event hub next) {c : Client} {handlerStep : HandlerStep}
    (old : handlerStep.isNew = false) : Quiet event hub (next.handle c handlerStep) := by
  refine quiet.handle fun isNew => ?_
  rw [old] at isNew
  cases isNew

omit [DecidableEq Client] in
/-- A `Stop` moves to where it does not send. -/
theorem moveStopOn (quiet : Quiet event hub next) {number : Nat} {stopStep : StopStep Client}
    (silent : stopStep.isSending = false) : Quiet event hub (next.moveStop number stopStep) := by
  refine quiet.moveStop fun sending => ?_
  rw [silent] at sending
  cases sending

end Quiet

/-- The steps of `unregisterClient`, one by one: the test of the map, the deletion, the receive
and the close. -/
theorem Effect.advanced {goroutine : Goroutine} {c : Client} {unregisterStep : UnregisterStep}
    (call : hub.unregistering goroutine = some (c, unregisterStep))
    (safe : ¬ Panics hub (.advance goroutine)) :
    Effect hub (.advance goroutine) (hub.unregisterClient goroutine c unregisterStep) := by
  cases unregisterStep with
  | check =>
    by_cases member : c ∈ hub.clients
    · simp only [Hub.unregisterClient, if_pos member]
      exact .found goroutine c call
    · simp only [Hub.unregisterClient, if_neg member]
      exact .left goroutine
  | delete => exact .deleted goroutine c call
  | receive =>
    by_cases isClosed : c ∈ hub.closed
    · simp only [Hub.unregisterClient, if_pos isClosed]
      exact .left goroutine
    · simp only [Hub.unregisterClient, if_neg isClosed]
      exact .received goroutine c call isClosed
  | close =>
    have isOpen : c ∉ hub.closed := fun isClosed => safe ⟨c, call, isClosed⟩
    simp only [Hub.unregisterClient, if_neg isOpen]
    exact .closed goroutine c call isOpen

/-- The `select` of the relay loop, on an open channel. -/
theorem Effect.signaled {signal : HubSignal} {range : MapRange Client} {c : Client}
    (sending : hub.runLoop = .sending signal range c) (safe : ¬ Panics hub .send) :
    Effect hub .send (hub.signal signal range c) := by
  have sends : hub.runLoop.sends = some c := by rw [sending]; rfl
  have isOpen : c ∉ hub.closed := fun isClosed => safe ⟨c, sends, isClosed⟩
  have relaying : Quiet .send hub { hub with runLoop := .relaying signal range } :=
    (Quiet.refl .send hub).run rfl rfl
  by_cases waits : hub.handler c = .waiting
  · -- the handler receives the signal
    simp only [Hub.signal, if_neg isOpen, if_pos waits]
    exact .quiet (relaying.handleOld rfl)
  · -- the client is unregistered by a goroutine of its own
    simp only [Hub.signal, if_neg isOpen, if_neg waits]
    exact .began (.spawned hub.spawned) c { relaying with } (.inr (.inl sends))

/-- The unregistration that the loop takes from a handler. -/
theorem Effect.unregistered {c : Client} {handlerStep : HandlerStep}
    (selecting : hub.runLoop = .selecting) (known : (hub.handler c).isNew = false)
    (old : handlerStep.isNew = false) :
    Effect hub (.unregister c) ((hub.handle c handlerStep).call .run (some (c, .check))) := by
  exact .began .run c ((Quiet.refl _ hub).handleOld old)
    (.inr (.inr ⟨by rw [selecting]; rfl, known⟩))

/-- The loop inserts the client that it took from a handler. -/
theorem insert_effect (taken : move package hub .insert = some next) : Effect hub .insert next := by
  simp only [move] at taken
  split at taken
  · rename_i c registering
    cases taken
    exact .inserted c (by rw [registering]; rfl)
  · cases taken

/-- The loop begins to relay a signal, or only logs that it does not know it. -/
theorem relay_effect {signal : HubSignal} (taken : move package hub (.relay signal) = some next) :
    Effect hub (.relay signal) next := by
  have quiet := Quiet.refl (.relay signal) hub
  obtain ⟨-, taken⟩ := Option.ite_none_right_eq_some.mp taken
  split at taken
  · cases taken
    exact .quiet (quiet.run rfl rfl)
  · cases taken
    exact .quiet quiet

/-- The range of the relay loop yields a client of the map. -/
theorem yieldToRelay_effect {c : Client} (taken : move package hub (.yieldToRelay c) = some next) :
    Effect hub (.yieldToRelay c) next := by
  simp only [move] at taken
  split at taken
  · obtain ⟨yields, ⟨⟩⟩ := Option.ite_none_right_eq_some.mp taken
    exact .yielded _ _ c yields.1
  · cases taken

/-- The relay loop has yielded every client and goes back to its `select`. -/
theorem endRelay_effect (taken : move package hub .endRelay = some next) :
    Effect hub .endRelay next := by
  simp only [move] at taken
  split at taken
  · obtain ⟨-, ⟨⟩⟩ := Option.ite_none_right_eq_some.mp taken
    exact .quiet ((Quiet.refl .endRelay hub).run rfl rfl)
  · cases taken

/-- The relay loop sends to a client whose channel is open, or has it unregistered. -/
theorem send_effect (taken : move package hub .send = some next) (safe : ¬ Panics hub .send) :
    Effect hub .send next := by
  simp only [move] at taken
  split at taken
  · rename_i sending
    cases taken
    exact .signaled sending safe
  · cases taken

/-- The loop takes the unregistration of a client from its handler, which is not new: it saw
its channel closed, or returns. -/
theorem unregister_effect {c : Client} (taken : move package hub (.unregister c) = some next) :
    Effect hub (.unregister c) next := by
  obtain ⟨selects, taken⟩ := Option.ite_none_right_eq_some.mp taken
  have selecting := (Hub.selects_iff.mp selects).1
  split at taken
  · rename_i sawClosed
    cases taken
    exact .unregistered selecting (by rw [sawClosed]; rfl) rfl
  · rename_i returning
    cases taken
    exact .unregistered selecting (by rw [returning]; rfl) rfl
  · cases taken

/-- A goroutine takes its next step in `unregisterClient`, which is one in the life of its
client. -/
theorem advance_effect {goroutine : Goroutine}
    (taken : move package hub (.advance goroutine) = some next)
    (safe : ¬ Panics hub (.advance goroutine)) : Effect hub (.advance goroutine) next := by
  simp only [move] at taken
  split at taken
  · rename_i call
    cases taken
    exact .advanced call safe
  · cases taken

/-- A handler has written the signal, or failed to, and was new in neither case. -/
theorem write_effect {c : Client} {sent : Bool} (taken : move package hub (.write c sent) = some next) :
    Effect hub (.write c sent) next := by
  have quiet := Quiet.refl (.write c sent) hub
  simp only [move] at taken
  split at taken
  · split at taken
    · cases taken
      exact .quiet (quiet.handleOld rfl)
    · cases taken
      exact .quiet (quiet.handleOld rfl)
  · cases taken

/-- A call of `Stop` begins, which is the one step after which it waits to send. -/
theorem stop_effect {number : Nat} (taken : move package hub (.stop number) = some next) :
    Effect hub (.stop number) next := by
  simp only [move] at taken
  split at taken
  · cases taken
    exact .quiet ((Quiet.refl (.stop number) hub).moveStop fun _ => rfl)
  · cases taken

/-- The loop closes the quit channel and returns, which touches no client. -/
theorem closeQuit_effect (taken : move package hub .closeQuit = some next) :
    Effect hub .closeQuit next := by
  simp only [move] at taken
  split at taken
  · cases taken
    have returned : Quiet .closeQuit hub { hub with runLoop := .returned } :=
      (Quiet.refl .closeQuit hub).run rfl rfl
    exact .quiet { returned with quitClosed := fun _ => .inr rfl }
  · cases taken

/-- The range of a `Stop` yields a client of the map, whose unregistration begins. -/
theorem yieldToStop_effect {number : Nat} {c : Client}
    (taken : move package hub (.yieldToStop number c) = some next) :
    Effect hub (.yieldToStop number c) next := by
  simp only [move] at taken
  split at taken
  · obtain ⟨yields, ⟨⟩⟩ := Option.ite_none_right_eq_some.mp taken
    exact .began (.stop number) c ((Quiet.refl _ hub).moveStopOn rfl) (.inl yields.1)
  · cases taken

/-- A `Stop` has yielded every client of its range and returns. -/
theorem endStop_effect {number : Nat} (taken : move package hub (.endStop number) = some next) :
    Effect hub (.endStop number) next := by
  simp only [move] at taken
  split at taken
  · obtain ⟨-, ⟨⟩⟩ := Option.ite_none_right_eq_some.mp taken
    exact .quiet ((Quiet.refl _ hub).moveStopOn rfl)
  · cases taken

/-- Every step that is no panic has one of these effects. The cases with a lemma of their own
look at where a goroutine stands; the others only test a condition. -/
theorem step_effect (taken : step package hub event = some next) (safe : ¬ Panics hub event) :
    Effect hub event next := by
  replace taken := (step_eq_some.mp taken).2
  have quiet := Quiet.refl event hub
  cases event with
  | connect c =>
    obtain ⟨connecting, ⟨⟩⟩ := Option.ite_none_right_eq_some.mp taken
    exact .quiet (quiet.handle fun _ => by rw [connecting]; rfl)
  | register c =>
    obtain ⟨⟨-, registering⟩, ⟨⟩⟩ := Option.ite_none_right_eq_some.mp taken
    exact .registered c (by rw [registering]; rfl)
  | insert => exact insert_effect taken
  | startLoop c =>
    obtain ⟨-, ⟨⟩⟩ := Option.ite_none_right_eq_some.mp taken
    exact .quiet (quiet.handleOld rfl)
  | relay signal => exact relay_effect taken
  | yieldToRelay c => exact yieldToRelay_effect taken
  | endRelay => exact endRelay_effect taken
  | send => exact send_effect taken safe
  | unregister c => exact unregister_effect taken
  | advance goroutine => exact advance_effect taken safe
  | write c sent => exact write_effect taken
  | seeClosed c =>
    obtain ⟨-, ⟨⟩⟩ := Option.ite_none_right_eq_some.mp taken
    exact .quiet (quiet.handleOld rfl)
  | seeQuit c =>
    obtain ⟨-, ⟨⟩⟩ := Option.ite_none_right_eq_some.mp taken
    exact .quiet (quiet.handleOld rfl)
  | stop number => exact stop_effect taken
  | quitRun number =>
    obtain ⟨-, ⟨⟩⟩ := Option.ite_none_right_eq_some.mp taken
    exact .quiet ((quiet.run rfl rfl).moveStopOn rfl)
  | quitHandler number c =>
    obtain ⟨-, ⟨⟩⟩ := Option.ite_none_right_eq_some.mp taken
    exact .quiet ((quiet.handleOld rfl).moveStopOn rfl)
  | quitTwice number => exact absurd trivial safe
  | closeQuit => exact closeQuit_effect taken
  | seeQuitClosed =>
    obtain ⟨-, ⟨⟩⟩ := Option.ite_none_right_eq_some.mp taken
    exact .quiet (quiet.run rfl rfl)
  | yieldToStop number c => exact yieldToStop_effect taken
  | endStop number => exact endStop_effect taken

end Steps

/-- The condition on a step. The receive of `safeClose` does not find a channel open that
another unregistration, past its own receive, is about to close; a close does not come
between the relay loop's turn for the client and its send; no `Stop` is called once the
quit channel is closed, and that is not closed while a `Stop` waits to send on it. -/
def Apart (hub : Hub Client) : Event Client → Prop
  | .advance goroutine => ∀ c,
    (hub.unregistering goroutine = some (c, .receive) → c ∉ hub.closed →
      ∀ other, other ≠ goroutine → hub.unregistering other ≠ some (c, .close)) ∧
    (hub.unregistering goroutine = some (c, .close) → hub.runLoop.sends ≠ some c)
  | .stop _ => hub.quitClosed = false
  | .closeQuit => ∀ number, (hub.stops number).isSending = false
  | _ => True

namespace Hub

/-- The client has not reached the map yet: its handler is new, or the loop is about to
insert it. -/
def Fresh (hub : Hub Client) (c : Client) : Prop :=
  (hub.handler c).isNew = true ∨ hub.runLoop.registers = some c

/-- What holds in every state of a run whose steps are apart. A closed channel has left the
map; a fresh client has been in nobody's hands, and the loop inserts no client a second
time; an unregistration that has deleted its client is alone in being about to close it,
and finds it open; and so does the relay loop that is about to send. -/
structure Sound (hub : Hub Client) : Prop where
  closed : ∀ c ∈ hub.closed, c ∉ hub.clients
  freshAbsent : ∀ c, hub.Fresh c → c ∉ hub.clients
  freshOpen : ∀ c, hub.Fresh c → c ∉ hub.closed
  freshUncalled : ∀ c, hub.Fresh c → ∀ goroutine unregisterStep,
    hub.unregistering goroutine ≠ some (c, unregisterStep)
  freshUnsent : ∀ c, hub.Fresh c → hub.runLoop.sends ≠ some c
  passed : ∀ c, hub.runLoop.registers = some c → (hub.handler c).isNew = false
  deleted : ∀ c goroutine, hub.unregistering goroutine = some (c, .receive) ∨
    hub.unregistering goroutine = some (c, .close) → c ∉ hub.clients
  closing : ∀ c goroutine, hub.unregistering goroutine = some (c, .close) → c ∉ hub.closed
  alone : ∀ c goroutine other, hub.unregistering goroutine = some (c, .close) →
    hub.unregistering other = some (c, .close) → goroutine = other
  sends : ∀ c, hub.runLoop.sends = some c → c ∉ hub.closed
  quit : hub.quitClosed = true → ∀ number, (hub.stops number).isSending = false

omit [DecidableEq Client] in
/-- The new hub is sound, since it has no clients and nobody is about to do anything. -/
theorem sound_new : (newWebsocketHub : Hub Client).Sound where
  closed _ absurd := by cases absurd
  freshAbsent _ _ absurd := by cases absurd
  freshOpen _ _ absurd := by cases absurd
  freshUncalled _ _ _ _ absurd := by cases absurd
  freshUnsent _ _ absurd := by cases absurd
  passed _ absurd := by cases absurd
  deleted _ _ absurd := by rcases absurd with absurd | absurd <;> cases absurd
  closing _ _ absurd := by cases absurd
  alone _ _ _ absurd := by cases absurd
  sends _ absurd := by cases absurd
  quit absurd := by cases absurd

namespace Sound
variable {hub next : Hub Client} {event : Event Client}

omit [DecidableEq Client] in
/-- What is fresh after a quiet step was fresh before it. -/
theorem fresh_of_quiet (quiet : Quiet event hub next) {c : Client} (fresh : next.Fresh c) :
    hub.Fresh c := by
  rcases fresh with isNew | registers
  · exact .inl (quiet.handler c isNew)
  · exact .inr (quiet.registers c registers)

omit [DecidableEq Client] in
/-- A quiet step keeps the hub sound, as long as it is not the start of a `Stop` behind the close
of the quit channel. -/
theorem quiet (sound : hub.Sound) (quiet : Quiet event hub next) (apart : Apart hub event) :
    next.Sound where
  closed := by
    rw [quiet.closed, quiet.clients]
    exact sound.closed
  freshAbsent c fresh := by
    rw [quiet.clients]
    exact sound.freshAbsent c (fresh_of_quiet quiet fresh)
  freshOpen c fresh := by
    rw [quiet.closed]
    exact sound.freshOpen c (fresh_of_quiet quiet fresh)
  freshUncalled c fresh := by
    rw [quiet.unregistering]
    exact sound.freshUncalled c (fresh_of_quiet quiet fresh)
  freshUnsent c fresh sends := sound.freshUnsent c (fresh_of_quiet quiet fresh) (quiet.sends c sends)
  passed c registers := by
    have old := sound.passed c (quiet.registers c registers)
    cases isNew : (next.handler c).isNew with
    | false => rfl
    | true => exact absurd (quiet.handler c isNew) (by simp [old])
  deleted := by
    rw [quiet.clients, quiet.unregistering]
    exact sound.deleted
  closing := by
    rw [quiet.closed, quiet.unregistering]
    exact sound.closing
  alone := by
    rw [quiet.unregistering]
    exact sound.alone
  sends c sends := by
    rw [quiet.closed]
    exact sound.sends c (quiet.sends c sends)
  quit isClosed number := by
    cases sending : (next.stops number).isSending with
    | false => rfl
    | true =>
      rcases quiet.quitClosed isClosed with wasClosed | rfl
      · rcases quiet.stops number sending with wasSending | rfl
        · exact (sound.quit wasClosed number).symm.trans wasSending |>.symm
        · have isOpen : hub.quitClosed = false := apart
          exact absurd (isOpen.symm.trans wasClosed) Bool.false_ne_true
      · rcases quiet.stops number sending with wasSending | absurd
        · exact ((apart number).symm.trans wasSending).symm
        · cases absurd

omit [DecidableEq Client] in
/-- The unregistrations after one goroutine's has moved: its own new one, or that of another
goroutine. -/
theorem of_call {goroutine other : Goroutine} {call : Option (Client × UnregisterStep)}
    {found : Client × UnregisterStep}
    (calls : (hub.call goroutine call).unregistering other = some found) :
    (other = goroutine ∧ call = some found) ∨
      (other ≠ goroutine ∧ hub.unregistering other = some found) := by
  by_cases same : other = goroutine
  · subst same
    exact .inl ⟨rfl, by simpa [Hub.call] using calls⟩
  · exact .inr ⟨same, by simpa [Hub.call, same] using calls⟩

omit [DecidableEq Client] in
/-- A goroutine stands at a step of `unregisterClient` that its client is ready for. -/
theorem call (sound : hub.Sound) (goroutine : Goroutine)
    {call : Option (Client × UnregisterStep)}
    (known : ∀ c unregisterStep, call = some (c, unregisterStep) → ¬ hub.Fresh c)
    (absent : ∀ c, call = some (c, .receive) ∨ call = some (c, .close) → c ∉ hub.clients)
    (closing : ∀ c, call = some (c, .close) → c ∉ hub.closed ∧
      ∀ other, other ≠ goroutine → hub.unregistering other ≠ some (c, .close)) :
    (hub.call goroutine call).Sound where
  closed := sound.closed
  freshAbsent := sound.freshAbsent
  freshOpen := sound.freshOpen
  freshUncalled c fresh other unregisterStep calls := by
    rcases of_call calls with ⟨-, here⟩ | ⟨-, there⟩
    · exact known c unregisterStep here fresh
    · exact sound.freshUncalled c fresh other unregisterStep there
  freshUnsent := sound.freshUnsent
  passed := sound.passed
  deleted c other calls := by
    rcases calls with calls | calls
    · rcases of_call calls with ⟨-, here⟩ | ⟨-, there⟩
      · exact absent c (.inl here)
      · exact sound.deleted c other (.inl there)
    · rcases of_call calls with ⟨-, here⟩ | ⟨-, there⟩
      · exact absent c (.inr here)
      · exact sound.deleted c other (.inr there)
  closing c other calls := by
    rcases of_call calls with ⟨-, here⟩ | ⟨-, there⟩
    · exact (closing c here).1
    · exact sound.closing c other there
  alone c first second calls calls' := by
    rcases of_call calls with ⟨rfl, here⟩ | ⟨different, there⟩
    · rcases of_call calls' with ⟨rfl, -⟩ | ⟨different, there⟩
      · rfl
      · exact absurd there ((closing c here).2 second different)
    · rcases of_call calls' with ⟨rfl, here⟩ | ⟨-, there'⟩
      · exact absurd there ((closing c here).2 first different)
      · exact sound.alone c first second there there'
  sends := sound.sends
  quit := sound.quit

/-- The deletion of a client from the map keeps the hub sound, since fewer clients have to be
open. -/
theorem delete (sound : hub.Sound) (c : Client) :
    { hub with clients := hub.clients.erase c }.Sound where
  closed other isClosed member := sound.closed other isClosed (Finset.mem_of_mem_erase member)
  freshAbsent other fresh member := sound.freshAbsent other fresh (Finset.mem_of_mem_erase member)
  freshOpen := sound.freshOpen
  freshUncalled := sound.freshUncalled
  freshUnsent := sound.freshUnsent
  passed := sound.passed
  deleted other goroutine calls member :=
    sound.deleted other goroutine calls (Finset.mem_of_mem_erase member)
  closing := sound.closing
  alone := sound.alone
  sends := sound.sends
  quit := sound.quit

/-- The close of a channel that is in nobody's hands any more. -/
theorem close (sound : hub.Sound) {c : Client} (known : ¬ hub.Fresh c) (absent : c ∉ hub.clients)
    (uncalled : ∀ goroutine, hub.unregistering goroutine ≠ some (c, .close))
    (unsent : hub.runLoop.sends ≠ some c) :
    { hub with closed := Insert.insert c hub.closed }.Sound where
  closed other isClosed := by
    rcases Finset.mem_insert.mp isClosed with rfl | wasClosed
    · exact absent
    · exact sound.closed other wasClosed
  freshAbsent := sound.freshAbsent
  freshOpen other fresh isClosed := by
    rcases Finset.mem_insert.mp isClosed with rfl | wasClosed
    · exact known fresh
    · exact sound.freshOpen other fresh wasClosed
  freshUncalled := sound.freshUncalled
  freshUnsent := sound.freshUnsent
  passed := sound.passed
  deleted := sound.deleted
  closing other goroutine calls isClosed := by
    rcases Finset.mem_insert.mp isClosed with rfl | wasClosed
    · exact uncalled goroutine calls
    · exact sound.closing other goroutine calls wasClosed
  alone := sound.alone
  sends other sending isClosed := by
    rcases Finset.mem_insert.mp isClosed with rfl | wasClosed
    · exact unsent sending
    · exact sound.sends other sending wasClosed
  quit := sound.quit

/-- The loop takes a new client from its handler. -/
theorem register (sound : hub.Sound) {c : Client} (isNew : (hub.handler c).isNew = true) :
    ({ hub with runLoop := .registering c }.handle c .starting).Sound := by
  have wasFresh : ∀ other,
      ({ hub with runLoop := .registering c }.handle c .starting).Fresh other → hub.Fresh other := by
    intro other fresh
    by_cases same : other = c
    · subst same
      exact .inl isNew
    · rcases fresh with stillNew | registers
      · exact .inl (by simpa [Hub.handle, same] using stillNew)
      · exact absurd (Option.some.inj registers).symm same
  exact
  { closed := sound.closed
    freshAbsent := fun other fresh => sound.freshAbsent other (wasFresh other fresh)
    freshOpen := fun other fresh => sound.freshOpen other (wasFresh other fresh)
    freshUncalled := fun other fresh => sound.freshUncalled other (wasFresh other fresh)
    freshUnsent := fun _ _ absurd => by cases absurd
    passed := fun other registers => by
      obtain rfl := Option.some.inj registers
      simp [Hub.handle, HandlerStep.isNew]
    deleted := sound.deleted
    closing := sound.closing
    alone := sound.alone
    sends := fun _ absurd => by cases absurd
    quit := sound.quit }

/-- The loop inserts the client that it took, which is then no new one any more. -/
theorem insert (sound : hub.Sound) {c : Client} (registers : hub.runLoop.registers = some c) :
    { hub with clients := Insert.insert c hub.clients, runLoop := .selecting }.Sound := by
  have fresh : hub.Fresh c := .inr registers
  have wasFresh : ∀ other,
      { hub with clients := Insert.insert c hub.clients, runLoop := .selecting }.Fresh other →
        hub.Fresh other ∧ other ≠ c := by
    rintro other (isNew | absurd)
    · refine ⟨.inl isNew, ?_⟩
      rintro rfl
      exact Bool.false_ne_true ((sound.passed other registers).symm.trans isNew)
    · cases absurd
  exact
  { closed := fun other isClosed member => by
      rcases Finset.mem_insert.mp member with rfl | was
      · exact sound.freshOpen other fresh isClosed
      · exact sound.closed other isClosed was
    freshAbsent := fun other still member => by
      rcases Finset.mem_insert.mp member with same | was
      · exact (wasFresh other still).2 same
      · exact sound.freshAbsent other (wasFresh other still).1 was
    freshOpen := fun other still => sound.freshOpen other (wasFresh other still).1
    freshUncalled := fun other still => sound.freshUncalled other (wasFresh other still).1
    freshUnsent := fun _ _ absurd => by cases absurd
    passed := fun _ absurd => by cases absurd
    deleted := fun other goroutine calls member => by
      rcases Finset.mem_insert.mp member with rfl | was
      · rcases calls with calls | calls
        · exact sound.freshUncalled other fresh goroutine _ calls
        · exact sound.freshUncalled other fresh goroutine _ calls
      · exact sound.deleted other goroutine calls was
    closing := sound.closing
    alone := sound.alone
    sends := fun _ absurd => by cases absurd
    quit := sound.quit }

omit [DecidableEq Client] in
/-- The range of the relay loop yields a client of the map. -/
theorem yield (sound : hub.Sound) {signal : HubSignal} {range : MapRange Client} {c : Client}
    (member : c ∈ hub.clients) : { hub with runLoop := .sending signal range c }.Sound := by
  have wasFresh : ∀ other,
      { hub with runLoop := .sending signal range c }.Fresh other → hub.Fresh other := by
    rintro other (isNew | absurd)
    · exact .inl isNew
    · cases absurd
  exact
  { closed := sound.closed
    freshAbsent := fun other fresh => sound.freshAbsent other (wasFresh other fresh)
    freshOpen := fun other fresh => sound.freshOpen other (wasFresh other fresh)
    freshUncalled := fun other fresh => sound.freshUncalled other (wasFresh other fresh)
    freshUnsent := fun other fresh sends => by
      obtain rfl := Option.some.inj sends
      exact sound.freshAbsent c (wasFresh c fresh) member
    passed := fun _ absurd => by cases absurd
    deleted := sound.deleted
    closing := sound.closing
    alone := sound.alone
    sends := fun other sends isClosed => by
      obtain rfl := Option.some.inj sends
      exact sound.closed c isClosed member
    quit := sound.quit }

/-- Every effect of a step that is apart keeps the hub sound. -/
theorem effect (sound : hub.Sound) (effect : Effect hub event next) (apart : Apart hub event) :
    next.Sound := by
  cases effect with
  | quiet quiet => exact sound.quiet quiet apart
  | registered c isNew => exact sound.register isNew
  | inserted c registers => exact sound.insert registers
  | yielded signal range c member => exact sound.yield member
  | began goroutine c quiet known =>
    have notFresh : ¬ hub.Fresh c := by
      intro fresh
      rcases known with member | sends | ⟨unregistered, old⟩
      · exact sound.freshAbsent c fresh member
      · exact sound.freshUnsent c fresh sends
      · rcases fresh with isNew | registers
        · exact Bool.false_ne_true (old.symm.trans isNew)
        · rw [unregistered] at registers
          cases registers
    refine (sound.quiet quiet apart).call goroutine ?_ ?_ ?_
    · rintro other unregisterStep ⟨⟩ fresh
      exact notFresh (fresh_of_quiet quiet fresh)
    · rintro other (absurd | absurd) <;> cases absurd
    · rintro other ⟨⟩
  | left goroutine =>
    refine sound.call goroutine ?_ ?_ ?_
    · rintro other unregisterStep ⟨⟩
    · rintro other (absurd | absurd) <;> cases absurd
    · rintro other ⟨⟩
  | found goroutine c call =>
    refine sound.call goroutine ?_ ?_ ?_
    · rintro other unregisterStep ⟨⟩ fresh
      exact sound.freshUncalled c fresh goroutine _ call
    · rintro other (absurd | absurd) <;> cases absurd
    · rintro other ⟨⟩
  | deleted goroutine c call =>
    refine (sound.delete c).call goroutine ?_ ?_ ?_
    · rintro other unregisterStep ⟨⟩ fresh
      exact sound.freshUncalled c fresh goroutine _ call
    · rintro other (⟨⟨⟩⟩ | ⟨⟨⟩⟩)
      exact Finset.notMem_erase c hub.clients
    · rintro other ⟨⟩
  | received goroutine c call isOpen =>
    refine sound.call goroutine ?_ ?_ ?_
    · rintro other unregisterStep ⟨⟩ fresh
      exact sound.freshUncalled c fresh goroutine _ call
    · rintro other (⟨⟨⟩⟩ | ⟨⟨⟩⟩)
      exact sound.deleted c goroutine (.inl call)
    · rintro other ⟨⟩
      exact ⟨isOpen, (apart c).1 call isOpen⟩
  | closed goroutine c call isOpen =>
    have left : (hub.call goroutine none).Sound := by
      refine sound.call goroutine ?_ ?_ ?_
      · rintro other unregisterStep ⟨⟩
      · rintro other (absurd | absurd) <;> cases absurd
      · rintro other ⟨⟩
    refine left.close ?_ (sound.deleted c goroutine (.inr call)) ?_ ((apart c).2 call)
    · exact fun fresh => sound.freshUncalled c fresh goroutine _ call
    · intro other calls
      rcases of_call calls with ⟨-, absurd⟩ | ⟨different, there⟩
      · cases absurd
      · exact different (sound.alone c other goroutine there call)

/-- No step of a sound hub is a panic. -/
theorem safe (sound : hub.Sound) {package : Package} (taken : step package hub event = some next) :
    ¬ Panics hub event := by
  replace taken := (step_eq_some.mp taken).2
  intro panics
  cases event with
  | send =>
    obtain ⟨c, sends, isClosed⟩ := panics
    exact sound.sends c sends isClosed
  | advance goroutine =>
    obtain ⟨c, call, isClosed⟩ := panics
    exact sound.closing c goroutine call isClosed
  | quitTwice number =>
    obtain ⟨⟨sending, isClosed⟩, -⟩ := Option.ite_none_right_eq_some.mp taken
    exact Bool.false_ne_true ((sound.quit isClosed number).symm.trans sending)
  | _ => exact panics

/-- A step that is apart keeps the hub sound. -/
theorem step (sound : hub.Sound) {package : Package} (apart : Apart hub event)
    (taken : step package hub event = some next) : next.Sound :=
  sound.effect (step_effect taken (sound.safe taken)) apart

end Sound

end Hub

section Panicking
variable {package : Package} {hub next : Hub Client} {event : Event Client}

/-- A step that is no panic does not end the program. -/
theorem Effect.panicked (effect : Effect hub event next) : next.panicked = hub.panicked := by
  cases effect with
  | quiet quiet => exact quiet.panicked
  | began goroutine c quiet known => exact quiet.panicked
  | registered => rfl
  | inserted => rfl
  | yielded => rfl
  | left => rfl
  | found => rfl
  | deleted => rfl
  | received => rfl
  | closed => rfl

/-- The step of a goroutine that is inside `unregisterClient`. -/
theorem step_advance (package : Package) {goroutine : Goroutine} {c : Client} {unregisterStep : UnregisterStep}
    (alive : hub.panicked = false)
    (call : hub.unregistering goroutine = some (c, unregisterStep)) :
    step package hub (.advance goroutine) =
      some (hub.unregisterClient goroutine c unregisterStep) :=
  step_eq_some.mpr ⟨alive, by simp only [move, call]⟩

/-- The close of a channel that is closed ends the program. -/
theorem panicked_of_close (package : Package) {goroutine : Goroutine} {c : Client} (alive : hub.panicked = false)
    (call : hub.unregistering goroutine = some (c, .close)) (isClosed : c ∈ hub.closed) :
    step package hub (.advance goroutine) = some { hub with panicked := true } := by
  rw [step_advance package alive call]
  simp only [Hub.unregisterClient, if_pos isClosed]

/-- Two unregistrations that are about to close one channel close it twice. -/
theorem closes_twice (package : Package) {goroutine other : Goroutine} {c : Client} (alive : hub.panicked = false)
    (isOpen : c ∉ hub.closed) (different : other ≠ goroutine)
    (call : hub.unregistering goroutine = some (c, .close))
    (otherCall : hub.unregistering other = some (c, .close)) :
    ∃ final, exec (step package) hub [.advance other, .advance goroutine] = some final ∧
      final.panicked = true := by
  have first := step_advance package alive otherCall
  simp only [Hub.unregisterClient, if_neg isOpen] at first
  have stillCalls : ({ hub with closed := Insert.insert c hub.closed }.call other
      none).unregistering goroutine = some (c, .close) := by
    simpa [Hub.call, different.symm] using call
  have stillAlive : ({ hub with closed := Insert.insert c hub.closed }.call other
      none).panicked = false := alive
  have second := panicked_of_close package stillAlive stillCalls
    (Finset.mem_insert_self c hub.closed)
  exact ⟨_, (exec_cons first).trans (exec_cons second), rfl⟩

/-- The relay loop sends on the channel that was closed after its range yielded the client. -/
theorem sends_after_close (package : Package) {c : Client} (alive : hub.panicked = false)
    (isClosed : c ∈ hub.closed) (sends : hub.runLoop.sends = some c) :
    ∃ final, exec (step package) hub [.send] = some final ∧ final.panicked = true := by
  cases running : hub.runLoop with
  | sending signal range client =>
    rw [running] at sends
    obtain rfl := Option.some.inj sends
    have taken : step package hub .send = some { hub with panicked := true } :=
      step_eq_some.mpr ⟨alive, by simp only [move, running, Hub.signal, if_pos isClosed]⟩
    exact ⟨_, exec_cons taken, rfl⟩
  | _ =>
    rw [running] at sends
    cases sends

/-- A `Stop` that waits to send on the closed quit channel ends the program. -/
theorem quits_twice (package : Package) {number : Nat} (alive : hub.panicked = false)
    (isClosed : hub.quitClosed = true) (sending : (hub.stops number).isSending = true) :
    ∃ final, exec (step package) hub [.quitTwice number] = some final ∧
      final.panicked = true := by
  have taken : step package hub (.quitTwice number) = some { hub with panicked := true } :=
    step_eq_some.mpr ⟨alive, if_pos ⟨sending, isClosed⟩⟩
  exact ⟨_, exec_cons taken, rfl⟩

/-- A step of a sound hub that is not apart is followed, in at most two steps, by a panic. -/
theorem panics_after (sound : hub.Sound) (taken : step package hub event = some next)
    (notApart : ¬ Apart hub event) :
    ∃ further final, further.length ≤ 2 ∧ exec (step package) next further = some final ∧
      final.panicked = true := by
  have effect := step_effect taken (sound.safe taken)
  have alive : next.panicked = false :=
    effect.panicked.trans (step_eq_some.mp taken).1
  cases event with
  | advance goroutine =>
    have running := (step_eq_some.mp taken).1
    obtain ⟨c, notApart⟩ := not_forall.mp notApart
    rcases not_and_or.mp notApart with receives | closes
    · -- both unregistrations are now about to close
      obtain ⟨call, isOpen, other, different, otherCall⟩ :
          hub.unregistering goroutine = some (c, .receive) ∧ c ∉ hub.closed ∧
            ∃ other, other ≠ goroutine ∧ hub.unregistering other = some (c, .close) := by
        simpa using receives
      rw [step_advance package running call] at taken
      simp only [Hub.unregisterClient, if_neg isOpen] at taken
      cases taken
      obtain ⟨final, ran, dead⟩ := closes_twice package alive isOpen different
        (by simp [Hub.call]) (by simpa [Hub.call, different] using otherCall)
      exact ⟨_, final, le_refl 2, ran, dead⟩
    · -- the relay loop now sends to a closed channel
      obtain ⟨call, sends⟩ := Classical.not_imp.mp closes
      rw [step_advance package running call] at taken
      simp only [Hub.unregisterClient, if_neg (sound.closing c goroutine call)] at taken
      cases taken
      obtain ⟨final, ran, dead⟩ := sends_after_close package alive
        (Finset.mem_insert_self c hub.closed) (Classical.not_not.mp sends)
      exact ⟨[.send], final, Nat.le_succ 1, ran, dead⟩
  | stop number =>
    have isClosed : hub.quitClosed = true := by simpa [Apart] using notApart
    replace taken := (step_eq_some.mp taken).2
    simp only [move] at taken
    split at taken
    · cases taken
      have sending : ((hub.moveStop number .sending).stops number).isSending = true := by
        simp [Hub.moveStop, StopStep.isSending]
      obtain ⟨final, ran, dead⟩ := quits_twice package alive isClosed sending
      exact ⟨[.quitTwice number], final, Nat.le_succ 1, ran, dead⟩
    · cases taken
  | closeQuit =>
    obtain ⟨number, sending⟩ := not_forall.mp notApart
    replace taken := (step_eq_some.mp taken).2
    simp only [move] at taken
    split at taken
    · cases taken
      obtain ⟨final, ran, dead⟩ := quits_twice package alive rfl
        (by simpa using sending)
      exact ⟨[.quitTwice number], final, Nat.le_succ 1, ran, dead⟩
    · cases taken
  | _ => exact absurd trivial notApart

end Panicking

/-- The events that bring a client into the map. -/
def joins (c : Client) : List (Event Client) :=
  [.connect c, .register c, .insert, .startLoop c]

/-- A signal that the handler of a client, not ready for it, does not get. -/
def misses (c : Client) : List (Event Client) :=
  [.relay 0, .yieldToRelay c, .send, .endRelay]

/-- Two unregistrations of a client that misses two signals both find it in the map and its
channel open, and both close it; and one of them closes it while the relay loop is about to
send the next signal. -/
theorem missed_signals_panic :
    (∃ final, exec (step .main) (newWebsocketHub : Hub Nat)
        ([.connect 0, .register 0, .insert] ++ misses 0 ++ misses 0 ++
          [.advance (.spawned 0), .advance (.spawned 1), .advance (.spawned 0),
            .advance (.spawned 1), .advance (.spawned 0), .advance (.spawned 1),
            .advance (.spawned 0), .advance (.spawned 1)]) = some final ∧
      final.panicked = true) ∧
    (∃ final, exec (step .main) (newWebsocketHub : Hub Nat)
        ([.connect 0, .register 0, .insert] ++ misses 0 ++ [.relay 0, .yieldToRelay 0] ++
          [.advance (.spawned 0), .advance (.spawned 0), .advance (.spawned 0),
            .advance (.spawned 0), .send]) = some final ∧
      final.panicked = true) :=
  ⟨⟨_, rfl, rfl⟩, ⟨_, rfl, rfl⟩⟩

/-- In a run whose steps are all apart, any number of clients, signals and stops in any
order, nothing sends on or closes a closed channel; and each step that is not apart, after
such a run, is followed in at most two steps by one that does. -/
theorem apart_never_panics (package : Package) {events : List (Event Client)} {hub : Hub Client}
    (admitted : Admitted (step package) Apart newWebsocketHub events)
    (ran : exec (step package) newWebsocketHub events = some hub) :
    hub.panicked = false ∧
      ∀ event next, step package hub event = some next → ¬ Apart hub event →
        ∃ further final, further.length ≤ 2 ∧ exec (step package) next further = some final ∧
          final.panicked = true := by
  have both := exec_invariant (fun hub => hub.Sound ∧ hub.panicked = false)
    (fun _ _ _ known apart taken => ⟨known.1.step apart taken,
      (step_effect taken (known.1.safe taken)).panicked.trans known.2⟩)
    ⟨Hub.sound_new, rfl⟩ admitted ran
  exact ⟨both.2, fun _ _ taken notApart => panics_after both.1 taken notApart⟩

/-- A client that joins, gets a signal, fails to write it and unregisters. -/
theorem apart_never_panics_served :
    ∃ hub, exec (step .main) (newWebsocketHub : Hub Nat)
        (joins 0 ++ [.relay 0, .yieldToRelay 0, .send, .endRelay, .write 0 false, .unregister 0,
          .advance .run, .advance .run, .advance .run, .advance .run]) = some hub ∧
      hub.panicked = false ∧ 0 ∈ hub.closed := by
  have admitted : Admitted (step .main) Apart (newWebsocketHub : Hub Nat)
      (joins 0 ++ [.relay 0, .yieldToRelay 0, .send, .endRelay, .write 0 false, .unregister 0,
        .advance .run, .advance .run, .advance .run, .advance .run]) := by
    iterate 10 refine admitted_cons rfl trivial ?_
    iterate 2
      refine admitted_cons rfl (fun c => ⟨?_, ?_⟩) ?_
      · intro absurd
        cases absurd
      · intro absurd
        cases absurd
    refine admitted_cons rfl (fun c => ⟨?_, ?_⟩) ?_
    · rintro - - other different calls
      cases other with
      | run => exact different rfl
      | stop number => cases calls
      | spawned number => cases calls
    · intro absurd
      cases absurd
    refine admitted_cons rfl (fun c => ⟨?_, ?_⟩) trivial
    · intro absurd
      cases absurd
    · intro _ absurd
      cases absurd
  have ran : exec (step .main) (newWebsocketHub : Hub Nat)
      (joins 0 ++ [.relay 0, .yieldToRelay 0, .send, .endRelay, .write 0 false, .unregister 0,
        .advance .run, .advance .run, .advance .run, .advance .run]) = some _ := rfl
  exact ⟨_, ran, (apart_never_panics .main admitted ran).1, by decide⟩

end Hcexplorer.Websocket

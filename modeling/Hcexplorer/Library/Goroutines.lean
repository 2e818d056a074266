import Mathlib.Data.List.Basic
import Mathlib.Logic.Function.Basic

/-!
# Threads that communicate over channels

A thread runs a piece of code again and again. Code sends and receives on channels,
takes and frees mutexes, and performs actions on a memory that all threads share.
A channel has a buffer of a fixed capacity; on one of capacity zero a sender and a
receiver meet, and neither goes on alone. A non-blocking operation, the `select`
with a default of Go, takes place if the buffer allows it and is skipped otherwise.

A step is one operation of one thread, or a value that arrives from or leaves to
the world outside. A run is a sequence of steps with the events they leave behind.
The inversion rules say what a step of a thread can be, given the operation that is
next in its code.

Channels, values, mutexes, actions and threads are arbitrary types.
-/

namespace Hcexplorer.Goroutines

/-- What code works with: channels and what they carry, mutexes, and actions with
what they return. -/
structure Signature where
  Channel : Type
  Value : Channel → Type
  Mutex : Type
  Action : Type
  Result : Action → Type

/-- Code of a thread, up to its end or a panic, with its sends, receives, locks and actions in
order. -/
inductive Code (S : Signature) where
  | done
  | panic
  | send (channel : S.Channel) (value : S.Value channel) (next : Code S)
  | receive (channel : S.Channel) (next : S.Value channel → Code S)
  | trySend (channel : S.Channel) (value : S.Value channel) (next : Code S)
  | tryReceive (channel : S.Channel) (next : Option (S.Value channel) → Code S)
  | lock (mutex : S.Mutex) (next : Code S)
  | unlock (mutex : S.Mutex) (next : Code S)
  | act (action : S.Action) (next : S.Result action → Code S)

/-- One piece of code after another, which is not reached if the first one panics. -/
def Code.andThen {S : Signature} : Code S → Code S → Code S
  | .done, after => after
  | .panic, _ => .panic
  | .send channel value next, after => .send channel value (next.andThen after)
  | .receive channel next, after => .receive channel fun value => (next value).andThen after
  | .trySend channel value next, after => .trySend channel value (next.andThen after)
  | .tryReceive channel next, after => .tryReceive channel fun value => (next value).andThen after
  | .lock mutex next, after => .lock mutex (next.andThen after)
  | .unlock mutex next, after => .unlock mutex (next.andThen after)
  | .act action next, after => .act action fun result => (next result).andThen after

/-- The code of the threads, the capacities, what an action may return and do to the
memory, and the channels that the world outside sends on or receives from. -/
structure System (S : Signature) (Thread Memory : Type) where
  main : Thread → Code S
  capacity : S.Channel → Nat
  performs : (action : S.Action) → Memory → S.Result action → Memory → Prop
  inward : S.Channel → Prop
  outward : S.Channel → Prop

/-- What is left of each thread's code, what each buffer and the memory hold, and
which mutexes are taken. -/
structure State (S : Signature) (Thread Memory : Type) where
  code : Thread → Code S
  buffer : (channel : S.Channel) → List (S.Value channel)
  held : S.Mutex → Bool
  memory : Memory

/-- What a step leaves behind in the record of a run. -/
inductive Event (S : Signature) (Thread : Type) where
  | arrived (channel : S.Channel) (value : S.Value channel)
  | sent (thread : Thread) (channel : S.Channel) (value : S.Value channel)
  | received (thread : Thread) (channel : S.Channel) (value : S.Value channel)
  | locked (thread : Thread) (mutex : S.Mutex)
  | unlocked (thread : Thread) (mutex : S.Mutex)
  | performed (thread : Thread) (action : S.Action) (result : S.Result action)

variable {S : Signature} {Thread Memory : Type}

namespace State

/-- A thread goes on with the given code, and the others stay where they are. -/
def goOn [DecidableEq Thread] (state : State S Thread Memory) (thread : Thread) (next : Code S) :
    State S Thread Memory :=
  { state with code := Function.update state.code thread next }

/-- A buffer holds the given values, and the other buffers stay as they are. -/
def fill [DecidableEq S.Channel] (state : State S Thread Memory) (channel : S.Channel)
    (values : List (S.Value channel)) : State S Thread Memory :=
  { state with buffer := Function.update state.buffer channel values }

/-- A mutex is taken or freed, and the others stay as they are. -/
def hold [DecidableEq S.Mutex] (state : State S Thread Memory) (mutex : S.Mutex) (taken : Bool) :
    State S Thread Memory :=
  { state with held := Function.update state.held mutex taken }

/-- The memory is changed, and threads, buffers and mutexes stay as they are. -/
def remember (state : State S Thread Memory) (memory : Memory) : State S Thread Memory :=
  { state with memory := memory }

section Thread

variable [DecidableEq Thread] (state : State S Thread Memory) (thread : Thread) (next : Code S)

/-- A thread that goes on has the given code. -/
@[simp] theorem goOn_code_self : (state.goOn thread next).code thread = next :=
  Function.update_self ..

/-- When a thread goes on, any other has the code that it had. -/
@[simp] theorem goOn_code_of_ne {other : Thread} (apart : other ≠ thread) :
    (state.goOn thread next).code other = state.code other :=
  Function.update_of_ne apart ..

/-- When a thread goes on, the buffers stay as they are. -/
@[simp] theorem goOn_buffer : (state.goOn thread next).buffer = state.buffer := rfl

/-- When a thread goes on, the mutexes stay as they are. -/
@[simp] theorem goOn_held : (state.goOn thread next).held = state.held := rfl

end Thread

section Channel

variable [DecidableEq S.Channel] (state : State S Thread Memory) (channel : S.Channel)
  (values : List (S.Value channel))

/-- A change of a buffer leaves the code of the threads. -/
@[simp] theorem fill_code : (state.fill channel values).code = state.code := rfl

/-- A buffer that is changed holds the given values. -/
@[simp] theorem fill_buffer_self : (state.fill channel values).buffer channel = values :=
  Function.update_self ..

/-- A change of one buffer leaves any other as it is. -/
@[simp] theorem fill_buffer_of_ne {other : S.Channel} (apart : other ≠ channel) :
    (state.fill channel values).buffer other = state.buffer other :=
  Function.update_of_ne apart ..

/-- A value put in an empty buffer is the only one there. -/
theorem fill_buffer_of_empty {value : S.Value channel} (empty : state.buffer channel = []) :
    (state.fill channel (state.buffer channel ++ [value])).buffer channel = [value] := by
  rw [fill_buffer_self, empty, List.nil_append]

/-- A change of a buffer leaves the mutexes as they are. -/
@[simp] theorem fill_held : (state.fill channel values).held = state.held := rfl

end Channel

section Mutex

variable [DecidableEq S.Mutex] (state : State S Thread Memory) (mutex : S.Mutex) (taken : Bool)

/-- A change of a mutex leaves the code of the threads. -/
@[simp] theorem hold_code : (state.hold mutex taken).code = state.code := rfl

/-- A change of a mutex leaves the buffers as they are. -/
@[simp] theorem hold_buffer : (state.hold mutex taken).buffer = state.buffer := rfl

/-- A mutex that is changed is taken or free as given. -/
@[simp] theorem hold_held_self : (state.hold mutex taken).held mutex = taken :=
  Function.update_self ..

/-- A change of one mutex leaves any other as it is. -/
@[simp] theorem hold_held_of_ne {other : S.Mutex} (apart : other ≠ mutex) :
    (state.hold mutex taken).held other = state.held other :=
  Function.update_of_ne apart ..

end Mutex

section Memory

variable (state : State S Thread Memory) (memory : Memory)

/-- A change of the memory leaves the code of the threads. -/
@[simp] theorem remember_code : (state.remember memory).code = state.code := rfl

/-- A change of the memory leaves the buffers as they are. -/
@[simp] theorem remember_buffer : (state.remember memory).buffer = state.buffer := rfl

/-- A change of the memory leaves the mutexes as they are. -/
@[simp] theorem remember_held : (state.remember memory).held = state.held := rfl

end Memory

end State

namespace System

variable (system : System S Thread Memory)

/-- What a thread goes on with: at the end of its code it starts again. -/
def resume (thread : Thread) : Code S → Code S
  | .done => system.main thread
  | code => code

/-- The code a thread has ahead, which is its main code again where it has come to its end. -/
def ahead (state : State S Thread Memory) (thread : Thread) : Code S :=
  system.resume thread (state.code thread)

section Ahead

variable (state : State S Thread Memory) (thread : Thread) (next : Code S)

/-- A thread that goes on has the given code ahead, or its main code if this is the end. -/
@[simp] theorem ahead_goOn_self [DecidableEq Thread] :
    system.ahead (state.goOn thread next) thread = system.resume thread next := by
  simp [ahead]

/-- When a thread goes on, any other has ahead what it had. -/
@[simp] theorem ahead_goOn_of_ne [DecidableEq Thread] {other : Thread} (apart : other ≠ thread) :
    system.ahead (state.goOn thread next) other = system.ahead state other := by
  simp [ahead, apart]

/-- A change of a buffer leaves what every thread has ahead. -/
@[simp] theorem ahead_fill [DecidableEq S.Channel] (channel : S.Channel)
    (values : List (S.Value channel)) :
    system.ahead (state.fill channel values) = system.ahead state := rfl

/-- A change of a mutex leaves what every thread has ahead. -/
@[simp] theorem ahead_hold [DecidableEq S.Mutex] (mutex : S.Mutex) (taken : Bool) :
    system.ahead (state.hold mutex taken) = system.ahead state := rfl

/-- A change of the memory leaves what every thread has ahead. -/
@[simp] theorem ahead_remember (memory : Memory) :
    system.ahead (state.remember memory) = system.ahead state := rfl

end Ahead

variable [DecidableEq Thread] [DecidableEq S.Channel] [DecidableEq S.Mutex]

/-- One operation of a thread. Two that meet on a channel move together, and the
sender counts as the one that moves. -/
inductive Moves (state : State S Thread Memory) (thread : Thread) :
    List (Event S Thread) → State S Thread Memory → Prop where
  | sends {channel : S.Channel} {value : S.Value channel} {next : Code S}
      (code : system.ahead state thread = .send channel value next)
      (room : (state.buffer channel).length < system.capacity channel) :
      Moves state thread [.sent thread channel value]
        ((state.fill channel (state.buffer channel ++ [value])).goOn thread next)
  | receives {channel : S.Channel} {next : S.Value channel → Code S} {value : S.Value channel}
      {rest : List (S.Value channel)} (code : system.ahead state thread = .receive channel next)
      (present : state.buffer channel = value :: rest) :
      Moves state thread [.received thread channel value]
        ((state.fill channel rest).goOn thread (next value))
  | meets {channel : S.Channel} {value : S.Value channel} {next : Code S} (other : Thread)
      {nextOther : S.Value channel → Code S}
      (code : system.ahead state thread = .send channel value next)
      (unbuffered : system.capacity channel = 0)
      (codeOther : system.ahead state other = .receive channel nextOther) :
      Moves state thread [.sent thread channel value, .received other channel value]
        ((state.goOn thread next).goOn other (nextOther value))
  | sendsNow {channel : S.Channel} {value : S.Value channel} {next : Code S}
      (code : system.ahead state thread = .trySend channel value next)
      (room : (state.buffer channel).length < system.capacity channel) :
      Moves state thread [.sent thread channel value]
        ((state.fill channel (state.buffer channel ++ [value])).goOn thread next)
  | skipsSend {channel : S.Channel} {value : S.Value channel} {next : Code S}
      (code : system.ahead state thread = .trySend channel value next)
      (full : system.capacity channel ≤ (state.buffer channel).length) :
      Moves state thread [] (state.goOn thread next)
  | receivesNow {channel : S.Channel} {next : Option (S.Value channel) → Code S}
      {value : S.Value channel} {rest : List (S.Value channel)}
      (code : system.ahead state thread = .tryReceive channel next)
      (present : state.buffer channel = value :: rest) :
      Moves state thread [.received thread channel value]
        ((state.fill channel rest).goOn thread (next (some value)))
  | skipsReceive {channel : S.Channel} {next : Option (S.Value channel) → Code S}
      (code : system.ahead state thread = .tryReceive channel next)
      (absent : state.buffer channel = []) :
      Moves state thread [] (state.goOn thread (next none))
  | locks {mutex : S.Mutex} {next : Code S} (code : system.ahead state thread = .lock mutex next)
      (free : state.held mutex = false) :
      Moves state thread [.locked thread mutex] ((state.hold mutex true).goOn thread next)
  | unlocks {mutex : S.Mutex} {next : Code S} (code : system.ahead state thread = .unlock mutex next) :
      Moves state thread [.unlocked thread mutex] ((state.hold mutex false).goOn thread next)
  | acts {action : S.Action} {next : S.Result action → Code S} (result : S.Result action)
      {memory : Memory} (code : system.ahead state thread = .act action next)
      (performed : system.performs action state.memory result memory) :
      Moves state thread [.performed thread action result]
        ((state.remember memory).goOn thread (next result))

/-- A step: a thread moves, a value arrives from outside, or one leaves. -/
inductive Step (state : State S Thread Memory) :
    List (Event S Thread) → State S Thread Memory → Prop where
  | moves {thread : Thread} {events : List (Event S Thread)} {after : State S Thread Memory}
      (moved : system.Moves state thread events after) : Step state events after
  | arrives {channel : S.Channel} (inward : system.inward channel) (value : S.Value channel)
      (room : (state.buffer channel).length < system.capacity channel) :
      Step state [.arrived channel value] (state.fill channel (state.buffer channel ++ [value]))
  | leaves {channel : S.Channel} (outward : system.outward channel) {value : S.Value channel}
      {rest : List (S.Value channel)} (present : state.buffer channel = value :: rest) :
      Step state [] (state.fill channel rest)

/-- Steps one after another, with their events in order. -/
inductive Run (start : State S Thread Memory) :
    List (Event S Thread) → State S Thread Memory → Prop where
  | start : Run start [] start
  | step {past new : List (Event S Thread)} {before after : State S Thread Memory}
      (earlier : Run start past before) (taken : system.Step before new after) :
      Run start (past ++ new) after

/-- All threads at the start of their code, empty buffers and free mutexes. -/
def initial (memory : Memory) : State S Thread Memory where
  code := system.main
  buffer := fun _ => []
  held := fun _ => false
  memory := memory

variable {system}

/-- A run and one more operation of a thread. -/
theorem Run.move {start before after : State S Thread Memory} {past new : List (Event S Thread)}
    (earlier : system.Run start past before) (thread : Thread)
    (moved : system.Moves before thread new after) : system.Run start (past ++ new) after :=
  .step earlier (.moves moved)

/-- An invariant of states and the events so far that every step keeps holds at the
end of every run. -/
theorem Run.invariant {start final : State S Thread Memory} {events : List (Event S Thread)}
    (invariant : List (Event S Thread) → State S Thread Memory → Prop) (holds : invariant [] start)
    (kept : ∀ past new before after, invariant past before → system.Step before new after →
      invariant (past ++ new) after)
    (run : system.Run start events final) : invariant events final := by
  induction run with
  | start => exact holds
  | step earlier taken inductionHypothesis => exact kept _ _ _ _ inductionHypothesis taken

namespace Moves

variable {state after : State S Thread Memory} {thread : Thread} {events : List (Event S Thread)}

/-- A thread does not move after a panic, so no step is one of such a thread. -/
theorem of_panic (moved : system.Moves state thread events after)
    (code : system.ahead state thread = .panic) : False := by
  cases moved
  all_goals simp_all

/-- A send puts the value in the buffer, or hands it to a thread that receives. -/
theorem of_send {channel : S.Channel} {value : S.Value channel} {next : Code S}
    (moved : system.Moves state thread events after)
    (code : system.ahead state thread = .send channel value next) :
    ((state.buffer channel).length < system.capacity channel ∧
      events = [.sent thread channel value] ∧
      after = (state.fill channel (state.buffer channel ++ [value])).goOn thread next) ∨
    ∃ (other : Thread) (nextOther : S.Value channel → Code S),
      system.capacity channel = 0 ∧ system.ahead state other = .receive channel nextOther ∧
      events = [.sent thread channel value, .received other channel value] ∧
      after = (state.goOn thread next).goOn other (nextOther value) := by
  cases moved with
  | sends codeHere room =>
    rw [code] at codeHere
    cases codeHere
    exact Or.inl ⟨room, rfl, rfl⟩
  | meets other codeHere unbuffered codeOther =>
    rw [code] at codeHere
    cases codeHere
    exact Or.inr ⟨_, _, unbuffered, codeOther, rfl, rfl⟩
  | _ => simp_all

/-- A thread that receives takes the first value of the buffer. -/
theorem of_receive {channel : S.Channel} {next : S.Value channel → Code S}
    (moved : system.Moves state thread events after)
    (code : system.ahead state thread = .receive channel next) :
    ∃ value rest, state.buffer channel = value :: rest ∧
      events = [.received thread channel value] ∧
      after = (state.fill channel rest).goOn thread (next value) := by
  cases moved with
  | receives codeHere present =>
    rw [code] at codeHere
    cases codeHere
    exact ⟨_, _, present, rfl, rfl⟩
  | _ => simp_all

/-- A non-blocking send puts the value in the buffer or does nothing. -/
theorem of_trySend {channel : S.Channel} {value : S.Value channel} {next : Code S}
    (moved : system.Moves state thread events after)
    (code : system.ahead state thread = .trySend channel value next) :
    (events = [.sent thread channel value] ∧
      after = (state.fill channel (state.buffer channel ++ [value])).goOn thread next) ∨
    (events = [] ∧ after = state.goOn thread next) := by
  cases moved with
  | sendsNow codeHere =>
    rw [code] at codeHere
    cases codeHere
    exact Or.inl ⟨rfl, rfl⟩
  | skipsSend codeHere =>
    rw [code] at codeHere
    cases codeHere
    exact Or.inr ⟨rfl, rfl⟩
  | _ => simp_all

/-- A non-blocking receive takes the first value of the buffer if there is one. -/
theorem of_tryReceive {channel : S.Channel} {next : Option (S.Value channel) → Code S}
    {value : S.Value channel} {rest : List (S.Value channel)}
    (moved : system.Moves state thread events after)
    (code : system.ahead state thread = .tryReceive channel next)
    (present : state.buffer channel = value :: rest) :
    events = [.received thread channel value] ∧
      after = (state.fill channel rest).goOn thread (next (some value)) := by
  cases moved with
  | receivesNow codeHere presentHere =>
    rw [code] at codeHere
    cases codeHere
    rw [present] at presentHere
    cases presentHere
    exact ⟨rfl, rfl⟩
  | skipsReceive codeHere absent =>
    rw [code] at codeHere
    cases codeHere
    rw [present] at absent
    cases absent
  | _ => simp_all

/-- A thread that locks takes a free mutex and goes on behind it. -/
theorem of_lock {mutex : S.Mutex} {next : Code S} (moved : system.Moves state thread events after)
    (code : system.ahead state thread = .lock mutex next) :
    events = [.locked thread mutex] ∧ after = (state.hold mutex true).goOn thread next := by
  cases moved with
  | locks codeHere =>
    rw [code] at codeHere
    cases codeHere
    exact ⟨rfl, rfl⟩
  | _ => simp_all

/-- A thread that unlocks frees the mutex and goes on behind it. -/
theorem of_unlock {mutex : S.Mutex} {next : Code S}
    (moved : system.Moves state thread events after)
    (code : system.ahead state thread = .unlock mutex next) :
    events = [.unlocked thread mutex] ∧ after = (state.hold mutex false).goOn thread next := by
  cases moved with
  | unlocks codeHere =>
    rw [code] at codeHere
    cases codeHere
    exact ⟨rfl, rfl⟩
  | _ => simp_all

/-- An action returns a result and a memory that it may, and the thread goes on with the result. -/
theorem of_act {action : S.Action} {next : S.Result action → Code S}
    (moved : system.Moves state thread events after)
    (code : system.ahead state thread = .act action next) :
    ∃ result memory, system.performs action state.memory result memory ∧
      events = [.performed thread action result] ∧
      after = (state.remember memory).goOn thread (next result) := by
  cases moved with
  | acts result codeHere performed =>
    rw [code] at codeHere
    cases codeHere
    exact ⟨_, _, performed, rfl, rfl⟩
  | _ => simp_all

end Moves

end System

end Hcexplorer.Goroutines

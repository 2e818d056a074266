import Hcexplorer.Library.Runs
import Mathlib.Data.Fintype.Basic
import Mathlib.Data.Finset.Max
import Mathlib.Logic.Function.Basic

/-!
# Callers under read-write mutexes whose writers wait

Callers perform scripts of operations, in any interleaving. A writer first announces itself,
and then waits until those who read have left; from its announcement on nobody new gets in to
read. Who arrives to read meanwhile is queued, and all who are queued get in together when
the writer leaves. So a caller that reads and asks to read again may wait for a writer that
waits for it.

The law is that nothing else goes wrong. Where mutexes are taken in the order of a rank, apart
from one that is read already, and no writer announces itself while a caller that reads has
to read again, somebody can always go on.

Mutexes, callers and memories are arbitrary.
-/

namespace Hcexplorer.ReadWriteLocks

open Runs

/-- The operations on a mutex, taking it and giving it back for reading and for writing. -/
inductive Locking where
  | rLock
  | rUnlock
  | lock
  | unlock
deriving DecidableEq, Repr

/-- What a caller does: an operation on a mutex, or an action on the shared memory and its own,
which has no result when it panics. -/
inductive Operation (ι δ ω : Type) where
  | locking (kind : Locking) (mutex : ι)
  | action (perform : δ → ω → Option (δ × ω))

/-- A writer, and whether it is inside or only announced. -/
structure Writer (κ : Type) where
  caller : κ
  entered : Bool
deriving DecidableEq, Repr

/-- What every caller has to do yet, who is queued to read, who reads and writes, and the
memories. -/
structure State (ι κ δ ω : Type) where
  todo : κ → List (Operation ι δ ω)
  queued : κ → Bool
  reads : ι → κ → Nat
  writer : ι → Option (Writer κ)
  shared : δ
  own : κ → ω

variable {ι κ δ ω : Type} [DecidableEq ι]

/-! ## What a script holds -/

/-- The operation is one of a kind on a mutex. -/
def Operation.is (kind : Locking) (mutex : ι) : Operation ι δ ω → Bool
  | .locking other place => decide (other = kind ∧ place = mutex)
  | .action _ => false

/-- How many operations of a kind on a mutex a script has. -/
def ahead (kind : Locking) (mutex : ι) (script : List (Operation ι δ ω)) : Nat :=
  script.countP (Operation.is kind mutex)

/-- A script without operations has none of a kind. -/
@[simp] theorem ahead_nil (kind : Locking) (mutex : ι) :
    ahead kind mutex ([] : List (Operation ι δ ω)) = 0 := rfl

/-- The first operation of a script counts if it is of the kind and on the mutex. -/
theorem ahead_cons (kind : Locking) (mutex : ι) (operation : Operation ι δ ω)
    (script : List (Operation ι δ ω)) :
    ahead kind mutex (operation :: script) =
      ahead kind mutex script + if operation.is kind mutex then 1 else 0 := List.countP_cons

/-- Where every mutex is given back in the end, a caller with this script ahead reads the mutex. -/
def Reads (mutex : ι) (script : List (Operation ι δ ω)) : Prop :=
  ahead .rLock mutex script < ahead .rUnlock mutex script

/-- Where every mutex is given back in the end, a caller with this script ahead writes the mutex. -/
def Writes (mutex : ι) (script : List (Operation ι δ ω)) : Prop :=
  ahead .lock mutex script < ahead .unlock mutex script

/-- What is taken is above what is held, or read already. -/
def InOrder (rank : ι → Nat) (script : List (Operation ι δ ω)) : Operation ι δ ω → Prop
  | .action perform => ∀ shared own, (perform shared own).isSome = true
  | .locking .rLock mutex =>
    Reads mutex script ∨ ∀ held, Reads held script ∨ Writes held script → rank held < rank mutex
  | .locking .rUnlock _ => True
  | .locking .lock mutex => ∀ held, Reads held script ∨ Writes held script → rank held < rank mutex
  | .locking .unlock _ => True

/-- A script that takes mutexes in the order of the rank, gives back only what it took, and
whose actions do not panic. -/
def Disciplined (rank : ι → Nat) : List (Operation ι δ ω) → Prop
  | [] => True
  | operation :: rest =>
    Disciplined rank rest ∧ InOrder rank (operation :: rest) operation ∧
      ∀ mutex, ahead .rLock mutex rest ≤ ahead .rUnlock mutex rest ∧
        ahead .lock mutex rest ≤ ahead .unlock mutex rest

/-- A script that gives back every mutex as often as it takes it, for reading and for writing. -/
def Balanced (script : List (Operation ι δ ω)) : Prop :=
  ∀ mutex, ahead .rLock mutex script = ahead .rUnlock mutex script ∧
    ahead .lock mutex script = ahead .unlock mutex script

/-- A caller without anything ahead holds no mutex. -/
theorem holds_nil {mutex : ι} :
    ¬(Reads mutex ([] : List (Operation ι δ ω)) ∨ Writes mutex ([] : List (Operation ι δ ω))) := by
  simp [Reads, Writes]

/-! ## Steps -/

/-- Nobody has begun: every caller has its script ahead, and no mutex is held. -/
def State.start (scripts : κ → List (Operation ι δ ω)) (shared : δ) (own : κ → ω) : State ι κ δ ω :=
  ⟨scripts, fun _ => false, fun _ _ => 0, fun _ => none, shared, own⟩

/-- The caller is queued to read the mutex, behind a writer. -/
def State.awaits (state : State ι κ δ ω) (mutex : ι) (caller : κ) : Bool :=
  state.queued caller && (state.todo caller).head?.any (Operation.is .rLock mutex)

/-- A caller that is queued to read a mutex has the reading as its next operation. -/
theorem awaits_iff {state : State ι κ δ ω} {mutex : ι} {caller : κ} :
    state.awaits mutex caller = true ↔
      state.queued caller = true ∧ ∃ rest, state.todo caller = .locking .rLock mutex :: rest := by
  rw [State.awaits, Bool.and_eq_true]
  refine and_congr_right fun _ => ?_
  cases state.todo caller with
  | nil => simp
  | cons operation rest => cases operation <;> simp [Operation.is]

/-- The writer leaves, and who is queued gets in. -/
def State.released (state : State ι κ δ ω) (mutex : ι) : State ι κ δ ω :=
  { state with
    todo := fun caller =>
      if state.awaits mutex caller then (state.todo caller).tail else state.todo caller
    queued := fun caller => state.queued caller && !state.awaits mutex caller
    reads := Function.update state.reads mutex fun caller =>
      if state.awaits mutex caller then state.reads mutex caller + 1 else state.reads mutex caller
    writer := Function.update state.writer mutex none }

/-- What is ahead of everybody when a writer leaves. -/
theorem ahead_released (state : State ι κ δ ω) (mutex : ι) (kind : Locking) (place : ι) (other : κ) :
    ahead kind place (state.todo other) = ahead kind place ((state.released mutex).todo other) +
      if state.awaits mutex other = true ∧ kind = .rLock ∧ place = mutex then 1 else 0 := by
  cases awaited : state.awaits mutex other with
  | false => simp only [State.released, awaited, Bool.false_eq_true, if_false, false_and, Nat.add_zero]
  | true =>
    obtain ⟨-, rest, next⟩ := awaits_iff.mp awaited
    simp only [State.released, awaited, if_true, true_and, next, List.tail_cons, ahead_cons,
      Operation.is, decide_eq_true_eq, @eq_comm Locking .rLock, @eq_comm ι mutex]

/-- How often everybody reads when a writer leaves: once more for those that were queued at its
mutex. -/
theorem reads_released (state : State ι κ δ ω) (mutex place : ι) (other : κ) :
    (state.released mutex).reads place other =
      state.reads place other + if state.awaits mutex other = true ∧ place = mutex then 1 else 0 := by
  by_cases same : place = mutex
  · subst same
    cases awaited : state.awaits place other <;> simp [State.released, awaited]
  · simp [State.released, same]

namespace State

/-- The state with a writer of a mutex, or without one. -/
def withWriter (state : State ι κ δ ω) (mutex : ι) (writer : Option (Writer κ)) : State ι κ δ ω :=
  { state with writer := Function.update state.writer mutex writer }

variable {state : State ι κ δ ω} {mutex place : ι} {writer : Option (Writer κ)}

/-- Who writes does not change what the callers have to do. -/
@[simp] theorem withWriter_todo : (state.withWriter mutex writer).todo = state.todo := rfl

/-- Who writes does not change who is queued. -/
@[simp] theorem withWriter_queued : (state.withWriter mutex writer).queued = state.queued := rfl

/-- Who writes does not change who reads. -/
@[simp] theorem withWriter_reads : (state.withWriter mutex writer).reads = state.reads := rfl

/-- Who writes when one mutex changes hands: the given writer there, and the same as before
elsewhere. -/
theorem writer_withWriter : (state.withWriter mutex writer).writer place =
    if place = mutex then writer else state.writer place := Function.update_apply ..

/-- A mutex that is written stays so when one gets a writer. -/
theorem withWriter_written {writer : Writer κ} (written : state.writer place ≠ none) :
    (state.withWriter mutex (some writer)).writer place ≠ none := by
  rw [writer_withWriter]
  by_cases same : place = mutex
  · simp only [same, if_true, ne_eq, reduceCtorEq, not_false_eq_true]
  · simpa only [same, if_false] using written

end State

variable [DecidableEq κ]

namespace State

/-- A caller goes on to the rest of its script. -/
def proceed (state : State ι κ δ ω) (caller : κ) (rest : List (Operation ι δ ω)) : State ι κ δ ω :=
  { state with todo := Function.update state.todo caller rest }

/-- The state in which a caller reads a mutex a number of times. -/
def withReads (state : State ι κ δ ω) (mutex : ι) (caller : κ) (number : Nat) : State ι κ δ ω :=
  { state with
    reads := Function.update state.reads mutex
      (Function.update (state.reads mutex) caller number) }

variable {state : State ι κ δ ω} {mutex place : ι} {caller other : κ} {number : Nat}
  {rest : List (Operation ι δ ω)}

omit [DecidableEq ι] in
/-- Going on does not change who is queued. -/
@[simp] theorem proceed_queued : (state.proceed caller rest).queued = state.queued := rfl

omit [DecidableEq ι] in
/-- Going on does not change who reads. -/
@[simp] theorem proceed_reads : (state.proceed caller rest).reads = state.reads := rfl

omit [DecidableEq ι] in
/-- Going on does not change who writes. -/
@[simp] theorem proceed_writer : (state.proceed caller rest).writer = state.writer := rfl

/-- How often a caller reads does not change what the callers have to do. -/
@[simp] theorem withReads_todo : (state.withReads mutex caller number).todo = state.todo := rfl

/-- How often a caller reads does not change who is queued. -/
@[simp] theorem withReads_queued : (state.withReads mutex caller number).queued = state.queued := rfl

/-- How often a caller reads does not change who writes. -/
@[simp] theorem withReads_writer : (state.withReads mutex caller number).writer = state.writer := rfl

/-- How often everybody reads when one does more or less often. -/
theorem reads_withReads : (state.withReads mutex caller number).reads place other =
    if place = mutex ∧ other = caller then number else state.reads place other := by
  by_cases samePlace : place = mutex
  · subst samePlace
    by_cases same : other = caller
    · subst same
      simp [withReads]
    · simp [withReads, same]
  · simp [withReads, samePlace]

end State

/-- What is ahead of everybody when one goes on. -/
theorem ahead_proceed {state : State ι κ δ ω} {caller : κ} {operation : Operation ι δ ω}
    {rest : List (Operation ι δ ω)} (next : state.todo caller = operation :: rest) (kind : Locking)
    (mutex : ι) (other : κ) :
    ahead kind mutex (state.todo other) = ahead kind mutex ((state.proceed caller rest).todo other) +
      if other = caller ∧ operation.is kind mutex = true then 1 else 0 := by
  by_cases same : other = caller
  · subst same
    simp only [State.proceed, Function.update_self, next, ahead_cons, true_and]
  · simp only [State.proceed, Function.update_of_ne same, same, false_and, if_false, Nat.add_zero]

omit [DecidableEq ι] in
/-- What the others have to do when one goes on. -/
theorem todo_proceed_of_ne {state : State ι κ δ ω} {caller other : κ} {rest : List (Operation ι δ ω)}
    (different : other ≠ caller) : (state.proceed caller rest).todo other = state.todo other :=
  Function.update_of_ne different _ _

section Stepping

variable [Fintype κ]

/-- The next operation of a caller, if it can be performed. -/
def step (state : State ι κ δ ω) (caller : κ) : Option (State ι κ δ ω) :=
  match state.todo caller with
  | [] => none
  | .action perform :: rest =>
    (perform state.shared (state.own caller)).map fun after =>
      { state.proceed caller rest with
        shared := after.1
        own := Function.update state.own caller after.2 }
  | .locking .rLock mutex :: rest =>
    if state.queued caller then none
    else if state.writer mutex = none then
      some ((state.proceed caller rest).withReads mutex caller (state.reads mutex caller + 1))
    else some { state with queued := Function.update state.queued caller true }
  | .locking .rUnlock mutex :: rest =>
    if state.reads mutex caller = 0 then none
    else some ((state.proceed caller rest).withReads mutex caller (state.reads mutex caller - 1))
  | .locking .lock mutex :: rest =>
    if state.writer mutex = none ∨ state.writer mutex = some ⟨caller, false⟩ then
      if ∀ reader, state.reads mutex reader = 0 then
        some ((state.proceed caller rest).withWriter mutex (some ⟨caller, true⟩))
      else if state.writer mutex = none then some (state.withWriter mutex (some ⟨caller, false⟩))
      else none
    else none
  | .locking .unlock mutex :: rest =>
    if state.writer mutex = some ⟨caller, true⟩ then some ((state.proceed caller rest).released mutex)
    else none

/-- The step of a caller, with what it needs. -/
inductive Steps (state : State ι κ δ ω) (caller : κ) : State ι κ δ ω → Prop where
  | acted {perform : δ → ω → Option (δ × ω)} {rest : List (Operation ι δ ω)} {after : δ × ω}
      (next : state.todo caller = .action perform :: rest) :
      Steps state caller { state.proceed caller rest with
        shared := after.1
        own := Function.update state.own caller after.2 }
  | read {mutex : ι} {rest : List (Operation ι δ ω)}
      (next : state.todo caller = .locking .rLock mutex :: rest)
      (arrives : state.queued caller = false) (noWriter : state.writer mutex = none) :
      Steps state caller
        ((state.proceed caller rest).withReads mutex caller (state.reads mutex caller + 1))
  | queue {mutex : ι} {rest : List (Operation ι δ ω)}
      (next : state.todo caller = .locking .rLock mutex :: rest)
      (written : state.writer mutex ≠ none) :
      Steps state caller { state with queued := Function.update state.queued caller true }
  | unread {mutex : ι} {rest : List (Operation ι δ ω)}
      (next : state.todo caller = .locking .rUnlock mutex :: rest)
      (reading : state.reads mutex caller ≠ 0) :
      Steps state caller
        ((state.proceed caller rest).withReads mutex caller (state.reads mutex caller - 1))
  | enter {mutex : ι} {rest : List (Operation ι δ ω)}
      (next : state.todo caller = .locking .lock mutex :: rest)
      (free : state.writer mutex = none ∨ state.writer mutex = some ⟨caller, false⟩)
      (noReaders : ∀ reader, state.reads mutex reader = 0) :
      Steps state caller ((state.proceed caller rest).withWriter mutex (some ⟨caller, true⟩))
  | announce {mutex : ι} {rest : List (Operation ι δ ω)}
      (next : state.todo caller = .locking .lock mutex :: rest)
      (noWriter : state.writer mutex = none) :
      Steps state caller (state.withWriter mutex (some ⟨caller, false⟩))
  | leave {mutex : ι} {rest : List (Operation ι δ ω)}
      (next : state.todo caller = .locking .unlock mutex :: rest)
      (writes : state.writer mutex = some ⟨caller, true⟩) :
      Steps state caller ((state.proceed caller rest).released mutex)

/-- Every step is one of the seven: an action, or a kind of progress with a mutex. -/
theorem step_cases {state after : State ι κ δ ω} {caller : κ}
    (taken : step state caller = some after) : Steps state caller after := by
  cases next : state.todo caller with
  | nil => simp only [step, next, reduceCtorEq] at taken
  | cons operation rest =>
    cases operation with
    | action perform =>
      simp only [step, next, Option.map_eq_some_iff] at taken
      obtain ⟨result, -, rfl⟩ := taken
      exact .acted next
    | locking kind mutex =>
      cases kind with
      | rLock =>
        simp only [step, next] at taken
        split_ifs at taken with queued noWriter
        · obtain rfl := Option.some.inj taken
          exact .read next (Bool.not_eq_true _ ▸ queued) noWriter
        · obtain rfl := Option.some.inj taken
          exact .queue next noWriter
      | rUnlock =>
        simp only [step, next] at taken
        split_ifs at taken with none_
        obtain rfl := Option.some.inj taken
        exact .unread next none_
      | lock =>
        simp only [step, next] at taken
        split_ifs at taken with free noReaders noWriter
        · obtain rfl := Option.some.inj taken
          exact .enter next free noReaders
        · obtain rfl := Option.some.inj taken
          exact .announce next noWriter
      | unlock =>
        simp only [step, next] at taken
        split_ifs at taken with writes
        obtain rfl := Option.some.inj taken
        exact .leave next writes

end Stepping

/-! ## Consistent states -/

/-- The state agrees with what is ahead: who reads and writes gives back as much more than it
takes. -/
structure Consistent (rank : ι → Nat) (state : State ι κ δ ω) : Prop where
  disciplined : ∀ caller, Disciplined rank (state.todo caller)
  reads : ∀ caller mutex, state.reads mutex caller + ahead .rLock mutex (state.todo caller) =
    ahead .rUnlock mutex (state.todo caller)
  writes : ∀ caller mutex, ahead .unlock mutex (state.todo caller) =
    ahead .lock mutex (state.todo caller) +
      if state.writer mutex = some ⟨caller, true⟩ then 1 else 0
  announced : ∀ caller mutex, state.writer mutex = some ⟨caller, false⟩ →
    ∃ rest, state.todo caller = .locking .lock mutex :: rest
  queued : ∀ caller, state.queued caller = true →
    ∃ mutex rest, state.todo caller = .locking .rLock mutex :: rest ∧ state.writer mutex ≠ none
  /-- Who reads what a writer waits for does not have to read it again. -/
  drains : ∀ mutex, state.writer mutex ≠ none → ∀ reader, 0 < state.reads mutex reader →
    ahead .rLock mutex (state.todo reader) = 0

section Preservation

variable {rank : ι → Nat} {state : State ι κ δ ω} {caller : κ} {operation : Operation ι δ ω}
  {rest : List (Operation ι δ ω)} {mutex : ι}

/-- A caller that goes on leaves every script disciplined. -/
theorem Consistent.disciplined_proceed (consistent : Consistent rank state)
    (next : state.todo caller = operation :: rest) (other : κ) :
    Disciplined rank ((state.proceed caller rest).todo other) := by
  by_cases same : other = caller
  · subst same
    have before := consistent.disciplined other
    rw [next] at before
    simpa only [State.proceed, Function.update_self] using before.1
  · rw [todo_proceed_of_ne same]
    exact consistent.disciplined other

/-- A caller who does not take the mutex next did not announce itself. -/
theorem Consistent.announced_proceed (consistent : Consistent rank state)
    (next : state.todo caller = operation :: rest) (notLock : operation.is .lock mutex = false)
    {other : κ} (writer : state.writer mutex = some ⟨other, false⟩) :
    ∃ rest', (state.proceed caller rest).todo other = .locking .lock mutex :: rest' := by
  obtain ⟨later, isNext⟩ := consistent.announced other mutex writer
  by_cases same : other = caller
  · subst same
    obtain ⟨rfl, -⟩ := List.cons.inj (next.symm.trans isNext)
    simp [Operation.is] at notLock
  · exact ⟨later, (todo_proceed_of_ne same).trans isNext⟩

/-- Who is not queued goes on without a change of the queue. -/
theorem Consistent.queued_proceed (consistent : Consistent rank state)
    (next : state.todo caller = operation :: rest)
    (notRead : state.queued caller = true → ∀ place, operation.is .rLock place = false) {other : κ}
    (queued : state.queued other = true) :
    ∃ place rest', (state.proceed caller rest).todo other = .locking .rLock place :: rest' ∧
      state.writer place ≠ none := by
  obtain ⟨place, later, isNext, written⟩ := consistent.queued other queued
  by_cases same : other = caller
  · subst same
    obtain ⟨rfl, -⟩ := List.cons.inj (next.symm.trans isNext)
    have impossible := notRead queued place
    simp [Operation.is] at impossible
  · exact ⟨place, later, (todo_proceed_of_ne same).trans isNext, written⟩

/-- A reader of a mutex that is written or announced has no reading of it ahead after any caller
goes on either. -/
theorem Consistent.drains_proceed (consistent : Consistent rank state)
    (next : state.todo caller = operation :: rest) (written : state.writer mutex ≠ none) {reader : κ}
    (reading : 0 < state.reads mutex reader) :
    ahead .rLock mutex ((state.proceed caller rest).todo reader) = 0 := by
  have before := consistent.drains mutex written reader reading
  rw [ahead_proceed next] at before
  omega

/-- Where the operation is neither a taking nor a giving back for reading, the caller goes on
without a change of the reads. -/
theorem Consistent.reads_proceed (consistent : Consistent rank state)
    (next : state.todo caller = operation :: rest)
    (notRead : ∀ place, operation.is .rLock place = false ∧ operation.is .rUnlock place = false)
    (other : κ) (place : ι) :
    state.reads place other + ahead .rLock place ((state.proceed caller rest).todo other) =
      ahead .rUnlock place ((state.proceed caller rest).todo other) := by
  have before := consistent.reads other place
  rw [ahead_proceed next .rLock, ahead_proceed next .rUnlock] at before
  simpa only [notRead place, Bool.false_eq_true, and_false, if_false, Nat.add_zero] using before

/-- Where the operation is neither a taking nor a giving back for writing, the caller goes on
without a change of the writers. -/
theorem Consistent.writes_proceed (consistent : Consistent rank state)
    (next : state.todo caller = operation :: rest)
    (notWrite : ∀ place, operation.is .lock place = false ∧ operation.is .unlock place = false)
    (other : κ) (place : ι) :
    ahead .unlock place ((state.proceed caller rest).todo other) =
      ahead .lock place ((state.proceed caller rest).todo other) +
        if state.writer place = some ⟨other, true⟩ then 1 else 0 := by
  have before := consistent.writes other place
  rw [ahead_proceed next .lock, ahead_proceed next .unlock] at before
  simpa only [notWrite place, Bool.false_eq_true, and_false, if_false, Nat.add_zero] using before

/-- An action keeps the state consistent, whatever it does to the memories. -/
theorem Consistent.acted (consistent : Consistent rank state) {perform : δ → ω → Option (δ × ω)}
    (next : state.todo caller = .action perform :: rest) (after : δ × ω) :
    Consistent rank { state.proceed caller rest with
      shared := after.1
      own := Function.update state.own caller after.2 } := by
  exact ⟨consistent.disciplined_proceed next,
    consistent.reads_proceed next fun _ => ⟨rfl, rfl⟩,
    consistent.writes_proceed next fun _ => ⟨rfl, rfl⟩,
    fun other place writer => consistent.announced_proceed next rfl writer,
    fun other queued => consistent.queued_proceed next (fun _ _ => rfl) queued,
    fun place written reader reading => consistent.drains_proceed next written reading⟩

/-- A reader that gets in at once keeps the state consistent. -/
theorem Consistent.read (consistent : Consistent rank state)
    (next : state.todo caller = .locking .rLock mutex :: rest)
    (arrives : state.queued caller = false) (noWriter : state.writer mutex = none) :
    Consistent rank
      ((state.proceed caller rest).withReads mutex caller (state.reads mutex caller + 1)) := by
  have counts := ahead_proceed next
  simp only [Operation.is, decide_eq_true_eq] at counts
  refine ⟨consistent.disciplined_proceed next, fun other place => ?_,
    consistent.writes_proceed next fun _ => by simp [Operation.is],
    fun other place writer => consistent.announced_proceed next rfl writer,
    fun other queued => consistent.queued_proceed next (fun yes => ?_) queued,
    fun place written reader reading => ?_⟩
  · have before := consistent.reads other place
    rw [counts .rLock, counts .rUnlock] at before
    simp only [State.reads_withReads, State.withReads_todo, State.proceed_reads]
    clear counts
    grind
  · rw [arrives] at yes
    cases yes
  · have different : place ≠ mutex := fun same => written (same ▸ noWriter)
    rw [State.reads_withReads, if_neg (fun both => different both.1)] at reading
    exact consistent.drains_proceed next written reading

/-- A reader that is queued keeps the state consistent. -/
theorem Consistent.queue (consistent : Consistent rank state)
    (next : state.todo caller = .locking .rLock mutex :: rest)
    (written : state.writer mutex ≠ none) :
    Consistent rank { state with queued := Function.update state.queued caller true } := by
  refine ⟨consistent.disciplined, consistent.reads, consistent.writes, consistent.announced,
    fun other queued => ?_, consistent.drains⟩
  by_cases same : other = caller
  · subst same
    exact ⟨mutex, rest, next, written⟩
  · exact consistent.queued other (by simpa only [Function.update_of_ne same] using queued)

/-- A reader that leaves keeps the state consistent. -/
theorem Consistent.unread (consistent : Consistent rank state)
    (next : state.todo caller = .locking .rUnlock mutex :: rest)
    (reading : state.reads mutex caller ≠ 0) :
    Consistent rank
      ((state.proceed caller rest).withReads mutex caller (state.reads mutex caller - 1)) := by
  have counts := ahead_proceed next
  simp only [Operation.is, decide_eq_true_eq] at counts
  refine ⟨consistent.disciplined_proceed next, fun other place => ?_,
    consistent.writes_proceed next fun _ => by simp [Operation.is],
    fun other place writer => consistent.announced_proceed next rfl writer,
    fun other queued => consistent.queued_proceed next (fun _ _ => rfl) queued,
    fun place written reader stillReading => ?_⟩
  · have before := consistent.reads other place
    rw [counts .rLock, counts .rUnlock] at before
    simp only [State.reads_withReads, State.withReads_todo, State.proceed_reads]
    clear counts
    grind
  · have wasReading : 0 < state.reads place reader := by
      simp only [State.reads_withReads, State.proceed_reads] at stillReading
      grind
    exact consistent.drains_proceed next written wasReading

/-- A writer that gets in keeps the state consistent. -/
theorem Consistent.enter (consistent : Consistent rank state)
    (next : state.todo caller = .locking .lock mutex :: rest)
    (free : state.writer mutex = none ∨ state.writer mutex = some ⟨caller, false⟩)
    (noReaders : ∀ reader, state.reads mutex reader = 0) :
    Consistent rank ((state.proceed caller rest).withWriter mutex (some ⟨caller, true⟩)) := by
  have counts := ahead_proceed next
  simp only [Operation.is, decide_eq_true_eq] at counts
  refine ⟨consistent.disciplined_proceed next,
    consistent.reads_proceed next fun _ => by simp [Operation.is], fun other place => ?_,
    fun other place writer => ?_, fun other queued => ?_, fun place written reader reading => ?_⟩
  · have before := consistent.writes other place
    rw [counts .lock, counts .unlock] at before
    simp only [State.writer_withWriter, State.withWriter_todo, State.proceed_writer]
    clear counts
    grind
  · rw [State.writer_withWriter] at writer
    have different : place ≠ mutex := fun same => by
      rw [if_pos same] at writer
      cases writer
    rw [if_neg different] at writer
    exact consistent.announced_proceed next (by simp [Operation.is, Ne.symm different]) writer
  · obtain ⟨place, later, isNext, written⟩ := consistent.queued_proceed next (fun _ _ => rfl) queued
    exact ⟨place, later, isNext, State.withWriter_written written⟩
  · by_cases same : place = mutex
    · subst same
      exact absurd reading (by simp [noReaders])
    · rw [State.writer_withWriter, if_neg same] at written
      exact consistent.drains_proceed next written reading

/-- A writer that announces itself keeps the state consistent, if no reader has to read its mutex
again. -/
theorem Consistent.announce (consistent : Consistent rank state)
    (next : state.todo caller = .locking .lock mutex :: rest) (noWriter : state.writer mutex = none)
    (drains : ∀ reader, 0 < state.reads mutex reader → ahead .rLock mutex (state.todo reader) = 0) :
    Consistent rank (state.withWriter mutex (some ⟨caller, false⟩)) := by
  refine ⟨consistent.disciplined, consistent.reads, fun other place => ?_,
    fun other place writer => ?_, fun other queued => ?_, fun place written reader reading => ?_⟩
  · have before := consistent.writes other place
    simp only [State.writer_withWriter, State.withWriter_todo]
    grind
  · rw [State.writer_withWriter] at writer
    by_cases same : place = mutex
    · subst same
      rw [if_pos rfl] at writer
      cases writer
      exact ⟨rest, next⟩
    · rw [if_neg same] at writer
      exact consistent.announced other place writer
  · obtain ⟨place, later, isNext, written⟩ := consistent.queued other queued
    exact ⟨place, later, isNext, State.withWriter_written written⟩
  · by_cases same : place = mutex
    · subst same
      exact drains reader reading
    · rw [State.writer_withWriter, if_neg same] at written
      exact consistent.drains place written reader reading

/-- A writer that leaves keeps the state consistent, as the queued readers get in. -/
theorem Consistent.leave (consistent : Consistent rank state)
    (next : state.todo caller = .locking .unlock mutex :: rest)
    (writes : state.writer mutex = some ⟨caller, true⟩) :
    Consistent rank ((state.proceed caller rest).released mutex) := by
  have counts := ahead_proceed next
  simp only [Operation.is, decide_eq_true_eq] at counts
  have countsToo := ahead_released (state.proceed caller rest) mutex
  have writerAfter : ∀ place, ((state.proceed caller rest).released mutex).writer place =
      if place = mutex then none else state.writer place := fun place => Function.update_apply ..
  have notAwaiting : ∀ other place rest', (state.proceed caller rest).todo other =
      .locking .lock place :: rest' → (state.proceed caller rest).awaits mutex other = false := by
    intro other place rest' isNext
    rw [State.awaits, isNext]
    simp [Operation.is]
  refine ⟨fun other => ?_, fun other place => ?_, fun other place => ?_, fun other place writer => ?_,
    fun other queued => ?_, fun place written reader reading => ?_⟩
  · have before := consistent.disciplined_proceed next other
    cases awaited : (state.proceed caller rest).awaits mutex other with
    | false => simpa only [State.released, awaited, Bool.false_eq_true, if_false] using before
    | true =>
      obtain ⟨-, later, isNext⟩ := awaits_iff.mp awaited
      rw [isNext] at before
      simpa only [State.released, awaited, if_true, isNext, List.tail_cons] using before.1
  · have before := consistent.reads other place
    rw [counts .rLock, counts .rUnlock, countsToo .rLock, countsToo .rUnlock] at before
    rw [reads_released]
    simp only [reduceCtorEq, false_and, true_and, and_false, if_false, Nat.add_zero] at before
    simp only [State.proceed_reads]
    omega
  · have before := consistent.writes other place
    rw [counts .lock, counts .unlock, countsToo .lock, countsToo .unlock] at before
    simp only [reduceCtorEq, false_and, true_and, and_false, if_false, Nat.add_zero] at before
    simp only [writerAfter]
    clear counts countsToo notAwaiting writerAfter
    grind
  · rw [writerAfter] at writer
    have different : place ≠ mutex := fun same => by
      rw [if_pos same] at writer
      cases writer
    rw [if_neg different] at writer
    obtain ⟨later, isNext⟩ := consistent.announced_proceed next (by simp [Operation.is]) writer
    refine ⟨later, ?_⟩
    simpa only [State.released, notAwaiting other place later isNext, Bool.false_eq_true, if_false]
      using isNext
  · simp only [State.released, Bool.and_eq_true, Bool.not_eq_true'] at queued
    obtain ⟨place, later, isNext, written⟩ :=
      consistent.queued_proceed next (fun _ _ => rfl) queued.1
    have different : place ≠ mutex := fun same => by
      have awaited := awaits_iff.mpr ⟨queued.1, later, same ▸ isNext⟩
      rw [queued.2] at awaited
      cases awaited
    refine ⟨place, later, ?_, ?_⟩
    · simpa only [State.released, queued.2, Bool.false_eq_true, if_false] using isNext
    · rw [writerAfter, if_neg different]
      exact written
  · rw [writerAfter] at written
    have different : place ≠ mutex := fun same => written (if_pos same)
    rw [if_neg different] at written
    rw [reads_released, if_neg (fun both => different both.2), Nat.add_zero] at reading
    have before := consistent.drains_proceed next written reading
    rw [countsToo] at before
    omega

/-- The start of balanced scripts with the discipline is consistent. -/
theorem Consistent.start {scripts : κ → List (Operation ι δ ω)} (shared : δ) (own : κ → ω)
    (disciplined : ∀ caller, Disciplined rank (scripts caller))
    (balanced : ∀ caller, Balanced (scripts caller)) :
    Consistent rank (State.start scripts shared own) := by
  refine ⟨disciplined, fun other place => ?_, fun other place => ?_, fun _ _ writer => ?_,
    fun _ queued => ?_, fun _ written => absurd rfl written⟩
  · exact (Nat.zero_add _).trans (balanced other place).1
  · exact (balanced other place).2.symm
  · cases writer
  · cases queued

variable [Fintype κ]

/-- No writer announces itself by the step while a caller that reads has to read again. -/
def orderly (state : State ι κ δ ω) (caller : κ) : Bool :=
  match state.todo caller with
  | .locking .lock mutex :: _ =>
    decide (state.writer mutex = none → ∀ reader, 0 < state.reads mutex reader →
      ahead .rLock mutex (state.todo reader) = 0)
  | _ => true

omit [DecidableEq κ] in
/-- What an orderly announcement finds: no reader of the mutex has to read it again. -/
theorem drains_of_orderly (isOrderly : orderly state caller = true)
    (next : state.todo caller = .locking .lock mutex :: rest) (noWriter : state.writer mutex = none) :
    ∀ reader, 0 < state.reads mutex reader → ahead .rLock mutex (state.todo reader) = 0 := by
  simp only [orderly, next, decide_eq_true_eq] at isOrderly
  exact isOrderly noWriter

/-- An orderly step keeps a state consistent. -/
theorem Consistent.kept {after : State ι κ δ ω} (consistent : Consistent rank state)
    (isOrderly : orderly state caller = true) (taken : step state caller = some after) :
    Consistent rank after := by
  cases step_cases taken with
  | acted next => exact consistent.acted next _
  | read next arrives noWriter => exact consistent.read next arrives noWriter
  | queue next written => exact consistent.queue next written
  | unread next reading => exact consistent.unread next reading
  | enter next free noReaders => exact consistent.enter next free noReaders
  | announce next noWriter =>
    exact consistent.announce next noWriter (drains_of_orderly isOrderly next noWriter)
  | leave next writes => exact consistent.leave next writes

end Preservation

/-! ## Progress -/

section Progress

variable {rank : ι → Nat} {state : State ι κ δ ω} {caller : κ} {mutex : ι}

/-- Who reads has more to give back than to take. -/
theorem Consistent.reads_iff (consistent : Consistent rank state) :
    Reads mutex (state.todo caller) ↔ 0 < state.reads mutex caller := by
  have counts := consistent.reads caller mutex
  rw [Reads]
  omega

/-- Nobody waits for a mutex that it reads. -/
theorem Consistent.not_reads_of_awaits (consistent : Consistent rank state)
    (awaits : state.awaits mutex caller = true) : state.reads mutex caller = 0 := by
  obtain ⟨queued, rest, next⟩ := awaits_iff.mp awaits
  obtain ⟨place, later, isNext, written⟩ := consistent.queued caller queued
  rw [next] at isNext
  cases isNext
  by_contra reading
  have drained := consistent.drains mutex written caller (Nat.pos_of_ne_zero reading)
  rw [next, ahead_cons] at drained
  simp [Operation.is] at drained

variable [Fintype κ]

/-- Where nobody can go on, somebody has what a writer has or waits for. -/
theorem Consistent.held_of_written (consistent : Consistent rank state)
    (stuck : ∀ caller, step state caller = none) (written : state.writer mutex ≠ none) :
    ∃ holder, Reads mutex (state.todo holder) ∨ Writes mutex (state.todo holder) := by
  obtain ⟨⟨writer, entered⟩, isWriter⟩ := Option.ne_none_iff_exists'.mp written
  cases entered with
  | true =>
    have counts := consistent.writes writer mutex
    rw [if_pos isWriter] at counts
    exact ⟨writer, Or.inr (by rw [Writes]; omega)⟩
  | false =>
    obtain ⟨rest, next⟩ := consistent.announced writer mutex isWriter
    have waits := stuck writer
    simp only [step, next, isWriter, or_true, if_true, reduceCtorEq, if_false, ite_eq_right_iff,
      imp_false] at waits
    obtain ⟨reader, reading⟩ := not_forall.mp waits
    exact ⟨reader, Or.inl (consistent.reads_iff.mpr (Nat.pos_of_ne_zero reading))⟩

/-- Where nobody can go on, everybody who has not finished waits for a mutex that it does not
read and that somebody has. -/
theorem Consistent.waits_of_stuck (consistent : Consistent rank state)
    (stuck : ∀ caller, step state caller = none) (unfinished : state.todo caller ≠ []) :
    ∃ kind mutex rest, state.todo caller = .locking kind mutex :: rest ∧
      (∀ held, Reads held (state.todo caller) ∨ Writes held (state.todo caller) →
        rank held < rank mutex) ∧
      ∃ holder, Reads mutex (state.todo holder) ∨ Writes mutex (state.todo holder) := by
  have waits := stuck caller
  have disciplined := consistent.disciplined caller
  cases next : state.todo caller with
  | nil => exact absurd next unfinished
  | cons operation rest =>
    rw [next] at disciplined
    obtain ⟨-, inOrder, enough⟩ := disciplined
    cases operation with
    | action perform =>
      have performed := inOrder state.shared (state.own caller)
      simp only [step, next, Option.map_eq_none_iff] at waits
      rw [waits] at performed
      cases performed
    | locking kind mutex =>
      have reads := consistent.reads caller mutex
      have writes := consistent.writes caller mutex
      obtain ⟨enoughReads, enoughWrites⟩ := enough mutex
      rw [next, ahead_cons, ahead_cons] at reads writes
      cases kind with
      | rLock =>
        have queued : state.queued caller = true := by
          by_contra arrives
          simp only [step, next, arrives, if_false] at waits
          split_ifs at waits
        obtain ⟨place, later, isNext, written⟩ := consistent.queued caller queued
        rw [next] at isNext
        cases isNext
        have awaits := awaits_iff.mpr ⟨queued, rest, next⟩
        have notReads : ¬Reads mutex (.locking .rLock mutex :: rest) := by
          rw [← next, consistent.reads_iff, consistent.not_reads_of_awaits awaits]
          exact lt_irrefl 0
        exact ⟨.rLock, mutex, rest, rfl, inOrder.resolve_left notReads,
          consistent.held_of_written stuck written⟩
      | rUnlock =>
        have none_ : state.reads mutex caller = 0 := by
          by_contra reading
          simp only [step, next, reading, if_false, reduceCtorEq] at waits
        simp [Operation.is, none_] at reads
        omega
      | lock =>
        refine ⟨.lock, mutex, rest, rfl, inOrder, ?_⟩
        by_cases written : state.writer mutex = none
        · simp only [step, next, written, true_or, if_true] at waits
          split_ifs at waits
        · exact consistent.held_of_written stuck written
      | unlock =>
        have outside : state.writer mutex ≠ some ⟨caller, true⟩ := fun writing => by
          simp only [step, next, writing, if_true, reduceCtorEq] at waits
        simp [Operation.is, outside] at writes
        omega

/-- The rank of the mutex that a script takes or gives back next. -/
def nextRank (rank : ι → Nat) : List (Operation ι δ ω) → Nat
  | .locking _ mutex :: _ => rank mutex
  | _ => 0

/-- In a consistent state somebody can go on, as long as somebody has not finished: the last in
the order of those who wait has nobody to wait for. -/
theorem Consistent.progress (consistent : Consistent rank state)
    (unfinished : ∃ caller, state.todo caller ≠ []) : ∃ caller, (step state caller).isSome = true := by
  by_contra nobody
  have stuck : ∀ caller, step state caller = none := by
    intro caller
    cases taken : step state caller with
    | none => rfl
    | some after => exact absurd ⟨caller, by rw [taken]; rfl⟩ nobody
  obtain ⟨someone, notDone⟩ := unfinished
  obtain ⟨last, isUnfinished, isLast⟩ := Finset.exists_max_image (Finset.univ.filter fun caller =>
    state.todo caller ≠ []) (fun caller => nextRank rank (state.todo caller))
      ⟨someone, Finset.mem_filter.mpr ⟨Finset.mem_univ _, notDone⟩⟩
  obtain ⟨kind, mutex, rest, next, -, holder, holds⟩ :=
    consistent.waits_of_stuck stuck (Finset.mem_filter.mp isUnfinished).2
  have holderNotDone : state.todo holder ≠ [] := fun done => by
    rw [done] at holds
    exact holds_nil holds
  obtain ⟨_, other, _, nextToo, above, -⟩ := consistent.waits_of_stuck stuck holderNotDone
  have later := above mutex holds
  have notLater := isLast holder (Finset.mem_filter.mpr ⟨Finset.mem_univ _, holderNotDone⟩)
  simp only [nextToo, next, nextRank] at notLater
  omega

/-- Somebody can go on as long as somebody has not finished, and nobody waits for what it
reads. -/
def Live (state : State ι κ δ ω) : Prop :=
  (∀ mutex caller, state.awaits mutex caller = true → state.reads mutex caller = 0) ∧
    ((∃ caller, state.todo caller ≠ []) → ∃ caller, (step state caller).isSome = true)

/-- Every state of a run whose announcements are orderly is consistent, hence live. -/
theorem live_throughout (consistent : Consistent rank state) {callers : List κ}
    (admitted : Admitted step (fun state caller => orderly state caller = true) state callers) :
    Throughout step Live state callers := by
  have live : ∀ {state : State ι κ δ ω}, Consistent rank state → Live state := fun consistent =>
    ⟨fun _ _ => consistent.not_reads_of_awaits, consistent.progress⟩
  induction callers generalizing state with
  | nil => exact live consistent
  | cons caller rest inductionHypothesis =>
    exact ⟨live consistent, fun next taken =>
      inductionHypothesis (consistent.kept admitted.1 taken) (admitted.2 next taken)⟩

end Progress

end Hcexplorer.ReadWriteLocks

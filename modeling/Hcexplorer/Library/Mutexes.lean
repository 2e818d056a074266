import Mathlib.Logic.Function.Basic

/-!
# Calls under read-write mutexes

A call is a program over some mutexes and the data they protect. It takes and gives
back locks as it goes, and it ends by a return, by a panic, or not at all: a lock that
somebody holds is waited for, and giving back a lock that nobody holds is fatal. A
deferred action follows a return and a panic alike.

A program is balanced when, with certain mutexes free at its start, it ends and leaves
every mutex as it was. Programs that are balanced can be joined one after another, and
a section under a lock is balanced when its body is, without that lock.

Mutexes, data and results are arbitrary.
-/

namespace Hcexplorer.Mutexes

/-- How a read-write mutex is held: by some number of readers, or by a writer. -/
structure RWMutex where
  readers : Nat
  writing : Bool
deriving DecidableEq, Repr

/-- The mutex that nobody holds, for reading or for writing. -/
def RWMutex.free : RWMutex := ⟨0, false⟩

/-- The mutexes as they are held, and the data that they protect. -/
@[ext] structure Shared (ι δ : Type) where
  holds : ι → RWMutex
  data : δ

/-- The end of a program. One that waits for a lock, or that the runtime aborts, has none. -/
inductive Ended (σ α : Type) where
  | returned (result : α) (state : σ)
  | panicked (state : σ)
  | waiting
  | fatal

/-- The state that a return or a panic leaves. -/
def Ended.left? {σ α : Type} : Ended σ α → Option σ
  | .returned _ state => some state
  | .panicked state => some state
  | .waiting => none
  | .fatal => none

/-- A program over mutexes and data, which ends in one of several ways. -/
structure Program (ι δ α : Type) where
  run : Shared ι δ → Ended (Shared ι δ) α

variable {ι δ α β : Type}

namespace Program

/-- Continue with the result of a program that returned. -/
def andThen (first : Program ι δ α) (next : α → Program ι δ β) : Program ι δ β where
  run state :=
    match first.run state with
    | .returned result state => (next result).run state
    | .panicked state => .panicked state
    | .waiting => .waiting
    | .fatal => .fatal

instance : Monad (Program ι δ) where
  pure result := ⟨fun state => .returned result state⟩
  bind := andThen

/-- A program that only has a result returns it and changes nothing. -/
@[simp] theorem run_pure (result : α) (state : Shared ι δ) :
    (pure result : Program ι δ α).run state = .returned result state := rfl

/-- What follows a program that returned is run from the state that it left, with its result. -/
theorem run_bind {first : Program ι δ α} {state after : Shared ι δ} {result : α}
    (ran : first.run state = .returned result after) (next : α → Program ι δ β) :
    (first >>= next).run state = (next result).run after := by
  change (andThen first next).run state = (next result).run after
  simp only [andThen, ran]

/-- Read the data and write them, in one step, with a result. -/
def accessing (change : δ → α × δ) : Program ι δ α where
  run state := .returned (change state.data).1 { state with data := (change state.data).2 }

/-- Read the data, which is the result, and leave them as they are. -/
def reading : Program ι δ δ := accessing fun data => (data, data)

/-- Write the data, by a change of what they were. -/
def writing (change : δ → δ) : Program ι δ Unit := accessing fun data => ((), change data)

/-- What follows an access is run with its result, over the changed data. -/
@[simp] theorem run_accessing_bind (change : δ → α × δ) (next : α → Program ι δ β)
    (state : Shared ι δ) :
    (accessing change >>= next).run state =
      (next (change state.data).1).run { state with data := (change state.data).2 } := rfl

/-- What follows a reading is run with the data that it read. -/
@[simp] theorem run_reading_bind (next : δ → Program ι δ β) (state : Shared ι δ) :
    (reading >>= next).run state = (next state.data).run state := rfl

/-- What follows a writing is run over the changed data. -/
@[simp] theorem run_writing_bind (change : δ → δ) (next : Unit → Program ι δ β)
    (state : Shared ι δ) :
    (writing change >>= next).run state = (next ()).run { state with data := change state.data } :=
  rfl

/-- Panic, with the mutexes and data as they are. -/
def panicking : Program ι δ α := ⟨fun state => .panicked state⟩

/-- A panic ends a program with the state that it found. -/
@[simp] theorem run_panicking (state : Shared ι δ) :
    (panicking : Program ι δ α).run state = .panicked state := rfl

/-- Perform an action after the program has returned or panicked. -/
def deferring (cleanup : Program ι δ Unit) (body : Program ι δ α) : Program ι δ α where
  run state :=
    match body.run state with
    | .returned result state => (cleanup >>= fun _ => pure result).run state
    | .panicked state => (cleanup >>= fun _ => panicking).run state
    | .waiting => .waiting
    | .fatal => .fatal

section Locking

variable [DecidableEq ι]

/-- The state with another hold of a mutex and everything else as it was. -/
def hold (mutex : ι) (held : RWMutex) (state : Shared ι δ) : Shared ι δ :=
  { state with holds := Function.update state.holds mutex held }

/-- Another hold of a mutex leaves the data as they are. -/
@[simp] theorem hold_data (mutex : ι) (held : RWMutex) (state : Shared ι δ) :
    (hold mutex held state).data = state.data := rfl

/-- `Lock`: wait until nobody holds the mutex, and then hold it for writing. -/
def lock (mutex : ι) : Program ι δ Unit where
  run state := if state.holds mutex = .free then .returned () (hold mutex ⟨0, true⟩ state) else .waiting

/-- `Unlock`: give the mutex back, which is fatal where nobody holds it for writing. -/
def unlock (mutex : ι) : Program ι δ Unit where
  run state :=
    if (state.holds mutex).writing then
      .returned () (hold mutex { state.holds mutex with writing := false } state)
    else .fatal

/-- `RLock`: wait until nobody writes, and then hold the mutex as one reader more. -/
def rLock (mutex : ι) : Program ι δ Unit where
  run state :=
    if (state.holds mutex).writing then .waiting
    else .returned () (hold mutex ⟨(state.holds mutex).readers + 1, false⟩ state)

/-- `RUnlock`: give back one hold of a reader, which is fatal where there is none. -/
def rUnlock (mutex : ι) : Program ι δ Unit where
  run state :=
    match (state.holds mutex).readers with
    | 0 => .fatal
    | readers + 1 => .returned () (hold mutex { state.holds mutex with readers := readers } state)

/-- `Lock`, then the deferred `Unlock`, which a panic of the body does not leave out. -/
def locked (mutex : ι) (body : Program ι δ α) : Program ι δ α := do
  lock mutex
  deferring (unlock mutex) body

/-- `RLock`, then the deferred `RUnlock`, which a panic of the body does not leave out. -/
def rLocked (mutex : ι) (body : Program ι δ α) : Program ι δ α := do
  rLock mutex
  deferring (rUnlock mutex) body

end Locking

/-! ## Balance -/

/-- When the mutexes are free the program ends, and leaves every mutex as it was. -/
def Balanced (mutexes : ι → Prop) (program : Program ι δ α) : Prop :=
  ∀ state : Shared ι δ, (∀ mutex, mutexes mutex → state.holds mutex = .free) →
    ∃ data, (program.run state).left? = some ⟨state.holds, data⟩

variable {mutexes others : ι → Prop}

/-- A balanced program is balanced when more mutexes are free. -/
theorem Balanced.mono {program : Program ι δ α} (balanced : Balanced mutexes program)
    (included : ∀ mutex, mutexes mutex → others mutex) : Balanced others program :=
  fun state free => balanced state fun mutex member => free mutex (included mutex member)

/-- A program that only has a result is balanced. -/
theorem balanced_pure (result : α) : Balanced mutexes (pure result : Program ι δ α) :=
  fun state _ => ⟨state.data, rfl⟩

/-- An access to the data is balanced. -/
theorem balanced_accessing (change : δ → α × δ) :
    Balanced mutexes (accessing change : Program ι δ α) :=
  fun state _ => ⟨(change state.data).2, rfl⟩

/-- A panic is balanced. -/
theorem balanced_panicking : Balanced mutexes (panicking : Program ι δ α) :=
  fun state _ => ⟨state.data, rfl⟩

/-- Balanced programs can be joined, one after the other. -/
theorem Balanced.bind {first : Program ι δ α} {next : α → Program ι δ β}
    (balanced : Balanced mutexes first) (continued : ∀ result, Balanced mutexes (next result)) :
    Balanced mutexes (first >>= next) := by
  intro state free
  obtain ⟨data, left⟩ := balanced state free
  change ∃ data, ((andThen first next).run state).left? = some ⟨state.holds, data⟩
  simp only [andThen]
  cases ended : first.run state with
  | returned result middle =>
    rw [ended] at left
    obtain rfl := Option.some.inj left
    exact continued result _ free
  | panicked middle =>
    rw [ended] at left
    exact ⟨data, left⟩
  | waiting =>
    rw [ended] at left
    cases left
  | fatal =>
    rw [ended] at left
    cases left

/-- A deferred action is performed in the state that the body leaves. -/
theorem left?_deferring {cleanup : Program ι δ Unit} {body : Program ι δ α}
    {state middle after : Shared ι δ} (left : (body.run state).left? = some middle)
    (cleaned : cleanup.run middle = .returned () after) :
    ((deferring cleanup body).run state).left? = some after := by
  simp only [deferring]
  cases ended : body.run state with
  | returned result reached =>
    rw [ended] at left
    obtain rfl := Option.some.inj left
    simp only [run_bind cleaned, run_pure, Ended.left?]
  | panicked reached =>
    rw [ended] at left
    obtain rfl := Option.some.inj left
    simp only [run_bind cleaned, run_panicking, Ended.left?]
  | waiting =>
    rw [ended] at left
    cases left
  | fatal =>
    rw [ended] at left
    cases left

variable [DecidableEq ι] {mutex : ι} {body : Program ι δ α} {state : Shared ι δ}

/-- The write lock is taken from a free mutex. -/
theorem run_lock (isFree : state.holds mutex = .free) :
    (lock mutex).run state = .returned () (hold mutex ⟨0, true⟩ state) := if_pos isFree

/-- The write lock, given back, leaves the mutex as it was. -/
theorem run_unlock (isFree : state.holds mutex = .free) (data : δ) :
    (unlock mutex).run ⟨(hold mutex ⟨0, true⟩ state).holds, data⟩ =
      .returned () ⟨state.holds, data⟩ := by
  simp only [unlock, hold, Function.update_self, if_true, Function.update_idem]
  rw [← RWMutex.free, ← isFree, Function.update_eq_self]

/-- The read lock is taken where nobody writes. -/
theorem run_rLock (noWriter : (state.holds mutex).writing = false) :
    (rLock mutex).run state =
      .returned () (hold mutex ⟨(state.holds mutex).readers + 1, false⟩ state) := by
  simp only [rLock, noWriter, Bool.false_eq_true, if_false]

/-- The read lock, given back, leaves the mutex as it was. -/
theorem run_rUnlock (noWriter : (state.holds mutex).writing = false) (data : δ) :
    (rUnlock mutex).run ⟨(hold mutex ⟨(state.holds mutex).readers + 1, false⟩ state).holds, data⟩ =
      .returned () ⟨state.holds, data⟩ := by
  have same : (⟨(state.holds mutex).readers, false⟩ : RWMutex) = state.holds mutex := by
    rw [← noWriter]
  simp only [rUnlock, hold, Function.update_self, Function.update_idem]
  rw [same, Function.update_eq_self]

/-- A section under the write lock is balanced when its body is, without the lock. -/
theorem Balanced.locked (balanced : Balanced mutexes body) (apart : ¬mutexes mutex) :
    Balanced (fun other => other = mutex ∨ mutexes other) (locked mutex body) := by
  intro state free
  have isFree : state.holds mutex = .free := free mutex (Or.inl rfl)
  have inside : ∀ other, mutexes other → (hold mutex ⟨0, true⟩ state).holds other = .free := by
    intro other member
    have different : other ≠ mutex := fun same => apart (same ▸ member)
    exact (Function.update_of_ne different _ _).trans (free other (Or.inr member))
  obtain ⟨data, left⟩ := balanced (hold mutex ⟨0, true⟩ state) inside
  refine ⟨data, ?_⟩
  rw [Program.locked, run_bind (run_lock isFree)]
  exact left?_deferring left (run_unlock isFree data)

/-- A section under the read lock is balanced when its body is, without the lock. -/
theorem Balanced.rLocked (balanced : Balanced mutexes body) (apart : ¬mutexes mutex) :
    Balanced (fun other => other = mutex ∨ mutexes other) (rLocked mutex body) := by
  intro state free
  have noWriter : (state.holds mutex).writing = false := by
    rw [free mutex (Or.inl rfl)]
    rfl
  have inside : ∀ other, mutexes other →
      (hold mutex ⟨(state.holds mutex).readers + 1, false⟩ state).holds other = .free := by
    intro other member
    have different : other ≠ mutex := fun same => apart (same ▸ member)
    exact (Function.update_of_ne different _ _).trans (free other (Or.inr member))
  obtain ⟨data, left⟩ := balanced _ inside
  refine ⟨data, ?_⟩
  rw [Program.rLocked, run_bind (run_rLock noWriter)]
  exact left?_deferring left (run_rUnlock noWriter data)

/-- A section under the write lock returns what its body returns, with the mutex given back. -/
theorem run_locked_returned {result : α} {data : δ} (isFree : state.holds mutex = .free)
    (ran : body.run (hold mutex ⟨0, true⟩ state) =
      .returned result ⟨(hold mutex ⟨0, true⟩ state).holds, data⟩) :
    (Program.locked mutex body).run state = .returned result ⟨state.holds, data⟩ := by
  simp only [Program.locked, run_bind (run_lock isFree), deferring, ran,
    run_bind (run_unlock isFree data), run_pure]

/-- A section under the write lock panics where its body does, with the mutex given back. -/
theorem run_locked_panicked {data : δ} (isFree : state.holds mutex = .free)
    (ran : body.run (hold mutex ⟨0, true⟩ state) =
      .panicked ⟨(hold mutex ⟨0, true⟩ state).holds, data⟩) :
    (Program.locked mutex body).run state = .panicked ⟨state.holds, data⟩ := by
  simp only [Program.locked, run_bind (run_lock isFree), deferring, ran,
    run_bind (run_unlock isFree data), run_panicking]

/-- No section under a lock that is held comes to its end, whoever holds it. -/
theorem run_locked_waits (held : state.holds mutex ≠ .free) :
    (Program.locked mutex body).run state = .waiting := by
  change (andThen (lock mutex) _).run state = _
  simp only [andThen, lock, held, if_false]

end Program

end Hcexplorer.Mutexes

import Hcexplorer.Hcdataapi.ApiCache
import Hcexplorer.Library.Mutexes

/-!
# The locks of the API cache

`APICache` and its queue each have a read-write mutex. Here every method is written with
the locks it takes, in order: most defer the unlocking, a lookup by height unlocks by hand
on one of its two ways out. A method of the queue is called with the lock of the cache
held, and takes the one of the queue.

A comparator that is nil panics at the first comparison, which leaves the queue as it is
then. Every other comparator is a function of two blocks.
-/

namespace Hcexplorer.Hcdataapi

open Runs Mutexes Mutexes.Program BlockPriorityQueue

/-- The mutex of the cache and the one of its queue. -/
inductive CacheMutex where
  | cache
  | queue
deriving DecidableEq, Repr

/-- The cache, and whether the comparator of its queue is nil. -/
structure Guarded where
  apic : APICache
  nilLessFn : Bool

/-- A program over the cache, which takes and frees its two mutexes and changes what they guard. -/
abbrev CacheProgram := Program CacheMutex Guarded

/-- Change the queue of the cache and leave the rest as it is. -/
def Guarded.onQueue (change : BlockPriorityQueue → BlockPriorityQueue) (guarded : Guarded) :
    Guarded :=
  { guarded with apic := { guarded.apic with expireQueue := change guarded.apic.expireQueue } }

/-! ## The methods of the queue -/

namespace BlockPriorityQueue

/-- `Insert` compares blocks unless the queue is empty and not full, or has no capacity. -/
def comparesToInsert (pq : BlockPriorityQueue) : Bool :=
  pq.capacity != 0 && (pq.full || 0 < pq.len)

/-- The queue at the first comparison of `Insert`: the new block has already been pushed unless
the queue was full. -/
def comparingToInsert (summary : BlockDataBasic) (clock : Clock) (pq : BlockPriorityQueue) :
    BlockPriorityQueue :=
  if pq.full then pq else pq.push (summary, clock 0)

/-- `RemoveBlock` compares blocks: the removed one is not the last. -/
def comparesToRemove (b : Option Ref) (pq : BlockPriorityQueue) : Bool :=
  match b with
  | none => false
  | some ref =>
    let heapIdx := (pq.cell ref).heapIdx
    0 < heapIdx && heapIdx < pq.len &&
      (pq.block heapIdx.toNat).summary.hash == (pq.cell ref).summary.hash &&
      heapIdx.toNat != pq.len - 1

/-- The queue at the first comparison of `RemoveBlock`: the block has already changed places with
the last one. -/
def comparingToRemove (b : Option Ref) (pq : BlockPriorityQueue) : BlockPriorityQueue :=
  match b with
  | none => pq
  | some ref => pq.swap (pq.cell ref).heapIdx.toNat (pq.len - 1)

/-- `SetLessFn` of the queue, with its lock; a nil comparator is noted and panics at the next
comparison. -/
def lockedSetLessFn (lessFn : Option (CachedBlock → CachedBlock → Bool)) : CacheProgram Unit :=
  locked .queue (writing fun guarded =>
    match lessFn with
    | none => { guarded with nilLessFn := true }
    | some lessFn => { guarded.onQueue (setLessFn lessFn) with nilLessFn := false })

/-- `Insert`, with its lock. Where blocks are compared by a nil comparator it panics with the
block pushed already. -/
def lockedInsert (newHashFromStr : String → Option Hash) (summary : BlockDataBasic) (clock : Clock) :
    CacheProgram (Bool × Option Hash) :=
  locked .queue do
    let guarded ← reading
    if guarded.nilLessFn && guarded.apic.expireQueue.comparesToInsert then
      writing (Guarded.onQueue (comparingToInsert summary clock))
      panicking
    else
      accessing fun guarded =>
        ((guarded.apic.expireQueue.insert newHashFromStr summary clock).1,
          guarded.onQueue fun pq => (pq.insert newHashFromStr summary clock).2)

/-- `RemoveBlock`, with its lock, which panics as well where blocks are compared by a nil
comparator. -/
def lockedRemoveBlock (b : Option Ref) : CacheProgram Unit :=
  locked .queue do
    let guarded ← reading
    if guarded.nilLessFn && guarded.apic.expireQueue.comparesToRemove b then
      writing (Guarded.onQueue (comparingToRemove b))
      panicking
    else
      writing (Guarded.onQueue (removeBlock b))

/-- `Reheap`, with its lock. It compares blocks as soon as the queue has two of them. -/
def lockedReheap : CacheProgram Unit :=
  locked .queue do
    let guarded ← reading
    if guarded.nilLessFn && 2 ≤ guarded.apic.expireQueue.len then
      writing (Guarded.onQueue (setNeedsReheap false))
      panicking
    else
      writing (Guarded.onQueue reheap)

/-- `setNeedsReheap`, with its lock: the flag that tells the watcher to order the queue anew. -/
def lockedSetNeedsReheap (needReheap : Bool) : CacheProgram Unit :=
  locked .queue (writing (Guarded.onQueue (setNeedsReheap needReheap)))

/-- `setAccessTime`, with its lock: the time of the last access, which delays the next reheap. -/
def lockedSetAccessTime (t : Int64) : CacheProgram Unit :=
  locked .queue (writing (Guarded.onQueue (setAccessTime t)))

/-- `lastAccessTime`, read under the read lock of the queue. -/
def lastAccessTime : CacheProgram Int64 :=
  rLocked .queue (accessing fun guarded => (guarded.apic.expireQueue.lastAccess, guarded))

/-- `doesNeedReheap`, read under the read lock of the queue. -/
def doesNeedReheap : CacheProgram Bool :=
  rLocked .queue (accessing fun guarded => (guarded.apic.expireQueue.needsReheap, guarded))

end BlockPriorityQueue

/-! ## The methods of the cache -/

namespace CacheLocks

variable (newHashFromStr : String → Option Hash) (string : Hash → String)

/-- `SetLessFn` of the cache, which holds the lock of the cache while the queue takes its own. -/
def setLessFn (lessFn : Option (CachedBlock → CachedBlock → Bool)) : CacheProgram Unit :=
  locked .cache (lockedSetLessFn lessFn)

/-- `Capacity`, which reads the cache without a lock of its own. -/
def capacity : CacheProgram UInt32 := accessing fun guarded => (guarded.apic.capacity, guarded)

/-- `UtilizationBlocks`, the number of blocks in the map, read without a lock of its own. -/
def utilizationBlocks : CacheProgram Nat :=
  accessing fun guarded => (guarded.apic.blockCache.entries.length, guarded)

/-- `Utilization`: the blocks and the capacity, of which it returns the quotient. -/
def utilization : CacheProgram (Nat × UInt32) :=
  rLocked .cache (accessing fun guarded =>
    ((guarded.apic.blockCache.entries.length, guarded.apic.capacity), guarded))

/-- `Hits`, the number of lookups that found their block, read atomically. -/
def hits : CacheProgram UInt64 := accessing fun guarded => (guarded.apic.hits, guarded)

/-- `Misses`, the number of lookups that found nothing, read atomically. -/
def misses : CacheProgram UInt64 := accessing fun guarded => (guarded.apic.misses, guarded)

/-- `StoreBlockSummary`, of a pointer that may be nil: a disabled cache does not look at it, an
enabled one panics on nil. -/
def storeBlockSummary (blockSummary : Option BlockDataBasic) (clock : Clock) : CacheProgram Unit :=
  locked .cache do
    let guarded ← reading
    if !guarded.apic.isEnabled then pure ()
    else
      match blockSummary with
      | none => panicking
      | some blockSummary =>
        match newHashFromStr blockSummary.hash with
        | none => panicking
        | some hash =>
          writing fun guarded => { guarded with apic := { guarded.apic with
            mainchainBlocks := APICache.extendMainchain blockSummary.height.toNat hash
              guarded.apic.mainchainBlocks } }
          match guarded.apic.blockCache.lookup hash with
          | some _ => pure ()
          | none =>
            writing (Guarded.onQueue (withRecord blockSummary (clock 0)))
            let inserted ← lockedInsert newHashFromStr blockSummary clock.later
            writing fun after => { after with apic := { after.apic with
              blockCache := APICache.storedIn after.apic.blockCache hash
                guarded.apic.expireQueue.allocated inserted } }

/-- `RemoveCachedBlock`, of a pointer that may be nil. A block without a summary panics
where a nil pointer does. -/
def removeCachedBlock (cachedBlock : Option Ref) : CacheProgram Unit :=
  locked .cache do
    lockedRemoveBlock cachedBlock
    let guarded ← reading
    match cachedBlock with
    | none => panicking
    | some ref =>
      match newHashFromStr (guarded.apic.cell ref).summary.hash with
      | none => panicking
      | some _ => pure ()

/-- `getCachedBlockByHash`, the lookup under the lock of the cache, which takes the queue's lock
to note the access. -/
def lookupCachedBlock (hash : Hash) (clock : Clock) : CacheProgram (Option Ref) :=
  locked .cache do
    let guarded ← reading
    match guarded.apic.blockCache.lookup hash with
    | some cachedBlock =>
      writing (Guarded.onQueue (modify cachedBlock (CachedBlock.access (clock 0))))
      lockedSetNeedsReheap true
      lockedSetAccessTime (clock 1)
      writing fun guarded =>
        { guarded with apic := { guarded.apic with hits := guarded.apic.hits + 1 } }
      pure (some cachedBlock)
    | none =>
      writing fun guarded =>
        { guarded with apic := { guarded.apic with misses := guarded.apic.misses + 1 } }
      pure none

/-- `GetCachedBlockByHashStr`: a text that is no hash takes no lock. -/
def getCachedBlockByHashStr (hashStr : String) (clock : Clock) : CacheProgram (Option Ref) :=
  match newHashFromStr hashStr with
  | none => pure none
  | some hash => lookupCachedBlock hash clock

/-- `GetCachedBlockByHash`: a hash that does not survive its text takes no lock. -/
def getCachedBlockByHash (hash : Hash) (clock : Clock) : CacheProgram (Option Ref) :=
  match newHashFromStr (string hash) with
  | none => pure none
  | some _ => lookupCachedBlock hash clock

/-- `GetCachedBlockByHeight`, which frees the read lock only where the height is known. -/
def getCachedBlockByHeight (height : Int64) (clock : Clock) : CacheProgram (Option Ref) := do
  rLock .cache
  let guarded ← reading
  if guarded.apic.HasHeight height then
    let hash := guarded.apic.mainchainBlocks.getD height.toInt.toNat 0
    rUnlock .cache
    getCachedBlockByHash newHashFromStr string hash clock
  else pure none

/-- `GetBlockSummary`: the lookup of the height, and then the summary of what it found, read
without a lock. -/
def getBlockSummary (height : Int64) (clock : Clock) : CacheProgram (Option BlockDataBasic) := do
  let cachedBlock ← getCachedBlockByHeight newHashFromStr string height clock
  accessing fun guarded => (cachedBlock.map fun ref => (guarded.apic.cell ref).summary, guarded)

/-- `Enable` and `Disable`, which set the flag under the lock of the cache. -/
def setEnabled (isEnabled : Bool) : CacheProgram Unit :=
  locked .cache (writing fun guarded =>
    { guarded with apic := { guarded.apic with isEnabled := isEnabled } })

/-- One tick of `WatchPriorityQueue`: the queue is ordered anew if it needs it and has been left
alone for seven seconds. -/
def watchPriorityQueue (now : Int64) : CacheProgram Unit := do
  let lastAccess ← lastAccessTime
  let needsReheap ← doesNeedReheap
  if needsReheap && 7000000000 < now.toInt - lastAccess.toInt then lockedReheap else pure ()

end CacheLocks

/-! ## Calls -/

/-- A call of a public method, or a tick of the goroutine that watches the queue. -/
inductive PublicCall where
  | setLessFn (lessFn : Option (CachedBlock → CachedBlock → Bool))
  | capacity
  | utilizationBlocks
  | utilization
  | hits
  | misses
  | storeBlockSummary (blockSummary : Option BlockDataBasic) (clock : Clock)
  | removeCachedBlock (cachedBlock : Option Ref)
  | getBlockSummary (height : Int64) (clock : Clock)
  | getCachedBlockByHeight (height : Int64) (clock : Clock)
  | getCachedBlockByHashStr (hashStr : String) (clock : Clock)
  | getCachedBlockByHash (hash : Hash) (clock : Clock)
  | enable
  | disable
  | watchPriorityQueue (now : Int64)

/-- What the call leaves of the mutexes and the cache, if it ends. -/
def callStep (newHashFromStr : String → Option Hash) (string : Hash → String)
    (state : Shared CacheMutex Guarded) : PublicCall → Option (Shared CacheMutex Guarded)
  | .setLessFn lessFn => ((CacheLocks.setLessFn lessFn).run state).left?
  | .capacity => (CacheLocks.capacity.run state).left?
  | .utilizationBlocks => (CacheLocks.utilizationBlocks.run state).left?
  | .utilization => (CacheLocks.utilization.run state).left?
  | .hits => (CacheLocks.hits.run state).left?
  | .misses => (CacheLocks.misses.run state).left?
  | .storeBlockSummary blockSummary clock =>
    ((CacheLocks.storeBlockSummary newHashFromStr blockSummary clock).run state).left?
  | .removeCachedBlock cachedBlock =>
    ((CacheLocks.removeCachedBlock newHashFromStr cachedBlock).run state).left?
  | .getBlockSummary height clock =>
    ((CacheLocks.getBlockSummary newHashFromStr string height clock).run state).left?
  | .getCachedBlockByHeight height clock =>
    ((CacheLocks.getCachedBlockByHeight newHashFromStr string height clock).run state).left?
  | .getCachedBlockByHashStr hashStr clock =>
    ((CacheLocks.getCachedBlockByHashStr newHashFromStr hashStr clock).run state).left?
  | .getCachedBlockByHash hash clock =>
    ((CacheLocks.getCachedBlockByHash newHashFromStr string hash clock).run state).left?
  | .enable => ((CacheLocks.setEnabled true).run state).left?
  | .disable => ((CacheLocks.setEnabled false).run state).left?
  | .watchPriorityQueue now => ((CacheLocks.watchPriorityQueue now).run state).left?

/-- The call ends, and it has given back every lock that it took. -/
def Releases (newHashFromStr : String → Option Hash) (string : Hash → String)
    (state : Shared CacheMutex Guarded) (call : PublicCall) : Prop :=
  ∃ after, callStep newHashFromStr string state call = some after ∧ after.holds = state.holds

/-- A lookup by height asks for one of `MainchainBlocks`. -/
def AsksKnownHeight (state : Shared CacheMutex Guarded) : PublicCall → Prop
  | .getBlockSummary height _ => state.data.apic.HasHeight height
  | .getCachedBlockByHeight height _ => state.data.apic.HasHeight height
  | _ => True

/-- A cache with any contents whose mutexes nobody holds. -/
def unlocked (guarded : Guarded) : Shared CacheMutex Guarded := ⟨fun _ => .free, guarded⟩

/-! ## Balance -/

section Balance

variable {newHashFromStr : String → Option Hash} {string : Hash → String}

/-- A section under the lock of the queue frees what it takes, and takes that lock only. -/
theorem balanced_queue {α : Type} {body : CacheProgram α} (balanced : Balanced (fun _ => False) body) :
    Balanced (· = .queue) (locked .queue body) :=
  (balanced.locked (fun absurd => absurd)).mono fun _ member => member.resolve_right id

/-- A section under the lock of the cache may take the one of the queue. -/
theorem balanced_cache {α : Type} {body : CacheProgram α} (balanced : Balanced (· = .queue) body) :
    Balanced (fun _ => True) (locked .cache body) := by
  have apart : CacheMutex.cache ≠ .queue := by decide
  exact (balanced.locked apart).mono fun _ _ => trivial

/-- `SetLessFn` frees the lock of the queue. -/
theorem lockedSetLessFn_balanced (lessFn : Option (CachedBlock → CachedBlock → Bool)) :
    Balanced (· = .queue) (lockedSetLessFn lessFn) :=
  balanced_queue (balanced_accessing _)

/-- `Insert` frees the lock of the queue, also where it panics. -/
theorem lockedInsert_balanced (summary : BlockDataBasic) (clock : Clock) :
    Balanced (· = .queue) (lockedInsert newHashFromStr summary clock) := by
  refine balanced_queue ((balanced_accessing _).bind fun guarded => ?_)
  split
  · exact (balanced_accessing _).bind fun _ => balanced_panicking
  · exact balanced_accessing _

/-- `RemoveBlock` frees the lock of the queue, also where it panics. -/
theorem lockedRemoveBlock_balanced (b : Option Ref) :
    Balanced (· = .queue) (lockedRemoveBlock b) := by
  refine balanced_queue ((balanced_accessing _).bind fun guarded => ?_)
  split
  · exact (balanced_accessing _).bind fun _ => balanced_panicking
  · exact balanced_accessing _

/-- `Reheap` frees the lock of the queue, also where it panics. -/
theorem lockedReheap_balanced : Balanced (· = .queue) lockedReheap := by
  refine balanced_queue ((balanced_accessing _).bind fun guarded => ?_)
  split
  · exact (balanced_accessing _).bind fun _ => balanced_panicking
  · exact balanced_accessing _

/-- Reading a field of the queue under its read lock. -/
theorem queueField_balanced {α : Type} (read : Guarded → α × Guarded) :
    Balanced (· = .queue) (rLocked .queue (accessing read) : CacheProgram α) := by
  have inside : Balanced (fun _ => False) (accessing read : CacheProgram α) :=
    balanced_accessing read
  exact (inside.rLocked (fun absurd => absurd)).mono fun _ member => member.resolve_right id

namespace CacheLocks

/-- `StoreBlockSummary` frees both locks, on every path. -/
theorem storeBlockSummary_balanced (blockSummary : Option BlockDataBasic) (clock : Clock) :
    Balanced (fun _ => True) (storeBlockSummary newHashFromStr blockSummary clock) := by
  refine balanced_cache ((balanced_accessing _).bind fun guarded => ?_)
  split
  · exact balanced_pure ()
  · split
    · exact balanced_panicking
    · split
      · exact balanced_panicking
      · refine (balanced_accessing _).bind fun _ => ?_
        split
        · exact balanced_pure ()
        · exact (balanced_accessing _).bind fun _ =>
            (lockedInsert_balanced _ _).bind fun _ => balanced_accessing _

/-- `RemoveCachedBlock` frees both locks, on every path. -/
theorem removeCachedBlock_balanced (cachedBlock : Option Ref) :
    Balanced (fun _ => True) (removeCachedBlock newHashFromStr cachedBlock) := by
  refine balanced_cache ((lockedRemoveBlock_balanced _).bind fun _ =>
    (balanced_accessing _).bind fun guarded => ?_)
  split
  · exact balanced_panicking
  · split
    · exact balanced_panicking
    · exact balanced_pure ()

/-- The lookup of a hash frees both locks, whether it finds a block or not. -/
theorem lookupCachedBlock_balanced (hash : Hash) (clock : Clock) :
    Balanced (fun _ => True) (lookupCachedBlock hash clock) := by
  refine balanced_cache ((balanced_accessing _).bind fun guarded => ?_)
  split
  · refine (balanced_accessing _).bind fun _ => ?_
    refine (balanced_queue (balanced_accessing _)).bind fun _ => ?_
    refine (balanced_queue (balanced_accessing _)).bind fun _ => ?_
    exact (balanced_accessing _).bind fun _ => balanced_pure _
  · exact (balanced_accessing _).bind fun _ => balanced_pure _

/-- The lookup of a text frees both locks. -/
theorem getCachedBlockByHashStr_balanced (hashStr : String) (clock : Clock) :
    Balanced (fun _ => True) (getCachedBlockByHashStr newHashFromStr hashStr clock) := by
  unfold getCachedBlockByHashStr
  split
  · exact balanced_pure _
  · exact lookupCachedBlock_balanced _ clock

/-- The lookup of a hash through its text frees both locks. -/
theorem getCachedBlockByHash_balanced (hash : Hash) (clock : Clock) :
    Balanced (fun _ => True) (getCachedBlockByHash newHashFromStr string hash clock) := by
  unfold getCachedBlockByHash
  split
  · exact balanced_pure _
  · exact lookupCachedBlock_balanced hash clock

/-- A tick of the watcher frees the lock of the queue, three times if it reheaps. -/
theorem watchPriorityQueue_balanced (now : Int64) :
    Balanced (· = .queue) (watchPriorityQueue now) := by
  refine (queueField_balanced _).bind fun _ => (queueField_balanced _).bind fun _ => ?_
  split
  · exact lockedReheap_balanced
  · exact balanced_pure ()

/-- A lookup at a known height gives the read lock back before it looks for the hash. -/
theorem getCachedBlockByHeight_known {state : Shared CacheMutex Guarded} {height : Int64}
    (noWriter : (state.holds .cache).writing = false) (known : state.data.apic.HasHeight height)
    (clock : Clock) :
    (getCachedBlockByHeight newHashFromStr string height clock).run state =
      (getCachedBlockByHash newHashFromStr string
        (state.data.apic.mainchainBlocks.getD height.toInt.toNat 0) clock).run state := by
  rw [getCachedBlockByHeight, run_bind (run_rLock noWriter), run_reading_bind, hold_data, if_pos known]
  exact run_bind (run_rUnlock noWriter state.data) _

/-- A lookup at another height returns with the read lock. -/
theorem getCachedBlockByHeight_unknown {state : Shared CacheMutex Guarded} {height : Int64}
    (noWriter : (state.holds .cache).writing = false) (unknown : ¬state.data.apic.HasHeight height)
    (clock : Clock) :
    (getCachedBlockByHeight newHashFromStr string height clock).run state =
      .returned none (hold .cache ⟨(state.holds .cache).readers + 1, false⟩ state) := by
  rw [getCachedBlockByHeight, run_bind (run_rLock noWriter), run_reading_bind, hold_data,
    if_neg unknown, run_pure]

/-- `GetBlockSummary` leaves the locks that the lookup of the height leaves, since the rest of it
takes none. -/
theorem left?_getBlockSummary (height : Int64) (clock : Clock) (state : Shared CacheMutex Guarded) :
    ((getBlockSummary newHashFromStr string height clock).run state).left? =
      ((getCachedBlockByHeight newHashFromStr string height clock).run state).left? := by
  change ((andThen (getCachedBlockByHeight newHashFromStr string height clock) _).run state).left? = _
  simp only [andThen]
  cases (getCachedBlockByHeight newHashFromStr string height clock).run state with
  | returned result after => rfl
  | panicked after => rfl
  | waiting => rfl
  | fatal => rfl

end CacheLocks

/-- A program that is balanced for all the mutexes gives back what it took. -/
theorem released {α : Type} {program : CacheProgram α} {mutexes : CacheMutex → Prop}
    (balanced : Balanced mutexes program) {state : Shared CacheMutex Guarded}
    (free : ∀ mutex, state.holds mutex = .free) :
    ∃ after, (program.run state).left? = some after ∧ after.holds = state.holds := by
  obtain ⟨data, left⟩ := balanced state fun mutex _ => free mutex
  exact ⟨_, left, rfl⟩

/-- A lookup by height gives back the read lock exactly when it knows the height. -/
theorem getCachedBlockByHeight_released_iff {state : Shared CacheMutex Guarded}
    (free : ∀ mutex, state.holds mutex = .free) (height : Int64) (clock : Clock) :
    (∃ after, ((CacheLocks.getCachedBlockByHeight newHashFromStr string height clock).run state).left? =
      some after ∧ after.holds = state.holds) ↔ state.data.apic.HasHeight height := by
  have noWriter : (state.holds .cache).writing = false := by rw [free]; rfl
  by_cases known : state.data.apic.HasHeight height
  · rw [CacheLocks.getCachedBlockByHeight_known noWriter known]
    exact iff_of_true (released (CacheLocks.getCachedBlockByHash_balanced _ clock) free) known
  · rw [CacheLocks.getCachedBlockByHeight_unknown noWriter known]
    refine iff_of_false ?_ known
    rintro ⟨after, left, same⟩
    obtain rfl := Option.some.inj left
    have held := congrFun same CacheMutex.cache
    simp only [hold, Function.update_self] at held
    have readers := congrArg RWMutex.readers held
    exact absurd readers (Nat.succ_ne_self _)

/-- With every mutex free, a call ends and gives back its locks exactly when it is not a
lookup at an unknown height. -/
theorem releases_iff {state : Shared CacheMutex Guarded} (free : ∀ mutex, state.holds mutex = .free)
    (call : PublicCall) :
    Releases newHashFromStr string state call ↔ AsksKnownHeight state call := by
  cases call with
  | setLessFn lessFn =>
    exact iff_of_true (released (balanced_cache (lockedSetLessFn_balanced lessFn)) free) trivial
  | capacity => exact iff_of_true ⟨state, rfl, rfl⟩ trivial
  | utilizationBlocks => exact iff_of_true ⟨state, rfl, rfl⟩ trivial
  | utilization =>
    have inside : Balanced (fun _ => False) (accessing fun guarded : Guarded =>
      ((guarded.apic.blockCache.entries.length, guarded.apic.capacity), guarded) :
        CacheProgram (Nat × UInt32)) := balanced_accessing _
    exact iff_of_true (released (inside.rLocked (fun absurd => absurd)) free) trivial
  | hits => exact iff_of_true ⟨state, rfl, rfl⟩ trivial
  | misses => exact iff_of_true ⟨state, rfl, rfl⟩ trivial
  | storeBlockSummary blockSummary clock =>
    exact iff_of_true (released (CacheLocks.storeBlockSummary_balanced blockSummary clock) free)
      trivial
  | removeCachedBlock cachedBlock =>
    exact iff_of_true (released (CacheLocks.removeCachedBlock_balanced cachedBlock) free) trivial
  | getBlockSummary height clock =>
    simp only [Releases, callStep, CacheLocks.left?_getBlockSummary]
    exact getCachedBlockByHeight_released_iff free height clock
  | getCachedBlockByHeight height clock =>
    exact getCachedBlockByHeight_released_iff free height clock
  | getCachedBlockByHashStr hashStr clock =>
    exact iff_of_true (released (CacheLocks.getCachedBlockByHashStr_balanced hashStr clock) free)
      trivial
  | getCachedBlockByHash hash clock =>
    exact iff_of_true (released (CacheLocks.getCachedBlockByHash_balanced hash clock) free) trivial
  | enable => exact iff_of_true (released (balanced_cache (balanced_accessing _)) free) trivial
  | disable => exact iff_of_true (released (balanced_cache (balanced_accessing _)) free) trivial
  | watchPriorityQueue now =>
    exact iff_of_true (released (CacheLocks.watchPriorityQueue_balanced now) free) trivial

/-- In every sequence of calls on a cache that nobody holds, each call ends with the locks
that it took given back exactly when every lookup by height asks for one of
`MainchainBlocks`. -/
theorem locks_released_iff (newHashFromStr : String → Option Hash) (string : Hash → String)
    (guarded : Guarded) (calls : List PublicCall) :
    Admitted (callStep newHashFromStr string) (Releases newHashFromStr string) (unlocked guarded)
        calls ↔
      Admitted (callStep newHashFromStr string) AsksKnownHeight (unlocked guarded) calls := by
  refine admitted_iff (fun state => ∀ mutex, state.holds mutex = .free) ?_
    (fun state call free => releases_iff free call) (fun _ => rfl)
  intro state call next free releases taken mutex
  obtain ⟨after, ended, same⟩ := releases
  obtain rfl := Option.some.inj (ended.symm.trans taken)
  rw [same]
  exact free mutex

/-- A call that needs the write lock of the cache. -/
def PublicCall.locks : PublicCall → Bool
  | .setLessFn _ | .storeBlockSummary _ _ | .removeCachedBlock _ | .enable | .disable => true
  | _ => false

/-- No such call ends once the lock of the cache was left behind. -/
theorem leaked_waits {state : Shared CacheMutex Guarded} (held : state.holds .cache ≠ .free)
    {call : PublicCall} (locks : call.locks = true) :
    callStep newHashFromStr string state call = none := by
  have waits : ∀ {α : Type} (body : CacheProgram α), ((locked .cache body).run state).left? = none :=
    fun body => congrArg Ended.left? (run_locked_waits held)
  cases call with
  | setLessFn lessFn => exact waits _
  | storeBlockSummary blockSummary clock => exact waits _
  | removeCachedBlock cachedBlock => exact waits _
  | enable => exact waits _
  | disable => exact waits _
  | _ => cases locks

end Balance

/-- `GetBlockSummary(-1)` on a new cache returns with the read lock of the cache, and the
store that follows waits for ever. -/
theorem negative_height_leaks :
    ∃ after, callStep (fun _ => some 1) (fun _ => "")
        (unlocked ⟨newAPICache 10 lessByHeight, false⟩) (.getBlockSummary (-1) fun _ => 0) =
          some after ∧ after.holds .cache = ⟨1, false⟩ ∧
      callStep (fun _ => some 1) (fun _ => "") after (.storeBlockSummary (some ⟨0, ""⟩) fun _ => 0) =
        none ∧
      ¬Admitted (callStep (fun _ => some 1) (fun _ => ""))
        (Releases (fun _ => some 1) (fun _ => "")) (unlocked ⟨newAPICache 10 lessByHeight, false⟩)
        [.getBlockSummary (-1) fun _ => 0, .storeBlockSummary (some ⟨0, ""⟩) fun _ => 0] := by
  refine ⟨_, rfl, rfl, leaked_waits (by decide) rfl, ?_⟩
  rintro ⟨⟨after, ended, same⟩, -⟩
  have unknown : (newAPICache 10 lessByHeight).HasHeight (-1) :=
    (releases_iff (fun _ => rfl) _).mp ⟨after, ended, same⟩
  exact absurd unknown (by decide)

/-! ## The cache without its mutexes -/

/-- The cache as it is seen from outside, with the count of the readers that the lock of the
cache holds. -/
def seen (state : Shared CacheMutex Guarded) : APICache :=
  { state.data.apic with readLocks := (state.holds .cache).readers }

/-- The end of a call as it is seen from outside. -/
def seenEnd {α : Type} : Ended (Shared CacheMutex Guarded) α → Outcome (α × APICache)
  | .returned result state => .returned (result, seen state)
  | .panicked _ => .panicked
  | .waiting => .blocked
  | .fatal => .blocked

/-- Nobody writes, nobody holds the queue, and the comparator is a function. -/
structure Plain (state : Shared CacheMutex Guarded) : Prop where
  noWriter : (state.holds .cache).writing = false
  queueFree : state.holds .queue = .free
  comparator : state.data.nilLessFn = false

section Agreement

variable {newHashFromStr : String → Option Hash} {string : Hash → String}
  {state : Shared CacheMutex Guarded}

/-- Nobody holds the cache when no read lock was left behind. -/
theorem Plain.free_iff (plain : Plain state) :
    state.holds .cache = .free ↔ (seen state).readLocks = 0 := by
  have noWriter := plain.noWriter
  constructor
  · intro isFree
    rw [seen, isFree]
    rfl
  · intro none_
    change (state.holds .cache).readers = 0 at none_
    cases held : state.holds .cache with
    | mk readers writing =>
      rw [held] at noWriter none_
      cases noWriter
      cases none_
      rfl

/-- The queue stays free under the lock of the cache. -/
theorem Plain.queue_free (plain : Plain state) :
    (hold .cache ⟨0, true⟩ state).holds .queue = .free := by
  have apart : CacheMutex.queue ≠ .cache := by decide
  exact (Function.update_of_ne apart (⟨0, true⟩ : RWMutex) state.holds).trans plain.queueFree

/-- Under the lock of the cache, `Insert` changes the queue as the function without locks does,
and leaves the locks as they were. -/
theorem Plain.run_lockedInsert (plain : Plain state) {summary : BlockDataBasic} {clock : Clock}
    {data : Guarded} (comparator : data.nilLessFn = false) :
    (lockedInsert newHashFromStr summary clock).run ⟨(hold .cache ⟨0, true⟩ state).holds, data⟩ =
      .returned (data.apic.expireQueue.insert newHashFromStr summary clock).1
        ⟨(hold .cache ⟨0, true⟩ state).holds,
          data.onQueue fun pq => (pq.insert newHashFromStr summary clock).2⟩ := by
  refine run_locked_returned plain.queue_free ?_
  rw [run_reading_bind, hold_data, comparator, Bool.false_and, if_neg Bool.false_ne_true]
  rfl

/-- Under the lock of the cache, `RemoveBlock` changes the queue as the function without locks
does, and leaves the locks as they were. -/
theorem Plain.run_lockedRemoveBlock (plain : Plain state) (b : Option Ref) :
    (lockedRemoveBlock b).run (hold .cache ⟨0, true⟩ state) =
      .returned () ⟨(hold .cache ⟨0, true⟩ state).holds, state.data.onQueue (removeBlock b)⟩ := by
  refine run_locked_returned plain.queue_free ?_
  rw [run_reading_bind, hold_data, hold_data, plain.comparator, Bool.false_and,
    if_neg Bool.false_ne_true]
  rfl

/-- A change of the queue under the lock of the cache. -/
theorem Plain.run_onQueue (plain : Plain state) (change : BlockPriorityQueue → BlockPriorityQueue)
    {data : Guarded} :
    (locked .queue (writing (Guarded.onQueue change))).run
        ⟨(hold .cache ⟨0, true⟩ state).holds, data⟩ =
      .returned () ⟨(hold .cache ⟨0, true⟩ state).holds, data.onQueue change⟩ :=
  run_locked_returned plain.queue_free rfl

/-- `StoreBlockSummary` with its mutexes ends as the function without them does, on the cache as
it is seen from outside. -/
theorem storeBlockSummary_seen (plain : Plain state) (blockSummary : BlockDataBasic)
    (clock : Clock) :
    seenEnd ((CacheLocks.storeBlockSummary newHashFromStr (some blockSummary) clock).run state) =
      ((seen state).storeBlockSummary newHashFromStr blockSummary clock).bind fun apic =>
        .returned ((), apic) := by
  by_cases isFree : state.holds .cache = .free
  · have entered : ¬(seen state).readLocks ≠ 0 := not_not.mpr (plain.free_iff.mp isFree)
    rw [APICache.storeBlockSummary, if_neg entered]
    cases enabled : state.data.apic.isEnabled with
    | false =>
      have ran : (CacheLocks.storeBlockSummary newHashFromStr (some blockSummary) clock).run state =
          .returned () ⟨state.holds, state.data⟩ := by
        refine run_locked_returned isFree ?_
        simp [enabled, hold]
      simp [ran, seenEnd, seen, enabled]
    | true =>
      cases isHash : newHashFromStr blockSummary.hash with
      | none =>
        have ran : (CacheLocks.storeBlockSummary newHashFromStr (some blockSummary) clock).run state =
            .panicked ⟨state.holds, state.data⟩ := by
          refine run_locked_panicked isFree ?_
          simp [enabled, isHash, hold]
        simp [ran, seenEnd, seen, enabled, Outcome.bind]
      | some hash =>
        cases cached : state.data.apic.blockCache.lookup hash with
        | some ref =>
          have ran : (CacheLocks.storeBlockSummary newHashFromStr (some blockSummary) clock).run state =
              .returned () ⟨state.holds, { state.data with apic := { state.data.apic with
                mainchainBlocks := APICache.extendMainchain blockSummary.height.toNat hash
                  state.data.apic.mainchainBlocks } }⟩ := by
            refine run_locked_returned isFree ?_
            simp [enabled, isHash, cached, hold]
          simp [ran, seenEnd, seen, enabled, cached]
        | none =>
          have ran : (CacheLocks.storeBlockSummary newHashFromStr (some blockSummary) clock).run state =
              .returned () ⟨state.holds, { state.data with
                apic := APICache.insertBlock newHashFromStr hash blockSummary clock
                  { state.data.apic with
                    mainchainBlocks := APICache.extendMainchain blockSummary.height.toNat hash
                      state.data.apic.mainchainBlocks } }⟩ := by
            refine run_locked_returned isFree ?_
            simp only [run_reading_bind, hold_data, enabled, isHash, cached, Bool.not_true,
              Bool.false_eq_true, if_false, run_writing_bind]
            refine (run_bind (plain.run_lockedInsert ?_) _).trans ?_
            · exact plain.comparator
            · rfl
          simp [ran, seenEnd, seen, enabled, cached, APICache.insertBlock]
  · have leaked := mt plain.free_iff.mpr isFree
    rw [CacheLocks.storeBlockSummary, run_locked_waits isFree, APICache.storeBlockSummary,
      if_pos leaked]
    rfl

/-- `RemoveCachedBlock` with its mutexes ends as the function without them does, on the cache as
it is seen from outside. -/
theorem removeCachedBlock_seen (plain : Plain state) (cachedBlock : Option Ref) :
    seenEnd ((CacheLocks.removeCachedBlock newHashFromStr cachedBlock).run state) =
      ((seen state).removeCachedBlock newHashFromStr cachedBlock).bind fun apic =>
        .returned ((), apic) := by
  by_cases isFree : state.holds .cache = .free
  · have entered : ¬(seen state).readLocks ≠ 0 := not_not.mpr (plain.free_iff.mp isFree)
    rw [APICache.removeCachedBlock, if_neg entered]
    cases cachedBlock with
    | none =>
      have ran : (CacheLocks.removeCachedBlock newHashFromStr none).run state =
          .panicked ⟨state.holds, state.data.onQueue (removeBlock none)⟩ := by
        refine run_locked_panicked isFree ?_
        rw [run_bind (plain.run_lockedRemoveBlock none), run_reading_bind, run_panicking]
      rw [ran]
      rfl
    | some ref =>
      cases isHash : newHashFromStr
          ((state.data.onQueue (removeBlock (some ref))).apic.cell ref).summary.hash with
      | none =>
        have ran : (CacheLocks.removeCachedBlock newHashFromStr (some ref)).run state =
            .panicked ⟨state.holds, state.data.onQueue (removeBlock (some ref))⟩ := by
          refine run_locked_panicked isFree ?_
          rw [run_bind (plain.run_lockedRemoveBlock (some ref)), run_reading_bind]
          simp only [isHash, run_panicking]
        simp only [APICache.cell, Guarded.onQueue] at isHash
        simp [ran, seenEnd, seen, APICache.cell, isHash, Outcome.bind]
      | some hash =>
        have ran : (CacheLocks.removeCachedBlock newHashFromStr (some ref)).run state =
            .returned () ⟨state.holds, state.data.onQueue (removeBlock (some ref))⟩ := by
          refine run_locked_returned isFree ?_
          rw [run_bind (plain.run_lockedRemoveBlock (some ref)), run_reading_bind]
          simp only [isHash, run_pure]
        simp only [APICache.cell, Guarded.onQueue] at isHash
        simp [ran, seenEnd, seen, APICache.cell, Guarded.onQueue, isHash]
  · have leaked := mt plain.free_iff.mpr isFree
    rw [CacheLocks.removeCachedBlock, run_locked_waits isFree, APICache.removeCachedBlock,
      if_pos leaked]
    rfl

/-- The lookup of a hash under the lock ends as the function without mutexes does. -/
theorem lookupCachedBlock_seen (plain : Plain state) (hash : Hash) (clock : Clock) :
    seenEnd ((CacheLocks.lookupCachedBlock hash clock).run state) =
      (seen state).lookupCachedBlock hash clock := by
  by_cases isFree : state.holds .cache = .free
  · have entered : ¬(seen state).readLocks ≠ 0 := not_not.mpr (plain.free_iff.mp isFree)
    rw [APICache.lookupCachedBlock, if_neg entered]
    cases cached : state.data.apic.blockCache.lookup hash with
    | none =>
      have ran : (CacheLocks.lookupCachedBlock hash clock).run state =
          .returned none ⟨state.holds, { state.data with apic := { state.data.apic with
            misses := state.data.apic.misses + 1 } }⟩ := by
        refine run_locked_returned isFree ?_
        simp [cached]
      simp [ran, seenEnd, seen, cached]
    | some ref =>
      have ran : (CacheLocks.lookupCachedBlock hash clock).run state =
          .returned (some ref) ⟨state.holds, { state.data with apic := { state.data.apic with
            expireQueue := state.data.apic.expireQueue.lookedUp ref clock
            hits := state.data.apic.hits + 1 } }⟩ := by
        refine run_locked_returned isFree ?_
        simp only [run_reading_bind, hold_data, cached, run_writing_bind]
        refine (run_bind (plain.run_onQueue _) _).trans ?_
        refine (run_bind (plain.run_onQueue _) _).trans ?_
        rfl
      simp [ran, seenEnd, seen, cached]
  · have leaked := mt plain.free_iff.mpr isFree
    rw [CacheLocks.lookupCachedBlock, run_locked_waits isFree, APICache.lookupCachedBlock,
      if_pos leaked]
    rfl

/-- The lookup of a hash through its text ends as the function without mutexes does. -/
theorem getCachedBlockByHash_seen (plain : Plain state) (hash : Hash) (clock : Clock) :
    seenEnd ((CacheLocks.getCachedBlockByHash newHashFromStr string hash clock).run state) =
      (seen state).getCachedBlockByHash newHashFromStr string hash clock := by
  unfold CacheLocks.getCachedBlockByHash APICache.getCachedBlockByHash
  cases newHashFromStr (string hash) with
  | none => rfl
  | some valid => exact lookupCachedBlock_seen plain hash clock

/-- The lookup of a text ends as the function without mutexes does. -/
theorem getCachedBlockByHashStr_seen (plain : Plain state) (hashStr : String) (clock : Clock) :
    seenEnd ((CacheLocks.getCachedBlockByHashStr newHashFromStr hashStr clock).run state) =
      (seen state).getCachedBlockByHashStr newHashFromStr hashStr clock := by
  unfold CacheLocks.getCachedBlockByHashStr APICache.getCachedBlockByHashStr
  cases newHashFromStr hashStr with
  | none => rfl
  | some hash => exact lookupCachedBlock_seen plain hash clock

/-- The lookup of a height ends as the function without mutexes does, and leaves a read lock
behind where the count of them grows. -/
theorem getCachedBlockByHeight_seen (plain : Plain state) (height : Int64) (clock : Clock) :
    seenEnd ((CacheLocks.getCachedBlockByHeight newHashFromStr string height clock).run state) =
      (seen state).getCachedBlockByHeight newHashFromStr string height clock := by
  by_cases known : state.data.apic.HasHeight height
  · have knownSeen : (seen state).HasHeight height := known
    rw [CacheLocks.getCachedBlockByHeight_known plain.noWriter known,
      APICache.getCachedBlockByHeight, if_pos knownSeen]
    exact getCachedBlockByHash_seen plain _ clock
  · have unknownSeen : ¬(seen state).HasHeight height := known
    rw [CacheLocks.getCachedBlockByHeight_unknown plain.noWriter known,
      APICache.getCachedBlockByHeight, if_neg unknownSeen]
    simp [seenEnd, seen, hold]

end Agreement

end Hcexplorer.Hcdataapi

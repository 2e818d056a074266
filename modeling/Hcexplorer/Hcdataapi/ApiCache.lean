import Mathlib.Data.List.AList
import Hcexplorer.Hcdataapi.QueueHeap
import Hcexplorer.Library.Outcome
import Hcexplorer.Library.Runs

/-!
# The API cache

`APICache` of `hcdataapi/apicache.go`: a map from hashes to cached blocks, with the
expiration queue that decides which blocks stay. A stored block gets two records, one
that the map points to and one that the queue allocates for itself.

A call that needs the lock of the cache waits for ever once a lookup by height has
left the read lock behind, which it does for a height outside of `MainchainBlocks`.
`WatchPriorityQueue` orders the queue anew at moments of its own; this is one more
call. The session of the callers is the cache with the blocks that lookups returned.

`chainhash.NewHashFromStr` and `Hash.String` are parameters.
-/

namespace Hcexplorer.Hcdataapi

open Runs BlockPriorityQueue

/-- `APICache`. `readLocks` counts the read locks that were not given back. -/
structure APICache where
  isEnabled : Bool
  capacity : UInt32
  blockCache : AList fun _ : Hash => Ref
  mainchainBlocks : List Hash
  expireQueue : BlockPriorityQueue
  hits : UInt64
  misses : UInt64
  readLocks : Nat

/-- `NewAPICache` and then `SetLessFn`: an empty and enabled cache of a capacity, with a
comparator for its queue. -/
def newAPICache (capacity : UInt32) (lessFn : CachedBlock → CachedBlock → Bool) : APICache where
  isEnabled := true
  capacity := capacity
  blockCache := ∅
  mainchainBlocks := []
  expireQueue := (newBlockPriorityQueue capacity).setLessFn lessFn
  hits := 0
  misses := 0
  readLocks := 0

namespace APICache

/-- The block behind a pointer, as it is now in the memory of the queue. -/
def cell (apic : APICache) (ref : Ref) : CachedBlock := apic.expireQueue.cell ref

/-- `MainchainBlocks` with the hash at the height, after as many empty hashes as it takes. -/
def extendMainchain (height : Nat) (hash : Hash) (mainchainBlocks : List Hash) : List Hash :=
  let padded := mainchainBlocks ++ List.replicate (height - mainchainBlocks.length) 0
  if padded.length = height then padded ++ [hash] else padded.set height hash

/-- The map after the queue was offered a block: the removed block is deleted, the added
one entered. -/
def storedIn (blockCache : AList fun _ : Hash => Ref) (hash : Hash) (cachedBlock : Ref)
    (inserted : Bool × Option Hash) : AList fun _ : Hash => Ref :=
  let kept : AList fun _ : Hash => Ref :=
    match inserted.2 with
    | some removedBlock => blockCache.erase removedBlock
    | none => blockCache
  if inserted.1 then kept.insert hash cachedBlock else kept

/-- The second half of `StoreBlockSummary`, for a hash that is not cached. -/
def insertBlock (newHashFromStr : String → Option Hash) (hash : Hash) (blockSummary : BlockDataBasic)
    (clock : Clock) (apic : APICache) : APICache :=
  let cachedBlock := apic.expireQueue.allocated
  let queue := apic.expireQueue.withRecord blockSummary (clock 0)
  let inserted := queue.insert newHashFromStr blockSummary clock.later
  { apic with
    expireQueue := inserted.2
    blockCache := storedIn apic.blockCache hash cachedBlock inserted.1 }

/-- `insertBlock` hands the new block's record to the queue, which takes it or refuses it. -/
theorem insertBlock_expireQueue (newHashFromStr : String → Option Hash) (hash : Hash)
    (blockSummary : BlockDataBasic) (clock : Clock) (apic : APICache) :
    (apic.insertBlock newHashFromStr hash blockSummary clock).expireQueue =
      ((apic.expireQueue.withRecord blockSummary (clock 0)).insert newHashFromStr blockSummary
        clock.later).2 := rfl

/-- `insertBlock` keeps the block in the map only where the queue took it, and drops the block
that the queue pushed out. -/
theorem insertBlock_blockCache (newHashFromStr : String → Option Hash) (hash : Hash)
    (blockSummary : BlockDataBasic) (clock : Clock) (apic : APICache) :
    (apic.insertBlock newHashFromStr hash blockSummary clock).blockCache =
      storedIn apic.blockCache hash apic.expireQueue.allocated
        ((apic.expireQueue.withRecord blockSummary (clock 0)).insert newHashFromStr blockSummary
          clock.later).1 := rfl

/-- `StoreBlockSummary`: nothing where the cache is off, an error for a text that is no hash,
else the block is inserted or updated. -/
def storeBlockSummary (newHashFromStr : String → Option Hash) (blockSummary : BlockDataBasic)
    (clock : Clock) (apic : APICache) : Outcome APICache :=
  if apic.readLocks ≠ 0 then .blocked
  else if !apic.isEnabled then .returned apic
  else
    match newHashFromStr blockSummary.hash with
    | none => .panicked
    | some hash =>
      let apic := { apic with
        mainchainBlocks := extendMainchain blockSummary.height.toNat hash apic.mainchainBlocks }
      match apic.blockCache.lookup hash with
      | some _ => .returned apic
      | none => .returned (apic.insertBlock newHashFromStr hash blockSummary clock)

/-- `RemoveCachedBlock`. The map entry is deleted when the hash is not valid, at a nil
pointer. -/
def removeCachedBlock (newHashFromStr : String → Option Hash) (cachedBlock : Option Ref)
    (apic : APICache) : Outcome APICache :=
  if apic.readLocks ≠ 0 then .blocked
  else
    let apic := { apic with expireQueue := apic.expireQueue.removeBlock cachedBlock }
    match cachedBlock with
    | none => .panicked
    | some ref =>
      match newHashFromStr (apic.cell ref).summary.hash with
      | none => .panicked
      | some _ => .returned apic

/-- `getCachedBlockByHash`, the lookup under the write lock. A hit counts an access of the block
at the clock's time. -/
def lookupCachedBlock (hash : Hash) (clock : Clock) (apic : APICache) :
    Outcome (Option Ref × APICache) :=
  if apic.readLocks ≠ 0 then .blocked
  else
    match apic.blockCache.lookup hash with
    | some cachedBlock =>
      .returned (some cachedBlock, { apic with
        expireQueue := apic.expireQueue.lookedUp cachedBlock clock
        hits := apic.hits + 1 })
    | none => .returned (none, { apic with misses := apic.misses + 1 })

/-- `GetCachedBlockByHashStr`: nil for a text that is no hash, else the lookup of the hash. -/
def getCachedBlockByHashStr (newHashFromStr : String → Option Hash) (hashStr : String)
    (clock : Clock) (apic : APICache) : Outcome (Option Ref × APICache) :=
  match newHashFromStr hashStr with
  | none => .returned (none, apic)
  | some hash => apic.lookupCachedBlock hash clock

/-- `GetCachedBlockByHash`: the hash goes through its text and back, and is looked up if that
succeeds. -/
def getCachedBlockByHash (newHashFromStr : String → Option Hash) (string : Hash → String)
    (hash : Hash) (clock : Clock) (apic : APICache) : Outcome (Option Ref × APICache) :=
  match newHashFromStr (string hash) with
  | none => .returned (none, apic)
  | some _ => apic.lookupCachedBlock hash clock

/-- The height is one of `MainchainBlocks`: it is not negative and the slice is longer. -/
def HasHeight (apic : APICache) (height : Int64) : Prop :=
  0 ≤ height.toInt ∧ height.toInt < apic.mainchainBlocks.length

instance (apic : APICache) (height : Int64) : Decidable (apic.HasHeight height) :=
  inferInstanceAs (Decidable (_ ∧ _))

/-- `GetCachedBlockByHeight`. For a height outside it returns with the read lock held. -/
def getCachedBlockByHeight (newHashFromStr : String → Option Hash) (string : Hash → String)
    (height : Int64) (clock : Clock) (apic : APICache) : Outcome (Option Ref × APICache) :=
  if apic.HasHeight height then
    let hash := apic.mainchainBlocks.getD height.toInt.toNat 0
    apic.getCachedBlockByHash newHashFromStr string hash clock
  else .returned (none, { apic with readLocks := apic.readLocks + 1 })

/-- `GetBlockSummary`: the summary of the block that the lookup of its height finds, nil where it
finds none. -/
def getBlockSummary (newHashFromStr : String → Option Hash) (string : Hash → String)
    (height : Int64) (clock : Clock) (apic : APICache) :
    Outcome (Option BlockDataBasic × APICache) :=
  (apic.getCachedBlockByHeight newHashFromStr string height clock).bind fun found =>
    .returned (found.1.map fun ref => (found.2.cell ref).summary, found.2)

/-- The cache with its queue ordered anew, which is the work of a tick of `WatchPriorityQueue`. -/
def reheap (apic : APICache) : APICache := { apic with expireQueue := apic.expireQueue.reheap }

end APICache

/-! ## Sessions -/

/-- The calls on the cache, and the work of `WatchPriorityQueue`. -/
inductive CacheCall where
  | storeBlockSummary (blockSummary : BlockDataBasic) (clock : Clock)
  | getBlockSummary (height : Int64) (clock : Clock)
  | getCachedBlockByHeight (height : Int64) (clock : Clock)
  | getCachedBlockByHash (hash : Hash) (clock : Clock)
  | getCachedBlockByHashStr (hashStr : String) (clock : Clock)
  | removeCachedBlock (cachedBlock : Option Ref)
  | reheap

/-- The cache and the blocks that were obtained from it. -/
structure Session where
  apic : APICache
  obtained : List Ref

/-- A session keeps the block that a lookup returned, so that its caller may remove it later. -/
def Session.obtain (session : Session) (found : Option Ref × APICache) : Session :=
  ⟨found.2, found.1.toList ++ session.obtained⟩

/-- Perform one call. There is no next state when it does not return. -/
def cacheStep (newHashFromStr : String → Option Hash) (string : Hash → String) (session : Session) :
    CacheCall → Option Session
  | .storeBlockSummary blockSummary clock =>
    (session.apic.storeBlockSummary newHashFromStr blockSummary clock).result?.map
      fun apic => { session with apic := apic }
  | .getBlockSummary height clock =>
    (session.apic.getBlockSummary newHashFromStr string height clock).result?.map
      fun found => { session with apic := found.2 }
  | .getCachedBlockByHeight height clock =>
    (session.apic.getCachedBlockByHeight newHashFromStr string height clock).result?.map
      session.obtain
  | .getCachedBlockByHash hash clock =>
    (session.apic.getCachedBlockByHash newHashFromStr string hash clock).result?.map session.obtain
  | .getCachedBlockByHashStr hashStr clock =>
    (session.apic.getCachedBlockByHashStr newHashFromStr hashStr clock).result?.map session.obtain
  | .removeCachedBlock cachedBlock =>
    (session.apic.removeCachedBlock newHashFromStr cachedBlock).result?.map
      fun apic => { session with apic := apic }
  | .reheap => some { session with apic := session.apic.reheap }

/-- The hash that a call looks up, with the readings of the clock it takes. -/
def CacheCall.asks (newHashFromStr : String → Option Hash) (apic : APICache) :
    CacheCall → Option (Hash × Clock)
  | .getBlockSummary height clock | .getCachedBlockByHeight height clock =>
    if apic.HasHeight height then
      some (apic.mainchainBlocks.getD height.toInt.toNat 0, clock)
    else none
  | .getCachedBlockByHash hash clock => some (hash, clock)
  | .getCachedBlockByHashStr hashStr clock => (newHashFromStr hashStr).map fun hash => (hash, clock)
  | _ => none

/-- A call removes only blocks that a lookup of this session has returned; the other calls are
free. -/
def FromCache (session : Session) : CacheCall → Prop
  | .removeCachedBlock cachedBlock => ∃ ref ∈ session.obtained, cachedBlock = some ref
  | _ => True

/-- The start of a session: a new cache whose callers hold none of its blocks yet. -/
def startSession (capacity : UInt32) (lessFn : CachedBlock → CachedBlock → Bool) : Session :=
  ⟨newAPICache capacity lessFn, []⟩

end Hcexplorer.Hcdataapi

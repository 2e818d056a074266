import Hcexplorer.Hcdataapi.CacheCoherence
import Hcexplorer.Hcdataapi.QueueOrder

/-!
# What the API cache evicts

A lookup records the access in the record of the map. The queue compares records of
its own, which say one access at the time of the storing until the block is displaced.
So a full cache evicts a block that is least by the times of the storing.

The law says when this is a block that is least by the recorded accesses: when the
comparator orders the cached blocks, and the new one among them, by both records
alike. That is so as long as no lookup records an access that the comparator sees and
the readings of the clock during one storing make no difference. A lookup by a height
outside of `MainchainBlocks` keeps the read lock, and then nothing is stored any more.
-/

namespace Hcexplorer.Hcdataapi

open Runs BlockPriorityQueue

variable {newHashFromStr : String → Option Hash} {string : Hash → String}

/-- The cached block of the hash is least by the recorded accesses. -/
def LeastRecorded (apic : APICache) (hash : Hash) (ref : Ref) : Prop :=
  apic.blockCache.lookup hash = some ref ∧
    ∀ hash' ref', apic.blockCache.lookup hash' = some ref' →
      apic.expireQueue.lessFn (apic.cell ref') (apic.cell ref) = false

/-- A block that is least by the recorded accesses is replaced by a new one that is
above it, or nothing is stored and the new block is above no least one. -/
def EvictsLeast (before after : APICache) (hash : Hash) (recorded : CachedBlock) : Prop :=
  (∃ evicted ref, LeastRecorded before evicted ref ∧
      before.expireQueue.lessFn (before.cell ref) recorded = true ∧
      ∀ other, other ∈ after.blockCache ↔
        other = hash ∨ (other ∈ before.blockCache ∧ other ≠ evicted)) ∨
    (after.blockCache = before.blockCache ∧
      ∀ evicted ref, LeastRecorded before evicted ref →
        before.expireQueue.lessFn (before.cell ref) recorded = false)

/-- The records of one cached block: the one of the map and the one of the queue. -/
def Twins (newHashFromStr : String → Option Hash) (apic : APICache) (cached queued : Ref) : Prop :=
  ∃ hash, apic.blockCache.lookup hash = some cached ∧ queued ∈ apic.expireQueue.bh ∧
    HasHash newHashFromStr apic.expireQueue queued hash

/-- The comparator orders the cached blocks by both records alike, and compares them
with the new block alike. -/
structure OrderedAlike (newHashFromStr : String → Option Hash) (apic : APICache)
    (summary : BlockDataBasic) (clock : Clock) : Prop where
  cached : ∀ c q c' q', Twins newHashFromStr apic c q → Twins newHashFromStr apic c' q' →
    apic.expireQueue.lessFn (apic.cell q) (apic.cell q') =
      apic.expireQueue.lessFn (apic.cell c) (apic.cell c')
  new : ∀ c q, Twins newHashFromStr apic c q →
    apic.expireQueue.lessFn (apic.cell q) ⟨summary, 1, clock 1, 0⟩ =
      apic.expireQueue.lessFn (apic.cell c) ⟨summary, 1, clock 0, -1⟩

/-- The record of the map for a queued block. -/
def twinOf (newHashFromStr : String → Option Hash) (apic : APICache) (queued : Ref) : Option Ref :=
  (newHashFromStr (apic.cell queued).summary.hash).bind fun hash => apic.blockCache.lookup hash

/-- A cached block and a queued one are twins exactly when the map has the cached one under the
queued one's hash. -/
theorem twins_iff {apic : APICache} {cached queued : Ref} :
    Twins newHashFromStr apic cached queued ↔
      queued ∈ apic.expireQueue.bh ∧ cached ∈ twinOf newHashFromStr apic queued := by
  constructor
  · rintro ⟨hash, isCached, isQueued, hasHash⟩
    exact ⟨isQueued, Option.bind_eq_some_iff.mpr ⟨hash, hasHash, isCached⟩⟩
  · rintro ⟨isQueued, isTwin⟩
    obtain ⟨hash, hasHash, isCached⟩ := Option.bind_eq_some_iff.mp isTwin
    exact ⟨hash, isCached, isQueued, hasHash⟩

/-- Both orders are compared by going through the queue. -/
instance (apic : APICache) (summary : BlockDataBasic) (clock : Clock) :
    Decidable (OrderedAlike newHashFromStr apic summary clock) :=
  decidable_of_iff
    ((∀ q ∈ apic.expireQueue.bh, ∀ c ∈ twinOf newHashFromStr apic q,
        ∀ q' ∈ apic.expireQueue.bh, ∀ c' ∈ twinOf newHashFromStr apic q',
          apic.expireQueue.lessFn (apic.cell q) (apic.cell q') =
            apic.expireQueue.lessFn (apic.cell c) (apic.cell c')) ∧
      ∀ q ∈ apic.expireQueue.bh, ∀ c ∈ twinOf newHashFromStr apic q,
        apic.expireQueue.lessFn (apic.cell q) ⟨summary, 1, clock 1, 0⟩ =
          apic.expireQueue.lessFn (apic.cell c) ⟨summary, 1, clock 0, -1⟩)
    ⟨fun both => ⟨fun c q c' q' twins twins' =>
        both.1 q (twins_iff.mp twins).1 c (twins_iff.mp twins).2 q' (twins_iff.mp twins').1 c'
          (twins_iff.mp twins').2,
      fun c q twins => both.2 q (twins_iff.mp twins).1 c (twins_iff.mp twins).2⟩,
      fun alike => ⟨fun q queued c twin q' queued' c' twin' =>
        alike.cached c q c' q' (twins_iff.mpr ⟨queued, twin⟩) (twins_iff.mpr ⟨queued', twin'⟩),
      fun q queued c twin => alike.new c q (twins_iff.mpr ⟨queued, twin⟩)⟩⟩

/-- No lookup asks for a height outside of `MainchainBlocks`. -/
def HeightsInRange (session : Session) : CacheCall → Prop
  | .getBlockSummary height _ | .getCachedBlockByHeight height _ => session.apic.HasHeight height
  | _ => True

/-! ## What stays -/

/-- No call changes the comparator of the queue. -/
theorem Effect.lessFn {capacity : UInt32} {call : CacheCall} {session next : Session}
    (effect : Effect newHashFromStr call session next)
    (coherent : session.Coherent newHashFromStr capacity) :
    next.apic.expireQueue.lessFn = session.apic.expireQueue.lessFn := by
  cases effect with
  | kept queue => rw [queue]
  | inserted summary clock hash isStore isHash isNew queue =>
    have withRecord := Agreement.withRecord coherent summary (clock 0)
    rw [queue, APICache.insertBlock_expireQueue]
    rcases withRecord.insert_cases summary clock.later hash session.apic.expireQueue.allocated with
      ⟨same, -⟩ | ⟨kept, target, b, -, accepted, -⟩
    · rw [same]
      rfl
    · exact accepted.received.lessFn
  | lookedUp hash ref clock asked found queue => rw [queue]; rfl
  | removed ref isObtained queue =>
    obtain ⟨hash, isRecord⟩ := Agreement.obtained coherent ref isObtained
    rw [queue, Agreement.removeBlock isRecord]
  | reheaped queue =>
    rw [queue]
    exact (reheap_rearranged session.apic.expireQueue).1.lessFn

/-- The cache is enabled and nothing holds its lock. -/
def Available (apic : APICache) : Prop := apic.isEnabled = true ∧ apic.readLocks = 0

/-- Flag, lock and height index are as they were. -/
structure Steady (before after : APICache) : Prop where
  isEnabled : after.isEnabled = before.isEnabled
  readLocks : after.readLocks = before.readLocks
  mainchainBlocks : after.mainchainBlocks = before.mainchainBlocks

/-- The lookup of a hash leaves the flag, the lock and the height index as they were. -/
theorem lookupCachedBlock_steady {apic : APICache} {hash : Hash} {clock : Clock}
    {found : Option Ref × APICache}
    (returned : apic.lookupCachedBlock hash clock = .returned found) : Steady apic found.2 := by
  unfold APICache.lookupCachedBlock at returned
  split at returned
  · cases returned
  split at returned
  · cases returned
    exact ⟨rfl, rfl, rfl⟩
  · cases returned
    exact ⟨rfl, rfl, rfl⟩

/-- The lookup of a hash through its text leaves the flag, the lock and the height index as they
were. -/
theorem getCachedBlockByHash_steady {apic : APICache} {hash : Hash} {clock : Clock}
    {found : Option Ref × APICache}
    (returned : apic.getCachedBlockByHash newHashFromStr string hash clock = .returned found) :
    Steady apic found.2 := by
  unfold APICache.getCachedBlockByHash at returned
  split at returned
  · cases returned
    exact ⟨rfl, rfl, rfl⟩
  · exact lookupCachedBlock_steady returned

/-- The lookup of a known height leaves the flag, the lock and the height index as they were. -/
theorem getCachedBlockByHeight_steady {apic : APICache} {height : Int64} {clock : Clock}
    {found : Option Ref × APICache} (inRange : apic.HasHeight height)
    (returned : apic.getCachedBlockByHeight newHashFromStr string height clock = .returned found) :
    Steady apic found.2 := by
  unfold APICache.getCachedBlockByHeight at returned
  rw [if_pos inRange] at returned
  exact getCachedBlockByHash_steady returned

/-- What `StoreBlockSummary` does to an available cache, its map and its queue apart. -/
theorem storeBlockSummary_steady {apic after : APICache} (available : Available apic)
    {summary : BlockDataBasic} {clock : Clock}
    (returned : apic.storeBlockSummary newHashFromStr summary clock = .returned after) :
    ∃ hash, newHashFromStr summary.hash = some hash ∧
      Steady { apic with mainchainBlocks :=
        APICache.extendMainchain summary.height.toNat hash apic.mainchainBlocks } after := by
  unfold APICache.storeBlockSummary at returned
  split at returned
  · cases returned
  split at returned
  · rename_i disabled
    simp [available.1] at disabled
  split at returned
  · cases returned
  rename_i hash isHash
  simp only at returned
  split at returned
  · cases returned
    exact ⟨hash, isHash, ⟨rfl, rfl, rfl⟩⟩
  · cases returned
    exact ⟨hash, isHash, ⟨rfl, rfl, rfl⟩⟩

/-- The block that a call stores, none for a call that stores no block. -/
def CacheCall.stored : CacheCall → Option BlockDataBasic
  | .storeBlockSummary blockSummary _ => some blockSummary
  | _ => none

/-- Calls that ask for heights in range and store no block are steady. -/
theorem cacheStep_steady {session next : Session} {call : CacheCall} (noStore : call.stored = none)
    (inRange : HeightsInRange session call)
    (taken : cacheStep newHashFromStr string session call = some next) :
    Steady session.apic next.apic := by
  cases call with
  | storeBlockSummary summary clock => cases noStore
  | getBlockSummary height clock =>
    obtain ⟨found, returned, rfl⟩ := Option.map_eq_some_iff.mp taken
    rw [Outcome.result?_eq_some] at returned
    obtain ⟨looked, isLooked, same⟩ := Outcome.bind_eq_returned.mp returned
    cases same
    exact getCachedBlockByHeight_steady inRange isLooked
  | getCachedBlockByHeight height clock =>
    obtain ⟨found, returned, rfl⟩ := Option.map_eq_some_iff.mp taken
    rw [Outcome.result?_eq_some] at returned
    exact getCachedBlockByHeight_steady inRange returned
  | getCachedBlockByHash hash clock =>
    obtain ⟨found, returned, rfl⟩ := Option.map_eq_some_iff.mp taken
    rw [Outcome.result?_eq_some] at returned
    exact getCachedBlockByHash_steady returned
  | getCachedBlockByHashStr hashStr clock =>
    obtain ⟨found, returned, rfl⟩ := Option.map_eq_some_iff.mp taken
    rw [Outcome.result?_eq_some] at returned
    unfold APICache.getCachedBlockByHashStr at returned
    split at returned
    · cases returned
      exact ⟨rfl, rfl, rfl⟩
    · exact lookupCachedBlock_steady returned
  | removeCachedBlock cachedBlock =>
    obtain ⟨apic, returned, rfl⟩ := Option.map_eq_some_iff.mp taken
    rw [Outcome.result?_eq_some] at returned
    unfold APICache.removeCachedBlock at returned
    split at returned
    · cases returned
    simp only at returned
    split at returned
    · cases returned
    split at returned
    · cases returned
    · cases returned
      exact ⟨rfl, rfl, rfl⟩
  | reheap => exact Option.some.inj taken ▸ ⟨rfl, rfl, rfl⟩

/-- A cache that is enabled and free stays so under a step that changes neither. -/
theorem Steady.available {before after : APICache} (steady : Steady before after)
    (available : Available before) : Available after :=
  ⟨steady.isEnabled.trans available.1, steady.readLocks.trans available.2⟩

/-- Calls that ask for heights in range leave the cache available. -/
theorem cacheStep_available {session next : Session} {call : CacheCall}
    (available : Available session.apic) (inRange : HeightsInRange session call)
    (taken : cacheStep newHashFromStr string session call = some next) : Available next.apic := by
  cases stores : call.stored with
  | none => exact (cacheStep_steady stores inRange taken).available available
  | some summary =>
    cases call with
    | storeBlockSummary blockSummary clock =>
      obtain ⟨apic, returned, rfl⟩ := Option.map_eq_some_iff.mp taken
      rw [Outcome.result?_eq_some] at returned
      obtain ⟨hash, -, steady⟩ := storeBlockSummary_steady available returned
      exact steady.available available
    | _ => cases stores

/-- What is known of a session with a fixed comparator. -/
structure Managed (newHashFromStr : String → Option Hash) (capacity : UInt32)
    (lessFn : CachedBlock → CachedBlock → Bool) (session : Session) : Prop where
  coherent : session.Coherent newHashFromStr capacity
  lessFn : session.apic.expireQueue.lessFn = lessFn
  available : Available session.apic

/-- Each call keeps a session managed: coherent, available and with the comparator it started
with. -/
theorem Managed.step {capacity : UInt32} {lessFn : CachedBlock → CachedBlock → Bool}
    {session next : Session} {call : CacheCall}
    (managed : Managed newHashFromStr capacity lessFn session)
    (fromCache : FromCache session call) (inRange : HeightsInRange session call)
    (taken : cacheStep newHashFromStr string session call = some next) :
    Managed newHashFromStr capacity lessFn next :=
  have effect := cacheStep_effect fromCache taken
  ⟨managed.coherent.effect effect, (effect.lessFn managed.coherent).trans managed.lessFn,
    cacheStep_available managed.available inRange taken⟩

/-- A session is managed at its start. -/
theorem Managed.start (capacity : UInt32) (lessFn : CachedBlock → CachedBlock → Bool) :
    Managed newHashFromStr capacity lessFn (startSession capacity lessFn) :=
  ⟨Session.Coherent.start capacity lessFn, rfl, rfl, rfl⟩

/-- A session whose lookups ask for heights in range is managed after all of its calls. -/
theorem session_managed {capacity : UInt32} {lessFn : CachedBlock → CachedBlock → Bool}
    {calls : List CacheCall} {session : Session}
    (admitted : Admitted (cacheStep newHashFromStr string)
      (fun session call => FromCache session call ∧ HeightsInRange session call)
      (startSession capacity lessFn) calls)
    (ran : exec (cacheStep newHashFromStr string) (startSession capacity lessFn) calls =
      some session) : Managed newHashFromStr capacity lessFn session :=
  exec_invariant (Managed newHashFromStr capacity lessFn)
    (fun _ _ _ managed allowed taken => managed.step allowed.1 allowed.2 taken)
    (Managed.start capacity lessFn) admitted ran

/-! ## The eviction -/

section Eviction
variable {capacity : UInt32} {lessFn : CachedBlock → CachedBlock → Bool} {session : Session}

/-- Every cached block has a record in the queue. -/
theorem exists_twin (coherent : session.Coherent newHashFromStr capacity) {hash : Hash} {ref : Ref}
    (cached : session.apic.blockCache.lookup hash = some ref) :
    ∃ queued, Twins newHashFromStr session.apic ref queued := by
  have member : hash ∈ session.apic.blockCache :=
    AList.lookup_isSome.mp (by rw [cached]; rfl)
  obtain ⟨queued, isQueued, hasHash⟩ := Agreement.found coherent hash member
  exact ⟨queued, hash, cached, isQueued, hasHash⟩

/-- Every queued block has a record in the map. -/
theorem exists_cached (coherent : session.Coherent newHashFromStr capacity) {queued : Ref}
    (isQueued : queued ∈ session.apic.expireQueue.bh) :
    ∃ hash ref, session.apic.blockCache.lookup hash = some ref ∧
      HasHash newHashFromStr session.apic.expireQueue queued hash ∧
      Twins newHashFromStr session.apic ref queued := by
  obtain ⟨hash, member, hasHash⟩ := Agreement.queued coherent queued isQueued
  obtain ⟨ref, cached⟩ := Option.isSome_iff_exists.mp (AList.lookup_isSome.mpr member)
  exact ⟨hash, ref, cached, hasHash, hash, cached, isQueued, hasHash⟩

/-- Where the comparator orders both kinds of records alike, the first block of an
ordered queue is least by the recorded accesses too. -/
theorem first_leastRecorded {summary : BlockDataBasic} {clock : Clock}
    (managed : Managed newHashFromStr capacity lessFn session) (order : WeakOrder lessFn)
    (ordered : Heap.Ordered blockHeap session.apic.expireQueue)
    (alike : OrderedAlike newHashFromStr session.apic summary clock) {hash : Hash} {ref : Ref}
    (cached : session.apic.blockCache.lookup hash = some ref)
    (twins : Twins newHashFromStr session.apic ref (session.apic.expireQueue.ref 0)) :
    LeastRecorded session.apic hash ref := by
  refine ⟨cached, fun hash' ref' cached' => ?_⟩
  obtain ⟨queued', twins'⟩ := exists_twin managed.coherent cached'
  rw [← alike.cached ref' queued' ref _ twins' twins]
  obtain ⟨other, -, isQueued, -⟩ := twins'
  have isValid : session.apic.expireQueue.Valid :=
    ⟨managed.lessFn.symm ▸ order, Agreement.inMemory managed.coherent⟩
  exact block_zero_least isValid ordered isQueued

/-- Any other block that is least is not below what the first one is not below. -/
theorem leastRecorded_not_below (managed : Managed newHashFromStr capacity lessFn session)
    (order : WeakOrder lessFn) {hash other : Hash} {ref otherRef : Ref} {recorded : CachedBlock}
    (least : LeastRecorded session.apic hash ref)
    (notBelow : lessFn (session.apic.cell ref) recorded = false)
    (otherLeast : LeastRecorded session.apic other otherRef) :
    lessFn (session.apic.cell otherRef) recorded = false := by
  have level := least.2 other otherRef otherLeast.1
  rw [managed.lessFn] at level
  exact Heap.not_below_trans order.order level notBelow

/-- A new block that is stored in a full cache whose queue is ordered. -/
theorem insertBlock_evictsLeast {summary : BlockDataBasic} {clock : Clock} {hash : Hash}
    (managed : Managed newHashFromStr capacity lessFn session) (order : WeakOrder lessFn)
    (ordered : Heap.Ordered blockHeap session.apic.expireQueue)
    (full : session.apic.blockCache.keys.length = capacity.toNat)
    (alike : OrderedAlike newHashFromStr session.apic summary clock) :
    EvictsLeast session.apic (session.apic.insertBlock newHashFromStr hash summary clock) hash
      ⟨summary, 1, clock 0, -1⟩ := by
  have coherent := managed.coherent
  have withRecord := Agreement.withRecord coherent summary (clock 0)
  have isFull : (session.apic.expireQueue.withRecord summary (clock 0)).full = true := by
    have filled := Agreement.keys_le coherent
    rw [full] at filled
    exact decide_eq_true (withRecord.capacityOf ▸ filled)
  have stored := APICache.insertBlock_blockCache newHashFromStr hash summary clock session.apic
  by_cases none_ : (session.apic.expireQueue.withRecord summary (clock 0)).capacity = 0
  · -- nothing is cached
    rw [insert_none none_] at stored
    refine Or.inr ⟨stored, fun evicted ref least => ?_⟩
    have empty : session.apic.blockCache.keys = [] := by
      rw [← List.length_eq_zero_iff, full, ← withRecord.capacityOf, none_]
      rfl
    have member : evicted ∈ session.apic.blockCache :=
      AList.lookup_isSome.mp (by rw [least.1]; rfl)
    rw [AList.mem_keys, empty] at member
    cases member
  have first : session.apic.expireQueue.ref 0 ∈ session.apic.expireQueue.bh :=
    ref_mem (full_nonempty none_ isFull)
  obtain ⟨evicted, ref, cached, hasHash, twins⟩ := exists_cached coherent first
  have least := first_leastRecorded managed order ordered alike cached twins
  have top : (session.apic.expireQueue.withRecord summary (clock 0)).block 0 =
      session.apic.cell (session.apic.expireQueue.ref 0) :=
    withRecord_old summary (clock 0) (Agreement.inMemory coherent _ first)
  have compared := alike.new ref _ twins
  cases below : session.apic.expireQueue.lessFn
      (session.apic.cell (session.apic.expireQueue.ref 0)) ⟨summary, 1, clock 1, 0⟩ with
  | false =>
    have refused : (session.apic.expireQueue.withRecord summary (clock 0)).lessFn
        ((session.apic.expireQueue.withRecord summary (clock 0)).block 0)
        ⟨summary, 1, clock.later 0, 0⟩ = false := by
      rw [top]
      exact below
    rw [insert_refused isFull refused] at stored
    refine Or.inr ⟨stored, fun other otherRef otherLeast => ?_⟩
    rw [below, managed.lessFn] at compared
    rw [managed.lessFn]
    exact leastRecorded_not_below managed order least compared.symm otherLeast
  | true =>
    have replaced : (session.apic.expireQueue.withRecord summary (clock 0)).lessFn
        ((session.apic.expireQueue.withRecord summary (clock 0)).block 0)
        ⟨summary, 1, clock.later 0, 0⟩ = true := by
      rw [top]
      exact below
    have removed : newHashFromStr (session.apic.cell (session.apic.expireQueue.ref 0)).summary.hash =
        some evicted := hasHash
    rw [(insert_replaced none_ isFull replaced).1, top, removed] at stored
    refine Or.inl ⟨evicted, ref, least, compared.symm.trans below, fun other => ?_⟩
    rw [stored]
    change other ∈ AList.insert hash _ (session.apic.blockCache.erase evicted) ↔ _
    rw [AList.mem_insert, AList.mem_erase, and_comm]

end Eviction

/-- A new block is entered in `MainchainBlocks` and offered to the queue. -/
theorem storeBlockSummary_new {apic : APICache} {summary : BlockDataBasic} {clock : Clock}
    {hash : Hash} (available : Available apic)
    (isHash : newHashFromStr summary.hash = some hash) (isNew : hash ∉ apic.blockCache) :
    apic.storeBlockSummary newHashFromStr summary clock =
      .returned (APICache.insertBlock newHashFromStr hash summary clock { apic with
        mainchainBlocks :=
          APICache.extendMainchain summary.height.toNat hash apic.mainchainBlocks }) := by
  have notDisabled : (!apic.isEnabled) = false := by rw [available.1, Bool.not_true]
  have missing := AList.lookup_eq_none.mpr isNew
  unfold APICache.storeBlockSummary
  rw [if_neg (not_not_intro available.2), notDisabled]
  simp only [isHash, missing, Bool.false_eq_true, if_false]

/-- In every session of one comparator whose lookups ask for heights in range, after the
queue was ordered anew: a new block that is stored in a full cache displaces one that
is least by the recorded accesses, or is not above that least one and is not stored,
if the comparator orders the blocks alike by the records of the queue and of the map.
The condition asks for more than this store needs: only the block at the top of the
heap and the new one are compared, so it would be enough that the two records agree
about which blocks are least and whether the new one is above them. -/
theorem evicts_leastRecorded (newHashFromStr : String → Option Hash) (string : Hash → String)
    (capacity : UInt32) {lessFn : CachedBlock → CachedBlock → Bool} (order : WeakOrder lessFn)
    {calls : List CacheCall} {session : Session}
    (admitted : Admitted (cacheStep newHashFromStr string)
      (fun session call => FromCache session call ∧ HeightsInRange session call)
      (startSession capacity lessFn) (calls ++ [.reheap]))
    (ran : exec (cacheStep newHashFromStr string) (startSession capacity lessFn)
      (calls ++ [.reheap]) = some session)
    (summary : BlockDataBasic) (clock : Clock) {hash : Hash}
    (isHash : newHashFromStr summary.hash = some hash) (isNew : hash ∉ session.apic.blockCache)
    (full : session.apic.blockCache.keys.length = capacity.toNat)
    (alike : OrderedAlike newHashFromStr session.apic summary clock) :
    ∃ after, session.apic.storeBlockSummary newHashFromStr summary clock = .returned after ∧
      EvictsLeast session.apic after hash ⟨summary, 1, clock 0, -1⟩ := by
  have managed := session_managed admitted ran
  obtain ⟨before, ranBefore, reheaped⟩ := exec_concat ran
  have managedBefore := session_managed ((admitted_append _ _ _).mp admitted).1 ranBefore
  obtain rfl := Option.some.inj reheaped
  have ordered : Heap.Ordered blockHeap before.apic.expireQueue.reheap :=
    reheap_ordered ⟨managedBefore.lessFn.symm ▸ order, Agreement.inMemory managedBefore.coherent⟩
  -- the height is entered in `MainchainBlocks` first, which no block depends on
  have evicts : EvictsLeast before.apic.reheap
      (APICache.insertBlock newHashFromStr hash summary clock { before.apic.reheap with
        mainchainBlocks := APICache.extendMainchain summary.height.toNat hash
          before.apic.reheap.mainchainBlocks })
      hash ⟨summary, 1, clock 0, -1⟩ :=
    insertBlock_evictsLeast managed order ordered full alike
  exact ⟨_, storeBlockSummary_new managed.available isHash isNew, evicts⟩

/-! ## A cache of two blocks -/

/-- Two blocks are stored, one of them is looked up, and the queue is ordered anew. -/
def lookingUp (hash : Hash) : List CacheCall :=
  [.storeBlockSummary ⟨1, sampleText 1⟩ fun _ => 1, .storeBlockSummary ⟨2, sampleText 2⟩ fun _ => 2,
    .getCachedBlockByHash hash fun _ => 3] ++ [.reheap]

/-- The calls that look one block up are calls of a session that asks for no height. -/
theorem lookingUp_admitted (hash : Hash) :
    Admitted (cacheStep sampleHash sampleText)
      (fun session call => FromCache session call ∧ HeightsInRange session call)
      (startSession 2 lessByAccessTime) (lookingUp hash) := by
  exact ⟨⟨trivial, trivial⟩, fun _ _ => ⟨⟨trivial, trivial⟩, fun _ _ => ⟨⟨trivial, trivial⟩,
    fun _ _ => ⟨⟨trivial, trivial⟩, fun _ _ => trivial⟩⟩⟩⟩

/-- The later block is looked up, so the earlier one is displaced. -/
theorem evicts_leastRecorded_earlier :
    ∃ session, exec (cacheStep sampleHash sampleText) (startSession 2 lessByAccessTime)
        (lookingUp 2) = some session ∧
      ∃ after, session.apic.storeBlockSummary sampleHash ⟨3, sampleText 3⟩ (fun _ => 4) =
          .returned after ∧
        EvictsLeast session.apic after 3 ⟨⟨3, sampleText 3⟩, 1, 4, -1⟩ := by
  have ran : exec (cacheStep sampleHash sampleText) (startSession 2 lessByAccessTime)
      (lookingUp 2) = some _ := rfl
  have isHash : sampleHash (sampleText 3) = some 3 := by decide +kernel
  exact ⟨_, ran, evicts_leastRecorded sampleHash sampleText 2 weakOrder_lessByAccessTime
    (lookingUp_admitted 2) ran ⟨3, sampleText 3⟩ (fun _ => 4) isHash (by decide +kernel)
    (by decide +kernel) (by decide +kernel)⟩

/-- The earlier block is looked up, and it is displaced all the same. -/
theorem lookedUp_is_evicted :
    ¬∀ (newHashFromStr : String → Option Hash) (string : Hash → String) (capacity : UInt32)
      (lessFn : CachedBlock → CachedBlock → Bool), WeakOrder lessFn →
      ∀ (calls : List CacheCall) (session : Session),
        Admitted (cacheStep newHashFromStr string)
          (fun session call => FromCache session call ∧ HeightsInRange session call)
          (startSession capacity lessFn) (calls ++ [.reheap]) →
        exec (cacheStep newHashFromStr string) (startSession capacity lessFn)
          (calls ++ [.reheap]) = some session →
        ∀ (summary : BlockDataBasic) (clock : Clock) (hash : Hash),
          newHashFromStr summary.hash = some hash → hash ∉ session.apic.blockCache →
          session.apic.blockCache.keys.length = capacity.toNat →
          ∀ after, session.apic.storeBlockSummary newHashFromStr summary clock =
              .returned after →
            EvictsLeast session.apic after hash ⟨summary, 1, clock 0, -1⟩ := by
  intro claimed
  have ran : exec (cacheStep sampleHash sampleText) (startSession 2 lessByAccessTime)
      (lookingUp 1) = some _ := rfl
  have evicts := claimed sampleHash sampleText 2 lessByAccessTime weakOrder_lessByAccessTime _ _
    (lookingUp_admitted 1) ran ⟨3, sampleText 3⟩ (fun _ => 4) 3 (by decide +kernel)
    (by decide +kernel) (by decide +kernel) _ rfl
  rcases evicts with ⟨evicted, ref, least, -, stored⟩ | ⟨kept, -⟩
  · -- the first block is gone, so it is the one that was displaced
    have isFirst : evicted = 1 := by
      by_contra different
      have stays := (stored 1).mpr (Or.inr ⟨by decide +kernel, Ne.symm different⟩)
      exact absurd stays (by decide +kernel)
    subst isFirst
    -- the second one was accessed before it
    have below := least.2 2 2 (by decide +kernel)
    have isRef : ref = 0 := Option.some.inj (least.1.symm.trans (by decide +kernel))
    subst isRef
    exact absurd below (by decide +kernel)
  · have keys := congrArg AList.keys kept
    exact absurd keys (by decide +kernel)

/-! ## Accesses that the comparator does not see -/

/-- The comparator does not tell one block from the other. -/
def Alike (lessFn : CachedBlock → CachedBlock → Bool) (b c : CachedBlock) : Prop :=
  ∀ d, lessFn b d = lessFn c d ∧ lessFn d b = lessFn d c

/-- Where the comparator cannot tell a block from a second one, and this one from a third, it
cannot tell the first from the third. -/
theorem Alike.trans {lessFn : CachedBlock → CachedBlock → Bool} {b c d : CachedBlock}
    (first : Alike lessFn b c) (second : Alike lessFn c d) : Alike lessFn b d :=
  fun other => ⟨(first other).1.trans (second other).1, (first other).2.trans (second other).2⟩

/-- Blocks that the comparator cannot tell apart are so in either order. -/
theorem Alike.symm {lessFn : CachedBlock → CachedBlock → Bool} {b c : CachedBlock}
    (alike : Alike lessFn b c) : Alike lessFn c b :=
  fun other => ⟨(alike other).1.symm, (alike other).2.symm⟩

/-- An order that ignores the place in the slice does not tell a block from itself at another
place. -/
theorem WeakOrder.alike {lessFn : CachedBlock → CachedBlock → Bool} (order : WeakOrder lessFn)
    {b c : CachedBlock} (same : b.unplaced = c.unplaced) : Alike lessFn b c := by
  intro d
  constructor
  · rw [← order.placeFree b, same, order.placeFree]
  · rw [← order.placeFree d, same, order.placeFree]

/-- The comparator sees neither the access that a lookup records nor the difference of
the readings of the clock during one storing. -/
def Unseen (newHashFromStr : String → Option Hash) (lessFn : CachedBlock → CachedBlock → Bool)
    (session : Session) (call : CacheCall) : Prop :=
  (∀ hash clock ref, call.asks newHashFromStr session.apic = some (hash, clock) →
      session.apic.blockCache.lookup hash = some ref →
      Alike lessFn ((session.apic.cell ref).access (clock 0)) (session.apic.cell ref)) ∧
    ∀ summary clock, call = .storeBlockSummary summary clock →
      Alike lessFn ⟨summary, 1, clock 0, 0⟩ ⟨summary, 1, clock 1, 0⟩ ∧
        Alike lessFn ⟨summary, 1, clock 0, 0⟩ ⟨summary, 1, clock 2, 0⟩

/-- The comparator does not tell the record of the map from the one of the queue. -/
def TwinsAlike (newHashFromStr : String → Option Hash) (lessFn : CachedBlock → CachedBlock → Bool)
    (queue : BlockPriorityQueue) (blockCache : AList fun _ : Hash => Ref) : Prop :=
  ∀ hash c q, blockCache.lookup hash = some c → q ∈ queue.bh →
    HasHash newHashFromStr queue q hash → Alike lessFn (queue.cell c) (queue.cell q)

namespace TwinsAlike
variable {capacity : UInt32} {lessFn : CachedBlock → CachedBlock → Bool}
  {queue after : BlockPriorityQueue} {blockCache : AList fun _ : Hash => Ref} {obtained : List Ref}

/-- `Reheap` keeps twins alike, since it changes no more than places. -/
theorem reheap (alike : TwinsAlike newHashFromStr lessFn queue blockCache)
    (order : WeakOrder lessFn) : TwinsAlike newHashFromStr lessFn queue.reheap blockCache := by
  intro hash c q cached queued hasHash
  have moved := (reheap_rearranged queue).1
  rw [HasHash, summary_of_unplaced (moved.cells q)] at hasHash
  have before := alike hash c q cached (moved.bh.mem_iff.mp queued) hasHash
  exact (order.alike (moved.cells c)).trans (before.trans (order.alike (moved.cells q)).symm)

/-- A lookup keeps twins alike where the comparator cannot see the access of the block that was
found. -/
theorem lookedUp (alike : TwinsAlike newHashFromStr lessFn queue blockCache)
    (agreement : Agreement newHashFromStr capacity queue blockCache obtained) {asked : Hash}
    {ref : Ref} {clock : Clock} (found : blockCache.lookup asked = some ref)
    (unseen : Alike lessFn ((queue.cell ref).access (clock 0)) (queue.cell ref)) :
    TwinsAlike newHashFromStr lessFn (queue.lookedUp ref clock) blockCache := by
  intro hash c q cached queued hasHash
  have notFound : q ≠ ref := by
    rintro rfl
    exact agreement.not_queued (agreement.cached asked q found) queued
  rw [HasHash, lookedUp_other _ notFound] at hasHash
  have before := alike hash c q cached queued hasHash
  rw [lookedUp_other _ notFound]
  by_cases isFound : c = ref
  · rw [isFound, lookedUp_same]
    rw [isFound] at before
    exact unseen.trans before
  · rw [lookedUp_other _ isFound]
    exact before

/-- A record for a new block is no twin yet. -/
theorem withRecord (alike : TwinsAlike newHashFromStr lessFn queue blockCache)
    (agreement : Agreement newHashFromStr capacity queue blockCache obtained)
    (summary : BlockDataBasic) (now : Int64) :
    TwinsAlike newHashFromStr lessFn (queue.withRecord summary now) blockCache := by
  intro hash c q cached queued hasHash
  have oldC := (agreement.cached hash c cached).inMemory
  have oldQ := agreement.inMemory q queued
  rw [HasHash, withRecord_old summary now oldQ] at hasHash
  rw [withRecord_old summary now oldC, withRecord_old summary now oldQ]
  exact alike hash c q cached queued hasHash

/-- The record of an accepted block is like the block. -/
theorem accept (alike : TwinsAlike newHashFromStr lessFn queue blockCache)
    (order : WeakOrder lessFn)
    (agreement : Agreement newHashFromStr capacity queue blockCache obtained)
    {target record : Ref} {b : CachedBlock} {new : Hash} {kept : AList fun _ : Hash => Ref}
    (accepted : Agreement.Accepted newHashFromStr capacity queue after blockCache kept target b)
    (isHash : newHashFromStr b.summary.hash = some new) (isNew : new ∉ blockCache)
    (isRecord : MapRecord newHashFromStr queue record new)
    (recorded : Alike lessFn (queue.cell record) b) :
    TwinsAlike newHashFromStr lessFn after (kept.insert new record) := by
  intro hash c q cached queued hasHash
  by_cases isTarget : q = target
  · rw [isTarget, HasHash, summary_of_unplaced accepted.received.block, isHash] at hasHash
    have same : new = hash := Option.some.inj hasHash
    rw [← same, AList.lookup_insert] at cached
    obtain rfl := Option.some.inj cached
    rw [(agreement.cell_accepted accepted isRecord).2, isTarget]
    exact recorded.trans (order.alike accepted.received.block.symm)
  · -- a block that stays
    rw [accepted.hasHash isTarget] at hasHash
    have stays : q ∈ queue.bh := by
      rcases (accepted.members q).mp queued with same | ⟨member, -⟩
      · exact absurd same isTarget
      · exact member
    have different : hash ≠ new := by
      rintro rfl
      exact isNew ((agreement.mem_iff hash).mpr ⟨q, stays, hasHash⟩)
    rw [AList.lookup_insert_ne different] at cached
    have wasCached := accepted.keptLookup hash c cached
    rw [(agreement.cell_accepted accepted (agreement.cached hash c wasCached)).2]
    exact (alike hash c q wasCached stays hasHash).trans
      (order.alike (accepted.received.others q isTarget).symm)

end TwinsAlike

section Unseen
variable {capacity : UInt32} {lessFn : CachedBlock → CachedBlock → Bool} {session next : Session}
  {call : CacheCall}

/-- Calls whose accesses are not seen keep the records alike. -/
theorem TwinsAlike.step
    (alike : TwinsAlike newHashFromStr lessFn session.apic.expireQueue session.apic.blockCache)
    (coherent : session.Coherent newHashFromStr capacity) (order : WeakOrder lessFn)
    (unseen : Unseen newHashFromStr lessFn session call)
    (effect : Effect newHashFromStr call session next) :
    TwinsAlike newHashFromStr lessFn next.apic.expireQueue next.apic.blockCache := by
  cases effect with
  | kept queue map =>
    rw [queue, map]
    exact alike
  | removed ref isObtained queue map =>
    obtain ⟨removed, isRecord⟩ := Agreement.obtained coherent ref isObtained
    rw [queue, map, Agreement.removeBlock isRecord]
    exact alike
  | reheaped queue map =>
    rw [queue, map]
    exact alike.reheap order
  | lookedUp asked ref clock asks found queue map =>
    rw [queue, map]
    exact alike.lookedUp coherent found (unseen.1 asked clock ref asks found)
  | inserted summary clock new isStore isHash isNew queue map =>
    rw [queue, map, APICache.insertBlock_expireQueue, APICache.insertBlock_blockCache]
    have agreement := Agreement.withRecord coherent summary (clock 0)
    have before := alike.withRecord coherent summary (clock 0)
    have isRecord : MapRecord newHashFromStr _ _ new :=
      Agreement.newRecord session.apic.expireQueue isHash (clock 0)
    obtain ⟨pushed, replaced⟩ := unseen.2 summary clock isStore
    rcases agreement.insert_cases summary clock.later new session.apic.expireQueue.allocated with
      ⟨sameQueue, sameMap⟩ | ⟨kept, target, b, isBlock, accepted, stored⟩
    · rw [sameQueue, sameMap]
      exact before
    · have written := withRecord_new session.apic.expireQueue summary (clock 0)
      have placeless : Alike lessFn ⟨summary, 1, clock 0, -1⟩ ⟨summary, 1, clock 0, 0⟩ :=
        order.alike rfl
      rw [stored]
      rcases isBlock with rfl | rfl
      · refine before.accept order agreement accepted isHash isNew isRecord ?_
        rw [written]
        exact placeless.trans pushed
      · refine before.accept order agreement accepted isHash isNew isRecord ?_
        rw [written]
        exact placeless.trans replaced

/-- After a run of calls whose accesses are not seen, the comparator orders both kinds
of records alike, so the cache evicts what is least by the recorded accesses. -/
theorem orderedAlike_of_unseen {calls : List CacheCall} (order : WeakOrder lessFn)
    (admitted : Admitted (cacheStep newHashFromStr string)
      (fun session call => (FromCache session call ∧ HeightsInRange session call) ∧
        Unseen newHashFromStr lessFn session call) (startSession capacity lessFn) calls)
    (ran : exec (cacheStep newHashFromStr string) (startSession capacity lessFn) calls =
      some session) (summary : BlockDataBasic) (clock : Clock)
    (unseen : Unseen newHashFromStr lessFn session (.storeBlockSummary summary clock)) :
    OrderedAlike newHashFromStr session.apic summary clock := by
  have both := exec_invariant (fun session => Managed newHashFromStr capacity lessFn session ∧
      TwinsAlike newHashFromStr lessFn session.apic.expireQueue session.apic.blockCache)
    (fun _ _ _ known allowed taken => ⟨known.1.step allowed.1.1 allowed.1.2 taken,
      known.2.step known.1.coherent order allowed.2 (cacheStep_effect allowed.1.1 taken)⟩)
    ⟨Managed.start capacity lessFn, fun _ _ _ _ queued => absurd queued List.not_mem_nil⟩
    admitted ran
  obtain ⟨managed, alike⟩ := both
  constructor
  · rintro c q c' q' ⟨hash, cached, queued, hasHash⟩ ⟨hash', cached', queued', hasHash'⟩
    have first := alike hash c q cached queued hasHash
    have second := alike hash' c' q' cached' queued' hasHash'
    rw [managed.lessFn]
    exact (first _).1.symm.trans (second _).2.symm
  · rintro c q ⟨hash, cached, queued, hasHash⟩
    have first := alike hash c q cached queued hasHash
    have placeless : Alike lessFn ⟨summary, 1, clock 0, -1⟩ ⟨summary, 1, clock 0, 0⟩ :=
      order.alike rfl
    have second := placeless.trans (unseen.2 summary clock rfl).1
    rw [managed.lessFn]
    exact (first _).1.symm.trans (second _).2.symm

end Unseen

end Hcexplorer.Hcdataapi

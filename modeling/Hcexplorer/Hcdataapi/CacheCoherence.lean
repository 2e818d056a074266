import Mathlib.Data.List.Perm.Subperm
import Hcexplorer.Hcdataapi.ApiCache

/-!
# The map and the queue of the API cache

Map and queue describe the same set of blocks in every state that the callers can
reach, and there are never more of them than the capacity. The map points to records
of its own, which are never queued, so their heap index stays −1.

`RemoveCachedBlock` gets such a record. The queue takes its index for no position, and
the entry of the map is deleted only when the hash is not valid, so nothing is
removed: the block is gone after the call exactly when it was gone before.
-/

namespace Hcexplorer.Hcdataapi

open Runs BlockPriorityQueue

variable {newHashFromStr : String → Option Hash} {string : Hash → String}

/-- A block without its place still has its summary. -/
theorem summary_of_unplaced {first second : CachedBlock}
    (same : first.unplaced = second.unplaced) : first.summary = second.summary := by
  have summaries := congrArg CachedBlock.summary same
  exact summaries

/-- The text of the block at an address is that of the hash. -/
def HasHash (newHashFromStr : String → Option Hash) (queue : BlockPriorityQueue) (ref : Ref)
    (hash : Hash) : Prop :=
  newHashFromStr (queue.cell ref).summary.hash = some hash

/-- The hash is that of a block in the queue, whatever pointers the map has. -/
def Queued (newHashFromStr : String → Option Hash) (queue : BlockPriorityQueue) (hash : Hash) :
    Prop :=
  ∃ ref ∈ queue.bh, HasHash newHashFromStr queue ref hash

/-- A record that the map allocated: it has no heap index, and its hash is valid. -/
structure MapRecord (newHashFromStr : String → Option Hash) (queue : BlockPriorityQueue)
    (ref : Ref) (hash : Hash) : Prop where
  inMemory : ref < queue.allocated
  heapIdx : (queue.cell ref).heapIdx = -1
  hasHash : HasHash newHashFromStr queue ref hash

/-- Map and queue describe the same blocks, each once. -/
structure Agreement (newHashFromStr : String → Option Hash) (capacity : UInt32)
    (queue : BlockPriorityQueue) (blockCache : AList fun _ : Hash => Ref) (obtained : List Ref) :
    Prop where
  placed : queue.Placed
  inMemory : queue.InMemory
  capacityOf : queue.capacity = capacity
  bounded : queue.bh.length ≤ capacity.toNat
  cached : ∀ hash ref, blockCache.lookup hash = some ref →
    MapRecord newHashFromStr queue ref hash
  obtained : ∀ ref ∈ obtained, ∃ hash, MapRecord newHashFromStr queue ref hash
  queued : ∀ ref ∈ queue.bh, ∃ hash ∈ blockCache, HasHash newHashFromStr queue ref hash
  found : ∀ hash ∈ blockCache, Queued newHashFromStr queue hash
  distinct : ∀ ref ∈ queue.bh, ∀ other ∈ queue.bh, ∀ hash,
    HasHash newHashFromStr queue ref hash → HasHash newHashFromStr queue other hash → ref = other

namespace Agreement
variable {capacity : UInt32} {queue after : BlockPriorityQueue}
  {blockCache : AList fun _ : Hash => Ref} {obtained : List Ref}

/-- The set of hashes is the same in both. -/
theorem mem_iff (coherent : Agreement newHashFromStr capacity queue blockCache obtained)
    (hash : Hash) : hash ∈ blockCache ↔ Queued newHashFromStr queue hash := by
  constructor
  · exact coherent.found hash
  · rintro ⟨ref, member, hasHash⟩
    obtain ⟨other, cached, hasOther⟩ := coherent.queued ref member
    have same : other = hash := Option.some.inj (hasOther.symm.trans hasHash)
    exact same ▸ cached

/-- The map has no more entries than the queue has blocks. -/
theorem keys_le (coherent : Agreement newHashFromStr capacity queue blockCache obtained) :
    blockCache.keys.length ≤ queue.bh.length := by
  have texts : (blockCache.keys.map some).Subperm
      (queue.bh.map fun ref => newHashFromStr (queue.cell ref).summary.hash) := by
    refine List.subperm_of_subset (blockCache.keys_nodup.map (Option.some_injective _)) ?_
    intro text member
    obtain ⟨hash, isKey, rfl⟩ := List.mem_map.mp member
    obtain ⟨ref, queued, hasHash⟩ := coherent.found hash (AList.mem_keys.mpr isKey)
    exact List.mem_map.mpr ⟨ref, queued, hasHash⟩
  simpa using texts.length_le

/-- The queue has no more blocks than the map has entries. -/
theorem length_le (coherent : Agreement newHashFromStr capacity queue blockCache obtained) :
    queue.bh.length ≤ blockCache.keys.length := by
  have distinct : (queue.bh.map fun ref => newHashFromStr (queue.cell ref).summary.hash).Nodup := by
    refine coherent.placed.nodup.map_on ?_
    intro ref member other otherMember same
    obtain ⟨hash, -, hasHash⟩ := coherent.queued ref member
    exact coherent.distinct ref member other otherMember hash hasHash (same.symm.trans hasHash)
  have texts : (queue.bh.map fun ref => newHashFromStr (queue.cell ref).summary.hash).Subperm
      (blockCache.keys.map some) := by
    refine List.subperm_of_subset distinct ?_
    intro text member
    obtain ⟨ref, queued, rfl⟩ := List.mem_map.mp member
    obtain ⟨hash, cached, hasHash⟩ := coherent.queued ref queued
    exact List.mem_map.mpr ⟨hash, AList.mem_keys.mp cached, hasHash.symm⟩
  simpa using texts.length_le

/-- No queued block is a record of the map. -/
theorem not_queued (coherent : Agreement newHashFromStr capacity queue blockCache obtained)
    {ref : Ref} {hash : Hash} (isRecord : MapRecord newHashFromStr queue ref hash) :
    ref ∉ queue.bh := by
  intro member
  obtain ⟨i, inside, rfl⟩ := exists_ref member
  have index := coherent.placed i inside
  have none := isRecord.heapIdx
  rw [block] at index
  omega

/-- Writes that keep every text and every place, and new addresses, change nothing. -/
theorem congr (coherent : Agreement newHashFromStr capacity queue blockCache obtained)
    (bh : after.bh = queue.bh) (sameCapacity : after.capacity = queue.capacity)
    (allocated : queue.allocated ≤ after.allocated)
    (cells : ∀ ref < queue.allocated, (after.cell ref).summary = (queue.cell ref).summary ∧
      (after.cell ref).heapIdx = (queue.cell ref).heapIdx) :
    Agreement newHashFromStr capacity after blockCache obtained := by
  have hasHash : ∀ ref < queue.allocated, ∀ hash,
      HasHash newHashFromStr after ref hash ↔ HasHash newHashFromStr queue ref hash := by
    intro ref old hash
    rw [HasHash, HasHash, (cells ref old).1]
  have records : ∀ ref hash, MapRecord newHashFromStr queue ref hash →
      MapRecord newHashFromStr after ref hash := by
    intro ref hash isRecord
    exact ⟨Nat.lt_of_lt_of_le isRecord.inMemory allocated,
      (cells ref isRecord.inMemory).2.trans isRecord.heapIdx,
      (hasHash ref isRecord.inMemory hash).mpr isRecord.hasHash⟩
  refine ⟨?_, ?_, sameCapacity.trans coherent.capacityOf, ?_, ?_, ?_, ?_, ?_, ?_⟩
  · intro i inside
    rw [bh] at inside
    have old := coherent.inMemory _ (ref_mem inside)
    have same : after.ref i = queue.ref i := by rw [ref, ref, bh]
    rw [block, same, (cells _ old).2]
    exact coherent.placed i inside
  · intro ref member
    exact Nat.lt_of_lt_of_le (coherent.inMemory ref (bh ▸ member)) allocated
  · rw [bh]
    exact coherent.bounded
  · exact fun hash ref cached => records ref hash (coherent.cached hash ref cached)
  · intro ref member
    obtain ⟨hash, isRecord⟩ := coherent.obtained ref member
    exact ⟨hash, records ref hash isRecord⟩
  · intro ref member
    rw [bh] at member
    obtain ⟨hash, cached, texted⟩ := coherent.queued ref member
    exact ⟨hash, cached, (hasHash ref (coherent.inMemory ref member) hash).mpr texted⟩
  · intro hash cached
    obtain ⟨ref, member, texted⟩ := coherent.found hash cached
    exact ⟨ref, bh ▸ member, (hasHash ref (coherent.inMemory ref member) hash).mpr texted⟩
  · intro ref member other otherMember hash first second
    rw [bh] at member otherMember
    exact coherent.distinct ref member other otherMember hash
      ((hasHash ref (coherent.inMemory ref member) hash).mp first)
      ((hasHash other (coherent.inMemory other otherMember) hash).mp second)

/-- Another arrangement of the slice keeps the agreement, since it moves blocks without changing
which are there. -/
theorem rearranged (coherent : Agreement newHashFromStr capacity queue blockCache obtained)
    (moved : Rearranged queue after) (placed : after.Placed) :
    Agreement newHashFromStr capacity after blockCache obtained := by
  have summaries : ∀ ref, (after.cell ref).summary = (queue.cell ref).summary :=
    fun ref => summary_of_unplaced (moved.cells ref)
  have hasHash : ∀ ref hash,
      HasHash newHashFromStr after ref hash ↔ HasHash newHashFromStr queue ref hash := by
    intro ref hash
    rw [HasHash, HasHash, summaries]
  have records : ∀ ref hash, MapRecord newHashFromStr queue ref hash →
      MapRecord newHashFromStr after ref hash := by
    intro ref hash isRecord
    have same := moved.outside ref (coherent.not_queued isRecord)
    exact ⟨moved.allocated ▸ isRecord.inMemory, same ▸ isRecord.heapIdx,
      (hasHash ref hash).mpr isRecord.hasHash⟩
  have members : ∀ ref, ref ∈ after.bh ↔ ref ∈ queue.bh := fun ref => moved.bh.mem_iff
  refine ⟨placed, ?_, moved.capacity.trans coherent.capacityOf, ?_, ?_, ?_, ?_, ?_, ?_⟩
  · intro ref member
    rw [moved.allocated]
    exact coherent.inMemory ref ((members ref).mp member)
  · rw [moved.bh.length_eq]
    exact coherent.bounded
  · exact fun hash ref cached => records ref hash (coherent.cached hash ref cached)
  · intro ref member
    obtain ⟨hash, isRecord⟩ := coherent.obtained ref member
    exact ⟨hash, records ref hash isRecord⟩
  · intro ref member
    obtain ⟨hash, cached, texted⟩ := coherent.queued ref ((members ref).mp member)
    exact ⟨hash, cached, (hasHash ref hash).mpr texted⟩
  · intro hash cached
    obtain ⟨ref, member, texted⟩ := coherent.found hash cached
    exact ⟨ref, (members ref).mpr member, (hasHash ref hash).mpr texted⟩
  · intro ref member other otherMember hash first second
    exact coherent.distinct ref ((members ref).mp member) other ((members other).mp otherMember)
      hash ((hasHash ref hash).mp first) ((hasHash other hash).mp second)

/-- `Reheap` keeps the agreement: it only arranges the slice anew. -/
theorem reheap (coherent : Agreement newHashFromStr capacity queue blockCache obtained) :
    Agreement newHashFromStr capacity queue.reheap blockCache obtained := by
  have lowered : Agreement newHashFromStr capacity { queue with needsReheap := false } blockCache
      obtained :=
    coherent.congr rfl rfl (Nat.le_refl _) fun _ _ => ⟨rfl, rfl⟩
  obtain ⟨moved, placed⟩ := reheap_rearranged queue
  exact lowered.rearranged moved (placed coherent.placed)

/-- A lookup keeps the agreement: it changes a block's access time and count, not its text or its
place. -/
theorem lookedUp (coherent : Agreement newHashFromStr capacity queue blockCache obtained)
    (ref : Ref) (clock : Clock) :
    Agreement newHashFromStr capacity (queue.lookedUp ref clock) blockCache obtained := by
  refine coherent.congr rfl rfl (Nat.le_refl _) fun other _ => ?_
  by_cases same : other = ref
  · rw [same, lookedUp_same]
    exact ⟨rfl, rfl⟩
  · rw [lookedUp_other queue same]
    exact ⟨rfl, rfl⟩

/-- The queue takes a new block: one pointer receives it, the one of a displaced block or
a new one, and the map keeps the entries of the blocks at the other pointers. -/
structure Accepted (newHashFromStr : String → Option Hash) (capacity : UInt32)
    (queue after : BlockPriorityQueue) (blockCache kept : AList fun _ : Hash => Ref)
    (target : Ref) (b : CachedBlock) : Prop where
  received : Received queue after target b
  isTarget : target ∈ queue.bh ∨ queue.allocated ≤ target
  placed : after.Placed
  allocated : queue.allocated ≤ after.allocated
  inMemory : target < after.allocated
  bounded : after.bh.length ≤ capacity.toNat
  members : ∀ ref, ref ∈ after.bh ↔ ref = target ∨ (ref ∈ queue.bh ∧ ref ≠ target)
  keptMem : ∀ other, other ∈ kept ↔
    ∃ ref ∈ queue.bh, ref ≠ target ∧ HasHash newHashFromStr queue ref other
  keptLookup : ∀ other ref, kept.lookup other = some ref → blockCache.lookup other = some ref

/-- The other blocks keep their texts when the queue accepts a block. -/
theorem Accepted.hasHash {kept : AList fun _ : Hash => Ref} {target : Ref} {b : CachedBlock}
    (accepted : Accepted newHashFromStr capacity queue after blockCache kept target b) {ref : Ref}
    (different : ref ≠ target) (other : Hash) :
    HasHash newHashFromStr after ref other ↔ HasHash newHashFromStr queue ref other := by
  rw [HasHash, HasHash, summary_of_unplaced (accepted.received.others ref different)]

/-- The records of the map are as they were. -/
theorem cell_accepted (coherent : Agreement newHashFromStr capacity queue blockCache obtained)
    {kept : AList fun _ : Hash => Ref} {target : Ref} {b : CachedBlock}
    (accepted : Accepted newHashFromStr capacity queue after blockCache kept target b)
    {ref : Ref} {hash : Hash} (isRecord : MapRecord newHashFromStr queue ref hash) :
    ref ≠ target ∧ after.cell ref = queue.cell ref := by
  have notQueued := coherent.not_queued isRecord
  have different : ref ≠ target := by
    rintro rfl
    rcases accepted.isTarget with member | fresh
    · exact notQueued member
    · exact Nat.not_le_of_lt isRecord.inMemory fresh
  exact ⟨different, accepted.received.outside ref different notQueued⟩

/-- The map gets an entry for the new block, with a record of its own. -/
theorem accept (coherent : Agreement newHashFromStr capacity queue blockCache obtained)
    {target record : Ref} {b : CachedBlock} {hash : Hash} {kept : AList fun _ : Hash => Ref}
    (accepted : Accepted newHashFromStr capacity queue after blockCache kept target b)
    (isHash : newHashFromStr b.summary.hash = some hash) (isNew : hash ∉ blockCache)
    (isRecord : MapRecord newHashFromStr queue record hash) :
    Agreement newHashFromStr capacity after (kept.insert hash record) obtained := by
  have members := accepted.members
  have keptMem := accepted.keptMem
  have hasHash : ∀ ref ≠ target, ∀ other,
      HasHash newHashFromStr after ref other ↔ HasHash newHashFromStr queue ref other :=
    fun _ different other => accepted.hasHash different other
  have atTarget : HasHash newHashFromStr after target hash := by
    rw [HasHash, summary_of_unplaced accepted.received.block]
    exact isHash
  have records : ∀ ref other, MapRecord newHashFromStr queue ref other →
      MapRecord newHashFromStr after ref other := by
    intro ref other isMapRecord
    obtain ⟨different, same⟩ := coherent.cell_accepted accepted isMapRecord
    exact ⟨Nat.lt_of_lt_of_le isMapRecord.inMemory accepted.allocated, same ▸ isMapRecord.heapIdx,
      (hasHash ref different other).mpr isMapRecord.hasHash⟩
  -- the new hash is that of no block that stays
  have others : ∀ ref ∈ queue.bh, ¬HasHash newHashFromStr queue ref hash := by
    intro ref member texted
    exact isNew ((coherent.mem_iff hash).mpr ⟨ref, member, texted⟩)
  refine ⟨accepted.placed, ?_, accepted.received.capacity.trans coherent.capacityOf,
    accepted.bounded, ?_, ?_, ?_, ?_, ?_⟩
  · intro ref member
    rcases (members ref).mp member with rfl | ⟨queued, -⟩
    · exact accepted.inMemory
    · exact Nat.lt_of_lt_of_le (coherent.inMemory ref queued) accepted.allocated
  · intro other ref cached
    by_cases same : other = hash
    · subst same
      rw [AList.lookup_insert] at cached
      obtain rfl := Option.some.inj cached
      exact records _ _ isRecord
    · rw [AList.lookup_insert_ne same] at cached
      exact records _ _ (coherent.cached other ref (accepted.keptLookup other ref cached))
  · intro ref member
    obtain ⟨other, isMapRecord⟩ := coherent.obtained ref member
    exact ⟨other, records ref other isMapRecord⟩
  · intro ref member
    rcases (members ref).mp member with rfl | ⟨queued, different⟩
    · exact ⟨hash, AList.mem_insert _ |>.mpr (Or.inl rfl), atTarget⟩
    · obtain ⟨other, -, texted⟩ := coherent.queued ref queued
      have stays : other ∈ kept := (keptMem other).mpr ⟨ref, queued, different, texted⟩
      exact ⟨other, AList.mem_insert _ |>.mpr (Or.inr stays),
        (hasHash ref different other).mpr texted⟩
  · intro other cached
    rcases AList.mem_insert _ |>.mp cached with rfl | stays
    · exact ⟨target, (members target).mpr (Or.inl rfl), atTarget⟩
    · obtain ⟨ref, queued, different, texted⟩ := (keptMem other).mp stays
      exact ⟨ref, (members ref).mpr (Or.inr ⟨queued, different⟩),
        (hasHash ref different other).mpr texted⟩
  · intro ref member other otherMember shared first second
    rcases (members ref).mp member with rfl | ⟨queued, different⟩
    · rcases (members other).mp otherMember with rfl | ⟨otherQueued, otherDifferent⟩
      · rfl
      · have same : hash = shared := Option.some.inj (atTarget.symm.trans first)
        exact absurd ((hasHash other otherDifferent hash).mp (same ▸ second))
          (others other otherQueued)
    · rcases (members other).mp otherMember with rfl | ⟨otherQueued, otherDifferent⟩
      · have same : hash = shared := Option.some.inj (atTarget.symm.trans second)
        exact absurd ((hasHash ref different hash).mp (same ▸ first)) (others ref queued)
      · exact coherent.distinct ref queued other otherQueued shared
          ((hasHash ref different shared).mp first)
          ((hasHash other otherDifferent shared).mp second)

/-- A queue with room accepts a new block, which gets a place of its own in memory; nothing
leaves the map. -/
theorem pushed_accepted (coherent : Agreement newHashFromStr capacity queue blockCache obtained)
    (summary : BlockDataBasic) (clock : Clock) (isFull : queue.full = false) :
    Accepted newHashFromStr capacity queue (queue.insert newHashFromStr summary clock).2 blockCache
      blockCache queue.allocated ⟨summary, 1, clock 0, 0⟩ := by
  obtain ⟨received, bh, allocated, placed⟩ :
      Received queue (queue.insert newHashFromStr summary clock).2 _ _ ∧ _ :=
    insert_pushed_received coherent.inMemory coherent.placed isFull
  have grown : queue.allocated < (queue.insert newHashFromStr summary clock).2.allocated := by
    rw [allocated]
    exact Nat.lt_succ_self _
  refine ⟨received, Or.inr (Nat.le_refl _), placed, Nat.le_of_lt grown, grown, ?_, ?_, ?_,
    fun _ _ => id⟩
  · have room : ¬queue.capacity.toNat ≤ queue.bh.length := of_decide_eq_false isFull
    rw [bh.length_eq, List.length_append, List.length_singleton, ← coherent.capacityOf]
    omega
  · intro ref
    rw [bh.mem_iff, List.mem_append, List.mem_singleton, or_comm]
    refine or_congr_right ⟨fun member => ⟨member, ?_⟩, And.left⟩
    exact Nat.ne_of_lt (coherent.inMemory ref member)
  · intro other
    rw [coherent.mem_iff]
    refine exists_congr fun ref => and_congr_right fun member => ?_
    exact (and_iff_right (Nat.ne_of_lt (coherent.inMemory ref member))).symm

/-- A full queue that puts a new block in the place of its first one accepts it; the hash of
the block that was there leaves the map. -/
theorem replaced_accepted (coherent : Agreement newHashFromStr capacity queue blockCache obtained)
    (summary : BlockDataBasic) (clock : Clock) (none_ : queue.capacity ≠ 0)
    (isFull : queue.full = true)
    (below : queue.lessFn (queue.block 0) ⟨summary, 1, clock 0, 0⟩ = true) {removed : Hash}
    (removedText : HasHash newHashFromStr queue (queue.ref 0) removed) :
    Accepted newHashFromStr capacity queue (queue.insert newHashFromStr summary clock).2 blockCache
      (blockCache.erase removed) (queue.ref 0) ⟨summary, 1, clock 1, 0⟩ := by
  have first : queue.ref 0 ∈ queue.bh := ref_mem (full_nonempty none_ isFull)
  obtain ⟨received, bh, allocated, placed⟩ :
      Received queue (queue.insert newHashFromStr summary clock).2 _ _ ∧ _ :=
    insert_replaced_received coherent.placed none_ isFull below
  refine ⟨received, Or.inl first, placed, Nat.le_of_eq allocated.symm, ?_, ?_, ?_, ?_, ?_⟩
  · rw [allocated]
    exact coherent.inMemory _ first
  · rw [bh.length_eq]
    exact coherent.bounded
  · intro ref
    rw [bh.mem_iff]
    constructor
    · intro member
      by_cases isFirst : ref = queue.ref 0
      · exact Or.inl isFirst
      · exact Or.inr ⟨member, isFirst⟩
    · rintro (rfl | ⟨member, -⟩)
      · exact first
      · exact member
  · intro other
    rw [AList.mem_erase, coherent.mem_iff]
    constructor
    · rintro ⟨different, ref, member, texted⟩
      refine ⟨ref, member, ?_, texted⟩
      rintro rfl
      exact different (Option.some.inj (texted.symm.trans removedText))
    · rintro ⟨ref, member, different, texted⟩
      refine ⟨?_, ref, member, texted⟩
      rintro rfl
      exact different (coherent.distinct ref member _ first other texted removedText)
  · intro other ref kept
    by_cases isRemoved : other = removed
    · rw [isRemoved, AList.lookup_erase] at kept
      cases kept
    · rwa [AList.lookup_erase_ne isRemoved] at kept

/-- A new block that the queue is offered is refused, or it is accepted and entered in
the map. -/
theorem insert_cases (coherent : Agreement newHashFromStr capacity queue blockCache obtained)
    (summary : BlockDataBasic) (clock : Clock) (hash : Hash) (record : Ref) :
    ((queue.insert newHashFromStr summary clock).2 = queue ∧
        APICache.storedIn blockCache hash record (queue.insert newHashFromStr summary clock).1 =
          blockCache) ∨
      ∃ kept target b, (b = ⟨summary, 1, clock 0, 0⟩ ∨ b = ⟨summary, 1, clock 1, 0⟩) ∧
        Accepted newHashFromStr capacity queue (queue.insert newHashFromStr summary clock).2
          blockCache kept target b ∧
        APICache.storedIn blockCache hash record (queue.insert newHashFromStr summary clock).1 =
          kept.insert hash record := by
  by_cases none_ : queue.capacity = 0
  · rw [insert_none none_]
    exact Or.inl ⟨rfl, rfl⟩
  cases isFull : queue.full with
  | false =>
    have returned : (queue.insert newHashFromStr summary clock).1 = (true, none) :=
      (insert_pushed isFull).1
    have accepted := coherent.pushed_accepted summary clock isFull
    rw [returned]
    exact Or.inr ⟨blockCache, queue.allocated, _, Or.inl rfl, accepted, rfl⟩
  | true =>
    cases below : queue.lessFn (queue.block 0) ⟨summary, 1, clock 0, 0⟩ with
    | false =>
      rw [insert_refused isFull below]
      exact Or.inl ⟨rfl, rfl⟩
    | true =>
      have first : queue.ref 0 ∈ queue.bh := ref_mem (full_nonempty none_ isFull)
      obtain ⟨removed, -, removedText⟩ := coherent.queued _ first
      have returned : (queue.insert newHashFromStr summary clock).1 = (true, some removed) := by
        rw [(insert_replaced none_ isFull below).1]
        exact congrArg (Prod.mk true) removedText
      have accepted := coherent.replaced_accepted summary clock none_ isFull below removedText
      rw [returned]
      exact Or.inr ⟨blockCache.erase removed, queue.ref 0, _, Or.inr rfl, accepted, rfl⟩

/-- Map and queue agree after the offer, with the record of the map in memory. -/
theorem insert (coherent : Agreement newHashFromStr capacity queue blockCache obtained)
    {summary : BlockDataBasic} {clock : Clock} {record : Ref} {hash : Hash}
    (isHash : newHashFromStr summary.hash = some hash) (isNew : hash ∉ blockCache)
    (isRecord : MapRecord newHashFromStr queue record hash) :
    Agreement newHashFromStr capacity (queue.insert newHashFromStr summary clock).2
      (APICache.storedIn blockCache hash record (queue.insert newHashFromStr summary clock).1)
      obtained := by
  rcases coherent.insert_cases summary clock hash record with
    ⟨sameQueue, sameMap⟩ | ⟨kept, target, b, isBlock, accepted, stored⟩
  · rw [sameQueue, sameMap]
    exact coherent
  · have text : newHashFromStr b.summary.hash = some hash := by
      rcases isBlock with rfl | rfl
      · exact isHash
      · exact isHash
    rw [stored]
    exact coherent.accept accepted text isNew isRecord

/-- A record for a new block keeps the agreement: it is allocated, but neither the queue nor the
map has it yet. -/
theorem withRecord (coherent : Agreement newHashFromStr capacity queue blockCache obtained)
    (summary : BlockDataBasic) (now : Int64) :
    Agreement newHashFromStr capacity (queue.withRecord summary now) blockCache obtained :=
  coherent.congr rfl rfl (Nat.le_succ _) fun ref old => by
    rw [withRecord_old summary now old]
    exact ⟨rfl, rfl⟩

/-- The new record is one that the map may hold under its hash, with the text of the summary. -/
theorem newRecord (queue : BlockPriorityQueue) {summary : BlockDataBasic} {hash : Hash}
    (isHash : newHashFromStr summary.hash = some hash) (now : Int64) :
    MapRecord newHashFromStr (queue.withRecord summary now) queue.allocated hash := by
  have written := withRecord_new queue summary now
  refine ⟨Nat.lt_succ_self _, ?_, ?_⟩
  · rw [written]
  · rw [HasHash, written]
    exact isHash

/-- `StoreBlockSummary` of a block that is not cached keeps the agreement, whether the queue
takes the block or not. -/
theorem insertBlock {apic : APICache}
    (coherent : Agreement newHashFromStr capacity apic.expireQueue apic.blockCache obtained)
    {summary : BlockDataBasic} {clock : Clock} {hash : Hash}
    (isHash : newHashFromStr summary.hash = some hash) (isNew : hash ∉ apic.blockCache) :
    Agreement newHashFromStr capacity
      (apic.insertBlock newHashFromStr hash summary clock).expireQueue
      (apic.insertBlock newHashFromStr hash summary clock).blockCache obtained :=
  (coherent.withRecord summary (clock 0)).insert isHash isNew
    (newRecord apic.expireQueue isHash (clock 0))

/-- The queue removes no record of the map: it takes −1 for no position. -/
theorem removeBlock {ref : Ref} {hash : Hash}
    (isRecord : MapRecord newHashFromStr queue ref hash) : queue.removeBlock (some ref) = queue := by
  have index := isRecord.heapIdx
  simp [BlockPriorityQueue.removeBlock, index]

end Agreement

/-! ## Sessions -/

/-- The invariant of a session: its map, its queue and the blocks its callers hold agree. -/
def Session.Coherent (newHashFromStr : String → Option Hash) (capacity : UInt32)
    (session : Session) : Prop :=
  Agreement newHashFromStr capacity session.apic.expireQueue session.apic.blockCache
    session.obtained

/-- What a call of the session does to the cache and the blocks that were obtained. -/
inductive Effect (newHashFromStr : String → Option Hash) (call : CacheCall)
    (session next : Session) : Prop where
  | kept (queue : next.apic.expireQueue = session.apic.expireQueue)
      (map : next.apic.blockCache = session.apic.blockCache)
      (obtained : next.obtained = session.obtained)
  | inserted (summary : BlockDataBasic) (clock : Clock) (hash : Hash)
      (isStore : call = .storeBlockSummary summary clock)
      (isHash : newHashFromStr summary.hash = some hash) (isNew : hash ∉ session.apic.blockCache)
      (queue : next.apic.expireQueue =
        (session.apic.insertBlock newHashFromStr hash summary clock).expireQueue)
      (map : next.apic.blockCache =
        (session.apic.insertBlock newHashFromStr hash summary clock).blockCache)
      (obtained : next.obtained = session.obtained)
  | lookedUp (hash : Hash) (ref : Ref) (clock : Clock)
      (asked : call.asks newHashFromStr session.apic = some (hash, clock))
      (found : session.apic.blockCache.lookup hash = some ref)
      (queue : next.apic.expireQueue = session.apic.expireQueue.lookedUp ref clock)
      (map : next.apic.blockCache = session.apic.blockCache)
      (obtained : ∀ other ∈ next.obtained, other = ref ∨ other ∈ session.obtained)
  | removed (ref : Ref) (isObtained : ref ∈ session.obtained)
      (queue : next.apic.expireQueue = session.apic.expireQueue.removeBlock (some ref))
      (map : next.apic.blockCache = session.apic.blockCache)
      (obtained : next.obtained = session.obtained)
  | reheaped (queue : next.apic.expireQueue = session.apic.expireQueue.reheap)
      (map : next.apic.blockCache = session.apic.blockCache)
      (obtained : next.obtained = session.obtained)

/-- A lookup finds nothing and leaves the blocks alone, or it records an access of the
block of the hash it was asked for. -/
def LookupEffect (asked : Option (Hash × Clock)) (apic : APICache)
    (found : Option Ref × APICache) : Prop :=
  found.2.blockCache = apic.blockCache ∧
    ((found.1 = none ∧ found.2.expireQueue = apic.expireQueue) ∨
      ∃ hash ref clock, asked = some (hash, clock) ∧ apic.blockCache.lookup hash = some ref ∧
        found.1 = some ref ∧ found.2.expireQueue = apic.expireQueue.lookedUp ref clock)

section Lookups
variable {apic : APICache} {clock : Clock} {found : Option Ref × APICache}

/-- The lookup of a hash has the effect of one access of that hash. -/
theorem lookupCachedBlock_effect {hash : Hash}
    (returned : apic.lookupCachedBlock hash clock = .returned found) :
    LookupEffect (some (hash, clock)) apic found := by
  unfold APICache.lookupCachedBlock at returned
  split at returned
  · cases returned
  split at returned
  · rename_i ref isCached
    cases returned
    exact ⟨rfl, Or.inr ⟨hash, ref, clock, rfl, isCached, rfl, rfl⟩⟩
  · cases returned
    exact ⟨rfl, Or.inl ⟨rfl, rfl⟩⟩

/-- The lookup of a hash through its text has the effect of one access of that hash. -/
theorem getCachedBlockByHash_effect {hash : Hash}
    (returned : apic.getCachedBlockByHash newHashFromStr string hash clock = .returned found) :
    LookupEffect (some (hash, clock)) apic found := by
  unfold APICache.getCachedBlockByHash at returned
  split at returned
  · cases returned
    exact ⟨rfl, Or.inl ⟨rfl, rfl⟩⟩
  · exact lookupCachedBlock_effect returned

/-- The lookup of a text has the effect of one access of the hash that it is, and none if it is
no hash. -/
theorem getCachedBlockByHashStr_effect {hashStr : String}
    (returned : apic.getCachedBlockByHashStr newHashFromStr hashStr clock = .returned found) :
    LookupEffect ((newHashFromStr hashStr).map fun hash => (hash, clock)) apic found := by
  unfold APICache.getCachedBlockByHashStr at returned
  split at returned
  · cases returned
    exact ⟨rfl, Or.inl ⟨rfl, rfl⟩⟩
  · rename_i hash isHash
    rw [isHash]
    exact lookupCachedBlock_effect returned

/-- The lookup of a height has the effect of one access of the hash at that height, and none
where the height is unknown. -/
theorem getCachedBlockByHeight_effect {height : Int64}
    (returned : apic.getCachedBlockByHeight newHashFromStr string height clock = .returned found) :
    LookupEffect (if apic.HasHeight height then
      some (apic.mainchainBlocks.getD height.toInt.toNat 0, clock) else none) apic found := by
  unfold APICache.getCachedBlockByHeight at returned
  by_cases inside : apic.HasHeight height
  · rw [if_pos inside] at returned
    rw [if_pos inside]
    exact getCachedBlockByHash_effect returned
  · rw [if_neg inside] at returned
    cases returned
    exact ⟨rfl, Or.inl ⟨rfl, rfl⟩⟩

end Lookups

/-- What a lookup returned becomes part of the session, or not. -/
theorem Effect.of_lookup {call : CacheCall} {session next : Session}
    {found : Option Ref × APICache}
    (effect : LookupEffect (call.asks newHashFromStr session.apic) session.apic found)
    (apic : next.apic = found.2)
    (obtained : ∀ other ∈ next.obtained, found.1 = some other ∨ other ∈ session.obtained)
    (unfound : found.1 = none → next.obtained = session.obtained) :
    Effect newHashFromStr call session next := by
  obtain ⟨map, ⟨nothing, queue⟩ | ⟨hash, ref, clock, asked, isCached, returned, queue⟩⟩ := effect
  · exact .kept (apic ▸ queue) (apic ▸ map) (unfound nothing)
  · refine .lookedUp hash ref clock asked isCached (apic ▸ queue) (apic ▸ map) fun other member => ?_
    rcases obtained other member with same | before
    · exact Or.inl (Option.some.inj (same.symm.trans returned))
    · exact Or.inr before

/-- A lookup whose block the session keeps has the effect that its call names. -/
theorem Effect.of_obtain {call : CacheCall} {session : Session} {found : Option Ref × APICache}
    (effect : LookupEffect (call.asks newHashFromStr session.apic) session.apic found) :
    Effect newHashFromStr call session (session.obtain found) := by
  refine .of_lookup effect rfl (fun other member => ?_) fun nothing => ?_
  · rcases List.mem_append.mp member with returned | before
    · exact Or.inl (Option.mem_toList.mp returned)
    · exact Or.inr before
  · simp [Session.obtain, nothing]

/-- Each call has one of the effects: a block is accepted or refused, removed, looked up, or
nothing but the queue's order changes. -/
theorem cacheStep_effect {session next : Session} {call : CacheCall}
    (fromCache : FromCache session call)
    (taken : cacheStep newHashFromStr string session call = some next) :
    Effect newHashFromStr call session next := by
  cases call with
  | storeBlockSummary summary clock =>
    obtain ⟨apic, returned, rfl⟩ := Option.map_eq_some_iff.mp taken
    rw [Outcome.result?_eq_some] at returned
    unfold APICache.storeBlockSummary at returned
    split at returned
    · cases returned
    split at returned
    · cases returned
      exact .kept rfl rfl rfl
    split at returned
    · cases returned
    rename_i hash isHash
    simp only at returned
    split at returned
    · cases returned
      exact .kept rfl rfl rfl
    · rename_i isNew
      cases returned
      exact .inserted summary clock hash rfl isHash (AList.lookup_eq_none.mp isNew) rfl rfl rfl
  | getBlockSummary height clock =>
    obtain ⟨found, returned, rfl⟩ := Option.map_eq_some_iff.mp taken
    rw [Outcome.result?_eq_some] at returned
    obtain ⟨looked, isLooked, same⟩ := Outcome.bind_eq_returned.mp returned
    cases same
    refine .of_lookup (getCachedBlockByHeight_effect isLooked) rfl (fun other member => ?_)
      fun _ => rfl
    exact Or.inr member
  | getCachedBlockByHeight height clock =>
    obtain ⟨found, returned, rfl⟩ := Option.map_eq_some_iff.mp taken
    rw [Outcome.result?_eq_some] at returned
    exact .of_obtain (getCachedBlockByHeight_effect returned)
  | getCachedBlockByHash hash clock =>
    obtain ⟨found, returned, rfl⟩ := Option.map_eq_some_iff.mp taken
    rw [Outcome.result?_eq_some] at returned
    exact .of_obtain (getCachedBlockByHash_effect returned)
  | getCachedBlockByHashStr hashStr clock =>
    obtain ⟨found, returned, rfl⟩ := Option.map_eq_some_iff.mp taken
    rw [Outcome.result?_eq_some] at returned
    exact .of_obtain (getCachedBlockByHashStr_effect returned)
  | removeCachedBlock cachedBlock =>
    obtain ⟨apic, returned, rfl⟩ := Option.map_eq_some_iff.mp taken
    obtain ⟨ref, isObtained, rfl⟩ := fromCache
    rw [Outcome.result?_eq_some] at returned
    unfold APICache.removeCachedBlock at returned
    split at returned
    · cases returned
    simp only at returned
    split at returned
    · cases returned
    · cases returned
      exact .removed ref isObtained rfl rfl rfl
  | reheap =>
    obtain rfl := Option.some.inj taken
    exact .reheaped rfl rfl rfl

/-- The records of a map do not depend on what the session keeps of them. -/
theorem Agreement.obtain {capacity : UInt32} {queue : BlockPriorityQueue}
    {blockCache : AList fun _ : Hash => Ref} {obtained more : List Ref}
    (coherent : Agreement newHashFromStr capacity queue blockCache obtained)
    (records : ∀ ref ∈ more, ∃ hash, MapRecord newHashFromStr queue ref hash) :
    Agreement newHashFromStr capacity queue blockCache more :=
  ⟨coherent.placed, coherent.inMemory, coherent.capacityOf, coherent.bounded, coherent.cached,
    records, coherent.queued, coherent.found, coherent.distinct⟩

/-- Every effect of a call keeps map and queue in agreement. This is the step lemma of the
sessions. -/
theorem Session.Coherent.effect {capacity : UInt32} {call : CacheCall} {session next : Session}
    (coherent : session.Coherent newHashFromStr capacity)
    (effect : Effect newHashFromStr call session next) : next.Coherent newHashFromStr capacity := by
  unfold Session.Coherent
  cases effect with
  | kept queue map obtained =>
    rw [queue, map, obtained]
    exact coherent
  | inserted summary clock hash isStore isHash isNew queue map obtained =>
    rw [queue, map, obtained]
    exact Agreement.insertBlock coherent isHash isNew
  | lookedUp hash ref clock asked found queue map obtained =>
    rw [queue, map]
    have looked := Agreement.lookedUp coherent ref clock
    refine looked.obtain fun other member => ?_
    rcases obtained other member with rfl | before
    · exact ⟨hash, looked.cached hash other found⟩
    · exact looked.obtained other before
  | removed ref isObtained queue map obtained =>
    obtain ⟨hash, isRecord⟩ := Agreement.obtained coherent ref isObtained
    rw [queue, map, obtained, Agreement.removeBlock isRecord]
    exact coherent
  | reheaped queue map obtained =>
    rw [queue, map, obtained]
    exact Agreement.reheap coherent

/-- At the start, map and queue are empty and agree. -/
theorem Session.Coherent.start (capacity : UInt32) (lessFn : CachedBlock → CachedBlock → Bool) :
    (startSession capacity lessFn).Coherent newHashFromStr capacity where
  placed _ inside := absurd inside (Nat.not_lt_zero _)
  inMemory _ member := absurd member List.not_mem_nil
  capacityOf := rfl
  bounded := Nat.zero_le _
  cached hash _ found := by cases (AList.lookup_empty hash).symm.trans found
  obtained _ member := absurd member List.not_mem_nil
  queued _ member := absurd member List.not_mem_nil
  found hash cached := absurd cached (AList.notMem_empty hash)
  distinct _ member := absurd member List.not_mem_nil

/-- Every session of blocks that were obtained from the cache is coherent. -/
theorem session_coherent {capacity : UInt32} {lessFn : CachedBlock → CachedBlock → Bool}
    {calls : List CacheCall} {session : Session}
    (fromCache : Admitted (cacheStep newHashFromStr string) FromCache
      (startSession capacity lessFn) calls)
    (ran : exec (cacheStep newHashFromStr string) (startSession capacity lessFn) calls =
      some session) : session.Coherent newHashFromStr capacity :=
  exec_invariant (Session.Coherent newHashFromStr capacity)
    (fun _ _ _ coherent allowed taken => coherent.effect (cacheStep_effect allowed taken))
    (Session.Coherent.start capacity lessFn) fromCache ran

/-- `RemoveCachedBlock` of a block that was obtained from the cache removes nothing. -/
theorem removeCachedBlock_removes_nothing {capacity : UInt32} {session : Session}
    (coherent : session.Coherent newHashFromStr capacity) {ref : Ref}
    (isObtained : ref ∈ session.obtained) (unlocked : session.apic.readLocks = 0) :
    session.apic.removeCachedBlock newHashFromStr (some ref) = .returned session.apic := by
  obtain ⟨hash, isRecord⟩ := Agreement.obtained coherent ref isObtained
  have text : newHashFromStr (session.apic.expireQueue.cell ref).summary.hash = some hash :=
    isRecord.hasHash
  unfold APICache.removeCachedBlock
  rw [if_neg (not_not_intro unlocked)]
  simp only [Agreement.removeBlock isRecord, APICache.cell, text]

/-- In every state of every session, map and queue have the same hashes, no more than
the capacity, and after the removal of a block that was obtained from the cache its
hash is in neither exactly when it was not in the map before. -/
theorem removed_iff_evicted (newHashFromStr : String → Option Hash) (string : Hash → String)
    (capacity : UInt32) (lessFn : CachedBlock → CachedBlock → Bool) {calls : List CacheCall}
    {session : Session}
    (fromCache : Admitted (cacheStep newHashFromStr string) FromCache
      (startSession capacity lessFn) calls)
    (ran : exec (cacheStep newHashFromStr string) (startSession capacity lessFn) calls =
      some session) :
    (∀ hash, hash ∈ session.apic.blockCache ↔
        Queued newHashFromStr session.apic.expireQueue hash) ∧
      session.apic.blockCache.keys.length ≤ capacity.toNat ∧
      session.apic.expireQueue.bh.length ≤ capacity.toNat ∧
      ∀ ref ∈ session.obtained, session.apic.readLocks = 0 →
        ∃ hash, HasHash newHashFromStr session.apic.expireQueue ref hash ∧
          ∃ after, session.apic.removeCachedBlock newHashFromStr (some ref) = .returned after ∧
            ((hash ∉ after.blockCache ∧ ¬Queued newHashFromStr after.expireQueue hash) ↔
              hash ∉ session.apic.blockCache) := by
  have coherent := session_coherent fromCache ran
  refine ⟨Agreement.mem_iff coherent, ?_, Agreement.bounded coherent, ?_⟩
  · exact (Agreement.keys_le coherent).trans (Agreement.bounded coherent)
  · intro ref isObtained unlocked
    obtain ⟨hash, isRecord⟩ := Agreement.obtained coherent ref isObtained
    have same := Agreement.mem_iff coherent hash
    refine ⟨hash, isRecord.hasHash, session.apic,
      removeCachedBlock_removes_nothing coherent isObtained unlocked, ?_⟩
    rw [← same]
    exact and_self_iff

/-! ## Sessions of a few blocks -/

/-- The texts of three hashes, all 64 digits long, for the sessions that are run below. -/
def sampleText (hash : Hash) : String :=
  if hash = 1 then "0000000000000000000000000000000000000000000000000000000000000001"
  else if hash = 2 then "0000000000000000000000000000000000000000000000000000000000000002"
  else "0000000000000000000000000000000000000000000000000000000000000003"

/-- The hashes that these texts are read as, and none for any other text. -/
def sampleHash (text : String) : Option Hash :=
  if text = sampleText 1 then some 1 else if text = sampleText 2 then some 2
  else if text = sampleText 3 then some 3 else none

/-- A cache of one block stores a block, returns it, and stores another in its place. -/
def displacing : List CacheCall :=
  [.storeBlockSummary ⟨1, sampleText 1⟩ fun _ => 1, .getCachedBlockByHash 1 fun _ => 2,
    .storeBlockSummary ⟨2, sampleText 2⟩ fun _ => 3]

/-- The first block was displaced, so it is gone after its removal. -/
theorem removed_iff_evicted_displaced :
    ∃ session, exec (cacheStep sampleHash sampleText) (startSession 1 lessByAccessTime) displacing =
        some session ∧
      ((∀ hash, hash ∈ session.apic.blockCache ↔
          Queued sampleHash session.apic.expireQueue hash) ∧
        session.apic.blockCache.keys.length ≤ (1 : UInt32).toNat ∧
        session.apic.expireQueue.bh.length ≤ (1 : UInt32).toNat ∧
        ∀ ref ∈ session.obtained, session.apic.readLocks = 0 →
          ∃ hash, HasHash sampleHash session.apic.expireQueue ref hash ∧
            ∃ after, session.apic.removeCachedBlock sampleHash (some ref) = .returned after ∧
              ((hash ∉ after.blockCache ∧ ¬Queued sampleHash after.expireQueue hash) ↔
                hash ∉ session.apic.blockCache)) ∧
      session.obtained = [0] := by
  have fromCache : Admitted (cacheStep sampleHash sampleText) FromCache
      (startSession 1 lessByAccessTime) displacing :=
    ⟨trivial, fun _ _ => ⟨trivial, fun _ _ => ⟨trivial, fun _ _ => trivial⟩⟩⟩
  have ran : exec (cacheStep sampleHash sampleText) (startSession 1 lessByAccessTime) displacing =
      some _ := rfl
  exact ⟨_, ran, removed_iff_evicted sampleHash sampleText 1 lessByAccessTime fromCache ran,
    by decide +kernel⟩

/-- A block that is still cached stays in both, although it is removed. -/
theorem removeCachedBlock_leaves_cached :
    ¬∀ (newHashFromStr : String → Option Hash) (string : Hash → String) (capacity : UInt32)
      (lessFn : CachedBlock → CachedBlock → Bool) (calls : List CacheCall) (session : Session),
      Admitted (cacheStep newHashFromStr string) FromCache (startSession capacity lessFn) calls →
      exec (cacheStep newHashFromStr string) (startSession capacity lessFn) calls = some session →
      ∀ ref ∈ session.obtained, ∀ hash,
        HasHash newHashFromStr session.apic.expireQueue ref hash →
        ∀ after, session.apic.removeCachedBlock newHashFromStr (some ref) = .returned after →
          hash ∉ after.blockCache ∧ ¬Queued newHashFromStr after.expireQueue hash := by
  intro claimed
  have fromCache : Admitted (cacheStep sampleHash sampleText) FromCache
      (startSession 1 lessByAccessTime) (displacing.take 2) :=
    ⟨trivial, fun _ _ => ⟨trivial, fun _ _ => trivial⟩⟩
  have ran : exec (cacheStep sampleHash sampleText) (startSession 1 lessByAccessTime)
      (displacing.take 2) = some _ := rfl
  have gone := claimed sampleHash sampleText 1 lessByAccessTime _ _ fromCache ran 0
    (by decide +kernel) 1 rfl _ rfl
  exact gone.1 (by decide +kernel)

end Hcexplorer.Hcdataapi

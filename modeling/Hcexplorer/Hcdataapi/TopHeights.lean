import Hcexplorer.Library.Highest
import Hcexplorer.Hcdataapi.QueueOrder

/-!
# The queue that is ordered by heights

With `LessByHeight` from its beginning, a queue into which blocks are only inserted holds
the highest blocks of all that were inserted, as many as its capacity. A full queue
compares a new block with its first one, which is a lowest; the new one replaces it when it
is higher and is refused otherwise.
-/

namespace Hcexplorer.Hcdataapi

open Runs BlockPriorityQueue

/-- The summaries of the queued blocks, as often as they are queued and in no order. -/
def BlockPriorityQueue.summaries (pq : BlockPriorityQueue) : Multiset BlockDataBasic :=
  (pq.bh.map fun ref => (pq.cell ref).summary : List BlockDataBasic)

/-- The heights of the queued blocks, as often as they are queued. -/
def BlockPriorityQueue.heights (pq : BlockPriorityQueue) : Multiset Nat :=
  pq.summaries.map fun summary => summary.height.toNat

/-- An insertion of a block whose hash is valid, or a `Reheap`. -/
def InsertsValid (newHashFromStr : String → Option Hash) : QueueCall → Prop
  | .insert summary _ => (newHashFromStr summary.hash).isSome = true
  | .reheap => True
  | _ => False

/-- The height of the block that a call inserts, none for any other call. -/
def QueueCall.inserted : QueueCall → Option Nat
  | .insert summary _ => some summary.height.toNat
  | _ => none

/-- A lowest block of the queue has made room for a higher one. -/
def Displaced (before after : BlockPriorityQueue) (summary old : BlockDataBasic) : Prop :=
  old.height < summary.height ∧ ∃ rest, before.summaries = old ::ₘ rest ∧
    after.summaries = summary ::ₘ rest ∧ ∀ other ∈ rest, old.height ≤ other.height

namespace BlockPriorityQueue
variable {newHashFromStr : String → Option Hash} {summary : BlockDataBasic} {clock : Clock}
  {before after pq : BlockPriorityQueue}

/-- There are as many summaries as queued blocks. -/
theorem card_summaries (pq : BlockPriorityQueue) : pq.summaries.card = pq.bh.length := by
  simp [summaries]

/-- There are as many heights as queued blocks. -/
theorem card_heights (pq : BlockPriorityQueue) : pq.heights.card = pq.bh.length := by
  rw [heights, Multiset.card_map, card_summaries]

/-- A rearrangement of the slice queues the same summaries. -/
theorem Rearranged.summaries (moved : Rearranged before after) :
    after.summaries = before.summaries := by
  have cells : ∀ ref, (after.cell ref).summary = (before.cell ref).summary := by
    intro ref
    have same := congrArg CachedBlock.summary (moved.cells ref)
    exact same
  simp only [BlockPriorityQueue.summaries, cells]
  exact Multiset.coe_eq_coe.mpr (moved.bh.map _)

/-- The summaries of some pointers, none of which has received a block. -/
theorem Received.summaries {ref : Ref} {b : CachedBlock} (received : Received before after ref b)
    {refs : List Ref} (others : ref ∉ refs) :
    (refs.map fun other => (after.cell other).summary) =
      refs.map fun other => (before.cell other).summary := by
  refine List.map_congr_left fun other member => ?_
  have different : other ≠ ref := fun same => others (same ▸ member)
  have same := congrArg CachedBlock.summary (received.others other different)
  exact same

/-- A queue with room takes the new block and keeps all the others. -/
theorem insert_pushed_summaries (inMemory : pq.InMemory) (placed : pq.Placed)
    (room : pq.full = false) :
    (pq.insert newHashFromStr summary clock).2.summaries = summary ::ₘ pq.summaries := by
  obtain ⟨received, bh, -, -⟩ : Received pq (pq.insert newHashFromStr summary clock).2 _ _ ∧ _ :=
    insert_pushed_received inMemory placed room
  have isNew : pq.allocated ∉ pq.bh := fun member => Nat.lt_irrefl _ (inMemory _ member)
  have block : ((pq.insert newHashFromStr summary clock).2.cell pq.allocated).summary = summary := by
    have same := congrArg CachedBlock.summary received.block
    exact same
  rw [BlockPriorityQueue.summaries, Multiset.coe_eq_coe.mpr (bh.map _), List.map_append,
    received.summaries isNew, List.map_singleton, block, ← Multiset.coe_add, Multiset.add_comm,
    Multiset.coe_singleton, Multiset.singleton_add]
  rfl

/-- A full queue that takes the new block lets its first one go. -/
theorem insert_replaced_summaries (placed : pq.Placed) (some_ : pq.capacity ≠ 0)
    (isFull : pq.full = true) (below : pq.lessFn (pq.block 0) ⟨summary, 1, clock 0, 0⟩ = true) :
    ∃ rest, pq.summaries = (pq.block 0).summary ::ₘ rest ∧
      (pq.insert newHashFromStr summary clock).2.summaries = summary ::ₘ rest := by
  obtain ⟨received, bh, -, -⟩ : Received pq (pq.insert newHashFromStr summary clock).2 _ _ ∧ _ :=
    insert_replaced_received placed some_ isFull below
  have first : pq.ref 0 ∈ pq.bh := ref_mem (full_nonempty some_ isFull)
  have split : pq.bh.Perm (pq.ref 0 :: pq.bh.erase (pq.ref 0)) := List.perm_cons_erase first
  have apart : pq.ref 0 ∉ pq.bh.erase (pq.ref 0) := placed.nodup.not_mem_erase
  have block : ((pq.insert newHashFromStr summary clock).2.cell (pq.ref 0)).summary = summary := by
    have same := congrArg CachedBlock.summary received.block
    exact same
  refine ⟨((pq.bh.erase (pq.ref 0)).map fun ref => (pq.cell ref).summary : List BlockDataBasic),
    ?_, ?_⟩
  · rw [BlockPriorityQueue.summaries, Multiset.coe_eq_coe.mpr (split.map _), List.map_cons,
      ← Multiset.cons_coe]
    rfl
  · rw [BlockPriorityQueue.summaries, Multiset.coe_eq_coe.mpr ((bh.trans split).map _),
      List.map_cons, block, received.summaries apart, ← Multiset.cons_coe]

/-- The first block of an ordered queue is a lowest one. -/
theorem block_zero_lowest (sound : Sound pq) (down : pq.needsReheap = false)
    (byHeight : pq.lessFn = lessByHeight) {other : BlockDataBasic} (member : other ∈ pq.summaries) :
    (pq.block 0).summary.height ≤ other.height := by
  obtain ⟨ref, queued, rfl⟩ := List.mem_map.mp (Multiset.mem_coe.mp member)
  have notBelow := block_zero_least sound.isValid (sound.ordered down) queued
  rw [byHeight] at notBelow
  exact UInt32.not_lt.mp (of_decide_eq_false notBelow)

end BlockPriorityQueue

/-- What the queue holds when the given heights have been inserted. -/
structure HoldsHighest (newHashFromStr : String → Option Hash) (capacity : UInt32)
    (inserted : List Nat) (pq : BlockPriorityQueue) : Prop where
  sound : Sound pq
  down : pq.needsReheap = false
  byHeight : pq.lessFn = lessByHeight
  capacityOf : pq.capacity = capacity
  highest : Highest capacity.toNat (inserted : Multiset Nat) pq.heights
  hashes : ∀ summary ∈ pq.summaries, (newHashFromStr summary.hash).isSome = true

namespace HoldsHighest
variable {newHashFromStr : String → Option Hash} {capacity : UInt32} {inserted : List Nat}
  {pq next : BlockPriorityQueue}

/-- The queue begins with nothing, which is what it holds of no insertion. -/
theorem start (newHashFromStr : String → Option Hash) (capacity : UInt32) :
    HoldsHighest newHashFromStr capacity [] (startQueue capacity lessByHeight) where
  sound := Sound.start weakOrder_lessByHeight capacity
  down := rfl
  byHeight := rfl
  capacityOf := rfl
  highest := Highest.zero capacity.toNat
  hashes _ member := absurd member (Multiset.notMem_zero _)

/-- The queue has no more blocks than its capacity, whatever was inserted. -/
theorem length_le (holds : HoldsHighest newHashFromStr capacity inserted pq) :
    pq.bh.length ≤ capacity.toNat :=
  card_heights pq ▸ holds.highest.1

/-- A full queue has as many blocks as its capacity. -/
theorem length_of_full (holds : HoldsHighest newHashFromStr capacity inserted pq)
    (isFull : pq.full = true) : pq.bh.length = capacity.toNat := by
  have atLeast : pq.capacity.toNat ≤ pq.bh.length := of_decide_eq_true isFull
  rw [holds.capacityOf] at atLeast
  exact Nat.le_antisymm holds.length_le atLeast

/-- The first block of a full queue is lower than a block exactly when it makes room for it. -/
theorem below_iff (holds : HoldsHighest newHashFromStr capacity inserted pq)
    (summary : BlockDataBasic) (now : Int64) :
    pq.lessFn (pq.block 0) ⟨summary, 1, now, 0⟩ = true ↔
      (pq.block 0).summary.height < summary.height := by
  rw [holds.byHeight]
  exact decide_eq_true_iff

/-- An insertion keeps the highest blocks among all inserted ones, in the queue with room and in
the full one. -/
theorem insert (holds : HoldsHighest newHashFromStr capacity inserted pq) (some_ : capacity ≠ 0)
    {summary : BlockDataBasic} (isHash : (newHashFromStr summary.hash).isSome = true)
    (clock : Clock) :
    HoldsHighest newHashFromStr capacity (inserted ++ [summary.height.toNat])
      (pq.insert newHashFromStr summary clock).2 := by
  have appended : ((inserted ++ [summary.height.toNat] : List Nat) : Multiset Nat) =
      summary.height.toNat ::ₘ (inserted : Multiset Nat) :=
    Multiset.coe_eq_coe.mpr (List.perm_append_singleton _ _)
  have someQueue : pq.capacity ≠ 0 := holds.capacityOf ▸ some_
  have sound := holds.sound.insert newHashFromStr summary clock
  cases isFull : pq.full with
  | false =>
    have summaries : (pq.insert newHashFromStr summary clock).2.summaries =
        summary ::ₘ pq.summaries :=
      insert_pushed_summaries holds.sound.isValid.inMemory holds.sound.placed isFull
    obtain ⟨received, -⟩ : Received pq (pq.insert newHashFromStr summary clock).2 _ _ ∧ _ :=
      insert_pushed_received holds.sound.isValid.inMemory holds.sound.placed isFull
    refine ⟨sound, received.needsReheap.trans holds.down, received.lessFn.trans holds.byHeight,
      received.capacity.trans holds.capacityOf, ?_, ?_⟩
    · have room : pq.heights.card < capacity.toNat := by
        have notFull : ¬pq.capacity.toNat ≤ pq.bh.length := of_decide_eq_false isFull
        rw [card_heights, ← holds.capacityOf]
        exact Nat.lt_of_not_le notFull
      rw [appended, heights, summaries, Multiset.map_cons]
      exact holds.highest.take room _
    · rw [summaries]
      exact Multiset.forall_mem_cons.mpr ⟨isHash, holds.hashes⟩
  | true =>
    have length := holds.length_of_full isFull
    cases below : pq.lessFn (pq.block 0) ⟨summary, 1, clock 0, 0⟩ with
    | false =>
      -- no queued block is lower than the new one
      rw [insert_refused isFull below]
      refine ⟨holds.sound, holds.down, holds.byHeight, holds.capacityOf, ?_, holds.hashes⟩
      have notHigher : summary.height ≤ (pq.block 0).summary.height := by
        rw [← UInt32.not_lt, ← holds.below_iff summary (clock 0), below]
        exact Bool.false_ne_true
      rw [appended]
      refine holds.highest.refuse (by rw [card_heights, length]) ?_
      intro height member
      obtain ⟨other, queued, rfl⟩ := Multiset.mem_map.mp member
      exact UInt32.le_iff_toNat_le.mp (UInt32.le_trans notHigher
        (block_zero_lowest holds.sound holds.down holds.byHeight queued))
    | true =>
      obtain ⟨rest, queued, summaries⟩ : ∃ rest, _ ∧
          (pq.insert newHashFromStr summary clock).2.summaries = summary ::ₘ rest :=
        insert_replaced_summaries holds.sound.placed someQueue isFull below
      obtain ⟨received, -⟩ : Received pq (pq.insert newHashFromStr summary clock).2 _ _ ∧ _ :=
        insert_replaced_received holds.sound.placed someQueue isFull below
      have higher := (holds.below_iff summary (clock 0)).mp below
      have lowest : ∀ other ∈ rest, (pq.block 0).summary.height ≤ other.height :=
        fun other member => block_zero_lowest holds.sound holds.down holds.byHeight
          (queued ▸ Multiset.mem_cons_of_mem member)
      refine ⟨sound, received.needsReheap.trans holds.down, received.lessFn.trans holds.byHeight,
        received.capacity.trans holds.capacityOf, ?_, ?_⟩
      · have highest := holds.highest
        rw [heights, queued, Multiset.map_cons] at highest
        rw [appended, heights, summaries, Multiset.map_cons]
        refine highest.replace ?_ (Nat.le_of_lt (UInt32.lt_iff_toNat_lt.mp higher)) ?_
        · intro height member
          obtain ⟨other, left, rfl⟩ := Multiset.mem_map.mp member
          exact UInt32.le_iff_toNat_le.mp (lowest other left)
        · rw [Multiset.card_map, ← length, ← card_summaries, queued, Multiset.card_cons]
      · rw [summaries]
        exact Multiset.forall_mem_cons.mpr ⟨isHash, fun other member =>
          holds.hashes other (queued ▸ Multiset.mem_cons_of_mem member)⟩

/-- A `Reheap` keeps the blocks and so what the queue holds. -/
theorem reheap (holds : HoldsHighest newHashFromStr capacity inserted pq) :
    HoldsHighest newHashFromStr capacity inserted pq.reheap := by
  have moved := (reheap_rearranged pq).1
  have lowered : ({ pq with needsReheap := false } : BlockPriorityQueue).summaries =
      pq.summaries := rfl
  have summaries : pq.reheap.summaries = pq.summaries := (Rearranged.summaries moved).trans lowered
  have taken : queueStep newHashFromStr pq .reheap = some pq.reheap := rfl
  have meant : Meant pq .reheap := trivial
  have keepsOrder : KeepsOrder pq .reheap := trivial
  have sound : Sound pq.reheap := holds.sound.step meant keepsOrder taken
  refine ⟨sound, moved.needsReheap, moved.lessFn.trans holds.byHeight,
    moved.capacity.trans holds.capacityOf, ?_, ?_⟩
  · rw [heights, summaries]
    exact holds.highest
  · rw [summaries]
    exact holds.hashes

/-- One call adds the height that it inserts to those of which the queue holds the highest. -/
theorem step (holds : HoldsHighest newHashFromStr capacity inserted pq) (some_ : capacity ≠ 0)
    {call : QueueCall} (inserts : InsertsValid newHashFromStr call)
    (taken : queueStep newHashFromStr pq call = some next) :
    HoldsHighest newHashFromStr capacity (inserted ++ call.inserted.toList) next := by
  cases call with
  | insert summary clock =>
    obtain rfl := Option.some.inj taken
    exact holds.insert some_ inserts clock
  | reheap =>
    obtain rfl := Option.some.inj taken
    simpa [QueueCall.inserted] using holds.reheap
  | newCachedBlock => exact absurd inserts id
  | setLessFn => exact absurd inserts id
  | updateBlock => exact absurd inserts id
  | removeBlock => exact absurd inserts id
  | lookup => exact absurd inserts id
  | resetHeap => exact absurd inserts id

/-- A run adds the heights that its calls insert. -/
theorem run (holds : HoldsHighest newHashFromStr capacity inserted pq) (some_ : capacity ≠ 0)
    {calls : List QueueCall} (inserts : ∀ call ∈ calls, InsertsValid newHashFromStr call)
    (ran : exec (queueStep newHashFromStr) pq calls = some next) :
    HoldsHighest newHashFromStr capacity (inserted ++ calls.filterMap QueueCall.inserted) next := by
  induction calls generalizing pq inserted with
  | nil =>
    obtain rfl := Option.some.inj ran
    simpa using holds
  | cons call rest inductionHypothesis =>
    obtain ⟨middle, taken, continued⟩ := Option.bind_eq_some_iff.mp ran
    have later := inductionHypothesis
      (holds.step some_ (inserts call List.mem_cons_self) taken)
      (fun other member => inserts other (List.mem_cons_of_mem _ member)) continued
    have split : (call :: rest).filterMap QueueCall.inserted =
        call.inserted.toList ++ rest.filterMap QueueCall.inserted := by
      cases height : call.inserted <;> simp [height]
    rw [split, ← List.append_assoc]
    exact later

/-- An insertion returns a hash exactly when a lowest block made room, and that is its hash. -/
theorem removed_iff (holds : HoldsHighest newHashFromStr capacity inserted pq) (some_ : capacity ≠ 0)
    (summary : BlockDataBasic) (clock : Clock) (removed : Hash) :
    (pq.insert newHashFromStr summary clock).1.2 = some removed ↔
      ∃ old, Displaced pq (pq.insert newHashFromStr summary clock).2 summary old ∧
        newHashFromStr old.hash = some removed := by
  have someQueue : pq.capacity ≠ 0 := holds.capacityOf ▸ some_
  cases isFull : pq.full with
  | false =>
    have summaries : (pq.insert newHashFromStr summary clock).2.summaries =
        summary ::ₘ pq.summaries :=
      insert_pushed_summaries holds.sound.isValid.inMemory holds.sound.placed isFull
    rw [insert_pushed isFull |>.1]
    refine iff_of_false (by simp) ?_
    rintro ⟨old, ⟨-, rest, queued, after, -⟩, -⟩
    have cards := congrArg Multiset.card (summaries.symm.trans after)
    rw [queued] at cards
    simp at cards
  | true =>
    cases below : pq.lessFn (pq.block 0) ⟨summary, 1, clock 0, 0⟩ with
    | false =>
      rw [insert_refused isFull below]
      refine iff_of_false (by simp) ?_
      rintro ⟨old, ⟨higher, rest, queued, after, -⟩, -⟩
      have same : old = summary := (Multiset.cons_inj_left rest).mp (queued.symm.trans after)
      rw [same] at higher
      exact UInt32.lt_irrefl _ higher
    | true =>
      obtain ⟨rest, queued, summaries⟩ : ∃ rest, _ ∧
          (pq.insert newHashFromStr summary clock).2.summaries = summary ::ₘ rest :=
        insert_replaced_summaries holds.sound.placed someQueue isFull below
      rw [(insert_replaced someQueue isFull below).1]
      constructor
      · intro isHash
        refine ⟨(pq.block 0).summary, ⟨(holds.below_iff summary (clock 0)).mp below, rest, queued,
          summaries, fun other member => ?_⟩, isHash⟩
        exact block_zero_lowest holds.sound holds.down holds.byHeight
          (queued ▸ Multiset.mem_cons_of_mem member)
      · rintro ⟨old, ⟨-, rest', queued', after, -⟩, isHash⟩
        have rests : rest = rest' :=
          (Multiset.cons_inj_right summary).mp (summaries.symm.trans after)
        rw [← rests] at queued'
        have same : old = (pq.block 0).summary :=
          (Multiset.cons_inj_left rest).mp (queued'.symm.trans queued)
        exact same ▸ isHash

end HoldsHighest

/-- In every state of a queue with a capacity, ordered by heights, into which valid blocks
are inserted: the slice is a heap, each block's index is its position, the heights are the
highest of all that were inserted, as many as the capacity, and an insertion returns a hash
exactly when a lowest block makes room for a higher one, and that is its hash. -/
theorem queue_holds_highest (newHashFromStr : String → Option Hash) {capacity : UInt32}
    (some_ : capacity ≠ 0) {calls : List QueueCall} {final : BlockPriorityQueue}
    (inserts : ∀ call ∈ calls, InsertsValid newHashFromStr call)
    (ran : exec (queueStep newHashFromStr) (startQueue capacity lessByHeight) calls = some final) :
    Heap.Ordered blockHeap final ∧ final.Placed ∧ final.bh.length ≤ capacity.toNat ∧
      final.heights = (highest capacity.toNat (calls.filterMap QueueCall.inserted) : Multiset Nat) ∧
      ∀ summary clock removed,
        (final.insert newHashFromStr summary clock).1.2 = some removed ↔
          ∃ old, Displaced final (final.insert newHashFromStr summary clock).2 summary old ∧
            newHashFromStr old.hash = some removed := by
  have holds := (HoldsHighest.start newHashFromStr capacity).run some_ inserts ran
  exact ⟨holds.sound.ordered holds.down, holds.sound.placed, holds.length_le,
    holds.highest.eq_highest, holds.removed_iff some_⟩

/-- Four blocks, of which the third is refused, for a queue of two. -/
def fourBlocks : List QueueCall :=
  [.insert ⟨3, "03"⟩ fun _ => 1, .insert ⟨5, "05"⟩ fun _ => 2, .insert ⟨3, "03"⟩ fun _ => 3,
    .reheap, .insert ⟨5, "05"⟩ fun _ => 4]

/-- A queue of two blocks holds the two highest after four insertions. -/
theorem queue_holds_highest_four :
    ∃ final, exec (queueStep sampleHashes) (startQueue 2 lessByHeight) fourBlocks = some final ∧
      Heap.Ordered blockHeap final ∧ final.Placed ∧ final.bh.length ≤ (2 : UInt32).toNat ∧
      final.heights = (highest (2 : UInt32).toNat (fourBlocks.filterMap QueueCall.inserted) :
        Multiset Nat) ∧
      ∀ summary clock removed,
        (final.insert sampleHashes summary clock).1.2 = some removed ↔
          ∃ old, Displaced final (final.insert sampleHashes summary clock).2 summary old ∧
            sampleHashes old.hash = some removed := by
  have ran : exec (queueStep sampleHashes) (startQueue 2 lessByHeight) fourBlocks = some _ := rfl
  have inserts : ∀ call ∈ fourBlocks, InsertsValid sampleHashes call := by
    simp only [fourBlocks, List.forall_mem_cons, List.not_mem_nil, false_implies, implies_true,
      and_true]
    exact ⟨rfl, rfl, rfl, trivial, rfl⟩
  exact ⟨_, ran, queue_holds_highest sampleHashes (by decide) inserts ran⟩

end Hcexplorer.Hcdataapi

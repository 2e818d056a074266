import Mathlib.Data.Prod.Lex
import Hcexplorer.Hcdataapi.QueueHeap
import Hcexplorer.Library.Runs

/-!
# The flag of the expiration queue

`needsReheap` says that the slice of the queue may be out of order. The law is about
every run of the calls that change the slice, the blocks or the comparator: while the
flag is down, the slice is ordered and its first block, the one a full queue compares
a new block with, is minimal.

`SetLessFn` does not raise the flag. So the law holds of the runs that change the
comparator only while the flag is up, or to one that the slice is ordered for
already, and that reset the queue only to blocks that are listed once: the queue
keeps one heap index for each block.

The comparator that `NewBlockPriorityQueue` sets is no strict weak order, since it
takes access times that are near each other for the same. Runs begin with another.
-/

namespace Hcexplorer.Hcdataapi

open Runs

/-! ## Comparators -/

/-- A comparison of keys that do not depend on the place is a strict weak order. -/
theorem weakOrder_of_key {κ : Type} [LinearOrder κ] (key : CachedBlock → κ)
    (placeFree : ∀ b, key b.unplaced = key b) {lessFn : CachedBlock → CachedBlock → Bool}
    (compares : ∀ bi bj, lessFn bi bj = true ↔ key bi < key bj) : WeakOrder lessFn where
  order := by
    have same : (fun bi bj => lessFn bi bj = true) = Order.Preimage key (· < ·) := by
      funext bi bj
      exact propext (compares bi bj)
    have weak : IsStrictWeakOrder κ (· < ·) := isStrictWeakOrder_of_isOrderConnected
    rw [same]
    infer_instance
  placeFree bi bj := by
    rw [Bool.eq_iff_iff, compares, compares, placeFree, placeFree]

/-- The comparison by heights is a weak order. -/
theorem weakOrder_lessByHeight : WeakOrder lessByHeight :=
  weakOrder_of_key (fun b => b.summary.height.toNat) (fun _ => rfl) fun _ _ => by
    simp [lessByHeight, UInt32.lt_iff_toNat_lt]

/-- The comparison by access counts is a weak order. -/
theorem weakOrder_lessByAccessCount : WeakOrder lessByAccessCount :=
  weakOrder_of_key (fun b => b.accesses.toInt) (fun _ => rfl) fun _ _ => by
    simp [lessByAccessCount, Int64.lt_iff_toInt_lt]

/-- The comparison by access times is a weak order. -/
theorem weakOrder_lessByAccessTime : WeakOrder lessByAccessTime :=
  weakOrder_of_key (fun b => b.accessTime.toInt) (fun _ => rfl) fun _ _ => by
    simp [lessByAccessTime, Int64.lt_iff_toInt_lt]

/-- The comparison by access counts and then heights is a weak order. -/
theorem weakOrder_lessByAccessCountThenHeight : WeakOrder lessByAccessCountThenHeight :=
  weakOrder_of_key (fun b => toLex (b.accesses.toInt, b.summary.height.toNat)) (fun _ => rfl)
    fun bi bj => by
      unfold lessByAccessCountThenHeight
      rw [Prod.Lex.toLex_lt_toLex]
      split
      · rename_i same
        simp [same, lessByHeight, UInt32.lt_iff_toNat_lt]
      · rename_i different
        simp [lessByAccessCount, Int64.lt_iff_toInt_lt, Int64.toInt_inj, different]

/-! ## Runs -/

/-- The calls on a queue and the blocks in memory. -/
inductive QueueCall where
  | newCachedBlock (summary : BlockDataBasic)
  | setLessFn (lessFn : CachedBlock → CachedBlock → Bool)
  | insert (summary : BlockDataBasic) (clock : Clock)
  | updateBlock (b : Option Ref) (summary : BlockDataBasic) (now : Int64)
  | removeBlock (b : Option Ref)
  | lookup (ref : Ref) (clock : Clock)
  | reheap
  | resetHeap (bh : List Ref) (now : Int64)

/-- Perform one call of the queue's methods. Each of them returns, so the result is always a
queue. -/
def queueStep (newHashFromStr : String → Option Hash) (pq : BlockPriorityQueue) :
    QueueCall → Option BlockPriorityQueue
  | .newCachedBlock summary => some (pq.alloc (newCachedBlock summary))
  | .setLessFn lessFn => some (pq.setLessFn lessFn)
  | .insert summary clock => some (pq.insert newHashFromStr summary clock).2
  | .updateBlock b summary now => some (pq.updateBlock b summary now)
  | .removeBlock b => some (pq.removeBlock b)
  | .lookup ref clock => some (pq.lookedUp ref clock)
  | .reheap => some pq.reheap
  | .resetHeap bh now => some (pq.resetHeap bh now)

/-- What callers promise: comparators are strict weak orders, the block that is updated
is queued, and the blocks of a fresh queue are in memory. -/
def Meant (pq : BlockPriorityQueue) : QueueCall → Prop
  | .setLessFn lessFn => WeakOrder lessFn
  | .updateBlock b _ _ => ∀ ref, b = some ref → ref ∈ pq.bh
  | .resetHeap bh _ => ∀ ref ∈ bh, ref < pq.allocated
  | _ => True

/-- The comparator is changed only while the flag is up or to one that the slice is
ordered for, and a fresh queue lists each block once. -/
def KeepsOrder (pq : BlockPriorityQueue) : QueueCall → Prop
  | .setLessFn lessFn =>
    pq.needsReheap = true ∨ Heap.Ordered blockHeap { pq with lessFn := lessFn }
  | .resetHeap bh _ => bh.Nodup
  | _ => True

/-- A queue as the program sets it up, with a comparator of the caller. -/
def startQueue (capacity : UInt32) (lessFn : CachedBlock → CachedBlock → Bool) :
    BlockPriorityQueue :=
  (newBlockPriorityQueue capacity).setLessFn lessFn

/-- While the flag is down, the slice is ordered and its first block is minimal. -/
def OrderKnown (pq : BlockPriorityQueue) : Prop :=
  pq.needsReheap = false →
    Heap.Ordered blockHeap pq ∧ ∀ ref ∈ pq.bh, pq.lessFn (pq.cell ref) (pq.block 0) = false

/-- What every call keeps, with the part of the law that is about the slice. -/
structure Sound (pq : BlockPriorityQueue) : Prop where
  isValid : pq.Valid
  placed : pq.Placed
  ordered : pq.needsReheap = false → Heap.Ordered blockHeap pq

namespace BlockPriorityQueue

/-- The first block of an ordered slice is minimal. -/
theorem block_zero_least {pq : BlockPriorityQueue} (isValid : pq.Valid)
    (ordered : Heap.Ordered blockHeap pq) {ref : Ref} (member : ref ∈ pq.bh) :
    pq.lessFn (pq.cell ref) (pq.block 0) = false := by
  obtain ⟨i, inside, rfl⟩ := exists_ref member
  exact Heap.OrderedTo.root_least laws isValid ordered i inside

end BlockPriorityQueue

open BlockPriorityQueue

/-- A sound queue whose flag is down is a heap, and the block at its root is minimal. -/
theorem Sound.orderKnown {pq : BlockPriorityQueue} (sound : Sound pq) : OrderKnown pq :=
  fun down => ⟨sound.ordered down, fun _ member =>
    block_zero_least sound.isValid (sound.ordered down) member⟩

/-- A queue that differs in its heights only is as sound. -/
theorem Sound.sameBlocks {before after : BlockPriorityQueue} (sound : Sound before)
    (same : SameBlocks before after) : Sound after where
  isValid := sound.isValid.rearranged same.rearranged
  placed := same.placed sound.placed
  ordered down := same.ordered (sound.ordered (same.needsReheap ▸ down))

/-- `UpdateBlock` keeps the law, since it moves the changed block to its place. -/
theorem Sound.updateBlock {pq : BlockPriorityQueue} (sound : Sound pq) {i : Nat}
    (inside : i < pq.bh.length) (summary : BlockDataBasic) (now : Int64) :
    Sound (pq.updateBlock (some (pq.ref i)) summary now) := by
  obtain ⟨rearranged, placed, -⟩ := updateBlock_rearranged sound.placed inside summary now
  have isValid : Valid (pq.modify (pq.ref i) (renewed summary now)) :=
    ⟨sound.isValid.order, sound.isValid.inMemory⟩
  refine ⟨isValid.rearranged rearranged, placed, fun down => ?_⟩
  exact updateBlock_ordered sound.isValid sound.placed inside summary now
    (sound.ordered (rearranged.needsReheap.symm.trans down))

/-- `Insert` keeps the law, in each of its cases. -/
theorem Sound.insert {pq : BlockPriorityQueue} (sound : Sound pq)
    (newHashFromStr : String → Option Hash) (summary : BlockDataBasic) (clock : Clock) :
    Sound (pq.insert newHashFromStr summary clock).2 := by
  by_cases none_ : pq.capacity = 0
  · rw [insert_none none_]
    exact sound
  cases isFull : pq.full with
  | false =>
    refine Sound.sameBlocks ?_ (insert_pushed isFull).2
    have pushed := push_rearranged sound.isValid.inMemory (summary, clock 0)
    refine ⟨(laws.valid_push _ pq sound.isValid).rearranged pushed.1, pushed.2 sound.placed,
      fun down => ?_⟩
    have downBefore : pq.needsReheap = false := pushed.1.needsReheap.symm.trans down
    exact Heap.push_orders laws sound.isValid _ (sound.ordered downBefore)
  | true =>
    cases below : pq.lessFn (pq.block 0) ⟨summary, 1, clock 0, 0⟩ with
    | false =>
      rw [insert_refused isFull below]
      exact sound
    | true =>
      exact (sound.updateBlock (full_nonempty none_ isFull) summary (clock 1)).sameBlocks
        (insert_replaced none_ isFull below).2

/-- `RemoveBlock` keeps the law, whatever the heap index of the block is. -/
theorem Sound.removeBlock {pq : BlockPriorityQueue} (sound : Sound pq) (b : Option Ref) :
    Sound (pq.removeBlock b) := by
  cases b with
  | none => exact sound
  | some ref =>
    simp only [BlockPriorityQueue.removeBlock]
    split
    · rename_i found
      simp only [Bool.and_eq_true, decide_eq_true_eq] at found
      have inside : (pq.cell ref).heapIdx.toNat < pq.bh.length := by
        have bounds := found.1
        unfold len at bounds
        omega
      refine Sound.sameBlocks ?_ (rescanMinMaxForRemove_same _ _)
      obtain ⟨middle, ⟨rearranged, placed⟩, -, -, removed⟩ :=
        remove_last (keptBySwaps pq) inside (unmoved pq)
      have isValid := sound.isValid.rearranged rearranged
      refine ⟨?_, ?_, fun down => ?_⟩
      · rw [removed]
        exact ⟨isValid.order, fun other member =>
          isValid.inMemory other (List.mem_of_mem_dropLast member)⟩
      · rw [removed]
        exact (placed sound.placed).pop
      · rw [removed] at down
        exact Heap.remove_orders laws sound.isValid inside
          (sound.ordered (rearranged.needsReheap.symm.trans down))
    · exact sound

/-- Every call that is meant and keeps the order keeps the law. -/
theorem Sound.step {newHashFromStr : String → Option Hash} {pq next : BlockPriorityQueue}
    {call : QueueCall} (sound : Sound pq) (meant : Meant pq call) (keeps : KeepsOrder pq call)
    (taken : queueStep newHashFromStr pq call = some next) : Sound next := by
  cases call with
  | newCachedBlock summary =>
    obtain rfl := Option.some.inj taken
    -- no queued pointer is the new address
    have blocks : ∀ i < pq.bh.length, (pq.alloc (newCachedBlock summary)).block i = pq.block i := by
      intro i inside
      have old := sound.isValid.inMemory _ (ref_mem inside)
      change (Function.update pq.cell pq.allocated _) (pq.ref i) = _
      rw [Function.update_of_ne (Nat.ne_of_lt old)]
      rfl
    refine ⟨⟨sound.isValid.order, fun ref member => ?_⟩, fun i inside => ?_, fun down => ?_⟩
    · exact Nat.lt_succ_of_lt (sound.isValid.inMemory ref member)
    · rw [blocks i inside]
      exact sound.placed i inside
    · intro k positive inside
      have above : Heap.parent k < pq.bh.length :=
        Nat.lt_of_le_of_lt (Heap.parent_le k) inside
      change pq.lessFn (BlockPriorityQueue.block _ _) (BlockPriorityQueue.block _ _) = false
      rw [blocks k inside, blocks _ above]
      exact sound.ordered down k positive inside
  | setLessFn lessFn =>
    obtain rfl := Option.some.inj taken
    refine ⟨⟨meant, sound.isValid.inMemory⟩, sound.placed, fun down => ?_⟩
    rcases keeps with up | ordered
    · exact absurd (up.symm.trans down) (by decide)
    · exact ordered
  | insert summary clock => exact Option.some.inj taken ▸ sound.insert newHashFromStr summary clock
  | updateBlock b summary now =>
    obtain rfl := Option.some.inj taken
    cases b with
    | none => exact sound
    | some ref =>
      obtain ⟨i, inside, rfl⟩ := exists_ref (meant ref rfl)
      exact sound.updateBlock inside summary now
  | removeBlock b => exact Option.some.inj taken ▸ sound.removeBlock b
  | lookup ref clock =>
    obtain rfl := Option.some.inj taken
    exact ⟨⟨sound.isValid.order, sound.isValid.inMemory⟩,
      sound.placed.modify ref fun _ => rfl, fun down => absurd down Bool.noConfusion⟩
  | reheap =>
    obtain rfl := Option.some.inj taken
    obtain ⟨rearranged, placed⟩ := reheap_rearranged pq
    have lowered : Valid { pq with needsReheap := false } :=
      ⟨sound.isValid.order, sound.isValid.inMemory⟩
    exact ⟨lowered.rearranged rearranged, placed sound.placed,
      fun _ => reheap_ordered sound.isValid⟩
  | resetHeap bh now =>
    obtain rfl := Option.some.inj taken
    obtain ⟨isValid, placed, ordered⟩ := resetHeap_spec sound.isValid.order keeps meant now
    exact ⟨isValid, placed, fun _ => ordered⟩

/-- A new queue is sound, as it has no blocks. -/
theorem Sound.start {lessFn : CachedBlock → CachedBlock → Bool} (order : WeakOrder lessFn)
    (capacity : UInt32) : Sound (startQueue capacity lessFn) where
  isValid := ⟨order, fun _ member => absurd member List.not_mem_nil⟩
  placed _ inside := absurd inside (Nat.not_lt_zero _)
  ordered _ _ _ inside := absurd inside (Nat.not_lt_zero _)

/-- In every state of a run of meant calls that change the comparator only while the
flag is up or to one that the slice is ordered for, and that list each block of a
fresh queue once: while the flag is down the slice is ordered, and its first block is
minimal. -/
theorem flag_down_means_ordered (newHashFromStr : String → Option Hash) (capacity : UInt32)
    {lessFn : CachedBlock → CachedBlock → Bool} (order : WeakOrder lessFn)
    {calls : List QueueCall} {final : BlockPriorityQueue}
    (admitted : Admitted (queueStep newHashFromStr)
      (fun pq call => Meant pq call ∧ KeepsOrder pq call) (startQueue capacity lessFn) calls)
    (ran : exec (queueStep newHashFromStr) (startQueue capacity lessFn) calls = some final) :
    OrderKnown final :=
  have sound : Sound final := exec_invariant Sound
    (fun _ _ _ sound allowed taken => sound.step allowed.1 allowed.2 taken)
    (Sound.start order capacity) admitted ran
  sound.orderKnown

/-! ## Runs of two blocks -/

/-- Two short texts and the hashes that they are read as; no other text is a hash here. -/
def sampleHashes (text : String) : Option Hash :=
  if text = "05" then some 5 else if text = "03" then some 3 else none

/-- Two insertions, of which the higher block is inserted and accessed earlier. -/
def twoBlocks : List QueueCall :=
  [.insert ⟨5, "05"⟩ fun _ => 1, .insert ⟨3, "03"⟩ fun _ => 2]

/-- After a lookup the comparator is changed to the heights and the queue is ordered again. -/
theorem flag_down_means_ordered_afterLookup :
    ∃ final, exec (queueStep sampleHashes) (startQueue 10 lessByAccessTime)
      (twoBlocks ++ [.lookup 0 fun _ => 3, .setLessFn lessByHeight, .reheap]) = some final ∧
      OrderKnown final := by
  have ran : exec (queueStep sampleHashes) (startQueue 10 lessByAccessTime)
      (twoBlocks ++ [.lookup 0 fun _ => 3, .setLessFn lessByHeight, .reheap]) = some _ := rfl
  refine ⟨_, ran, flag_down_means_ordered sampleHashes 10 weakOrder_lessByAccessTime ?_ ran⟩
  exact admitted_cons rfl ⟨trivial, trivial⟩ (admitted_cons rfl ⟨trivial, trivial⟩
    (admitted_cons rfl ⟨trivial, trivial⟩ (admitted_cons rfl
      ⟨weakOrder_lessByHeight, Or.inl rfl⟩ (admitted_cons rfl ⟨trivial, trivial⟩ trivial))))

/-- Changed while the flag is down, the comparator puts the first block above the second. -/
theorem setLessFn_leaves_unordered :
    ¬∀ (newHashFromStr : String → Option Hash) (capacity : UInt32)
      (lessFn : CachedBlock → CachedBlock → Bool), WeakOrder lessFn →
      ∀ calls final,
        Admitted (queueStep newHashFromStr) Meant (startQueue capacity lessFn) calls →
        exec (queueStep newHashFromStr) (startQueue capacity lessFn) calls = some final →
        OrderKnown final := by
  intro claimed
  have admitted : Admitted (queueStep sampleHashes) Meant (startQueue 10 lessByAccessTime)
      (twoBlocks ++ [.setLessFn lessByHeight]) :=
    admitted_cons rfl trivial (admitted_cons rfl trivial
      (admitted_cons rfl weakOrder_lessByHeight trivial))
  have known := claimed sampleHashes 10 lessByAccessTime weakOrder_lessByAccessTime _ _ admitted rfl
  exact absurd (known rfl).1 (by decide +kernel)

/-- One change of the comparator keeps the law exactly under its condition. -/
theorem setLessFn_keeps_iff {pq : BlockPriorityQueue} (sound : Sound pq)
    {lessFn : CachedBlock → CachedBlock → Bool} (order : WeakOrder lessFn) :
    OrderKnown (pq.setLessFn lessFn) ↔ KeepsOrder pq (.setLessFn lessFn) := by
  constructor
  · intro known
    cases flag : pq.needsReheap with
    | true => exact Or.inl flag
    | false => exact Or.inr (known flag).1
  · intro keeps
    have meant : Meant pq (.setLessFn lessFn) := order
    have taken : queueStep (fun _ => none) pq (.setLessFn lessFn) = some (pq.setLessFn lessFn) := rfl
    exact (sound.step meant keeps taken).orderKnown

end Hcexplorer.Hcdataapi

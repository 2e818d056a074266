import Mathlib.Data.List.GetD
import Mathlib.Order.RelClasses
import Hcexplorer.Hcdataapi.PriorityQueue

/-!
# The expiration queue as a heap

The queue is a collection with the laws that the heap algorithms rely on, as long as
its comparator is a strict weak order of the blocks' data and not of their places.

The algorithms only rearrange the slice: each block keeps its data, and the heap index
of every queued block is its position. From this, what each operation of the queue
does to the queued blocks, and that it keeps the order of the slice.
-/

namespace Hcexplorer.Hcdataapi

/-- The block without its place in the slice, which is all that exchanges change of it. -/
def CachedBlock.unplaced (b : CachedBlock) : CachedBlock := { b with heapIdx := 0 }

/-- A comparator that is a strict weak order of the data of the blocks. -/
structure WeakOrder (lessFn : CachedBlock → CachedBlock → Bool) : Prop where
  order : IsStrictWeakOrder CachedBlock fun bi bj => lessFn bi bj = true
  placeFree : ∀ bi bj, lessFn bi.unplaced bj.unplaced = lessFn bi bj

namespace BlockPriorityQueue

/-! ## What an exchange does -/

/-- The heap index of each queued block is its position. -/
def Placed (pq : BlockPriorityQueue) : Prop :=
  ∀ i < pq.bh.length, (pq.block i).heapIdx = i

/-- The queued blocks are in memory: every pointer of the slice is one that was handed out. -/
def InMemory (pq : BlockPriorityQueue) : Prop := ∀ ref ∈ pq.bh, ref < pq.allocated

/-- The slice is another arrangement of the same pointers, the blocks keep their data,
those that are not queued keep their place, and comparator, capacity, flag and memory
are the same. -/
structure Rearranged (before after : BlockPriorityQueue) : Prop where
  bh : after.bh.Perm before.bh
  cells : ∀ ref, (after.cell ref).unplaced = (before.cell ref).unplaced
  outside : ∀ ref, ref ∉ before.bh → after.cell ref = before.cell ref
  allocated : after.allocated = before.allocated
  capacity : after.capacity = before.capacity
  needsReheap : after.needsReheap = before.needsReheap
  lessFn : after.lessFn = before.lessFn

/-- A queue is a rearrangement of itself. -/
theorem Rearranged.refl (pq : BlockPriorityQueue) : Rearranged pq pq :=
  ⟨List.Perm.refl _, fun _ => rfl, fun _ _ => rfl, rfl, rfl, rfl, rfl⟩

/-- A rearrangement of a rearranged queue is one of the queue before both. -/
theorem Rearranged.trans {first second third : BlockPriorityQueue}
    (front : Rearranged first second) (back : Rearranged second third) :
    Rearranged first third where
  bh := back.bh.trans front.bh
  cells ref := (back.cells ref).trans (front.cells ref)
  outside ref outside :=
    (back.outside ref fun member => outside (front.bh.mem_iff.mp member)).trans
      (front.outside ref outside)
  allocated := back.allocated.trans front.allocated
  capacity := back.capacity.trans front.capacity
  needsReheap := back.needsReheap.trans front.needsReheap
  lessFn := back.lessFn.trans front.lessFn

/-- A queued pointer stands at some position of the slice. -/
theorem exists_ref {pq : BlockPriorityQueue} {ref : Ref} (member : ref ∈ pq.bh) :
    ∃ i < pq.bh.length, pq.ref i = ref := by
  obtain ⟨i, inside, found⟩ := List.mem_iff_getElem.mp member
  exact ⟨i, inside, by rw [BlockPriorityQueue.ref, List.getD_eq_getElem _ _ inside, found]⟩

/-- The pointer at a position of the slice is a queued one. -/
theorem ref_mem {pq : BlockPriorityQueue} {i : Nat} (inside : i < pq.bh.length) :
    pq.ref i ∈ pq.bh := by
  rw [ref, List.getD_eq_getElem _ _ inside]
  exact List.getElem_mem inside

/-- Each block is queued once, because it records only one place. -/
theorem Placed.ref_injective {pq : BlockPriorityQueue} (placed : pq.Placed) {i j : Nat}
    (insideI : i < pq.bh.length) (insideJ : j < pq.bh.length) (same : pq.ref i = pq.ref j) :
    i = j := by
  have first := placed i insideI
  have second := placed j insideJ
  rw [block, same, ← block, second] at first
  exact Int.ofNat.inj first.symm

/-- A slice whose blocks record their places has no pointer twice. -/
theorem Placed.nodup {pq : BlockPriorityQueue} (placed : pq.Placed) : pq.bh.Nodup := by
  rw [List.nodup_iff_injective_get]
  rintro ⟨i, insideI⟩ ⟨j, insideJ⟩ same
  have refs : pq.ref i = pq.ref j := by
    rw [ref, ref, List.getD_eq_getElem _ _ insideI, List.getD_eq_getElem _ _ insideJ]
    exact same
  exact Fin.ext (placed.ref_injective insideI insideJ refs)

/-- After an exchange a position holds what the transposed position held. -/
theorem getD_swap (bh : List Ref) {i j : Nat} (insideI : i < bh.length) (insideJ : j < bh.length)
    (a : Nat) : (bh.swap i j).getD a 0 = bh.getD (Equiv.swap i j a) 0 := by
  rw [List.swap_eq_of_lt insideI insideJ, Equiv.swap_apply_def]
  simp only [List.getD_eq_getElem?_getD, List.getElem?_set, List.length_set]
  by_cases isI : a = i
  · subst isI
    by_cases isJ : a = j
    · subst isJ
      simp [insideI]
    · simp [Ne.symm isJ, insideI, insideJ]
  · by_cases isJ : a = j
    · subst isJ
      simp [isI, insideI, insideJ]
    · simp [isI, isJ, Ne.symm isI, Ne.symm isJ]

/-- An exchange of two places exchanges the two pointers in the slice. -/
@[simp] theorem swap_bh (i j : Nat) (pq : BlockPriorityQueue) :
    (pq.swap i j).bh = pq.bh.swap i j := rfl

/-- After an exchange a position has the pointer of the position it was exchanged with, or its
own. -/
theorem ref_swap (pq : BlockPriorityQueue) {i j : Nat} (insideI : i < pq.bh.length)
    (insideJ : j < pq.bh.length) (a : Nat) :
    (pq.swap i j).ref a = pq.ref (Equiv.swap i j a) :=
  getD_swap pq.bh insideI insideJ a

/-- Writing a heap index changes nothing else of any block. -/
theorem place_unplaced (target other : Ref) (heapIdx : Int) (pq : BlockPriorityQueue) :
    ((pq.place target heapIdx).cell other).unplaced = (pq.cell other).unplaced := by
  by_cases same : other = target
  · subst same
    simp [place, modify, CachedBlock.unplaced]
  · simp [place, modify, same]

/-- Writing the heap index of one block leaves the other blocks as they are. -/
theorem place_other {target other : Ref} (different : other ≠ target) (heapIdx : Int)
    (pq : BlockPriorityQueue) : (pq.place target heapIdx).cell other = pq.cell other := by
  simp [place, modify, different]

/-- A heap index that was written is the one that is read. -/
theorem place_same (target : Ref) (heapIdx : Int) (pq : BlockPriorityQueue) :
    ((pq.place target heapIdx).cell target).heapIdx = heapIdx := by
  simp [place, modify]

/-- An exchange of two places inside the slice rearranges the queue. -/
theorem swap_rearranged {pq : BlockPriorityQueue} {i j : Nat} (insideI : i < pq.bh.length)
    (insideJ : j < pq.bh.length) : Rearranged pq (pq.swap i j) where
  bh := List.swap_perm pq.bh i j
  cells other := by
    rw [swap, place_unplaced, place_unplaced]
  outside other absent := by
    have refs := ref_swap pq insideI insideJ
    have notI : other ≠ (pq.swap i j).ref i := by
      rw [refs, Equiv.swap_apply_left]
      exact fun same => absent (same ▸ ref_mem insideJ)
    have notJ : other ≠ (pq.swap i j).ref j := by
      rw [refs, Equiv.swap_apply_right]
      exact fun same => absent (same ▸ ref_mem insideI)
    exact (place_other notJ _ _).trans (place_other notI _ _)
  allocated := rfl
  capacity := rfl
  needsReheap := rfl
  lessFn := rfl

/-- An exchange writes the heap index of both blocks, so each stays at its position. -/
theorem Placed.swap {pq : BlockPriorityQueue} (placed : pq.Placed) {i j : Nat}
    (insideI : i < pq.bh.length) (insideJ : j < pq.bh.length) : (pq.swap i j).Placed := by
  intro a insideA
  rw [swap_bh, List.length_swap] at insideA
  have refs := ref_swap pq insideI insideJ
  by_cases isJ : a = j
  · rw [isJ]
    exact place_same _ _ _
  have notJ : (pq.swap i j).ref a ≠ (pq.swap i j).ref j := by
    rw [refs, refs, Equiv.swap_apply_right]
    intro same
    have position := placed.ref_injective (Equiv.swap_apply_def i j a ▸ by split_ifs <;> omega)
      insideI same
    rw [Equiv.swap_apply_eq_iff, Equiv.swap_apply_left] at position
    exact isJ position
  rw [block]
  refine (congrArg CachedBlock.heapIdx (place_other notJ _ _)).trans ?_
  by_cases isI : a = i
  · rw [isI]
    exact place_same _ _ _
  have notI : (pq.swap i j).ref a ≠ (pq.swap i j).ref i := by
    rw [refs, refs, Equiv.swap_apply_left, Equiv.swap_apply_of_ne_of_ne isI isJ]
    exact fun same => isJ (placed.ref_injective insideA insideJ same)
  refine (congrArg CachedBlock.heapIdx (place_other notI _ _)).trans ?_
  have here : (pq.swap i j).ref a = pq.ref a := by
    rw [refs, Equiv.swap_apply_of_ne_of_ne isI isJ]
  rw [here]
  exact placed a insideA

/-! ## The laws of the collection -/

/-- The comparator is an order, and the queued blocks are in memory. -/
structure Valid (pq : BlockPriorityQueue) : Prop where
  order : WeakOrder pq.lessFn
  inMemory : pq.InMemory

/-- A rearranged queue is valid if the queue was: it has the same blocks and the same comparator. -/
theorem Valid.rearranged {before after : BlockPriorityQueue} (isValid : before.Valid)
    (rearranged : Rearranged before after) : after.Valid where
  order := rearranged.lessFn ▸ isValid.order
  inMemory ref member :=
    rearranged.allocated ▸ isValid.inMemory ref (rearranged.bh.mem_iff.mp member)

/-- Comparisons look at the data of the blocks only. -/
theorem less_eq_of_unplaced {before after : BlockPriorityQueue} (order : WeakOrder before.lessFn)
    (lessFn : after.lessFn = before.lessFn) {a b c d : Nat}
    (first : (after.block a).unplaced = (before.block c).unplaced)
    (second : (after.block b).unplaced = (before.block d).unplaced) :
    after.less a b = before.less c d := by
  rw [less, less, lessFn, ← order.placeFree, first, second, order.placeFree]

/-- A new block is not one of the queued blocks. -/
theorem block_push {pq : BlockPriorityQueue} (inMemory : pq.InMemory)
    (pushed : BlockDataBasic × Int64) {a : Nat} (inside : a < pq.bh.length) :
    (pq.push pushed).block a = pq.block a := by
  have old := inMemory _ (ref_mem inside)
  have same : (pq.push pushed).ref a = pq.ref a := by
    rw [ref, ref, push]
    exact List.getD_append _ _ _ _ inside
  rw [block, same]
  simp [push, alloc, updateMinMax, block, Nat.ne_of_lt old]

/-- A `Pop` leaves the positions before the last one as they are. -/
theorem ref_pop (pq : BlockPriorityQueue) {a : Nat} (inside : a < pq.bh.length - 1) :
    pq.pop.ref a = pq.ref a := by
  have whole : a < pq.bh.length := by omega
  rw [ref, ref, pop]
  simp [List.getD_eq_getElem?_getD, inside, whole]

/-- The queue has the laws that the heap algorithms rely on. -/
theorem laws : Heap.Laws blockHeap Valid where
  len_swap i j pq := List.length_swap
  valid_swap i j pq insideI insideJ isValid :=
    isValid.rearranged (swap_rearranged insideI insideJ)
  less_swap i j pq insideI insideJ isValid a b := by
    have moved := swap_rearranged insideI insideJ
    have blocks : ∀ a, ((pq.swap i j).block a).unplaced =
        (pq.block (Equiv.swap i j a)).unplaced := by
      intro a
      rw [block, moved.cells, ref_swap pq insideI insideJ, block]
    exact less_eq_of_unplaced isValid.order moved.lessFn (blocks a) (blocks b)
  order pq isValid :=
    have := isValid.order.order
    inferInstanceAs (IsStrictWeakOrder Nat
      (Order.Preimage pq.block fun bi bj => pq.lessFn bi bj = true))
  len_push pushed pq := by simp [blockHeap, push, len, updateMinMax]
  valid_push pushed pq isValid := by
    refine ⟨isValid.order, fun ref member => ?_⟩
    rcases List.mem_append.mp member with queued | new
    · exact Nat.lt_succ_of_lt (isValid.inMemory ref queued)
    · rw [List.mem_singleton.mp new]
      exact Nat.lt_succ_self _
  less_push pushed pq a b isValid insideA insideB := by
    have lessFn : (pq.push pushed).lessFn = pq.lessFn := rfl
    exact less_eq_of_unplaced isValid.order lessFn
      (congrArg CachedBlock.unplaced (block_push isValid.inMemory pushed insideA))
      (congrArg CachedBlock.unplaced (block_push isValid.inMemory pushed insideB))
  len_pop pq := List.length_dropLast
  less_pop pq a b isValid insideA insideB := by
    have blocks : ∀ a < pq.bh.length - 1, (pq.pop.block a).unplaced = (pq.block a).unplaced := by
      intro a inside
      rw [block, ref_pop pq inside, block]
      exact place_unplaced _ _ _ _
    have lessFn : pq.pop.lessFn = pq.lessFn := rfl
    exact less_eq_of_unplaced isValid.order lessFn (blocks a insideA) (blocks b insideB)

/-- Exchanges keep what rearrangements keep: the queue stays a rearrangement, and blocks that
recorded their places still do. -/
theorem keptBySwaps (before : BlockPriorityQueue) :
    Heap.KeptBySwaps blockHeap fun after =>
      Rearranged before after ∧ (before.Placed → after.Placed) :=
  fun _ _ _ insideI insideJ holds =>
    ⟨holds.1.trans (swap_rearranged insideI insideJ),
      fun placed => (holds.2 placed).swap insideI insideJ⟩

/-- Where the exchanges start from: the queue is a rearrangement of itself, with the places that
it has. -/
theorem unmoved (pq : BlockPriorityQueue) : Rearranged pq pq ∧ (pq.Placed → pq.Placed) :=
  ⟨Rearranged.refl pq, id⟩

/-! ## The heights -/

/-- Blocks, slice, comparator, capacity, flag and memory are the same. -/
structure SameBlocks (before after : BlockPriorityQueue) : Prop where
  cell : after.cell = before.cell
  bh : after.bh = before.bh
  allocated : after.allocated = before.allocated
  capacity : after.capacity = before.capacity
  needsReheap : after.needsReheap = before.needsReheap
  lessFn : after.lessFn = before.lessFn

/-- Queues that have the same blocks as a third one have the same blocks as each other. -/
theorem SameBlocks.trans {first second third : BlockPriorityQueue}
    (front : SameBlocks first second) (back : SameBlocks second third) :
    SameBlocks first third where
  cell := back.cell.trans front.cell
  bh := back.bh.trans front.bh
  allocated := back.allocated.trans front.allocated
  capacity := back.capacity.trans front.capacity
  needsReheap := back.needsReheap.trans front.needsReheap
  lessFn := back.lessFn.trans front.lessFn

/-- Queues that have the same blocks are rearrangements of each other. -/
theorem SameBlocks.rearranged {before after : BlockPriorityQueue}
    (same : SameBlocks before after) : Rearranged before after where
  bh := same.bh ▸ List.Perm.refl _
  cells _ := by rw [same.cell]
  outside _ _ := by rw [same.cell]
  allocated := same.allocated
  capacity := same.capacity
  needsReheap := same.needsReheap
  lessFn := same.lessFn

/-- The block at a position is the same in queues that have the same blocks. -/
theorem SameBlocks.block {before after : BlockPriorityQueue} (same : SameBlocks before after)
    (i : Nat) : after.block i = before.block i := by
  rw [BlockPriorityQueue.block, BlockPriorityQueue.block, ref, ref, same.cell, same.bh]

/-- Blocks that record their places do so in any queue that has the same blocks. -/
theorem SameBlocks.placed {before after : BlockPriorityQueue} (same : SameBlocks before after)
    (placed : before.Placed) : after.Placed := by
  intro i inside
  rw [same.block]
  exact placed i (same.bh ▸ inside)

/-- The order of the slice is that of any queue that has the same blocks. -/
theorem SameBlocks.ordered {before after : BlockPriorityQueue} (same : SameBlocks before after)
    (ordered : Heap.Ordered blockHeap before) : Heap.Ordered blockHeap after := by
  intro k positive inside
  change k < after.bh.length at inside
  rw [same.bh] at inside
  have known := ordered k positive inside
  change after.lessFn (after.block _) (after.block _) = false
  rw [same.lessFn, same.block, same.block]
  exact known

/-- `updateMinMax` changes the bounds of the heights only, and none of the blocks. -/
theorem updateMinMax_same (h : UInt32) (pq : BlockPriorityQueue) :
    SameBlocks pq (pq.updateMinMax h) := ⟨rfl, rfl, rfl, rfl, rfl, rfl⟩

/-- `RescanMinMax` changes the bounds of the heights only, however many blocks it goes through. -/
theorem rescanMinMax_same (pq : BlockPriorityQueue) : SameBlocks pq pq.rescanMinMax := by
  have scan : ∀ (refs : List Ref) (start : BlockPriorityQueue), SameBlocks start
      (refs.foldl (fun pq ref => pq.updateMinMax (pq.cell ref).summary.height) start) := by
    intro refs
    induction refs with
    | nil => exact fun start => ⟨rfl, rfl, rfl, rfl, rfl, rfl⟩
    | cons ref rest inductionHypothesis =>
      exact fun start => (updateMinMax_same _ start).trans (inductionHypothesis _)
  exact scan pq.bh pq

/-- `RescanMinMaxForRemove` changes the bounds of the heights only, whether it rescans or not. -/
theorem rescanMinMaxForRemove_same (height : UInt32) (pq : BlockPriorityQueue) :
    SameBlocks pq (pq.rescanMinMaxForRemove height) := by
  unfold rescanMinMaxForRemove
  split
  · exact rescanMinMax_same pq
  · exact ⟨rfl, rfl, rfl, rfl, rfl, rfl⟩

/-- `RescanMinMaxForUpdate` changes the bounds of the heights only, whether it rescans or not. -/
theorem rescanMinMaxForUpdate_same (heightAdd heightRemove : UInt32) (pq : BlockPriorityQueue) :
    SameBlocks pq (pq.rescanMinMaxForUpdate heightAdd heightRemove) := by
  simp only [rescanMinMaxForUpdate]
  split
  · exact (rescanMinMax_same pq).trans (updateMinMax_same _ _)
  · exact updateMinMax_same _ _

/-! ## Operations -/

/-- `Reheap` rearranges the queue and lowers the flag that asks for it, and the blocks record
their new places. -/
theorem reheap_rearranged (pq : BlockPriorityQueue) :
    Rearranged { pq with needsReheap := false } pq.reheap ∧ (pq.Placed → pq.reheap.Placed) :=
  (Heap.init_keeps laws.len_swap (keptBySwaps { pq with needsReheap := false })
    (unmoved _)).1

/-- `Reheap` puts a valid queue in the order of a heap, whatever the order of the slice was
before. -/
theorem reheap_ordered {pq : BlockPriorityQueue} (isValid : pq.Valid) :
    Heap.Ordered blockHeap pq.reheap :=
  Heap.init_orders laws (show Valid { pq with needsReheap := false } from
    ⟨isValid.order, isValid.inMemory⟩)

/-- A change of the data of a block shows at its position only. -/
theorem block_modify {pq : BlockPriorityQueue} (placed : pq.Placed) {i k : Nat}
    (insideI : i < pq.bh.length) (insideK : k < pq.bh.length) (different : k ≠ i)
    (change : CachedBlock → CachedBlock) :
    (pq.modify (pq.ref i) change).block k = pq.block k := by
  have apart : pq.ref k ≠ pq.ref i :=
    fun same => different (placed.ref_injective insideK insideI same)
  change (Function.update pq.cell (pq.ref i) _) (pq.ref k) = _
  rw [Function.update_of_ne apart]
  rfl

/-- A change that keeps the heap index keeps every block at its position. -/
theorem Placed.modify {pq : BlockPriorityQueue} (placed : pq.Placed) (target : Ref)
    {change : CachedBlock → CachedBlock} (keeps : ∀ b, (change b).heapIdx = b.heapIdx) :
    (pq.modify target change).Placed := by
  intro k inside
  have known := placed k inside
  change ((Function.update pq.cell target _) (pq.ref k)).heapIdx = k
  by_cases same : pq.ref k = target
  · rw [same, Function.update_self, keeps, ← same]
    exact known
  · rw [Function.update_of_ne same]
    exact known

/-- The block that `UpdateBlock` makes of a queued one: another summary, with one access now, at
the same place. -/
def renewed (summary : BlockDataBasic) (now : Int64) (b : CachedBlock) : CachedBlock :=
  ⟨summary, 1, now, b.heapIdx⟩

/-- `UpdateBlock` of a queued block changes its data and rearranges the queue. -/
theorem updateBlock_rearranged {pq : BlockPriorityQueue} (placed : pq.Placed)
    {i : Nat} (inside : i < pq.bh.length) (summary : BlockDataBasic) (now : Int64) :
    Rearranged (pq.modify (pq.ref i) (renewed summary now))
        (pq.updateBlock (some (pq.ref i)) summary now) ∧
      (pq.updateBlock (some (pq.ref i)) summary now).Placed ∧
      SameBlocks (Heap.fix blockHeap i (pq.modify (pq.ref i) (renewed summary now)))
        (pq.updateBlock (some (pq.ref i)) summary now) := by
  have written : ((pq.modify (pq.ref i) fun b => { b with summary := summary, accesses := 0 }).modify
      (pq.ref i) (CachedBlock.access now)) = pq.modify (pq.ref i) (renewed summary now) := by
    simp only [modify, Function.update_self, Function.update_idem]
    rfl
  have index : ((pq.modify (pq.ref i) (renewed summary now)).cell (pq.ref i)).heapIdx = i := by
    simp only [modify, Function.update_self, renewed]
    exact placed i inside
  have insideNext : i < blockHeap.len (pq.modify (pq.ref i) (renewed summary now)) := inside
  have kept := (Heap.fix_keeps laws.len_swap (keptBySwaps _) insideNext
    (unmoved (pq.modify (pq.ref i) (renewed summary now)))).1
  have fixed : (pq.modify (pq.ref i) (renewed summary now)).fixAt i =
      Heap.fix blockHeap i (pq.modify (pq.ref i) (renewed summary now)) := by
    simp [fixAt]
  have same : SameBlocks (Heap.fix blockHeap i (pq.modify (pq.ref i) (renewed summary now)))
      (pq.updateBlock (some (pq.ref i)) summary now) := by
    simp only [updateBlock, written, index, fixed]
    have scanned := rescanMinMaxForUpdate_same summary.height (pq.cell (pq.ref i)).summary.height
      (Heap.fix blockHeap i (pq.modify (pq.ref i) (renewed summary now)))
    exact ⟨scanned.cell, scanned.bh, scanned.allocated, scanned.capacity, scanned.needsReheap,
      scanned.lessFn⟩
  exact ⟨kept.1.trans same.rearranged, same.placed (kept.2 (placed.modify _ fun _ => rfl)), same⟩

/-- `UpdateBlock` keeps the order of the slice: the changed block moves up or down until it is in
order again. -/
theorem updateBlock_ordered {pq : BlockPriorityQueue} (isValid : pq.Valid) (placed : pq.Placed)
    {i : Nat} (inside : i < pq.bh.length) (summary : BlockDataBasic) (now : Int64)
    (ordered : Heap.Ordered blockHeap pq) :
    Heap.Ordered blockHeap (pq.updateBlock (some (pq.ref i)) summary now) := by
  have same := (updateBlock_rearranged placed inside summary now).2.2
  refine same.ordered ?_
  have isValidNext : Valid (pq.modify (pq.ref i) (renewed summary now)) :=
    ⟨isValid.order, isValid.inMemory⟩
  have unchanged : ∀ a b, a < pq.bh.length → b < pq.bh.length → a ≠ i → b ≠ i →
      (pq.modify (pq.ref i) (renewed summary now)).less a b = pq.less a b := by
    intro a b insideA insideB notA notB
    rw [less, block_modify placed inside insideA notA, block_modify placed inside insideB notB]
    rfl
  refine Heap.fix_orders laws isValidNext inside ?_ ?_
  · intro k positive insideK _ apart
    have above := Heap.parent_le k
    have insideParent : Heap.parent k < pq.bh.length := Nat.lt_of_le_of_lt above insideK
    refine (unchanged k (Heap.parent k) insideK insideParent ?_ ?_).trans
      (ordered k positive insideK)
    · exact fun isI => apart (Or.inl isI)
    · exact fun isI => apart (Or.inr isI)
  · intro positiveI _ k positive insideK isChild
    have before : Heap.parent i < i := by
      unfold Heap.parent
      omega
    have after : i < k := by
      unfold Heap.parent at isChild
      omega
    refine (unchanged k (Heap.parent i) insideK (by omega) (by omega) (by omega)).trans ?_
    have lower := ordered k positive insideK
    rw [isChild] at lower
    exact laws.not_less_trans isValid lower (ordered i positiveI inside)

/-- `heap.Push` rearranges the slice with the new block at its end. -/
theorem push_rearranged {pq : BlockPriorityQueue} (inMemory : pq.InMemory)
    (pushed : BlockDataBasic × Int64) :
    Rearranged (pq.push pushed) (Heap.push blockHeap pushed pq) ∧
      (pq.Placed → (Heap.push blockHeap pushed pq).Placed) := by
  have grown : 0 < blockHeap.len (blockHeap.push pushed pq) := by
    rw [laws.len_push]
    exact Nat.succ_pos _
  have kept := (Heap.push_keeps laws.len_swap (keptBySwaps (pq.push pushed)) grown
    (unmoved _)).1
  refine ⟨kept.1, fun placed => kept.2 fun i inside => ?_⟩
  by_cases old : i < pq.bh.length
  · rw [block_push inMemory pushed old]
    exact placed i old
  · have isLast : i = pq.bh.length := by
      have length : (pq.push pushed).bh.length = pq.bh.length + 1 := laws.len_push pushed pq
      omega
    subst isLast
    simp [block, ref, push, alloc, updateMinMax, len]

/-- Exchanges below a position leave the pointer at that position. -/
theorem ref_keptBelow (n : Nat) (target : Ref) :
    Heap.KeptBelow blockHeap n fun after : BlockPriorityQueue =>
      n < after.bh.length → after.ref n = target := by
  intro i j pq insideI insideJ bound holds stillInside
  have inside : n < pq.bh.length := Nat.lt_of_lt_of_eq stillInside List.length_swap
  have apart : Equiv.swap i j n = n :=
    Equiv.swap_apply_of_ne_of_ne (Nat.ne_of_gt insideI) (Nat.ne_of_gt insideJ)
  refine (ref_swap pq (Nat.lt_of_lt_of_le insideI bound) (Nat.lt_of_lt_of_le insideJ bound) n).trans
    ?_
  rw [apart]
  exact holds inside

/-- `heap.Remove` exchanges blocks until the block comes last, and cuts it off. -/
theorem remove_last {property : BlockPriorityQueue → Prop}
    (swapped : Heap.KeptBySwaps blockHeap property) {pq : BlockPriorityQueue} {i : Nat}
    (inside : i < pq.bh.length) (holds : property pq) :
    ∃ middle, property middle ∧ middle.bh.length = pq.bh.length ∧
      middle.ref (pq.bh.length - 1) = pq.ref i ∧ Heap.remove blockHeap i pq = middle.pop := by
  have nonempty : pq.bh.length - 1 < pq.bh.length := by omega
  have kept : Heap.KeptBelow blockHeap (pq.bh.length - 1) fun after => property after ∧
      (pq.bh.length - 1 < after.bh.length → after.ref (pq.bh.length - 1) = pq.ref i) :=
    fun a b state insideA insideB bound holds =>
      ⟨swapped.below _ a b state insideA insideB bound holds.1,
        ref_keptBelow _ (pq.ref i) a b state insideA insideB bound holds.2⟩
  obtain ⟨middle, ⟨still, last⟩, length, removed⟩ :=
    Heap.remove_keeps laws.len_swap kept inside
      (fun isLast => ⟨holds, fun _ => congrArg pq.ref isLast⟩)
      (fun _ => ⟨swapped i _ pq inside nonempty holds, fun _ =>
        (ref_swap pq inside nonempty _).trans (congrArg pq.ref (Equiv.swap_apply_right _ _))⟩)
  exact ⟨middle, still, length, last (Nat.lt_of_lt_of_eq nonempty length.symm), removed⟩

/-- The other blocks stay at their positions when the last one is cut off. -/
theorem Placed.pop {pq : BlockPriorityQueue} (placed : pq.Placed) : pq.pop.Placed := by
  intro i inside
  have shorter : i < pq.bh.length - 1 := by
    rw [← List.length_dropLast]
    exact inside
  have apart : pq.ref i ≠ pq.ref (pq.len - 1) := by
    intro same
    have position := placed.ref_injective (by omega) (show pq.len - 1 < pq.bh.length by
      unfold len
      omega) same
    unfold len at position
    omega
  rw [block, ref_pop pq shorter]
  refine (congrArg CachedBlock.heapIdx (place_other apart _ _)).trans ?_
  exact placed i (by omega)

/-- A lookup counts one more access of the block it found. -/
theorem lookedUp_same (pq : BlockPriorityQueue) (ref : Ref) (clock : Clock) :
    (pq.lookedUp ref clock).cell ref = (pq.cell ref).access (clock 0) :=
  Function.update_self ..

/-- A lookup changes the access data of its block and leaves the other blocks as they are. -/
theorem lookedUp_other (pq : BlockPriorityQueue) {ref other : Ref} (different : other ≠ ref)
    (clock : Clock) : (pq.lookedUp ref clock).cell other = pq.cell other :=
  Function.update_of_ne different ..

/-- The record of the map for a new block is a block that was accessed once, now. -/
theorem withRecord_new (pq : BlockPriorityQueue) (summary : BlockDataBasic) (now : Int64) :
    (pq.withRecord summary now).cell pq.allocated = ⟨summary, 1, now, -1⟩ := by
  simp only [withRecord, modify, alloc, Function.update_self]
  rfl

/-- The blocks that were in memory before are as they were. -/
theorem withRecord_old {pq : BlockPriorityQueue} (summary : BlockDataBasic) (now : Int64)
    {ref : Ref} (old : ref < pq.allocated) : (pq.withRecord summary now).cell ref = pq.cell ref := by
  have different := Nat.ne_of_lt old
  simp only [withRecord, modify, alloc, Function.update_of_ne different]

section Insert
variable {newHashFromStr : String → Option Hash} {summary : BlockDataBasic} {clock : Clock}
  {pq : BlockPriorityQueue}

/-- A full queue has a first block, unless it may hold none. -/
theorem full_nonempty (some_ : pq.capacity ≠ 0) (isFull : pq.full = true) : 0 < pq.bh.length := by
  have bound : pq.capacity.toNat ≤ pq.bh.length := of_decide_eq_true isFull
  have positive : 0 < pq.capacity.toNat :=
    Nat.pos_of_ne_zero fun zero => some_ (UInt32.toNat.inj zero)
  omega

/-- A full queue refuses a block that its first block is not below. -/
theorem insert_refused (isFull : pq.full = true)
    (notBelow : pq.lessFn (pq.block 0) ⟨summary, 1, clock 0, 0⟩ = false) :
    pq.insert newHashFromStr summary clock = ((false, none), pq) := by
  by_cases none_ : pq.capacity = 0
  · simp only [insert, none_, if_true]
  · simp only [insert, none_, isFull, notBelow, if_true, if_false, Bool.false_eq_true]

/-- Otherwise the new block takes the place of the first one. -/
theorem insert_replaced (some_ : pq.capacity ≠ 0) (isFull : pq.full = true)
    (below : pq.lessFn (pq.block 0) ⟨summary, 1, clock 0, 0⟩ = true) :
    (pq.insert newHashFromStr summary clock).1 =
        (true, newHashFromStr (pq.block 0).summary.hash) ∧
      SameBlocks (pq.updateBlock (some (pq.ref 0)) summary (clock 1))
        (pq.insert newHashFromStr summary clock).2 := by
  simp only [insert, some_, isFull, below, if_true, if_false, true_and]
  split
  · exact ⟨rfl, rfl, rfl, rfl, rfl, rfl⟩
  · exact ⟨rfl, rfl, rfl, rfl, rfl, rfl⟩

/-- A queue with room takes the new block, which is pushed onto the heap, and nothing leaves it. -/
theorem insert_pushed (room : pq.full = false) :
    (pq.insert newHashFromStr summary clock).1 = (true, none) ∧
      SameBlocks (Heap.push blockHeap (summary, clock 0) pq)
        (pq.insert newHashFromStr summary clock).2 := by
  have some_ : pq.capacity ≠ 0 := by
    intro none
    simp [full, none] at room
  simp only [insert, some_, room, if_false, Bool.false_eq_true, true_and]
  exact ⟨rfl, rfl, rfl, rfl, rfl, rfl⟩

/-- A pointer has received a block, the other blocks keep their data, and those that
are not queued their place. -/
structure Received (before after : BlockPriorityQueue) (ref : Ref) (b : CachedBlock) : Prop where
  block : (after.cell ref).unplaced = b.unplaced
  others : ∀ other, other ≠ ref → (after.cell other).unplaced = (before.cell other).unplaced
  outside : ∀ other, other ≠ ref → other ∉ before.bh → after.cell other = before.cell other
  capacity : after.capacity = before.capacity
  needsReheap : after.needsReheap = before.needsReheap
  lessFn : after.lessFn = before.lessFn

/-- A block in the place of the first one: its pointer receives the new block. -/
theorem insert_replaced_received (placed : pq.Placed) (some_ : pq.capacity ≠ 0)
    (isFull : pq.full = true) (below : pq.lessFn (pq.block 0) ⟨summary, 1, clock 0, 0⟩ = true) :
    Received pq (pq.insert newHashFromStr summary clock).2 (pq.ref 0) ⟨summary, 1, clock 1, 0⟩ ∧
      (pq.insert newHashFromStr summary clock).2.bh.Perm pq.bh ∧
      (pq.insert newHashFromStr summary clock).2.allocated = pq.allocated ∧
      (pq.insert newHashFromStr summary clock).2.Placed := by
  have same : SameBlocks _ (pq.insert newHashFromStr summary clock).2 :=
    (insert_replaced some_ isFull below).2
  have inside := full_nonempty some_ isFull
  obtain ⟨rearranged, stillPlaced, -⟩ := updateBlock_rearranged placed inside summary (clock 1)
  have moved := rearranged.trans same.rearranged
  refine ⟨⟨?_, ?_, ?_, moved.capacity, moved.needsReheap, moved.lessFn⟩, moved.bh,
    moved.allocated, same.placed stillPlaced⟩
  · rw [moved.cells]
    simp [modify, renewed, CachedBlock.unplaced]
  · intro other different
    rw [moved.cells]
    simp [modify, different]
  · intro other different absent
    rw [moved.outside other absent]
    simp [modify, different]

/-- A block in a queue with room: the next pointer receives it. -/
theorem insert_pushed_received (inMemory : pq.InMemory) (placed : pq.Placed)
    (room : pq.full = false) :
    Received pq (pq.insert newHashFromStr summary clock).2 pq.allocated ⟨summary, 1, clock 0, 0⟩ ∧
      (pq.insert newHashFromStr summary clock).2.bh.Perm (pq.bh ++ [pq.allocated]) ∧
      (pq.insert newHashFromStr summary clock).2.allocated = pq.allocated + 1 ∧
      (pq.insert newHashFromStr summary clock).2.Placed := by
  have same : SameBlocks _ (pq.insert newHashFromStr summary clock).2 := (insert_pushed room).2
  obtain ⟨rearranged, stillPlaced⟩ := push_rearranged inMemory (summary, clock 0)
  have moved := rearranged.trans same.rearranged
  refine ⟨⟨?_, ?_, ?_, moved.capacity, moved.needsReheap, moved.lessFn⟩, moved.bh,
    moved.allocated, same.placed (stillPlaced placed)⟩
  · rw [moved.cells]
    simp [push, alloc, updateMinMax, CachedBlock.unplaced]
  · intro other different
    rw [moved.cells]
    simp [push, alloc, updateMinMax, different]
  · intro other different absent
    have notQueued : other ∉ (pq.push (summary, clock 0)).bh := by
      intro member
      rcases List.mem_append.mp member with queued | new
      · exact absent queued
      · exact different (List.mem_singleton.mp new)
    rw [moved.outside other notQueued]
    simp [push, alloc, updateMinMax, different]

/-- A queue that may hold no block refuses every block. -/
theorem insert_none (none_ : pq.capacity = 0) :
    pq.insert newHashFromStr summary clock = ((false, none), pq) := by
  unfold insert
  rw [if_pos none_]

end Insert

/-- The loop of `ResetHeap` writes the position of each block it is given, once, and
leaves slice, comparator and memory. -/
theorem resetFrom_places (now : Int64) (refs : List Ref) :
    ∀ (i : Nat) (pq : BlockPriorityQueue), refs.Nodup →
      (∀ k < refs.length, ((resetFrom now i refs pq).cell (refs.getD k 0)).heapIdx = (i + k : Nat)) ∧
        (∀ ref, ref ∉ refs → (resetFrom now i refs pq).cell ref = pq.cell ref) ∧
        (resetFrom now i refs pq).lessFn = pq.lessFn ∧
        (resetFrom now i refs pq).allocated = pq.allocated := by
  induction refs with
  | nil => exact fun _ _ _ => ⟨fun _ inside => absurd inside (Nat.not_lt_zero _), fun _ _ => rfl, rfl, rfl⟩
  | cons ref rest inductionHypothesis =>
    intro i pq distinct
    obtain ⟨fresh, distinctRest⟩ := List.nodup_cons.mp distinct
    obtain ⟨placed, outside, lessFn, allocated⟩ := inductionHypothesis (i + 1)
      ((pq.updateMinMax (pq.cell ref).summary.height).modify ref fun b =>
        { b with heapIdx := i, accesses := 1, accessTime := now }) distinctRest
    refine ⟨fun k inside => ?_, fun other absent => ?_, lessFn, allocated⟩
    · cases k with
      | zero =>
        refine (congrArg CachedBlock.heapIdx (outside ref fresh)).trans ?_
        simp [modify]
      | succ k =>
        refine (placed k (by simpa using inside)).trans ?_
        omega
    · have apart : other ≠ ref := fun same => absent (same ▸ List.mem_cons_self)
      refine (outside other fun member => absent (List.mem_cons_of_mem _ member)).trans ?_
      simp [modify, updateMinMax, apart]

/-- `ResetHeap` with each block once leaves an ordered queue with the flag down. -/
theorem resetHeap_spec {pq : BlockPriorityQueue} (order : WeakOrder pq.lessFn) {refs : List Ref}
    (distinct : refs.Nodup) (inMemory : ∀ ref ∈ refs, ref < pq.allocated) (now : Int64) :
    (pq.resetHeap refs now).Valid ∧ (pq.resetHeap refs now).Placed ∧
      Heap.Ordered blockHeap (pq.resetHeap refs now) := by
  obtain ⟨placed, -, lessFn, allocated⟩ := resetFrom_places now refs 0
    { pq with maxHeight := -1, minHeight := 4294967295 } distinct
  generalize written : resetFrom now 0 refs { pq with maxHeight := -1, minHeight := 4294967295 } =
    reset at placed lessFn allocated
  have isValid : Valid { reset with bh := refs, needsReheap := false } := by
    refine ⟨?_, fun ref member => ?_⟩
    · exact lessFn.symm ▸ order
    · exact Nat.lt_of_lt_of_eq (inMemory ref member) allocated.symm
  have isPlaced : Placed { reset with bh := refs, needsReheap := false } := by
    intro k inside
    have known := placed k inside
    rw [Nat.zero_add] at known
    exact known
  have kept := (Heap.init_keeps laws.len_swap (keptBySwaps _)
    (unmoved { reset with bh := refs, needsReheap := false })).1
  have result : pq.resetHeap refs now =
      Heap.init blockHeap { reset with bh := refs, needsReheap := false } := by
    simp only [resetHeap, written]
  rw [result]
  exact ⟨isValid.rearranged kept.1, kept.2 isPlaced, Heap.init_orders laws isValid⟩

end BlockPriorityQueue

end Hcexplorer.Hcdataapi

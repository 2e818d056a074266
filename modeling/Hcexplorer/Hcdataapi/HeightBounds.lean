import Hcexplorer.Hcdataapi.QueueOrder

/-!
# The height bounds of the expiration queue

`minHeight` and `maxHeight` are extended by every height that comes. `RescanMinMax` goes
through the queue but begins with the old bounds, so they are never narrowed: a block at a
bound that leaves the queue is remembered, unless another queued block has its height or a
new one takes its place at the bound.

The law says exactly that of every run. It needs no order of the slice, so any comparator
will do, and a fresh queue may list a block several times.
-/

namespace Hcexplorer.Hcdataapi

open Runs BlockPriorityQueue

/-! ## Bounds of a list -/

/-- The bounds are the lowest and the highest of the heights, or those of an empty queue. -/
structure Tight (heights : List Int) (lo hi : Int) : Prop where
  empty : heights = [] → lo = 4294967295 ∧ hi = -1
  attained : heights ≠ [] → lo ∈ heights ∧ hi ∈ heights
  within : ∀ h ∈ heights, lo ≤ h ∧ h ≤ hi

/-- The height of a block is one that the type of heights, an unsigned integer of 32 bits, can
hold. -/
def inRange (h : Int) : Prop := 0 ≤ h ∧ h ≤ 4294967295

namespace Tight
variable {heights others stay : List Int} {lo hi h left : Int}

/-- Order and repetition of the heights make no difference. -/
theorem congr (same : ∀ x, x ∈ heights ↔ x ∈ others) :
    Tight heights lo hi ↔ Tight others lo hi := by
  have empty : heights = [] ↔ others = [] := by
    rw [List.eq_nil_iff_forall_not_mem, List.eq_nil_iff_forall_not_mem]
    exact forall_congr' fun x => not_congr (same x)
  constructor
  · intro tight
    exact ⟨fun none => tight.empty (empty.mpr none),
      fun some_ => (tight.attained (some_ ∘ empty.mp)).imp (same lo).mp (same hi).mp,
      fun h member => tight.within h ((same h).mpr member)⟩
  · intro tight
    exact ⟨fun none => tight.empty (empty.mp none),
      fun some_ => (tight.attained (some_ ∘ empty.mpr)).imp (same lo).mpr (same hi).mpr,
      fun h member => tight.within h ((same h).mp member)⟩

/-- A height that comes extends tight bounds to tight bounds: the smaller of the low ones and the
greater of the high ones. -/
theorem add (tight : Tight heights lo hi) (range : inRange h) :
    Tight (h :: heights) (min lo h) (max hi h) := by
  unfold inRange at range
  refine ⟨(fun absurd => by cases absurd), fun _ => ?_, fun x member => ?_⟩
  · cases heights with
    | nil =>
      obtain ⟨rfl, rfl⟩ := tight.empty rfl
      simp only [List.mem_singleton]
      omega
    | cons first rest =>
      obtain ⟨lowest, highest⟩ := tight.attained (List.cons_ne_nil _ _)
      constructor
      · rcases Int.le_total lo h with below | above
        · rw [Int.min_eq_left below]
          exact List.mem_cons_of_mem _ lowest
        · rw [Int.min_eq_right above]
          exact List.mem_cons_self
      · rcases Int.le_total hi h with below | above
        · rw [Int.max_eq_right below]
          exact List.mem_cons_self
        · rw [Int.max_eq_left above]
          exact List.mem_cons_of_mem _ highest
  · rcases List.mem_cons.mp member with rfl | old
    · omega
    · have known := tight.within x old
      omega

/-- When a height leaves, the old bounds fit exactly if it was at no bound alone. -/
theorem remove_iff (tight : Tight (left :: stay) lo hi) (some_ : stay ≠ []) :
    Tight stay lo hi ↔ (left = lo → lo ∈ stay) ∧ (left = hi → hi ∈ stay) := by
  constructor
  · intro still
    exact ⟨fun _ => (still.attained some_).1, fun _ => (still.attained some_).2⟩
  · rintro ⟨atLow, atHigh⟩
    obtain ⟨lowest, highest⟩ := tight.attained (List.cons_ne_nil _ _)
    refine ⟨fun none => absurd none some_, fun _ => ⟨?_, ?_⟩, fun x member =>
      tight.within x (List.mem_cons_of_mem _ member)⟩
    · rcases List.mem_cons.mp lowest with same | stays
      · exact atLow same.symm
      · exact stays
    · rcases List.mem_cons.mp highest with same | stays
      · exact atHigh same.symm
      · exact stays

/-- When another height takes its place, the extended bounds fit exactly if it was at no
bound alone, or the other one is there or beyond. -/
theorem replace_iff (tight : Tight (left :: stay) lo hi) :
    Tight (h :: stay) (min lo h) (max hi h) ↔
      (left = lo → lo ∈ stay ∨ h ≤ lo) ∧ (left = hi → hi ∈ stay ∨ hi ≤ h) := by
  obtain ⟨lowest, highest⟩ := tight.attained (List.cons_ne_nil _ _)
  constructor
  · intro still
    obtain ⟨lowestNow, highestNow⟩ := still.attained (List.cons_ne_nil _ _)
    constructor
    · rintro -
      rcases Int.le_total h lo with below | above
      · exact Or.inr below
      · rw [Int.min_eq_left above] at lowestNow
        rcases List.mem_cons.mp lowestNow with same | stays
        · exact Or.inr same.ge
        · exact Or.inl stays
    · rintro -
      rcases Int.le_total h hi with below | above
      · rw [Int.max_eq_left below] at highestNow
        rcases List.mem_cons.mp highestNow with same | stays
        · exact Or.inr same.le
        · exact Or.inl stays
      · exact Or.inr above
  · rintro ⟨atLow, atHigh⟩
    refine ⟨(fun absurd => by cases absurd), fun _ => ⟨?_, ?_⟩, fun x member => ?_⟩
    · rcases Int.le_total h lo with below | above
      · rw [Int.min_eq_right below]
        exact List.mem_cons_self
      · rw [Int.min_eq_left above]
        rcases List.mem_cons.mp lowest with same | stays
        · rcases atLow same.symm with stays | below
          · exact List.mem_cons_of_mem _ stays
          · exact Int.le_antisymm above below ▸ List.mem_cons_self
        · exact List.mem_cons_of_mem _ stays
    · rcases Int.le_total h hi with below | above
      · rw [Int.max_eq_left below]
        rcases List.mem_cons.mp highest with same | stays
        · rcases atHigh same.symm with stays | above
          · exact List.mem_cons_of_mem _ stays
          · exact Int.le_antisymm above below ▸ List.mem_cons_self
        · exact List.mem_cons_of_mem _ stays
      · rw [Int.max_eq_right above]
        exact List.mem_cons_self
    · rcases List.mem_cons.mp member with rfl | stays
      · omega
      · have known := tight.within x (List.mem_cons_of_mem _ stays)
        omega

end Tight

/-! ## The queue -/

namespace BlockPriorityQueue

/-- The height of the block at an address, as an integer, since the bounds begin below zero. -/
def heightOf (pq : BlockPriorityQueue) (ref : Ref) : Int := (pq.cell ref).summary.height.toNat

/-- The height of any block is one that a height can be. -/
theorem heightOf_inRange (pq : BlockPriorityQueue) (ref : Ref) : inRange (pq.heightOf ref) := by
  have small := (pq.cell ref).summary.height.toNat_lt
  unfold inRange heightOf
  omega

/-- `minHeight` and `maxHeight` are the lowest and the highest height of the queued blocks,
or the sentinels of an empty queue. -/
def Bounded (pq : BlockPriorityQueue) : Prop :=
  Tight (pq.bh.map pq.heightOf) pq.minHeight pq.maxHeight

/-- A heap index is no position, or one where the block is. -/
def Pointing (pq : BlockPriorityQueue) : Prop :=
  ∀ ref ∈ pq.bh, ∀ k : Nat, (pq.cell ref).heapIdx = k → k < pq.bh.length ∧ pq.ref k = ref

/-- The queue is rearranged, and its bounds are as they were. -/
structure Shuffled (before after : BlockPriorityQueue) : Prop where
  rearranged : Rearranged before after
  pointing : before.Pointing → after.Pointing
  minHeight : after.minHeight = before.minHeight
  maxHeight : after.maxHeight = before.maxHeight

/-- A queue is a shuffled copy of itself. -/
theorem Shuffled.refl (pq : BlockPriorityQueue) : Shuffled pq pq :=
  ⟨Rearranged.refl pq, id, rfl, rfl⟩

/-- An exchange writes the indexes of the two blocks, each of which is at its new position. -/
theorem Pointing.swap {pq : BlockPriorityQueue} (pointing : pq.Pointing) {i j : Nat}
    (insideI : i < pq.bh.length) (insideJ : j < pq.bh.length) : (pq.swap i j).Pointing := by
  have refs := ref_swap pq insideI insideJ
  have length : (pq.swap i j).bh.length = pq.bh.length := List.length_swap
  intro ref member k index
  have queued : ref ∈ pq.bh := (List.swap_perm pq.bh i j).mem_iff.mp member
  rw [length]
  by_cases isJ : ref = (pq.swap i j).ref j
  · have written : ((pq.swap i j).cell ref).heapIdx = j := isJ ▸ place_same _ _ _
    obtain rfl : k = j := Int.ofNat.inj (index.symm.trans written)
    exact ⟨insideJ, isJ.symm⟩
  have unlessJ : (pq.swap i j).cell ref = (({ pq with bh := pq.bh.swap i j }).place
      ((pq.swap i j).ref i) i).cell ref := place_other isJ _ _
  by_cases isI : ref = (pq.swap i j).ref i
  · have written : ((pq.swap i j).cell ref).heapIdx = i := by
      rw [unlessJ]
      exact isI ▸ place_same _ _ _
    obtain rfl : k = i := Int.ofNat.inj (index.symm.trans written)
    exact ⟨insideI, isI.symm⟩
  · have same : (pq.swap i j).cell ref = pq.cell ref := unlessJ.trans (place_other isI _ _)
    rw [same] at index
    obtain ⟨inside, here⟩ := pointing ref queued k index
    have notI : k ≠ i := by
      rintro rfl
      exact isJ (by rw [refs, Equiv.swap_apply_right, here])
    have notJ : k ≠ j := by
      rintro rfl
      exact isI (by rw [refs, Equiv.swap_apply_left, here])
    exact ⟨inside, by rw [refs, Equiv.swap_apply_of_ne_of_ne notI notJ, here]⟩

/-- Exchanges of two positions shuffle the queue, so that every operation of the heap that only
exchanges does. -/
theorem shuffledBySwaps (before : BlockPriorityQueue) :
    Heap.KeptBySwaps blockHeap (Shuffled before) :=
  fun _ _ _ insideI insideJ shuffled =>
    ⟨shuffled.rearranged.trans (swap_rearranged insideI insideJ),
      fun pointing => (shuffled.pointing pointing).swap insideI insideJ,
      shuffled.minHeight, shuffled.maxHeight⟩

/-- The heights of some pointers where the blocks keep their data. -/
theorem heightOf_rearranged {before after : BlockPriorityQueue} (moved : Rearranged before after) :
    after.heightOf = before.heightOf := by
  funext ref
  have same := congrArg (fun b => b.summary.height) (moved.cells ref)
  exact congrArg (fun height : UInt32 => (height.toNat : Int)) same

/-- A shuffled queue is bounded exactly when it was bounded before, since it has the same heights
and bounds. -/
theorem Shuffled.bounded_iff {before after : BlockPriorityQueue} (shuffled : Shuffled before after) :
    after.Bounded ↔ before.Bounded := by
  unfold Bounded
  rw [heightOf_rearranged shuffled.rearranged, shuffled.minHeight, shuffled.maxHeight]
  exact Tight.congr fun x => (shuffled.rearranged.bh.map before.heightOf).mem_iff

/-! ## The bounds -/

/-- `updateMinMax` extends the two bounds by a height, up or down. -/
theorem updateMinMax_bounds (h : UInt32) (pq : BlockPriorityQueue) :
    (pq.updateMinMax h).minHeight = min pq.minHeight h.toNat ∧
      (pq.updateMinMax h).maxHeight = max pq.maxHeight h.toNat := by
  simp only [updateMinMax]
  constructor
  · split <;> omega
  · split <;> omega

/-- A rescan extends the bounds, to nothing that is beyond every queued block. -/
theorem rescanMinMax_bounds {lo hi : Int} (pq : BlockPriorityQueue) (low : lo ≤ pq.minHeight)
    (high : pq.maxHeight ≤ hi) (within : ∀ ref ∈ pq.bh, lo ≤ pq.heightOf ref ∧ pq.heightOf ref ≤ hi) :
    (lo ≤ pq.rescanMinMax.minHeight ∧ pq.rescanMinMax.minHeight ≤ pq.minHeight) ∧
      (pq.maxHeight ≤ pq.rescanMinMax.maxHeight ∧ pq.rescanMinMax.maxHeight ≤ hi) := by
  have scan : ∀ (refs : List Ref) (start : BlockPriorityQueue), lo ≤ start.minHeight →
      start.maxHeight ≤ hi → (∀ ref ∈ refs, lo ≤ start.heightOf ref ∧ start.heightOf ref ≤ hi) →
      (lo ≤ (refs.foldl (fun pq ref => pq.updateMinMax (pq.cell ref).summary.height)
          start).minHeight ∧
        (refs.foldl (fun pq ref => pq.updateMinMax (pq.cell ref).summary.height)
          start).minHeight ≤ start.minHeight) ∧
      (start.maxHeight ≤ (refs.foldl (fun pq ref => pq.updateMinMax (pq.cell ref).summary.height)
          start).maxHeight ∧
        (refs.foldl (fun pq ref => pq.updateMinMax (pq.cell ref).summary.height)
          start).maxHeight ≤ hi) := by
    intro refs
    induction refs with
    | nil => exact fun start low high _ => ⟨⟨low, le_refl _⟩, ⟨le_refl _, high⟩⟩
    | cons ref rest inductionHypothesis =>
      intro start low high within
      have here := within ref List.mem_cons_self
      have bounds := updateMinMax_bounds (start.cell ref).summary.height start
      have later := inductionHypothesis (start.updateMinMax (start.cell ref).summary.height)
        (by rw [bounds.1]; unfold heightOf at here; omega)
        (by rw [bounds.2]; unfold heightOf at here; omega)
        fun other member => within other (List.mem_cons_of_mem _ member)
      rw [bounds.1, bounds.2] at later
      simp only [List.foldl_cons]
      omega
  exact scan pq.bh pq low high within

/-- What every call keeps, whatever the bounds are: the queued pointers are allocated, and each
block knows its place. -/
structure Known (pq : BlockPriorityQueue) : Prop where
  inMemory : pq.InMemory
  pointing : pq.Pointing

/-- What every call keeps is kept by a shuffle. -/
theorem Known.shuffled {before after : BlockPriorityQueue} (known : before.Known)
    (shuffled : Shuffled before after) : after.Known where
  inMemory ref member := shuffled.rearranged.allocated ▸
    known.inMemory ref (shuffled.rearranged.bh.mem_iff.mp member)
  pointing := shuffled.pointing known.pointing

/-- A queue that differs in its heights only points as well. -/
theorem Known.sameBlocks {before after : BlockPriorityQueue} (known : before.Known)
    (same : SameBlocks before after) : after.Known where
  inMemory ref member := same.allocated ▸ known.inMemory ref (same.bh ▸ member)
  pointing ref member k index := by
    rw [same.bh] at member
    rw [same.cell] at index
    obtain ⟨inside, here⟩ := known.pointing ref member k index
    exact ⟨same.bh ▸ inside, by rw [BlockPriorityQueue.ref, same.bh]; exact here⟩

/-- Where two queues have the same blocks, the heights of their blocks are the same. -/
theorem heightOf_sameBlocks {before after : BlockPriorityQueue} (same : SameBlocks before after) :
    after.heightOf = before.heightOf := by
  funext ref
  rw [heightOf, heightOf, same.cell]

section Operations
variable {pq : BlockPriorityQueue}

/-! ## A new block at the end -/

/-- A push leaves the heights of the blocks that were there. -/
theorem heightOf_push (pushed : BlockDataBasic × Int64) {ref : Ref} (old : ref < pq.allocated) :
    (pq.push pushed).heightOf ref = pq.heightOf ref := by
  simp [heightOf, push, alloc, updateMinMax, Nat.ne_of_lt old]

/-- The pushed block has the height of its summary. -/
theorem heightOf_push_new (pushed : BlockDataBasic × Int64) :
    (pq.push pushed).heightOf pq.allocated = pushed.1.height.toNat := by
  simp [heightOf, push, alloc, updateMinMax]

/-- A push keeps what every call keeps. -/
theorem Known.push (known : pq.Known) (pushed : BlockDataBasic × Int64) : (pq.push pushed).Known := by
  refine ⟨fun ref member => ?_, fun ref member k index => ?_⟩
  · rcases List.mem_append.mp member with queued | new
    · exact Nat.lt_succ_of_lt (known.inMemory ref queued)
    · rw [List.mem_singleton.mp new]
      exact Nat.lt_succ_self _
  · have length : (pq.push pushed).bh.length = pq.bh.length + 1 := laws.len_push pushed pq
    rw [length]
    rcases List.mem_append.mp member with queued | new
    · have old := known.inMemory ref queued
      have same : (pq.push pushed).cell ref = pq.cell ref := by
        simp [BlockPriorityQueue.push, alloc, updateMinMax, Nat.ne_of_lt old]
      rw [same] at index
      obtain ⟨inside, here⟩ := known.pointing ref queued k index
      refine ⟨Nat.lt_succ_of_lt inside, Eq.trans ?_ here⟩
      exact List.getD_append _ _ _ _ inside
    · obtain rfl := List.mem_singleton.mp new
      have written : ((pq.push pushed).cell pq.allocated).heapIdx = pq.bh.length := by
        simp [BlockPriorityQueue.push, alloc, updateMinMax, len]
      obtain rfl : k = pq.bh.length := Int.ofNat.inj (index.symm.trans written)
      refine ⟨Nat.lt_succ_self _, ?_⟩
      simp [BlockPriorityQueue.ref, BlockPriorityQueue.push, alloc, updateMinMax]

/-- A push extends the bounds by the height of the new block, so a bounded queue stays bounded. -/
theorem bounded_push (known : pq.Known) (bounded : pq.Bounded) (pushed : BlockDataBasic × Int64) :
    (pq.push pushed).Bounded := by
  have bounds := updateMinMax_bounds pushed.1.height pq
  have added := Tight.add bounded ((pq.push pushed).heightOf_inRange pq.allocated)
  rw [heightOf_push_new] at added
  unfold Bounded
  have minHeight : (pq.push pushed).minHeight = min pq.minHeight pushed.1.height.toNat := bounds.1
  have maxHeight : (pq.push pushed).maxHeight = max pq.maxHeight pushed.1.height.toNat := bounds.2
  rw [minHeight, maxHeight]
  refine (Tight.congr fun x => ?_).mpr added
  have queue : (pq.push pushed).bh = pq.bh ++ [pq.allocated] := rfl
  have olds : pq.bh.map (pq.push pushed).heightOf = pq.bh.map pq.heightOf :=
    List.map_congr_left fun ref member => heightOf_push pushed (known.inMemory ref member)
  rw [queue, List.map_append, olds, List.map_singleton, heightOf_push_new, List.mem_append,
    List.mem_singleton, or_comm, List.mem_cons]

/-- Taking a height into the bounds that are within them already changes nothing. -/
theorem bounded_updateMinMax_again (bounded : pq.Bounded) {ref : Ref} (member : ref ∈ pq.bh) :
    (pq.updateMinMax (pq.cell ref).summary.height).Bounded := by
  have bounds := updateMinMax_bounds (pq.cell ref).summary.height pq
  have within := bounded.within _ (List.mem_map_of_mem member)
  unfold heightOf at within
  unfold Bounded
  rw [bounds.1, bounds.2, Int.min_eq_left within.1, Int.max_eq_left within.2]
  exact bounded

/-- `heap.Push` shuffles the queue with the new block at its end. -/
theorem push_shuffled (pushed : BlockDataBasic × Int64) :
    Shuffled (pq.push pushed) (Heap.push blockHeap pushed pq) := by
  have grown : 0 < blockHeap.len (blockHeap.push pushed pq) := by
    rw [laws.len_push]
    exact Nat.succ_pos _
  exact (Heap.push_keeps laws.len_swap (shuffledBySwaps (pq.push pushed)) grown
    (Shuffled.refl _)).1

/-! ## Another block at a pointer -/

/-- The pointers of the queue to other blocks than a given one. -/
def others (pq : BlockPriorityQueue) (ref : Ref) : List Ref := pq.bh.filter (· ≠ ref)

/-- The heights are that of the block and those of the others. -/
theorem heights_split {ref : Ref} (member : ref ∈ pq.bh) (x : Int) :
    x ∈ pq.bh.map pq.heightOf ↔ x ∈ pq.heightOf ref :: (pq.others ref).map pq.heightOf := by
  simp only [List.mem_map, List.mem_cons, others, List.mem_filter, decide_eq_true_eq]
  constructor
  · rintro ⟨other, queued, rfl⟩
    by_cases same : other = ref
    · exact Or.inl (congrArg pq.heightOf same)
    · exact Or.inr ⟨other, ⟨queued, same⟩, rfl⟩
  · rintro (rfl | ⟨other, ⟨queued, -⟩, rfl⟩)
    · exact ⟨ref, member, rfl⟩
    · exact ⟨other, queued, rfl⟩

/-- The renewed block has the height of the new summary. -/
theorem heightOf_renewed (ref : Ref) (summary : BlockDataBasic) (now : Int64) :
    (pq.modify ref (renewed summary now)).heightOf ref = summary.height.toNat := by
  simp [heightOf, modify, renewed]

/-- After the change of one block the heights are the new one and those of the others. -/
theorem heights_renewed {ref : Ref} (member : ref ∈ pq.bh) (summary : BlockDataBasic) (now : Int64)
    (x : Int) :
    x ∈ pq.bh.map (pq.modify ref (renewed summary now)).heightOf ↔
      x ∈ (summary.height.toNat : Int) :: (pq.others ref).map pq.heightOf := by
  have written : ref ∈ (pq.modify ref (renewed summary now)).bh := member
  have split := heights_split written x
  rw [heightOf_renewed] at split
  refine split.trans (iff_of_eq (congrArg _ (congrArg _ (List.map_congr_left fun other apart => ?_))))
  have different : other ≠ ref := by simpa using (List.mem_filter.mp apart).2
  simp [heightOf, modify, different]

/-- A write to a block that does not change its place keeps what every call keeps. -/
theorem Known.modify (known : pq.Known) (target : Ref) {change : CachedBlock → CachedBlock}
    (keeps : ∀ b, (change b).heapIdx = b.heapIdx) : (pq.modify target change).Known where
  inMemory := known.inMemory
  pointing ref member k index := by
    refine known.pointing ref member k (Eq.trans ?_ index)
    by_cases same : ref = target
    · subst same
      simp [BlockPriorityQueue.modify, keeps]
    · simp [BlockPriorityQueue.modify, same]

/-- `heap.Fix` at the heap index of a queued block shuffles the queue. -/
theorem fixAt_shuffled (known : pq.Known) {ref : Ref} (member : ref ∈ pq.bh) :
    Shuffled pq (pq.fixAt (pq.cell ref).heapIdx) := by
  unfold fixAt
  split
  · exact Shuffled.refl pq
  · rename_i position
    obtain ⟨k, index⟩ := Int.eq_ofNat_of_zero_le (Int.not_lt.mp position)
    have inside : k < blockHeap.len pq := (known.pointing ref member k index).1
    rw [index, Int.toNat_natCast]
    exact (Heap.fix_keeps laws.len_swap (shuffledBySwaps pq) inside (Shuffled.refl pq)).1

/-- `RescanMinMaxForUpdate` extends the bounds by the new height, when no queued block is
beyond them then. -/
theorem rescanMinMaxForUpdate_bounds (heightAdd heightRemove : UInt32)
    (within : ∀ ref ∈ pq.bh, min pq.minHeight heightAdd.toNat ≤ pq.heightOf ref ∧
      pq.heightOf ref ≤ max pq.maxHeight heightAdd.toNat) :
    (pq.rescanMinMaxForUpdate heightAdd heightRemove).minHeight =
        min pq.minHeight heightAdd.toNat ∧
      (pq.rescanMinMaxForUpdate heightAdd heightRemove).maxHeight =
        max pq.maxHeight heightAdd.toNat := by
  have scanned := pq.rescanMinMax_bounds (Int.min_le_left pq.minHeight heightAdd.toNat)
    (Int.le_max_left pq.maxHeight heightAdd.toNat) within
  simp only [rescanMinMaxForUpdate]
  split
  · have bounds := updateMinMax_bounds heightAdd pq.rescanMinMax
    omega
  · exact updateMinMax_bounds heightAdd pq

/-- `UpdateBlock` of a queued block leaves the queue bounded exactly when the extended bounds are
tight for the other heights and the new one. -/
theorem updateBlock_bounds (known : pq.Known) (bounded : pq.Bounded) {ref : Ref}
    (member : ref ∈ pq.bh) (summary : BlockDataBasic) (now : Int64) :
    (pq.updateBlock (some ref) summary now).Known ∧
      ((pq.updateBlock (some ref) summary now).Bounded ↔
        Tight ((summary.height.toNat : Int) :: (pq.others ref).map pq.heightOf)
          (min pq.minHeight summary.height.toNat) (max pq.maxHeight summary.height.toNat)) := by
  have written : ((pq.modify ref fun b => { b with summary := summary, accesses := 0 }).modify
      ref (CachedBlock.access now)) = pq.modify ref (renewed summary now) := by
    simp only [modify, Function.update_self, Function.update_idem]
    rfl
  generalize changed : pq.modify ref (renewed summary now) = next at written
  have knownNext : next.Known := changed ▸ known.modify ref fun _ => rfl
  have memberNext : ref ∈ next.bh := changed ▸ member
  have shuffled := fixAt_shuffled knownNext memberNext
  generalize fixed : next.fixAt (next.cell ref).heapIdx = final at shuffled
  have heights : ∀ x, x ∈ final.bh.map final.heightOf ↔
      x ∈ (summary.height.toNat : Int) :: (pq.others ref).map pq.heightOf := by
    intro x
    rw [heightOf_rearranged shuffled.rearranged,
      (shuffled.rearranged.bh.map next.heightOf).mem_iff, ← changed]
    exact heights_renewed member summary now x
  have minHeight : final.minHeight = pq.minHeight := shuffled.minHeight.trans (changed ▸ rfl)
  have maxHeight : final.maxHeight = pq.maxHeight := shuffled.maxHeight.trans (changed ▸ rfl)
  have bounds := final.rescanMinMaxForUpdate_bounds summary.height (pq.cell ref).summary.height
    fun other queued => by
      rw [minHeight, maxHeight]
      rcases List.mem_cons.mp ((heights _).mp (List.mem_map_of_mem queued)) with same | stays
      · omega
      · have old := bounded.within _ ((heights_split member _).mpr (List.mem_cons_of_mem _ stays))
        omega
  have scanned := rescanMinMaxForUpdate_same summary.height (pq.cell ref).summary.height final
  simp only [updateBlock, written, fixed]
  have same : SameBlocks final { final.rescanMinMaxForUpdate summary.height
      (pq.cell ref).summary.height with lastAccess := ((final.rescanMinMaxForUpdate summary.height
        (pq.cell ref).summary.height).cell ref).accessTime } :=
    ⟨scanned.cell, scanned.bh, scanned.allocated, scanned.capacity, scanned.needsReheap,
      scanned.lessFn⟩
  refine ⟨(knownNext.shuffled shuffled).sameBlocks same, ?_⟩
  unfold Bounded
  rw [heightOf_sameBlocks same, same.bh]
  simp only [bounds.1, bounds.2, minHeight, maxHeight]
  exact Tight.congr heights

/-! ## A block that leaves -/

/-- After a pop each block still knows its place in the slice. -/
theorem Pointing.pop (pointing : pq.Pointing) : pq.pop.Pointing := by
  intro ref member k index
  have queued : ref ∈ pq.bh := List.mem_of_mem_dropLast member
  have positive : 0 < pq.bh.length := List.length_pos_of_mem queued
  have length : pq.pop.bh.length = pq.bh.length - 1 := List.length_dropLast
  by_cases isLast : ref = pq.ref (pq.len - 1)
  · -- the last block has no position any more
    have written : (pq.pop.cell ref).heapIdx = -1 := isLast ▸ place_same _ _ _
    omega
  · have same : pq.pop.cell ref = pq.cell ref := place_other isLast _ _
    rw [same] at index
    obtain ⟨inside, here⟩ := pointing ref queued k index
    have notLast : k ≠ pq.bh.length - 1 := by
      rintro rfl
      exact isLast here.symm
    have stillInside : k < pq.bh.length - 1 := by omega
    exact ⟨Nat.lt_of_lt_of_eq stillInside length.symm, (ref_pop pq stillInside).trans here⟩

/-- A pop keeps what every call keeps. -/
theorem Known.pop (known : pq.Known) : pq.pop.Known where
  inMemory ref member := known.inMemory ref (List.mem_of_mem_dropLast member)
  pointing := known.pointing.pop

/-- A pop changes the height of no block. -/
theorem heightOf_pop (pq : BlockPriorityQueue) : pq.pop.heightOf = pq.heightOf := by
  funext ref
  have same := congrArg (fun b => b.summary.height)
    (place_unplaced (pq.ref (pq.len - 1)) ref (-1) pq)
  exact congrArg (fun height : UInt32 => (height.toNat : Int)) same

/-- The slice is what is left with the block at its end. -/
theorem perm_pop {i : Nat} (positive : 0 < pq.bh.length) (last : pq.ref (pq.bh.length - 1) = i) :
    pq.bh.Perm (i :: pq.pop.bh) := by
  have nonempty : pq.bh ≠ [] := List.ne_nil_of_length_pos positive
  have isLast : pq.bh.getLast nonempty = i := by
    rw [← last, BlockPriorityQueue.ref, List.getD_eq_getElem _ _ (by omega),
      List.getLast_eq_getElem]
  have split := List.dropLast_append_getLast nonempty
  rw [isLast] at split
  rw [← split]
  exact List.perm_append_singleton _ _

/-- `RemoveIndex` leaves the queue bounded exactly when the old bounds are tight for the heights
that remain. -/
theorem removeIndex_bounds (known : pq.Known) (bounded : pq.Bounded) {i : Nat}
    (inside : i < pq.bh.length) :
    (pq.removeIndex i).Known ∧
      ((pq.removeIndex i).Bounded ↔
        Tight ((pq.bh.eraseIdx i).map pq.heightOf) pq.minHeight pq.maxHeight) := by
  obtain ⟨middle, shuffled, length, last, removed⟩ :=
    remove_last (shuffledBySwaps pq) inside (Shuffled.refl pq)
  have same := rescanMinMaxForRemove_same (pq.block i).summary.height middle.pop
  have positive : 0 < middle.bh.length := by omega
  have perm : middle.pop.bh.Perm (pq.bh.eraseIdx i) := by
    have split := perm_pop positive (length ▸ last)
    have erased := List.getElem_cons_eraseIdx_perm inside
    have here : pq.bh[i] = pq.ref i := (List.getD_eq_getElem _ _ inside).symm
    rw [here] at erased
    exact (split.symm.trans (shuffled.rearranged.bh.trans erased.symm)).cons_inv
  have heights : middle.pop.heightOf = pq.heightOf :=
    (heightOf_pop middle).trans (heightOf_rearranged shuffled.rearranged)
  have minHeight : middle.pop.minHeight = pq.minHeight := shuffled.minHeight
  have maxHeight : middle.pop.maxHeight = pq.maxHeight := shuffled.maxHeight
  -- a rescan finds nothing beyond the old bounds
  have bounds : (middle.pop.rescanMinMaxForRemove (pq.block i).summary.height).minHeight =
      pq.minHeight ∧
      (middle.pop.rescanMinMaxForRemove (pq.block i).summary.height).maxHeight = pq.maxHeight := by
    unfold rescanMinMaxForRemove
    split
    · have scanned := middle.pop.rescanMinMax_bounds (Int.le_refl _) (Int.le_refl _)
        fun ref queued => by
          rw [heights, minHeight, maxHeight]
          have old : ref ∈ pq.bh := List.mem_of_mem_eraseIdx (perm.mem_iff.mp queued)
          exact bounded.within _ (List.mem_map_of_mem old)
      omega
    · exact ⟨minHeight, maxHeight⟩
  simp only [removeIndex, removed]
  refine ⟨(known.shuffled shuffled).pop.sameBlocks same, ?_⟩
  unfold Bounded
  rw [heightOf_sameBlocks same, same.bh, bounds.1, bounds.2, heights]
  exact Tight.congr fun x => (perm.map pq.heightOf).mem_iff

/-! ## A fresh queue -/

/-- The loop of `ResetHeap` writes a position of each block, and leaves the heights. -/
theorem resetFrom_points (now : Int64) (refs : List Ref) :
    ∀ (i : Nat) (pq : BlockPriorityQueue),
      (∀ ref ∈ refs, ∃ k < refs.length, refs.getD k 0 = ref ∧
          ((resetFrom now i refs pq).cell ref).heapIdx = (i + k : Nat)) ∧
        (∀ ref, ref ∉ refs → (resetFrom now i refs pq).cell ref = pq.cell ref) ∧
        (resetFrom now i refs pq).heightOf = pq.heightOf ∧
        (resetFrom now i refs pq).allocated = pq.allocated := by
  induction refs with
  | nil =>
    exact fun _ _ => ⟨fun _ member => absurd member List.not_mem_nil, fun _ _ => rfl, rfl, rfl⟩
  | cons ref rest inductionHypothesis =>
    intro i pq
    obtain ⟨points, outside, heights, allocated⟩ := inductionHypothesis (i + 1)
      ((pq.updateMinMax (pq.cell ref).summary.height).modify ref fun b =>
        { b with heapIdx := i, accesses := 1, accessTime := now })
    refine ⟨fun other member => ?_, fun other absent => ?_, heights.trans ?_, allocated⟩
    · by_cases later : other ∈ rest
      · obtain ⟨k, inside, here, written⟩ := points other later
        refine ⟨k + 1, Nat.succ_lt_succ inside, here, written.trans ?_⟩
        congr 1
        omega
      · obtain rfl : other = ref := (List.mem_cons.mp member).resolve_right later
        refine ⟨0, Nat.succ_pos _, rfl, ?_⟩
        refine (congrArg CachedBlock.heapIdx (outside other later)).trans ?_
        simp [modify]
    · have apart : other ≠ ref := fun same => absent (same ▸ List.mem_cons_self)
      refine (outside other fun member => absent (List.mem_cons_of_mem _ member)).trans ?_
      simp [modify, updateMinMax, apart]
    · funext other
      by_cases same : other = ref
      · subst same
        simp [heightOf, modify, updateMinMax]
      · simp [heightOf, modify, updateMinMax, same]

/-- The loop of `ResetHeap` takes every height of the slice into the bounds, beside those that
they had. -/
theorem resetFrom_bounds (now : Int64) (refs : List Ref) :
    ∀ (i : Nat) (pq : BlockPriorityQueue) (heights : List Int),
      Tight heights pq.minHeight pq.maxHeight →
      Tight (refs.map pq.heightOf ++ heights) (resetFrom now i refs pq).minHeight
        (resetFrom now i refs pq).maxHeight := by
  induction refs with
  | nil => exact fun _ _ _ tight => tight
  | cons ref rest inductionHypothesis =>
    intro i pq heights tight
    have bounds := updateMinMax_bounds (pq.cell ref).summary.height pq
    have added := tight.add (pq.heightOf_inRange ref)
    have minHeight : (pq.updateMinMax (pq.cell ref).summary.height).minHeight =
      min pq.minHeight (pq.heightOf ref) := bounds.1
    have maxHeight : (pq.updateMinMax (pq.cell ref).summary.height).maxHeight =
      max pq.maxHeight (pq.heightOf ref) := bounds.2
    rw [← minHeight, ← maxHeight] at added
    have later := inductionHypothesis (i + 1)
      ((pq.updateMinMax (pq.cell ref).summary.height).modify ref fun b =>
        { b with heapIdx := i, accesses := 1, accessTime := now }) _ added
    have unchanged : ((pq.updateMinMax (pq.cell ref).summary.height).modify ref fun b =>
        { b with heapIdx := i, accesses := 1, accessTime := now }).heightOf = pq.heightOf := by
      funext other
      by_cases same : other = ref
      · subst same
        simp [heightOf, modify, updateMinMax]
      · simp [heightOf, modify, updateMinMax, same]
    rw [unchanged] at later
    refine (Tight.congr fun x => ?_).mp later
    simp only [List.mem_append, List.mem_cons, List.map_cons]
    tauto

/-- `ResetHeap` leaves the bounds of the blocks that it is given. -/
theorem resetHeap_bounds {refs : List Ref} (inMemory : ∀ ref ∈ refs, ref < pq.allocated)
    (now : Int64) : (pq.resetHeap refs now).Known ∧ (pq.resetHeap refs now).Bounded := by
  obtain ⟨points, -, heights, allocated⟩ := resetFrom_points now refs 0
    { pq with maxHeight := -1, minHeight := 4294967295 }
  have tight := resetFrom_bounds now refs 0 { pq with maxHeight := -1, minHeight := 4294967295 } []
    ⟨fun _ => ⟨rfl, rfl⟩, fun absurd => absurd rfl |>.elim,
      fun _ member => absurd member List.not_mem_nil⟩
  rw [List.append_nil, ← heights] at tight
  generalize written : resetFrom now 0 refs { pq with maxHeight := -1, minHeight := 4294967295 } =
    reset at points heights allocated tight
  have known : Known { reset with bh := refs, needsReheap := false } := by
    refine ⟨fun ref member => Nat.lt_of_lt_of_eq (inMemory ref member) allocated.symm,
      fun ref member k index => ?_⟩
    obtain ⟨position, inside, here, index'⟩ := points ref member
    obtain rfl : k = position := by
      have same := Int.ofNat.inj (index.symm.trans index')
      omega
    exact ⟨inside, here⟩
  have bounded : Bounded { reset with bh := refs, needsReheap := false } := tight
  have shuffled : Shuffled { reset with bh := refs, needsReheap := false }
      (pq.resetHeap refs now) := by
    simp only [resetHeap, written]
    exact (Heap.init_keeps laws.len_swap (shuffledBySwaps _) (Shuffled.refl _)).1
  exact ⟨known.shuffled shuffled, shuffled.bounded_iff.mpr bounded⟩

end Operations

end BlockPriorityQueue

/-! ## Runs -/

/-- What a call takes out of the queue: the height of a block, those of the blocks that
stay, and that of the block in its place. -/
structure Leaving where
  left : Int
  stay : List Int
  comes : Option Int

/-- The block that a call takes out of the queue, if it takes one. -/
def BlockPriorityQueue.leaving (pq : BlockPriorityQueue) : QueueCall → Option Leaving
  | .insert summary clock =>
    if pq.capacity ≠ 0 ∧ pq.full ∧ pq.lessFn (pq.block 0) ⟨summary, 1, clock 0, 0⟩ then
      some ⟨pq.heightOf (pq.ref 0), (pq.others (pq.ref 0)).map pq.heightOf,
        some summary.height.toNat⟩
    else none
  | .updateBlock (some ref) summary _ =>
    if ref ∈ pq.bh then
      some ⟨pq.heightOf ref, (pq.others ref).map pq.heightOf, some summary.height.toNat⟩
    else none
  | .removeBlock (some ref) =>
    let heapIdx := (pq.cell ref).heapIdx
    if 0 < heapIdx && heapIdx < pq.len &&
        (pq.block heapIdx.toNat).summary.hash == (pq.cell ref).summary.hash then
      some ⟨pq.heightOf (pq.ref heapIdx.toNat), (pq.bh.eraseIdx heapIdx.toNat).map pq.heightOf,
        none⟩
    else none
  | _ => none

/-- A block that leaves is at no bound, or another queued block has its height, or the one
in its place is at that bound or beyond. -/
def KeepsBounds (pq : BlockPriorityQueue) (call : QueueCall) : Prop :=
  ∀ leaving ∈ pq.leaving call,
    (leaving.left = pq.minHeight →
      pq.minHeight ∈ leaving.stay ∨ ∃ h ∈ leaving.comes, h ≤ pq.minHeight) ∧
    (leaving.left = pq.maxHeight →
      pq.maxHeight ∈ leaving.stay ∨ ∃ h ∈ leaving.comes, pq.maxHeight ≤ h)

/-- The block that is updated is queued, and the blocks of a fresh queue are in memory. -/
def Callable (pq : BlockPriorityQueue) : QueueCall → Prop
  | .updateBlock b _ _ => ∀ ref ∈ b, ref ∈ pq.bh
  | .resetHeap bh _ => ∀ ref ∈ bh, ref < pq.allocated
  | _ => True

instance (pq : BlockPriorityQueue) : (call : QueueCall) → Decidable (Callable pq call)
  | .updateBlock b _ _ => inferInstanceAs (Decidable (∀ ref ∈ b, ref ∈ pq.bh))
  | .resetHeap bh _ => inferInstanceAs (Decidable (∀ ref ∈ bh, ref < pq.allocated))
  | .newCachedBlock _ | .setLessFn _ | .insert _ _ | .removeBlock _ | .lookup _ _ | .reheap =>
    isTrue trivial

/-- Perform one call that can be made, and none where the call would panic. -/
def callableStep (newHashFromStr : String → Option Hash) (pq : BlockPriorityQueue)
    (call : QueueCall) : Option BlockPriorityQueue :=
  if Callable pq call then queueStep newHashFromStr pq call else none

section Step
variable {newHashFromStr : String → Option Hash} {pq next : BlockPriorityQueue}

/-- `Insert` keeps what every call keeps, and it leaves the queue bounded exactly under the
condition for it. -/
theorem insert_bounds (known : pq.Known) (bounded : pq.Bounded) (summary : BlockDataBasic)
    (clock : Clock) :
    (pq.insert newHashFromStr summary clock).2.Known ∧
      ((pq.insert newHashFromStr summary clock).2.Bounded ↔
        KeepsBounds pq (.insert summary clock)) := by
  by_cases none_ : pq.capacity = 0
  · have stays : KeepsBounds pq (.insert summary clock) := by
      simp [KeepsBounds, leaving, none_]
    rw [insert_none none_]
    exact ⟨known, iff_of_true bounded stays⟩
  cases isFull : pq.full with
  | false =>
    have stays : KeepsBounds pq (.insert summary clock) := by
      simp [KeepsBounds, leaving, isFull]
    have shuffled : Shuffled (pq.push (summary, clock 0)) _ := push_shuffled (summary, clock 0)
    have knownPushed := (known.push (summary, clock 0)).shuffled shuffled
    have boundedPushed := shuffled.bounded_iff.mpr (bounded_push known bounded (summary, clock 0))
    have member : pq.allocated ∈ (Heap.push blockHeap (summary, clock 0) pq).bh :=
      shuffled.rearranged.bh.mem_iff.mpr (List.mem_append_right _ (List.mem_singleton_self _))
    have height : ((Heap.push blockHeap (summary, clock 0) pq).cell
        pq.allocated).summary.height = summary.height := by
      have same := congrArg (fun b => b.summary.height) (shuffled.rearranged.cells pq.allocated)
      refine same.trans ?_
      simp [push, alloc, updateMinMax, CachedBlock.unplaced]
    have again := bounded_updateMinMax_again boundedPushed member
    rw [height] at again
    have same : SameBlocks (Heap.push blockHeap (summary, clock 0) pq)
        (pq.insert newHashFromStr summary clock).2 := (insert_pushed isFull).2
    refine ⟨knownPushed.sameBlocks same, iff_of_true ?_ stays⟩
    simp only [BlockPriorityQueue.insert, none_, isFull, if_false, Bool.false_eq_true]
    exact again
  | true =>
    cases below : pq.lessFn (pq.block 0) ⟨summary, 1, clock 0, 0⟩ with
    | false =>
      have stays : KeepsBounds pq (.insert summary clock) := by
        simp [KeepsBounds, leaving, below]
      rw [insert_refused isFull below]
      exact ⟨known, iff_of_true bounded stays⟩
    | true =>
      have first : pq.ref 0 ∈ pq.bh := ref_mem (full_nonempty none_ isFull)
      obtain ⟨knownNext, boundedIff⟩ := updateBlock_bounds known bounded first summary (clock 1)
      have split := (Tight.congr (heights_split first)).mp bounded
      have leaves : pq.leaving (.insert summary clock) =
          some ⟨pq.heightOf (pq.ref 0), (pq.others (pq.ref 0)).map pq.heightOf,
            some summary.height.toNat⟩ := by
        simp only [leaving]
        exact if_pos ⟨none_, isFull, below⟩
      have result : (pq.insert newHashFromStr summary clock).2.Bounded ↔
          (pq.updateBlock (some (pq.ref 0)) summary (clock 1)).Bounded := by
        simp only [BlockPriorityQueue.insert, none_, isFull, below, if_true, if_false]
        split
        · exact Iff.rfl
        · exact Iff.rfl
      refine ⟨knownNext.sameBlocks (insert_replaced none_ isFull below).2,
        result.trans (boundedIff.trans (split.replace_iff.trans ?_))⟩
      simp [KeepsBounds, leaves]

/-- A block that is made anew in memory, but not queued, changes no queued one. -/
theorem newCachedBlock_bounds (known : pq.Known) (bounded : pq.Bounded) (summary : BlockDataBasic) :
    (pq.alloc (newCachedBlock summary)).Known ∧ (pq.alloc (newCachedBlock summary)).Bounded := by
  have cells : ∀ ref ∈ pq.bh, (pq.alloc (newCachedBlock summary)).cell ref = pq.cell ref := by
    intro ref member
    exact Function.update_of_ne (Nat.ne_of_lt (known.inMemory ref member)) _ _
  have heights : pq.bh.map (pq.alloc (newCachedBlock summary)).heightOf =
      pq.bh.map pq.heightOf := by
    refine List.map_congr_left fun ref member => ?_
    rw [heightOf, heightOf, cells ref member]
  refine ⟨⟨fun ref member => Nat.lt_succ_of_lt (known.inMemory ref member),
    fun ref member k index => ?_⟩, ?_⟩
  · rw [cells ref member] at index
    exact known.pointing ref member k index
  · unfold Bounded
    exact heights.symm ▸ bounded

/-- `RemoveBlock` keeps the bounds unless the only block at a bound leaves, and does nothing for
a block whose place holds another one. -/
theorem removeBlock_bounds (known : pq.Known) (bounded : pq.Bounded) (b : Option Ref) :
    (pq.removeBlock b).Known ∧ ((pq.removeBlock b).Bounded ↔ KeepsBounds pq (.removeBlock b)) := by
  cases b with
  | none => exact ⟨known, iff_of_true bounded (by simp [KeepsBounds, leaving])⟩
  | some ref =>
    simp only [KeepsBounds, leaving, removeBlock]
    split
    · rename_i found
      simp only [Bool.and_eq_true, decide_eq_true_eq] at found
      have bounds := found.1
      unfold len at bounds
      have inside : (pq.cell ref).heapIdx.toNat < pq.bh.length := by omega
      obtain ⟨knownNext, boundedIff⟩ := removeIndex_bounds known bounded inside
      have here : pq.bh[(pq.cell ref).heapIdx.toNat] = pq.ref (pq.cell ref).heapIdx.toNat :=
        (List.getD_eq_getElem _ _ inside).symm
      have erased := List.getElem_cons_eraseIdx_perm inside
      rw [here] at erased
      have split := (Tight.congr fun x => (erased.map pq.heightOf).mem_iff.symm).mp bounded
      have some_ : (pq.bh.eraseIdx (pq.cell ref).heapIdx.toNat).map pq.heightOf ≠ [] := by
        refine List.ne_nil_of_length_pos ?_
        rw [List.length_map, List.length_eraseIdx_of_lt inside]
        omega
      refine ⟨knownNext, boundedIff.trans ((Tight.remove_iff split some_).trans ?_)⟩
      simp
    · exact ⟨known, iff_of_true bounded (by simp)⟩

/-- A lookup changes the accesses of a block, which no bound depends on. -/
theorem lookup_bounds (known : pq.Known) (bounded : pq.Bounded) (ref : Ref) (clock : Clock) :
    (pq.lookedUp ref clock).Known ∧ (pq.lookedUp ref clock).Bounded := by
  have heights : (pq.lookedUp ref clock).heightOf = pq.heightOf := by
    funext other
    by_cases same : other = ref
    · rw [heightOf, heightOf, same, lookedUp_same]
      rfl
    · rw [heightOf, heightOf, lookedUp_other pq same]
  have modified := known.modify ref fun b => (rfl : (b.access (clock 0)).heapIdx = b.heapIdx)
  refine ⟨⟨modified.inMemory, modified.pointing⟩, ?_⟩
  unfold Bounded
  rw [heights]
  exact bounded

/-- One call keeps what is known, and keeps the bounds exactly under the condition. -/
theorem step_bounds (known : pq.Known) (bounded : pq.Bounded) {call : QueueCall}
    (taken : callableStep newHashFromStr pq call = some next) :
    next.Known ∧ (next.Bounded ↔ KeepsBounds pq call) := by
  obtain ⟨callable, taken⟩ := Option.ite_none_right_eq_some.mp taken
  cases call with
  | newCachedBlock summary =>
    obtain rfl := Option.some.inj taken
    obtain ⟨knownNext, boundedNext⟩ := newCachedBlock_bounds known bounded summary
    exact ⟨knownNext, iff_of_true boundedNext (by simp [KeepsBounds, leaving])⟩
  | setLessFn lessFn =>
    obtain rfl := Option.some.inj taken
    exact ⟨⟨known.inMemory, known.pointing⟩, iff_of_true bounded (by simp [KeepsBounds, leaving])⟩
  | insert summary clock =>
    obtain rfl := Option.some.inj taken
    exact insert_bounds known bounded summary clock
  | updateBlock b summary now =>
    obtain rfl := Option.some.inj taken
    cases b with
    | none => exact ⟨known, iff_of_true bounded (by simp [KeepsBounds, leaving])⟩
    | some ref =>
      have member : ref ∈ pq.bh := callable ref rfl
      obtain ⟨knownNext, boundedIff⟩ := updateBlock_bounds known bounded member summary now
      have split := (Tight.congr (heights_split member)).mp bounded
      refine ⟨knownNext, boundedIff.trans (split.replace_iff.trans ?_)⟩
      simp [KeepsBounds, leaving, member]
  | removeBlock b =>
    obtain rfl := Option.some.inj taken
    exact removeBlock_bounds known bounded b
  | lookup ref clock =>
    obtain rfl := Option.some.inj taken
    obtain ⟨knownNext, boundedNext⟩ := lookup_bounds known bounded ref clock
    exact ⟨knownNext, iff_of_true boundedNext (by simp [KeepsBounds, leaving])⟩
  | reheap =>
    obtain rfl := Option.some.inj taken
    have lowered : Known { pq with needsReheap := false } := ⟨known.inMemory, known.pointing⟩
    have shuffled : Shuffled { pq with needsReheap := false } pq.reheap :=
      (Heap.init_keeps laws.len_swap (shuffledBySwaps _) (Shuffled.refl _)).1
    exact ⟨lowered.shuffled shuffled,
      iff_of_true (shuffled.bounded_iff.mpr bounded) (by simp [KeepsBounds, leaving])⟩
  | resetHeap bh now =>
    obtain rfl := Option.some.inj taken
    obtain ⟨knownNext, boundedNext⟩ := resetHeap_bounds callable now
    exact ⟨knownNext, iff_of_true boundedNext (by simp [KeepsBounds, leaving])⟩

end Step

/-- The bounds are those of the queued blocks throughout exactly the runs in which no block
leaves a bound that neither another queued block nor the one in its place holds. -/
theorem bounded_throughout_iff (newHashFromStr : String → Option Hash) (capacity : UInt32)
    (lessFn : CachedBlock → CachedBlock → Bool) (calls : List QueueCall) :
    Throughout (callableStep newHashFromStr) Bounded (startQueue capacity lessFn) calls ↔
      Admitted (callableStep newHashFromStr) KeepsBounds (startQueue capacity lessFn) calls := by
  refine throughout_iff_admitted Known (fun _ _ _ known bounded taken _ =>
    (step_bounds known bounded taken).1) (fun pq call known bounded => ?_) ?_ ?_
  · constructor
    · intro keeps next taken
      exact (step_bounds known bounded taken).2.mpr keeps
    · intro every
      by_cases callable : Callable pq call
      · cases taken : callableStep newHashFromStr pq call with
        | some next => exact (step_bounds known bounded taken).2.mp (every next taken)
        | none =>
          cases call <;> simp [callableStep, callable, queueStep] at taken
      · have stays : pq.leaving call = none := by
          cases call with
          | updateBlock b summary now =>
            cases b with
            | none => rfl
            | some ref =>
              refine if_neg fun member => callable ?_
              rintro _ ⟨⟩
              exact member
          | resetHeap bh now => rfl
          | _ => exact absurd trivial callable
        simp [KeepsBounds, stays]
  · exact ⟨fun _ member => absurd member List.not_mem_nil,
      fun _ member => absurd member List.not_mem_nil⟩
  · exact ⟨fun _ => ⟨rfl, rfl⟩, fun absurd => absurd rfl |>.elim,
      fun _ member => absurd member List.not_mem_nil⟩

/-- Two blocks, of which the higher is removed, or the lower one is displaced by one that is
higher than both: the bounds stay. -/
theorem leaving_blocks_are_remembered :
    ¬∀ (newHashFromStr : String → Option Hash) (capacity : UInt32)
      (lessFn : CachedBlock → CachedBlock → Bool) (calls : List QueueCall),
      Throughout (callableStep newHashFromStr) Bounded (startQueue capacity lessFn) calls := by
  intro claimed
  have ran : exec (callableStep sampleHashes) (startQueue 10 lessByHeight)
      [.insert ⟨3, "03"⟩ fun _ => 1, .insert ⟨5, "05"⟩ fun _ => 2, .removeBlock (some 1)] =
        some _ := rfl
  have bounded := (claimed sampleHashes 10 lessByHeight _).final ran
  have highest := (bounded.attained (by decide)).2
  revert highest
  decide

end Hcexplorer.Hcdataapi

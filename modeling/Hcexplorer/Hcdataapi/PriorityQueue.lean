import Mathlib.Data.List.Basic
import Hcexplorer.Library.Heap
import Hcexplorer.Wire

/-!
# The expiration queue of the API cache

`BlockPriorityQueue` of `hcdataapi/apicache.go`: pointers to cached blocks in a binary
heap, compared by a function that can be exchanged while the queue is used.

Blocks are shared through pointers, by the queue, by the cache and by callers, and
their fields are written through any of them. So the memory of blocks is part of the
state: every operation of the queue reads and writes it. Addresses are numbers, given
out in order.

Every reading of the clock is arbitrary. A call that reads it several times gets the
readings in order. Instants are nanoseconds since 1970.
-/

namespace Hcexplorer.Hcdataapi

/-- `BlockDataBasic`, the fields that the cache reads. The hash is a text. -/
structure BlockDataBasic where
  height : UInt32
  hash : String
deriving DecidableEq, Repr

/-- `CachedBlock`: a block's summary, how often and when it was last accessed, and its index in
the heap, which is -1 outside of it. -/
structure CachedBlock where
  summary : BlockDataBasic
  accesses : Int64
  accessTime : Int64
  heapIdx : Int
deriving DecidableEq, Repr

/-- An address of a cached block. Pointers matter, since the map, the queue and the callers share
blocks. -/
abbrev Ref := Nat

/-- The readings of the clock that one call takes, in order. -/
abbrev Clock := Nat → Int64

/-- The readings of the clock that are left after the first. -/
def Clock.later (clock : Clock) : Clock := fun reading => clock (reading + 1)

/-- `BlockPriorityQueue`, with the memory of blocks: what each address holds, and the
first one that is not given out. -/
structure BlockPriorityQueue where
  cell : Ref → CachedBlock
  allocated : Ref
  bh : List Ref
  capacity : UInt32
  needsReheap : Bool
  minHeight : Int
  maxHeight : Int
  lessFn : CachedBlock → CachedBlock → Bool
  lastAccess : Int64

/-! ## Comparators -/

/-- `LessByHeight`, which puts the lower block first. -/
def lessByHeight (bi bj : CachedBlock) : Bool := bi.summary.height < bj.summary.height

/-- `LessByAccessCount`, which puts the block first that was accessed less often. -/
def lessByAccessCount (bi bj : CachedBlock) : Bool := bi.accesses < bj.accesses

/-- `LessByAccessTime`, which puts the block first that was accessed earlier. -/
def lessByAccessTime (bi bj : CachedBlock) : Bool := bi.accessTime < bj.accessTime

/-- `LessByAccessCountThenHeight`: the count decides, and the height between blocks that were
accessed equally often. -/
def lessByAccessCountThenHeight (bi bj : CachedBlock) : Bool :=
  if bi.accesses = bj.accesses then lessByHeight bi bj else lessByAccessCount bi bj

/-- `MakeLessByAccessTimeThenCount`: the bin of the access time decides, and the count within a
bin. The division truncates. -/
def makeLessByAccessTimeThenCount (millisecondsBinned : Int64) (bi bj : CachedBlock) : Bool :=
  let millisecondThreshold := millisecondsBinned * 1000000
  let epochDiff := (bi.accessTime - bj.accessTime) / millisecondThreshold
  if epochDiff = 0 then lessByAccessCount bi bj else lessByAccessTime bi bj

/-! ## Memory -/

/-- `newCachedBlock`, a block that was never accessed and is in no queue. -/
def newCachedBlock (summary : BlockDataBasic) : CachedBlock := ⟨summary, 0, 0, -1⟩

/-- `Access`, which counts one more access and notes its time. -/
def CachedBlock.access (now : Int64) (b : CachedBlock) : CachedBlock :=
  { b with accesses := b.accesses + 1, accessTime := now }

namespace BlockPriorityQueue

/-- Write through a pointer, which every holder of the pointer sees. -/
def modify (ref : Ref) (change : CachedBlock → CachedBlock) (pq : BlockPriorityQueue) :
    BlockPriorityQueue :=
  { pq with cell := Function.update pq.cell ref (change (pq.cell ref)) }

/-- Set the heap index of a block through its pointer. -/
def place (ref : Ref) (heapIdx : Int) (pq : BlockPriorityQueue) : BlockPriorityQueue :=
  pq.modify ref fun b => { b with heapIdx := heapIdx }

/-- Allocate a block. Its address is the first one that was not given out. -/
def alloc (b : CachedBlock) (pq : BlockPriorityQueue) : BlockPriorityQueue :=
  { pq with cell := Function.update pq.cell pq.allocated b, allocated := pq.allocated + 1 }

/-! ## `heap.Interface` -/

/-- The pointer at a position of the slice, and zero past its end. -/
def ref (pq : BlockPriorityQueue) (i : Nat) : Ref := pq.bh.getD i 0

/-- The block at a position of the slice, as it is in memory. -/
def block (pq : BlockPriorityQueue) (i : Nat) : CachedBlock := pq.cell (pq.ref i)

/-- `Len`, the number of queued blocks. -/
def len (pq : BlockPriorityQueue) : Nat := pq.bh.length

/-- `Less`, the comparator at the blocks of two positions. -/
def less (pq : BlockPriorityQueue) (i j : Nat) : Bool := pq.lessFn (pq.block i) (pq.block j)

/-- `Swap`, which exchanges two pointers of the slice and sets the heap indexes of their blocks. -/
def swap (i j : Nat) (pq : BlockPriorityQueue) : BlockPriorityQueue :=
  let pq := { pq with bh := pq.bh.swap i j }
  (pq.place (pq.ref i) i).place (pq.ref j) j

/-- `updateMinMax`, which extends the bounds by a height and never narrows them. -/
def updateMinMax (h : UInt32) (pq : BlockPriorityQueue) : BlockPriorityQueue :=
  { pq with
    maxHeight := if (h.toNat : Int) > pq.maxHeight then h.toNat else pq.maxHeight
    minHeight := if (h.toNat : Int) < pq.minHeight then h.toNat else pq.minHeight }

/-- `Push`: a new block at the end, accessed once, now. -/
def push (pushed : BlockDataBasic × Int64) (pq : BlockPriorityQueue) : BlockPriorityQueue :=
  let b : CachedBlock := ⟨pushed.1, 1, pushed.2, pq.len⟩
  let pq := pq.updateMinMax b.summary.height
  { pq.alloc b with bh := pq.bh ++ [pq.allocated], lastAccess := b.accessTime }

/-- `Pop`, which takes the last pointer off the slice and sets its heap index to -1. Nobody uses
the block that it returns. -/
def pop (pq : BlockPriorityQueue) : BlockPriorityQueue :=
  { pq.place (pq.ref (pq.len - 1)) (-1) with bh := pq.bh.dropLast }

end BlockPriorityQueue

/-- The queue, as `container/heap` sees it through the five methods of its interface. -/
def blockHeap : Heap.Interface BlockPriorityQueue (BlockDataBasic × Int64) where
  len := BlockPriorityQueue.len
  less := BlockPriorityQueue.less
  swap := BlockPriorityQueue.swap
  push := BlockPriorityQueue.push
  pop := BlockPriorityQueue.pop

/-! ## Operations -/

/-- `NewBlockPriorityQueue`, an empty queue in a memory without blocks, with the comparator by
access times of one millisecond. -/
def newBlockPriorityQueue (capacity : UInt32) : BlockPriorityQueue where
  cell := fun _ => newCachedBlock ⟨0, ""⟩
  allocated := 0
  bh := []
  capacity := capacity
  needsReheap := false
  minHeight := 4294967295
  maxHeight := -1
  lessFn := makeLessByAccessTimeThenCount 1
  lastAccess := 0

namespace BlockPriorityQueue

/-- `SetLessFn`, which changes the comparator and does not order the queue anew. -/
def setLessFn (lessFn : CachedBlock → CachedBlock → Bool) (pq : BlockPriorityQueue) :
    BlockPriorityQueue :=
  { pq with lessFn := lessFn }

/-- `setNeedsReheap`, which sets the flag that the watcher of the queue reads. -/
def setNeedsReheap (needReheap : Bool) (pq : BlockPriorityQueue) : BlockPriorityQueue :=
  { pq with needsReheap := needReheap }

/-- `setAccessTime`, which notes when the queue was accessed last. -/
def setAccessTime (t : Int64) (pq : BlockPriorityQueue) : BlockPriorityQueue :=
  { pq with lastAccess := t }

/-- The memory with the record that the cache makes for a new block. -/
def withRecord (summary : BlockDataBasic) (now : Int64) (pq : BlockPriorityQueue) :
    BlockPriorityQueue :=
  (pq.alloc (newCachedBlock summary)).modify pq.allocated (CachedBlock.access now)

/-- What the lookup of a cached block does to the block it found and to the queue. -/
def lookedUp (ref : Ref) (clock : Clock) (pq : BlockPriorityQueue) : BlockPriorityQueue :=
  ((pq.modify ref (CachedBlock.access (clock 0))).setNeedsReheap true).setAccessTime (clock 1)

/-- `RescanMinMax`, which goes over all queued blocks but begins with the bounds that are there. -/
def rescanMinMax (pq : BlockPriorityQueue) : BlockPriorityQueue :=
  pq.bh.foldl (fun pq ref => pq.updateMinMax (pq.cell ref).summary.height) pq

/-- `RescanMinMaxForAdd`, which extends the bounds by the height of the block that was added. -/
def rescanMinMaxForAdd (height : UInt32) (pq : BlockPriorityQueue) : BlockPriorityQueue :=
  pq.updateMinMax height

/-- `RescanMinMaxForRemove`, which rescans only where the removed block was at a bound. -/
def rescanMinMaxForRemove (height : UInt32) (pq : BlockPriorityQueue) : BlockPriorityQueue :=
  if (height.toNat : Int) = pq.minHeight || (height.toNat : Int) = pq.maxHeight then
    pq.rescanMinMax
  else pq

/-- `RescanMinMaxForUpdate`, which rescans where the replaced block was at a bound that the new
height does not pass, and then extends the bounds by the new height. -/
def rescanMinMaxForUpdate (heightAdd heightRemove : UInt32) (pq : BlockPriorityQueue) :
    BlockPriorityQueue :=
  let pq :=
    if ((heightRemove.toNat : Int) = pq.minHeight && heightAdd ≥ heightRemove) ||
        ((heightRemove.toNat : Int) = pq.maxHeight && heightAdd ≤ heightRemove) then
      pq.rescanMinMax
    else pq
  pq.updateMinMax heightAdd

/-- The loop of `ResetHeap`, from a position on: each block is placed and counted as accessed
once, and its height extends the bounds. -/
def resetFrom (now : Int64) : Nat → List Ref → BlockPriorityQueue → BlockPriorityQueue
  | _, [], pq => pq
  | i, ref :: rest, pq =>
    let pq := pq.updateMinMax (pq.cell ref).summary.height
    resetFrom now (i + 1) rest
      (pq.modify ref fun b => { b with heapIdx := i, accesses := 1, accessTime := now })

/-- `ResetHeap`, which replaces the slice, computes the bounds from the start and orders the
queue. -/
def resetHeap (bh : List Ref) (now : Int64) (pq : BlockPriorityQueue) : BlockPriorityQueue :=
  let pq := resetFrom now 0 bh { pq with maxHeight := -1, minHeight := 4294967295 }
  Heap.init blockHeap { pq with bh := bh, needsReheap := false }

/-- `Reheap`, which orders the slice anew and clears the flag. -/
def reheap (pq : BlockPriorityQueue) : BlockPriorityQueue :=
  Heap.init blockHeap { pq with needsReheap := false }

/-- `heap.Fix` at a heap index. At the index −1 no round of either loop is made. -/
def fixAt (heapIdx : Int) (pq : BlockPriorityQueue) : BlockPriorityQueue :=
  if heapIdx < 0 then pq else Heap.fix blockHeap heapIdx.toNat pq

/-- `UpdateBlock`, with the reading of the clock by `Access`. -/
def updateBlock (b : Option Ref) (summary : BlockDataBasic) (now : Int64)
    (pq : BlockPriorityQueue) : BlockPriorityQueue :=
  match b with
  | none => pq
  | some ref =>
    let heightAdded := summary.height
    let heightRemoved := (pq.cell ref).summary.height
    let pq := pq.modify ref fun b => { b with summary := summary, accesses := 0 }
    let pq := pq.modify ref (CachedBlock.access now)
    let pq := pq.fixAt (pq.cell ref).heapIdx
    let pq := pq.rescanMinMaxForUpdate heightAdded heightRemoved
    { pq with lastAccess := (pq.cell ref).accessTime }

/-- The queue holds as many blocks as it may. -/
def full (pq : BlockPriorityQueue) : Bool := pq.capacity.toNat ≤ pq.len

/-- `Insert`: whether the block was added, and the hash of the block that made room for
it, if its text is one. -/
def insert (newHashFromStr : String → Option Hash) (summary : BlockDataBasic) (clock : Clock)
    (pq : BlockPriorityQueue) : (Bool × Option Hash) × BlockPriorityQueue :=
  if pq.capacity = 0 then ((false, none), pq)
  else if pq.full then
    let cachedBlock : CachedBlock := ⟨summary, 1, clock 0, 0⟩
    if pq.lessFn (pq.block 0) cachedBlock then
      let removedBlockHash := newHashFromStr (pq.block 0).summary.hash
      let pq := pq.updateBlock (some (pq.ref 0)) summary (clock 1)
      ((true, removedBlockHash),
        if removedBlockHash.isSome then { pq with lastAccess := clock 2 } else pq)
    else ((false, none), pq)
  else
    let pq := Heap.push blockHeap (summary, clock 0) pq
    let pq := pq.rescanMinMaxForAdd summary.height
    ((true, none), { pq with lastAccess := clock 1 })

/-- `RemoveIndex`, which removes the block at a position and rescans the bounds if its height was
at one of them. -/
def removeIndex (idx : Nat) (pq : BlockPriorityQueue) : BlockPriorityQueue :=
  let removedHeight := (pq.block idx).summary.height
  (Heap.remove blockHeap idx pq).rescanMinMaxForRemove removedHeight

/-- `RemoveBlock`. The block at the root has the index 0 and is never removed. -/
def removeBlock (b : Option Ref) (pq : BlockPriorityQueue) : BlockPriorityQueue :=
  match b with
  | none => pq
  | some ref =>
    let heapIdx := (pq.cell ref).heapIdx
    if 0 < heapIdx && heapIdx < pq.len &&
        (pq.block heapIdx.toNat).summary.hash == (pq.cell ref).summary.hash then
      pq.removeIndex heapIdx.toNat
    else pq

end BlockPriorityQueue

end Hcexplorer.Hcdataapi

import Hcexplorer.Library.LinkedChain

/-!
# Listeners of an announced chain

A chain grows by single blocks, and its end is replaced by side chains. Each new block
is announced by its identifier; a side chain is announced by the identifier of its last
block, before the identifiers of all its blocks. A listener takes the announcements one
at a time. It has a new block completed at once, and a side chain with the last of its
blocks; until then it collects them.

The laws say that a listener recovers the changes of the chain from the announcements,
and that what it has completed after part of them is a first part of the changes. They
also tell two parts of one sequence of announcements apart by the blocks they announce.

Blocks and identifiers are arbitrary types.
-/

namespace Hcexplorer.Announcements

open LinkedChain

universe u v
variable {β : Type u} {ι : Type v}

/-- A change of a chain: a block on top, or a side chain above the block at a position. -/
inductive Change (β : Type u) where
  | extend (block : β)
  | replace (fork : Nat) (side : List β)
deriving DecidableEq, Repr

/-- What is announced: a block by its identifier, or a reorganization by the identifier of its
new head. -/
inductive Announcement (ι : Type v) where
  | block (id : ι)
  | reorganization (head : ι)
deriving DecidableEq, Repr

/-- What a listener completes: a block, or all the blocks of a side chain. -/
inductive Completed (ι : Type v) where
  | connected (id : ι)
  | switched (side : List ι)
deriving DecidableEq, Repr

/-- The last block of the side chain that is collected, if one is, and its blocks so far. -/
structure Listener (ι : Type v) where
  head : Option ι
  sideChain : List ι
deriving DecidableEq, Repr

namespace Change

/-- The chain after a change: longer by a block, or with a side chain in place of what is above
the fork. -/
def apply (chain : List β) : Change β → List β
  | .extend block => chain ++ [block]
  | .replace fork side => chain.take (fork + 1) ++ side

/-- The chain after several changes, one after another. -/
def applyAll (chain : List β) (changes : List (Change β)) : List β := changes.foldl apply chain

/-- A new block is the child of the last one; a side chain replaces some blocks, above the
parent of its first. -/
def Fits (view : View β ι) (chain : List β) : Change β → Prop
  | .extend block => ∀ tip ∈ chain.getLast?, view.Child tip block
  | .replace fork side => side ≠ [] ∧ fork + 1 < chain.length ∧
      ∃ ancestor, chain[fork]? = some ancestor ∧ view.Linked (ancestor :: side)

/-- Each of several changes fits the chain it is made to. -/
def AllFit (view : View β ι) : List β → List (Change β) → Prop
  | _, [] => True
  | chain, change :: rest => change.Fits view chain ∧ AllFit view (change.apply chain) rest

/-- The new blocks of a change, in their order. -/
def blocks : Change β → List β
  | .extend block => [block]
  | .replace _ side => side

/-- What a listener completes of a change: it connects a block, or switches to a side chain. -/
def completed (id : β → ι) : Change β → Completed ι
  | .extend block => .connected (id block)
  | .replace _ side => .switched (side.map id)

/-- How a change is announced. A side chain without blocks is not. -/
def announce (id : β → ι) : Change β → List (Announcement ι)
  | .extend block => [.block (id block)]
  | .replace _ side => match side.getLast? with
    | none => []
    | some tip => .reorganization (id tip) :: side.map fun block => .block (id block)

/-- A side chain has blocks, and its last one is told from the others by its identifier. -/
def Announceable (id : β → ι) : Change β → Prop
  | .extend _ => True
  | .replace _ side => ∃ before tip, side = before ++ [tip] ∧ id tip ∉ before.map id

/-- A change that fits a rooted chain leaves a rooted chain. -/
theorem Fits.rooted {view : View β ι} {chain : List β} {change : Change β}
    (fits : change.Fits view chain) (rooted : view.Rooted chain) :
    view.Rooted (change.apply chain) := by
  cases change with
  | extend block => exact rooted.concat fits
  | replace fork side =>
    obtain ⟨-, -, ancestor, found, linked⟩ := fits
    refine rooted.reorganize found linked.tail ?_
    intro first atStart
    cases side with
    | nil => cases atStart
    | cons head rest =>
      obtain rfl : head = first := Option.some.inj atStart
      exact (List.isChain_cons_cons.mp linked).1

/-- The last of several changes is applied to the chain after the others. -/
theorem applyAll_concat (chain : List β) (changes : List (Change β)) (change : Change β) :
    applyAll chain (changes ++ [change]) = change.apply (applyAll chain changes) := by
  simp [applyAll]

/-- A further change fits when it fits the chain that the others leave. -/
theorem allFit_concat {view : View β ι} {chain : List β} {changes : List (Change β)}
    {change : Change β} :
    AllFit view chain (changes ++ [change]) ↔
      AllFit view chain changes ∧ change.Fits view (applyAll chain changes) := by
  induction changes generalizing chain with
  | nil => simp [AllFit, applyAll]
  | cons first rest inductionHypothesis =>
    rw [List.cons_append, AllFit, inductionHypothesis, AllFit, and_assoc]
    rfl

/-- After some of the changes the chain is rooted and the next change fits it. -/
theorem AllFit.at {view : View β ι} {chain : List β} {changes : List (Change β)}
    (allFit : AllFit view chain changes) (rooted : view.Rooted chain) (count : Nat) :
    view.Rooted (applyAll chain (changes.take count)) ∧
      ∀ change, changes[count]? = some change →
        change.Fits view (applyAll chain (changes.take count)) := by
  induction changes generalizing chain count with
  | nil => simpa [applyAll] using rooted
  | cons first rest inductionHypothesis =>
    cases count with
    | zero =>
      refine ⟨rooted, ?_⟩
      intro change isFirst
      obtain rfl : first = change := Option.some.inj isFirst
      exact allFit.1
    | succ count => exact inductionHypothesis allFit.2 (allFit.1.rooted rooted) count

/-- The chain has no other blocks than it began with and than were new in a change. -/
theorem mem_applyAll {chain : List β} {changes : List (Change β)} {block : β}
    (member : block ∈ applyAll chain changes) : block ∈ chain ++ changes.flatMap blocks := by
  induction changes generalizing chain with
  | nil => simpa [applyAll] using member
  | cons change rest inductionHypothesis =>
    have inRest : block ∈ change.apply chain ++ rest.flatMap blocks := inductionHypothesis member
    rw [List.flatMap_cons]
    rcases List.mem_append.mp inRest with atFirst | later
    · cases change with
      | extend new =>
        rcases List.mem_append.mp atFirst with old | isNew
        · exact List.mem_append_left _ old
        · exact List.mem_append_right _ (List.mem_append_left _ isNew)
      | replace fork side =>
        rcases List.mem_append.mp atFirst with old | isNew
        · exact List.mem_append_left _ (List.mem_of_mem_take old)
        · exact List.mem_append_right _ (List.mem_append_left _ isNew)
    · exact List.mem_append_right _ (List.mem_append_right _ later)

end Change

/-- How several changes are announced, one after another. -/
def announceAll (id : β → ι) (changes : List (Change β)) : List (Announcement ι) :=
  changes.flatMap (Change.announce id)

/-- The identifiers of the announced blocks, in their order. -/
def blockIds : List (Announcement ι) → List ι
  | [] => []
  | .block id :: rest => id :: blockIds rest
  | .reorganization _ :: rest => blockIds rest

/-- The blocks of two rows of announcements are those of the one and then those of the other. -/
@[simp] theorem blockIds_append (front back : List (Announcement ι)) :
    blockIds (front ++ back) = blockIds front ++ blockIds back := by
  induction front with
  | nil => rfl
  | cons announcement rest inductionHypothesis =>
    cases announcement <;> simp [blockIds, inductionHypothesis]

/-- Where only blocks are announced, their identifiers are the announced ones. -/
@[simp] theorem blockIds_map_block (ids : List ι) : blockIds (ids.map .block) = ids := by
  induction ids with
  | nil => rfl
  | cons id rest inductionHypothesis => simp [blockIds, inductionHypothesis]

/-- Two splits of one sequence at a block, with the same blocks before it, are the same. -/
theorem split_unique {front front' back back' : List (Announcement ι)} {id id' : ι}
    (same : front ++ .block id :: back = front' ++ .block id' :: back')
    (blocks : blockIds front = blockIds front') : front = front' ∧ id = id' ∧ back = back' := by
  induction front generalizing front' with
  | nil =>
    cases front' with
    | nil => simpa using same
    | cons announcement rest =>
      obtain ⟨rfl, -⟩ := List.cons.inj same
      cases blocks
  | cons announcement rest inductionHypothesis =>
    cases front' with
    | nil =>
      obtain ⟨rfl, -⟩ := List.cons.inj same
      cases blocks
    | cons other rest' =>
      obtain ⟨rfl, later⟩ := List.cons.inj same
      have laterBlocks : blockIds rest = blockIds rest' := by
        cases announcement with
        | block id => exact (List.cons.inj blocks).2
        | reorganization head => exact blocks
      obtain ⟨rfl, rfl, rfl⟩ := inductionHypothesis later laterBlocks
      exact ⟨rfl, rfl, rfl⟩

section Listening

variable [DecidableEq ι]

namespace Listener

/-- Nothing is collected, as before the first announcement. -/
def idle : Listener ι := ⟨none, []⟩

/-- Take an announcement. A reorganization that is announced during another is dropped. -/
def take (listener : Listener ι) : Announcement ι → Listener ι
  | .block id => match listener.head with
    | none => listener
    | some head => if head = id then idle else ⟨some head, listener.sideChain ++ [id]⟩
  | .reorganization head => match listener.head with
    | none => ⟨some head, listener.sideChain⟩
    | some _ => listener

/-- What is completed by an announcement: a block outside of a reorganization, or the side chain
with its head. -/
def completes (listener : Listener ι) : Announcement ι → List (Completed ι)
  | .block id => match listener.head with
    | none => [.connected id]
    | some head => if head = id then [.switched (listener.sideChain ++ [id])] else []
  | .reorganization _ => []

/-- Take several announcements, one after another. -/
def takeAll (listener : Listener ι) (announcements : List (Announcement ι)) : Listener ι :=
  announcements.foldl take listener

/-- What is completed by several announcements, one after another. -/
def completesAll (listener : Listener ι) : List (Announcement ι) → List (Completed ι)
  | [] => []
  | announcement :: rest =>
    listener.completes announcement ++ (listener.take announcement).completesAll rest

variable {listener : Listener ι}

/-- Announcements in two parts are taken part by part. -/
@[simp] theorem takeAll_append (front back : List (Announcement ι)) :
    listener.takeAll (front ++ back) = (listener.takeAll front).takeAll back :=
  List.foldl_append

/-- The last of several announcements is taken after the others. -/
theorem takeAll_concat (announcements : List (Announcement ι)) (announcement : Announcement ι) :
    listener.takeAll (announcements ++ [announcement]) =
      (listener.takeAll announcements).take announcement := by
  rw [takeAll_append]
  rfl

/-- What a block does to a listener that collects nothing, to one that waits for the block,
and to one that waits for another. -/
theorem take_block_idle {id : ι} (isIdle : listener.head = none) :
    listener.take (.block id) = listener := by
  simp [take, isIdle]

/-- The head of a reorganization makes the listener idle again. -/
theorem take_block_head {id : ι} (isHead : listener.head = some id) :
    listener.take (.block id) = idle := by
  simp [take, isHead]

/-- Another block than the head joins the side chain. -/
theorem take_block_other {id head : ι} (isHead : listener.head = some head) (other : head ≠ id) :
    listener.take (.block id) = ⟨some head, listener.sideChain ++ [id]⟩ := by
  simp [take, isHead, other]

/-- A reorganization makes a listener that is idle collect blocks for its head. -/
theorem take_reorganization_idle {head : ι} (isIdle : listener.head = none) :
    listener.take (.reorganization head) = ⟨some head, listener.sideChain⟩ := by
  simp [take, isIdle]

/-- What announcements in two parts complete is completed part by part. -/
@[simp] theorem completesAll_append (front back : List (Announcement ι)) :
    listener.completesAll (front ++ back) =
      listener.completesAll front ++ (listener.takeAll front).completesAll back := by
  induction front generalizing listener with
  | nil => rfl
  | cons announcement rest inductionHypothesis =>
    simp [completesAll, inductionHypothesis, takeAll]

/-- Without a block nothing is completed. -/
theorem completesAll_of_no_blocks {announcements : List (Announcement ι)}
    (noBlocks : blockIds announcements = []) : listener.completesAll announcements = [] := by
  induction announcements generalizing listener with
  | nil => rfl
  | cons announcement rest inductionHypothesis =>
    cases announcement with
    | block id => cases noBlocks
    | reorganization head => exact inductionHypothesis noBlocks

/-- An idle listener completes a block as soon as it is announced. -/
theorem completesAll_concat_idle {announcements : List (Announcement ι)} {id : ι}
    (isIdle : (listener.takeAll announcements).head = none) :
    listener.completesAll (announcements ++ [.block id]) =
      listener.completesAll announcements ++ [.connected id] := by
  simp [completesAll, completes, isIdle]

/-- A listener that collects completes a side chain with its head. -/
theorem completesAll_concat_head {announcements : List (Announcement ι)} {id : ι}
    (isHead : (listener.takeAll announcements).head = some id) :
    listener.completesAll (announcements ++ [.block id]) = listener.completesAll announcements ++
      [.switched ((listener.takeAll announcements).sideChain ++ [id])] := by
  simp [completesAll, completes, isHead]

/-- A listener that collects completes nothing with another block. -/
theorem completesAll_concat_other {announcements : List (Announcement ι)} {id head : ι}
    (isHead : (listener.takeAll announcements).head = some head) (other : head ≠ id) :
    listener.completesAll (announcements ++ [.block id]) = listener.completesAll announcements := by
  simp [completesAll, completes, isHead, other]

/-- The blocks of a side chain below its last one are collected. -/
theorem takeAll_blocks {ids : List ι} {head : ι} (below : head ∉ ids) (collected : List ι) :
    (Listener.mk (some head) collected).takeAll (ids.map .block) = ⟨some head, collected ++ ids⟩ ∧
      (Listener.mk (some head) collected).completesAll (ids.map .block) = [] := by
  induction ids generalizing collected with
  | nil => simp [takeAll, completesAll]
  | cons id rest inductionHypothesis =>
    have other : head ≠ id := fun same => below (same ▸ List.mem_cons_self)
    obtain ⟨taken, nothing⟩ := inductionHypothesis
      (fun member => below (List.mem_cons_of_mem _ member)) (collected ++ [id])
    have first : (Listener.mk (some head) collected).take (.block id) =
        ⟨some head, collected ++ [id]⟩ := take_block_other rfl other
    constructor
    · rw [List.map_cons, takeAll, List.foldl_cons, first]
      simpa [takeAll] using taken
    · rw [List.map_cons, completesAll, first, nothing]
      simp [completes, other]

/-- A change is completed by its announcement, and the listener is idle afterwards. -/
theorem announced_change {id : β → ι} {change : Change β} (announceable : change.Announceable id) :
    (idle : Listener ι).takeAll (change.announce id) = idle ∧
      (idle : Listener ι).completesAll (change.announce id) = [change.completed id] := by
  cases change with
  | extend block => exact ⟨rfl, rfl⟩
  | replace fork side =>
    obtain ⟨before, tip, rfl, distinct⟩ := announceable
    have announced : (Change.replace fork (before ++ [tip])).announce id =
        .reorganization (id tip) :: ((before.map id).map .block ++ [.block (id tip)]) := by
      simp [Change.announce]
    obtain ⟨collected, nothing⟩ := takeAll_blocks distinct []
    have raised : (idle : Listener ι).take (.reorganization (id tip)) = ⟨some (id tip), []⟩ := rfl
    rw [announced]
    constructor
    · rw [takeAll, List.foldl_cons, raised]
      have taken : (Listener.mk (some (id tip)) []).takeAll
            ((before.map id).map .block ++ [.block (id tip)]) = _ :=
        takeAll_append _ _
      rw [collected] at taken
      refine taken.trans ?_
      simp [takeAll, take]
    · rw [completesAll, raised, completesAll_append, collected, nothing]
      simp [completes, completesAll, Change.completed]

/-- A listener of all announcements completes the changes, one after another. -/
theorem announced_changes {id : β → ι} {changes : List (Change β)}
    (announceable : ∀ change ∈ changes, change.Announceable id) :
    (idle : Listener ι).takeAll (announceAll id changes) = idle ∧
      (idle : Listener ι).completesAll (announceAll id changes) =
        changes.map (Change.completed id) := by
  induction changes with
  | nil => exact ⟨rfl, rfl⟩
  | cons change rest inductionHypothesis =>
    obtain ⟨taken, completed⟩ := announced_change (announceable change List.mem_cons_self)
    obtain ⟨takenLater, completedLater⟩ := inductionHypothesis
      fun other member => announceable other (List.mem_cons_of_mem _ member)
    have split : announceAll id (change :: rest) = change.announce id ++ announceAll id rest :=
      List.flatMap_cons
    constructor
    · rw [split, takeAll_append, taken, takenLater]
    · rw [split, completesAll_append, taken, completed, completedLater]
      rfl

/-- What is completed after part of the announcements is a first part of the changes. -/
theorem completed_part {id : β → ι} {changes : List (Change β)}
    (announceable : ∀ change ∈ changes, change.Announceable id)
    (taken : List (Announcement ι)) {pending : List (Announcement ι)}
    (split : taken ++ pending = announceAll id changes) :
    (idle : Listener ι).completesAll taken =
      (changes.take ((idle : Listener ι).completesAll taken).length).map (Change.completed id) := by
  have all := (announced_changes announceable).2
  rw [← split, completesAll_append] at all
  rw [List.map_take, ← all, List.take_left]

/-- When a block completes something, that is the next change. -/
theorem next_completed {id : β → ι} {changes : List (Change β)}
    (announceable : ∀ change ∈ changes, change.Announceable id)
    {front pending : List (Announcement ι)} {blockId : ι} {completed : Completed ι}
    (split : front ++ .block blockId :: pending = announceAll id changes)
    (completes : (idle : Listener ι).completesAll (front ++ [.block blockId]) =
      (idle : Listener ι).completesAll front ++ [completed]) :
    ∃ change, changes[((idle : Listener ι).completesAll front).length]? = some change ∧
      change.completed id = completed := by
  have part := completed_part announceable (front ++ [.block blockId])
    (by rw [List.append_assoc]; exact split)
  rw [completes, List.length_append, List.length_singleton] at part
  have last : ((idle : Listener ι).completesAll front ++ [completed])[
      ((idle : Listener ι).completesAll front).length]? = some completed := by simp
  rw [part, List.getElem?_map, List.getElem?_take_of_lt (Nat.lt_succ_self _)] at last
  exact Option.map_eq_some_iff.mp last

end Listener

end Listening

end Hcexplorer.Announcements

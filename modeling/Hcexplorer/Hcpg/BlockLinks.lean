import Hcexplorer.Hcpg.NoFailures
import Hcexplorer.Library.Runs
import Hcexplorer.StakeChain

/-!
# Links between stored blocks

`StoreBlock` writes the link and the validity of a block when its successor is
stored, and finds the block's row through a map that it filled itself. The law:
after any number of process runs without failures, every block below the tip is
linked and judged by its successor exactly when no process stored a block over
tables that already had one.

A process opens the tables, synchronizes and then stores connected blocks, in the
order of the chain. Where it ends is free: by quit during the synchronization, or
after any number of connected blocks.
-/

namespace Hcexplorer.Hcpg

open Runs LinkedChain Session

/-- The node's main chain, from the genesis block, whose parent is no block. -/
structure MainChain (hcd : Hcd) (chain : List MsgBlock) : Prop where
  rooted : (chainView hcd).Rooted chain
  distinct : (chain.map hcd.hashOf).Nodup
  rootless : ∀ genesis ∈ chain.head?, ∀ block ∈ chain, hcd.hashOf block ≠ genesis.header.prevBlock

namespace MainChain

variable {hcd : Hcd} {chain : List MsgBlock}

/-- A block's position in a main chain is its height. -/
theorem height_eq (main : MainChain hcd chain) {position : Nat} {block : MsgBlock}
    (found : chain[position]? = some block) : block.header.height.toNat = position := by
  have height : ((block.header.height.toNat : Nat) : Int) = position := main.rooted.height_eq found
  exact_mod_cast height

/-- Blocks of a main chain with one hash are at one position. -/
theorem position_eq (main : MainChain hcd chain) {first second : Nat} {before after : MsgBlock}
    (foundFirst : chain[first]? = some before) (foundSecond : chain[second]? = some after)
    (same : hcd.hashOf before = hcd.hashOf after) : first = second := by
  have inside := (List.getElem?_eq_some_iff.mp foundFirst).1
  apply (List.getElem?_inj (by rwa [List.length_map]) main.distinct).mp
  rw [List.getElem?_map, List.getElem?_map, foundFirst, foundSecond, Option.map_some,
    Option.map_some, same]

/-- The parent of a block is the block before it. -/
theorem parent_eq (main : MainChain hcd chain) {position : Nat} {before after : MsgBlock}
    (found : chain[position]? = some before) (foundNext : chain[position + 1]? = some after) :
    after.header.prevBlock = hcd.hashOf before := by
  obtain ⟨inside, rfl⟩ := List.getElem?_eq_some_iff.mp foundNext
  obtain ⟨_, rfl⟩ := List.getElem?_eq_some_iff.mp found
  exact (List.isChain_iff_getElem.mp main.rooted.linked position inside).1

end MainChain

section Links

/-- Blocks `i` and `i + 1` were stored by one process. -/
def joined (starts : List Nat) (count i : Nat) : Bool := decide (i + 1 < count ∧ i + 1 ∉ starts)

/-- The validity of block `i` when `count` blocks are stored and processes started
storing at the given positions. -/
def validAt (chain : List MsgBlock) (starts : List Nat) (count i : Nat) : Bool :=
  if joined starts count i then
    (chain[i + 1]?.map fun after => decide (after.header.voteBits &&& 1 ≠ 0)).getD true
  else true

/-- The successor recorded for block `i`: the next block of the chain if one process stored both,
and none otherwise. -/
def nextAt (hcd : Hcd) (chain : List MsgBlock) (starts : List Nat) (count i : Nat) : Option Hash :=
  if joined starts count i then chain[i + 1]?.map hcd.hashOf else none

/-- The tables hold the first blocks of the chain, linked except where a process
started storing. -/
structure Links (hcd : Hcd) (chain : List MsgBlock) (first : Nat) (starts : List Nat)
    (db : ChainTables) : Prop where
  bounded : db.blocks.length ≤ chain.length
  links_length : db.blockChain.length = db.blocks.length
  sequence : db.blocksSequence = first + db.blocks.length
  block : ∀ i block, i < db.blocks.length → chain[i]? = some block →
    ∃ row, db.blocks[i]? = some ⟨first + i, row⟩ ∧ row.block.hash = hcd.hashOf block ∧
      row.block.height = block.header.height ∧ row.isValid = validAt chain starts db.blocks.length i
  link : ∀ i block, i < db.blocks.length → chain[i]? = some block →
    ∃ prev, db.blockChain[i]? =
      some ⟨first + i, prev, hcd.hashOf block, nextAt hcd chain starts db.blocks.length i⟩
  starts_lt : ∀ i ∈ starts, i < db.blocks.length

variable {hcd : Hcd} {chain : List MsgBlock} {first : Nat} {starts : List Nat} {db : ChainTables}

namespace Links

/-- A stored position is one of the chain, since the tables hold no more blocks than the chain. -/
theorem exists_block (links : Links hcd chain first starts db) {i : Nat}
    (inside : i < db.blocks.length) : ∃ block, chain[i]? = some block :=
  ⟨_, List.getElem?_eq_getElem (Nat.lt_of_lt_of_le inside links.bounded)⟩

/-- The stored row at a position, with its block. -/
theorem block_of_getElem (links : Links hcd chain first starts db) {i : Nat} {stored : Stored BlockRow}
    (found : db.blocks[i]? = some stored) : ∃ block, chain[i]? = some block ∧ stored.id = first + i ∧
      stored.row.block.hash = hcd.hashOf block ∧ stored.row.block.height = block.header.height := by
  have inside := (List.getElem?_eq_some_iff.mp found).1
  obtain ⟨block, inChain⟩ := links.exists_block inside
  obtain ⟨row, isRow, sameHash, sameHeight, -⟩ := links.block i block inside inChain
  obtain rfl := Option.some.inj (found.symm.trans isRow)
  exact ⟨_, inChain, rfl, sameHash, sameHeight⟩

/-- The row ids of the blocks are consecutive, from the first one on. -/
theorem ids (links : Links hcd chain first starts db) :
    db.blocks.map Stored.id = List.range' first db.blocks.length := by
  apply List.ext_getElem?
  intro i
  rw [List.getElem?_map]
  cases found : db.blocks[i]? with
  | none =>
    have outside := List.getElem?_eq_none_iff.mp found
    rw [Option.map_none, List.getElem?_eq_none (by rwa [List.length_range'])]
  | some stored =>
    have inside := (List.getElem?_eq_some_iff.mp found).1
    obtain ⟨block, -, isId, -⟩ := links.block_of_getElem found
    rw [Option.map_some, isId, List.getElem?_range' inside, Nat.one_mul]

/-- The row ids of the links are those of the blocks, in the same order. -/
theorem link_ids (links : Links hcd chain first starts db) :
    db.blockChain.map BlockChainRow.blockDbID = List.range' first db.blocks.length := by
  apply List.ext_getElem?
  intro i
  rw [List.getElem?_map]
  by_cases inside : i < db.blocks.length
  · obtain ⟨block, inChain⟩ := links.exists_block inside
    obtain ⟨prev, isRow⟩ := links.link i block inside inChain
    rw [isRow, Option.map_some, List.getElem?_range' inside, Nat.one_mul]
  · have outside : db.blockChain.length ≤ i := by have := links.links_length; omega
    rw [List.getElem?_eq_none outside, Option.map_none,
      List.getElem?_eq_none (by rw [List.length_range']; omega)]

/-- The hash of a block not stored yet is in neither table. -/
theorem fresh (links : Links hcd chain first starts db) (main : MainChain hcd chain)
    {block : MsgBlock} (isNext : chain[db.blocks.length]? = some block) :
    (∀ stored ∈ db.blocks, stored.row.block.hash ≠ hcd.hashOf block) ∧
      ∀ row ∈ db.blockChain, row.thisHash ≠ hcd.hashOf block := by
  constructor
  · intro stored member same
    obtain ⟨i, found⟩ := List.mem_iff_getElem?.mp member
    obtain ⟨other, isOther, -, isHash, -⟩ := links.block_of_getElem found
    have position := main.position_eq isOther isNext (isHash.symm.trans same)
    have inside := (List.getElem?_eq_some_iff.mp found).1
    omega
  · intro row member same
    obtain ⟨i, found⟩ := List.mem_iff_getElem?.mp member
    have inside : i < db.blocks.length := links.links_length ▸ (List.getElem?_eq_some_iff.mp found).1
    obtain ⟨other, inChain⟩ := links.exists_block inside
    obtain ⟨prev, isRow⟩ := links.link i other inside inChain
    obtain rfl := Option.some.inj (found.symm.trans isRow)
    have position := main.position_eq inChain isNext same
    omega

/-- The height of the tables is one below the number of blocks. -/
theorem heightDB (links : Links hcd chain first starts db) (main : MainChain hcd chain) :
    db.heightDB = if db.blocks.length = 0 then none else some (db.blocks.length - 1) := by
  have heights : (db.blocks.map fun stored => stored.row.block.height.toNat) =
      List.range db.blocks.length := by
    apply List.ext_getElem?
    intro i
    rw [List.getElem?_map]
    cases found : db.blocks[i]? with
    | none =>
      have outside := List.getElem?_eq_none_iff.mp found
      rw [Option.map_none, List.getElem?_eq_none (by rwa [List.length_range])]
    | some stored =>
      have inside := (List.getElem?_eq_some_iff.mp found).1
      obtain ⟨block, isBlock, -, -, isHeight⟩ := links.block_of_getElem found
      rw [Option.map_some, isHeight, main.height_eq isBlock, List.getElem?_range inside]
  rw [ChainTables.heightDB, heights]
  split
  · rename_i empty
    rw [empty]
    rfl
  · rw [List.max?_eq_some_iff]
    constructor
    · exact List.mem_range.mpr (by omega)
    · intro other member
      have := List.mem_range.mp member
      omega

end Links

/-- A block that a process stores first is joined to none, so it changes nothing between the
earlier ones. -/
theorem joined_insert (starts : List Nat) (count i : Nat) :
    joined (count :: starts) (count + 1) i = joined starts count i := by
  simp only [joined, List.mem_cons, not_or, decide_eq_decide]
  constructor
  · rintro ⟨inside, different, absent⟩
    exact ⟨by omega, absent⟩
  · rintro ⟨inside, absent⟩
    exact ⟨by omega, by omega, absent⟩

/-- Only the block before a start is affected by it. -/
theorem joined_cons_of_ne {start i : Nat} (different : i + 1 ≠ start) (starts : List Nat)
    (count : Nat) : joined (start :: starts) count i = joined starts count i := by
  simp [joined, different]

/-- The rows of the next block, with no link to the block before. -/
def ChainTables.insertRows (dbBlock : Block) (db : ChainTables) : ChainTables :=
  { db with
    blocksSequence := db.blocksSequence + 1
    blocks := db.blocks ++ [⟨db.blocksSequence, ⟨dbBlock, true⟩⟩]
    blockChain := db.blockChain ++ [⟨db.blocksSequence, dbBlock.previousHash, dbBlock.hash, none⟩] }

/-- The block's own rows are one more position, at which storing starts anew. -/
theorem Links.insertRows (links : Links hcd chain first starts db) {block : MsgBlock}
    (isNext : chain[db.blocks.length]? = some block) {dbBlock : Block}
    (isHash : dbBlock.hash = hcd.hashOf block) (isHeight : dbBlock.height = block.header.height) :
    Links hcd chain first (db.blocks.length :: starts) (db.insertRows dbBlock) := by
  have length : (db.insertRows dbBlock).blocks.length = db.blocks.length + 1 := by
    rw [ChainTables.insertRows, List.length_append, List.length_singleton]
  have last {i : Nat} {other : MsgBlock} (atEnd : ¬ i < db.blocks.length)
      (inside : i < db.blocks.length + 1) (isBlock : chain[i]? = some other) :
      i = db.blocks.length ∧ other = block := by
    have same : i = db.blocks.length := by omega
    refine ⟨same, Option.some.inj ?_⟩
    rw [← isBlock, same, isNext]
  refine ⟨?_, ?_, ?_, ?_, ?_, ?_⟩
  · rw [length]
    exact (List.getElem?_eq_some_iff.mp isNext).1
  · rw [length, ChainTables.insertRows, List.length_append, links.links_length,
      List.length_singleton]
  · rw [length, ChainTables.insertRows, links.sequence, Nat.add_assoc]
  · intro i other inside isBlock
    rw [length] at inside ⊢
    by_cases old : i < db.blocks.length
    · obtain ⟨row, isRow, rowHash, rowHeight, rowValid⟩ := links.block i other old isBlock
      refine ⟨row, ?_, rowHash, rowHeight, ?_⟩
      · rw [ChainTables.insertRows, List.getElem?_append_left old, isRow]
      · rw [rowValid, validAt, validAt, joined_insert]
    · obtain ⟨rfl, rfl⟩ := last old inside isBlock
      refine ⟨⟨dbBlock, true⟩, ?_, isHash, isHeight, ?_⟩
      · rw [ChainTables.insertRows, List.getElem?_append_right (Nat.le_refl _), Nat.sub_self,
          links.sequence]
        rfl
      · simp [validAt, joined]
  · intro i other inside isBlock
    rw [length] at inside ⊢
    by_cases old : i < db.blocks.length
    · obtain ⟨prev, isRow⟩ := links.link i other old isBlock
      refine ⟨prev, ?_⟩
      rw [ChainTables.insertRows, List.getElem?_append_left (by rw [links.links_length]; exact old),
        isRow, nextAt, nextAt, joined_insert]
    · obtain ⟨rfl, rfl⟩ := last old inside isBlock
      refine ⟨dbBlock.previousHash, ?_⟩
      rw [ChainTables.insertRows, List.getElem?_append_right (by rw [links.links_length]),
        links.links_length, Nat.sub_self, links.sequence, isHash]
      simp [nextAt, joined]
  · intro i member
    rw [length]
    rcases List.mem_cons.mp member with rfl | old
    · exact Nat.lt_succ_self _
    · exact Nat.lt_succ_of_lt (links.starts_lt i old)

/-- The row of the block before, judged and linked by its successor. -/
def ChainTables.linkRow (id : Nat) (isValid : Bool) (next : Hash) (db : ChainTables) : ChainTables :=
  { db with
    blocks := db.blocks.map fun stored =>
      if stored.id = id then { stored with row := { stored.row with isValid := isValid } } else stored
    blockChain := db.blockChain.map fun row =>
      if row.blockDbID = id then { row with nextHash := some next } else row }

/-- Linking the last but one position joins the last start to it. -/
theorem Links.linkRow {position : Nat} (links : Links hcd chain first ((position + 1) :: starts) db)
    (atEnd : db.blocks.length = position + 2) {block : MsgBlock}
    (isLast : chain[position + 1]? = some block) (absent : position + 1 ∉ starts) :
    Links hcd chain first starts (db.linkRow (first + position)
      (decide (block.header.voteBits &&& 1 ≠ 0)) (hcd.hashOf block)) := by
  have length : (db.linkRow (first + position) (decide (block.header.voteBits &&& 1 ≠ 0))
      (hcd.hashOf block)).blocks.length = db.blocks.length := by
    rw [ChainTables.linkRow, List.length_map]
  have joins : joined starts (position + 2) position = true := by simp [joined, absent]
  refine ⟨?_, ?_, ?_, ?_, ?_, ?_⟩
  · rw [length]
    exact links.bounded
  · rw [length, ChainTables.linkRow, List.length_map, links.links_length]
  · rw [length]
    exact links.sequence
  · intro i other inside isBlock
    rw [length] at inside ⊢
    obtain ⟨row, isRow, rowHash, rowHeight, rowValid⟩ := links.block i other inside isBlock
    simp only [ChainTables.linkRow, List.getElem?_map, isRow, Option.map_some]
    by_cases here : i = position
    · subst here
      refine ⟨{ row with isValid := decide (block.header.voteBits &&& 1 ≠ 0) },
        by rw [if_pos rfl], rowHash, rowHeight, ?_⟩
      simp only [atEnd, validAt, joins, if_true, isLast, Option.map_some, Option.getD_some]
    · refine ⟨row, by rw [if_neg (by omega)], rowHash, rowHeight, ?_⟩
      rw [rowValid, validAt, validAt, joined_cons_of_ne (by omega)]
  · intro i other inside isBlock
    rw [length] at inside ⊢
    obtain ⟨prev, isRow⟩ := links.link i other inside isBlock
    refine ⟨prev, ?_⟩
    simp only [ChainTables.linkRow, List.getElem?_map, isRow, Option.map_some]
    by_cases here : i = position
    · subst here
      rw [if_pos rfl]
      simp only [atEnd, nextAt, joins, if_true, isLast, Option.map_some]
    · rw [if_neg (by omega), nextAt, nextAt, joined_cons_of_ne (by omega)]
  · intro i member
    rw [length]
    exact links.starts_lt i (List.mem_cons_of_mem _ member)

/-- One row has a given id among the stored ones. -/
theorem Links.countP_id (links : Links hcd chain first starts db) {position : Nat}
    (inside : position < db.blocks.length) :
    (db.blocks.countP fun stored => stored.id = first + position) = 1 ∧
      (db.blockChain.countP fun row => row.blockDbID = first + position) = 1 := by
  have once : (List.range' first db.blocks.length).countP (fun id => id = first + position) = 1 := by
    have member : first + position ∈ List.range' first db.blocks.length :=
      List.mem_range'_1.mpr ⟨by omega, by omega⟩
    have counted : (List.range' first db.blocks.length).count (first + position) = 1 :=
      List.count_eq_one_of_mem List.nodup_range' member
    exact counted
  constructor
  · rw [← once, ← links.ids, List.countP_map]
    rfl
  · rw [← once, ← links.link_ids, List.countP_map]
    rfl

/-- Setting a valid block valid changes nothing, and only the next hash of its link is written. -/
theorem ChainTables.linkRow_valid {id : Nat} {next : Hash}
    (isValid : ∀ stored ∈ db.blocks, stored.id = id → stored.row.isValid = true) :
    db.linkRow id true next = { db with blockChain := db.blockChain.map fun row =>
      if row.blockDbID = id then { row with nextHash := some next } else row } := by
  have kept : (db.blocks.map fun stored => if stored.id = id then
      { stored with row := { stored.row with isValid := true } } else stored) = db.blocks := by
    conv_rhs => rw [← List.map_id db.blocks]
    apply List.map_congr_left
    intro stored member
    split
    · rename_i same
      have already := isValid stored member same
      rw [← already]
      rfl
    · rfl
  rw [ChainTables.linkRow, kept]

/-- The last part of `StoreBlock` joins the new block to a block before that the
map knows. -/
theorem Links.updatePrevious {pgb : ChainDB} {position : Nat}
    (links : Links hcd chain first ((position + 1) :: starts) pgb.db)
    (atEnd : pgb.db.blocks.length = position + 2) {block : MsgBlock}
    (isLast : chain[position + 1]? = some block) (absent : position + 1 ∉ starts)
    (isKnown : pgb.lastBlock block.header.prevBlock = some (first + position)) {env : StoreEnv}
    (clean : env.Clean) {dbBlock : Block} (isHash : dbBlock.hash = hcd.hashOf block)
    (isVote : dbBlock.voteBits = block.header.voteBits) :
    ∃ after, pgb.updatePrevious env block dbBlock =
        (.ok (), { pgb with db := after, validHeight := block.height }) ∧
      Links hcd chain first starts after ∧ after.blocks.length = pgb.db.blocks.length := by
  obtain ⟨oneBlock, oneLink⟩ := links.countP_id (by omega : position < pgb.db.blocks.length)
  refine ⟨pgb.db.linkRow (first + position) (decide (block.header.voteBits &&& 1 ≠ 0))
    (hcd.hashOf block), ?_, links.linkRow atEnd isLast absent, by
      rw [ChainTables.linkRow, List.length_map]⟩
  by_cases valid : block.header.voteBits &&& 1 ≠ 0
  · have isValid : ∀ stored ∈ pgb.db.blocks, stored.id = first + position →
        stored.row.isValid = true := by
      intro stored member same
      obtain ⟨i, found⟩ := List.mem_iff_getElem?.mp member
      obtain ⟨other, inChain, isId, -⟩ := links.block_of_getElem found
      have inside := (List.getElem?_eq_some_iff.mp found).1
      obtain ⟨row, isRow, -, -, rowValid⟩ := links.block i other inside inChain
      obtain rfl := Option.some.inj (found.symm.trans isRow)
      obtain rfl : i = position := by omega
      simp [rowValid, validAt, joined]
    rw [decide_eq_true valid, ChainTables.linkRow_valid isValid]
    simp only [ChainDB.updatePrevious, isKnown, isVote, if_pos valid, updateBlockNext,
      clean.updateBlockNext, oneLink, exactlyOne, isHash, ne_eq, not_true_eq_false, if_false]
  · have invalid : block.header.voteBits &&& 1 = 0 := not_not.mp valid
    simp only [ChainDB.updatePrevious, isKnown, isVote, invalid, updateLastBlock,
      clean.updateLastBlock, oneBlock, updateBlockNext, clean.updateBlockNext, oneLink, exactlyOne,
      isHash, ne_eq, not_true_eq_false, if_false, decide_false, ChainTables.linkRow]

/-- The positions at which processes started storing, the last of them having
started over the tables at position `opened`. -/
def startsOf (before : List Nat) (opened count : Nat) : List Nat :=
  if opened < count then opened :: before else before

/-- A process that opened the tables when they held `opened` blocks: its map knows
the blocks that it stored itself. -/
structure InProcess (hcd : Hcd) (chain : List MsgBlock) (first : Nat) (before : List Nat)
    (opened : Nat) (pgb : ChainDB) : Prop where
  links : Links hcd chain first (startsOf before opened pgb.db.blocks.length) pgb.db
  opened_le : opened ≤ pgb.db.blocks.length
  before_lt : ∀ i ∈ before, i < opened
  known : ∀ hash id, pgb.lastBlock hash = some id ↔ ∃ i block, opened ≤ i ∧
    i < pgb.db.blocks.length ∧ chain[i]? = some block ∧ hcd.hashOf block = hash ∧ id = first + i

/-- A block's parent is not the block itself, as the two are at different heights. -/
theorem MainChain.parent_ne (main : MainChain hcd chain) {position : Nat} {block : MsgBlock}
    (found : chain[position]? = some block) : block.header.prevBlock ≠ hcd.hashOf block := by
  intro same
  cases position with
  | zero =>
    have isGenesis : block ∈ chain.head? := by rw [List.head?_eq_getElem?, found]; rfl
    exact main.rootless block isGenesis block (List.mem_of_getElem? found) same.symm
  | succ position =>
    have inside := (List.getElem?_eq_some_iff.mp found).1
    have isBefore := List.getElem?_eq_getElem (Nat.lt_of_succ_lt inside)
    have isParent := main.parent_eq isBefore found
    have position_eq := main.position_eq isBefore found (isParent.symm.trans same)
    omega

/-- The state behind the two INSERTs of `StoreBlock`: the rows of the block are there, its row id
is remembered under its hash, and its height is the best one. -/
def ChainDB.withRows (hcd : Hcd) (pgb : ChainDB) (block : MsgBlock) (dbBlock : Block) : ChainDB :=
  { pgb with
    db := pgb.db.insertRows dbBlock
    lastBlock := fun hash =>
      if hash = hcd.hashOf block then some pgb.db.blocksSequence else pgb.lastBlock hash
    bestBlock := (dbBlock.height.toNat : Int) }

/-- A block whose hash neither table has is inserted, and then the previous block is updated. -/
theorem storeBlockRows_fresh {pgb : ChainDB} {block : MsgBlock} {dbBlock : Block} {env : StoreEnv}
    (clean : env.Clean)
    (newBlock : ∀ stored ∈ pgb.db.blocks, stored.row.block.hash ≠ dbBlock.hash)
    (newLink : ∀ row ∈ pgb.db.blockChain, row.thisHash ≠ dbBlock.hash) :
    pgb.storeBlockRows hcd env block dbBlock true =
      (pgb.withRows hcd block dbBlock).updatePrevious env block dbBlock := by
  have noBlock : ¬ (pgb.dupChecks = true ∧
      ∃ stored ∈ pgb.db.blocks, stored.row.block.hash = dbBlock.hash) := by
    rintro ⟨-, stored, member, same⟩
    exact newBlock stored member same
  have noLink : ¬ ∃ present ∈ pgb.db.blockChain, present.thisHash = dbBlock.hash := by
    rintro ⟨row, member, same⟩
    exact newLink row member same
  simp only [ChainDB.storeBlockRows, insertBlock, clean.insertBlock, if_neg noBlock,
    insertBlockPrevNext, clean.insertBlockPrevNext, if_neg noLink, ChainDB.withRows,
    ChainTables.insertRows]

namespace InProcess

variable {before : List Nat} {opened : Nat} {pgb : ChainDB}

/-- After a block is stored, the map has its id under its hash and is otherwise as it was. -/
theorem known_insert (inProcess : InProcess hcd chain first before opened pgb)
    (main : MainChain hcd chain) {block : MsgBlock}
    (isNext : chain[pgb.db.blocks.length]? = some block) (hash : Hash) (id : Nat) :
    (if hash = hcd.hashOf block then some (first + pgb.db.blocks.length) else pgb.lastBlock hash) =
        some id ↔ ∃ i block, opened ≤ i ∧ i < pgb.db.blocks.length + 1 ∧ chain[i]? = some block ∧
      hcd.hashOf block = hash ∧ id = first + i := by
  by_cases own : hash = hcd.hashOf block
  · rw [if_pos own]
    constructor
    · intro isId
      exact ⟨_, block, inProcess.opened_le, Nat.lt_succ_self _, isNext, own.symm,
        (Option.some.inj isId).symm⟩
    · rintro ⟨i, other, -, -, isOther, sameHash, rfl⟩
      have position := main.position_eq isOther isNext (sameHash.trans own)
      rw [position]
  · rw [if_neg own, inProcess.known]
    constructor
    · rintro ⟨i, other, later, inside, rest⟩
      exact ⟨i, other, later, Nat.lt_succ_of_lt inside, rest⟩
    · rintro ⟨i, other, later, inside, isOther, sameHash, isId⟩
      have different : i ≠ pgb.db.blocks.length := by
        rintro rfl
        obtain rfl := Option.some.inj (isOther.symm.trans isNext)
        exact own sameHash.symm
      exact ⟨i, other, later, by omega, isOther, sameHash, isId⟩

/-- The rows of the next block of the chain are new, so that they are inserted and `StoreBlock`
goes on to the block before. -/
theorem storeBlockRows_eq (inProcess : InProcess hcd chain first before opened pgb)
    (main : MainChain hcd chain) {block : MsgBlock}
    (isNext : chain[pgb.db.blocks.length]? = some block) {env : StoreEnv} (clean : env.Clean)
    {dbBlock : Block} (isHash : dbBlock.hash = hcd.hashOf block) :
    pgb.storeBlockRows hcd env block dbBlock true =
      (pgb.withRows hcd block dbBlock).updatePrevious env block dbBlock := by
  obtain ⟨newBlock, newLink⟩ := inProcess.links.fresh main isNext
  refine storeBlockRows_fresh clean ?_ ?_
  · rintro stored member same
    exact newBlock stored member (same.trans isHash)
  · rintro row member same
    exact newLink row member (same.trans isHash)

/-- With the rows of a block there is one block more. -/
theorem length_insertRows (db : ChainTables) (dbBlock : Block) :
    (db.insertRows dbBlock).blocks.length = db.blocks.length + 1 := by
  rw [ChainTables.insertRows, List.length_append, List.length_singleton]

/-- A process that stored the block before joins the next block of the chain to it. -/
theorem updatePrevious_joins (inProcess : InProcess hcd chain first before opened pgb)
    (main : MainChain hcd chain) {block : MsgBlock}
    (isNext : chain[pgb.db.blocks.length]? = some block) {env : StoreEnv} (clean : env.Clean)
    {dbBlock : Block} (isHash : dbBlock.hash = hcd.hashOf block)
    (isHeight : dbBlock.height = block.header.height)
    (isVote : dbBlock.voteBits = block.header.voteBits)
    (storing : opened < pgb.db.blocks.length) :
    ∃ after, (pgb.withRows hcd block dbBlock).updatePrevious env block dbBlock = (.ok (), after) ∧
      InProcess hcd chain first before opened after ∧
      after.db.blocks.length = pgb.db.blocks.length + 1 := by
  have rows := inProcess.links.insertRows isNext isHash isHeight
  have known := inProcess.known_insert main isNext
  rw [← inProcess.links.sequence] at known
  let inserted : ChainDB := pgb.withRows hcd block dbBlock
  obtain ⟨position, isPosition⟩ := Nat.exists_eq_succ_of_ne_zero (Nat.ne_zero_of_lt storing)
  have starts : startsOf before opened pgb.db.blocks.length = opened :: before := if_pos storing
  rw [isPosition, Nat.succ_eq_add_one] at isNext
  obtain ⟨parent, isParent⟩ :=
    inProcess.links.exists_block (by omega : position < pgb.db.blocks.length)
  have isKnown : inserted.lastBlock block.header.prevBlock = some (first + position) :=
    (known _ _).mpr ⟨position, parent, by omega, by omega, isParent,
      (main.parent_eq isParent isNext).symm, rfl⟩
  have absent : position + 1 ∉ opened :: before := by
    intro member
    rcases List.mem_cons.mp member with same | older
    · omega
    · have := inProcess.before_lt _ older
      omega
  rw [starts, isPosition, Nat.succ_eq_add_one] at rows
  have insertedRows : Links hcd chain first ((position + 1) :: opened :: before) inserted.db := rows
  have atEnd : inserted.db.blocks.length = position + 2 :=
    (length_insertRows pgb.db dbBlock).trans (congrArg Nat.succ isPosition)
  obtain ⟨after, updated, linked, sameLength⟩ :=
    insertedRows.updatePrevious atEnd isNext absent isKnown clean isHash isVote
  have count : after.blocks.length = pgb.db.blocks.length + 1 :=
    sameLength.trans (length_insertRows pgb.db dbBlock)
  refine ⟨_, updated, ⟨?_, ?_, inProcess.before_lt, ?_⟩, count⟩
  · rw [show startsOf before opened after.blocks.length = opened :: before from
      if_pos (by omega)]
    exact linked
  · exact count ▸ Nat.le_succ_of_le inProcess.opened_le
  · rw [count]
    exact known

/-- The first block that a process stores is joined to none, for the process does not know the
block before. -/
theorem updatePrevious_first (inProcess : InProcess hcd chain first before opened pgb)
    (main : MainChain hcd chain) {block : MsgBlock}
    (isNext : chain[pgb.db.blocks.length]? = some block) {env : StoreEnv}
    {dbBlock : Block} (isHash : dbBlock.hash = hcd.hashOf block)
    (isHeight : dbBlock.height = block.header.height)
    (isFirst : opened = pgb.db.blocks.length) :
    ∃ after, (pgb.withRows hcd block dbBlock).updatePrevious env block dbBlock = (.ok (), after) ∧
      InProcess hcd chain first before opened after ∧
      after.db.blocks.length = pgb.db.blocks.length + 1 := by
  have rows := inProcess.links.insertRows isNext isHash isHeight
  have length := length_insertRows pgb.db dbBlock
  have known := inProcess.known_insert main isNext
  rw [← inProcess.links.sequence] at known
  let inserted : ChainDB := pgb.withRows hcd block dbBlock
  have unknown : inserted.lastBlock block.header.prevBlock = none := by
    by_contra isSome
    obtain ⟨id, isId⟩ := Option.ne_none_iff_exists'.mp isSome
    obtain ⟨i, other, later, inside, isOther, isParent, -⟩ := (known _ _).mp isId
    have atEnd : i = pgb.db.blocks.length := by omega
    rw [atEnd, isNext] at isOther
    obtain rfl := Option.some.inj isOther
    exact main.parent_ne isNext isParent.symm
  have updated : inserted.updatePrevious env block dbBlock =
      (.ok (), { inserted with validHeight := block.height }) := by
    rw [ChainDB.updatePrevious, unknown]
  refine ⟨_, updated, ⟨?_, ?_, inProcess.before_lt, ?_⟩, length⟩
  · show Links hcd chain first (startsOf before opened (pgb.db.insertRows dbBlock).blocks.length)
      (pgb.db.insertRows dbBlock)
    rw [show startsOf before opened (pgb.db.insertRows dbBlock).blocks.length = opened :: before from
      if_pos (by omega)]
    rw [startsOf, if_neg (by omega), ← isFirst] at rows
    exact rows
  · exact length ▸ Nat.le_succ_of_le inProcess.opened_le
  · intro hash id
    show _ ↔ ∃ i block, opened ≤ i ∧ i < (pgb.db.insertRows dbBlock).blocks.length ∧ _
    rw [length]
    exact known hash id

/-- The last part of `StoreBlock` stores the next block of the chain and joins it
to the block before, if this process stored that. -/
theorem storeBlockRows (inProcess : InProcess hcd chain first before opened pgb)
    (main : MainChain hcd chain) {block : MsgBlock}
    (isNext : chain[pgb.db.blocks.length]? = some block) {env : StoreEnv} (clean : env.Clean)
    {dbBlock : Block} (isHash : dbBlock.hash = hcd.hashOf block)
    (isHeight : dbBlock.height = block.header.height)
    (isVote : dbBlock.voteBits = block.header.voteBits) :
    ∃ after, pgb.storeBlockRows hcd env block dbBlock true = (.ok (), after) ∧
      InProcess hcd chain first before opened after ∧
      after.db.blocks.length = pgb.db.blocks.length + 1 := by
  rw [inProcess.storeBlockRows_eq main isNext clean isHash]
  by_cases storing : opened < pgb.db.blocks.length
  · exact inProcess.updatePrevious_joins main isNext clean isHash isHeight isVote storing
  · have opensHere := inProcess.opened_le
    exact inProcess.updatePrevious_first main isNext isHash isHeight (by omega)

/-- The transaction tables do not matter to what a process knows of its blocks. -/
theorem withTx (inProcess : InProcess hcd chain first before opened pgb) (tx : TxDb) :
    InProcess hcd chain first before opened (pgb.withTx tx) :=
  ⟨⟨inProcess.links.bounded, inProcess.links.links_length, inProcess.links.sequence,
    inProcess.links.block, inProcess.links.link, inProcess.links.starts_lt⟩,
    inProcess.opened_le, inProcess.before_lt, inProcess.known⟩

/-- `StoreBlock` without failures stores the next block of the chain. -/
theorem storeBlock (inProcess : InProcess hcd chain first before opened pgb)
    (main : MainChain hcd chain) {block : MsgBlock}
    (isNext : chain[pgb.db.blocks.length]? = some block) {env : StoreEnv} (clean : env.Clean)
    (updateAddressesSpendingInfo : Bool) :
    ∃ counts after, pgb.storeBlock hcd env block true updateAddressesSpendingInfo =
        (.ok counts, after) ∧ InProcess hcd chain first before opened after ∧
      after.db.blocks.length = pgb.db.blocks.length + 1 := by
  obtain ⟨txDbIDs, stxDbIDs, counts, tx, stored⟩ := pgb.storeBlock_clean clean.toTreesClean hcd
    block true updateAddressesSpendingInfo
  obtain ⟨after, rows, kept, length⟩ :=
    (inProcess.withTx tx).storeBlockRows main isNext clean
      (rfl : ((msgBlockToDBBlock hcd block).withTxDbIDs txDbIDs stxDbIDs).hash = _) rfl rfl
  refine ⟨counts, after, ?_, kept, length⟩
  rw [stored, rows]
  rfl

end InProcess

end Links

section Processes

/-- One process: its synchronization, with the flags it was started with, and the
connected blocks it stores afterwards. -/
structure Process where
  sync : SyncEnv
  updateAllAddresses : Bool
  newIndexes : Bool
  live : List (StoreEnv × MsgBlock)

/-- Store connected blocks one after another. Nobody looks at the errors. -/
def storeLive (hcd : Hcd) (live : List (StoreEnv × MsgBlock)) (pgb : ChainDB) : ChainDB :=
  live.foldl (fun pgb connected => (pgb.store hcd connected.1 connected.2).2) pgb

/-- The synchronization of a process over the tables it finds. -/
def Process.synchronize (hcd : Hcd) (process : Process) (db : ChainTables) :
    Option (SyncEnd × ChainDB) :=
  (newChainDB db).syncFromMain hcd process.sync process.updateAllAddresses process.newIndexes

/-- The tables when the process has ended, after a synchronization and, if that finished, the
live blocks. -/
def Process.run (hcd : Hcd) (db : ChainTables) (process : Process) : Option ChainTables :=
  (process.synchronize hcd db).map fun
    | (.finished _, pgb) => (storeLive hcd process.live pgb).db
    | (.quit _, pgb) => pgb.db
    | (.failed _ _, pgb) => pgb.db

/-- A pass without failures, against a node with this main chain or a part of it. -/
structure SyncStep.Clean (chain : List MsgBlock) (step : SyncStep) : Prop where
  store : step.store.Clean
  getBlock : ∀ (i : Nat) block, chain[i]? = some block → step.getBlock i = .ok block
  getBestBlock : ∃ tip : Nat, tip < chain.length ∧ step.getBestBlock = .ok (tip : Int)

/-- A synchronization without failures: the node answers with blocks of the chain, and no
statement fails. -/
structure SyncEnv.Clean (chain : List MsgBlock) (env : SyncEnv) : Prop where
  getBestBlock : ∃ tip : Nat, tip < chain.length ∧ env.getBestBlock = .ok (tip : Int)
  heightDB : env.heightDB = none
  deindexAll : env.deindexAll = none
  indexAll : env.indexAll = none
  indexAddressTable : env.indexAddressTable = none
  steps : ∀ step ∈ env.steps, step.Clean chain

/-- No statement fails, and the connected blocks come in the order of the chain. -/
structure Process.Clean (hcd : Hcd) (chain : List MsgBlock) (db : ChainTables) (process : Process) :
    Prop where
  sync : process.sync.Clean chain
  live : ∀ connected ∈ process.live, connected.1.Clean
  inOrder : ∀ height pgb, process.synchronize hcd db = some (.finished height, pgb) →
    process.live.map Prod.snd <+: chain.drop pgb.db.blocks.length

/-- The process stores nothing: the node has no new block and none is connected, or
quit comes before the first new block. -/
def Process.Idle (db : ChainTables) (process : Process) : Prop :=
  ∀ (height : Nat) (tip : Int), db.heightDB = some height → process.sync.getBestBlock = .ok tip →
    if tip ≤ height then process.live = [] else ∃ step ∈ process.sync.steps.head?, step.quit = true

variable {hcd : Hcd} {chain : List MsgBlock} {first : Nat} {before starts : List Nat}
  {opened : Nat} {pgb : ChainDB} {db : ChainTables}

/-- The loop of a synchronization stores the next blocks of the chain. It ends by
quit or at the node's height, and stores nothing exactly when the height is
reached or quit comes first. -/
theorem InProcess.syncLoop (main : MainChain hcd chain) {updateAllAddresses : Bool}
    {steps : List SyncStep} (clean : ∀ step ∈ steps, step.Clean chain) {tip : Nat}
    (inChain : tip < chain.length) (inProcess : InProcess hcd chain first before opened pgb)
    {ended : LoopEnd} {after : ChainDB}
    (ran : syncLoop hcd updateAllAddresses steps pgb.db.blocks.length tip pgb = some (ended, after)) :
    InProcess hcd chain first before opened after ∧
      pgb.db.blocks.length ≤ after.db.blocks.length ∧ (∀ height err, ended ≠ .failed height err) ∧
      (after.db.blocks.length = pgb.db.blocks.length ↔
        tip < pgb.db.blocks.length ∨ ∃ step ∈ steps.head?, step.quit = true) ∧
      (tip < pgb.db.blocks.length → ended = .finished tip) ∧
      (¬ tip < pgb.db.blocks.length → (∃ step ∈ steps.head?, step.quit = true) →
        ∃ height, ended = .quit height) := by
  induction steps generalizing pgb tip with
  | nil =>
    rw [Hcpg.syncLoop] at ran
    split at ran
    · rename_i reached
      obtain ⟨rfl, rfl⟩ := Prod.mk.inj (Option.some.inj ran)
      have reached : tip < pgb.db.blocks.length := by exact_mod_cast reached
      exact ⟨inProcess, Nat.le_refl _, by simp, by simp [reached], fun _ => rfl, by simp [reached]⟩
    · cases ran
  | cons step rest inductionHypothesis =>
    rw [Hcpg.syncLoop] at ran
    split at ran
    · rename_i reached
      obtain ⟨rfl, rfl⟩ := Prod.mk.inj (Option.some.inj ran)
      have reached : tip < pgb.db.blocks.length := by exact_mod_cast reached
      exact ⟨inProcess, Nat.le_refl _, by simp, by simp [reached], fun _ => rfl, by simp [reached]⟩
    · rename_i notReached
      have notReached : ¬ tip < pgb.db.blocks.length := by exact_mod_cast notReached
      split at ran
      · rename_i quit
        obtain ⟨rfl, rfl⟩ := Prod.mk.inj (Option.some.inj ran)
        exact ⟨inProcess, Nat.le_refl _, by simp, by simp [quit], by simp [notReached], by simp⟩
      · rename_i noQuit
        have cleanStep := clean step List.mem_cons_self
        obtain ⟨nextTip, nextInChain, isBest⟩ := cleanStep.getBestBlock
        have isNext : chain[pgb.db.blocks.length]? = some chain[pgb.db.blocks.length] :=
          List.getElem?_eq_getElem (by omega)
        obtain ⟨counts, middle, stored, kept, length⟩ :=
          inProcess.storeBlock main isNext cleanStep.store (!updateAllAddresses)
        rw [cleanStep.getBlock _ _ isNext] at ran
        simp only [stored, isBest] at ran
        have sameHeight : (pgb.db.blocks.length : Int) + 1 = middle.db.blocks.length := by
          rw [length]
          push_cast
          rfl
        rw [sameHeight] at ran
        obtain ⟨keptAfter, grows, noFailure, -⟩ := inductionHypothesis
          (fun other member => clean other (List.mem_cons_of_mem _ member)) nextInChain kept ran
        refine ⟨keptAfter, by omega, noFailure, ?_, by simp [notReached], by simp [noQuit]⟩
        constructor
        · intro same
          omega
        · rintro (reached | ⟨other, isHead, quit⟩)
          · exact absurd reached notReached
          · obtain rfl : step = other := by simpa using isHead
            exact absurd quit noQuit

/-- Connected blocks in the order of the chain are stored. -/
theorem InProcess.storeLive (main : MainChain hcd chain) {live : List (StoreEnv × MsgBlock)}
    (clean : ∀ connected ∈ live, connected.1.Clean)
    (inProcess : InProcess hcd chain first before opened pgb)
    (inOrder : live.map Prod.snd <+: chain.drop pgb.db.blocks.length) :
    InProcess hcd chain first before opened (storeLive hcd live pgb) ∧
      (storeLive hcd live pgb).db.blocks.length = pgb.db.blocks.length + live.length := by
  induction live generalizing pgb with
  | nil => exact ⟨inProcess, rfl⟩
  | cons connected rest inductionHypothesis =>
    obtain ⟨others, isDrop, ordered⟩ := List.cons_prefix_iff.mp inOrder
    have isNext : chain[pgb.db.blocks.length]? = some connected.2 := by
      rw [← List.head?_drop, isDrop]
      rfl
    obtain ⟨counts, middle, stored, kept, length⟩ :=
      inProcess.storeBlock main isNext (clean connected List.mem_cons_self) true
    have restInOrder : rest.map Prod.snd <+: chain.drop middle.db.blocks.length := by
      rw [length, ← List.tail_drop, isDrop]
      exact ordered
    obtain ⟨keptAfter, grows⟩ := inductionHypothesis
      (fun other member => clean other (List.mem_cons_of_mem _ member)) kept restInOrder
    have isMiddle : (pgb.store hcd connected.1 connected.2).2 = middle := by
      rw [ChainDB.store, stored]
    rw [Hcpg.storeLive, List.foldl_cons, isMiddle]
    refine ⟨keptAfter, ?_⟩
    rw [Hcpg.storeLive] at grows
    rw [grows, length, List.length_cons]
    omega

/-- A process that has just opened the tables knows no block. -/
theorem Links.openProcess (links : Links hcd chain first starts db) (dupChecks : Bool) :
    InProcess hcd chain first starts db.blocks.length
      ((newChainDB db).enableDuplicateCheckOnInsert dupChecks) where
  links := by
    have none_here : startsOf starts db.blocks.length db.blocks.length = starts :=
      if_neg (Nat.lt_irrefl _)
    rw [← none_here] at links
    exact links
  opened_le := Nat.le_refl _
  before_lt := links.starts_lt
  known := by
    intro hash id
    constructor
    · rintro ⟨⟩
    · rintro ⟨i, block, later, inside, -⟩
      exact absurd inside (Nat.not_lt.mpr later)

/-- After the loop, without failures, a synchronization has finished; the block
tables are left. -/
theorem InProcess.finishSync {env : SyncEnv} (clean : env.Clean chain)
    (inProcess : InProcess hcd chain first before opened pgb)
    (updateAllAddresses reindexing : Bool) (nodeHeight : Int) :
    ∃ after, pgb.finishSync env updateAllAddresses reindexing nodeHeight =
        (.finished nodeHeight, after) ∧ InProcess hcd chain first before opened after ∧
      after.db.blocks.length = pgb.db.blocks.length := by
  have populated : InProcess hcd chain first before opened (pgb.populateSpending env) ∧
      (pgb.populateSpending env).db.blocks.length = pgb.db.blocks.length := by
    unfold ChainDB.populateSpending
    split
    · exact ⟨inProcess, rfl⟩
    · exact ⟨inProcess.withTx _, rfl⟩
  cases updateAllAddresses with
  | true =>
    exact ⟨_, by simp [ChainDB.finishSync, clean.indexAll], populated⟩
  | false =>
    exact ⟨pgb, by simp [ChainDB.finishSync, clean.indexAll, clean.indexAddressTable], inProcess, rfl⟩

/-- The resume height is the number of stored blocks. -/
theorem Links.lastHeight (links : Links hcd chain first starts db) (main : MainChain hcd chain) :
    db.lastHeight + 1 = db.blocks.length := by
  rw [ChainTables.lastHeight, links.heightDB main]
  split
  · rename_i empty
    rw [empty]
    rfl
  · simp only [Option.elim_some]
    omega

/-- A synchronization without failures, over tables whose blocks are linked but
for the given starts. -/
theorem Links.synchronize (links : Links hcd chain first starts db) (main : MainChain hcd chain)
    {process : Process} (clean : process.sync.Clean chain) {tip : Nat} (inChain : tip < chain.length)
    (isTip : process.sync.getBestBlock = .ok (tip : Int)) {ended : SyncEnd} {pgb : ChainDB}
    (ran : process.synchronize hcd db = some (ended, pgb)) :
    InProcess hcd chain first starts db.blocks.length pgb ∧
      (∀ height err, ended ≠ .failed height err) ∧
      (pgb.db.blocks.length = db.blocks.length ↔
        tip < db.blocks.length ∨ ∃ step ∈ process.sync.steps.head?, step.quit = true) ∧
      (tip < db.blocks.length → ended = .finished tip) ∧
      (¬ tip < db.blocks.length → (∃ step ∈ process.sync.steps.head?, step.quit = true) →
        ∃ height, ended = .quit height) := by
  rw [Process.synchronize, ChainDB.syncFromMain_eq] at ran
  rcases ChainDB.syncChainDB_cases ran with ⟨-, -, early⟩ |
    ⟨nodeHeight, loopEnd, middle, best, looped, exits⟩
  · rcases early with ⟨err, unreachable⟩ | unreadable | undropped
    · rw [isTip] at unreachable
      cases unreachable
    · exact absurd clean.heightDB unreadable
    · exact absurd clean.deindexAll undropped
  · obtain rfl : (tip : Int) = nodeHeight := Except.ok.inj (isTip.symm.trans best)
    have resumed : (newChainDB db).db.lastHeight + 1 = db.blocks.length := links.lastHeight main
    rw [resumed] at looped
    obtain ⟨kept, -, noFailure, nothing, atTip, byQuit⟩ :=
      (links.openProcess _).syncLoop main clean.steps inChain looped
    rcases exits with ⟨height, rfl, finish⟩ | ⟨height, rfl, rfl, rfl⟩ | ⟨height, err, rfl, -, -⟩
    · obtain ⟨after, finished, keptAfter, length⟩ :=
        kept.finishSync clean process.updateAllAddresses
          (ChainDB.reindexing process.newIndexes tip (newChainDB db).db.lastHeight) height
      obtain ⟨rfl, rfl⟩ := Prod.mk.inj (finished.symm.trans finish)
      refine ⟨keptAfter, by simp, by rw [length]; exact nothing, ?_, ?_⟩
      · intro reached
        rw [LoopEnd.finished.inj (atTip reached)]
      · intro notReached quit
        obtain ⟨_, impossible⟩ := byQuit notReached quit
        cases impossible
    · refine ⟨kept, by simp, nothing, ?_, fun _ _ => ⟨height, rfl⟩⟩
      intro reached
      cases atTip reached
    · exact absurd rfl (noFailure height err)

/-- What a process leaves: it stored nothing exactly when it is idle, if the
tables were not empty. -/
theorem Links.run (links : Links hcd chain first starts db) (main : MainChain hcd chain)
    {process : Process} (clean : process.Clean hcd chain db) {after : ChainTables}
    (ran : process.run hcd db = some after) :
    db.blocks.length ≤ after.blocks.length ∧
      Links hcd chain first (startsOf starts db.blocks.length after.blocks.length) after ∧
      (db.blocks ≠ [] → (after.blocks.length = db.blocks.length ↔ process.Idle db)) := by
  obtain ⟨tip, inChain, isTip⟩ := clean.sync.getBestBlock
  obtain ⟨⟨ended, pgb⟩, synchronized, rfl⟩ := Option.map_eq_some_iff.mp ran
  obtain ⟨kept, noFailure, nothing, atTip, byQuit⟩ :=
    links.synchronize main clean.sync inChain isTip synchronized
  have idle_iff (nonempty : db.blocks ≠ []) : process.Idle db ↔
      if tip < db.blocks.length then process.live = []
      else ∃ step ∈ process.sync.steps.head?, step.quit = true := by
    have positive : db.blocks.length ≠ 0 := fun empty => nonempty (List.eq_nil_of_length_eq_zero empty)
    have isHeight : db.heightDB = some (db.blocks.length - 1) := by
      rw [links.heightDB main, if_neg positive]
    have reached_iff : (tip : Int) ≤ ((db.blocks.length - 1 : Nat) : Int) ↔ tip < db.blocks.length := by
      omega
    constructor
    · intro idle
      have here := idle _ _ isHeight isTip
      simpa only [reached_iff] using here
    · intro here height other isHeightToo isTipToo
      obtain rfl := Option.some.inj (isHeight.symm.trans isHeightToo)
      obtain rfl := Except.ok.inj (isTip.symm.trans isTipToo)
      simpa only [reached_iff] using here
  cases ended with
  | finished height =>
    obtain ⟨keptAfter, length⟩ :=
      kept.storeLive main clean.live (clean.inOrder height pgb synchronized)
    refine ⟨keptAfter.opened_le, keptAfter.links, fun nonempty => ?_⟩
    rw [idle_iff nonempty, length]
    have grown := kept.opened_le
    by_cases reached : tip < db.blocks.length
    · rw [if_pos reached]
      have same := nothing.mpr (Or.inl reached)
      constructor
      · intro none_live
        exact List.eq_nil_of_length_eq_zero (by omega)
      · intro none_live
        rw [none_live, List.length_nil]
        omega
    · rw [if_neg reached]
      constructor
      · intro same
        exact (nothing.mp (by omega)).resolve_left reached
      · intro quit
        obtain ⟨_, impossible⟩ := byQuit reached quit
        cases impossible
  | quit height =>
    refine ⟨kept.opened_le, kept.links, fun nonempty => ?_⟩
    rw [idle_iff nonempty, nothing]
    by_cases reached : tip < db.blocks.length
    · have impossible := atTip reached
      cases impossible
    · simp only [reached, false_or, if_false]
  | failed height err => exact absurd rfl (noFailure height err)

/-- Every block below the tip is linked to its successor, and judged by it. -/
def BlocksLinked (hcd : Hcd) (chain : List MsgBlock) (db : ChainTables) : Prop :=
  ∀ i before after, i + 1 < db.blocks.length → chain[i]? = some before →
    chain[i + 1]? = some after →
      (∃ row ∈ db.blockChain, row.thisHash = hcd.hashOf before ∧
        row.nextHash = some (hcd.hashOf after)) ∧
      ∃ stored ∈ db.blocks, stored.row.block.hash = hcd.hashOf before ∧
        stored.row.isValid = decide (after.header.voteBits &&& 1 ≠ 0)

/-- Links are missing exactly before the positions where a process started over
stored blocks. -/
theorem Links.blocksLinked_iff (links : Links hcd chain first starts db)
    (main : MainChain hcd chain) : BlocksLinked hcd chain db ↔ ∀ i ∈ starts, i = 0 := by
  constructor
  · intro linked i isStart
    by_contra notFirst
    obtain ⟨position, rfl⟩ := Nat.exists_eq_succ_of_ne_zero notFirst
    have inside := links.starts_lt _ isStart
    obtain ⟨before, isBefore⟩ := links.exists_block (Nat.lt_of_succ_lt inside)
    obtain ⟨after, isAfter⟩ := links.exists_block inside
    obtain ⟨⟨row, member, isHash, isNext⟩, -⟩ := linked position before after inside isBefore isAfter
    obtain ⟨j, found⟩ := List.mem_iff_getElem?.mp member
    have insideToo : j < db.blocks.length :=
      links.links_length ▸ (List.getElem?_eq_some_iff.mp found).1
    obtain ⟨other, isOther⟩ := links.exists_block insideToo
    obtain ⟨prev, isRow⟩ := links.link j other insideToo isOther
    obtain rfl := Option.some.inj (found.symm.trans isRow)
    obtain rfl : j = position := main.position_eq isOther isBefore isHash
    have apart : joined starts db.blocks.length j = false := by simp [joined, isStart]
    simp [nextAt, apart] at isNext
  · intro atGenesis i before after inside isBefore isAfter
    have joins : joined starts db.blocks.length i = true := by
      simp only [joined, decide_eq_true_eq]
      refine ⟨inside, fun isStart => ?_⟩
      have := atGenesis _ isStart
      omega
    obtain ⟨prev, isLink⟩ := links.link i before (by omega) isBefore
    obtain ⟨row, isRow, isHash, -, isValid⟩ := links.block i before (by omega) isBefore
    refine ⟨⟨_, List.mem_of_getElem? isLink, rfl, ?_⟩, _, List.mem_of_getElem? isRow, isHash, ?_⟩
    · simp [nextAt, joins, isAfter]
    · simp [isValid, validAt, joins, isAfter]

/-- Over a run of processes the starts only grow, and a new start above the genesis
block comes from a process that is not idle over tables with blocks. -/
theorem Links.exec (links : Links hcd chain first starts db) (main : MainChain hcd chain)
    {processes : List Process}
    (clean : Admitted (Process.run hcd) (Process.Clean hcd chain) db processes)
    {final : ChainTables} (ran : Runs.exec (Process.run hcd) db processes = some final) :
    ∃ after, Links hcd chain first after final ∧ (∀ i ∈ starts, i ∈ after) ∧
      ((∀ i ∈ after, i ∈ starts ∨ i = 0) ↔ Admitted (Process.run hcd)
        (fun db process => db.blocks = [] ∨ process.Idle db) db processes) := by
  induction processes generalizing db starts with
  | nil =>
    obtain rfl := Option.some.inj ran
    exact ⟨starts, links, fun _ member => member, by simp [Admitted], fun _ i member => Or.inl member⟩
  | cons process rest inductionHypothesis =>
    obtain ⟨middle, taken, continued⟩ := Option.bind_eq_some_iff.mp ran
    obtain ⟨grows, joined, idle_iff⟩ := links.run main clean.1 taken
    obtain ⟨after, linksAfter, kept, later_iff⟩ :=
      inductionHypothesis joined (clean.2 middle taken) continued
    have same_rest : Admitted (Process.run hcd) (fun db process => db.blocks = [] ∨ process.Idle db)
        db (process :: rest) ↔ (db.blocks = [] ∨ process.Idle db) ∧
          ∀ i ∈ after, i ∈ startsOf starts db.blocks.length middle.blocks.length ∨ i = 0 := by
      rw [later_iff, Admitted]
      constructor
      · rintro ⟨here, later⟩
        exact ⟨here, later middle taken⟩
      · rintro ⟨here, later⟩
        refine ⟨here, fun next reached => ?_⟩
        obtain rfl := Option.some.inj (taken.symm.trans reached)
        exact later
    refine ⟨after, linksAfter, ?_, ?_⟩
    · intro i member
      apply kept
      rw [startsOf]
      split
      · exact List.mem_cons_of_mem _ member
      · exact member
    · rw [same_rest]
      by_cases stores : db.blocks.length < middle.blocks.length
      · rw [startsOf, if_pos stores] at kept ⊢
        constructor
        · intro covered
          refine ⟨?_, fun i member => ?_⟩
          · rcases covered _ (kept _ List.mem_cons_self) with old | atGenesis
            · exact absurd (links.starts_lt _ old) (Nat.lt_irrefl _)
            · exact Or.inl (List.eq_nil_of_length_eq_zero atGenesis)
          · rcases covered i member with old | atGenesis
            · exact Or.inl (List.mem_cons_of_mem _ old)
            · exact Or.inr atGenesis
        · rintro ⟨here, covered⟩ i member
          rcases covered i member with new | atGenesis
          · rcases List.mem_cons.mp new with rfl | old
            · rcases here with empty | idle
              · exact Or.inr (by rw [empty, List.length_nil])
              · by_cases empty : db.blocks = []
                · exact Or.inr (by rw [empty, List.length_nil])
                · have := (idle_iff empty).mpr idle
                  omega
            · exact Or.inl old
          · exact Or.inr atGenesis
      · rw [startsOf, if_neg stores]
        have here : db.blocks = [] ∨ process.Idle db := by
          by_cases empty : db.blocks = []
          · exact Or.inl empty
          · exact Or.inr ((idle_iff empty).mp (by omega))
        simp only [here, true_and]

/-- Blocks are linked and judged by their successors exactly when every process over
tables that hold blocks stores none: over an empty database all blocks are stored
by one process.

The starts of storing processes are carried through the run; a start above the
genesis block is a missing link. -/
theorem blocksLinked_iff_one_process (main : MainChain hcd chain) {start final : ChainTables}
    (noBlocks : start.blocks = []) (noLinks : start.blockChain = []) {processes : List Process}
    (clean : Admitted (Process.run hcd) (Process.Clean hcd chain) start processes)
    (ran : Runs.exec (Process.run hcd) start processes = some final) :
    BlocksLinked hcd chain final ↔ Admitted (Process.run hcd)
      (fun db process => db.blocks = [] ∨ process.Idle db) start processes := by
  have links : Links hcd chain start.blocksSequence [] start := by
    refine ⟨?_, ?_, ?_, ?_, ?_, ?_⟩ <;> simp [noBlocks, noLinks]
  obtain ⟨after, linksAfter, -, covered_iff⟩ := links.exec main clean ran
  rw [linksAfter.blocksLinked_iff main, ← covered_iff]
  simp

/-- A pass against a node with a chain, of which the given height is best. -/
def passToward (chain : List MsgBlock) (tip : Nat) : SyncStep :=
  ⟨false, fun i => chain[i.toNat]?.elim (.error "Block number out of range") .ok,
    .noFaults [], .ok tip⟩

/-- A process that synchronizes to a height without failures, in some passes. -/
def processToward (chain : List MsgBlock) (tip passes : Nat) : Process :=
  ⟨⟨.ok tip, none, none, List.replicate passes (passToward chain tip), none, none,
    .error "not needed", fun _ => none⟩, false, false, []⟩

/-- No statement of a process toward a block of the chain fails. -/
theorem processToward_clean (hcd : Hcd) {chain : List MsgBlock} {tip : Nat}
    (inChain : tip < chain.length) (passes : Nat) (db : ChainTables) :
    (processToward chain tip passes).Clean hcd chain db := by
  refine ⟨⟨⟨tip, inChain, rfl⟩, rfl, rfl, rfl, rfl, ?_⟩, ?_, ?_⟩
  · intro step member
    obtain rfl := List.eq_of_mem_replicate member
    refine ⟨StoreEnv.noFaults_clean [], ?_, tip, inChain, rfl⟩
    intro i block found
    simp [passToward, found]
  · intro connected member
    cases member
  · intro height pgb _
    exact List.nil_prefix

/-- A chain of three blocks, from the genesis block on. -/
def sampleChain : List MsgBlock := [Sample.genesis, Sample.firstBlock, Sample.secondBlock]

/-- The three sample blocks are a main chain. -/
theorem sampleChain_main : MainChain Sample.hcd sampleChain where
  rooted := by
    refine ⟨by simp [sampleChain], by intro first isFirst; obtain rfl := Option.some.inj isFirst; rfl, ?_⟩
    refine List.isChain_cons_cons.mpr ⟨⟨rfl, rfl⟩, List.isChain_cons_cons.mpr ⟨⟨rfl, rfl⟩, ?_⟩⟩
    exact List.isChain_singleton _
  distinct := by decide
  rootless := by decide

/-- One process stores the three blocks, and so all of them are linked. -/
theorem blocksLinked_one_process :
    ∃ final, Runs.exec (Process.run Sample.hcd) .created [processToward sampleChain 2 3] = some final ∧
      BlocksLinked Sample.hcd sampleChain final := by
  have ends : (Runs.exec (Process.run Sample.hcd) .created
      [processToward sampleChain 2 3]).isSome = true := by decide +kernel
  obtain ⟨final, ran⟩ := Option.isSome_iff_exists.mp ends
  have clean : Admitted (Process.run Sample.hcd) (Process.Clean Sample.hcd sampleChain) .created
      [processToward sampleChain 2 3] :=
    ⟨processToward_clean _ (by decide) _ _, fun _ _ => trivial⟩
  refine ⟨final, ran, (blocksLinked_iff_one_process sampleChain_main rfl rfl clean ran).mpr ?_⟩
  exact ⟨Or.inl rfl, fun _ _ => trivial⟩

/-- One process stores the genesis block, a second one the next block: the link
between them is never written. -/
theorem blocksLinked_not_two_processes :
    ∃ final, Runs.exec (Process.run Sample.hcd) .created
        [processToward sampleChain 0 1, processToward sampleChain 1 1] = some final ∧
      Admitted (Process.run Sample.hcd) (Process.Clean Sample.hcd sampleChain) .created
        [processToward sampleChain 0 1, processToward sampleChain 1 1] ∧
      ¬ BlocksLinked Sample.hcd sampleChain final := by
  have reads : (Runs.exec (Process.run Sample.hcd) .created
      [processToward sampleChain 0 1, processToward sampleChain 1 1]).map
        (fun db => (db.blocks.length, db.blockChain.map BlockChainRow.nextHash)) =
      some (2, [none, none]) := by decide +kernel
  obtain ⟨final, ran, isFinal⟩ := Option.map_eq_some_iff.mp reads
  obtain ⟨count, links⟩ := Prod.mk.inj isFinal
  refine ⟨final, ran, ?_, ?_⟩
  · exact ⟨processToward_clean _ (by decide) _ _, fun _ _ =>
      ⟨processToward_clean _ (by decide) _ _, fun _ _ => trivial⟩⟩
  · intro linked
    obtain ⟨⟨row, member, -, isNext⟩, -⟩ :=
      linked 0 Sample.genesis Sample.firstBlock (by omega) rfl rfl
    have missing : row.nextHash ∈ [none, none] := links ▸ List.mem_map_of_mem member
    simp [isNext] at missing

end Processes

end Hcexplorer.Hcpg

import Hcexplorer.Hcpg.ChainDB
import Mathlib.Order.Lattice
import Mathlib.Order.Basic

/-!
# The heights in the blocks table

What the statements of `StoreBlock` on the blocks and block_chain tables do to the
hashes and heights that are stored, whatever fails, and the number of heights up to
the greatest one, above which a synchronization resumes. They leave the transaction
tables as they are.
-/

namespace Hcexplorer.Hcpg

/-- The hash and the height of each row of the blocks table. -/
def ChainTables.stored (db : ChainTables) : List (Hash × Nat) :=
  db.blocks.map fun stored => (stored.row.block.hash, stored.row.block.height.toNat)

/-- The number of heights up to the greatest stored one. -/
def ChainTables.count (db : ChainTables) : Nat := db.heightDB.elim 0 fun height => height + 1

section Rows

variable {db : ChainTables}

/-- The count is the least bound of the stored heights. -/
theorem ChainTables.count_le_iff {bound : Nat} :
    db.count ≤ bound ↔ ∀ row ∈ db.stored, row.2 < bound := by
  have heights : db.heightDB = (db.stored.map Prod.snd).max? := by
    rw [heightDB, stored, List.map_map]
    rfl
  rw [count, heights]
  cases greatest : (db.stored.map Prod.snd).max? with
  | none =>
    rw [List.max?_eq_none_iff, List.map_eq_nil_iff] at greatest
    simp [greatest]
  | some height =>
    obtain ⟨member, bounds⟩ := List.max?_eq_some_iff.mp greatest
    simp only [Option.elim_some]
    constructor
    · intro below row isRow
      have := bounds row.2 (List.mem_map_of_mem isRow)
      omega
    · intro below
      obtain ⟨row, isRow, rfl⟩ := List.mem_map.mp member
      exact below row isRow

/-- The synchronization resumes at the number of the stored blocks, which is one above the last
height. -/
theorem ChainTables.lastHeight_succ (db : ChainTables) : db.lastHeight + 1 = db.count := by
  rw [lastHeight, count]
  cases db.heightDB with
  | none => rfl
  | some height => simp

/-- With one more row the count is that row's height and one, if that is more. -/
theorem ChainTables.count_append {after : ChainTables} {hash : Hash} {height : Nat}
    (added : after.stored = db.stored ++ [(hash, height)]) :
    after.count = max db.count (height + 1) := by
  have bounds (bound : Nat) : after.count ≤ bound ↔ max db.count (height + 1) ≤ bound := by
    rw [max_le_iff, count_le_iff, count_le_iff, added]
    constructor
    · intro below
      refine ⟨fun row member => below row (List.mem_append_left _ member), ?_⟩
      exact below (hash, height) (List.mem_append_right _ (List.mem_singleton.mpr rfl))
    · rintro ⟨older, newest⟩ row member
      rcases List.mem_append.mp member with old | new
      · exact older row old
      · obtain rfl := List.mem_singleton.mp new
        exact newest
  exact Nat.le_antisymm ((bounds _).mpr (Nat.le_refl _)) ((bounds _).mp (Nat.le_refl _))

/-- Tables with equal rows have equal counts. -/
theorem ChainTables.count_congr {after : ChainTables} (same : after.stored = db.stored) :
    after.count = db.count := by
  have bounds (bound : Nat) : after.count ≤ bound ↔ db.count ≤ bound := by
    rw [count_le_iff, count_le_iff, same]
  exact Nat.le_antisymm ((bounds _).mpr (Nat.le_refl _)) ((bounds _).mp (Nat.le_refl _))

/-- `InsertBlock` adds the row of the block, or fails and adds none. -/
theorem insertBlock_stored (fault : Option String) (dbBlock : Block) (isValid checked : Bool)
    (db : ChainTables) :
    let result := insertBlock fault dbBlock isValid checked db
    ((∃ err, result.1 = .error err) ∧ result.2.stored = db.stored) ∨
      (fault = none ∧ (∃ blockDbID, result.1 = .ok blockDbID) ∧
        result.2.stored = db.stored ++ [(dbBlock.hash, dbBlock.height.toNat)]) := by
  intro result
  cases isFault : fault with
  | some err => exact Or.inl (by simp [result, insertBlock, isFault])
  | none =>
    by_cases present : checked = true ∧ ∃ stored ∈ db.blocks, stored.row.block.hash = dbBlock.hash
    · refine Or.inl ⟨⟨"sql: no rows in result set", ?_⟩, ?_⟩
      · simp only [result, insertBlock, isFault, if_pos present]
      · simp only [result, insertBlock, isFault, if_pos present]
        rfl
    · refine Or.inr ⟨rfl, ⟨db.blocksSequence, ?_⟩, ?_⟩
      · simp only [result, insertBlock, isFault, if_neg present]
      · simp only [result, insertBlock, isFault, if_neg present]
        simp [ChainTables.stored]

/-- The statements behind it add and remove no row. -/
theorem insertBlockPrevNext_stored (fault : Option String) (row : BlockChainRow) (db : ChainTables) :
    (insertBlockPrevNext fault row db).2.stored = db.stored := by
  unfold insertBlockPrevNext
  split
  · rfl
  · split <;> rfl

/-- `UpdateLastBlock` leaves the stored blocks as they are, whether it fails or not. -/
theorem updateLastBlock_stored (fault : Option String) (blockDbID : Nat) (isValid : Bool)
    (db : ChainTables) : (updateLastBlock fault blockDbID isValid db).2.stored = db.stored := by
  unfold updateLastBlock
  split
  · rfl
  · simp only [ChainTables.stored, List.map_map]
    apply List.map_congr_left
    intro stored _
    simp only [Function.comp_apply]
    split <;> rfl

/-- `UpdateBlockNext` leaves the stored blocks as they are, whether it fails or not. -/
theorem updateBlockNext_stored (fault : Option String) (blockDbID : Nat) (next : Hash)
    (db : ChainTables) : (updateBlockNext fault blockDbID next db).2.stored = db.stored := by
  unfold updateBlockNext
  split <;> rfl

section Frames

/-- None of the four statements touches the transaction tables. -/
theorem insertBlock_tx (fault : Option String) (dbBlock : Block) (isValid checked : Bool)
    (db : ChainTables) : (insertBlock fault dbBlock isValid checked db).2.tx = db.tx := by
  unfold insertBlock
  split
  · rfl
  · dsimp only
    split <;> rfl

/-- `InsertBlockPrevNext` leaves the transaction tables as they are. -/
theorem insertBlockPrevNext_tx (fault : Option String) (row : BlockChainRow) (db : ChainTables) :
    (insertBlockPrevNext fault row db).2.tx = db.tx := by
  unfold insertBlockPrevNext
  split
  · rfl
  · split <;> rfl

/-- `UpdateLastBlock` leaves the transaction tables as they are. -/
theorem updateLastBlock_tx (fault : Option String) (blockDbID : Nat) (isValid : Bool)
    (db : ChainTables) : (updateLastBlock fault blockDbID isValid db).2.tx = db.tx := by
  cases fault <;> rfl

/-- `UpdateBlockNext` leaves the transaction tables as they are. -/
theorem updateBlockNext_tx (fault : Option String) (blockDbID : Nat) (next : Hash)
    (db : ChainTables) : (updateBlockNext fault blockDbID next db).2.tx = db.tx := by
  cases fault <;> rfl

/-- The statements on the blocks and block_chain tables leave the other four. -/
theorem ChainDB.storeBlockRows_tx (hcd : Hcd) (env : StoreEnv) (msgBlock : MsgBlock) (dbBlock : Block)
    (isValid : Bool) (pgb : ChainDB) :
    (pgb.storeBlockRows hcd env msgBlock dbBlock isValid).2.db.tx = pgb.db.tx := by
  have previous (pgb : ChainDB) : (pgb.updatePrevious env msgBlock dbBlock).2.db.tx = pgb.db.tx := by
    unfold updatePrevious
    split
    · rfl
    · rename_i lastBlockDbID known
      have same : (if dbBlock.voteBits &&& 1 ≠ 0 then
          ((.ok (), pgb.db) : Except String Unit × ChainTables)
          else updateLastBlock env.updateLastBlock lastBlockDbID
            (decide (dbBlock.voteBits &&& 1 ≠ 0)) pgb.db).2.tx = pgb.db.tx := by
        split
        · rfl
        · exact updateLastBlock_tx _ _ _ _
      dsimp only
      split
      · exact same
      · split
        · rename_i isUpdated
          exact ((congrArg (fun result => result.2.tx) isUpdated).symm.trans
            (updateBlockNext_tx _ _ _ _)).trans same
        · rename_i isUpdated
          exact ((congrArg (fun result => result.2.tx) isUpdated).symm.trans
            (updateBlockNext_tx _ _ _ _)).trans same
  unfold storeBlockRows
  split
  · rename_i isInserted
    exact (congrArg (fun result => result.2.tx) isInserted).symm.trans (insertBlock_tx _ _ _ _ _)
  · rename_i isInserted
    have first := (congrArg (fun result => result.2.tx) isInserted).symm.trans (insertBlock_tx _ _ _ _ _)
    dsimp only
    split
    · rename_i isChained
      exact ((congrArg (fun result => result.2.tx) isChained).symm.trans (insertBlockPrevNext_tx _ _ _)).trans first
    · rename_i isChained
      rw [previous]
      exact ((congrArg (fun result => result.2.tx) isChained).symm.trans (insertBlockPrevNext_tx _ _ _)).trans first

end Frames

/-- The statements on the block before add and remove no row. -/
theorem ChainDB.updatePrevious_stored (env : StoreEnv) (pgb : ChainDB) (msgBlock : MsgBlock)
    (dbBlock : Block) : (pgb.updatePrevious env msgBlock dbBlock).2.db.stored = pgb.db.stored := by
  have link {fault : Option String} {id : Nat} {next : Hash} {tables : ChainTables}
      {linked : Except String Unit × ChainTables}
      (ran : updateBlockNext fault id next tables = linked) : linked.2.stored = tables.stored :=
    ran ▸ updateBlockNext_stored fault id next tables
  cases known : pgb.lastBlock msgBlock.header.prevBlock with
  | none => simp only [updatePrevious, known]
  | some id =>
    have judged : (if dbBlock.voteBits &&& 1 ≠ 0 then ((.ok (), pgb.db) : Except String Unit × ChainTables)
        else updateLastBlock env.updateLastBlock id (decide (dbBlock.voteBits &&& 1 ≠ 0)) pgb.db).2.stored =
        pgb.db.stored := by
      split
      · rfl
      · exact updateLastBlock_stored _ _ _ _
    simp only [updatePrevious, known]
    split
    · exact judged
    · split
      · rename_i linked
        exact (link linked).trans judged
      · rename_i linked
        exact (link linked).trans judged

/-- The last part of `StoreBlock` adds one row, or none and returns an error. -/
theorem ChainDB.storeBlockRows_stored (hcd : Hcd) (env : StoreEnv) (pgb : ChainDB) (msgBlock : MsgBlock)
    (dbBlock : Block) (isValid : Bool) :
    let result := pgb.storeBlockRows hcd env msgBlock dbBlock isValid
    ((∃ err, result.1 = .error err) ∧ result.2.db.stored = pgb.db.stored) ∨
      (env.insertBlock = none ∧
        result.2.db.stored = pgb.db.stored ++ [(dbBlock.hash, dbBlock.height.toNat)]) := by
  intro result
  have inserted := insertBlock_stored env.insertBlock dbBlock isValid pgb.dupChecks pgb.db
  cases done : insertBlock env.insertBlock dbBlock isValid pgb.dupChecks pgb.db with
  | mk outcome db =>
    rw [done] at inserted
    rcases inserted with ⟨⟨err, failed⟩, same⟩ | ⟨noFault, ⟨blockDbID, succeeded⟩, added⟩
    · obtain rfl : outcome = .error err := failed
      exact Or.inl ⟨⟨err, by simp only [result, storeBlockRows, done]⟩,
        by simpa only [result, storeBlockRows, done] using same⟩
    · obtain rfl : outcome = .ok blockDbID := succeeded
      refine Or.inr ⟨noFault, ?_⟩
      have link {fault : Option String} {row : BlockChainRow} {tables : ChainTables}
          {linked : Except String Unit × ChainTables}
          (ran : insertBlockPrevNext fault row tables = linked) : linked.2.stored = tables.stored :=
        ran ▸ insertBlockPrevNext_stored fault row tables
      simp only [result, storeBlockRows, done]
      split
      · rename_i linked
        exact (link linked).trans added
      · rename_i linked
        rw [updatePrevious_stored]
        exact (link linked).trans added

/-- What `StoreBlock` does to the rows of the blocks table, whatever fails. -/
theorem ChainDB.storeBlock_stored (hcd : Hcd) (env : StoreEnv) (pgb : ChainDB) (msgBlock : MsgBlock)
    (isValid updateAddressesSpendingInfo : Bool) :
    let result := pgb.storeBlock hcd env msgBlock isValid updateAddressesSpendingInfo
    ((∃ err, result.1 = .error err) ∧ result.2.db.stored = pgb.db.stored) ∨
      (env.insertBlock = none ∧ result.2.db.stored =
        pgb.db.stored ++ [(hcd.hashOf msgBlock, msgBlock.header.height.toNat)]) := by
  intro result
  rcases pgb.storeBlock_cases hcd env msgBlock isValid updateAddressesSpendingInfo with
    ⟨-, err, failed⟩ | ⟨reg, stk, -, -, stored⟩
  · exact Or.inl ⟨⟨err, congrArg Prod.fst failed⟩, by rw [show result = _ from failed]; rfl⟩
  · rcases (pgb.withTx _).storeBlockRows_stored hcd env msgBlock
        ((msgBlockToDBBlock hcd msgBlock).withTxDbIDs reg.txDbIDs stk.txDbIDs) isValid
      with ⟨⟨err, failed⟩, same⟩ | ⟨noFault, added⟩
    · refine Or.inl ⟨⟨err, ?_⟩, ?_⟩
      · rw [show result = _ from stored, failed]
        rfl
      · rw [show result = _ from stored]
        exact same
    · refine Or.inr ⟨noFault, ?_⟩
      rw [show result = _ from stored]
      exact added

end Rows

end Hcexplorer.Hcpg

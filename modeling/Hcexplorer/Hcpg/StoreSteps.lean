import Hcexplorer.Hcpg.BlocksTable
import Hcexplorer.Library.Runs

/-!
# StoreBlock step by step

`StoreBlock` as the sequence of what others can see of it: the statements of the two
goroutines in some order, the INSERT of the block, the write of the best height, the
statements on the blocks and block_chain tables, the clearing of the cached balances
under their lock, and the return. Each is one step, so that readers can run between
any two of them. The steps of one call, with none of a reader between them, end in
what `storeBlock` computes.
-/

namespace Hcexplorer.Hcpg

open Interactive Runs

/-- One call: the arguments of `StoreBlock` and what is decided outside. Its schedule
is the order of the steps. -/
structure BlockCall where
  msgBlock : MsgBlock
  isValid : Bool
  updateAddressesSpendingInfo : Bool
  env : StoreEnv

/-- The two goroutines of `StoreBlock` in the middle of their run. -/
abbrev Trees :=
  Pair Statement Reply Conn (Except String StoreTxnsResult) (Except String StoreTxnsResult)

/-- What is done next in a call. From the INSERT of the block on, the row of the block
and the numbers of stored vins and vouts are known. -/
inductive StorePhase where
  | trees (pair : Trees)
  | insertBlock (dbBlock : Block) (counts : Nat × Nat)
  | setBestBlock (dbBlock : Block) (counts : Nat × Nat) (blockDbID : Nat)
  | insertBlockPrevNext (dbBlock : Block) (counts : Nat × Nat) (blockDbID : Nat)
  | updateLastBlock (dbBlock : Block) (counts : Nat × Nat)
  | updateBlockNext (dbBlock : Block) (counts : Nat × Nat) (lastBlockDbID : Nat)
  | clear (counts : Nat × Nat)
  | returning (result : Except String (Nat × Nat))

/-- The next step empties the cache of balances. -/
def StorePhase.clears : StorePhase → Bool
  | .clear _ => true
  | _ => false

/-- The phases behind the write of the best height. -/
def StorePhase.Linking : StorePhase → Prop
  | .trees _ | .insertBlock _ _ | .setBestBlock _ _ _ => False
  | _ => True

namespace BlockCall

variable (hcd : Hcd) (call : BlockCall)

/-- The start of a call, with both goroutines at their first statement. -/
def begin (pgb : ChainDB) : StorePhase :=
  .trees ⟨storeTxns hcd pgb.dupChecks call.msgBlock .regular call.updateAddressesSpendingInfo,
    storeTxns hcd pgb.dupChecks call.msgBlock .stake call.updateAddressesSpendingInfo,
    Conn.fresh call.env.regularFaults, Conn.fresh call.env.stakeFaults⟩

/-- What follows when both goroutines have returned: the block's row if both succeeded, and else
an error. -/
def joined : Except String StoreTxnsResult → Except String StoreTxnsResult → StorePhase
  | .ok reg, .ok stk =>
    .insertBlock ((msgBlockToDBBlock hcd call.msgBlock).withTxDbIDs reg.txDbIDs stk.txDbIDs)
      (stk.numVins + reg.numVins, stk.numVouts + reg.numVouts)
  | .ok _, .error errStk => .returning (.error errStk)
  | .error errReg, .error errStk => .returning (.error (errReg ++ ", " ++ errStk))
  | .error errReg, .ok _ => .returning (.error errReg)

/-- One step of the call: a statement of one goroutine, at true the regular one's,
or the join of both, or what the phase names. There is no step after the return. -/
def step (turn : Bool) (pgb : ChainDB) : StorePhase → Option (StorePhase × ChainDB)
  | .trees ⟨.ret resReg, .ret resStk, _, _⟩ => some (call.joined hcd resReg resStk, pgb)
  | .trees pair => (pair.turn postgres pgb.db.tx turn).map fun (pair, tx) => (.trees pair, pgb.withTx tx)
  | .insertBlock dbBlock counts =>
    match Hcpg.insertBlock call.env.insertBlock dbBlock call.isValid pgb.dupChecks pgb.db with
    | (.error err, db) => some (.returning (.error err), { pgb with db := db })
    | (.ok blockDbID, db) => some (.setBestBlock dbBlock counts blockDbID, { pgb with db := db })
  | .setBestBlock dbBlock counts blockDbID =>
    some (.insertBlockPrevNext dbBlock counts blockDbID, { pgb with
      lastBlock := fun hash => if hash = hcd.hashOf call.msgBlock then some blockDbID else pgb.lastBlock hash
      bestBlock := dbBlock.height.toNat })
  | .insertBlockPrevNext dbBlock counts blockDbID =>
    match Hcpg.insertBlockPrevNext call.env.insertBlockPrevNext
        ⟨blockDbID, dbBlock.previousHash, dbBlock.hash, none⟩ pgb.db with
    | (.error err, db) => some (.returning (.error err), { pgb with db := db })
    | (.ok _, db) =>
      match pgb.lastBlock call.msgBlock.header.prevBlock with
      | none => some (.clear counts, { pgb with db := db })
      | some lastBlockDbID =>
        if dbBlock.voteBits &&& 1 ≠ 0 then
          some (.updateBlockNext dbBlock counts lastBlockDbID, { pgb with db := db })
        else some (.updateLastBlock dbBlock counts, { pgb with db := db })
  | .updateLastBlock dbBlock counts =>
    match pgb.lastBlock call.msgBlock.header.prevBlock with
    | none => some (.clear counts, pgb)
    | some lastBlockDbID =>
      match Hcpg.updateLastBlock call.env.updateLastBlock lastBlockDbID false pgb.db with
      | (.error err, db) => some (.returning (.error err), { pgb with db := db })
      | (.ok _, db) => some (.updateBlockNext dbBlock counts lastBlockDbID, { pgb with db := db })
  | .updateBlockNext dbBlock counts lastBlockDbID =>
    match Hcpg.updateBlockNext call.env.updateBlockNext lastBlockDbID dbBlock.hash pgb.db with
    | (.error err, db) => some (.returning (.error err), { pgb with db := db })
    | (.ok _, db) => some (.clear counts, { pgb with db := db })
  | .clear counts => some (.returning (.ok counts), { pgb with validHeight := call.msgBlock.height })
  | .returning _ => none

/-- What is left of a call from a phase behind the goroutines on. -/
def finishRows (pgb : ChainDB) : StorePhase → Except String (Nat × Nat) × ChainDB
  | .trees _ => (.ok (0, 0), pgb)
  | .insertBlock dbBlock counts =>
    let (result, pgb) := pgb.storeBlockRows hcd call.env call.msgBlock dbBlock call.isValid
    (result.map fun _ => counts, pgb)
  | .setBestBlock dbBlock counts blockDbID =>
    finishPrevNext dbBlock counts blockDbID { pgb with
      lastBlock := fun hash => if hash = hcd.hashOf call.msgBlock then some blockDbID else pgb.lastBlock hash
      bestBlock := dbBlock.height.toNat }
  | .insertBlockPrevNext dbBlock counts blockDbID => finishPrevNext dbBlock counts blockDbID pgb
  | .updateLastBlock dbBlock counts =>
    match pgb.lastBlock call.msgBlock.header.prevBlock with
    | none => (.ok counts, { pgb with validHeight := call.msgBlock.height })
    | some lastBlockDbID =>
      match Hcpg.updateLastBlock call.env.updateLastBlock lastBlockDbID false pgb.db with
      | (.error err, db) => (.error err, { pgb with db := db })
      | (.ok _, db) => finishNext dbBlock counts lastBlockDbID { pgb with db := db }
  | .updateBlockNext dbBlock counts lastBlockDbID => finishNext dbBlock counts lastBlockDbID pgb
  | .clear counts => (.ok counts, { pgb with validHeight := call.msgBlock.height })
  | .returning result => (result, pgb)
where
  /-- From the INSERT into block_chain on. -/
  finishPrevNext (dbBlock : Block) (counts : Nat × Nat) (blockDbID : Nat) (pgb : ChainDB) :
      Except String (Nat × Nat) × ChainDB :=
    match Hcpg.insertBlockPrevNext call.env.insertBlockPrevNext
        ⟨blockDbID, dbBlock.previousHash, dbBlock.hash, none⟩ pgb.db with
    | (.error err, db) => (.error err, { pgb with db := db })
    | (.ok _, db) =>
      let (result, pgb) := ChainDB.updatePrevious call.env call.msgBlock dbBlock { pgb with db := db }
      (result.map fun _ => counts, pgb)
  /-- From the UPDATE of block_chain on. -/
  finishNext (dbBlock : Block) (counts : Nat × Nat) (lastBlockDbID : Nat) (pgb : ChainDB) :
      Except String (Nat × Nat) × ChainDB :=
    match Hcpg.updateBlockNext call.env.updateBlockNext lastBlockDbID dbBlock.hash pgb.db with
    | (.error err, db) => (.error err, { pgb with db := db })
    | (.ok _, db) => (.ok counts, { pgb with db := db, validHeight := call.msgBlock.height })

/-- What is left of a call, with a schedule of the goroutines that still run. -/
def finish (schedule : List Bool) (pgb : ChainDB) : StorePhase → Except String (Nat × Nat) × ChainDB
  | .trees pair =>
    let ended := pair.run postgres schedule pgb.db.tx
    call.finishRows hcd (pgb.withTx ended.2.2) (call.joined hcd ended.1 ended.2.1)
  | phase => call.finishRows hcd pgb phase

/-- What is left of a call at its beginning is the whole call. -/
theorem finish_begin (schedule : List Bool) (pgb : ChainDB) :
    call.finish hcd schedule pgb (call.begin hcd pgb) =
      pgb.storeBlock hcd { call.env with schedule := schedule } call.msgBlock call.isValid
        call.updateAddressesSpendingInfo := by
  simp only [finish, begin, Pair.run, ChainDB.storeBlock, ChainDB.storeTrees]
  generalize postgres.interleave schedule _ _ _ _ pgb.db.tx = ended
  obtain ⟨resReg, resStk, tx⟩ := ended
  cases resReg with
  | error errReg =>
    cases resStk with
    | error errStk => rfl
    | ok stk => rfl
  | ok reg =>
    cases resStk with
    | error errStk => rfl
    | ok stk => rfl

variable {hcd call}

section Frames

variable {turn : Bool} {pgb after : ChainDB} {next : StorePhase}

/-- While the goroutines run, one of them takes a turn, or both have returned and the
call goes on. -/
theorem step_trees {pair : Trees} (taken : call.step hcd turn pgb (.trees pair) = some (next, after)) :
    (∃ moved tx, pair.turn postgres pgb.db.tx turn = some (moved, tx) ∧ next = .trees moved ∧
        after = pgb.withTx tx) ∨
      ∃ resReg resStk hereReg hereStk, pair = ⟨.ret resReg, .ret resStk, hereReg, hereStk⟩ ∧
        next = call.joined hcd resReg resStk ∧ after = pgb := by
  simp only [step] at taken
  split at taken
  · rename_i resReg resStk hereReg hereStk isPair
    obtain ⟨rfl, rfl⟩ := Prod.mk.inj (Option.some.inj taken)
    exact Or.inr ⟨resReg, resStk, hereReg, hereStk, StorePhase.trees.inj isPair, rfl, rfl⟩
  · rename_i running isPair
    obtain rfl := StorePhase.trees.inj isPair
    obtain ⟨⟨moved, tx⟩, turned, same⟩ := Option.map_eq_some_iff.mp taken
    obtain ⟨rfl, rfl⟩ := Prod.mk.inj same
    exact Or.inl ⟨moved, tx, turned, rfl, rfl⟩
  all_goals contradiction

/-- Behind the goroutines the call returns an error, or the row of the block, with its
height and hash, is next. -/
theorem joined_cases (hcd : Hcd) (call : BlockCall) (resReg resStk : Except String StoreTxnsResult) :
    (∃ err, call.joined hcd resReg resStk = .returning (.error err)) ∨
      ∃ txDbIDs stxDbIDs counts, call.joined hcd resReg resStk =
        .insertBlock ((msgBlockToDBBlock hcd call.msgBlock).withTxDbIDs txDbIDs stxDbIDs) counts := by
  cases resReg with
  | error errReg =>
    cases resStk with
    | error errStk => exact Or.inl ⟨_, rfl⟩
    | ok stk => exact Or.inl ⟨_, rfl⟩
  | ok reg =>
    cases resStk with
    | error errStk => exact Or.inl ⟨_, rfl⟩
    | ok stk => exact Or.inr ⟨_, _, _, rfl⟩

/-- The INSERT of the block adds its row, or fails and the call returns the error. -/
theorem step_insertBlock {dbBlock : Block} {counts : Nat × Nat}
    (taken : call.step hcd turn pgb (.insertBlock dbBlock counts) = some (next, after)) :
    ∃ db, after = { pgb with db := db } ∧ db.tx = pgb.db.tx ∧
      (((∃ err, next = .returning (.error err)) ∧ db.stored = pgb.db.stored) ∨
        ((∃ blockDbID, next = .setBestBlock dbBlock counts blockDbID) ∧
          db.stored = pgb.db.stored ++ [(dbBlock.hash, dbBlock.height.toNat)])) := by
  have kept := insertBlock_tx call.env.insertBlock dbBlock call.isValid pgb.dupChecks pgb.db
  have stored := insertBlock_stored call.env.insertBlock dbBlock call.isValid pgb.dupChecks pgb.db
  simp only [step] at taken
  split at taken
  · rename_i err db inserted
    rw [inserted] at kept stored
    obtain ⟨rfl, rfl⟩ := Prod.mk.inj (Option.some.inj taken)
    rcases stored with ⟨-, same⟩ | ⟨-, ⟨_, succeeded⟩, -⟩
    · exact ⟨db, rfl, kept, Or.inl ⟨⟨err, rfl⟩, same⟩⟩
    · cases succeeded
  · rename_i blockDbID db inserted
    rw [inserted] at kept stored
    obtain ⟨rfl, rfl⟩ := Prod.mk.inj (Option.some.inj taken)
    rcases stored with ⟨⟨_, failed⟩, -⟩ | ⟨-, -, added⟩
    · cases failed
    · exact ⟨db, rfl, kept, Or.inr ⟨⟨blockDbID, rfl⟩, added⟩⟩

/-- Behind the write of the best height, the transaction tables, the stored heights and
the best height stay as they are, and the call stays behind that write. It does not
return without an error before it has emptied the cache of balances. -/
theorem step_linking {phase : StorePhase} (linking : phase.Linking)
    (taken : call.step hcd turn pgb phase = some (next, after)) :
    next.Linking ∧ after.db.tx = pgb.db.tx ∧ after.db.stored = pgb.db.stored ∧
      after.bestBlock = pgb.bestBlock ∧ (phase.clears = false →
        after.validHeight = pgb.validHeight ∧ ∀ counts, next ≠ .returning (.ok counts)) := by
  cases phase with
  | trees | insertBlock | setBestBlock => cases linking
  | insertBlockPrevNext dbBlock counts blockDbID =>
    have kept := insertBlockPrevNext_tx call.env.insertBlockPrevNext
      ⟨blockDbID, dbBlock.previousHash, dbBlock.hash, none⟩ pgb.db
    have stored := insertBlockPrevNext_stored call.env.insertBlockPrevNext
      ⟨blockDbID, dbBlock.previousHash, dbBlock.hash, none⟩ pgb.db
    simp only [step] at taken
    split at taken
    · rename_i linked
      rw [linked] at kept stored
      obtain ⟨rfl, rfl⟩ := Prod.mk.inj (Option.some.inj taken)
      exact ⟨trivial, kept, stored, rfl, fun _ => ⟨rfl, fun _ => by simp⟩⟩
    · rename_i linked
      rw [linked] at kept stored
      split at taken
      · obtain ⟨rfl, rfl⟩ := Prod.mk.inj (Option.some.inj taken)
        exact ⟨trivial, kept, stored, rfl, fun _ => ⟨rfl, fun _ => by simp⟩⟩
      · split at taken
        · obtain ⟨rfl, rfl⟩ := Prod.mk.inj (Option.some.inj taken)
          exact ⟨trivial, kept, stored, rfl, fun _ => ⟨rfl, fun _ => by simp⟩⟩
        · obtain ⟨rfl, rfl⟩ := Prod.mk.inj (Option.some.inj taken)
          exact ⟨trivial, kept, stored, rfl, fun _ => ⟨rfl, fun _ => by simp⟩⟩
  | updateLastBlock dbBlock counts =>
    simp only [step] at taken
    split at taken
    · obtain ⟨rfl, rfl⟩ := Prod.mk.inj (Option.some.inj taken)
      exact ⟨trivial, rfl, rfl, rfl, fun _ => ⟨rfl, fun _ => by simp⟩⟩
    · rename_i lastBlockDbID known
      have kept := updateLastBlock_tx call.env.updateLastBlock lastBlockDbID false pgb.db
      have stored := updateLastBlock_stored call.env.updateLastBlock lastBlockDbID false pgb.db
      split at taken
      · rename_i updated
        rw [updated] at kept stored
        obtain ⟨rfl, rfl⟩ := Prod.mk.inj (Option.some.inj taken)
        exact ⟨trivial, kept, stored, rfl, fun _ => ⟨rfl, fun _ => by simp⟩⟩
      · rename_i updated
        rw [updated] at kept stored
        obtain ⟨rfl, rfl⟩ := Prod.mk.inj (Option.some.inj taken)
        exact ⟨trivial, kept, stored, rfl, fun _ => ⟨rfl, fun _ => by simp⟩⟩
  | updateBlockNext dbBlock counts lastBlockDbID =>
    have kept := updateBlockNext_tx call.env.updateBlockNext lastBlockDbID dbBlock.hash pgb.db
    have stored := updateBlockNext_stored call.env.updateBlockNext lastBlockDbID dbBlock.hash pgb.db
    simp only [step] at taken
    split at taken
    · rename_i updated
      rw [updated] at kept stored
      obtain ⟨rfl, rfl⟩ := Prod.mk.inj (Option.some.inj taken)
      exact ⟨trivial, kept, stored, rfl, fun _ => ⟨rfl, fun _ => by simp⟩⟩
    · rename_i updated
      rw [updated] at kept stored
      obtain ⟨rfl, rfl⟩ := Prod.mk.inj (Option.some.inj taken)
      exact ⟨trivial, kept, stored, rfl, fun _ => ⟨rfl, fun _ => by simp⟩⟩
  | clear counts =>
    obtain ⟨rfl, rfl⟩ := Prod.mk.inj (Option.some.inj taken)
    exact ⟨trivial, rfl, rfl, rfl, fun notClear => by simp [StorePhase.clears] at notClear⟩
  | returning result => cases taken

end Frames

/-- A turn of one goroutine, and then what is left of the call. -/
theorem finish_turn {turn : Bool} {pgb : ChainDB} {pair next : Trees} {tx : TxDb}
    (taken : pair.turn postgres pgb.db.tx turn = some (next, tx)) (schedule : List Bool) :
    call.finish hcd (turn :: schedule) pgb (.trees pair) =
      call.finish hcd schedule (pgb.withTx tx) (.trees next) := by
  simp only [finish]
  rw [Pair.run_cons taken]
  rfl

/-- What is left when both goroutines have returned is what is left behind their join. -/
theorem finish_joined (schedule : List Bool) (pgb : ChainDB)
    (resReg resStk : Except String StoreTxnsResult) (hereReg hereStk : Conn) :
    call.finish hcd schedule pgb (.trees ⟨.ret resReg, .ret resStk, hereReg, hereStk⟩) =
      call.finish hcd schedule pgb (call.joined hcd resReg resStk) := by
  simp only [finish, Pair.run_ret]
  cases resReg with
  | error errReg => cases resStk <;> rfl
  | ok reg => cases resStk <;> rfl

section Finish

variable {turn : Bool} {pgb after : ChainDB} {next : StorePhase}

/-- The INSERT of the block, and then what is left. -/
theorem finish_insertBlock {dbBlock : Block} {counts : Nat × Nat}
    (taken : call.step hcd turn pgb (.insertBlock dbBlock counts) = some (next, after))
    (schedule : List Bool) :
    call.finish hcd schedule pgb (.insertBlock dbBlock counts) = call.finish hcd schedule after next := by
  simp only [step] at taken
  split at taken
  · rename_i err db inserted
    obtain ⟨rfl, rfl⟩ := Prod.mk.inj (Option.some.inj taken)
    simp only [finish, finishRows, ChainDB.storeBlockRows, inserted, Except.map]
  · rename_i blockDbID db inserted
    obtain ⟨rfl, rfl⟩ := Prod.mk.inj (Option.some.inj taken)
    simp only [finish, finishRows, finishRows.finishPrevNext, ChainDB.storeBlockRows, inserted]
    generalize Hcpg.insertBlockPrevNext call.env.insertBlockPrevNext _ db = linked
    obtain ⟨linkedResult, linkedDb⟩ := linked
    cases linkedResult <;> rfl

/-- The update of the previous block, which the votes of the block have approved: only its
next hash is written. -/
theorem updatePrevious_valid {dbBlock : Block} {counts : Nat × Nat} {lastBlockDbID : Nat}
    (known : pgb.lastBlock call.msgBlock.header.prevBlock = some lastBlockDbID)
    (lastIsValid : dbBlock.voteBits &&& 1 ≠ 0) :
    ((ChainDB.updatePrevious call.env call.msgBlock dbBlock pgb).1.map fun _ => counts,
      (ChainDB.updatePrevious call.env call.msgBlock dbBlock pgb).2) =
      finishRows.finishNext call dbBlock counts lastBlockDbID pgb := by
  simp only [finishRows.finishNext, ChainDB.updatePrevious, known, if_pos lastIsValid]
  generalize Hcpg.updateBlockNext call.env.updateBlockNext lastBlockDbID dbBlock.hash pgb.db = updated
  obtain ⟨updatedResult, updatedDb⟩ := updated
  cases updatedResult <;> rfl

/-- The update of a previous block that the votes have disapproved: it is marked first. -/
theorem updatePrevious_invalid (hcd : Hcd) {dbBlock : Block} {counts : Nat × Nat} {lastBlockDbID : Nat}
    (known : pgb.lastBlock call.msgBlock.header.prevBlock = some lastBlockDbID)
    (lastIsInvalid : ¬dbBlock.voteBits &&& 1 ≠ 0) :
    ((ChainDB.updatePrevious call.env call.msgBlock dbBlock pgb).1.map fun _ => counts,
      (ChainDB.updatePrevious call.env call.msgBlock dbBlock pgb).2) =
      call.finishRows hcd pgb (.updateLastBlock dbBlock counts) := by
  simp only [finishRows, finishRows.finishNext, ChainDB.updatePrevious, known, if_neg lastIsInvalid,
    decide_eq_false lastIsInvalid]
  generalize Hcpg.updateLastBlock call.env.updateLastBlock lastBlockDbID false pgb.db = updated
  obtain ⟨updatedResult, updatedDb⟩ := updated
  cases updatedResult with
  | error err => rfl
  | ok done =>
    dsimp only
    generalize Hcpg.updateBlockNext call.env.updateBlockNext lastBlockDbID dbBlock.hash
      updatedDb = followed
    obtain ⟨followedResult, followedDb⟩ := followed
    cases followedResult <;> rfl

/-- The INSERT into block_chain, and then what is left: nothing but the clearing for an unknown
previous block, and else its update. -/
theorem finish_insertBlockPrevNext {dbBlock : Block} {counts : Nat × Nat} {blockDbID : Nat}
    (taken : call.step hcd turn pgb (.insertBlockPrevNext dbBlock counts blockDbID) =
      some (next, after)) (schedule : List Bool) :
    call.finish hcd schedule pgb (.insertBlockPrevNext dbBlock counts blockDbID) =
      call.finish hcd schedule after next := by
  simp only [step] at taken
  split at taken
  · rename_i err db inserted
    obtain ⟨rfl, rfl⟩ := Prod.mk.inj (Option.some.inj taken)
    simp only [finish, finishRows, finishRows.finishPrevNext, inserted]
  · rename_i db inserted
    simp only [finish, finishRows, finishRows.finishPrevNext, inserted]
    split at taken
    · rename_i unknown
      obtain ⟨rfl, rfl⟩ := Prod.mk.inj (Option.some.inj taken)
      simp only [ChainDB.updatePrevious, unknown, Except.map]
    · rename_i lastBlockDbID known
      by_cases lastIsValid : dbBlock.voteBits &&& 1 ≠ 0
      · rw [if_pos lastIsValid] at taken
        obtain ⟨rfl, rfl⟩ := Prod.mk.inj (Option.some.inj taken)
        exact updatePrevious_valid known lastIsValid
      · rw [if_neg lastIsValid] at taken
        obtain ⟨rfl, rfl⟩ := Prod.mk.inj (Option.some.inj taken)
        exact updatePrevious_invalid hcd known lastIsValid

/-- The mark of the previous block, and then what is left. -/
theorem finish_updateLastBlock {dbBlock : Block} {counts : Nat × Nat}
    (taken : call.step hcd turn pgb (.updateLastBlock dbBlock counts) = some (next, after))
    (schedule : List Bool) :
    call.finish hcd schedule pgb (.updateLastBlock dbBlock counts) =
      call.finish hcd schedule after next := by
  simp only [step] at taken
  split at taken
  · rename_i unknown
    obtain ⟨rfl, rfl⟩ := Prod.mk.inj (Option.some.inj taken)
    simp only [finish, finishRows, unknown]
  · rename_i lastBlockDbID known
    split at taken
    · rename_i err db updated
      obtain ⟨rfl, rfl⟩ := Prod.mk.inj (Option.some.inj taken)
      simp only [finish, finishRows, known, updated]
    · rename_i db updated
      obtain ⟨rfl, rfl⟩ := Prod.mk.inj (Option.some.inj taken)
      simp only [finish, finishRows, known, updated]

/-- The UPDATE of block_chain, and then what is left. -/
theorem finish_updateBlockNext {dbBlock : Block} {counts : Nat × Nat} {lastBlockDbID : Nat}
    (taken : call.step hcd turn pgb (.updateBlockNext dbBlock counts lastBlockDbID) =
      some (next, after)) (schedule : List Bool) :
    call.finish hcd schedule pgb (.updateBlockNext dbBlock counts lastBlockDbID) =
      call.finish hcd schedule after next := by
  simp only [step] at taken
  split at taken
  · rename_i err db updated
    obtain ⟨rfl, rfl⟩ := Prod.mk.inj (Option.some.inj taken)
    simp only [finish, finishRows, finishRows.finishNext, updated]
  · rename_i db updated
    obtain ⟨rfl, rfl⟩ := Prod.mk.inj (Option.some.inj taken)
    simp only [finish, finishRows, finishRows.finishNext, updated]

end Finish

/-- One step, and then what is left, is what was left before it, under some schedule: the turn
of a goroutine is put in front, and every other step needs nothing. -/
theorem finish_step {turn : Bool} {pgb after : ChainDB} {phase next : StorePhase}
    (taken : call.step hcd turn pgb phase = some (next, after)) (schedule : List Bool) :
    ∃ front, call.finish hcd (front ++ schedule) pgb phase = call.finish hcd schedule after next := by
  cases phase with
  | trees pair =>
    rcases step_trees taken with
      ⟨moved, tx, turned, rfl, rfl⟩ | ⟨resReg, resStk, hereReg, hereStk, rfl, rfl, rfl⟩
    · exact ⟨[turn], finish_turn turned schedule⟩
    · exact ⟨[], finish_joined schedule after resReg resStk hereReg hereStk⟩
  | insertBlock dbBlock counts => exact ⟨[], finish_insertBlock taken schedule⟩
  | setBestBlock dbBlock counts blockDbID =>
    obtain ⟨rfl, rfl⟩ := Prod.mk.inj (Option.some.inj taken)
    exact ⟨[], rfl⟩
  | insertBlockPrevNext dbBlock counts blockDbID =>
    exact ⟨[], finish_insertBlockPrevNext taken schedule⟩
  | updateLastBlock dbBlock counts => exact ⟨[], finish_updateLastBlock taken schedule⟩
  | updateBlockNext dbBlock counts lastBlockDbID => exact ⟨[], finish_updateBlockNext taken schedule⟩
  | clear counts =>
    obtain ⟨rfl, rfl⟩ := Prod.mk.inj (Option.some.inj taken)
    exact ⟨[], rfl⟩
  | returning result => cases taken

/-- A call that has returned computed what `storeBlock` does, under some schedule. -/
theorem storeBlock_of_returning {turns : List Bool} {pgb after : ChainDB}
    {result : Except String (Nat × Nat)}
    (ran : exec (fun state turn => call.step hcd turn state.2 state.1) (call.begin hcd pgb, pgb)
      turns = some (.returning result, after)) :
    ∃ schedule, pgb.storeBlock hcd { call.env with schedule := schedule } call.msgBlock call.isValid
      call.updateAddressesSpendingInfo = (result, after) := by
  have left : ∀ (turns : List Bool) (phase : StorePhase) (pgb : ChainDB),
      exec (fun state turn => call.step hcd turn state.2 state.1) (phase, pgb) turns =
        some (.returning result, after) →
      ∃ schedule, call.finish hcd schedule pgb phase = (result, after) := by
    intro turns
    induction turns with
    | nil =>
      intro phase pgb ran
      obtain ⟨rfl, rfl⟩ := Prod.mk.inj (Option.some.inj ran)
      exact ⟨[], rfl⟩
    | cons turn rest inductionHypothesis =>
      intro phase pgb ran
      obtain ⟨⟨next, middle⟩, taken, continued⟩ := Option.bind_eq_some_iff.mp ran
      obtain ⟨schedule, ended⟩ := inductionHypothesis next middle continued
      obtain ⟨front, same⟩ := finish_step taken schedule
      exact ⟨front ++ schedule, same.trans ended⟩
  obtain ⟨schedule, ended⟩ := left turns (call.begin hcd pgb) pgb ran
  exact ⟨schedule, (finish_begin hcd call schedule pgb).symm.trans ended⟩

end BlockCall

end Hcexplorer.Hcpg

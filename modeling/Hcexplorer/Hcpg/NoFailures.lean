import Hcexplorer.Hcpg.ChainDB

/-!
# Without failing statements

On connections whose statements do not fail, both goroutines of `StoreBlock` end
without an error, in every interleaving and whatever the tables hold: a row that
is not inserted because it is present is skipped, and the statements that may not
be skipped have no ON CONFLICT clause. So `StoreBlock` goes on to the block's own
rows.
-/

namespace Hcexplorer.Hcpg

open Interactive

/-- No statement of the connection fails, now or later. -/
def Conn.Clean (here : Conn) : Prop := ∀ issued, here.faults issued = none

/-- What a clean connection can rely on: no reply is an error, and a statement that
never conflicts returns its row. -/
def answered : Contract Statement Reply Conn Effect where
  allowed here request reply := here.Clean → ∃ id, reply = .ok id ∧
    ∀ insert, request = .insert insert → (∀ tables, ¬ insert.conflicts tables) → id.isSome
  asks _ _ _ := True
  owns _ := True

/-- The server replies so, in every state of the tables and the connection. -/
theorem postgres_answered (here : Conn) (request : Statement) (db : TxDb) :
    answered.allowed here request (postgres.reply request here db) := by
  intro clean
  have noFault : here.faults here.issued = none := clean _
  cases request with
  | insert insert =>
    simp only [postgres, reply, noFault]
    split
    · rename_i conflict
      refine ⟨none, rfl, ?_⟩
      rintro _ ⟨⟩ never
      exact absurd conflict (never _)
    · exact ⟨_, rfl, fun _ _ _ => rfl⟩
  | begin | prepare | commit | rollback | setSpending =>
    refine ⟨none, by simp only [postgres, reply, noFault], ?_⟩
    rintro _ ⟨⟩

/-- The server serves programs that rely on such replies, whatever else they do. -/
theorem postgres_serves : Serves postgres answered fun _ => True :=
  ⟨fun here request db _ => postgres_answered here request db, fun _ _ _ _ => trivial⟩

/-- Run on a clean connection, the program ends without an error. -/
def Succeeds {α : Type} (program : Sql α) : Prop :=
  ∀ done here, here.Clean → Meets postgres answered
    (fun result _ after => (∃ value, result = .ok value) ∧ after.Clean) program done here

namespace Succeeds

variable {α β : Type}

/-- A program that only returns succeeds. -/
theorem ret (value : α) : Succeeds (.ret (.ok value)) :=
  fun _ _ clean => ⟨⟨value, rfl⟩, clean⟩

/-- One statement succeeds where what follows a reply without an error does. -/
theorem call {request : Statement} {next : Reply → Sql α}
    (continued : ∀ id, (∀ insert, request = .insert insert →
      (∀ tables, ¬ insert.conflicts tables) → id.isSome) → Succeeds (next (.ok id))) :
    Succeeds (.call request next) := by
  intro done here clean
  refine ⟨trivial, fun reply allowed => ⟨trivial, ?_⟩⟩
  obtain ⟨id, rfl, returned⟩ := allowed clean
  exact continued id returned _ _ clean

/-- Two programs that succeed do so one after the other. -/
theorem attempt {program : Sql α} {continuation : α → Sql β} (first : Succeeds program)
    (second : ∀ value, Succeeds (continuation value)) : Succeeds (program.attempt continuation) := by
  intro done here clean
  apply Meets.attempt
  apply (first done here clean).mono
  rintro _ done after ⟨⟨value, rfl⟩, cleanAfter⟩
  exact second value done after cleanAfter

end Succeeds

section Programs

variable {α : Type} {statement : α → Insert} {refuse : Option String → Option String}

/-- The loop succeeds if a missing row is skipped, or no row can be missing. -/
theorem insertLoop_succeeds
    (skips : refuse none = none ∨ ∀ item tables, ¬ (statement item).conflicts tables)
    (items : List α) : Succeeds (insertLoop statement refuse items) := by
  induction items with
  | nil => exact Succeeds.ret []
  | cons item rest inductionHypothesis =>
    refine Succeeds.call fun id returned => ?_
    cases id with
    | some id => exact inductionHypothesis.attempt fun inserted => Succeeds.ret _
    | none =>
      rcases skips with skipped | never
      · simp only [failure, skipped]
        exact inductionHypothesis
      · have isRow := returned _ rfl (never item)
        cases isRow

/-- The insertion around the loop succeeds, with its beginning and its commit. -/
theorem insertAll_succeeds
    (skips : refuse none = none ∨ ∀ item tables, ¬ (statement item).conflicts tables)
    (items : List α) : Succeeds (insertAll statement refuse items) := by
  refine Succeeds.call fun _ _ => Succeeds.call fun _ _ => ?_
  refine (insertLoop_succeeds skips items).attempt fun inserted => ?_
  exact Succeeds.call fun _ _ => Succeeds.ret _

/-- The insertion of outputs succeeds, since an output that is there is only skipped. -/
theorem insertVouts_succeeds (dbVouts : List Vout) (checked : Bool) :
    Succeeds (insertVouts dbVouts checked) :=
  (insertAll_succeeds (Or.inl rfl) dbVouts).attempt fun _ => Succeeds.ret _

/-- The insertion of inputs succeeds, since an input never conflicts. -/
theorem insertVins_succeeds (dbVins : List VinTxProperty) : Succeeds (insertVins dbVins) :=
  (insertAll_succeeds (Or.inr fun _ _ => id) dbVins).attempt fun _ => Succeeds.ret _

/-- The insertion of transactions succeeds, since one that is there is only skipped. -/
theorem insertTxns_succeeds (dbTxns : List Tx) (checked : Bool) :
    Succeeds (insertTxns dbTxns checked) :=
  (insertAll_succeeds (Or.inl rfl) dbTxns).attempt fun _ => Succeeds.ret _

/-- The insertion of address rows succeeds, since a statement without a row is only skipped. -/
theorem insertAddressOuts_succeeds (dbAs : List AddressRow) : Succeeds (insertAddressOuts dbAs) :=
  (insertAll_succeeds (Or.inl rfl) dbAs).attempt fun _ => Succeeds.ret _

/-- The insertion of the outputs and inputs of all transactions succeeds. -/
theorem storeOuts_succeeds (dupChecks : Bool) (txs : List ExtractedTx) :
    Succeeds (storeOuts dupChecks txs) := by
  induction txs with
  | nil => exact Succeeds.ret []
  | cons dbtx rest inductionHypothesis =>
    refine (insertVouts_succeeds _ _).attempt fun outs => ?_
    refine (insertVins_succeeds _).attempt fun vinDbIds => ?_
    exact inductionHypothesis.attempt fun keyed => Succeeds.ret _

/-- The updates of spending columns succeed. -/
theorem setSpendings_succeeds (sets : List SetSpending) : Succeeds (setSpendings sets) := by
  induction sets with
  | nil => exact Succeeds.ret ()
  | cons set rest inductionHypothesis => exact Succeeds.call fun _ _ => inductionHypothesis

/-- `storeTxns` returns no error when no statement fails. -/
theorem storeTxns_succeeds (hcd : Hcd) (dupChecks : Bool) (msgBlock : MsgBlock) (tree : TxTree)
    (updateAddressesSpendingInfo : Bool) :
    Succeeds (storeTxns hcd dupChecks msgBlock tree updateAddressesSpendingInfo) := by
  refine (storeOuts_succeeds _ _).attempt fun keyed => ?_
  refine (insertTxns_succeeds _ _).attempt fun txDbIDs => ?_
  refine (insertAddressOuts_succeeds _).attempt fun _ => ?_
  exact (setSpendings_succeeds _).attempt fun _ => Succeeds.ret _

end Programs

/-- No statement of the two goroutines fails. -/
structure StoreEnv.TreesClean (env : StoreEnv) : Prop where
  regular : ∀ issued, env.regularFaults issued = none
  stake : ∀ issued, env.stakeFaults issued = none

/-- No statement of `StoreBlock` fails, in the goroutines or behind them. -/
structure StoreEnv.Clean (env : StoreEnv) : Prop extends env.TreesClean where
  insertBlock : env.insertBlock = none
  insertBlockPrevNext : env.insertBlockPrevNext = none
  updateLastBlock : env.updateLastBlock = none
  updateBlockNext : env.updateBlockNext = none

/-- An interleaving of the goroutines without failures. -/
def StoreEnv.noFaults (schedule : List Bool) : StoreEnv :=
  ⟨schedule, fun _ => none, fun _ => none, none, none, none, none⟩

/-- In an interleaving without failures no statement fails. -/
theorem StoreEnv.noFaults_clean (schedule : List Bool) : (StoreEnv.noFaults schedule).Clean :=
  ⟨⟨fun _ => rfl, fun _ => rfl⟩, rfl, rfl, rfl, rfl⟩

/-- Both goroutines end without an error when their statements do not fail. -/
theorem ChainDB.storeTrees_ok {env : StoreEnv} (clean : env.TreesClean) (hcd : Hcd)
    (msgBlock : MsgBlock) (updateAddressesSpendingInfo : Bool) (pgb : ChainDB) :
    ∃ reg stk tx, pgb.storeTrees hcd env msgBlock updateAddressesSpendingInfo =
      (.ok reg, .ok stk, tx) := by
  obtain ⟨⟨_, _, ⟨reg, isReg⟩, _⟩, ⟨_, _, ⟨stk, isStk⟩, _⟩, -⟩ :=
    Meets.interleave postgres_serves postgres_serves env.schedule pgb.db.tx trivial
      (storeTxns_succeeds hcd pgb.dupChecks msgBlock .regular updateAddressesSpendingInfo []
        (Conn.fresh env.regularFaults) clean.regular)
      (storeTxns_succeeds hcd pgb.dupChecks msgBlock .stake updateAddressesSpendingInfo []
        (Conn.fresh env.stakeFaults) clean.stake)
  exact ⟨reg, stk, _, Prod.ext isReg (Prod.ext isStk rfl)⟩

/-- When no statement of the goroutines fails, `StoreBlock` goes on to the block's own rows. -/
theorem ChainDB.storeBlock_clean {env : StoreEnv} (clean : env.TreesClean) (hcd : Hcd)
    (msgBlock : MsgBlock) (isValid updateAddressesSpendingInfo : Bool) (pgb : ChainDB) :
    ∃ (txDbIDs stxDbIDs : List Nat) (counts : Nat × Nat) (tx : TxDb),
      let stored := (pgb.withTx tx).storeBlockRows hcd env msgBlock
        ((msgBlockToDBBlock hcd msgBlock).withTxDbIDs txDbIDs stxDbIDs) isValid
      pgb.storeBlock hcd env msgBlock isValid updateAddressesSpendingInfo =
        (stored.1.map fun _ => counts, stored.2) := by
  obtain ⟨reg, stk, tx, trees⟩ := pgb.storeTrees_ok clean hcd msgBlock updateAddressesSpendingInfo
  rcases pgb.storeBlock_cases hcd env msgBlock isValid updateAddressesSpendingInfo with
    ⟨⟨err, failed⟩ | ⟨err, failed⟩, -⟩ | ⟨_, _, -, -, stored⟩
  · simp [trees] at failed
  · simp [trees] at failed
  · exact ⟨_, _, _, _, stored⟩

end Hcexplorer.Hcpg

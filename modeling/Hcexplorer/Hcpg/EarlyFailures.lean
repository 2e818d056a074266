import Hcexplorer.Hcpg.BlocksTable
import Hcexplorer.Hcpg.NoFailures

/-!
# Failures before the first commit

The first database transaction of a tree inserts the outputs of its first transaction. A
statement that fails in it, its commit included, ends `storeTxns` with an error before any
row is committed. When that happens in every tree that has transactions, `StoreBlock`
returns an error and leaves all tables as they were, in every interleaving; only sequences
may have moved. Later statements that fail do not matter: none is issued but a rollback.
-/

namespace Hcexplorer.Hcpg

open Interactive

section Silence

/-- The effect commits no row and updates none, so that the tables stay as they are. -/
def Effect.Silent : Effect → Prop
  | .none | .nextval _ _ => True
  | .rows pending => pending = 0
  | .spend _ => False

/-- What any connection can rely on: a statement that is to fail fails. Nothing is to be
committed. -/
def silent : Contract Statement Reply Conn Effect where
  allowed here _ reply := ∀ err, here.faults here.issued = some err → reply = .error err
  asks _ _ _ := True
  owns effect := effect.Silent

/-- The tables are those of the start, and the sequences are not behind. -/
structure TxDb.Untouched (start db : TxDb) : Prop where
  tables : db.tables = start.tables
  sequences : ∀ table, start.sequences table ≤ db.sequences table

/-- Tables are untouched since themselves. -/
theorem TxDb.Untouched.refl (start : TxDb) : start.Untouched start := ⟨rfl, fun _ => Nat.le_refl _⟩

/-- Silent effects leave the tables as they are, and only advance the sequences. -/
theorem postgres_serves_silent (start : TxDb) : Serves postgres silent start.Untouched where
  answers here request db _ := by
    intro err faulty
    simp only [postgres, reply, faulty]
  keeps effect db owned untouched := by
    cases effect with
    | none => exact untouched
    | nextval table id =>
      refine ⟨untouched.tables, fun each => ?_⟩
      have before := untouched.sequences each
      simp only [postgres, Effect.apply]
      split <;> omega
    | rows pending =>
      obtain rfl : pending = 0 := owned
      exact ⟨(add_zero _).trans untouched.tables, untouched.sequences⟩
    | spend set => cases owned

end Silence

section Insertion

/-- One of the next statements of the connection fails, at most the given number of
statements away. -/
def Conn.FailsWithin (here : Conn) (distance : Nat) : Prop :=
  ∃ k ≤ distance, ∃ err, here.faults (here.issued + k) = some err

variable {α β : Type} {statement : α → Insert} {refuse : Option String → Option String}
  {items : List α} {here : Conn} {done : List Effect} {distance : Nat} {request : Statement}
  {id : Option Nat}

/-- After a statement that did not fail the failing one is nearer. -/
theorem Conn.FailsWithin.next (fails : here.FailsWithin (distance + 1))
    (allowed : silent.allowed here request (.ok id)) :
    (advance request (.ok id) here).FailsWithin distance := by
  obtain ⟨k, near, err, faulty⟩ := fails
  cases k with
  | zero => cases allowed err faulty
  | succ k =>
    refine ⟨k, Nat.le_of_succ_le_succ near, err, ?_⟩
    rw [← faulty]
    show here.faults (here.issued + 1 + k) = _
    rw [Nat.add_right_comm, Nat.add_assoc]

/-- Where the next statement fails, it is not replied with a row id. -/
theorem Conn.FailsWithin.now (fails : here.FailsWithin 0) :
    ¬ silent.allowed here request (.ok id) := by
  intro allowed
  obtain ⟨k, isZero, err, faulty⟩ := fails
  obtain rfl := Nat.le_zero.mp isZero
  cases allowed err faulty

/-- The program ended with an error, or a failing statement is so near. -/
def EndsOrFails (distance : Nat) (result : Except String β) (_ : List Effect) (after : Conn) : Prop :=
  (∃ err, result = .error err) ∨ after.FailsWithin distance

/-- A rollback ends a program with its error and commits nothing. -/
theorem rollback_silent (err : String) :
    Meets postgres silent (EndsOrFails distance)
      (.call .rollback fun _ => .ret (.error err) : Sql β) done here :=
  ⟨trivial, fun _ _ => ⟨trivial, Or.inl ⟨err, rfl⟩⟩⟩

/-- The loop ends with an error, or comes as much nearer to the failing statement as it has
items. -/
theorem insertLoop_silent (refuses : ∀ cause, ∃ err, refuse (some cause) = some err)
    (fails : here.FailsWithin (distance + items.length)) :
    Meets postgres silent (EndsOrFails distance) (insertLoop statement refuse items) done here := by
  induction items generalizing done here with
  | nil => exact Or.inr fails
  | cons item rest inductionHypothesis =>
    refine ⟨trivial, fun reply allowed => ⟨by cases reply <;> trivial, ?_⟩⟩
    cases reply with
    | error cause =>
      obtain ⟨err, refused⟩ := refuses cause
      simp only [failure, refused]
      exact rollback_silent err
    | ok id =>
      have later : ∀ done, Meets postgres silent (EndsOrFails distance)
          (insertLoop statement refuse rest) done (postgres.advance (.insert (statement item)) (.ok id)
            here) := fun _ => inductionHypothesis (fails.next allowed)
      cases id with
      | some id =>
        apply Meets.attempt
        refine (later _).mono ?_
        rintro result done after (⟨err, rfl⟩ | still)
        · exact Or.inl ⟨err, rfl⟩
        · cases result with
          | error err => exact Or.inl ⟨err, rfl⟩
          | ok inserted => exact Or.inr still
      | none =>
        cases isRefused : refuse (failure (.ok none)) with
        | none =>
          simp only [isRefused]
          exact later _
        | some err =>
          simp only [isRefused]
          exact rollback_silent err

/-- An insertion whose begin or prepare, one of whose inserts or whose commit fails ends with
an error, and commits nothing. -/
theorem insertAll_silent (refuses : ∀ cause, ∃ err, refuse (some cause) = some err)
    (fails : here.FailsWithin (items.length + 2)) :
    Meets postgres silent (fun result _ _ => ∃ err, result = .error err)
      (insertAll statement refuse items) done here := by
  refine ⟨trivial, fun begun allowed => ⟨by cases begun <;> trivial, ?_⟩⟩
  cases begun with
  | error cause => exact ⟨_, rfl⟩
  | ok _ =>
    have afterBegin := fails.next allowed
    refine ⟨trivial, fun prepared allowed => ⟨by cases prepared <;> trivial, ?_⟩⟩
    cases prepared with
    | error cause => exact ⟨trivial, fun _ _ => ⟨trivial, _, rfl⟩⟩
    | ok _ =>
      have afterPrepare := afterBegin.next allowed
      rw [← Nat.zero_add items.length] at afterPrepare
      apply Meets.attempt
      refine (insertLoop_silent refuses afterPrepare).mono ?_
      rintro result done after (⟨err, rfl⟩ | next)
      · exact ⟨err, rfl⟩
      · cases result with
        | error err => exact ⟨err, rfl⟩
        | ok inserted =>
          refine ⟨trivial, fun committed allowed => ?_⟩
          cases committed with
          | error err => exact ⟨trivial, err, rfl⟩
          | ok _ => exact absurd allowed next.now

/-- An insertion of no items commits nothing, and goes on with no rows or ends with an error. -/
theorem insertAll_nil_silent {post : Except String (List (α × Nat)) → List Effect → Conn → Prop}
    (continued : ∀ result done after, (∃ err, result = .error err) ∨ result = .ok [] →
      post result done after) :
    Meets postgres silent post (insertAll statement refuse ([] : List α)) done here := by
  refine ⟨trivial, fun begun _ => ⟨by cases begun <;> trivial, ?_⟩⟩
  cases begun with
  | error cause => exact continued _ _ _ (Or.inl ⟨_, rfl⟩)
  | ok _ =>
    refine ⟨trivial, fun prepared _ => ⟨by cases prepared <;> trivial, ?_⟩⟩
    cases prepared with
    | error cause => exact ⟨trivial, fun _ _ => ⟨trivial, continued _ _ _ (Or.inl ⟨_, rfl⟩)⟩⟩
    | ok _ =>
      refine ⟨trivial, fun committed _ => ?_⟩
      cases committed with
      | error err => exact ⟨trivial, continued _ _ _ (Or.inl ⟨_, rfl⟩)⟩
      | ok _ => exact ⟨rfl, continued _ _ _ (Or.inr rfl)⟩

end Insertion

section Tree

variable {hcd : Hcd} {msgBlock : MsgBlock} {tree : TxTree} {here : Conn} {done : List Effect}
  {dupChecks updateAddressesSpendingInfo : Bool}

/-- On a connection of the tree a statement fails before rows are committed: one of those
that insert the outputs of the first transaction, if there is one. -/
def FailsFirst (faults : Nat → Option String) : List ExtractedTx → Prop
  | [] => True
  | dbtx :: _ => (Conn.fresh faults).FailsWithin (dbtx.vouts.length + 2)

/-- A tree with transactions ends with an error and commits nothing, if it fails that early. -/
theorem storeTxns_fails {faults : Nat → Option String} {dbtx : ExtractedTx} {rest : List ExtractedTx}
    (extracted : extractBlockTransactions hcd msgBlock tree = dbtx :: rest)
    (fails : (Conn.fresh faults).FailsWithin (dbtx.vouts.length + 2)) :
    Meets postgres silent (fun result _ _ => ∃ err, result = .error err)
      (storeTxns hcd dupChecks msgBlock tree updateAddressesSpendingInfo) done (Conn.fresh faults) := by
  have errors : ∀ {α β : Type} {program : Sql α} {continuation : α → Sql β} {done : List Effect}
      {here : Conn}, Meets postgres silent (fun result _ _ => ∃ err, result = .error err)
        program done here → Meets postgres silent (fun result _ _ => ∃ err, result = .error err)
        (program.attempt continuation) done here := by
    intro α β program continuation done here fails
    apply Meets.attempt
    apply fails.mono
    rintro _ done after ⟨err, rfl⟩
    exact ⟨err, rfl⟩
  rw [storeTxns, extracted]
  exact errors (errors (errors (insertAll_silent (fun cause => ⟨cause, rfl⟩) fails)))

/-- A tree without transactions commits nothing, whatever fails. -/
theorem storeTxns_empty {faults : Nat → Option String}
    (extracted : extractBlockTransactions hcd msgBlock tree = []) :
    Meets postgres silent (fun _ _ _ => True)
      (storeTxns hcd dupChecks msgBlock tree updateAddressesSpendingInfo) done (Conn.fresh faults) := by
  rw [storeTxns, extracted]
  apply Meets.attempt
  show Meets postgres silent _ (Prog.attempt (insertTxns [] dupChecks) _) _ _
  apply Meets.attempt
  apply Meets.attempt
  apply insertAll_nil_silent
  rintro _ done after (⟨err, rfl⟩ | rfl)
  · trivial
  · show Meets postgres silent _ (Prog.attempt (insertAddressOuts []) _) _ _
    apply Meets.attempt
    apply Meets.attempt
    apply insertAll_nil_silent
    rintro _ done after (⟨err, rfl⟩ | rfl)
    · trivial
    · cases updateAddressesSpendingInfo <;> trivial

/-- A tree commits nothing, and ends with an error if it has transactions. -/
theorem storeTxns_silent {faults : Nat → Option String}
    (fails : FailsFirst faults (extractBlockTransactions hcd msgBlock tree)) :
    Meets postgres silent (fun result _ _ => extractBlockTransactions hcd msgBlock tree ≠ [] →
        ∃ err, result = .error err)
      (storeTxns hcd dupChecks msgBlock tree updateAddressesSpendingInfo) done (Conn.fresh faults) := by
  cases extracted : extractBlockTransactions hcd msgBlock tree with
  | nil => exact (storeTxns_empty extracted).mono fun _ _ _ _ some => absurd rfl some
  | cons dbtx rest =>
    rw [extracted] at fails
    exact (storeTxns_fails extracted fails).mono fun _ _ _ failed _ => failed

end Tree

section Block

/-- The failures of the connection of a tree, by the number of the statement. -/
def StoreEnv.faultsOf (env : StoreEnv) : TxTree → Nat → Option String
  | .regular => env.regularFaults
  | .stake => env.stakeFaults

/-- In each tree that has transactions, a statement fails before rows are committed. -/
structure StoreEnv.FailsEarly (hcd : Hcd) (msgBlock : MsgBlock) (env : StoreEnv) : Prop where
  trees : ∀ tree, FailsFirst (env.faultsOf tree) (extractBlockTransactions hcd msgBlock tree)
  nonempty : ∃ tree, extractBlockTransactions hcd msgBlock tree ≠ []

variable {hcd : Hcd} {msgBlock : MsgBlock} {env : StoreEnv}

/-- `StoreBlock` returns an error then, and leaves all tables and all that is in memory. -/
theorem ChainDB.storeBlock_failsEarly (early : env.FailsEarly hcd msgBlock)
    (isValid updateAddressesSpendingInfo : Bool) (pgb : ChainDB) :
    ∃ err tx, pgb.db.tx.Untouched tx ∧
      pgb.storeBlock hcd env msgBlock isValid updateAddressesSpendingInfo =
        (.error err, pgb.withTx tx) := by
  have trees : ∀ tree, Meets postgres silent (fun result _ _ =>
      extractBlockTransactions hcd msgBlock tree ≠ [] → ∃ err, result = .error err)
      (storeTxns hcd pgb.dupChecks msgBlock tree updateAddressesSpendingInfo) []
      (Conn.fresh (env.faultsOf tree)) := fun tree => storeTxns_silent (early.trees tree)
  obtain ⟨⟨_, _, regular⟩, ⟨_, _, stake⟩, untouched⟩ := Meets.interleave
    (postgres_serves_silent pgb.db.tx) (postgres_serves_silent pgb.db.tx) env.schedule pgb.db.tx
    (TxDb.Untouched.refl _) (trees .regular) (trees .stake)
  rcases pgb.storeBlock_cases hcd env msgBlock isValid updateAddressesSpendingInfo with
    ⟨-, err, failed⟩ | ⟨reg, stk, isReg, isStk, -⟩
  · exact ⟨err, _, untouched, failed⟩
  · obtain ⟨tree, some⟩ := early.nonempty
    cases tree with
    | regular =>
      obtain ⟨err, failed⟩ := regular some
      cases isReg.symm.trans failed
    | stake =>
      obtain ⟨err, failed⟩ := stake some
      cases isStk.symm.trans failed

end Block

end Hcexplorer.Hcpg

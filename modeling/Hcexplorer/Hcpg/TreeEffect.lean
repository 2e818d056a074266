import Hcexplorer.Hcpg.NoFailures

/-!
# What storing a tree does

Storing a tree on a clean connection inserts every row of its extraction, but for
the transaction rows that were present at the start, and then updates the spent
outpoints. This is the meaning of `storeTxns` that the laws about interleavings,
failures and spending information start from.

What a program did is read off the list of its effects: the rows it committed, the
updates it made and the row ids it was handed. The ids are free, but for their
number, because they are what an interleaving or a rolled back transaction changes.
A transaction row can conflict with the rows of the start only, as long as the
program never asks for one pair of hashes twice and no other program commits it.
-/

namespace Hcexplorer.Hcpg

open Interactive

section Effects

/-- The rows that an effect commits, which are all rows of a database transaction at once. -/
def Effect.committed : Effect → TxTables
  | .rows pending => pending
  | .none | .nextval _ _ | .spend _ => 0

/-- The updates of spending columns that an effect makes, outside of any database transaction. -/
def Effect.updates : Effect → List SetSpending
  | .spend set => [set]
  | .none | .nextval _ _ | .rows _ => []

/-- The row ids that an effect hands out for a table. -/
def Effect.handed (table : Table) : Effect → List Nat
  | .nextval other (some id) => if table = other then [id] else []
  | .nextval _ .none | .none | .rows _ | .spend _ => []

/-- The steps that an effect moves the sequence of a table by, whether or not the row it was for
is kept. -/
def Effect.steps (table : Table) : Effect → Nat
  | .nextval other _ => if table = other then 1 else 0
  | .none | .rows _ | .spend _ => 0

/-- The rows committed by a list of effects, the sum of what each of them commits. -/
def committed (done : List Effect) : TxTables := (done.map Effect.committed).sum

/-- The updates of a list of effects, in order. -/
def updates (done : List Effect) : List SetSpending := done.flatMap Effect.updates

/-- The row ids handed out for a table by a list of effects. -/
def handed (table : Table) (done : List Effect) : List Nat := done.flatMap (Effect.handed table)

/-- The steps of a sequence in a list of effects. -/
def steps (table : Table) (done : List Effect) : Nat := (done.map (Effect.steps table)).sum

variable (effect : Effect) (front back : List Effect) (table : Table)

/-- No effects commit no rows. -/
@[simp] theorem committed_nil : committed [] = 0 := rfl

/-- No effects make no updates. -/
@[simp] theorem updates_nil : updates [] = [] := rfl

/-- No effects hand out no row ids. -/
@[simp] theorem handed_nil : handed table [] = [] := rfl

/-- No effects move no sequence. -/
@[simp] theorem steps_nil : steps table [] = 0 := rfl

/-- The rows that a first effect and further ones commit. -/
@[simp] theorem committed_cons :
    committed (effect :: back) = effect.committed + committed back := by simp [committed]

/-- The updates that a first effect and further ones make, in order. -/
@[simp] theorem updates_cons : updates (effect :: back) = effect.updates ++ updates back := rfl

/-- The row ids that a first effect and further ones hand out for a table, in order. -/
@[simp] theorem handed_cons :
    handed table (effect :: back) = effect.handed table ++ handed table back := rfl

/-- The steps that a first effect and further ones move a sequence by. -/
@[simp] theorem steps_cons :
    steps table (effect :: back) = effect.steps table + steps table back := by simp [steps]

/-- The rows that two lists of effects commit, one after the other. -/
@[simp] theorem committed_append :
    committed (front ++ back) = committed front + committed back := by simp [committed]

/-- The updates that two lists of effects make, one after the other. -/
@[simp] theorem updates_append : updates (front ++ back) = updates front ++ updates back := by
  simp [updates]

/-- The row ids that two lists of effects hand out for a table, one after the other. -/
@[simp] theorem handed_append :
    handed table (front ++ back) = handed table front ++ handed table back := by simp [handed]

/-- The steps that two lists of effects move a sequence by, one after the other. -/
@[simp] theorem steps_append :
    steps table (front ++ back) = steps table front + steps table back := by simp [steps]

/-- Whatever else effects do, the sequence of a table moves by exactly the steps they make in it. -/
theorem sequences_applyAll (done : List Effect) (db : TxDb) (table : Table) :
    (postgres.applyAll done db).sequences table = db.sequences table + steps table done := by
  induction done generalizing db with
  | nil => rfl
  | cons effect rest inductionHypothesis =>
    rw [Server.applyAll_cons, inductionHypothesis, steps_cons]
    cases effect with
    | nextval other id =>
      simp only [postgres, Effect.apply, Effect.steps]
      split <;> omega
    | none | rows | spend => simp [postgres, Effect.apply, Effect.steps]

/-- Empty tables hold no transaction hashes. -/
@[simp] theorem TxTables.txHashes_zero : (0 : TxTables).txHashes = 0 := rfl

/-- The transaction hashes of tables that are put together are those of the one and of the other. -/
@[simp] theorem TxTables.txHashes_add (left right : TxTables) :
    (left + right).txHashes = left.txHashes + right.txHashes := by simp [TxTables.txHashes]

/-- An update of spending columns changes no transaction hash. -/
@[simp] theorem TxTables.txHashes_spend (set : SetSpending) (tables : TxTables) :
    (tables.spend set).txHashes = tables.txHashes := rfl

/-- The index grows by the committed pairs of hashes. -/
theorem txHashes_applyAll (done : List Effect) (db : TxDb) :
    (postgres.applyAll done db).tables.txHashes =
      db.tables.txHashes + (committed done).txHashes := by
  induction done generalizing db with
  | nil => simp [committed]
  | cons effect rest inductionHypothesis =>
    rw [Server.applyAll_cons, inductionHypothesis, committed_cons]
    cases effect with
    | none | nextval | rows | spend => simp [postgres, Effect.apply, Effect.committed, add_assoc]

/-- Without updates, the tables grow by the committed rows. -/
theorem tables_applyAll {done : List Effect} (inserts : updates done = []) (db : TxDb) :
    (postgres.applyAll done db).tables = db.tables + committed done := by
  induction done generalizing db with
  | nil => simp [committed]
  | cons effect rest inductionHypothesis =>
    rw [updates_cons, List.append_eq_nil_iff] at inserts
    rw [Server.applyAll_cons, inductionHypothesis inserts.2, committed_cons]
    cases effect with
    | none | nextval | rows => simp [postgres, Effect.apply, Effect.committed, add_assoc]
    | spend set => cases inserts.1

/-- Updates alone, with no other effect among them, are made to the tables in their order. -/
theorem applyAll_spend (sets : List SetSpending) (db : TxDb) :
    postgres.applyAll (sets.map Effect.spend) db =
      { db with tables := db.tables.spendAll sets } := by
  induction sets generalizing db with
  | nil => rfl
  | cons set rest inductionHypothesis =>
    rw [List.map_cons, Server.applyAll_cons, inductionHypothesis]
    rfl

/-- Row ids that were handed out for one table, as a function of the table. -/
def only (table : Table) (ids : List Nat) (each : Table) : List Nat :=
  if each = table then ids else []

/-- Between two lists of effects rows were committed and ids handed out, and
nothing was updated. -/
structure Grown (done later : List Effect) (rows : TxTables) (ids : Table → List Nat) : Prop where
  committed : committed later = committed done + rows
  updates : updates later = updates done
  handed : ∀ table, handed table later = handed table done ++ ids table

namespace Grown

variable {done later last : List Effect} {rows more : TxTables} {ids others : Table → List Nat}

/-- Effects have grown from themselves by no rows and no row ids. -/
theorem refl (done : List Effect) : Grown done done 0 fun _ => [] :=
  ⟨(add_zero _).symm, rfl, fun _ => (List.append_nil _).symm⟩

/-- Effects that have grown twice have grown by the rows and the row ids of both, the earlier
ones first. -/
theorem trans (first : Grown done later rows ids) (second : Grown later last more others) :
    Grown done last (rows + more) fun table => ids table ++ others table where
  committed := by rw [second.committed, first.committed, add_assoc]
  updates := by rw [second.updates, first.updates]
  handed table := by rw [second.handed, first.handed, List.append_assoc]

end Grown

end Effects

section Contract

/-- The unique pairs of hashes that an INSERT adds to the index. -/
def Insert.hashes : Insert → List (Hash × Hash)
  | .tx _ row => [row.hashes]
  | .vout _ | .vin _ | .address _ => []

/-- The row of an INSERT brings in the hashes that the statement is checked for. -/
@[simp] theorem Insert.txHashes_rows (insert : Insert) (id : Nat) :
    (insert.rows id).txHashes = insert.hashes := by cases insert <;> rfl

/-- What belongs to a tree: the hash pairs of its transactions, the outpoints it
creates and those it spends. -/
structure Footprint where
  hashes : List (Hash × Hash)
  created : List (Hash × UInt32)
  spent : List (Hash × UInt32)

/-- The contract of a tree on a clean connection: an insert returns its row unless
it conflicts with the tables of the start, and the tree stays within its footprint
and never asks for a pair of hashes twice. -/
def treeContract (start : TxTables) (footprint : Footprint) :
    Contract Statement Reply Conn Effect where
  allowed here request reply := here.Clean → ∃ id, reply = .ok id ∧
    ∀ insert, request = .insert insert → (id.isSome ↔ ¬ insert.conflicts start)
  asks done here request := ∀ insert, request = .insert insert → ∀ hashes ∈ insert.hashes,
    hashes ∈ footprint.hashes ∧ hashes ∉ here.pending.txHashes + (committed done).txHashes
  owns
    | .rows pending => (∀ hashes ∈ pending.txHashes, hashes ∈ footprint.hashes) ∧
        ∀ stored ∈ pending.addresses, stored.row.outpoint ∈ footprint.created
    | .spend set => set.outpoint ∈ footprint.spent
    | .none | .nextval _ _ => True

end Contract

section Insertions

variable {α : Type}

/-- The rows of INSERT statements, each under its own row id, put together. -/
def insertedRows (inserts : List Insert) (ids : List Nat) : TxTables :=
  (List.zipWith Insert.rows inserts ids).sum

/-- Without row ids there are no inserted rows. -/
@[simp] theorem insertedRows_nil (inserts : List Insert) : insertedRows inserts [] = 0 := by
  simp [insertedRows]

/-- Without statements there are no inserted rows. -/
@[simp] theorem nil_insertedRows (ids : List Nat) : insertedRows [] ids = 0 := rfl

/-- The first row of several is inserted under the first of their row ids. -/
@[simp] theorem insertedRows_cons (insert : Insert) (rest : List Insert) (id : Nat)
    (ids : List Nat) :
    insertedRows (insert :: rest) (id :: ids) = insert.rows id + insertedRows rest ids := by
  simp [insertedRows]

/-- An inserted address row is that of a statement. -/
theorem mem_addresses_insertedRows {inserts : List Insert} {ids : List Nat}
    {stored : Stored AddressRow} :
    stored ∈ (insertedRows inserts ids).addresses ↔
      (Insert.address stored.row, stored.id) ∈ inserts.zip ids := by
  induction inserts generalizing ids with
  | nil => simp
  | cons insert rest inductionHypothesis =>
    cases ids with
    | nil => simp
    | cons id ids =>
      cases insert <;> simp [Insert.rows, inductionHypothesis, Stored.ext_iff, and_comm]

/-- An inserted vins row is that of a statement. -/
theorem mem_vins_insertedRows {inserts : List Insert} {ids : List Nat}
    {stored : Stored VinTxProperty} :
    stored ∈ (insertedRows inserts ids).vins ↔
      (Insert.vin stored.row, stored.id) ∈ inserts.zip ids := by
  induction inserts generalizing ids with
  | nil => simp
  | cons insert rest inductionHypothesis =>
    cases ids with
    | nil => simp
    | cons id ids =>
      cases insert <;> simp [Insert.rows, inductionHypothesis, Stored.ext_iff, and_comm]

/-- An inserted pair of hashes is that of a statement. -/
theorem mem_txHashes_insertedRows {inserts : List Insert} {ids : List Nat} {hashes : Hash × Hash}
    (member : hashes ∈ (insertedRows inserts ids).txHashes) :
    hashes ∈ inserts.flatMap Insert.hashes := by
  induction inserts generalizing ids with
  | nil => simp at member
  | cons insert rest inductionHypothesis =>
    cases ids with
    | nil => simp at member
    | cons id ids =>
      rw [insertedRows_cons, TxTables.txHashes_add, Multiset.mem_add, Insert.txHashes_rows] at member
      rw [List.flatMap_cons, List.mem_append]
      exact member.imp (fun now => now) inductionHypothesis

/-- The items whose statements do not conflict with the tables. -/
def kept (start : TxTables) (statement : α → Insert) (items : List α) : List α :=
  items.filter fun item => ¬ (statement item).conflicts start

/-- A statement without an ON CONFLICT clause keeps every item. -/
theorem kept_eq {statement : α → Insert} (never : ∀ item tables, ¬ (statement item).conflicts tables)
    (start : TxTables) (items : List α) : kept start statement items = items := by
  rw [kept, List.filter_eq_self]
  intro item _
  exact decide_eq_true (never item start)

/-- The statements may be made one after another when these pairs are taken. -/
def Askable (footprint : Footprint) (taken : Multiset (Hash × Hash)) (inserts : List Insert) :
    Prop :=
  (inserts.flatMap Insert.hashes).Nodup ∧
    ∀ hashes ∈ inserts.flatMap Insert.hashes, hashes ∈ footprint.hashes ∧ hashes ∉ taken

/-- After one of the statements, whose pair is taken then, the others may be made. -/
theorem Askable.tail {footprint : Footprint} {taken : Multiset (Hash × Hash)} {insert : Insert}
    {rest : List Insert} (askable : Askable footprint taken (insert :: rest)) :
    Askable footprint (taken + (insert.hashes : Multiset (Hash × Hash))) rest := by
  obtain ⟨distinct, mine⟩ := askable
  rw [List.flatMap_cons] at distinct mine
  obtain ⟨-, later, apart⟩ := List.nodup_append.mp distinct
  refine ⟨later, ?_⟩
  intro hashes member
  obtain ⟨own, free⟩ := mine hashes (List.mem_append_right _ member)
  refine ⟨own, ?_⟩
  intro occupied
  rcases Multiset.mem_add.mp occupied with before | now
  · exact free before
  · exact apart hashes now hashes member rfl

/-- When fewer pairs are taken the statements may be made as well. -/
theorem Askable.mono {footprint : Footprint} {taken fewer : Multiset (Hash × Hash)}
    {inserts : List Insert} (askable : Askable footprint taken inserts) (less : fewer ⊆ taken) :
    Askable footprint fewer inserts := by
  refine ⟨askable.1, ?_⟩
  intro hashes member
  obtain ⟨own, free⟩ := askable.2 hashes member
  exact ⟨own, fun occupied => free (less occupied)⟩

variable {start : TxTables} {footprint : Footprint} {statement : α → Insert} {table : Table}
  {refuse : Option String → Option String} {here : Conn} {done : List Effect}

/-- The loop inserts the items that do not conflict, when a missing row is skipped
or no row can be missing. -/
theorem insertLoop_meets {items : List α}
    {post : Except String (List (α × Nat)) → List Effect → Conn → Prop} (clean : here.Clean)
    (inTable : ∀ item, (statement item).table = table)
    (skips : refuse none = none ∨ ∀ item tables, ¬ (statement item).conflicts tables)
    (askable : Askable footprint (here.pending.txHashes + (committed done).txHashes)
      (items.map statement))
    (continued : ∀ (ids : List Nat) (after : Conn) (later : List Effect),
      ids.length = (kept start statement items).length → after.Clean →
      after.pending = here.pending + insertedRows ((kept start statement items).map statement) ids →
      Grown done later 0 (only table ids) →
      post (.ok ((kept start statement items).zip ids)) later after) :
    Meets postgres (treeContract start footprint) post (insertLoop statement refuse items)
      done here := by
  induction items generalizing done here post with
  | nil =>
    have same : Grown done done 0 (only table []) := by
      refine ⟨by simp, rfl, fun each => ?_⟩
      simp [only]
    exact continued [] here done rfl clean (by simp [kept]) same
  | cons item rest inductionHypothesis =>
    rw [List.map_cons] at askable
    refine ⟨?_, fun reply allowed => ?_⟩
    · rintro _ ⟨⟩ hashes member
      exact askable.2 hashes (List.mem_append_left _ member)
    obtain ⟨id, rfl, returned⟩ := allowed clean
    refine ⟨trivial, ?_⟩
    cases id with
    | some id =>
      have noConflict := (returned _ rfl).mp rfl
      have head : kept start statement (item :: rest) = item :: kept start statement rest :=
        List.filter_cons_of_pos (decide_eq_true noConflict)
      rw [head] at continued
      apply Meets.attempt
      have askableNext := askable.tail
      rw [add_right_comm] at askableNext
      have cleanNext : (advance (.insert (statement item)) (.ok (some id)) here).Clean := clean
      apply inductionHypothesis cleanNext
      · simpa [postgres, effect, advance, Effect.committed] using askableNext
      · intro ids after later length cleanAfter pending grown
        refine continued (id :: ids) after later (by simp [length]) cleanAfter ?_ ?_
        · rw [pending]
          simp [advance, add_assoc]
        · refine ⟨?_, ?_, fun each => ?_⟩
          · simpa [postgres, effect, Effect.committed] using grown.committed
          · simpa [postgres, effect, Effect.updates] using grown.updates
          · rw [grown.handed, handed_append, List.append_assoc]
            simp only [postgres, effect, handed_cons, handed_nil, Effect.handed, only, inTable]
            split <;> rfl
    | none =>
      have conflict : (statement item).conflicts start := by
        by_contra noConflict
        exact absurd ((returned _ rfl).mpr noConflict) (by simp)
      have head : kept start statement (item :: rest) = kept start statement rest :=
        List.filter_cons_of_neg (by simpa using conflict)
      rw [head] at continued
      rcases skips with skipped | never
      · simp only [failure, skipped]
        have askableNext := askable.tail.mono (Multiset.subset_of_le (Multiset.le_add_right _ _))
        have cleanNext : (advance (.insert (statement item)) (.ok none) here).Clean := clean
        apply inductionHypothesis cleanNext
        · simpa [postgres, effect, advance, Effect.committed] using askableNext
        · intro ids after later length cleanAfter pending grown
          refine continued ids after later length cleanAfter pending ⟨?_, ?_, fun each => ?_⟩
          · simpa [postgres, effect, Effect.committed] using grown.committed
          · simpa [postgres, effect, Effect.updates] using grown.updates
          · simpa [postgres, effect, Effect.handed] using grown.handed each
      · exact absurd conflict (never item start)

/-- The insertion commits the rows of the items that do not conflict. -/
theorem insertAll_meets {items : List α}
    {post : Except String (List (α × Nat)) → List Effect → Conn → Prop} (clean : here.Clean)
    (inTable : ∀ item, (statement item).table = table)
    (skips : refuse none = none ∨ ∀ item tables, ¬ (statement item).conflicts tables)
    (askable : Askable footprint (committed done).txHashes (items.map statement))
    (owned : ∀ ids : List Nat, (treeContract start footprint).owns
      (.rows (insertedRows ((kept start statement items).map statement) ids)))
    (continued : ∀ (ids : List Nat) (after : Conn) (later : List Effect),
      ids.length = (kept start statement items).length → after.Clean →
      Grown done later (insertedRows ((kept start statement items).map statement) ids)
        (only table ids) →
      post (.ok ((kept start statement items).zip ids)) later after) :
    Meets postgres (treeContract start footprint) post (insertAll statement refuse items)
      done here := by
  constructor
  · rintro _ ⟨⟩
  intro begun allowed
  obtain ⟨_, rfl, -⟩ := allowed clean
  refine ⟨trivial, ?_⟩
  constructor
  · rintro _ ⟨⟩
  intro prepared allowed
  obtain ⟨_, rfl, -⟩ := allowed clean
  refine ⟨trivial, ?_⟩
  apply Meets.attempt
  refine insertLoop_meets clean inTable skips ?_ ?_
  · simpa [postgres, effect, advance, Effect.committed] using askable
  intro ids middle later length cleanMiddle pending grown
  constructor
  · rintro _ ⟨⟩
  intro finished allowed
  obtain ⟨id, rfl, -⟩ := allowed cleanMiddle
  have isRows : middle.pending = insertedRows ((kept start statement items).map statement) ids := by
    rw [pending]
    exact zero_add _
  have isEffect : postgres.effect .commit (.ok id) middle =
      .rows (insertedRows ((kept start statement items).map statement) ids) := by
    rw [← isRows]
    rfl
  rw [isEffect]
  refine ⟨owned ids, continued ids _ _ length cleanMiddle ⟨?_, ?_, fun each => ?_⟩⟩
  · rw [committed_append, grown.committed]
    simp [postgres, effect, Effect.committed]
  · rw [updates_append, grown.updates]
    simp [postgres, effect, Effect.updates]
  · rw [handed_append, grown.handed]
    simp [postgres, effect, Effect.handed]

end Insertions

section Tree

/-- The outpoint of an output: the hash of its transaction and its index there. -/
def Vout.outpoint (vout : Vout) : Hash × UInt32 := (vout.txHash, vout.txIndex)

/-- The outpoint that an input spends, which need not be one that any output creates. -/
def VinTxProperty.outpoint (vin : VinTxProperty) : Hash × UInt32 := (vin.prevTxHash, vin.prevTxIndex)

/-- The inputs of extracted transactions, in the order in which they are stored. -/
def inputs (txs : List ExtractedTx) : List VinTxProperty := txs.flatMap ExtractedTx.vins

/-- The outpoints that extracted transactions create, in the order of their outputs. -/
def createdBy (txs : List ExtractedTx) : List (Hash × UInt32) :=
  txs.flatMap fun dbtx => dbtx.vouts.map Vout.outpoint

/-- The outpoints that extracted transactions spend, those of coinbase inputs left
out. -/
def spentBy (txs : List ExtractedTx) : List (Hash × UInt32) :=
  ((inputs txs).filter fun vin => vin.prevTxHash ≠ 0).map VinTxProperty.outpoint

/-- The footprint of a tree: the hashes of its transactions, the outpoints they create and those
they spend. -/
def footprintOf (txs : List ExtractedTx) : Footprint :=
  ⟨txs.map fun dbtx => dbtx.tx.hashes, createdBy txs, spentBy txs⟩

/-- The row ids handed out while a tree is stored: for each transaction those of
its outputs and of its inputs, then those of the transactions and of the address
rows. -/
structure TreeIds where
  outs : List (List Nat × List Nat)
  txs : List Nat
  addresses : List Nat

/-- The row ids of a tree that are handed out for each table, in the order of their rows. -/
def TreeIds.of (ids : TreeIds) : Table → List Nat
  | .vouts => ids.outs.flatMap Prod.fst
  | .vins => ids.outs.flatMap Prod.snd
  | .transactions => ids.txs
  | .addresses => ids.addresses

/-- A transaction whose outputs and inputs have the given ids. -/
def keyedTx (ids : List Nat × List Nat) (dbtx : ExtractedTx) : KeyedTx :=
  ⟨{ dbtx.tx with voutDbIds := ids.1, vinDbIds := ids.2 },
    (dbtx.vouts.zip ids.1).flatMap fun (vout, voutDbID) => addressRowsOf vout voutDbID, dbtx.vins⟩

/-- The transactions of a tree whose outputs and inputs have the given ids. -/
def keyedTxs (outs : List (List Nat × List Nat)) (txs : List ExtractedTx) : List KeyedTx :=
  (outs.zip txs).map fun (ids, dbtx) => keyedTx ids dbtx

/-- There is an id for each output and each input. -/
def FitOuts (outs : List (List Nat × List Nat)) (txs : List ExtractedTx) : Prop :=
  List.Forall₂ (fun ids dbtx => ids.1.length = dbtx.vouts.length ∧ ids.2.length = dbtx.vins.length)
    outs txs

/-- The transaction rows that are inserted: all but those that conflict with a row that was
there, or with one before them. -/
def keptTxs (start : TxTables) (checked : Bool) (outs : List (List Nat × List Nat))
    (txs : List ExtractedTx) : List Tx :=
  kept start (Insert.tx checked) ((keyedTxs outs txs).map KeyedTx.tx)

/-- There is an id for each row that is inserted. -/
structure TreeIds.Fit (start : TxTables) (checked : Bool) (extracted : List ExtractedTx)
    (ids : TreeIds) : Prop where
  outs : FitOuts ids.outs extracted
  txs : ids.txs.length = (keptTxs start checked ids.outs extracted).length
  addresses : ids.addresses.length = (fundedRows ids.txs (keyedTxs ids.outs extracted)).length

/-- The rows of the outputs and the inputs of a tree. -/
def outsRows : List (List Nat × List Nat) → List ExtractedTx → TxTables
  | ids :: outs, dbtx :: rest =>
    insertedRows (dbtx.vouts.map Insert.vout) ids.1 +
      insertedRows (dbtx.vins.map Insert.vin) ids.2 + outsRows outs rest
  | _, _ => 0

/-- The rows of a tree in all four tables: outputs and inputs, the transactions that do not
conflict, and the addresses that are paid. -/
def treeRows (start : TxTables) (checked : Bool) (ids : TreeIds) (txs : List ExtractedTx) :
    TxTables :=
  outsRows ids.outs txs +
    insertedRows ((keptTxs start checked ids.outs txs).map (Insert.tx checked)) ids.txs +
    insertedRows ((fundedRows ids.txs (keyedTxs ids.outs txs)).map Insert.address) ids.addresses

/-- The updates of spending columns for a tree, if they are asked for. -/
def treeSpendings (updateAddressesSpendingInfo : Bool) (ids : TreeIds) (txs : List ExtractedTx) :
    List SetSpending :=
  if updateAddressesSpendingInfo then spendings ids.txs (keyedTxs ids.outs txs) else []

variable {start : TxTables} {footprint : Footprint} {here : Conn} {done : List Effect}

/-- An insertion without ON CONFLICT clause commits the rows of all items. -/
theorem insertAll_meets_unchecked {α : Type} {statement : α → Insert} {table : Table}
    {refuse : Option String → Option String} {items : List α}
    {post : Except String (List (α × Nat)) → List Effect → Conn → Prop} (clean : here.Clean)
    (inTable : ∀ item, (statement item).table = table)
    (never : ∀ item tables, ¬ (statement item).conflicts tables)
    (without : ∀ item, (statement item).hashes = [])
    (funded : ∀ row, Insert.address row ∈ items.map statement → row.outpoint ∈ footprint.created)
    (continued : ∀ (ids : List Nat) (after : Conn) (later : List Effect),
      ids.length = items.length → after.Clean →
      Grown done later (insertedRows (items.map statement) ids) (only table ids) →
      post (.ok (items.zip ids)) later after) :
    Meets postgres (treeContract start footprint) post (insertAll statement refuse items)
      done here := by
  have all : kept start statement items = items := kept_eq never start items
  have nothing : (items.map statement).flatMap Insert.hashes = [] := by
    rw [List.flatMap_eq_nil_iff]
    intro insert member
    obtain ⟨item, _, rfl⟩ := List.mem_map.mp member
    exact without item
  refine insertAll_meets clean inTable (Or.inr never) ?_ ?_ ?_
  · rw [Askable, nothing]
    exact ⟨List.nodup_nil, nofun⟩
  · intro ids
    rw [all]
    refine ⟨fun hashes member => ?_, fun stored member => ?_⟩
    · have listed := mem_txHashes_insertedRows member
      rw [nothing] at listed
      cases listed
    · exact funded _ (List.of_mem_zip (mem_addresses_insertedRows.mp member)).1
  · intro ids after later length cleanAfter grown
    rw [all] at length grown ⊢
    exact continued ids after later length cleanAfter grown

/-- `InsertVouts` commits one row for each output, under ids of its own, and returns them with
the address rows to insert. -/
theorem insertVouts_meets {dbVouts : List Vout} {checked : Bool}
    {post : Except String (List Nat × List AddressRow) → List Effect → Conn → Prop}
    (clean : here.Clean)
    (continued : ∀ (ids : List Nat) (after : Conn) (later : List Effect),
      ids.length = dbVouts.length → after.Clean →
      Grown done later (insertedRows (dbVouts.map Insert.vout) ids) (only .vouts ids) →
      post (.ok (ids, (dbVouts.zip ids).flatMap fun (vout, voutDbID) =>
        addressRowsOf vout voutDbID)) later after) :
    Meets postgres (treeContract start footprint) post (insertVouts dbVouts checked) done here := by
  apply Meets.attempt
  refine insertAll_meets_unchecked clean (fun _ => rfl) (fun _ _ => id) (fun _ => rfl)
    (by simp) ?_
  intro ids after later length cleanAfter grown
  have finished := continued ids after later length cleanAfter grown
  show post (.ok ((dbVouts.zip ids).map Prod.snd, _)) later after
  rw [List.map_snd_zip length.le]
  exact finished

/-- `InsertVins` commits one row for each input, under row ids of its own, and returns these ids. -/
theorem insertVins_meets {dbVins : List VinTxProperty}
    {post : Except String (List Nat) → List Effect → Conn → Prop} (clean : here.Clean)
    (continued : ∀ (ids : List Nat) (after : Conn) (later : List Effect),
      ids.length = dbVins.length → after.Clean →
      Grown done later (insertedRows (dbVins.map Insert.vin) ids) (only .vins ids) →
      post (.ok ids) later after) :
    Meets postgres (treeContract start footprint) post (insertVins dbVins) done here := by
  apply Meets.attempt
  refine insertAll_meets_unchecked clean (fun _ => rfl) (fun _ _ => id) (fun _ => rfl)
    (by simp) ?_
  intro ids after later length cleanAfter grown
  have finished := continued ids after later length cleanAfter grown
  show post (.ok ((dbVins.zip ids).map Prod.snd)) later after
  rw [List.map_snd_zip length.le]
  exact finished

/-- `InsertAddressOuts` commits one row for each address that an output pays, provided that the
outputs belong to the tree. -/
theorem insertAddressOuts_meets {dbAs : List AddressRow}
    {post : Except String (List Nat) → List Effect → Conn → Prop} (clean : here.Clean)
    (funded : ∀ row ∈ dbAs, row.outpoint ∈ footprint.created)
    (continued : ∀ (ids : List Nat) (after : Conn) (later : List Effect),
      ids.length = dbAs.length → after.Clean →
      Grown done later (insertedRows (dbAs.map Insert.address) ids) (only .addresses ids) →
      post (.ok ids) later after) :
    Meets postgres (treeContract start footprint) post (insertAddressOuts dbAs) done here := by
  apply Meets.attempt
  refine insertAll_meets_unchecked clean (fun _ => rfl) (fun _ _ => id) (fun _ => rfl) ?_ ?_
  · intro row member
    obtain ⟨_, listed, same⟩ := List.mem_map.mp member
    cases same
    exact funded _ listed
  · intro ids after later length cleanAfter grown
    have finished := continued ids after later length cleanAfter grown
    show post (.ok ((dbAs.zip ids).map Prod.snd)) later after
    rw [List.map_snd_zip length.le]
    exact finished

/-- `InsertTxns` inserts the rows that do not conflict, when no pair of hashes is
there twice. -/
theorem insertTxns_meets {dbTxns : List Tx} {checked : Bool}
    {post : Except String (List Nat) → List Effect → Conn → Prop} (clean : here.Clean)
    (distinct : (dbTxns.map Tx.hashes).Nodup)
    (mine : ∀ row ∈ dbTxns, row.hashes ∈ footprint.hashes)
    (nothingYet : (committed done).txHashes = 0)
    (continued : ∀ (ids : List Nat) (after : Conn) (later : List Effect),
      ids.length = (kept start (Insert.tx checked) dbTxns).length → after.Clean →
      Grown done later (insertedRows ((kept start (Insert.tx checked) dbTxns).map
        (Insert.tx checked)) ids) (only .transactions ids) → post (.ok ids) later after) :
    Meets postgres (treeContract start footprint) post (insertTxns dbTxns checked) done here := by
  have pairs : ∀ rows : List Tx,
      (rows.map (Insert.tx checked)).flatMap Insert.hashes = rows.map Tx.hashes := by
    intro rows
    rw [List.flatMap_map, List.map_eq_flatMap]
    rfl
  apply Meets.attempt
  refine insertAll_meets clean (fun _ => rfl) (Or.inl rfl) ?_ ?_ ?_
  · rw [Askable, pairs, nothingYet]
    refine ⟨distinct, fun hashes member => ⟨?_, Multiset.notMem_zero _⟩⟩
    obtain ⟨row, listed, rfl⟩ := List.mem_map.mp member
    exact mine row listed
  · intro ids
    refine ⟨fun hashes member => ?_, fun stored member => ?_⟩
    · have listed := mem_txHashes_insertedRows member
      rw [pairs] at listed
      obtain ⟨row, isKept, rfl⟩ := List.mem_map.mp listed
      exact mine row (List.mem_of_mem_filter isKept)
    · have listed := (List.of_mem_zip (mem_addresses_insertedRows.mp member)).1
      simp at listed
  · intro ids after later length cleanAfter grown
    have finished := continued ids after later length cleanAfter grown
    show post (.ok ((List.zip _ ids).map Prod.snd)) later after
    rw [List.map_snd_zip length.le]
    exact finished

/-- The first loop of `storeTxns` inserts the outputs and the inputs. -/
theorem storeOuts_meets {checked : Bool} {txs : List ExtractedTx}
    {post : Except String (List KeyedTx) → List Effect → Conn → Prop} (clean : here.Clean)
    (continued : ∀ (outs : List (List Nat × List Nat)) (after : Conn) (later : List Effect),
      FitOuts outs txs → after.Clean →
      Grown done later (outsRows outs txs) (TreeIds.of ⟨outs, [], []⟩) →
      post (.ok (keyedTxs outs txs)) later after) :
    Meets postgres (treeContract start footprint) post (storeOuts checked txs) done here := by
  induction txs generalizing done here post with
  | nil =>
    refine continued [] here done List.Forall₂.nil clean ⟨(add_zero _).symm, rfl, fun table => ?_⟩
    cases table <;> simp [TreeIds.of]
  | cons dbtx rest inductionHypothesis =>
    apply Meets.attempt
    apply insertVouts_meets clean
    intro voutDbIds _ _ lengthVouts cleanVouts grownVouts
    apply Meets.attempt
    apply insertVins_meets cleanVouts
    intro vinDbIds _ _ lengthVins cleanVins grownVins
    apply Meets.attempt
    apply inductionHypothesis cleanVins
    intro outs after later fit cleanAfter grown
    have all := (grownVouts.trans grownVins).trans grown
    refine continued ((voutDbIds, vinDbIds) :: outs) after later
      (List.Forall₂.cons ⟨lengthVouts, lengthVins⟩ fit) cleanAfter
      ⟨all.committed, all.updates, fun table => ?_⟩
    rw [all.handed]
    cases table <;> simp [TreeIds.of, only]

/-- The updates of spending columns succeed one after another and leave nothing but themselves,
provided that the outpoints are spent by the tree. -/
theorem setSpendings_meets {sets : List SetSpending}
    {post : Except String Unit → List Effect → Conn → Prop} (clean : here.Clean)
    (owned : ∀ set ∈ sets, set.outpoint ∈ footprint.spent)
    (continued : ∀ after : Conn, after.Clean → post (.ok ()) (done ++ sets.map Effect.spend) after) :
    Meets postgres (treeContract start footprint) post (setSpendings sets) done here := by
  induction sets generalizing done here with
  | nil => simpa [setSpendings, Meets] using continued here clean
  | cons set rest inductionHypothesis =>
    refine ⟨nofun, fun reply allowed => ?_⟩
    obtain ⟨id, rfl, -⟩ := allowed clean
    refine ⟨owned set List.mem_cons_self, ?_⟩
    have cleanNext : (advance (.setSpending set) (.ok id) here).Clean := clean
    apply inductionHypothesis cleanNext
    · intro later member
      exact owned later (List.mem_cons_of_mem _ member)
    · intro after cleanAfter
      have finished := continued after cleanAfter
      simpa [postgres, effect] using finished

/-- The hashes of a transaction do not depend on the ids of its inputs and
outputs. -/
theorem hashes_keyedTxs {outs : List (List Nat × List Nat)} {txs : List ExtractedTx}
    (fit : FitOuts outs txs) :
    ((keyedTxs outs txs).map KeyedTx.tx).map Tx.hashes = txs.map fun dbtx => dbtx.tx.hashes := by
  induction fit with
  | nil => rfl
  | cons _ _ inductionHypothesis =>
    rw [keyedTxs] at inductionHypothesis
    rw [keyedTxs, List.zip_cons_cons, List.map_cons, List.map_cons, List.map_cons,
      inductionHypothesis]
    rfl

/-- A transaction with row ids is one of the extracted transactions under the ids of its outputs
and inputs. -/
theorem mem_keyedTxs {outs : List (List Nat × List Nat)} {txs : List ExtractedTx} {each : KeyedTx}
    (member : each ∈ keyedTxs outs txs) : ∃ ids ∈ outs, ∃ dbtx ∈ txs, each = keyedTx ids dbtx := by
  obtain ⟨⟨ids, dbtx⟩, zipped, rfl⟩ := List.mem_map.mp member
  exact ⟨ids, (List.of_mem_zip zipped).1, dbtx, (List.of_mem_zip zipped).2, rfl⟩

/-- An address row pays an output of its tree. -/
theorem outpoint_fundedRows {txDbIDs : List Nat} {outs : List (List Nat × List Nat)}
    {txs : List ExtractedTx} {row : AddressRow}
    (member : row ∈ fundedRows txDbIDs (keyedTxs outs txs)) : row.outpoint ∈ createdBy txs := by
  obtain ⟨⟨txDbID, each⟩, paired, funded⟩ := List.mem_flatMap.mp member
  obtain ⟨dba, paid, rfl⟩ := List.mem_map.mp funded
  obtain ⟨ids, _, dbtx, extracted, rfl⟩ := mem_keyedTxs (List.of_mem_zip paired).2
  obtain ⟨⟨vout, voutDbID⟩, output, listed⟩ := List.mem_flatMap.mp paid
  obtain ⟨addr, _, rfl⟩ := List.mem_map.mp listed
  refine List.mem_flatMap.mpr ⟨dbtx, extracted, ?_⟩
  exact List.mem_map.mpr ⟨vout, (List.of_mem_zip output).1, rfl⟩

/-- There is an update for each input but those of a coinbase. -/
theorem mem_spendingsOf {txDbID : Nat} {keyed : KeyedTx} {set : SetSpending} :
    set ∈ spendingsOf txDbID keyed ↔ ∃ vin vinDbID, (vin, vinDbID) ∈ keyed.vins.zip keyed.tx.vinDbIds ∧
      vin.prevTxHash ≠ 0 ∧
      set = ⟨vin.prevTxHash, vin.prevTxIndex, ⟨txDbID, vin.txID, vin.txIndex, vinDbID⟩⟩ := by
  simp only [spendingsOf, List.mem_filterMap, Prod.exists]
  apply exists₂_congr
  intro vin vinDbID
  by_cases coinbase : vin.prevTxHash = 0
  · simp [coinbase]
  · simp only [coinbase, if_false, Option.some.injEq, ne_eq, not_false_eq_true, true_and]
    exact and_congr_right fun _ => eq_comm

/-- An update is about an outpoint that its tree spends. -/
theorem outpoint_spendings {txDbIDs : List Nat} {outs : List (List Nat × List Nat)}
    {txs : List ExtractedTx} {set : SetSpending}
    (member : set ∈ spendings txDbIDs (keyedTxs outs txs)) : set.outpoint ∈ spentBy txs := by
  obtain ⟨⟨txDbID, each⟩, paired, ofTx⟩ := List.mem_flatMap.mp member
  obtain ⟨ids, _, dbtx, extracted, rfl⟩ := mem_keyedTxs (List.of_mem_zip paired).2
  obtain ⟨vin, vinDbID, input, regular, rfl⟩ := mem_spendingsOf.mp ofTx
  refine List.mem_map.mpr ⟨vin, List.mem_filter.mpr ⟨?_, decide_eq_true regular⟩, rfl⟩
  exact List.mem_flatMap.mpr ⟨dbtx, extracted, (List.of_mem_zip input).1⟩

/-- Rows of outputs and inputs have no unique hashes. -/
theorem txHashes_outsRows (outs : List (List Nat × List Nat)) (txs : List ExtractedTx) :
    (outsRows outs txs).txHashes = 0 := by
  have none : ∀ (inserts : List Insert) (ids : List Nat),
      (∀ insert ∈ inserts, insert.hashes = []) → (insertedRows inserts ids).txHashes = 0 := by
    intro inserts ids without
    rw [Multiset.eq_zero_iff_forall_notMem]
    intro hashes member
    have listed := mem_txHashes_insertedRows member
    rw [List.flatMap_eq_nil_iff.mpr without] at listed
    cases listed
  induction outs generalizing txs with
  | nil => rfl
  | cons ids outs inductionHypothesis =>
    cases txs with
    | nil => rfl
    | cons dbtx rest =>
      rw [outsRows, TxTables.txHashes_add, TxTables.txHashes_add, inductionHypothesis,
        none _ _ (by simp [Insert.hashes]), none _ _ (by simp [Insert.hashes])]
      rfl

/-- What a tree has done at its end: it inserted its rows, and then made its
updates. -/
structure TreeDone (start : TxTables) (checked updateAddressesSpendingInfo : Bool)
    (txs : List ExtractedTx) (ids : TreeIds) (done : List Effect) : Prop where
  fit : ids.Fit start checked txs
  trace : ∃ front, done = front ++ (treeSpendings updateAddressesSpendingInfo ids txs).map .spend ∧
    Grown [] front (treeRows start checked ids txs) ids.of

/-- The extracted transactions of a tree have different pairs of hashes when its
transactions do. -/
theorem nodup_extracted_hashes {hcd : Hcd} {msgBlock : MsgBlock} {tree : TxTree}
    (distinct : ((treeTransactions msgBlock tree).map hcd.txHash).Nodup) :
    ((extractBlockTransactions hcd msgBlock tree).map fun dbtx => dbtx.tx.hashes).Nodup := by
  have sublist : ((extractBlockTransactions hcd msgBlock tree).map fun dbtx => dbtx.tx.txID).Sublist
      ((treeTransactions msgBlock tree).map hcd.txHash) :=
    processTransactions_map (fun dbtx => dbtx.tx.txID) hcd.txHash fun _ _ => rfl
  have names := distinct.sublist sublist
  apply List.Nodup.of_map Prod.fst
  rw [List.map_map]
  exact names

/-- The rows of the keyed transactions are within the footprint of their tree. -/
theorem mine_keyedTxs {outs : List (List Nat × List Nat)} {txs : List ExtractedTx}
    (fit : FitOuts outs txs) :
    ∀ row ∈ (keyedTxs outs txs).map KeyedTx.tx, row.hashes ∈ (footprintOf txs).hashes := by
  intro row member
  have listed : row.hashes ∈ ((keyedTxs outs txs).map KeyedTx.tx).map Tx.hashes :=
    List.mem_map_of_mem member
  rw [hashes_keyedTxs fit] at listed
  exact listed

/-- The updates of a tree are about outpoints that it spends. -/
theorem owned_treeSpendings {updateAddressesSpendingInfo : Bool} {ids : TreeIds}
    {txs : List ExtractedTx} :
    ∀ set ∈ treeSpendings updateAddressesSpendingInfo ids txs,
      set.outpoint ∈ (footprintOf txs).spent := by
  intro set member
  cases updateAddressesSpendingInfo with
  | false => cases member
  | true => exact outpoint_spendings member

/-- The insertions of a tree, one after another, and its updates make it done. -/
theorem treeDone_of_grown {checked updateAddressesSpendingInfo : Bool} {txs : List ExtractedTx}
    {ids : TreeIds} {doneOuts doneTxs front : List Effect}
    (fit : ids.Fit start checked txs)
    (grownOuts : Grown [] doneOuts (outsRows ids.outs txs) (TreeIds.of ⟨ids.outs, [], []⟩))
    (grownTxs : Grown doneOuts doneTxs (insertedRows ((keptTxs start checked ids.outs txs).map
      (Insert.tx checked)) ids.txs) (only .transactions ids.txs))
    (grownAddresses : Grown doneTxs front (insertedRows ((fundedRows ids.txs
      (keyedTxs ids.outs txs)).map Insert.address) ids.addresses) (only .addresses ids.addresses)) :
    TreeDone start checked updateAddressesSpendingInfo txs ids
      (front ++ (treeSpendings updateAddressesSpendingInfo ids txs).map .spend) := by
  have grown := (grownOuts.trans grownTxs).trans grownAddresses
  refine ⟨fit, front, rfl, grown.committed, grown.updates, fun table => ?_⟩
  rw [grown.handed]
  cases table <;> simp [TreeIds.of, only]

/-- `storeTxns` on a connection that does not fail stores its tree: it commits the rows of the
tree and makes the updates that are asked for, under some row ids, and returns those of the
transactions. -/
theorem storeTxns_meets {hcd : Hcd} {checked updateAddressesSpendingInfo : Bool}
    {msgBlock : MsgBlock} {tree : TxTree} (clean : here.Clean)
    (distinct : ((treeTransactions msgBlock tree).map hcd.txHash).Nodup) :
    let txs := extractBlockTransactions hcd msgBlock tree
    Meets postgres (treeContract start (footprintOf txs))
      (fun result done _ => ∃ ids, TreeDone start checked updateAddressesSpendingInfo txs ids done ∧
        ∃ stored, result = .ok stored ∧ stored.txDbIDs = ids.txs)
      (storeTxns hcd checked msgBlock tree updateAddressesSpendingInfo) [] here := by
  intro txs
  have pairs := nodup_extracted_hashes distinct
  apply Meets.attempt
  apply storeOuts_meets clean
  intro outs _ doneOuts fit cleanOuts grownOuts
  have keyedPairs := hashes_keyedTxs fit
  apply Meets.attempt
  refine insertTxns_meets cleanOuts (keyedPairs ▸ pairs) (mine_keyedTxs fit) ?_ ?_
  · rw [grownOuts.committed]
    simp [txHashes_outsRows]
  intro txDbIDs _ doneTxs lengthTxs cleanTxs grownTxs
  apply Meets.attempt
  refine insertAddressOuts_meets cleanTxs (fun row member => outpoint_fundedRows member) ?_
  intro addressIds _ front lengthAddresses cleanAddresses grownAddresses
  let ids : TreeIds := ⟨outs, txDbIDs, addressIds⟩
  apply Meets.attempt
  have owned : ∀ set ∈ treeSpendings updateAddressesSpendingInfo ids txs,
      set.outpoint ∈ (footprintOf txs).spent := owned_treeSpendings
  refine setSpendings_meets cleanAddresses owned ?_
  intro after cleanAfter
  have fits : ids.Fit start checked txs := ⟨fit, lengthTxs, lengthAddresses⟩
  exact ⟨ids, treeDone_of_grown fits grownOuts grownTxs grownAddresses, _, rfl, rfl⟩

end Tree

end Hcexplorer.Hcpg

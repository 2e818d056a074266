import Hcexplorer.Hcpg.TreeEffect

/-!
# The two goroutines of a stored block

The trees of a valid block have separate footprints: their transactions have
different hashes, no outpoint is spent in both, and none of one tree spends an
output of the other. So their effects commute, and in every interleaving without
failures both trees do what each does alone. The tables end with the rows of the
start, those of the two trees, and the updates of the two trees, under row ids
that the sequences gave out to no one else.

The validity of a block is what hcd's consensus promises of it, and that its hash
function has no collision among its transactions.
-/

namespace Hcexplorer.Hcpg

open Interactive

section Separation

/-- Two trees do not touch what is the other's. -/
structure Footprint.Apart (left right : Footprint) : Prop where
  hashes : ∀ hashes ∈ left.hashes, hashes ∉ right.hashes
  spent : ∀ outpoint ∈ left.spent, outpoint ∉ right.spent
  leftSpends : ∀ outpoint ∈ left.spent, outpoint ∉ right.created
  rightSpends : ∀ outpoint ∈ right.spent, outpoint ∉ left.created

variable {start : TxTables} {left right : Footprint}

/-- Footprints that are apart are so in either order. -/
theorem Footprint.Apart.symm (apart : left.Apart right) : right.Apart left where
  hashes pair member other := apart.hashes pair other member
  spent outpoint member other := apart.spent outpoint other member
  leftSpends := apart.rightSpends
  rightSpends := apart.leftSpends

/-- An update does not see the rows of the other tree. -/
theorem spend_rows_comm {set : SetSpending} {pending : TxTables}
    (ownsSet : set.outpoint ∈ left.spent)
    (ownsRows : ∀ stored ∈ pending.addresses, stored.row.outpoint ∈ right.created)
    (unspent : ∀ outpoint ∈ left.spent, outpoint ∉ right.created) (tables : TxTables) :
    (tables + pending).spend set = tables.spend set + pending := by
  apply TxTables.spend_add
  intro stored member same
  exact unspent _ ownsSet (same ▸ ownsRows stored member)

/-- The effects of two separate trees commute, so that their interleaving does not matter. -/
theorem effects_comm (apart : left.Apart right) {mine other : Effect}
    (ownsMine : (treeContract start left).owns mine)
    (ownsOther : (treeContract start right).owns other) (db : TxDb) :
    postgres.apply other (postgres.apply mine db) =
      postgres.apply mine (postgres.apply other db) := by
  cases mine with
  | none => rfl
  | nextval table id =>
    cases other with
    | none | rows | spend => rfl
    | nextval second _ =>
      simp only [postgres, Effect.apply, TxDb.mk.injEq, true_and]
      funext each
      split <;> split <;> simp_all
  | rows pending =>
    cases other with
    | none | nextval => rfl
    | rows later => simp only [postgres, Effect.apply, add_right_comm]
    | spend set =>
      simp only [postgres, Effect.apply,
        spend_rows_comm ownsOther ownsMine.2 apart.rightSpends]
  | spend set =>
    cases other with
    | none | nextval => rfl
    | rows pending =>
      simp only [postgres, Effect.apply,
        spend_rows_comm ownsMine ownsOther.2 apart.leftSpends]
    | spend later =>
      have different : set.outpoint ≠ later.outpoint := by
        intro same
        exact apart.spent _ ownsMine (same ▸ ownsOther)
      simp only [postgres, Effect.apply, TxTables.spend_comm different]

/-- What a tree committed is its own: its rows have hashes of its transactions. -/
theorem committed_owned {done : List Effect}
    (owned : ∀ effect ∈ done, (treeContract start left).owns effect) :
    ∀ hashes ∈ (committed done).txHashes, hashes ∈ left.hashes := by
  induction done with
  | nil => simp
  | cons effect rest inductionHypothesis =>
    intro hashes member
    rw [committed_cons, TxTables.txHashes_add, Multiset.mem_add] at member
    rcases member with now | later
    · cases effect with
      | rows pending => exact (owned _ List.mem_cons_self).1 hashes now
      | none | nextval | spend => exact absurd now (Multiset.notMem_zero _)
    · exact inductionHypothesis (fun each present => owned each (List.mem_cons_of_mem _ present))
        hashes later

end Separation

section Freshness

/-- Ids between two values of a sequence, each given out once. -/
structure Fresh (first next : Nat) (ids : List Nat) : Prop where
  distinct : ids.Nodup
  bounds : ∀ id ∈ ids, first ≤ id ∧ id < next

variable {first next : Nat} {front back : List Nat}

/-- Ids that are fresh up to one value of the sequence are fresh up to any later one. -/
theorem Fresh.mono {ids : List Nat} (fresh : Fresh first next ids) {later : Nat}
    (least : next ≤ later) : Fresh first later ids := by
  refine ⟨fresh.distinct, ?_⟩
  intro id member
  obtain ⟨low, high⟩ := fresh.bounds id member
  omega

/-- The next value of the sequence is another id. -/
theorem Fresh.insert (fresh : Fresh first next (front ++ back)) (low : first ≤ next) :
    Fresh first (next + 1) (front ++ next :: back) := by
  refine ⟨?_, ?_⟩
  · rw [List.nodup_middle, List.nodup_cons]
    refine ⟨?_, fresh.distinct⟩
    intro member
    exact absurd (fresh.bounds next member).2 (Nat.lt_irrefl next)
  · intro id member
    rw [List.mem_append, List.mem_cons] at member
    by_cases isNext : id = next
    · omega
    · have inside : id ∈ front ++ back := by
        rw [List.mem_append]
        tauto
      obtain ⟨low, high⟩ := fresh.bounds id inside
      omega

/-- The ids handed to the two trees are fresh, and given out once. -/
def HandedApart (start : TxDb) (doneLeft doneRight : List Effect) : Prop :=
  ∀ table, Fresh (start.sequences table)
    (start.sequences table + steps table doneLeft + steps table doneRight)
    (handed table doneLeft ++ handed table doneRight)

/-- A statement hands out the next value of a sequence, or nothing. -/
theorem handed_effect (request : Statement) (here : Conn) (db : TxDb) (table : Table) :
    let effect := postgres.effect request (postgres.reply request here db) here
    effect.handed table = [] ∨
      effect.handed table = [db.sequences table] ∧ effect.steps table = 1 := by
  simp only [postgres, reply]
  cases here.faults here.issued with
  | some err => cases request <;> exact Or.inl rfl
  | none =>
    cases request with
    | begin | prepare | commit | rollback | setSpending => exact Or.inl rfl
    | insert insert =>
      by_cases conflict : insert.conflicts (db.tables + here.pending)
      · simp only [if_pos conflict]
        exact Or.inl rfl
      · simp only [if_neg conflict, effect, Effect.handed, Effect.steps]
        by_cases same : table = insert.table
        · rw [if_pos same, if_pos same, same]
          exact Or.inr ⟨rfl, rfl⟩
        · rw [if_neg same]
          exact Or.inl rfl

variable {start : TxDb} {doneLeft doneRight : List Effect}

/-- The sequences after the effects of two trees have advanced by the steps of both. -/
theorem sequences_after (table : Table) : (postgres.after start doneLeft doneRight).sequences table =
    start.sequences table + steps table doneLeft + steps table doneRight := by
  rw [Server.after, sequences_applyAll, sequences_applyAll]

/-- A statement of the left tree keeps the ids apart. -/
theorem HandedApart.left (apart : HandedApart start doneLeft doneRight) (request : Statement)
    (here : Conn) : HandedApart start (doneLeft ++ [postgres.effect request
      (postgres.reply request here (postgres.after start doneLeft doneRight)) here]) doneRight := by
  intro table
  have before := apart table
  have either := handed_effect request here (postgres.after start doneLeft doneRight) table
  rw [sequences_after] at either
  rw [handed_append, steps_append, handed_cons, steps_cons, handed_nil, steps_nil]
  rcases either with nothing | ⟨one, step⟩
  · rw [nothing]
    simpa using before.mono (by omega)
  · have grown := before.insert (by omega)
    rw [one, step]
    simpa using grown.mono (by omega)

/-- A statement of the right tree keeps the ids apart. -/
theorem HandedApart.right (apart : HandedApart start doneLeft doneRight) (request : Statement)
    (here : Conn) : HandedApart start doneLeft (doneRight ++ [postgres.effect request
      (postgres.reply request here (postgres.after start doneLeft doneRight)) here]) := by
  intro table
  have before := apart table
  have either := handed_effect request here (postgres.after start doneLeft doneRight) table
  rw [sequences_after] at either
  rw [handed_append, steps_append, handed_cons, steps_cons, handed_nil, steps_nil]
  rcases either with nothing | ⟨one, step⟩
  · rw [nothing]
    simpa using before.mono (by omega)
  · rw [← List.append_nil (handed table doneLeft ++ handed table doneRight)] at before
    have grown := before.insert (by omega)
    rw [one, step]
    simpa using grown.mono (by omega)

end Freshness

section Compatibility

variable {start : TxDb} {left right : Footprint}

/-- A statement is replied as a tree relies on, when only pairs of other
transactions were committed since the start. -/
theorem allowed_reply {done : List Effect} {here : Conn} {request : Statement} {db : TxDb}
    (others : Multiset (Hash × Hash))
    (asks : (treeContract start.tables left).asks done here request)
    (index : db.tables.txHashes = start.tables.txHashes + (committed done).txHashes + others)
    (apart : ∀ hashes ∈ left.hashes, hashes ∉ others) :
    (treeContract start.tables left).allowed here request (postgres.reply request here db) := by
  intro clean
  simp only [postgres, reply, clean here.issued]
  cases request with
  | begin | prepare | commit | rollback | setSpending =>
    refine ⟨none, rfl, ?_⟩
    rintro _ ⟨⟩
  | insert insert =>
    have conflicts : insert.conflicts (db.tables + here.pending) ↔ insert.conflicts start.tables := by
      cases insert with
      | vout | vin | address => rfl
      | tx checked row =>
        obtain ⟨mine, free⟩ := asks _ rfl row.hashes (List.mem_singleton.mpr rfl)
        have foreign := apart _ mine
        simp only [Insert.conflicts, TxTables.txHashes_add, index, Multiset.mem_add] at free ⊢
        tauto
    by_cases conflict : insert.conflicts (db.tables + here.pending)
    · refine ⟨none, by simp only [if_pos conflict], ?_⟩
      rintro _ ⟨⟩
      simp [conflicts.mp conflict]
    · refine ⟨some (db.sequences insert.table), by simp only [if_neg conflict], ?_⟩
      rintro _ ⟨⟩
      simp [mt conflicts.mpr conflict]

/-- Two separate trees are compatible, with ids kept apart. -/
theorem trees_compatible (apart : left.Apart right) :
    Compatible postgres (treeContract start.tables left) (treeContract start.tables right) start
      (HandedApart start) where
  commute mine other db ownsMine ownsOther := effects_comm apart ownsMine ownsOther db
  leftStep doneLeft doneRight here request _ ownsRight handedApart asks := by
    refine ⟨?_, handedApart.left request here⟩
    apply allowed_reply (committed doneRight).txHashes asks
    · rw [Server.after, txHashes_applyAll, txHashes_applyAll]
    · intro pair mine other
      exact apart.hashes pair mine (committed_owned ownsRight pair other)
  rightStep doneLeft doneRight here request ownsLeft _ handedApart asks := by
    refine ⟨?_, handedApart.right request here⟩
    apply allowed_reply (committed doneLeft).txHashes asks
    · rw [Server.after, txHashes_applyAll, txHashes_applyAll, add_right_comm]
    · intro pair mine other
      exact apart.symm.hashes pair mine (committed_owned ownsLeft pair other)

end Compatibility

section Validity

/-- The inputs of a tree, transaction by transaction. -/
def treeVins (hcd : Hcd) (msgBlock : MsgBlock) (tree : TxTree) : List VinTxProperty :=
  (treeTransactions msgBlock tree).flatMap (vinsOf hcd tree)

/-- The outputs of a tree, transaction by transaction. -/
def treeVouts (hcd : Hcd) (msgBlock : MsgBlock) (tree : TxTree) : List Vout :=
  (treeTransactions msgBlock tree).flatMap (voutsOf hcd tree)

/-- What consensus promises of a block: no stake transaction is in the regular
tree, transactions have different hashes, an outpoint is spent by one input, and no
transaction spends an output of the other tree. -/
structure ValidBlock (hcd : Hcd) (msgBlock : MsgBlock) : Prop where
  regular : ∀ tx ∈ msgBlock.transactions, isStakeTx hcd tx = false
  distinct : ((msgBlock.transactions ++ msgBlock.sTransactions).map hcd.txHash).Nodup
  once : ∀ tree vin, vin ∈ treeVins hcd msgBlock tree → ∀ other second,
    second ∈ treeVins hcd msgBlock other → vin.prevTxHash ≠ 0 → vin.outpoint = second.outpoint →
    vin = second
  separate : ∀ tree vin, vin ∈ treeVins hcd msgBlock tree → ∀ other vout,
    vout ∈ treeVouts hcd msgBlock other → vin.prevTxHash ≠ 0 → vin.outpoint = vout.outpoint →
    tree = other

variable {hcd : Hcd} {msgBlock : MsgBlock}

/-- All transactions of a valid block are extracted, each with its index in the tree. -/
theorem ValidBlock.extracted (valid : ValidBlock hcd msgBlock) (tree : TxTree) :
    extractBlockTransactions hcd msgBlock tree =
      (treeTransactions msgBlock tree).zipIdx.map fun (tx, txIndex) =>
        ⟨txOf hcd msgBlock tree tx txIndex, voutsOf hcd tree tx, vinsOf hcd tree tx⟩ := by
  rw [extractBlockTransactions, processTransactions]
  apply if_neg
  rintro ⟨misplaced, notStake⟩
  obtain ⟨tx, listed, isStake⟩ := List.any_eq_true.mp misplaced
  cases tree with
  | regular => simp [valid.regular tx listed] at isStake
  | stake => exact notStake rfl

/-- The rows of the inputs are extracted in order. -/
theorem ValidBlock.inputs_eq (valid : ValidBlock hcd msgBlock) (tree : TxTree) :
    inputs (extractBlockTransactions hcd msgBlock tree) = treeVins hcd msgBlock tree := by
  rw [valid.extracted, inputs, treeVins, List.flatMap_map]
  conv_rhs => rw [← List.zipIdx_map_fst 0 (treeTransactions msgBlock tree), List.flatMap_map]

/-- The outpoints that a tree of a valid block creates are those of its outputs. -/
theorem ValidBlock.createdBy_eq (valid : ValidBlock hcd msgBlock) (tree : TxTree) :
    createdBy (extractBlockTransactions hcd msgBlock tree) =
      (treeVouts hcd msgBlock tree).map Vout.outpoint := by
  rw [valid.extracted, createdBy, treeVouts, List.flatMap_map, List.map_flatMap]
  conv_rhs => rw [← List.zipIdx_map_fst 0 (treeTransactions msgBlock tree), List.flatMap_map]

/-- The hashes of the transactions in one tree of a valid block are different. -/
theorem ValidBlock.distinct_tree (valid : ValidBlock hcd msgBlock) (tree : TxTree) :
    ((treeTransactions msgBlock tree).map hcd.txHash).Nodup := by
  have distinct := valid.distinct
  rw [List.map_append] at distinct
  obtain ⟨regular, stake, -⟩ := List.nodup_append.mp distinct
  cases tree with
  | regular => exact regular
  | stake => exact stake

/-- An outpoint is spent by a tree of a valid block exactly when an input of the tree is for it,
other than a coinbase one. -/
theorem ValidBlock.mem_spentBy (valid : ValidBlock hcd msgBlock) {tree : TxTree}
    {outpoint : Hash × UInt32} :
    outpoint ∈ spentBy (extractBlockTransactions hcd msgBlock tree) ↔
      ∃ vin ∈ treeVins hcd msgBlock tree, vin.prevTxHash ≠ 0 ∧ vin.outpoint = outpoint := by
  simp only [spentBy, valid.inputs_eq, List.mem_map, List.mem_filter, ne_eq, decide_not,
    Bool.not_eq_true', decide_eq_false_iff_not, and_assoc]

/-- An input is one of one tree, as its row has the number of the tree. -/
theorem tree_eq_of_mem_treeVins {tree other : TxTree} {vin : VinTxProperty}
    (input : vin ∈ treeVins hcd msgBlock tree) (inputToo : vin ∈ treeVins hcd msgBlock other) :
    tree = other := by
  have column : ∀ {tree : TxTree}, vin ∈ treeVins hcd msgBlock tree →
      vin.txTree = tree.toInt8.toInt16.toUInt16 := by
    intro tree member
    obtain ⟨tx, _, listed⟩ := List.mem_flatMap.mp member
    obtain ⟨_, _, rfl⟩ := List.mem_map.mp listed
    rfl
  have both := (column input).symm.trans (column inputToo)
  cases tree <;> cases other
  · rfl
  · exact absurd both (by decide)
  · exact absurd both (by decide)
  · rfl

/-- The trees of a valid block are separate: they have other hashes, and neither spends what the
other creates or spends. -/
theorem ValidBlock.apart (valid : ValidBlock hcd msgBlock) :
    (footprintOf (extractBlockTransactions hcd msgBlock .regular)).Apart
      (footprintOf (extractBlockTransactions hcd msgBlock .stake)) := by
  have name : ∀ {tree : TxTree} {hashes : Hash × Hash},
      hashes ∈ (footprintOf (extractBlockTransactions hcd msgBlock tree)).hashes →
      hashes.1 ∈ (treeTransactions msgBlock tree).map hcd.txHash := by
    intro tree hashes member
    obtain ⟨dbtx, extracted, rfl⟩ := List.mem_map.mp member
    obtain ⟨tx, listed, index, rfl⟩ := processTransactions_tx extracted
    exact List.mem_map_of_mem listed
  have unspent : ∀ {tree other : TxTree}, tree ≠ other → ∀ outpoint,
      outpoint ∈ spentBy (extractBlockTransactions hcd msgBlock tree) →
      outpoint ∉ createdBy (extractBlockTransactions hcd msgBlock other) := by
    intro tree other different outpoint spent created
    rw [valid.createdBy_eq] at created
    obtain ⟨vin, input, regular, rfl⟩ := valid.mem_spentBy.mp spent
    obtain ⟨vout, output, same⟩ := List.mem_map.mp created
    exact different (valid.separate tree vin input other vout output regular same.symm)
  refine ⟨?_, ?_, unspent (by decide), unspent (by decide)⟩
  · intro hashes regular stake
    have distinct := valid.distinct
    rw [List.map_append] at distinct
    obtain ⟨-, -, different⟩ := List.nodup_append.mp distinct
    exact different _ (name regular) _ (name stake) rfl
  · intro outpoint regular stake
    obtain ⟨vin, input, nonzero, rfl⟩ := valid.mem_spentBy.mp regular
    obtain ⟨other, second, -, same⟩ := valid.mem_spentBy.mp stake
    have one := valid.once .regular vin input .stake other second nonzero same.symm
    subst one
    exact absurd (tree_eq_of_mem_treeVins input second) (by decide)

end Validity

end Hcexplorer.Hcpg

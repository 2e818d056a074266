import Hcexplorer.Hcpg.SpendingInfo

/-!
# The two ways to write spending information

The same chain is stored twice: once with the spending columns written as blocks are
stored, and once without, followed by one pass over the vins table. Both name the
spender of every outpoint by the hash of its transaction and the index of its input.
They differ in the row id of the spending transaction, which the pass does not look up:
it writes zero, where the other way writes an id from the sequence, which starts at
one.

So the tables agree in all spending columns exactly when no input of the chain spends
an output that pays to an address.
-/

namespace Hcexplorer.Hcpg

section Columns

/-- The address, the outpoint and all spending columns of the addresses table. -/
def TxTables.spendingColumns (tables : TxTables) :
    Multiset ((String × Hash × UInt32) × Option Spending) :=
  tables.addresses.map fun stored => (stored.row.payment, stored.row.spending)

/-- The address and the outpoint of each row, with the columns that name its spender. -/
def TxTables.spenderColumns (tables : TxTables) :
    Multiset ((String × Hash × UInt32) × Option (Hash × UInt32)) :=
  tables.addresses.map fun stored => (stored.row.payment, stored.row.spending.map fun spending =>
    (spending.spendingTxHash, spending.spendingTxVinIndex))

/-- The spender of an outpoint in some blocks, by the hash and index of the first input that
spends it. -/
def spenderOf (hcd : Hcd) (stored : List MsgBlock) (outpoint : Hash × UInt32) :
    Option (Hash × UInt32) :=
  ((stored.flatMap (blockVins hcd)).find? fun vin =>
    vin.prevTxHash ≠ 0 ∧ vin.outpoint = outpoint).map fun vin => (vin.txID, vin.txIndex)

variable {hcd : Hcd} {chain : List MsgBlock} {deferred : List Nat} {count : Nat} {tx after : TxDb}

/-- When nothing waits, the spenders in the table are those of the chain. -/
theorem Recorded.spenderColumns_eq (recorded : Recorded hcd chain [] count tx) :
    tx.tables.spenderColumns = tx.tables.payments.map fun payment =>
      (payment, spenderOf hcd (chain.take count) payment.2) := by
  rw [TxTables.spenderColumns, TxTables.payments, Multiset.map_map]
  refine Multiset.map_congr rfl fun stored member => Prod.ext rfl ?_
  show stored.row.spending.map _ = spenderOf hcd (chain.take count) stored.row.outpoint
  cases found : (((chain.take count).flatMap (blockVins hcd)).find? fun vin =>
      vin.prevTxHash ≠ 0 ∧ vin.outpoint = stored.row.outpoint) with
  | none =>
    have unspent : stored.row.spending = none := by
      by_contra spent
      obtain ⟨i, block, vin, inside, isBlock, -, spends, same⟩ := recorded.written stored member spent
      have input : vin ∈ (chain.take count).flatMap (blockVins hcd) :=
        List.mem_flatMap.mpr ⟨block, mem_take_iff.mpr ⟨i, inside, isBlock⟩, spends.1⟩
      exact List.find?_eq_none.mp found vin input (decide_eq_true ⟨spends.2, same⟩)
    rw [unspent, spenderOf, found]
    rfl
  | some vin =>
    have spends := List.find?_some found
    simp only [ne_eq, decide_eq_true_eq] at spends
    obtain ⟨block, isStored, input⟩ := List.mem_flatMap.mp (List.mem_of_find?_eq_some found)
    obtain ⟨i, inside, isBlock⟩ := mem_take_iff.mp isStored
    obtain ⟨spending, isSpent, isHash, isIndex⟩ := recorded.carried i block vin inside isBlock
      List.not_mem_nil ⟨input, spends.1⟩ stored member spends.2.symm
    rw [isSpent, spenderOf, found, Option.map_some, Option.map_some, isHash, isIndex]

/-- Row ids of spending transactions were given out by the sequence. -/
structure Numbered (tx : TxDb) : Prop where
  positive : 0 < tx.sequences .transactions
  numbered : ∀ stored ∈ tx.tables.addresses, ∀ spending, stored.row.spending = some spending →
    spending.spendingTxDbID ≠ 0

/-- A stored block keeps the ids numbered, as the sequence goes on from where it was. -/
theorem Numbered.store {checked updateAddressesSpendingInfo : Bool} {reg stk : List ExtractedTx}
    {regIds stkIds : TreeIds} (numbered : Numbered tx)
    (done : BlockDone tx checked updateAddressesSpendingInfo reg stk regIds stkIds after) :
    Numbered after := by
  have fresh := done.fresh .transactions
  have ids : ∀ id, id ∈ regIds.txs ∨ id ∈ stkIds.txs → id ≠ 0 := by
    intro id given
    have low := (fresh.bounds id (List.mem_append.mpr given)).1
    have positive := numbered.positive
    omega
  refine ⟨Nat.lt_of_lt_of_le numbered.positive (done.sequences .transactions), ?_⟩
  intro stored member spending isSpent
  rw [done.tables, blockTables] at member
  obtain ⟨base, isBase, rfl⟩ := mem_addresses_spendAll.mp member
  rcases base.row.spendAll_cases _ with ⟨set, listed, -, ends⟩ | ⟨-, ends⟩
  · rw [ends] at isSpent
    obtain rfl := Option.some.inj isSpent
    rcases List.mem_append.mp listed with regular | stake
    · obtain ⟨-, vin, -, -, txDbID, given, vinDbID, rfl⟩ := mem_treeSpendings regular
      exact ids txDbID (Or.inl given)
    · obtain ⟨-, vin, -, -, txDbID, given, vinDbID, rfl⟩ := mem_treeSpendings stake
      exact ids txDbID (Or.inr given)
  · rw [ends] at isSpent
    rw [TxTables.add_addresses, TxTables.add_addresses, Multiset.mem_add, Multiset.mem_add] at isBase
    rcases isBase with (before | regular) | stake
    · exact numbered.numbered base before spending isSpent
    · rw [unspent_treeRows regular] at isSpent
      cases isSpent
    · rw [unspent_treeRows stake] at isSpent
      cases isSpent

/-- The pass writes no row id of a transaction. -/
theorem spendingTxDbID_populated (recorded : Recorded hcd chain deferred count tx)
    (all : ∀ i < count, i ∈ deferred) (listing : List (Stored VinTxProperty))
    {stored : Stored AddressRow}
    (member : stored ∈ (tx.tables.spendAll (listing.filterMap bulkSpending)).addresses)
    {spending : Spending} (isSpent : stored.row.spending = some spending) :
    spending.spendingTxDbID = 0 := by
  obtain ⟨base, isBase, rfl⟩ := mem_addresses_spendAll.mp member
  rcases base.row.spendAll_cases _ with ⟨set, listed, -, ends⟩ | ⟨-, ends⟩
  · rw [ends] at isSpent
    obtain rfl := Option.some.inj isSpent
    obtain ⟨vin, -, isSet⟩ := List.mem_filterMap.mp listed
    obtain ⟨-, rfl⟩ := Recorded.bulkSpending_eq_some.mp isSet
    rfl
  · rw [ends] at isSpent
    have spent : base.row.spending ≠ none := by
      rw [show base.row.spending = some spending from isSpent]
      simp
    obtain ⟨i, block, vin, inside, -, absent, -⟩ := recorded.written base isBase spent
    exact absurd (all i inside) absent

end Columns

section Paths

/-- Store blocks one after another, each in its interleaving. -/
def ChainDB.storeChain (hcd : Hcd) (updateAddressesSpendingInfo : Bool)
    (storings : List (StoreEnv × MsgBlock)) (pgb : ChainDB) : ChainDB :=
  storings.foldl (fun pgb storing =>
    (pgb.storeBlock hcd storing.1 storing.2 true updateAddressesSpendingInfo).2) pgb

/-- A ChainDB over tables as they are created, with or without checks of duplicates. -/
def freshChainDB (dupChecks : Bool) : ChainDB :=
  (newChainDB .created).enableDuplicateCheckOnInsert dupChecks

/-- The tables when spending columns are written with each block. -/
def spentAsStored (hcd : Hcd) (dupChecks : Bool) (storings : List (StoreEnv × MsgBlock)) : TxTables :=
  ((freshChainDB dupChecks).storeChain hcd true storings).db.tx.tables

/-- The tables when they are written by the pass, over a listing of the vins table. -/
def spentByPass (hcd : Hcd) (dupChecks : Bool) (storings : List (StoreEnv × MsgBlock))
    (listing : TxTables → List (Stored VinTxProperty)) : TxTables :=
  let tables := ((freshChainDB dupChecks).storeChain hcd false storings).db.tx.tables
  updateSpendingInfoInAllAddresses (fun _ => none) (listing tables) tables

variable {hcd : Hcd} {chain : List MsgBlock} {deferred : List Nat} {pgb : ChainDB}

/-- The rest of a chain is stored, and all of its blocks are recorded afterwards. -/
theorem Recording.storeChain (valid : ValidChain hcd chain) {updateAllAddresses : Bool} {found : Nat}
    {storings : List (StoreEnv × MsgBlock)} (clean : ∀ storing ∈ storings, storing.1.Clean)
    (grown : found ≤ pgb.db.blocks.length)
    (recording : Recording hcd chain
      (deferSince updateAllAddresses deferred found pgb.db.blocks.length) pgb)
    (numbered : Numbered pgb.db.tx)
    (inOrder : storings.map Prod.snd = chain.drop pgb.db.blocks.length) :
    let final := pgb.storeChain hcd (!updateAllAddresses) storings
    Recording hcd chain (deferSince updateAllAddresses deferred found final.db.blocks.length) final ∧
      Numbered final.db.tx ∧ chain.length ≤ final.db.blocks.length := by
  induction storings generalizing pgb with
  | nil => exact ⟨recording, numbered, List.drop_eq_nil_iff.mp inOrder.symm⟩
  | cons storing rest inductionHypothesis =>
    have isNext : chain[pgb.db.blocks.length]? = some storing.2 := by
      rw [← List.head?_drop, ← inOrder]
      rfl
    have cleanStoring := clean storing List.mem_cons_self
    obtain ⟨counts, after, stored, length, kept⟩ :=
      recording.storeBlock valid isNext cleanStoring (!updateAllAddresses)
    obtain ⟨regIds, stkIds, done⟩ := pgb.storeBlock_done cleanStoring.toTreesClean
      (valid.valid _ (List.mem_of_getElem? isNext)) true (!updateAllAddresses)
    rw [deferNext_deferSince updateAllAddresses grown, ← length] at kept
    rw [stored] at done
    have later : rest.map Prod.snd = chain.drop after.db.blocks.length := by
      rw [length, ← List.tail_drop, ← inOrder]
      rfl
    have same : pgb.storeChain hcd (!updateAllAddresses) (storing :: rest) =
        after.storeChain hcd (!updateAllAddresses) rest := by
      rw [ChainDB.storeChain, List.foldl_cons, stored]
      rfl
    rw [same]
    exact inductionHypothesis (fun other member => clean other (List.mem_cons_of_mem _ member))
      (by omega) kept (numbered.store done) later

/-- A whole chain is stored into new tables, and all of its blocks are recorded, waiting or not. -/
theorem storeChain_recorded (valid : ValidChain hcd chain) (dupChecks updateAllAddresses : Bool)
    {storings : List (StoreEnv × MsgBlock)} (clean : ∀ storing ∈ storings, storing.1.Clean)
    (isChain : storings.map Prod.snd = chain) :
    let tx := ((freshChainDB dupChecks).storeChain hcd (!updateAllAddresses) storings).db.tx
    ∃ count, chain.length ≤ count ∧
      Recorded hcd chain (if updateAllAddresses then List.range count else []) count tx ∧
      Numbered tx := by
  have created : SyncHistory.created.Holds hcd chain := SyncHistory.Holds.created
  have atStart : Recording hcd chain (deferSince updateAllAddresses [] 0 0) (freshChainDB dupChecks) := by
    have nothing : deferSince updateAllAddresses [] 0 0 = [] := by cases updateAllAddresses <;> rfl
    rw [nothing]
    exact Recording.withChecks created dupChecks
  have numbered : Numbered (freshChainDB dupChecks).db.tx := by
    refine ⟨Nat.one_pos, fun stored member => ?_⟩
    exact absurd member (Multiset.notMem_zero stored)
  obtain ⟨kept, numberedAfter, all⟩ :=
    Recording.storeChain valid clean (Nat.zero_le _) atStart numbered isChain
  refine ⟨_, all, ?_, numberedAfter⟩
  have recorded := kept.recorded
  have waiting : deferSince updateAllAddresses [] 0 ((freshChainDB dupChecks).storeChain hcd
      (!updateAllAddresses) storings).db.blocks.length = if updateAllAddresses then List.range
        ((freshChainDB dupChecks).storeChain hcd (!updateAllAddresses) storings).db.blocks.length
      else [] := by
    rw [deferSince, List.nil_append, Nat.sub_zero, List.range_eq_range']
  rwa [waiting] at recorded

/-- The tables written by the pass, and what they record. -/
theorem spentByPass_recorded (valid : ValidChain hcd chain) (dupChecks : Bool)
    {storings : List (StoreEnv × MsgBlock)} (clean : ∀ storing ∈ storings, storing.1.Clean)
    (isChain : storings.map Prod.snd = chain) {listing : TxTables → List (Stored VinTxProperty)}
    (all : ∀ tables : TxTables, (listing tables : Multiset (Stored VinTxProperty)) = tables.vins) :
    ∃ count tx, chain.length ≤ count ∧ Recorded hcd chain [] count tx ∧
      tx.tables = spentByPass hcd dupChecks storings listing ∧
      ∀ stored ∈ tx.tables.addresses, ∀ spending, stored.row.spending = some spending →
        spending.spendingTxDbID = 0 := by
  obtain ⟨count, least, recorded, -⟩ := storeChain_recorded valid dupChecks true clean isChain
  refine ⟨count, _, least, recorded.populate valid (all _), ?_, ?_⟩
  · exact (Recorded.updateSpendingInfoInAllAddresses_eq (fun _ => rfl) _ _).symm
  · intro stored member spending isSpent
    exact spendingTxDbID_populated recorded (fun i inside => List.mem_range.mpr inside) _ member isSpent

/-- What the chain pays to addresses, with the outpoint of each payment. -/
def chainPayments (hcd : Hcd) (chain : List MsgBlock) : List (String × Hash × UInt32) :=
  chain.flatMap fun block => paymentsOf (blockVouts hcd block)

/-- The payments in the tables of a recorded chain are the payments of the chain. -/
theorem Recorded.payments_eq {count : Nat} {tx : TxDb} (recorded : Recorded hcd chain [] count tx)
    (least : chain.length ≤ count) : tx.tables.payments = (chainPayments hcd chain : Multiset _) := by
  rw [recorded.rows.payments, List.take_of_length_le least]
  rfl

/-- No input of the chain spends an output that pays to an address. -/
def SpendsNoAddress (hcd : Hcd) (chain : List MsgBlock) : Prop :=
  ∀ block ∈ chain, ∀ vin, Spends hcd block vin → ∀ payment ∈ chainPayments hcd chain,
    payment.2 ≠ vin.outpoint

/-- Where the chain spends no payment, no spending column is written. -/
theorem Recorded.spendingColumns_eq {count : Nat} {tx : TxDb}
    (recorded : Recorded hcd chain [] count tx) (least : chain.length ≤ count)
    (nothing : SpendsNoAddress hcd chain) : tx.tables.spendingColumns =
      ((chainPayments hcd chain).map fun payment => (payment, (none : Option Spending)) :
        Multiset _) := by
  have unspent : tx.tables.spendingColumns =
      tx.tables.payments.map fun payment => (payment, (none : Option Spending)) := by
    rw [TxTables.spendingColumns, TxTables.payments, Multiset.map_map]
    refine Multiset.map_congr rfl fun stored member => Prod.ext rfl ?_
    by_contra spent
    obtain ⟨i, block, vin, -, isBlock, -, spends, same⟩ := recorded.written stored member spent
    have paid : stored.row.payment ∈ tx.tables.payments :=
      Multiset.mem_map_of_mem (fun stored : Stored AddressRow => stored.row.payment) member
    rw [recorded.payments_eq least, Multiset.mem_coe] at paid
    exact nothing block (List.mem_of_getElem? isBlock) vin spends _ paid same.symm
  rw [unspent, recorded.payments_eq least, Multiset.map_coe]

/-- Both ways to fill the spending columns name the same spenders. -/
theorem spenderColumns_agree (valid : ValidChain hcd chain) {dupChecks dupChecksToo : Bool}
    {storings others : List (StoreEnv × MsgBlock)} (clean : ∀ storing ∈ storings, storing.1.Clean)
    (isChain : storings.map Prod.snd = chain) (cleanToo : ∀ storing ∈ others, storing.1.Clean)
    (isChainToo : others.map Prod.snd = chain) {listing : TxTables → List (Stored VinTxProperty)}
    (all : ∀ tables : TxTables, (listing tables : Multiset (Stored VinTxProperty)) = tables.vins) :
    (spentAsStored hcd dupChecks storings).spenderColumns =
      (spentByPass hcd dupChecksToo others listing).spenderColumns := by
  obtain ⟨count, least, recorded, -⟩ := storeChain_recorded valid dupChecks false clean isChain
  obtain ⟨countToo, tx, leastToo, recordedToo, isPass, -⟩ :=
    spentByPass_recorded valid dupChecksToo cleanToo isChainToo all
  have stored : Recorded hcd chain [] count
      ((freshChainDB dupChecks).storeChain hcd true storings).db.tx := recorded
  rw [← isPass, recordedToo.spenderColumns_eq, spentAsStored, stored.spenderColumns_eq,
    stored.payments_eq least, recordedToo.payments_eq leastToo, List.take_of_length_le least,
    List.take_of_length_le leastToo]

/-- The two ways agree in every spending column exactly when no input of the chain
spends an output that pays to an address: the pass leaves zero for the row id of the
spending transaction. -/
theorem spendingColumns_agree_iff (valid : ValidChain hcd chain) {dupChecks dupChecksToo : Bool}
    {storings others : List (StoreEnv × MsgBlock)} (clean : ∀ storing ∈ storings, storing.1.Clean)
    (isChain : storings.map Prod.snd = chain) (cleanToo : ∀ storing ∈ others, storing.1.Clean)
    (isChainToo : others.map Prod.snd = chain) {listing : TxTables → List (Stored VinTxProperty)}
    (all : ∀ tables : TxTables, (listing tables : Multiset (Stored VinTxProperty)) = tables.vins) :
    (spentAsStored hcd dupChecks storings).spendingColumns =
        (spentByPass hcd dupChecksToo others listing).spendingColumns ↔ SpendsNoAddress hcd chain := by
  obtain ⟨count, least, recorded, numbered⟩ := storeChain_recorded valid dupChecks false clean isChain
  obtain ⟨countToo, tx, leastToo, recordedToo, isPass, zero⟩ :=
    spentByPass_recorded valid dupChecksToo cleanToo isChainToo all
  have stored : Recorded hcd chain [] count
      ((freshChainDB dupChecks).storeChain hcd true storings).db.tx := recorded
  rw [← isPass, spentAsStored]
  constructor
  · intro agree block isBlock vin spends payment paid same
    have paidHere := Multiset.mem_coe.mpr paid
    rw [← stored.payments_eq least] at paidHere
    obtain ⟨row, member, rfl⟩ := Multiset.mem_map.mp paidHere
    obtain ⟨i, found⟩ := List.mem_iff_getElem?.mp isBlock
    have inside : i < count := Nat.lt_of_lt_of_le (List.getElem?_eq_some_iff.mp found).1 least
    obtain ⟨spending, isSpent, -⟩ :=
      stored.carried i block vin inside found List.not_mem_nil spends row member same
    have column : (row.row.payment, some spending) ∈ tx.tables.spendingColumns := by
      rw [← agree, ← isSpent]
      exact Multiset.mem_map_of_mem (fun stored : Stored AddressRow =>
        (stored.row.payment, stored.row.spending)) member
    obtain ⟨other, present, isColumn⟩ := Multiset.mem_map.mp column
    exact numbered.numbered row member spending isSpent
      (zero other present spending (congrArg Prod.snd isColumn))
  · intro nothing
    rw [stored.spendingColumns_eq least nothing, recordedToo.spendingColumns_eq leastToo nothing]

end Paths

section Samples

/-- The blocks of a chain, to be stored without failures. -/
def storings (chain : List MsgBlock) : List (StoreEnv × MsgBlock) :=
  chain.map fun block => (.noFaults [], block)

/-- None of these statements fails, and the blocks are those of the chain. -/
theorem storings_clean (chain : List MsgBlock) : (∀ storing ∈ storings chain, storing.1.Clean) ∧
    (storings chain).map Prod.snd = chain := by
  refine ⟨?_, by simp [storings, Function.comp_def]⟩
  intro storing member
  obtain ⟨block, -, rfl⟩ := List.mem_map.mp member
  exact StoreEnv.noFaults_clean []

/-- A genesis block whose first output pays to no address, and the second to one. -/
def quietBlock : MsgBlock :=
  { spendBlock 0 with transactions := [{ payingTx with txOut := [⟨100, 0, []⟩, ⟨50, 0, [1]⟩] }] }

/-- A chain of two blocks, of which the child spends an output of the first one. -/
def quietChain : List MsgBlock := [quietBlock, spendBlock 1]

/-- Only the child spends an outpoint, and only by one input. -/
theorem spends_quietChain {i : Nat} {block : MsgBlock} (found : quietChain[i]? = some block)
    {vin : VinTxProperty} (spends : Spends Sample.hcd block vin) : i = 1 ∧ vin = spendingVin := by
  match i with
  | 0 =>
    obtain rfl := Option.some.inj found
    have same : Spends Sample.hcd (spendBlock 0) vin := spends
    exact spends_spendBlock.mp same
  | 1 =>
    obtain rfl := Option.some.inj found
    exact ⟨rfl, (spends_spendBlock.mp spends).2⟩
  | _ + 2 => cases found

/-- The quiet chain is valid: its blocks are, and what it spends was there before. -/
theorem quietChain_valid : ValidChain Sample.hcd quietChain := by
  refine ⟨⟨⟨List.cons_ne_nil _ _, ?_, ?_⟩, by decide, by decide⟩, ?_, ?_, ?_⟩
  · intro first isFirst
    obtain rfl := Option.some.inj isFirst
    rfl
  · exact List.isChain_cons_cons.mpr ⟨⟨rfl, rfl⟩, List.isChain_singleton _⟩
  · intro block member
    rcases List.mem_pair.mp member with rfl | rfl
    · have quiet : ∀ tree vin, vin ∈ treeVins Sample.hcd quietBlock tree → vin.prevTxHash = 0 := by
        rintro (_ | _) vin input
        · obtain rfl := List.mem_singleton.mp input
          rfl
        · cases input
      refine ⟨?_, List.nodup_singleton _, ?_, ?_⟩
      · intro tx member
        obtain rfl := List.mem_singleton.mp member
        rfl
      · intro tree vin input other second _ regular
        exact absurd (quiet tree vin input) regular
      · intro tree vin input other vout _ regular
        exact absurd (quiet tree vin input) regular
    · exact spendBlock_valid 1
  · intro i j before after vin second isBefore isAfter spends spendsToo _
    rw [(spends_quietChain isBefore spends).1, (spends_quietChain isAfter spendsToo).1]
  · intro i j before after vin vout later isBefore isAfter spends
    obtain ⟨rfl, -⟩ := spends_quietChain isBefore spends
    have inside : j < 2 := (List.getElem?_eq_some_iff.mp isAfter).1
    omega

/-- The law at a chain whose second block spends an output without an address, beside an output
with one. -/
theorem spendingColumns_agree_quiet :
    (spentAsStored Sample.hcd true (storings quietChain)).spendingColumns =
      (spentByPass Sample.hcd false (storings quietChain)
        fun tables => tables.vins.toList).spendingColumns := by
  obtain ⟨clean, isChain⟩ := storings_clean quietChain
  refine (spendingColumns_agree_iff quietChain_valid clean isChain clean isChain
    fun tables => Multiset.coe_toList tables.vins).mpr ?_
  intro block member vin spends payment paid
  obtain ⟨i, found⟩ := List.mem_iff_getElem?.mp member
  obtain ⟨-, rfl⟩ := spends_quietChain found spends
  obtain rfl : payment = ("1", Sample.hcd.txHash payingTx, 1) := List.mem_singleton.mp paid
  decide

/-- The output of the genesis block is spent by the next one: its row has the id of the
spending transaction, two, when written as blocks are stored, and zero when written by
the pass. -/
theorem spendingColumns_differ :
    (spentAsStored Sample.hcd true (storings (spendChain 2))).spendingColumns =
        {(("1", spendingVin.outpoint), some ⟨2, Sample.hcd.txHash spendingTx, 0, 2⟩)} ∧
      (spentAsStored Sample.hcd true (storings (spendChain 2))).spendingColumns ≠
        (spentByPass Sample.hcd false (storings (spendChain 2))
          fun tables => tables.vins.toList).spendingColumns := by
  have written : (spentAsStored Sample.hcd true (storings (spendChain 2))).spendingColumns =
      {(("1", spendingVin.outpoint), some ⟨2, Sample.hcd.txHash spendingTx, 0, 2⟩)} := by
    decide +kernel
  refine ⟨written, fun agree => ?_⟩
  obtain ⟨clean, isChain⟩ := storings_clean (spendChain 2)
  obtain ⟨count, tx, -, -, isPass, zero⟩ :=
    spentByPass_recorded (spendChain_valid (by decide) (by decide)) false clean isChain
      fun tables => Multiset.coe_toList tables.vins
  rw [written, ← isPass] at agree
  have column := agree ▸ Multiset.mem_singleton_self
    (("1", spendingVin.outpoint), some (⟨2, Sample.hcd.txHash spendingTx, 0, 2⟩ : Spending))
  obtain ⟨stored, member, isColumn⟩ := Multiset.mem_map.mp column
  exact absurd (zero stored member _ (congrArg Prod.snd isColumn)) (by decide)

end Samples

end Hcexplorer.Hcpg

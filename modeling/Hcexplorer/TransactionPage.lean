import Hcexplorer.Hcsqlite.ExplorerTx
import Hcexplorer.Hcpg.Queries
import Hcexplorer.Hcpg.SpendingPaths

/-!
# The page of a transaction

`txPage` takes the transaction from the node, and the transactions that spend its outputs from the
vins table. The node reads the text of the path as a hash, in any spelling; the table is asked for
the text itself. So the page names the spenders just when the text is the one that the table has.

The law is about the tables that any history of synchronizations left. The page names the input of
the stored blocks that spends an output, if one does, and the addresses table never names another
one. A listing does not break off. The text of the page is left out.
-/

namespace Hcexplorer.TransactionPage

open Hcsqlite (Packages NodeAnswers TxInID TxInfo getExplorerTx)
open Hcpg ScannedColumns

section Model

/-- `SpendingTransactions` for any text: the transactions, the indexes of their inputs, those of
the outputs. -/
def spendingTransactionsOf (chainhash : Chainhash) (fault : Option String) (fundingTxID : String)
    (vins : Listing VinTxProperty) : (List Hash × List UInt32 × List UInt32) × Err :=
  let found := vins.rows.filter fun stored => chainhash.string stored.row.prevTxHash = fundingTxID
  let (err, spent) := queryRows fault spendingVinDestinations ⟨0, 0, 0, 0⟩
    (found.map fun stored => selected selectSpendingTxsByPrevTx (vinRow stored))
  ((spent.map SpendingVin.tx, spent.map SpendingVin.vin, spent.map SpendingVin.vout), err)

/-- One pass of the loop of `txPage`, for the index of an output, a transaction and the index of
its input. -/
def setSpendingTxn (chainhash : Chainhash) (spendingTxns : List TxInID)
    (spent : UInt32 × Hash × UInt32) : List TxInID :=
  if spendingTxns.length ≤ spent.1.toNat then spendingTxns
  else spendingTxns.set spent.1.toNat ⟨chainhash.string spent.2.1, spent.2.2⟩

/-- The loop of `txPage`. The three slices are of one length. -/
def setSpendingTxns (chainhash : Chainhash) (spendingTxns : List TxInID)
    (spent : List Hash × List UInt32 × List UInt32) : List TxInID :=
  (spent.2.2.zip (spent.1.zip spent.2.1)).foldl (setSpendingTxn chainhash) spendingTxns

/-- What the template is given, or the text of the redirection to `/error/`. -/
inductive Reply where
  | page (data : TxInfo) (confirmHeight : Int64)
  | redirect (text : String)

/-- `explorerUI`, what the page of a transaction reads of it. -/
structure ExplorerUI where
  liteMode : Bool
  packages : Packages
  answers : NodeAnswers
  newBlockHeight : Int64

/-- `txPage`, for the hash in the context: the template's data, or a redirection where something
is not found. -/
def txPage (exp : ExplorerUI) (fault : Option String) (vins : Listing VinTxProperty) (hash : String) :
    Outcome Reply :=
  (getExplorerTx exp.packages exp.answers hash).bind fun tx =>
    match tx with
    | none => .returned (.redirect hash)
    | some tx =>
      let confirmHeight := exp.newBlockHeight - tx.confirmations
      if exp.liteMode then .returned (.page tx confirmHeight)
      else match spendingTransactionsOf exp.packages.toChainhash fault hash vins with
        | (_, some _) => .returned (.redirect hash)
        | (spent, none) =>
          let spendingTxns := setSpendingTxns exp.packages.toChainhash tx.spendingTxns spent
          .returned (.page { tx with spendingTxns := spendingTxns } confirmHeight)

/-- The entry for an output with a spender, and for one without. -/
def shownSpender (chainhash : Chainhash) (spender : Option (Hash × UInt32)) : TxInID :=
  spender.elim ⟨"", 0⟩ fun (hash, index) => ⟨chainhash.string hash, index⟩

end Model

section Queries

variable {chainhash : Chainhash}

/-- For the text of a hash the rows are those of the hash. -/
theorem spendingTransactionsOf_string (texts : chainhash.Documented) (fault : Option String)
    (txhash : Hash) (vins : Listing VinTxProperty) :
    spendingTransactionsOf chainhash fault (chainhash.string txhash) vins =
      spendingTransactions fault txhash vins := by
  simp only [spendingTransactionsOf, spendingTransactions, retrieveSpendingTxsByFundingTx,
    texts.string_injective.eq_iff]

/-- For a text that is of no hash there are no spending transactions. -/
theorem spendingTransactionsOf_other {fundingTxID : String} (vins : Listing VinTxProperty)
    (other : ∀ hash, chainhash.string hash ≠ fundingTxID) :
    spendingTransactionsOf chainhash none fundingTxID vins = (([], [], []), none) := by
  simp only [spendingTransactionsOf, other, decide_false, List.filter_false]
  rfl

/-- The entries for the text of a hash, one for each row that spends from it. -/
theorem entries_string (texts : chainhash.Documented) (txhash : Hash)
    (vins : Listing VinTxProperty) :
    let spent := (spendingTransactionsOf chainhash none (chainhash.string txhash) vins).1
    (spendingTransactionsOf chainhash none (chainhash.string txhash) vins).2 = none ∧
      spent.2.2.zip (spent.1.zip spent.2.1) =
        (vins.rows.filter fun stored => stored.row.prevTxHash = txhash).map fun stored =>
          (stored.row.prevTxIndex, stored.row.txID, stored.row.txIndex) := by
  intro spent
  have read := spendingTransactions_eq txhash vins
  rw [← spendingTransactionsOf_string texts] at read
  refine ⟨congrArg Prod.snd read, ?_⟩
  have isSpent : spent = _ := congrArg Prod.fst read
  rw [isSpent, List.zip_map', List.zip_map']

end Queries

section Slots

variable {chainhash : Chainhash} {spent : List (UInt32 × Hash × UInt32)}
  {spendingTxns : List TxInID}

/-- Setting an entry leaves the number of the entries. -/
@[simp] theorem length_setSpendingTxn (entry : UInt32 × Hash × UInt32) :
    (setSpendingTxn chainhash spendingTxns entry).length = spendingTxns.length := by
  unfold setSpendingTxn
  split
  · rfl
  · exact List.length_set

/-- An entry for another output leaves that of this one. -/
theorem getElem?_setSpendingTxn_other {entry : UInt32 × Hash × UInt32} {vout : UInt32}
    (other : entry.1 ≠ vout) :
    (setSpendingTxn chainhash spendingTxns entry)[vout.toNat]? = spendingTxns[vout.toNat]? := by
  unfold setSpendingTxn
  split
  · rfl
  · exact List.getElem?_set_ne fun same => other (UInt32.toNat_inj.mp same)

/-- The entry at the output that is spent is set to its spender. -/
theorem getElem?_setSpendingTxn_self (entry : UInt32 × Hash × UInt32)
    (inside : entry.1.toNat < spendingTxns.length) :
    (setSpendingTxn chainhash spendingTxns entry)[entry.1.toNat]? =
      some ⟨chainhash.string entry.2.1, entry.2.2⟩ := by
  rw [setSpendingTxn, if_neg (Nat.not_le.mpr inside)]
  exact List.getElem?_set_self inside

/-- Entries that name one spender for each output are shown, each in its place, in any order. -/
theorem getElem?_setSpendingTxns (spender : UInt32 → Option (Hash × UInt32))
    (named : ∀ entry ∈ spent, spender entry.1 = some entry.2) {vout : UInt32}
    (inside : vout.toNat < spendingTxns.length) :
    (spent.foldl (setSpendingTxn chainhash) spendingTxns)[vout.toNat]? =
      if vout ∈ spent.map Prod.fst then some (shownSpender chainhash (spender vout))
      else spendingTxns[vout.toNat]? := by
  induction spent generalizing spendingTxns with
  | nil => rfl
  | cons entry rest inductionHypothesis =>
    have namedRest : ∀ later ∈ rest, spender later.1 = some later.2 :=
      fun later member => named later (List.mem_cons_of_mem _ member)
    have insideNext : vout.toNat < (setSpendingTxn chainhash spendingTxns entry).length := by
      rwa [length_setSpendingTxn]
    rw [List.foldl_cons, inductionHypothesis namedRest insideNext]
    by_cases later : vout ∈ rest.map Prod.fst
    · rw [if_pos later, if_pos (by simp [later])]
    · rw [if_neg later]
      by_cases here : entry.1 = vout
      · subst here
        have isSpender := named entry List.mem_cons_self
        rw [if_pos (by simp), getElem?_setSpendingTxn_self entry inside, isSpender]
        rfl
      · rw [if_neg (by simpa [Ne.symm here] using later), getElem?_setSpendingTxn_other here]

end Slots

section Spenders

variable {hcd : Hcd} {chain : List MsgBlock} {deferred : List Nat} {count : Nat} {tx : TxDb}

/-- The input of a stored block is the spender of its outpoint. -/
theorem spenderOf_eq (valid : ValidChain hcd chain) {i : Nat} {block : MsgBlock}
    {vin : VinTxProperty} (inside : i < count) (isBlock : chain[i]? = some block)
    (spends : Spends hcd block vin) :
    spenderOf hcd (chain.take count) vin.outpoint = some (vin.txID, vin.txIndex) := by
  have input : vin ∈ (chain.take count).flatMap (blockVins hcd) :=
    List.mem_flatMap.mpr ⟨block, Recorded.mem_take_iff.mpr ⟨i, inside, isBlock⟩, spends.1⟩
  cases found : ((chain.take count).flatMap (blockVins hcd)).find? fun other =>
      other.prevTxHash ≠ 0 ∧ other.outpoint = vin.outpoint with
  | none => exact absurd (decide_eq_true ⟨spends.2, rfl⟩) (List.find?_eq_none.mp found vin input)
  | some other =>
    have isOther := List.find?_some found
    simp only [ne_eq, decide_eq_true_eq] at isOther
    obtain ⟨second, isStored, inputToo⟩ := List.mem_flatMap.mp (List.mem_of_find?_eq_some found)
    obtain ⟨j, -, isSecond⟩ := Recorded.mem_take_iff.mp isStored
    obtain ⟨-, rfl⟩ :=
      valid.spender_eq isSecond isBlock ⟨inputToo, isOther.1⟩ spends isOther.2
    rw [spenderOf, found]
    rfl

/-- An output that no input of them spends has none. -/
theorem spenderOf_eq_none {outpoint : Hash × UInt32}
    (unspent : ∀ i block vin, i < count → chain[i]? = some block → Spends hcd block vin →
      vin.outpoint ≠ outpoint) : spenderOf hcd (chain.take count) outpoint = none := by
  rw [spenderOf, Option.map_eq_none_iff, List.find?_eq_none]
  intro vin input isSpender
  obtain ⟨nonzero, same⟩ := of_decide_eq_true isSpender
  obtain ⟨block, isStored, isInput⟩ := List.mem_flatMap.mp input
  obtain ⟨i, inside, isBlock⟩ := Recorded.mem_take_iff.mp isStored
  exact unspent i block vin inside isBlock ⟨isInput, nonzero⟩ same

/-- A row of the addresses table that names a spender names this one. -/
theorem spenderOf_addressRow (recorded : Recorded hcd chain deferred count tx)
    (valid : ValidChain hcd chain) {stored : Stored AddressRow} (member : stored ∈ tx.tables.addresses)
    {spending : Spending} (isSpent : stored.row.spending = some spending) :
    spenderOf hcd (chain.take count) stored.row.outpoint =
      some (spending.spendingTxHash, spending.spendingTxVinIndex) := by
  have written : stored.row.spending ≠ none := by simp [isSpent]
  obtain ⟨i, block, vin, inside, isBlock, carried, spends, same⟩ :=
    recorded.written stored member written
  obtain ⟨other, isOther, isHash, isIndex⟩ :=
    recorded.carried i block vin inside isBlock carried spends stored member same.symm
  obtain rfl := Option.some.inj (isSpent.symm.trans isOther)
  rw [← same, spenderOf_eq valid inside isBlock spends, isHash, isIndex]

/-- The loop over the rows of the vins table shows the spender of each output. -/
theorem setSpendingTxns_recorded {chainhash : Chainhash} (texts : chainhash.Documented)
    (recorded : Recorded hcd chain deferred count tx) (valid : ValidChain hcd chain) {vins : Listing VinTxProperty}
    (isTable : (vins.rows : Multiset (Stored VinTxProperty)) = tx.tables.vins) {txhash : Hash}
    (nonzero : txhash ≠ 0) {outputs : Nat} {vout : UInt32} (inside : vout.toNat < outputs) :
    (setSpendingTxns chainhash (List.replicate outputs ⟨"", 0⟩)
        (spendingTransactionsOf chainhash none (chainhash.string txhash) vins).1)[vout.toNat]? =
      some (shownSpender chainhash (spenderOf hcd (chain.take count) (txhash, vout))) := by
  have listed : ∀ vin, (∃ stored ∈ vins.rows, stored.row = vin) ↔
      ∃ i block, i < count ∧ chain[i]? = some block ∧ vin ∈ blockVins hcd block := by
    intro vin
    rw [← recorded.mem_vins, ← isTable]
    rfl
  have named : ∀ entry ∈ (vins.rows.filter fun stored => stored.row.prevTxHash = txhash).map
      (fun stored => (stored.row.prevTxIndex, stored.row.txID, stored.row.txIndex)),
      spenderOf hcd (chain.take count) (txhash, entry.1) = some entry.2 := by
    intro entry member
    obtain ⟨stored, isFound, rfl⟩ := List.mem_map.mp member
    obtain ⟨isRow, isHash⟩ := List.mem_filter.mp isFound
    obtain rfl := of_decide_eq_true isHash
    obtain ⟨i, block, within, isBlock, input⟩ := (listed _).mp ⟨stored, isRow, rfl⟩
    exact spenderOf_eq valid within isBlock ⟨input, nonzero⟩
  have room : vout.toNat < (List.replicate outputs (⟨"", 0⟩ : TxInID)).length := by
    rwa [List.length_replicate]
  rw [setSpendingTxns, (entries_string texts txhash vins).2, getElem?_setSpendingTxns
    (fun vout => spenderOf hcd (chain.take count) (txhash, vout)) named room]
  split
  · rfl
  · rename_i unlisted
    have unspent : spenderOf hcd (chain.take count) (txhash, vout) = none := by
      refine spenderOf_eq_none fun i block vin within isBlock spends same => unlisted ?_
      obtain ⟨stored, isRow, rfl⟩ := (listed vin).mpr ⟨i, block, within, isBlock, spends.1⟩
      obtain ⟨isHash, isIndex⟩ := Prod.mk.inj same
      rw [List.map_map]
      exact List.mem_map.mpr ⟨stored, List.mem_filter.mpr ⟨isRow, decide_eq_true isHash⟩, isIndex⟩
    rw [unspent, List.getElem?_replicate, if_pos inside]
    rfl

end Spenders

section Law

/-- At first there is no spender, with an entry for each output. -/
theorem getExplorerTx_spendingTxns {packages : Packages} {answers : NodeAnswers} {txid : String}
    {info : TxInfo} (returned : getExplorerTx packages answers txid = .returned (some info)) :
    info.spendingTxns = List.replicate info.vout.length ⟨"", 0⟩ := by
  unfold getExplorerTx at returned
  split at returned
  · cases returned
  · split at returned
    · cases returned
    · split at returned
      · cases returned
      · obtain ⟨txBasic, -, returned⟩ := Outcome.bind_eq_returned.mp returned
        obtain ⟨inputs, -, returned⟩ := Outcome.bind_eq_returned.mp returned
        obtain ⟨matured, -, returned⟩ := Outcome.bind_eq_returned.mp returned
        obtain rfl := Option.some.inj (Outcome.returned.inj returned)
        rfl

/-- What a page is made of, outside of lite mode. -/
theorem txPage_page {exp : ExplorerUI} (full : exp.liteMode = false) {fault : Option String}
    {vins : Listing VinTxProperty} {hash : String} {page : TxInfo} {confirmHeight : Int64}
    (served : txPage exp fault vins hash = .returned (.page page confirmHeight)) :
    (spendingTransactionsOf exp.packages.toChainhash fault hash vins).2 = none ∧
      page.spendingTxns =
        setSpendingTxns exp.packages.toChainhash (List.replicate page.vout.length ⟨"", 0⟩)
          (spendingTransactionsOf exp.packages.toChainhash fault hash vins).1 := by
  obtain ⟨tx, isTx, served⟩ := Outcome.bind_eq_returned.mp served
  cases tx with
  | none => cases served
  | some tx =>
    have atFirst := getExplorerTx_spendingTxns isTx
    simp only [full, Bool.false_eq_true, if_false] at served
    split at served
    · cases served
    · rename_i spent isSpent
      obtain ⟨rfl, -⟩ := Reply.page.inj (Outcome.returned.inj served)
      rw [isSpent]
      exact ⟨rfl, congrArg (setSpendingTxns exp.packages.toChainhash · spent) atFirst⟩

/-- For a valid main chain, on which no outpoint is spent twice (by a disapproved tree either), and
after any history of synchronizations to it, the page of a transaction names for each output the
input of the stored blocks that spends it, or none if none does, when the path is the text of its
hash; under another spelling it names none. No row of the addresses table names another spender. -/
theorem txPage_names_spenders {hcd : Hcd} {chain : List MsgBlock} (valid : ValidChain hcd chain)
    {starts : List SyncStart} {history : SyncHistory} (clean : ∀ start ∈ starts, start.Clean chain)
    (ran : Runs.exec (SyncHistory.step hcd) .created starts = some history) {exp : ExplorerUI}
    (full : exp.liteMode = false) (texts : exp.packages.toChainhash.Documented)
    {vins : Listing VinTxProperty}
    (isTable : (vins.rows : Multiset (Stored VinTxProperty)) = history.pgb.db.tx.tables.vins)
    {hash : String} {txhash : Hash} (parsed : exp.packages.newHashFromStr hash = some txhash)
    (nonzero : txhash ≠ 0) {page : TxInfo} {confirmHeight : Int64}
    (served : txPage exp none vins hash = .returned (.page page confirmHeight)) {vout : UInt32}
    (inside : vout.toNat < page.vout.length) :
    let spender := spenderOf hcd (chain.take history.pgb.db.blocks.length) (txhash, vout)
    page.spendingTxns[vout.toNat]? =
        some (shownSpender exp.packages.toChainhash
          (if hash = exp.packages.string txhash then spender else none)) ∧
      ∀ stored ∈ history.pgb.db.tx.tables.addresses, stored.row.outpoint = (txhash, vout) →
        ∀ spending, stored.row.spending = some spending →
          spender = some (spending.spendingTxHash, spending.spendingTxVinIndex) := by
  intro spender
  have recorded := (SyncHistory.Holds.exec valid clean ran).recorded
  refine ⟨?_, ?_⟩
  · rw [(txPage_page full served).2]
    by_cases canonical : hash = exp.packages.string txhash
    · rw [if_pos canonical, canonical]
      exact setSpendingTxns_recorded texts recorded valid isTable nonzero inside
    · have other : ∀ second, exp.packages.string second ≠ hash := by
        rintro second rfl
        obtain rfl := Option.some.inj ((texts.read second).symm.trans parsed)
        exact canonical rfl
      rw [if_neg canonical, spendingTransactionsOf_other vins other]
      exact List.getElem?_replicate.trans (if_pos inside)
  · intro stored member same spending isSpent
    rw [← spenderOf_addressRow recorded valid member isSpent, same]

/-- A node that has a transaction with one spent output, and an explorer that asks it. -/
def payingExplorer : ExplorerUI where
  liteMode := false
  packages := { Hcsqlite.regularPackages with
    decode := fun _ => some payingTx }
  answers := {
    getRawTransactionVerbose := fun _ =>
      .ok ⟨"", "", [⟨"00", "", "", 0, 0, 0⟩], [⟨100, "", "pubkeyhash", ["1"]⟩], 0, 0, 2, 60⟩
    getRawTransaction := fun _ _ => .error "timeout"
    getTxOut := fun _ => .ok false
    getBestBlockHeight := 1 }
  newBlockHeight := 1

/-- The rows of the vins table after two blocks. -/
def payingVins : Listing VinTxProperty where
  rows := [⟨1, ⟨2, 0, 0, 0, 0xffffffff, 0⟩⟩, ⟨2, spendingVin⟩]
  ids := by decide

/-- The law at the output that the second of two blocks spends. -/
theorem txPage_names_spenders_two : ∃ page confirmHeight,
    txPage payingExplorer none payingVins (payingExplorer.packages.string 2) = .returned (.page page confirmHeight) ∧
      page.spendingTxns[0]? = some ⟨payingExplorer.packages.string 3, 0⟩ := by
  have inChain : 1 < (spendChain 2).length := by decide
  have valid : ValidChain Sample.hcd (spendChain 2) := spendChain_valid (by decide) (by decide)
  have stored : (Runs.exec (SyncHistory.step Sample.hcd) .created
      [.process 1 (syncToward (spendChain 2) 1 2 false)]).map (fun history =>
        (history.pgb.db.blocks.length, history.pgb.db.tx.tables.vins)) =
      some (2, (payingVins.rows : Multiset (Stored VinTxProperty))) := by decide +kernel
  obtain ⟨history, ran, same⟩ := Option.map_eq_some_iff.mp stored
  obtain ⟨count, isTable⟩ := Prod.mk.inj same
  have clean : ∀ start ∈ [SyncStart.process 1 (syncToward (spendChain 2) 1 2 false)],
      start.Clean (spendChain 2) := by
    intro start member
    obtain rfl := List.mem_singleton.mp member
    exact ⟨(syncToward_clean inChain 2 false).1, (syncToward_clean inChain 2 false).2⟩
  have texts : payingExplorer.packages.toChainhash.Documented := Chainhash.hexadecimal_documented
  have served : ∃ page confirmHeight, txPage payingExplorer none payingVins (payingExplorer.packages.string 2) =
      .returned (.page page confirmHeight) ∧ page.vout.length = 1 := by
    obtain ⟨read, -⟩ := entries_string texts 2 payingVins
    obtain ⟨tx, isTx, outputs⟩ : ∃ tx, Hcsqlite.getExplorerTx payingExplorer.packages
        payingExplorer.answers (payingExplorer.packages.string 2) = .returned (some tx) ∧ tx.vout.length = 1 := by
      simp only [Hcsqlite.getExplorerTx, texts.read]
      exact ⟨_, rfl, rfl⟩
    have full : payingExplorer.liteMode = false := rfl
    simp only [txPage, isTx, Outcome.bind_returned, full, Bool.false_eq_true, if_false]
    split
    · rename_i failed
      rw [failed] at read
      cases read
    · exact ⟨_, _, rfl, outputs⟩
  obtain ⟨page, confirmHeight, isPage, outputs⟩ := served
  have inside : (0 : UInt32).toNat < page.vout.length := by
    rw [outputs]
    decide
  have shown := (txPage_names_spenders valid clean ran rfl texts isTable.symm (texts.read 2) (by decide)
    isPage inside).1
  have spender : spenderOf Sample.hcd ((spendChain 2).take 2) (2, 0) = some (3, 0) := by decide +kernel
  refine ⟨page, confirmHeight, isPage, ?_⟩
  rw [count, if_pos rfl, spender] at shown
  exact shown

end Law

end Hcexplorer.TransactionPage

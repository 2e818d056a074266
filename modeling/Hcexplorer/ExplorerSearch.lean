import Hcexplorer.ExplorerPages

/-!
# The search of the explorer

`search` sends a visitor to the page of a block, an address or a transaction, whichever the text is
found to name first: a height, an address, the hash of a block, the hash of a transaction. The page
of a block reads the same text once more, as a height if it is a number and else as a hash.

Both agree on the blocks of the chain, but for the hash whose 64 digits are those of a number that
fits: the search goes on to the hash, where the page stops at the height.

An address is known where it is decoded and the node finds its transactions. The transaction page
and that of an address are left out.
-/

namespace Hcexplorer.ExplorerSearch

open Collection Hcsqlite LinkedChain Live BlockRoutes ExplorerPages
open Strconv (Text parseInt formatInt)

section Model

/-- `explorerUI`: its data source, and what the pages ask the node for. -/
structure Explorer (Rates Rest Address : Type) extends Source Rates Rest where
  sortTx : SortTx
  stakeValidationHeight : Int64
  answers : NodeAnswers
  decodeAddress : Text → Option Address
  searchRawTransactionsVerbose : Address → Bool

/-- Where a visitor is sent: to the page of a block, of an address or of a transaction, or to the
error page. -/
inductive Target where
  | block
  | address
  | tx
  | error
deriving DecidableEq

/-- A reply: the page of a block, a redirection with the text it ends in, or `http.NotFound`. -/
inductive Reply (Rest : Type) where
  | page (data : BlockInfo Rest)
  | redirect (target : Target) (text : Text)
  | notFound

variable {Rates Rest Address : Type} (exp : Explorer Rates Rest Address)

/-- `GetExplorerAddress` of the text is not nil: the text is an address, and the node finds
transactions of it. -/
def knowsAddress (address : Text) : Bool :=
  (exp.decodeAddress address).any exp.searchRawTransactionsVerbose

/-- `search`, which tries a height, an address, a hash of a block and one of a transaction, in
this order. -/
def search (searchStr : Text) : Outcome (Reply Rest) :=
  if ((parseInt searchStr).bind (retrieveBlockHash exp.packages.toChainhash exp.db)).isSome then
    .returned (.redirect .block searchStr)
  else if knowsAddress exp searchStr then .returned (.redirect .address searchStr)
  else if exp.packages.readHash searchStr = none then .returned (.redirect .error searchStr)
  else if (retrieveBlockHeight exp.packages.toChainhash exp.db searchStr).isSome then .returned (.redirect .block searchStr)
  else (getExplorerTx exp.packages exp.answers (String.ofList searchStr)).bind fun tx =>
    .returned (.redirect (if tx.isSome then .tx else .error) searchStr)

/-- `blockHashPathOrIndexCtx`: the hash in the context, none for `http.NotFound`. -/
def blockHashPathOrIndexCtx (blockhash : Text) : Option Text :=
  match parseInt blockhash with
  | none => (retrieveBlockHeight exp.packages.toChainhash exp.db blockhash).map fun _ => blockhash
  | some height => retrieveBlockHash exp.packages.toChainhash exp.db height

/-- `blockPage` for the hash in the context, with a redirection where `GetExplorerBlock` returns
nil. -/
def blockPage (hash : Text) : Outcome (Reply Rest) :=
  (getExplorerBlock exp.packages exp.sortTx exp.stakeValidationHeight
    ((exp.packages.readHash hash).bind exp.getBlockVerbose)).bind fun data =>
      .returned (data.elim (.redirect .error hash) .page)

/-- The route `/explorer/block/{blockhash}`, its middleware and its handler. -/
def serveBlock (blockhash : Text) : Outcome (Reply Rest) :=
  match blockHashPathOrIndexCtx exp blockhash with
  | none => .returned .notFound
  | some hash => blockPage exp hash

end Model

section Blocks

variable {hcd : Hcd} {statistics : Statistics} {Rest Address : Type}
  {exp : Explorer statistics.Rates Rest Address} {chain : List MsgBlock}
  {dataOf : MsgBlock → BlockVerboseResult Rest}

/-- What `GetExplorerBlock` makes of a block: its page, or a redirection to an error where it
returns nil. -/
def shownBlock (exp : Explorer statistics.Rates Rest Address) (hcd : Hcd)
    (dataOf : MsgBlock → BlockVerboseResult Rest) (block : MsgBlock) : Outcome (Reply Rest) :=
  (getExplorerBlock exp.packages exp.sortTx exp.stakeValidationHeight (some (dataOf block))).bind
    fun data => .returned (data.elim (.redirect .error (exp.packages.hashString (hcd.hashOf block))) .page)

/-- The text is a number that is the height of a block of the chain. -/
def NamesHeight (chain : List MsgBlock) (text : Text) (block : MsgBlock) : Prop :=
  ∃ idx, parseInt text = some idx ∧ 0 ≤ idx.toInt ∧ chain[idx.toInt.toNat]? = some block

/-- The text is the hash of a block of the chain, as `chainhash` writes it. -/
def NamesHash (chainhash : Chainhash) (hcd : Hcd) (chain : List MsgBlock) (text : Text)
    (block : MsgBlock) : Prop :=
  block ∈ chain ∧ text = chainhash.hashString (hcd.hashOf block)

/-- What the explorer shows of a block is the page of its height, if the block can be read. -/
theorem shownBlock_page (documented : exp.toSource.Documented hcd chain dataOf) {block : MsgBlock}
    (member : block ∈ chain) (readable : Readable exp.packages (dataOf block)) :
    ∃ info, shownBlock exp hcd dataOf block = .returned (.page info) ∧
      info.height.toInt = block.height := by
  obtain ⟨info, returned, basic⟩ :=
    readable.getExplorerBlock exp.sortTx exp.stakeValidationHeight
  refine ⟨info, by rw [shownBlock, returned]; rfl, ?_⟩
  rw [basic]
  exact documented.height block member

/-- With the hash of a block in the context its page is shown. -/
theorem blockPage_hash (texts : exp.packages.toChainhash.Documented)
    (documented : exp.toSource.Documented hcd chain dataOf) {block : MsgBlock}
    (member : block ∈ chain) :
    blockPage exp (exp.packages.hashString (hcd.hashOf block)) = shownBlock exp hcd dataOf block := by
  rw [blockPage, texts.readHash_hashString, Option.bind_some, documented.verbose block member]
  rfl

/-- The tables have the hash of the block at a height, and of no other height. -/
theorem retrieveBlockHash_eq (texts : exp.packages.toChainhash.Documented)
    (mirrors : Mirrors hcd exp.db chain)
    (rooted : (chainView hcd).Rooted chain) (distinct : (chain.map hcd.hashOf).Nodup) (idx : Int64) :
    retrieveBlockHash exp.packages.toChainhash exp.db idx =
      if 0 ≤ idx.toInt then (chain[idx.toInt.toNat]?).map fun block => exp.packages.hashString (hcd.hashOf block)
      else none := by
  by_cases nonneg : 0 ≤ idx.toInt
  · rw [if_pos nonneg]
    cases found : chain[idx.toInt.toNat]? with
    | none =>
      have outside := List.getElem?_eq_none_iff.mp found
      rw [retrieveBlockHash, (find_none mirrors rooted (Or.inr (by omega))).1]
      rfl
    | some block =>
      obtain ⟨rows, isRows⟩ := exists_rowsAt texts mirrors rooted distinct found
      have isHeight : block.height = idx.toInt.toNat := rooted.height_eq found
      have summary := isRows.summary
      rw [isHeight, Int.toNat_of_nonneg nonneg] at summary
      rw [retrieveBlockHash, summary, Option.map_some, isRows.rowsOf.hash]
      rfl
  · rw [if_neg nonneg, retrieveBlockHash, (find_none mirrors rooted (Or.inl (by omega))).1]
    rfl

/-- The tables have a height under the hash of a block of the chain, and under no other text. -/
theorem retrieveBlockHeight_isSome (texts : exp.packages.toChainhash.Documented)
    (mirrors : Mirrors hcd exp.db chain)
    (rooted : (chainView hcd).Rooted chain) (distinct : (chain.map hcd.hashOf).Nodup) (text : Text) :
    (retrieveBlockHeight exp.packages.toChainhash exp.db text).isSome = true ↔ ∃ block, NamesHash exp.packages.toChainhash hcd chain text block := by
  rw [retrieveBlockHeight, Option.isSome_map]
  constructor
  · intro isSome
    by_contra noBlock
    have noSummary : retrieveBlockSummaryByHash exp.packages.toChainhash exp.db text = none :=
      retrieveBlockSummaryByHash_none mirrors fun block member same => noBlock ⟨block, member, same⟩
    rw [noSummary] at isSome
    cases isSome
  · rintro ⟨block, member, rfl⟩
    obtain ⟨position, found⟩ := List.mem_iff_getElem?.mp member
    obtain ⟨rows, isRows⟩ := exists_rowsAt texts mirrors rooted distinct found
    rw [isRows.byHash]
    rfl

/-- The first look of the search finds the heights. -/
theorem isSome_height (texts : exp.packages.toChainhash.Documented)
    (mirrors : Mirrors hcd exp.db chain) (rooted : (chainView hcd).Rooted chain)
    (distinct : (chain.map hcd.hashOf).Nodup) (text : Text) :
    ((parseInt text).bind (retrieveBlockHash exp.packages.toChainhash exp.db)).isSome = true ↔
      ∃ block, NamesHeight chain text block := by
  cases isNumber : parseInt text with
  | none =>
    refine ⟨nofun, ?_⟩
    rintro ⟨block, idx, other, -⟩
    cases isNumber.symm.trans other
  | some idx =>
    rw [Option.bind_some, retrieveBlockHash_eq texts mirrors rooted distinct]
    constructor
    · intro isSome
      split at isSome
      · rename_i nonneg
        rw [Option.isSome_map] at isSome
        obtain ⟨block, found⟩ := Option.isSome_iff_exists.mp isSome
        exact ⟨block, idx, isNumber, nonneg, found⟩
      · cases isSome
    · rintro ⟨block, other, isOther, nonneg, found⟩
      obtain rfl : idx = other := Option.some.inj (isNumber.symm.trans isOther)
      rw [if_pos nonneg, found]
      rfl

/-- A number that is no height has no page. -/
theorem serveBlock_number (texts : exp.packages.toChainhash.Documented)
    (mirrors : Mirrors hcd exp.db chain)
    (rooted : (chainView hcd).Rooted chain) (distinct : (chain.map hcd.hashOf).Nodup) {text : Text}
    (noHeight : ¬ ∃ block, NamesHeight chain text block) (isNumber : parseInt text ≠ none) :
    serveBlock exp text = .returned .notFound := by
  obtain ⟨idx, isIdx⟩ := Option.ne_none_iff_exists'.mp isNumber
  have noHash : retrieveBlockHash exp.packages.toChainhash exp.db idx = none := by
    have notFound := (isSome_height texts mirrors rooted distinct text).not.mpr noHeight
    rw [isIdx, Option.bind_some] at notFound
    exact Option.not_isSome_iff_eq_none.mp notFound
  rw [serveBlock, blockHashPathOrIndexCtx, isIdx]
  simp only [noHash]

/-- A height is sent to its block, whose page shows the block. -/
theorem finds_height (texts : exp.packages.toChainhash.Documented)
    (mirrors : Mirrors hcd exp.db chain) (rooted : (chainView hcd).Rooted chain)
    (distinct : (chain.map hcd.hashOf).Nodup)
    (documented : exp.toSource.Documented hcd chain dataOf) {text : Text} {block : MsgBlock}
    (names : NamesHeight chain text block) :
    search exp text = .returned (.redirect .block text) ∧
      serveBlock exp text = shownBlock exp hcd dataOf block := by
  have byHeight := isSome_height texts mirrors rooted distinct text
  constructor
  · rw [search, if_pos (byHeight.mpr ⟨block, names⟩)]
  · obtain ⟨idx, isNumber, nonneg, found⟩ := names
    have hash : retrieveBlockHash exp.packages.toChainhash exp.db idx =
        some (exp.packages.hashString (hcd.hashOf block)) := by
      rw [retrieveBlockHash_eq texts mirrors rooted distinct, if_pos nonneg, found, Option.map_some]
    rw [serveBlock, blockHashPathOrIndexCtx, isNumber]
    simp only [hash]
    exact blockPage_hash texts documented (List.mem_of_getElem? found)

/-- The hash of a block that is no height is sent to the block too, unless it is an address, and
its page shows the block unless the hash is a number. -/
theorem finds_hash (texts : exp.packages.toChainhash.Documented)
    (mirrors : Mirrors hcd exp.db chain) (rooted : (chainView hcd).Rooted chain)
    (distinct : (chain.map hcd.hashOf).Nodup)
    (documented : exp.toSource.Documented hcd chain dataOf) {text : Text} {block : MsgBlock}
    (noHeight : ¬ ∃ block, NamesHeight chain text block)
    (names : NamesHash exp.packages.toChainhash hcd chain text block) :
    search exp text =
        .returned (.redirect (if knowsAddress exp text then .address else .block) text) ∧
      serveBlock exp text =
        if parseInt text = none then shownBlock exp hcd dataOf block else .returned .notFound := by
  have byHeight := isSome_height texts mirrors rooted distinct text
  have byHash := (retrieveBlockHeight_isSome texts mirrors rooted distinct text).mpr ⟨block, names⟩
  constructor
  · have isHash : exp.packages.readHash text ≠ none := by
      rw [names.2, texts.readHash_hashString]
      exact Option.some_ne_none _
    rw [search, if_neg (byHeight.not.mpr noHeight)]
    cases knowsAddress exp text with
    | true => rfl
    | false =>
      rw [if_neg Bool.false_ne_true, if_neg isHash, if_pos byHash]
      rfl
  · by_cases isNumber : parseInt text = none
    · obtain ⟨height, isHeight⟩ := Option.isSome_iff_exists.mp byHash
      rw [if_pos isNumber, serveBlock, blockHashPathOrIndexCtx, isNumber]
      simp only [isHeight, Option.map_some]
      rw [names.2]
      exact blockPage_hash texts documented names.1
    · rw [if_neg isNumber]
      exact serveBlock_number texts mirrors rooted distinct noHeight isNumber

/-- A text that is neither a height nor the hash of a block is not sent to a block, and there is no
page of a block for it. -/
theorem finds_nothing (texts : exp.packages.toChainhash.Documented)
    (mirrors : Mirrors hcd exp.db chain) (rooted : (chainView hcd).Rooted chain)
    (distinct : (chain.map hcd.hashOf).Nodup) {text : Text}
    (noHeight : ¬ ∃ block, NamesHeight chain text block)
    (noHash : ¬ ∃ block, NamesHash exp.packages.toChainhash hcd chain text block) :
    search exp text ≠ .returned (.redirect .block text) ∧
      serveBlock exp text = .returned .notFound := by
  have byHeight := isSome_height texts mirrors rooted distinct text
  have byHash := retrieveBlockHeight_isSome texts mirrors rooted distinct text
  constructor
  · rw [search, if_neg (byHeight.not.mpr noHeight)]
    split
    · exact nofun
    · split
      · exact nofun
      · rw [if_neg (byHash.not.mpr noHash)]
        intro isBlock
        obtain ⟨tx, -, isTarget⟩ := Outcome.bind_eq_returned.mp isBlock
        obtain ⟨target, -⟩ := Reply.redirect.inj (Outcome.returned.inj isTarget)
        cases isSome : tx.isSome <;> rw [isSome] at target <;> cases target
  · by_cases isNumber : parseInt text = none
    · have unknown := Option.not_isSome_iff_eq_none.mp (byHash.not.mpr noHash)
      rw [serveBlock, blockHashPathOrIndexCtx, isNumber]
      simp only [unknown, Option.map_none]
    · exact serveBlock_number texts mirrors rooted distinct noHeight isNumber

/-- The search and the page of a block over tables that mirror the node's main chain. A height is
sent to its block. The hash of a block is sent there as well, if it is no height and no address;
the page is then what is made of the block if the hash is not a number, and else it is not found.
Every other text is not sent to a block, and has no page of one. What is made of a block is its
page, if its transactions can be decoded and its votes told. -/
theorem search_finds_blocks (texts : exp.packages.toChainhash.Documented)
    (mirrors : Mirrors hcd exp.db chain)
    (rooted : (chainView hcd).Rooted chain) (distinct : (chain.map hcd.hashOf).Nodup)
    (documented : exp.toSource.Documented hcd chain dataOf) (text : Text) :
    (∀ block, NamesHeight chain text block →
      search exp text = .returned (.redirect .block text) ∧
      serveBlock exp text = shownBlock exp hcd dataOf block) ∧
    ((¬ ∃ block, NamesHeight chain text block) → ∀ block, NamesHash exp.packages.toChainhash hcd chain text block →
      search exp text =
        .returned (.redirect (if knowsAddress exp text then .address else .block) text) ∧
      serveBlock exp text =
        if parseInt text = none then shownBlock exp hcd dataOf block else .returned .notFound) ∧
    ((¬ ∃ block, NamesHeight chain text block ∨ NamesHash exp.packages.toChainhash hcd chain text block) →
      search exp text ≠ .returned (.redirect .block text) ∧
      serveBlock exp text = .returned .notFound) ∧
    ∀ block ∈ chain, Readable exp.packages (dataOf block) →
      ∃ info, shownBlock exp hcd dataOf block = .returned (.page info) ∧
        info.height.toInt = block.height := by
  refine ⟨fun block names => finds_height texts mirrors rooted distinct documented names,
    fun noHeight block names => finds_hash texts mirrors rooted distinct documented noHeight names,
    fun noBlock => ?_, fun block member readable => shownBlock_page documented member readable⟩
  apply finds_nothing texts mirrors rooted distinct
  · rintro ⟨block, names⟩
    exact noBlock ⟨block, Or.inl names⟩
  · rintro ⟨block, names⟩
    exact noBlock ⟨block, Or.inr names⟩

end Blocks

section Sample

/-- An explorer of two blocks that knows no address. -/
def searchedExplorer : Explorer noRates.Rates Unit Unit where
  toSource := pagedSource
  sortTx := insertionSortTx
  stakeValidationHeight := 4096
  answers := forgetting fun _ => true
  decodeAddress _ := none
  searchRawTransactionsVerbose _ := false

/-- The law at the second block: its height leads to its page. Its hash here is that of a small
number, which is no height, so it leads to no page. -/
theorem search_finds_blocks_two :
    search searchedExplorer ['1'] = .returned (.redirect .block ['1']) ∧
    (∃ info, serveBlock searchedExplorer ['1'] = .returned (.page info) ∧ info.height.toInt = 1) ∧
    search searchedExplorer (Sample.hcd.hashString (Sample.hcd.hashOf Sample.firstBlock)) =
      .returned (.redirect .block (Sample.hcd.hashString (Sample.hcd.hashOf Sample.firstBlock))) ∧
    serveBlock searchedExplorer (Sample.hcd.hashString (Sample.hcd.hashOf Sample.firstBlock)) =
      .returned .notFound := by
  have texts : searchedExplorer.packages.toChainhash.Documented := Chainhash.hexadecimal_documented
  have documented : searchedExplorer.toSource.Documented Sample.hcd
      [Sample.genesis, Sample.firstBlock] (fun block => pagedData (Int64.ofInt block.height)) :=
    paged_documented
  have isNumber : parseInt (Sample.hcd.hashString (Sample.hcd.hashOf Sample.firstBlock)) =
      some 2 := by
    decide +kernel
  have noHeight : ¬ ∃ block, NamesHeight [Sample.genesis, Sample.firstBlock]
      (Sample.hcd.hashString (Sample.hcd.hashOf Sample.firstBlock)) block := by
    rintro ⟨block, idx, isIdx, -, found⟩
    obtain rfl : 2 = idx := Option.some.inj (isNumber.symm.trans isIdx)
    cases found
  obtain ⟨heights, -, -, pages⟩ :=
    search_finds_blocks texts served_mirror served_rooted (by decide) documented ['1']
  obtain ⟨sent, served⟩ := heights Sample.firstBlock ⟨1, by decide, by decide, rfl⟩
  have readable : Readable searchedExplorer.packages
      (pagedData (Int64.ofInt Sample.firstBlock.height)) := by
    intro tx member
    cases member
  obtain ⟨info, shown, isHeight⟩ := pages Sample.firstBlock (by decide) readable
  have hash := (search_finds_blocks texts served_mirror served_rooted (by decide) documented
    (Sample.hcd.hashString (Sample.hcd.hashOf Sample.firstBlock))).2.1 noHeight Sample.firstBlock
      ⟨List.mem_pair.mpr (Or.inr rfl), rfl⟩
  rw [isNumber] at hash
  exact ⟨sent, ⟨info, served.trans shown, isHeight⟩, hash.1, hash.2⟩

end Sample

end Hcexplorer.ExplorerSearch

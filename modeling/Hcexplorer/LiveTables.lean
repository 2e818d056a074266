import Mathlib.Data.List.Forall2
import Hcexplorer.LiveMonitors

/-!
# What the live monitors do to the tables

The tables mirror a chain when they hold the rows of its blocks, in order, and no others,
and both heights in memory are that of its tip. The live store of a child of the tip, and
a switch to a side chain that does not panic, leave tables that mirror the new chain.

A switch that succeeds covers the old chain: rows above the new tip would be read back as
the best block, which has another hash than the announced one.
-/

namespace Hcexplorer.Live

open Collection Hcsqlite Announcements LinkedChain KeyedTable

variable {hcd : Hcd} {params : ChainParams} {statistics : Statistics}

/-- The two rows are those of the block: heights, hash and fee info are the block's. -/
structure RowsOf (hcd : Hcd) (statistics : Statistics) (block : MsgBlock)
    (rows : BlockRows statistics.Rates) : Prop where
  height : rows.1.height = block.header.height
  hash : rows.1.hash = hcd.hashOf block
  feeinfo : rows.2.feeinfo = feeRateInfoBlock hcd statistics block

/-- The tables hold the rows of the blocks of the chain and no others, and both heights
in memory are that of its tip. -/
structure Mirrors (hcd : Hcd) (db : DB statistics.Rates) (chain : List MsgBlock) : Prop where
  rows : ∃ rows, db.Holds rows ∧ List.Forall₂ (RowsOf hcd statistics) chain rows
  summaryHeight : db.dbSummaryHeight = chain.length - 1
  stakeInfoHeight : db.dbStakeInfoHeight = chain.length - 1

/-- The row of a block stands at its position. -/
theorem exists_row {chain : List MsgBlock} {rows : List (BlockRows statistics.Rates)}
    (related : List.Forall₂ (RowsOf hcd statistics) chain rows) {position : Nat} {block : MsgBlock}
    (found : chain[position]? = some block) :
    ∃ row, rows[position]? = some row ∧ RowsOf hcd statistics block row := by
  obtain ⟨inside, here⟩ := List.getElem?_eq_some_iff.mp found
  have inRows : position < rows.length := related.length_eq ▸ inside
  have isRow := related.get inside inRows
  rw [List.get_eq_getElem, List.get_eq_getElem, here] at isRow
  exact ⟨rows[position], List.getElem?_eq_getElem inRows, isRow⟩

/-- Rows that belong to the blocks of a rooted chain have their positions as keys. -/
theorem consecutive_of_rowsOf {chain : List MsgBlock} {rows : List (BlockRows statistics.Rates)}
    (rooted : (chainView hcd).Rooted chain) (related : List.Forall₂ (RowsOf hcd statistics) chain rows) :
    Consecutive summaryKey 0 (rows.map Prod.fst) ∧
      Consecutive (stakeInfoKey statistics.Rates) 0 (rows.map Prod.snd) := by
  have each (position : Nat) (row : BlockRows statistics.Rates) (found : rows[position]? = some row) :
      ∃ block : MsgBlock, block.height = position ∧ RowsOf hcd statistics block row := by
    have inChain : position < chain.length :=
      related.length_eq ▸ (List.getElem?_eq_some_iff.mp found).1
    obtain ⟨other, isOther, isRow⟩ := exists_row related (List.getElem?_eq_getElem inChain)
    obtain rfl : row = other := Option.some.inj (found.symm.trans isOther)
    exact ⟨chain[position], rooted.height_eq (List.getElem?_eq_getElem inChain), isRow⟩
  constructor
  · intro position summary found
    rw [List.getElem?_map] at found
    obtain ⟨row, atPosition, rfl⟩ := Option.map_eq_some_iff.mp found
    obtain ⟨block, isHeight, isRow⟩ := each position row atPosition
    rw [summaryKey, isRow.height]
    exact isHeight.trans (by simp)
  · intro position info found
    rw [List.getElem?_map] at found
    obtain ⟨row, atPosition, rfl⟩ := Option.map_eq_some_iff.mp found
    obtain ⟨block, isHeight, isRow⟩ := each position row atPosition
    rw [stakeInfoKey, isRow.feeinfo]
    exact isHeight.trans (by simp)

/-- The keys of the rows of a block are both its height. -/
theorem RowsOf.keys {block : MsgBlock} {rows : BlockRows statistics.Rates}
    (isRow : RowsOf hcd statistics block rows) : summaryKey rows.1 = block.height ∧
      stakeInfoKey statistics.Rates rows.2 = block.height := by
  rw [summaryKey, stakeInfoKey, isRow.height, isRow.feeinfo]
  exact ⟨rfl, rfl⟩

/-- The live store of a child of the tip leaves tables that mirror the longer chain. -/
theorem Mirrors.store {db : DB statistics.Rates} {chain : List MsgBlock} {block : MsgBlock}
    {data : BlockData (statistics.measures hcd)} (mirrors : Mirrors hcd db chain)
    (rooted : (chainView hcd).Rooted chain)
    (child : ∀ tip ∈ chain.getLast?, (chainView hcd).Child tip block)
    (isRow : RowsOf hcd statistics block (data.toBlockSummary, toStakeInfoExtended data)) :
    Mirrors hcd (db.store ⟨none, none⟩ data).2 (chain ++ [block]) := by
  obtain ⟨rows, ⟨summaries, infos⟩, related⟩ := mirrors.rows
  obtain ⟨summaryKeys, infoKeys⟩ := consecutive_of_rowsOf rooted related
  have count : rows.length = chain.length := related.length_eq.symm
  have isHeight : block.height = chain.length :=
    (rooted.concat child).height_eq (List.getElem?_concat_length : (chain ++ [block])[chain.length]? = _)
  have summaryIs : summaryKey data.toBlockSummary = chain.length := isRow.keys.1.trans isHeight
  have infoIs : stakeInfoKey statistics.Rates (toStakeInfoExtended data) = chain.length :=
    isRow.keys.2.trans isHeight
  have summariesAfter := rows_insert_consecutive (summaries ▸ summaryKeys) summaryIs
  have infosAfter := rows_insert_consecutive (infos ▸ infoKeys) infoIs
  refine ⟨⟨rows ++ [(data.toBlockSummary, toStakeInfoExtended data)], ⟨?_, ?_⟩, ?_⟩, ?_, ?_⟩
  · refine summariesAfter.trans ?_
    rw [summaries, List.take_of_length_le (by simp [count]), List.drop_of_length_le (by simp [count]),
      List.map_append]
    rfl
  · refine infosAfter.trans ?_
    rw [infos, List.take_of_length_le (by simp [count]), List.drop_of_length_le (by simp [count]),
      List.map_append]
    rfl
  · exact List.rel_append related (.cons isRow .nil)
  · simp only [DB.store, DB.storeBlockSummary, DB.storeStakeInfoExtended, mirrors.summaryHeight,
      summaryIs, List.length_append, List.length_singleton]
    split <;> omega
  · simp only [DB.store, DB.storeBlockSummary, DB.storeStakeInfoExtended, mirrors.stakeInfoHeight,
      infoIs, List.length_append, List.length_singleton]
    split <;> omega

/-- The fee statistics that are collected are those of the block. -/
theorem collectBlockInfo_feeInfo {measures : Measures} {answers : Answers} {hash : Hash}
    {info : BlockInfo measures} (collected : collectBlockInfo hcd measures answers hash = .ok info) :
    info.feeInfo = measures.feeRateInfoBlock info.msgBlock := by
  unfold collectBlockInfo at collected
  split at collected
  · cases collected
  · dsimp only at collected
    split at collected
    · cases collected
    · obtain rfl := Except.ok.inj collected
      rfl

/-- Without an error, and with a steady node, each saver is called once, with data that
describes the block and holds its rows. -/
theorem collectAndStore_rows {moments : Moments} {answers : Answers} {hash : Hash} {block : MsgBlock}
    (documented : Documented hcd moments answers) (complete : Complete moments answers hash)
    (isBlock : moments.blocks hash = some block) (steady : Steady hcd moments block)
    {saver : Saver} {savers : List Saver} {calls : List (StoreCall (statistics.measures hcd))}
    (returned : collectAndStore hcd params (statistics.measures hcd) answers (saver :: savers) hash =
      .returned calls) :
    ∃ data, calls = (saver :: savers).map (fun s => ⟨s, data, block⟩) ∧
      Describes hcd params hash (⟨saver, data, block⟩ : StoreCall (statistics.measures hcd)) ∧
      RowsOf hcd statistics block (data.toBlockSummary, toStakeInfoExtended data) := by
  have steadily : ∀ found, moments.blocks hash = some found → Steady hcd moments found := by
    intro found isFound
    obtain rfl : block = found := Option.some.inj (isBlock.symm.trans isFound)
    exact steady
  obtain ⟨data, other, isOther, rfl⟩ := collectAndStore_complete documented complete steadily returned
  obtain rfl : block = other := Option.some.inj (isBlock.symm.trans isOther)
  have describes : Describes hcd params hash (⟨saver, data, block⟩ : StoreCall (statistics.measures hcd)) :=
    (collectAndStore_describes documented returned List.mem_cons_self).1 steady
  refine ⟨data, rfl, describes, describes.header_height, describes.header_hash, ?_⟩
  have sameBlock {known : Hash} {info : BlockInfo (statistics.measures hcd)}
      (collected : collectBlockInfo hcd (statistics.measures hcd) answers known = .ok info)
      (isHash : known = hash) : info.feeInfo = feeRateInfoBlock hcd statistics block := by
    subst isHash
    have answered := documented.collectGetBlock known _ (collectBlockInfo_ok collected).1
    rw [collectBlockInfo_feeInfo collected, Option.some.inj (isBlock.symm.trans answered)]
  rcases collectAndStore_cases returned with none_ |
    ⟨found, count, collectedData, msgBlock, -, -, calls, path⟩
  · cases none_
  · obtain ⟨rfl, -⟩ : data = collectedData ∧ block = found := by
      have first := (List.cons.inj calls).1
      injection first with _ sameData same
      exact ⟨sameData, same⟩
    rcases path with ⟨-, collected⟩ | ⟨-, collected⟩
    · obtain ⟨info, numConn, inner, rfl⟩ := collectHash_ok collected
      exact sameBlock inner rfl
    · obtain ⟨best, stakeDiff, estStakeDiff, info, numConn, -, -, inner, rfl⟩ := collect_ok collected
      refine sameBlock inner ?_
      obtain ⟨-, answered, -, -⟩ := collectBlockInfo_ok inner
      have headerHash : info.header.hash = best := (documented.getBlockHeaderVerbose best _ answered).1
      have announced : info.header.hash = hcd.hashOf block := describes.header_hash
      exact headerHash.symm.trans (announced.trans describes.announced)

/-- The node returns every known block by its hash, with its header, to the collector. -/
structure Collects (hcd : Hcd) (known : List MsgBlock) (answers : Answers) : Prop where
  block : ∀ block ∈ known, answers.collectGetBlock (hcd.hashOf block) = .ok block
  header : ∀ block ∈ known, ∃ header, answers.getBlockHeaderVerbose (hcd.hashOf block) = .ok header

/-- Known blocks are told apart by their hashes, since the node answers one block for a hash. -/
theorem Collects.injective {known : List MsgBlock} {answers : Answers}
    (collects : Collects hcd known answers) {first second : MsgBlock} (firstKnown : first ∈ known)
    (secondKnown : second ∈ known) (same : hcd.hashOf first = hcd.hashOf second) : first = second := by
  have answered := collects.block first firstKnown
  rw [same, collects.block second secondKnown] at answered
  exact (Except.ok.inj answered).symm

variable (params statistics) in
/-- The rows of a known block are collected, and are its rows. -/
theorem Collects.sideBlock {known : List MsgBlock} {answers : Answers}
    (collects : Collects hcd known answers) {block : MsgBlock} (isKnown : block ∈ known) :
    ∃ side : SideBlock statistics.Rates, side.block = block ∧ side.answers = answers ∧
      side.Collected hcd params ∧ RowsOf hcd statistics block side.rows := by
  obtain ⟨header, answered⟩ := collects.header block isKnown
  have isBlock := collects.block block isKnown
  have collected : ∃ rows, collectAPITypes hcd params statistics answers (hcd.hashOf block) =
      some rows ∧ RowsOf hcd statistics block rows := by
    simp only [collectAPITypes, collectBlockInfo, isBlock, answered]
    exact ⟨_, rfl, rfl, rfl, rfl⟩
  obtain ⟨rows, isRows, areRows⟩ := collected
  exact ⟨⟨block, answers, rows⟩, rfl, rfl, ⟨isBlock, isRows⟩, areRows⟩

variable (params statistics) in
/-- The rows of the blocks of a side chain, each collected with answers of its own. -/
theorem exists_sides {known : List MsgBlock} {answers : Nat → Answers}
    (collects : ∀ i, Collects hcd known (answers i)) {blocks : List MsgBlock}
    (areKnown : ∀ block ∈ blocks, block ∈ known) (first : Nat) :
    ∃ sides : List (SideBlock statistics.Rates), sides.map SideBlock.block = blocks ∧
      (∀ side ∈ sides, side.Collected hcd params) ∧
      List.Forall₂ (RowsOf hcd statistics) blocks (sides.map SideBlock.rows) ∧
      sides.map (SideBlock.entry hcd) = ((blocks.map hcd.hashOf).zipIdx first).map
        fun (hash, i) => (hash, answers i, ⟨none, none⟩) := by
  induction blocks generalizing first with
  | nil => exact ⟨[], rfl, by simp, .nil, rfl⟩
  | cons block rest inductionHypothesis =>
    obtain ⟨side, rfl, isAnswers, collected, isRow⟩ :=
      (collects first).sideBlock params statistics (areKnown block List.mem_cons_self)
    obtain ⟨sides, areBlocks, allCollected, related, entries⟩ := inductionHypothesis
      (fun other member => areKnown other (List.mem_cons_of_mem _ member)) (first + 1)
    refine ⟨side :: sides, by rw [List.map_cons, areBlocks], ?_, .cons isRow related, ?_⟩
    · intro other member
      rcases List.mem_cons.mp member with rfl | later
      · exact collected
      · exact allCollected other later
    · rw [List.map_cons, entries, List.map_cons, List.zipIdx_cons, List.map_cons, SideBlock.entry,
        isAnswers]

variable (params) in
/-- What a switch to a side chain of known blocks leaves: the rows of the side chain over
those above the fork, and any that reach above both. -/
theorem Mirrors.overwritten {db : DB statistics.Rates} {chain side : List MsgBlock} {fork : Nat}
    (mirrors : Mirrors hcd db chain) (rooted : (chainView hcd).Rooted chain)
    (fits : (Change.replace fork side).Fits (chainView hcd) chain) {known : List MsgBlock}
    {answers : Nat → Answers} (collects : ∀ i, Collects hcd known (answers i))
    (areKnown : ∀ block ∈ side, block ∈ known) :
    ∃ rows sideRows, db.Holds rows ∧ List.Forall₂ (RowsOf hcd statistics) chain rows ∧
      List.Forall₂ (RowsOf hcd statistics) side sideRows ∧
      ∃ after : DB statistics.Rates,
        switchToSideChain hcd params statistics (((side.map hcd.hashOf).zipIdx).map
          fun (hash, i) => (hash, answers i, ⟨none, none⟩)) db = after ∧
        after.Holds (rows.take (fork + 1) ++ sideRows ++ rows.drop (fork + 1 + side.length)) ∧
        after.dbSummaryHeight = max (chain.length - 1 : Int) (fork + side.length) ∧
        after.dbStakeInfoHeight = max (chain.length - 1 : Int) (fork + side.length) := by
  obtain ⟨nonempty, inside, ancestor, found, linked⟩ := fits
  obtain ⟨rows, ⟨summaries, infos⟩, related⟩ := mirrors.rows
  obtain ⟨sides, areBlocks, collected, sideRelated, entries⟩ :=
    exists_sides params statistics collects areKnown 0
  have count : sides.length = side.length := by rw [← areBlocks, List.length_map]
  have rowCount : rows.length = chain.length := related.length_eq.symm
  have heights : ∀ (position : Nat) block, sides[position]? = some block →
      block.block.height = (fork + 1 : Nat) + position := by
    intro position block atPosition
    refine heights_of_linked (rooted.height_eq found) linked ?_
    rw [← areBlocks, List.getElem?_map, atPosition]
    rfl
  have summaryRows : Consecutive summaryKey (fork + 1) (sides.map fun side => side.rows.1) :=
    consecutive_sides heights fun side member =>
      congrArg (fun height : UInt32 => (height.toNat : Int)) (collected side member).height.1
  have infoRows : Consecutive (stakeInfoKey statistics.Rates) (fork + 1)
      (sides.map fun side => side.rows.2) :=
    consecutive_sides heights fun side member =>
      congrArg (fun height : UInt32 => (height.toNat : Int)) (collected side member).height.2.2
  obtain ⟨summaryKeys, infoKeys⟩ := consecutive_of_rowsOf rooted related
  have newSummaries := rows_insert_all (summaries ▸ summaryKeys) summaryRows
    (by rw [summaries, List.length_map]; omega)
  have newInfos := rows_insert_all (infos ▸ infoKeys) infoRows
    (by rw [infos, List.length_map]; omega)
  have stored := switchToSideChain_collected collected heights db
  have someSide : sides.length ≠ 0 := count ▸ (List.length_pos_of_ne_nil nonempty).ne'
  refine ⟨rows, sides.map SideBlock.rows, ⟨summaries, infos⟩, related, sideRelated, _, rfl, ?_, ?_, ?_⟩
  · rw [← entries, stored]
    constructor
    · refine newSummaries.trans ?_
      rw [summaries, List.length_map, count]
      simp [List.map_take, List.map_drop, Function.comp_def]
    · refine newInfos.trans ?_
      rw [infos, List.length_map, count]
      simp [List.map_take, List.map_drop, Function.comp_def]
  · rw [← entries, stored]
    dsimp only
    rw [raisedOver, if_neg someSide, mirrors.summaryHeight, count]
    push_cast
    congr 1
    omega
  · rw [← entries, stored]
    dsimp only
    rw [raisedOver, if_neg someSide, mirrors.stakeInfoHeight, count]
    push_cast
    congr 1
    omega

/-- A switch that reads the announced tip back leaves tables that mirror the new chain. -/
theorem Mirrors.switch {db after : DB statistics.Rates} {chain side : List MsgBlock} {fork : Nat}
    (mirrors : Mirrors hcd db chain) (rooted : (chainView hcd).Rooted chain)
    (fits : (Change.replace fork side).Fits (chainView hcd) chain) {known : List MsgBlock}
    {answers : Nat → Answers} (collects : ∀ i, Collects hcd known (answers i))
    (chainKnown : ∀ block ∈ chain, block ∈ known) (sideKnown : ∀ block ∈ side, block ∈ known)
    {newTip : MsgBlock} (lastIs : side.getLast? = some newTip) {newHeight : Int32}
    (switched : switchAndReadTip hcd params statistics (((side.map hcd.hashOf).zipIdx).map
      fun (hash, i) => (hash, answers i, ⟨none, none⟩)) none none db =
        (.ok (newHeight, hcd.hashOf newTip), after)) :
    Mirrors hcd after (chain.take (fork + 1) ++ side) := by
  obtain ⟨rows, sideRows, -, related, sideRelated, left, isLeft, holds, summaryHeight, infoHeight⟩ :=
    mirrors.overwritten params rooted fits collects sideKnown
  obtain ⟨nonempty, inside, ancestor, found, linked⟩ := fits
  have someBlock : ((side.map hcd.hashOf).zipIdx).map (fun (hash, i) =>
      (hash, answers i, (⟨none, none⟩ : StoreFaults))) ≠ [] := by
    simpa using nonempty
  have known : 0 ≤ left.dbSummaryHeight := by omega
  obtain ⟨endsIn, readsTip⟩ := switchAndReadTip_known someBlock
    (show 0 ≤ (switchToSideChain hcd params statistics _ db).dbSummaryHeight from isLeft ▸ known)
  rw [isLeft, switched] at endsIn
  obtain rfl : after = left := endsIn
  have rowCount : rows.length = chain.length := related.length_eq.symm
  have sideCount : sideRows.length = side.length := sideRelated.length_eq.symm
  have covers : chain.length ≤ fork + 1 + side.length := by
    by_contra short
    obtain ⟨oldTip, atEnd⟩ := rooted.exists_tip
    have isLast : chain[chain.length - 1]? = some oldTip := List.getLast?_eq_getElem? ▸ atEnd
    obtain ⟨tipRow, isTipRow, ofTip⟩ := exists_row related isLast
    have stays : tipRow.1 ∈ after.summaries.rows := by
      rw [holds.1]
      refine List.mem_map_of_mem (List.mem_append_right _ ?_)
      refine List.mem_of_getElem? (i := chain.length - 1 - (fork + 1 + side.length)) ?_
      rw [List.getElem?_drop, ← isTipRow]
      congr 1
      omega
    have tipHeight : oldTip.height = (chain.length - 1 : Nat) := rooted.height_eq isLast
    have isKey : summaryKey tipRow.1 = after.dbSummaryHeight := by
      rw [ofTip.keys.1, tipHeight, summaryHeight]
      omega
    have readBack := readsTip tipRow.1 (by rw [isLeft, ← isKey]; exact find_key stays)
    rw [switched] at readBack
    have sameHash : hcd.hashOf newTip = hcd.hashOf oldTip :=
      (Prod.mk.inj (Except.ok.inj readBack)).2.trans ofTip.hash
    have same : newTip = oldTip := (collects 0).injective
      (sideKnown newTip (List.mem_of_getLast? lastIs))
      (chainKnown oldTip (List.mem_of_getLast? atEnd)) sameHash
    obtain ⟨below, isSide⟩ := List.getLast?_eq_some_iff.mp lastIs
    have newHeight : newTip.height = (fork + 1 : Nat) + below.length :=
      heights_of_linked (rooted.height_eq found) linked (by rw [isSide]; simp)
    have sideLength : side.length = below.length + 1 := by rw [isSide]; simp
    rw [same, tipHeight] at newHeight
    omega
  have nothingLeft : rows.drop (fork + 1 + side.length) = [] :=
    List.drop_of_length_le (by omega)
  have newLength : (chain.take (fork + 1) ++ side).length = fork + 1 + side.length := by
    rw [List.length_append, List.length_take, Nat.min_eq_left (by omega)]
  refine ⟨⟨rows.take (fork + 1) ++ sideRows, ?_, ?_⟩, ?_, ?_⟩
  · rwa [nothingLeft, List.append_nil] at holds
  · exact List.rel_append (List.forall₂_take _ related) sideRelated
  · rw [summaryHeight, newLength]
    push_cast
    omega
  · rw [infoHeight, newLength]
    push_cast
    omega

end Hcexplorer.Live

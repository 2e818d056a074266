import Mathlib.Algebra.Order.BigOperators.Group.Multiset
import Mathlib.Algebra.Order.Group.Nat
import Hcexplorer.Library.KeyedTable
import Hcexplorer.Hcpg.SpendingInfo

/-!
# The chunks of the pass over all inputs

`UpdateSpendingInfoInAllAddresses` hands the ids of the vins table to
`SetSpendingForVinDbIDs`, a thousand at a time, and each chunk is one database
transaction. A chunk that fails is logged and left, and the error variable of the loop
is set again by the next chunk: what the pass returns is the error of the last chunk.

The listing of the ids does not break off, and nothing else writes the two tables
during the pass. A transaction whose commit fails is rolled back.
-/

namespace Hcexplorer.Hcpg.SpendingChunks

section Model

/-- The primary key of the vins table is the row's id. -/
def vinKey (vin : Stored VinTxProperty) : Nat := vin.id

/-- The vins table, whose rows have ids of their own. -/
abbrev VinsTable := KeyedTable vinKey

/-- The failures of the statements for one input; a row that cannot be scanned is one of
the first. -/
structure VinFaults where
  select : Option String
  update : Option String
  rowsAffected : Option String
deriving DecidableEq

/-- The failures of one chunk, those of its inputs by their position in the chunk. -/
structure ChunkFaults where
  begin : Option String
  prepareSelect : Option String
  prepareUpdate : Option String
  vin : Nat → VinFaults
  commit : Option String
  rollback : Option String

/-- The address rows that the UPDATE is about, those for its outpoint. -/
def matching (set : SetSpending) (tables : TxTables) : Multiset (Stored AddressRow) :=
  tables.addresses.filter fun stored => stored.row.outpoint = set.outpoint

/-- One pass of the loop of `SetSpendingForVinDbIDs`, with the number of rows that it
updated. -/
def setSpendingForVin (faults : VinFaults) (vins : VinsTable) (vinDbID : Nat) (tables : TxTables) :
    Except String (Nat × TxTables) :=
  match faults.select, vins.find vinDbID with
  | some err, _ => .error ("SetSpendingForVinDbIDs: " ++ err)
  | none, none => .error "SetSpendingForVinDbIDs: sql: no rows in result set"
  | none, some vin =>
    match bulkSpending vin with
    | none => .ok (0, tables)
    | some set =>
      match faults.update, faults.rowsAffected with
      | some err, _ => .error ("SetSpendingForVinDbIDs: " ++ err)
      | none, some err => .error ("RowsAffected: " ++ err)
      | none, none => .ok ((matching set tables).card, tables.spend set)

/-- The loop of `SetSpendingForVinDbIDs` from a position on, with the numbers of updated
rows; those after a failure stay zero. -/
def setSpendingLoop (faults : Nat → VinFaults) (vins : VinsTable) :
    Nat → List Nat → TxTables → List Nat × Except String TxTables
  | _, [], tables => ([], .ok tables)
  | iv, vinDbID :: rest, tables =>
    match setSpendingForVin (faults iv) vins vinDbID tables with
    | .error err => (List.replicate (rest.length + 1) 0, .error err)
    | .ok (updated, tables) =>
      let (addressRowsUpdated, result) := setSpendingLoop faults vins (iv + 1) rest tables
      (updated :: addressRowsUpdated, result)

/-- What `SetSpendingForVinDbIDs` returns, with the tables as they are committed. -/
structure ChunkResult where
  addressRowsUpdated : List Nat
  totalUpdated : Nat
  err : Option String
  tables : TxTables

/-- `SetSpendingForVinDbIDs`, one database transaction for a chunk: any failure rolls all of it
back. -/
def setSpendingForVinDbIDs (faults : ChunkFaults) (vins : VinsTable) (vinDbIDs : List Nat)
    (tables : TxTables) : ChunkResult :=
  match faults.begin, faults.prepareSelect, faults.prepareUpdate with
  | some err, _, _ => ⟨[], 0, some ("unable to begin database transaction: " ++ err), tables⟩
  | none, some err, _ => ⟨[], 0, some err, tables⟩
  | none, none, some err => ⟨[], 0, some err, tables⟩
  | none, none, none =>
    match setSpendingLoop faults.vin vins 0 vinDbIDs tables with
    | (addressRowsUpdated, .error err) =>
      ⟨addressRowsUpdated, 0, some (err ++ " + " ++ faults.rollback.getD "<nil>" ++ " (rollback)"),
        tables⟩
    | (addressRowsUpdated, .ok updated) =>
      match faults.commit with
      | some err => ⟨addressRowsUpdated, addressRowsUpdated.sum, some err, tables⟩
      | none => ⟨addressRowsUpdated, addressRowsUpdated.sum, none, updated⟩

/-- The variables of the loop over the chunks, and the tables. -/
structure Pass where
  numAddresses : Nat
  err : Option String
  tables : TxTables

/-- One pass of the loop. The error of the chunk, or that it has none, takes the place of
the error before. -/
def Pass.next (faults : Nat → ChunkFaults) (vins : VinsTable) (pass : Pass) (chunk : List Nat × Nat) :
    Pass :=
  let result := setSpendingForVinDbIDs (faults chunk.2) vins chunk.1 pass.tables
  match result.err with
  | some err => ⟨pass.numAddresses, some err, result.tables⟩
  | none => ⟨pass.numAddresses + result.totalUpdated, none, result.tables⟩

/-- `UpdateSpendingInfoInAllAddresses`, with the answer of `RetrieveAllVinDbIDs`: chunk after
chunk, whatever the errors. -/
def updateSpendingInfoInAllAddresses (allVinDbIDs : Except String (List Nat))
    (faults : Nat → ChunkFaults) (vins : VinsTable) (tables : TxTables) : Pass :=
  match allVinDbIDs with
  | .error err => ⟨0, some err, tables⟩
  | .ok allVinDbIDs => (chunks allVinDbIDs).zipIdx.foldl (Pass.next faults vins) ⟨0, none, tables⟩

end Model

section Failures

/-- The statements for an input do not fail; there is one only when it spends nothing. -/
def VinFaults.Clean (vin : Stored VinTxProperty) (faults : VinFaults) : Prop :=
  faults.select = none ∧
    (vin.row.prevTxHash ≠ 0 → faults.update = none ∧ faults.rowsAffected = none)

/-- No statement of the chunk fails, from the begin to the commit. -/
def ChunkFaults.Clean (chunk : List (Stored VinTxProperty)) (faults : ChunkFaults) : Prop :=
  faults.begin = none ∧ faults.prepareSelect = none ∧ faults.prepareUpdate = none ∧
    (∀ indexed ∈ chunk.zipIdx, (faults.vin indexed.2).Clean indexed.1) ∧ faults.commit = none

instance (vin : Stored VinTxProperty) (faults : VinFaults) : Decidable (faults.Clean vin) :=
  inferInstanceAs (Decidable (_ ∧ _))

instance (chunk : List (Stored VinTxProperty)) (faults : ChunkFaults) :
    Decidable (faults.Clean chunk) :=
  inferInstanceAs (Decidable (_ ∧ _ ∧ _ ∧ _ ∧ _))

/-- The inputs of the chunks that were committed, in the order of the chunks. -/
def committedVins (faults : Nat → ChunkFaults) (slices : List (List (Stored VinTxProperty) × Nat)) :
    List (Stored VinTxProperty) :=
  (slices.filter fun slice => (faults slice.2).Clean slice.1).flatMap Prod.fst

/-- The number of updates of address rows that these inputs make. -/
def numUpdates (vins : List (Stored VinTxProperty)) (tables : TxTables) : Nat :=
  ((vins.filterMap bulkSpending).map fun set => (matching set tables).card).sum

end Failures

variable {vins : VinsTable}

/-- An update leaves the outpoints as they are, so it matches as many rows after any other. -/
theorem card_matching_spend (set other : SetSpending) (tables : TxTables) :
    (matching set (tables.spend other)).card = (matching set tables).card := by
  simp only [matching, TxTables.spend, Multiset.filter_map, Multiset.card_map, Function.comp_def,
    AddressRow.outpoint_spend]

/-- How many rows the updates change does not depend on an update before them. -/
theorem numUpdates_spend (list : List (Stored VinTxProperty)) (set : SetSpending) (tables : TxTables) :
    numUpdates list (tables.spend set) = numUpdates list tables := by
  simp only [numUpdates, card_matching_spend]

/-- What an input does when its statements do not fail. -/
theorem setSpendingForVin_clean {faults : VinFaults} {vin : Stored VinTxProperty}
    (inTable : vin ∈ vins.rows) (clean : faults.Clean vin) (tables : TxTables) :
    setSpendingForVin faults vins vin.id tables =
      .ok (numUpdates [vin] tables, tables.spendAll ([vin].filterMap bulkSpending)) := by
  obtain ⟨select, statements⟩ := clean
  have found : vins.find vin.id = some vin := KeyedTable.find_key inTable
  simp only [setSpendingForVin, select, found]
  by_cases coinbase : vin.row.prevTxHash = 0
  · have noUpdate : bulkSpending vin = none := if_pos coinbase
    simp [noUpdate, numUpdates]
  · obtain ⟨update, rowsAffected⟩ := statements coinbase
    obtain ⟨set, isUpdate⟩ : ∃ set, bulkSpending vin = some set := ⟨_, if_neg coinbase⟩
    simp [isUpdate, numUpdates, update, rowsAffected]

/-- Where a statement for an input fails, the function returns an error. -/
theorem setSpendingForVin_fails {faults : VinFaults} {vin : Stored VinTxProperty}
    (inTable : vin ∈ vins.rows) (fails : ¬faults.Clean vin) (tables : TxTables) :
    ∃ err, setSpendingForVin faults vins vin.id tables = .error err := by
  have found : vins.find vin.id = some vin := KeyedTable.find_key inTable
  cases select : faults.select with
  | some err => exact ⟨_, by simp only [setSpendingForVin, select]; rfl⟩
  | none =>
    have spends : vin.row.prevTxHash ≠ 0 := fun coinbase =>
      fails ⟨select, fun spends => absurd coinbase spends⟩
    obtain ⟨set, isUpdate⟩ : ∃ set, bulkSpending vin = some set := ⟨_, if_neg spends⟩
    simp only [setSpendingForVin, select, found, isUpdate]
    cases update : faults.update with
    | some err => exact ⟨_, rfl⟩
    | none =>
      cases rowsAffected : faults.rowsAffected with
      | some err => exact ⟨_, rfl⟩
      | none => exact absurd ⟨select, fun _ => ⟨update, rowsAffected⟩⟩ fails

/-- The updates of inputs one after another add up. -/
theorem numUpdates_append (front back : List (Stored VinTxProperty)) (tables : TxTables) :
    numUpdates (front ++ back) tables = numUpdates front tables + numUpdates back tables := by
  rw [numUpdates, List.filterMap_append, List.map_append, List.sum_append]
  rfl

/-- How many rows the updates change does not depend on any number of updates before them. -/
theorem numUpdates_spendAll (list : List (Stored VinTxProperty)) (sets : List SetSpending)
    (tables : TxTables) : numUpdates list (tables.spendAll sets) = numUpdates list tables := by
  induction sets generalizing tables with
  | nil => rfl
  | cons set rest inductionHypothesis =>
    rw [TxTables.spendAll_cons, inductionHypothesis, numUpdates_spend]

/-- When no statement fails, the loop updates the rows of all its inputs and counts them. -/
theorem setSpendingLoop_clean {faults : Nat → VinFaults} {chunk : List (Stored VinTxProperty)}
    (inTable : ∀ vin ∈ chunk, vin ∈ vins.rows) {first : Nat}
    (clean : ∀ indexed ∈ chunk.zipIdx first, (faults indexed.2).Clean indexed.1) (tables : TxTables) :
    ∃ addressRowsUpdated, setSpendingLoop faults vins first (chunk.map Stored.id) tables =
        (addressRowsUpdated, .ok (tables.spendAll (chunk.filterMap bulkSpending))) ∧
      addressRowsUpdated.sum = numUpdates chunk tables := by
  induction chunk generalizing first tables with
  | nil => exact ⟨[], rfl, rfl⟩
  | cons vin rest inductionHypothesis =>
    have vinClean := clean (vin, first) (by rw [List.zipIdx_cons]; exact List.mem_cons_self)
    have restClean : ∀ indexed ∈ rest.zipIdx (first + 1), (faults indexed.2).Clean indexed.1 := by
      intro indexed member
      exact clean indexed (by rw [List.zipIdx_cons]; exact List.mem_cons_of_mem _ member)
    have set := setSpendingForVin_clean (inTable vin List.mem_cons_self) vinClean tables
    obtain ⟨updated, looped, sum⟩ := inductionHypothesis
      (fun other member => inTable other (List.mem_cons_of_mem _ member)) restClean
      (tables.spendAll ([vin].filterMap bulkSpending))
    refine ⟨numUpdates [vin] tables :: updated, ?_, ?_⟩
    · simp only [List.map_cons, setSpendingLoop, set, looped, ← TxTables.spendAll_append]
      rw [← List.filterMap_append, List.singleton_append]
    · rw [List.sum_cons, sum, numUpdates_spendAll, ← numUpdates_append, List.singleton_append]

/-- When a statement fails, the loop returns an error. -/
theorem setSpendingLoop_fails {faults : Nat → VinFaults} {chunk : List (Stored VinTxProperty)}
    (inTable : ∀ vin ∈ chunk, vin ∈ vins.rows) {first : Nat}
    (fails : ¬∀ indexed ∈ chunk.zipIdx first, (faults indexed.2).Clean indexed.1) (tables : TxTables) :
    ∃ addressRowsUpdated err, setSpendingLoop faults vins first (chunk.map Stored.id) tables =
      (addressRowsUpdated, .error err) := by
  induction chunk generalizing first tables with
  | nil => exact absurd (by simp) fails
  | cons vin rest inductionHypothesis =>
    by_cases vinClean : (faults first).Clean vin
    · have restFails : ¬∀ indexed ∈ rest.zipIdx (first + 1), (faults indexed.2).Clean indexed.1 := by
        intro restClean
        refine fails fun indexed member => ?_
        rw [List.zipIdx_cons] at member
        rcases List.mem_cons.mp member with rfl | inRest
        · exact vinClean
        · exact restClean indexed inRest
      have set := setSpendingForVin_clean (inTable vin List.mem_cons_self) vinClean tables
      obtain ⟨updated, err, looped⟩ := inductionHypothesis
        (fun other member => inTable other (List.mem_cons_of_mem _ member)) restFails
        (tables.spendAll ([vin].filterMap bulkSpending))
      exact ⟨_, err, by simp only [List.map_cons, setSpendingLoop, set, looped]; rfl⟩
    · obtain ⟨err, failed⟩ := setSpendingForVin_fails (inTable vin List.mem_cons_self) vinClean tables
      exact ⟨_, err, by simp only [List.map_cons, setSpendingLoop, failed]; rfl⟩

section Chunks

variable {faults : ChunkFaults} {chunk : List (Stored VinTxProperty)}

/-- A chunk without failures is committed as a whole. -/
theorem setSpendingForVinDbIDs_clean (inTable : ∀ vin ∈ chunk, vin ∈ vins.rows)
    (clean : faults.Clean chunk) (tables : TxTables) :
    (setSpendingForVinDbIDs faults vins (chunk.map Stored.id) tables).err = none ∧
      (setSpendingForVinDbIDs faults vins (chunk.map Stored.id) tables).totalUpdated =
        numUpdates chunk tables ∧
      (setSpendingForVinDbIDs faults vins (chunk.map Stored.id) tables).tables =
        tables.spendAll (chunk.filterMap bulkSpending) := by
  obtain ⟨begin, prepareSelect, prepareUpdate, vinsClean, commit⟩ := clean
  obtain ⟨updated, looped, sum⟩ := setSpendingLoop_clean inTable vinsClean tables
  simp only [setSpendingForVinDbIDs, begin, prepareSelect, prepareUpdate, looped, commit, sum, and_self]

/-- A chunk with a failure returns an error, and leaves the tables as they were. -/
theorem setSpendingForVinDbIDs_fails (inTable : ∀ vin ∈ chunk, vin ∈ vins.rows)
    (fails : ¬faults.Clean chunk) (tables : TxTables) :
    (∃ err, (setSpendingForVinDbIDs faults vins (chunk.map Stored.id) tables).err = some err) ∧
      (setSpendingForVinDbIDs faults vins (chunk.map Stored.id) tables).tables = tables := by
  cases begin : faults.begin with
  | some err => simp [setSpendingForVinDbIDs, begin]
  | none =>
    cases prepareSelect : faults.prepareSelect with
    | some err => simp [setSpendingForVinDbIDs, begin, prepareSelect]
    | none =>
      cases prepareUpdate : faults.prepareUpdate with
      | some err => simp [setSpendingForVinDbIDs, begin, prepareSelect, prepareUpdate]
      | none =>
        by_cases vinsClean : ∀ indexed ∈ chunk.zipIdx, (faults.vin indexed.2).Clean indexed.1
        · obtain ⟨updated, looped, -⟩ := setSpendingLoop_clean inTable vinsClean tables
          cases commit : faults.commit with
          | none => exact absurd ⟨begin, prepareSelect, prepareUpdate, vinsClean, commit⟩ fails
          | some err =>
            simp [setSpendingForVinDbIDs, begin, prepareSelect, prepareUpdate, looped, commit]
        · obtain ⟨updated, err, looped⟩ := setSpendingLoop_fails inTable vinsClean tables
          simp [setSpendingForVinDbIDs, begin, prepareSelect, prepareUpdate, looped]

end Chunks

section Runs

variable {faults : Nat → ChunkFaults}

/-- A chunk of the listing, with its position. -/
abbrev Slice := List (Stored VinTxProperty) × Nat

/-- The ids of a chunk as they are handed over, with its position. -/
def Slice.ids (slice : Slice) : List Nat × Nat := (slice.1.map Stored.id, slice.2)

/-- The first chunk adds its inputs to the committed ones if none of its statements fails. -/
theorem committedVins_cons (slice : Slice) (rest : List Slice) :
    committedVins faults (slice :: rest) =
      (if (faults slice.2).Clean slice.1 then slice.1 else []) ++ committedVins faults rest := by
  unfold committedVins
  rw [List.filter_cons]
  by_cases clean : (faults slice.2).Clean slice.1
  · rw [if_pos (decide_eq_true clean), if_pos clean, List.flatMap_cons]
  · rw [if_neg (by simpa using clean), if_neg clean, List.nil_append]

/-- One pass of the loop over the chunks has no error exactly when its chunk is clean, and only
then adds its rows and its updates. -/
theorem Pass.next_eq {slice : Slice} (inTable : ∀ vin ∈ slice.1, vin ∈ vins.rows) (pass : Pass) :
    ((pass.next faults vins slice.ids).err = none ↔ (faults slice.2).Clean slice.1) ∧
      (pass.next faults vins slice.ids).numAddresses =
        pass.numAddresses + numUpdates (committedVins faults [slice]) pass.tables ∧
      (pass.next faults vins slice.ids).tables =
        pass.tables.spendAll ((committedVins faults [slice]).filterMap bulkSpending) := by
  by_cases clean : (faults slice.2).Clean slice.1
  · obtain ⟨err, totalUpdated, updated⟩ := setSpendingForVinDbIDs_clean inTable clean pass.tables
    have committed : committedVins faults [slice] = slice.1 := by
      rw [committedVins_cons, if_pos clean]
      exact List.append_nil _
    rw [committed]
    simp only [Pass.next, Slice.ids, err, totalUpdated, updated, clean, and_self]
  · obtain ⟨⟨err, failed⟩, kept⟩ := setSpendingForVinDbIDs_fails inTable clean pass.tables
    have committed : committedVins faults [slice] = [] := by
      rw [committedVins_cons, if_neg clean]
      rfl
    rw [committed]
    simp [Pass.next, Slice.ids, failed, kept, clean, numUpdates]

/-- The loop over the chunks: what is committed and counted, and the error of the last. -/
theorem Pass.run_eq {slices : List Slice}
    (inTable : ∀ slice ∈ slices, ∀ vin ∈ slice.1, vin ∈ vins.rows) (pass : Pass) :
    ((slices.map Slice.ids).foldl (Pass.next faults vins) pass).numAddresses =
        pass.numAddresses + numUpdates (committedVins faults slices) pass.tables ∧
      ((slices.map Slice.ids).foldl (Pass.next faults vins) pass).tables =
        pass.tables.spendAll ((committedVins faults slices).filterMap bulkSpending) ∧
      ∀ last, slices.getLast? = some last →
        (((slices.map Slice.ids).foldl (Pass.next faults vins) pass).err = none ↔
          (faults last.2).Clean last.1) := by
  induction slices generalizing pass with
  | nil => simp [committedVins, numUpdates]
  | cons slice rest inductionHypothesis =>
    obtain ⟨err, numAddresses, updated⟩ := pass.next_eq (inTable slice List.mem_cons_self)
    obtain ⟨restNum, restTables, restErr⟩ := inductionHypothesis
      (fun other member => inTable other (List.mem_cons_of_mem _ member)) (pass.next faults vins slice.ids)
    have committed : committedVins faults (slice :: rest) =
        committedVins faults [slice] ++ committedVins faults rest := by
      rw [committedVins_cons, committedVins_cons slice []]
      congr 1
      exact (List.append_nil _).symm
    rw [List.map_cons, List.foldl_cons, restNum, restTables, numAddresses, updated, committed]
    refine ⟨?_, ?_, ?_⟩
    · rw [numUpdates_spendAll, numUpdates_append]
      omega
    · rw [List.filterMap_append, TxTables.spendAll_append]
    · intro last isLast
      cases rest with
      | nil =>
        obtain rfl : slice = last := Option.some.inj isLast
        exact err
      | cons second others => exact restErr last isLast

end Runs

section Partition

/-- The chunks of ids are the ids of the chunks. -/
theorem chunks_map {α β : Type} (f : α → β) (all : List α) :
    chunks (all.map f) = (chunks all).map (List.map f) := by
  simp only [chunks, List.length_map, List.map_map, Function.comp_def, List.map_drop, List.map_take]

/-- No chunk is empty, as there are only as many as the inputs need. -/
theorem chunks_nonempty {α : Type} {all chunk : List α} (member : chunk ∈ chunks all) : chunk ≠ [] := by
  obtain ⟨index, inRange, rfl⟩ := List.mem_map.mp member
  have isBelow := List.mem_range.mp inRange
  intro empty
  have length := congrArg List.length empty
  rw [List.length_take, List.length_drop, List.length_nil] at length
  omega

/-- Of a list without duplicates every element is in one chunk, once. -/
theorem exists_unique_chunk {α : Type} [DecidableEq α] {all : List α} (nodup : all.Nodup) {element : α}
    (member : element ∈ all) :
    ∃ index chunk, (chunks all)[index]? = some chunk ∧ chunk.count element = 1 ∧
      ∀ (other : Nat) otherChunk, (chunks all)[other]? = some otherChunk → element ∈ otherChunk →
        other = index := by
  have flat := Recorded.chunks_flatten all
  obtain ⟨nodupChunks, disjoint⟩ := List.nodup_flatten.mp (flat ▸ nodup)
  obtain ⟨chunk, isChunk, inChunk⟩ := List.mem_flatten.mp (flat.symm ▸ member)
  obtain ⟨index, found⟩ := List.mem_iff_getElem?.mp isChunk
  refine ⟨index, chunk, found, List.count_eq_one_of_mem (nodupChunks chunk isChunk) inChunk, ?_⟩
  intro other otherChunk otherFound inOther
  obtain ⟨otherLt, isOther⟩ := List.getElem?_eq_some_iff.mp otherFound
  obtain ⟨indexLt, isIndex⟩ := List.getElem?_eq_some_iff.mp found
  rcases Nat.lt_trichotomy other index with before | same | after
  · have apart := List.pairwise_iff_getElem.mp disjoint other index otherLt indexLt before
    rw [isOther, isIndex] at apart
    exact absurd inChunk (apart inOther)
  · exact same
  · have apart := List.pairwise_iff_getElem.mp disjoint index other indexLt otherLt after
    rw [isOther, isIndex] at apart
    exact absurd inOther (apart inChunk)

/-- The chunks of a listing with their positions. -/
def slicesOf (allVins : List (Stored VinTxProperty)) : List Slice := (chunks allVins).zipIdx

/-- A chunk with its position is in the list exactly when it is the chunk at that position. -/
theorem mem_slicesOf {allVins : List (Stored VinTxProperty)} {slice : Slice} :
    slice ∈ slicesOf allVins ↔ (chunks allVins)[slice.2]? = some slice.1 := by
  rw [slicesOf, List.mk_mem_zipIdx_iff_getElem?]

/-- The ids are handed over chunk by chunk, in the chunks of the inputs. -/
theorem map_ids (allVins : List (Stored VinTxProperty)) :
    (chunks (allVins.map Stored.id)).zipIdx = (slicesOf allVins).map Slice.ids := by
  rw [chunks_map, List.zipIdx_map]
  rfl

/-- An input is committed exactly when it is in a chunk without failures. -/
theorem mem_committedVins {faults : Nat → ChunkFaults} {slices : List Slice}
    {vin : Stored VinTxProperty} : vin ∈ committedVins faults slices ↔
      ∃ slice ∈ slices, (faults slice.2).Clean slice.1 ∧ vin ∈ slice.1 := by
  simp only [committedVins, List.mem_flatMap, List.mem_filter, decide_eq_true_eq, and_assoc]

/-- All inputs are committed when no chunk has a failure. -/
theorem all_committed_iff {faults : Nat → ChunkFaults} {allVins : List (Stored VinTxProperty)}
    (nodup : allVins.Nodup) :
    (∀ vin ∈ allVins, vin ∈ committedVins faults (slicesOf allVins)) ↔
      ∀ slice ∈ slicesOf allVins, (faults slice.2).Clean slice.1 := by
  constructor
  · intro all slice member
    have isChunk := mem_slicesOf.mp member
    obtain ⟨vin, inSlice⟩ := List.exists_mem_of_ne_nil _ (chunks_nonempty (List.mem_of_getElem? isChunk))
    have inAll : vin ∈ allVins :=
      Recorded.chunks_flatten allVins ▸ List.mem_flatten_of_mem (List.mem_of_getElem? isChunk) inSlice
    obtain ⟨other, isOther, clean, inOther⟩ := mem_committedVins.mp (all vin inAll)
    obtain ⟨index, chunk, -, -, unique⟩ := exists_unique_chunk nodup inAll
    have sameIndex : other.2 = slice.2 :=
      (unique _ _ (mem_slicesOf.mp isOther) inOther).trans (unique _ _ isChunk inSlice).symm
    have sameChunk : other.1 = slice.1 :=
      Option.some.inj ((mem_slicesOf.mp isOther).symm.trans (sameIndex ▸ isChunk))
    exact sameIndex ▸ sameChunk ▸ clean
  · intro clean vin inAll
    obtain ⟨chunk, isChunk, inChunk⟩ := List.mem_flatten.mp ((Recorded.chunks_flatten allVins).symm ▸ inAll)
    obtain ⟨index, found⟩ := List.mem_iff_getElem?.mp isChunk
    have member : (chunk, index) ∈ slicesOf allVins := mem_slicesOf.mpr found
    exact mem_committedVins.mpr ⟨(chunk, index), member, clean _ member, inChunk⟩

end Partition

section Law

/-- What is promised of the pass over a listing of the vins table: no error only if all
inputs are committed, each id handed to one chunk, nothing changed by a chunk that
returns an error, the tables those with the committed updates, and their number counted. -/
structure PassKept (faults : Nat → ChunkFaults) (vins : VinsTable) (allVins : List (Stored VinTxProperty))
    (tables : TxTables) (pass : Pass) : Prop where
  nilOnlyIfAll : pass.err = none → ∀ vin ∈ vins.rows, vin ∈ committedVins faults (slicesOf allVins)
  handedOnce : ∀ vin ∈ vins.rows, ∃ index chunk, (chunks (allVins.map Stored.id))[index]? = some chunk ∧
    chunk.count vin.id = 1 ∧ ∀ (other : Nat) otherChunk,
      (chunks (allVins.map Stored.id))[other]? = some otherChunk → vin.id ∈ otherChunk → other = index
  failedUnchanged : ∀ chunk ∈ (chunks (allVins.map Stored.id)).zipIdx, ∀ before,
    (setSpendingForVinDbIDs (faults chunk.2) vins chunk.1 before).err ≠ none →
      (setSpendingForVinDbIDs (faults chunk.2) vins chunk.1 before).tables = before
  committed : pass.tables =
    tables.spendAll ((committedVins faults (slicesOf allVins)).filterMap bulkSpending)
  counted : pass.numAddresses = numUpdates (committedVins faults (slicesOf allVins)) tables

/-- The address rows that are updated for some of these inputs. -/
def updatedRows (list : List (Stored VinTxProperty)) (tables : TxTables) : Multiset (Stored AddressRow) :=
  tables.addresses.filter fun stored =>
    ∃ set ∈ list.filterMap bulkSpending, stored.row.outpoint = set.outpoint

/-- No address row is updated for two of these inputs. -/
def UpdatedOnce (list : List (Stored VinTxProperty)) (tables : TxTables) : Prop :=
  ∀ stored ∈ tables.addresses,
    (list.filterMap bulkSpending).countP (fun set => stored.row.outpoint = set.outpoint) ≤ 1

/-- A number of rows as a sum over all rows. -/
theorem card_filter_eq_sum {α : Type} (kind : α → Prop) [DecidablePred kind] (rows : Multiset α) :
    (rows.filter kind).card = (rows.map fun row => if kind row then 1 else 0).sum := by
  induction rows using Multiset.induction_on with
  | empty => rfl
  | cons row rest inductionHypothesis =>
    rw [Multiset.map_cons, Multiset.sum_cons, ← inductionHypothesis]
    by_cases isKind : kind row
    · rw [Multiset.filter_cons_of_pos rest isKind, Multiset.card_cons, if_pos isKind, Nat.add_comm]
    · rw [Multiset.filter_cons_of_neg rest isKind, if_neg isKind, Nat.zero_add]

/-- The number of updated rows, counted row by row instead of input by input. -/
theorem numUpdates_eq (list : List (Stored VinTxProperty)) (tables : TxTables) :
    numUpdates list tables = (tables.addresses.map fun stored =>
      (list.filterMap bulkSpending).countP fun set => stored.row.outpoint = set.outpoint).sum := by
  unfold numUpdates matching
  generalize list.filterMap bulkSpending = sets
  induction sets with
  | nil => simp
  | cons set rest inductionHypothesis =>
    simp only [List.map_cons, List.sum_cons, inductionHypothesis, List.countP_cons,
      Multiset.sum_map_add, decide_eq_true_eq]
    rw [card_filter_eq_sum, Nat.add_comm]

/-- Sums of equal length are equal only when they are equal term by term, if one is below
the other. -/
theorem sum_eq_iff_of_le {α : Type} {low high : α → Nat} {rows : Multiset α}
    (le : ∀ row ∈ rows, low row ≤ high row) :
    (rows.map high).sum = (rows.map low).sum ↔ ∀ row ∈ rows, high row ≤ low row := by
  constructor
  · intro same row member
    obtain ⟨rest, rfl⟩ := Multiset.exists_cons_of_mem member
    have restLe : (rest.map low).sum ≤ (rest.map high).sum :=
      Multiset.sum_map_le_sum_map low high fun other inRest => le other (Multiset.mem_cons_of_mem inRest)
    rw [Multiset.map_cons, Multiset.sum_cons, Multiset.map_cons, Multiset.sum_cons] at same
    omega
  · intro ge
    refine congrArg Multiset.sum (Multiset.map_congr rfl fun row member => ?_)
    exact Nat.le_antisymm (ge row member) (le row member)

/-- The number of updates is that of the updated rows when each is updated once. -/
theorem numUpdates_eq_card_iff (list : List (Stored VinTxProperty)) (tables : TxTables) :
    numUpdates list tables = (updatedRows list tables).card ↔ UpdatedOnce list tables := by
  rw [numUpdates_eq, updatedRows, card_filter_eq_sum, sum_eq_iff_of_le]
  · refine forall₂_congr fun stored member => ?_
    by_cases updated : ∃ set ∈ list.filterMap bulkSpending, stored.row.outpoint = set.outpoint
    · rw [if_pos updated]
    · have none_ : (list.filterMap bulkSpending).countP
          (fun set => stored.row.outpoint = set.outpoint) = 0 := by
        rw [List.countP_eq_zero]
        intro set inSets
        simpa using fun same => updated ⟨set, inSets, same⟩
      rw [if_neg updated, none_]
      simp
  · intro stored member
    split
    · rename_i updated
      obtain ⟨set, inSets, same⟩ := updated
      exact List.countP_pos_iff.mpr ⟨set, inSets, decide_eq_true same⟩
    · exact Nat.zero_le _

/-- An error of a chunk is the last one, or it is followed by one. -/
def LastReports (faults : Nat → ChunkFaults) (allVins : List (Stored VinTxProperty)) : Prop :=
  ∀ last, (slicesOf allVins).getLast? = some last → (faults last.2).Clean last.1 →
    ∀ slice ∈ slicesOf allVins, (faults slice.2).Clean slice.1

/-- The chunks of a listing hold rows of the table. -/
theorem slicesOf_inTable {vins : VinsTable} {allVins : List (Stored VinTxProperty)}
    (listing : allVins.Perm vins.rows) :
    ∀ slice ∈ slicesOf allVins, ∀ vin ∈ slice.1, vin ∈ vins.rows := by
  intro slice member vin inSlice
  have inAll := List.mem_flatten_of_mem (List.mem_of_getElem? (mem_slicesOf.mp member)) inSlice
  rw [Recorded.chunks_flatten] at inAll
  exact listing.mem_iff.mp inAll

/-- What the pass commits, counts and returns: the updates of the clean chunks, their rows, and
an error only of the last chunk. -/
theorem updateSpendingInfo_committed (faults : Nat → ChunkFaults) {vins : VinsTable}
    {allVins : List (Stored VinTxProperty)} (listing : allVins.Perm vins.rows) (tables : TxTables) :
    let pass := updateSpendingInfoInAllAddresses (.ok (allVins.map Stored.id)) faults vins tables
    pass.numAddresses = numUpdates (committedVins faults (slicesOf allVins)) tables ∧
      pass.tables =
        tables.spendAll ((committedVins faults (slicesOf allVins)).filterMap bulkSpending) ∧
      ∀ last, (slicesOf allVins).getLast? = some last →
        (pass.err = none ↔ (faults last.2).Clean last.1) := by
  intro pass
  have isPass : pass =
      ((slicesOf allVins).map Slice.ids).foldl (Pass.next faults vins) ⟨0, none, tables⟩ := by
    rw [← map_ids]
    rfl
  obtain ⟨numAddresses, updated, err⟩ := isPass ▸ Pass.run_eq (slicesOf_inTable listing) ⟨0, none, tables⟩
  exact ⟨numAddresses.trans (Nat.zero_add _), updated, err⟩

/-- The pass keeps its promises exactly when the last chunk fails with any of them, and
the returned count is the number of updated address rows exactly when no row is updated
for two inputs of committed chunks. -/
theorem updateSpendingInfo_kept_iff (faults : Nat → ChunkFaults) {vins : VinsTable}
    {allVins : List (Stored VinTxProperty)} (listing : allVins.Perm vins.rows) (tables : TxTables) :
    let pass := updateSpendingInfoInAllAddresses (.ok (allVins.map Stored.id)) faults vins tables
    (PassKept faults vins allVins tables pass ↔ LastReports faults allVins) ∧
      (pass.numAddresses = (updatedRows (committedVins faults (slicesOf allVins)) tables).card ↔
        UpdatedOnce (committedVins faults (slicesOf allVins)) tables) := by
  intro pass
  have inTable := slicesOf_inTable listing
  have idsNodup : (allVins.map Stored.id).Nodup :=
    (listing.map Stored.id).nodup_iff.mpr vins.keys_nodup
  have nodup : allVins.Nodup := idsNodup.of_map
  obtain ⟨counted, updated, err⟩ := updateSpendingInfo_committed faults listing tables
  refine ⟨?_, by rw [counted]; exact numUpdates_eq_card_iff _ tables⟩
  constructor
  · intro kept last isLast clean
    refine (all_committed_iff nodup).mp fun vin inAll => ?_
    exact kept.nilOnlyIfAll ((err last isLast).mpr clean) vin (listing.mem_iff.mp inAll)
  · intro reports
    refine ⟨?_, ?_, ?_, updated, counted⟩
    · intro noError vin inRows
      refine (all_committed_iff nodup).mpr ?_ vin (listing.mem_iff.mpr inRows)
      cases isLast : (slicesOf allVins).getLast? with
      | none =>
        rw [List.getLast?_eq_none_iff.mp isLast]
        simp
      | some last => exact reports last isLast ((err last isLast).mp noError)
    · intro vin inRows
      exact exists_unique_chunk idsNodup (List.mem_map_of_mem (listing.mem_iff.mpr inRows))
    · intro chunk member before failed
      rw [map_ids] at member
      obtain ⟨slice, isSlice, rfl⟩ := List.mem_map.mp member
      by_cases clean : (faults slice.2).Clean slice.1
      · exact absurd (setSpendingForVinDbIDs_clean (inTable slice isSlice) clean before).1 failed
      · exact (setSpendingForVinDbIDs_fails (inTable slice isSlice) clean before).2

/-- The failure of a chunk as a whole, which is none exactly when the chunk is clean. -/
def wholeFault (faults : Nat → ChunkFaults) (allVins : List (Stored VinTxProperty)) (index : Nat) :
    Option String :=
  if (faults index).Clean ((chunks allVins).getD index []) then none else some "rolled back"

/-- The tables after the pass are those of the model in which a chunk fails or is
committed as a whole. -/
theorem updateSpendingInfo_tables (faults : Nat → ChunkFaults) {vins : VinsTable}
    {allVins : List (Stored VinTxProperty)} (listing : allVins.Perm vins.rows) (tables : TxTables) :
    (updateSpendingInfoInAllAddresses (.ok (allVins.map Stored.id)) faults vins tables).tables =
      Hcpg.updateSpendingInfoInAllAddresses (wholeFault faults allVins) allVins tables := by
  have whole : ∀ slices : List Slice, (∀ slice ∈ slices, slice ∈ slicesOf allVins) →
      ∀ current : TxTables, slices.foldl (fun current slice =>
        Hcpg.setSpendingForVinDbIDs (wholeFault faults allVins slice.2) slice.1 current) current =
      current.spendAll ((committedVins faults slices).filterMap bulkSpending) := by
    intro slices
    induction slices with
    | nil => intro _ current; rfl
    | cons slice rest inductionHypothesis =>
      intro members current
      have isChunk : (chunks allVins).getD slice.2 [] = slice.1 := by
        rw [List.getD_eq_getElem?_getD, mem_slicesOf.mp (members slice List.mem_cons_self)]
        rfl
      rw [List.foldl_cons, inductionHypothesis fun other member =>
        members other (List.mem_cons_of_mem _ member), committedVins_cons, List.filterMap_append,
        TxTables.spendAll_append]
      congr 1
      by_cases clean : (faults slice.2).Clean slice.1
      · simp only [wholeFault, isChunk, if_pos clean, Hcpg.setSpendingForVinDbIDs]
      · simp only [wholeFault, isChunk, if_neg clean, Hcpg.setSpendingForVinDbIDs]
        rfl
  have committed := (updateSpendingInfo_committed faults listing tables).2.1
  rw [committed]
  exact (whole (slicesOf allVins) (fun _ member => member) tables).symm

end Law

section Sample

/-- An input that spends the output of its own index. -/
def sampleVin (id : Nat) : Stored VinTxProperty :=
  ⟨id, ⟨2, UInt32.ofNat id, 0, 1, UInt32.ofNat id, 0⟩⟩

/-- A vins table with a number of sample inputs. -/
def sampleVins (count : Nat) : VinsTable where
  rows := (List.range count).map sampleVin
  sorted := List.pairwise_map.mpr List.pairwise_lt_range

/-- Tables with one address row, for the output that the first sample input spends. -/
def paidTables : TxTables := { (0 : TxTables) with addresses := {⟨1, ⟨"Hs", 1, 1, 0, 1, 100, none⟩⟩} }

/-- No statement fails, or the first chunk cannot begin its transaction. -/
def noChunkFaults : ChunkFaults := ⟨none, none, none, fun _ => ⟨none, none, none⟩, none, none⟩

/-- The first chunk fails to begin, and the others do not. -/
def firstChunkFails (index : Nat) : ChunkFaults :=
  { noChunkFaults with begin := if index = 0 then some "connection reset" else none }

/-- The law at a table of two inputs and without failures. -/
theorem updateSpendingInfo_kept_two :
    PassKept (fun _ => noChunkFaults) (sampleVins 2) [sampleVin 1, sampleVin 0] paidTables
      (updateSpendingInfoInAllAddresses (.ok [1, 0]) (fun _ => noChunkFaults) (sampleVins 2)
        paidTables) := by
  have listing : [sampleVin 1, sampleVin 0].Perm (sampleVins 2).rows := List.Perm.swap _ _ _
  refine (updateSpendingInfo_kept_iff (fun _ => noChunkFaults) listing paidTables).1.mpr ?_
  exact fun _ _ _ _ _ => ⟨rfl, rfl, rfl, fun _ _ => ⟨rfl, fun _ => ⟨rfl, rfl⟩⟩, rfl⟩

/-- A sample input with an id in range is in the table. -/
theorem mem_sampleVins {id count : Nat} (inRange : id < count) :
    sampleVin id ∈ (sampleVins count).rows := List.mem_map_of_mem (List.mem_range.mpr inRange)

/-- The last row of a table of sample inputs is the input with the greatest id. -/
theorem sampleVins_succ (count : Nat) :
    (sampleVins (count + 1)).rows = (sampleVins count).rows ++ [sampleVin count] := by
  have rows : (List.range (count + 1)).map sampleVin = (List.range count).map sampleVin ++ [sampleVin count] := by
    rw [List.range_succ, List.map_append, List.map_singleton]
  exact rows

/-- The two chunks of one input more than fit in one. -/
theorem slicesOf_concat {front : List (Stored VinTxProperty)} (length : front.length = 1000)
    (last : Stored VinTxProperty) : slicesOf (front ++ [last]) = [(front, 0), ([last], 1)] := by
  have first : ((front ++ [last]).drop (0 * 1000)).take 1000 = front := List.take_left' length
  have second : ((front ++ [last]).drop (1 * 1000)).take 1000 = [last] := by
    rw [Nat.one_mul, List.drop_left' length]
    rfl
  have count : ((front ++ [last]).length + 999) / 1000 = 2 := by
    rw [List.length_append, length, List.length_singleton]
  rw [slicesOf, chunks, count]
  change [(((front ++ [last]).drop (0 * 1000)).take 1000, 0),
    (((front ++ [last]).drop (1 * 1000)).take 1000, 1)] = _
  rw [first, second]

/-- Of 1001 inputs the first thousand are not committed, and the pass returns no error:
the address row that the first of them spends stays unspent. -/
theorem firstChunk_lost : ∃ pass,
    updateSpendingInfoInAllAddresses (.ok ((sampleVins 1001).rows.map Stored.id)) firstChunkFails
      (sampleVins 1001) paidTables = pass ∧ pass.err = none ∧ pass.numAddresses = 0 ∧
      pass.tables.addresses = paidTables.addresses ∧
      ¬PassKept firstChunkFails (sampleVins 1001) (sampleVins 1001).rows paidTables pass := by
  have length : (sampleVins 1000).rows.length = 1000 := by
    rw [sampleVins, List.length_map, List.length_range]
  have slices : slicesOf (sampleVins 1001).rows =
      [((sampleVins 1000).rows, 0), ([sampleVin 1000], 1)] :=
    (congrArg slicesOf (sampleVins_succ 1000)).trans (slicesOf_concat length _)
  have firstFails : ¬(firstChunkFails 0).Clean (sampleVins 1000).rows := by
    rintro ⟨impossible, -⟩
    cases impossible
  have secondClean : (firstChunkFails 1).Clean [sampleVin 1000] :=
    ⟨rfl, rfl, rfl, fun _ _ => ⟨rfl, fun _ => ⟨rfl, rfl⟩⟩, rfl⟩
  have committed : committedVins firstChunkFails (slicesOf (sampleVins 1001).rows) =
      [sampleVin 1000] := by
    rw [slices, committedVins_cons, committedVins_cons, if_neg firstFails, if_pos secondClean]
    rfl
  obtain ⟨counted, updated, err⟩ := updateSpendingInfo_committed firstChunkFails
    (List.Perm.refl (sampleVins 1001).rows) paidTables
  have noError := (err ([sampleVin 1000], 1) (by rw [slices]; rfl)).mpr secondClean
  rw [committed] at counted updated
  have unspent : (paidTables.spendAll ([sampleVin 1000].filterMap bulkSpending)).addresses =
      paidTables.addresses := by decide
  have noneCounted : numUpdates [sampleVin 1000] paidTables = 0 := by decide
  generalize updateSpendingInfoInAllAddresses (.ok ((sampleVins 1001).rows.map Stored.id))
    firstChunkFails (sampleVins 1001) paidTables = pass at counted updated noError ⊢
  refine ⟨pass, rfl, noError, counted.trans noneCounted,
    (congrArg TxTables.addresses updated).trans unspent, ?_⟩
  intro kept
  have lost := kept.nilOnlyIfAll noError (sampleVin 0) (mem_sampleVins (by decide))
  rw [committed] at lost
  exact absurd lost (by decide)

end Sample

end Hcexplorer.Hcpg.SpendingChunks

import Hcexplorer.Hcpg.StoreTxns
import Hcexplorer.Dbtypes.ArrayValues
import Hcexplorer.Library.ScannedColumns

/-!
# Reading transactions and their spenders

The rows of the vins and transactions tables are read back by queries whose column lists,
and whose destinations, are kept apart from those of the INSERT statements. A row here is
what the INSERT bound to its columns; a query reads the values of the columns that it
selects, in its own order, into its own destinations.

The query for the spender of one output has a destination more than it selects columns, so
it never succeeds, while the query for the spenders of a transaction finds it. The query for
a transaction scans the arrays of row ids into local variables, and the transaction that it
returns has none.

The columns `vins` and `vouts` of a transaction are bound, but neither set nor selected. The
order of rows in a result is any order of the table.
-/

namespace Hcexplorer.Hcpg

open ScannedColumns Interactive Dbtypes

section Values

/-- The values of columns. An array is its text. -/
inductive Datum where
  | null
  | int (value : Int)
  | hash (value : Hash)
  | array (text : Bytes)
  | json
deriving DecidableEq, Repr

/-- Why a destination refuses a value: it has another type, or is outside of the range of the
integer type, or is no array of numbers. -/
inductive ConvertError where
  | unsupported
  | range
  | array (err : ArrayError)
deriving DecidableEq, Repr

/-- An integer type of the variables: the values that it has, up to which, and how they are read. -/
structure IntKind (α : Type) where
  low : Int
  high : Int
  read : Int → α
  value : α → Int
  inRange : ∀ number, low ≤ value number ∧ value number < high
  read_value : ∀ number, read (value number) = number

/-- The integers that are scanned into a uint64. -/
def uint64 : IntKind UInt64 where
  low := 0
  high := 18446744073709551616
  read value := UInt64.ofNat value.toNat
  value number := number.toNat
  inRange number := ⟨Int.natCast_nonneg _, by have := number.toNat_lt; omega⟩
  read_value number := by simp

/-- The integers that are scanned into a uint32. -/
def uint32 : IntKind UInt32 where
  low := 0
  high := 4294967296
  read value := UInt32.ofNat value.toNat
  value number := number.toNat
  inRange number := ⟨Int.natCast_nonneg _, by have := number.toNat_lt; omega⟩
  read_value number := by simp

/-- The integers that are scanned into a uint16. -/
def uint16 : IntKind UInt16 where
  low := 0
  high := 65536
  read value := UInt16.ofNat value.toNat
  value number := number.toNat
  inRange number := ⟨Int.natCast_nonneg _, by have := number.toNat_lt; omega⟩
  read_value number := by simp

/-- The integers that are scanned into an int64. -/
def int64 : IntKind Int64 where
  low := -9223372036854775808
  high := 9223372036854775808
  read := Int64.ofInt
  value := Int64.toInt
  inRange number := ⟨number.le_toInt, number.toInt_lt⟩
  read_value := Int64.ofInt_toInt

/-- The integers that are scanned into an int16. -/
def int16 : IntKind Int16 where
  low := -32768
  high := 32768
  read := Int16.ofInt
  value := Int16.toInt
  inRange number := ⟨number.le_toInt, number.toInt_lt⟩
  read_value := Int16.ofInt_toInt

/-- The integers that are scanned into an int8. -/
def int8 : IntKind Int8 where
  low := -128
  high := 128
  read := Int8.ofInt
  value := Int8.toInt
  inRange number := ⟨number.le_toInt, number.toInt_lt⟩
  read_value := Int8.ofInt_toInt

variable {α σ : Type}

/-- A destination for integers of a type: an integer out of its range is an error, and so is any
other datum. -/
def intTo (kind : IntKind α) (assign : α → σ → σ) : Destination Datum ConvertError σ
  | .int value, locals =>
    if kind.low ≤ value ∧ value < kind.high then .ok (assign (kind.read value) locals)
    else .error .range
  | _, _ => .error .unsupported

/-- A destination for hashes, which refuses any other datum. -/
def hashTo (assign : Hash → σ → σ) : Destination Datum ConvertError σ
  | .hash value, locals => .ok (assign value locals)
  | _, _ => .error .unsupported

/-- `UInt64Array.Scan`, for a number of steps. With enough of them it returns. -/
def scannedArray (src : Source) (steps : Nat) (a : UInt64Array) :
    Except ConvertError UInt64Array :=
  match a.scan steps src with
  | .returned (none, after) => .ok after
  | .returned (some err, _) => .error (.array err)
  | .blocked | .panicked => .error .unsupported

/-- A destination for arrays. It scans into the array that the variable holds. -/
def arrayTo (current : σ → UInt64Array) (assign : UInt64Array → σ → σ) :
    Destination Datum ConvertError σ
  | .array text, locals =>
    (scannedArray (.bytes text) (3 * text.length + 6) (current locals)).map
      fun after => assign after locals
  | .null, locals => (scannedArray .nil 0 (current locals)).map fun after => assign after locals
  | _, _ => .error .unsupported

/-- An integer of the type is taken and assigned as it is. -/
theorem intTo_value (kind : IntKind α) (assign : α → σ → σ) (number : α) (locals : σ) :
    intTo kind assign (.int (kind.value number)) locals = .ok (assign number locals) := by
  rw [intTo, if_pos (kind.inRange number), kind.read_value]

/-- What `UInt64Array.Value` hands to the driver for a slice: the text of an array, or a null. -/
def Datum.ofArray (a : UInt64Array) : Datum :=
  match a.value with
  | .string text | .bytes text => .array text
  | .nil | .other _ => .null

/-- An array is taken as it was handed to the driver. -/
theorem arrayTo_ofArray (current : σ → UInt64Array) (assign : UInt64Array → σ → σ) (a : UInt64Array)
    (locals : σ) : arrayTo current assign (.ofArray a) locals = .ok (assign a locals) := by
  have taken : ∀ text, a.value = .string text →
      arrayTo current assign (.array text) locals = .ok (assign a locals) := by
    intro text isText
    obtain ⟨enough, scans⟩ := a.scan_value (current locals)
    obtain ⟨err, after, returns, -⟩ := scan_accepts_arrays text (current locals)
    have scanned := scans (max enough (3 * text.length + 6)) (Nat.le_max_left _ _)
    have returned := (returns (max enough (3 * text.length + 6))
      (Nat.lt_of_lt_of_le (Nat.lt_succ_self _) (Nat.le_max_right _ _))).2
    rw [isText, returned] at scanned
    obtain ⟨rfl, rfl⟩ := Prod.mk.inj (Outcome.returned.inj scanned)
    rw [arrayTo, scannedArray, (returns (3 * text.length + 6) (Nat.lt_succ_self _)).1]
    rfl
  match a, taken with
  | none, _ => rfl
  | some [], taken => exact taken _ rfl
  | some (first :: rest), taken => exact taken _ rfl

/-- The next value is an integer, a hash or an array, and is assigned. -/
@[simp] theorem assignAll_int (index : Nat) (kind : IntKind α) (assign : α → σ → σ) (number : α)
    (destinations : List (Destination Datum ConvertError σ)) (values : List Datum) (locals : σ) :
    assignAll index (intTo kind assign :: destinations) (.int (kind.value number) :: values) locals =
      assignAll (index + 1) destinations values (assign number locals) :=
  assignAll_cons (intTo_value kind assign number locals)

/-- A hash is taken, and the scan goes on with the next column. -/
@[simp] theorem assignAll_hash (index : Nat) (assign : Hash → σ → σ) (value : Hash)
    (destinations : List (Destination Datum ConvertError σ)) (values : List Datum) (locals : σ) :
    assignAll index (hashTo assign :: destinations) (.hash value :: values) locals =
      assignAll (index + 1) destinations values (assign value locals) :=
  assignAll_cons rfl

/-- The array that the driver was handed is read back, and the scan goes on with the next column. -/
@[simp] theorem assignAll_array (index : Nat) (current : σ → UInt64Array)
    (assign : UInt64Array → σ → σ) (a : UInt64Array)
    (destinations : List (Destination Datum ConvertError σ)) (values : List Datum) (locals : σ) :
    assignAll index (arrayTo current assign :: destinations) (.ofArray a :: values) locals =
      assignAll (index + 1) destinations values (assign a locals) :=
  assignAll_cons (arrayTo_ofArray current assign a locals)

end Values

section Rows

/-- The rows of a table, in the order in which a query meets them. A row id is an INT8. -/
structure Listing (α : Type) where
  rows : List (Stored α)
  ids : ∀ stored ∈ rows, stored.id < 9223372036854775808

/-- The value of a row id is the value of its number. -/
theorem Listing.id_value {α : Type} (table : Listing α) {stored : Stored α} (member : stored ∈ table.rows) :
    (stored.id : Int) = uint64.value (UInt64.ofNat stored.id) := by
  have bound := table.ids stored member
  have fits : stored.id < UInt64.size := Nat.lt_trans bound (by decide)
  exact congrArg Int.ofNat (UInt64.toNat_ofNat_of_lt' fits).symm

end Rows

section Spenders

/-- The columns of the vins table, by their names in the statements. -/
inductive VinColumn where
  | id
  | txHash
  | txIndex
  | txTree
  | prevTxHash
  | prevTxIndex
  | prevTxTree
deriving DecidableEq, Repr

/-- The columns of `InsertVinRow0`, behind the id, in the order of its values. -/
def insertVinRow0 : List VinColumn :=
  [.id, .txHash, .txIndex, .txTree, .prevTxHash, .prevTxIndex, .prevTxTree]

/-- A row of the vins table: its id, and what `InsertVins` binds. -/
def vinRow (stored : Stored VinTxProperty) : VinColumn → Datum :=
  insertedRow .null insertVinRow0 [.int stored.id,
    .hash stored.row.txID, .int (uint32.value stored.row.txIndex), .int (uint16.value stored.row.txTree),
    .hash stored.row.prevTxHash, .int (uint32.value stored.row.prevTxIndex),
    .int (uint16.value stored.row.prevTxTree)]

/-- The columns of `SelectSpendingTxsByPrevTx`, in the order in which they are selected. -/
def selectSpendingTxsByPrevTx : List VinColumn := [.id, .txHash, .txIndex, .prevTxIndex]

/-- The columns of `SelectSpendingTxByPrevOut`, in the order in which they are selected. -/
def selectSpendingTxByPrevOut : List VinColumn := [.id, .txHash, .txIndex]

/-- The named results of `RetrieveSpendingTxByTxOut`, four of them where three columns are
selected. -/
structure SpendingTx where
  id : UInt64
  tx : Hash
  vin : UInt32
  tree : Int8
deriving DecidableEq, Repr

/-- The variables of the loop of `RetrieveSpendingTxsByFundingTx`, of which each pass adds one to
the four slices. -/
structure SpendingVin where
  id : UInt64
  tx : Hash
  vin : UInt32
  vout : UInt32
deriving DecidableEq, Repr

/-- The error of a query, of the database or of the scan, if there is one. -/
abbrev Err := Option (QueryError ConvertError)

/-- The destinations of `RetrieveSpendingTxByTxOut`, one for each of its four results. -/
def spendingTxDestinations : List (Destination Datum ConvertError SpendingTx) := [
  intTo uint64 fun id results => { results with id := id },
  hashTo fun tx results => { results with tx := tx },
  intTo uint32 fun vin results => { results with vin := vin },
  intTo int8 fun tree results => { results with tree := tree }]

/-- `RetrieveSpendingTxByTxOut`, which scans the first row that spends the output. -/
def retrieveSpendingTxByTxOut (fault : Option String) (txHash : Hash) (voutIndex : UInt32)
    (vins : Listing VinTxProperty) : Err × SpendingTx :=
  let found := vins.rows.filter fun stored =>
    stored.row.prevTxHash = txHash ∧ stored.row.prevTxIndex = voutIndex
  queryRow fault spendingTxDestinations
    (found.map fun stored => selected selectSpendingTxByPrevOut (vinRow stored)) ⟨0, 0, 0, 0⟩

/-- The destinations of the loop of `RetrieveSpendingTxsByFundingTx`, one for each of its four
variables. -/
def spendingVinDestinations : List (Destination Datum ConvertError SpendingVin) := [
  intTo uint64 fun id locals => { locals with id := id },
  hashTo fun tx locals => { locals with tx := tx },
  intTo uint32 fun vin locals => { locals with vin := vin },
  intTo uint32 fun vout locals => { locals with vout := vout }]

/-- `RetrieveSpendingTxsByFundingTx`, the rows that spend an output of the transaction. The four
slices are one list. -/
def retrieveSpendingTxsByFundingTx (fault : Option String) (fundingTxID : Hash)
    (vins : Listing VinTxProperty) : Err × List SpendingVin :=
  let found := vins.rows.filter fun stored => stored.row.prevTxHash = fundingTxID
  queryRows fault spendingVinDestinations ⟨0, 0, 0, 0⟩
    (found.map fun stored => selected selectSpendingTxsByPrevTx (vinRow stored))

/-- `SpendingTransaction`: the transaction, the index of its input, its tree. -/
def spendingTransaction (fault : Option String) (fundingTxID : Hash) (fundingTxVout : UInt32)
    (vins : Listing VinTxProperty) : (Hash × UInt32 × Int8) × Err :=
  let (err, results) := retrieveSpendingTxByTxOut fault fundingTxID fundingTxVout vins
  ((results.tx, results.vin, results.tree), err)

/-- `SpendingTransactions`: the transactions, the indexes of their inputs, those of the outputs. -/
def spendingTransactions (fault : Option String) (fundingTxID : Hash)
    (vins : Listing VinTxProperty) : (List Hash × List UInt32 × List UInt32) × Err :=
  let (err, spent) := retrieveSpendingTxsByFundingTx fault fundingTxID vins
  ((spent.map SpendingVin.tx, spent.map SpendingVin.vin, spent.map SpendingVin.vout), err)

/-- The row spends the output of a transaction with an index. -/
def Spender (fundingTxID : Hash) (fundingTxVout : UInt32) (stored : Stored VinTxProperty) : Prop :=
  stored.row.prevTxHash = fundingTxID ∧ stored.row.prevTxIndex = fundingTxVout

/-- The query for one output succeeds when the query for the transaction has an entry for it, and
both give the same transaction and index. -/
structure SpendersAgree (fundingTxID : Hash) (fundingTxVout : UInt32)
    (vins : Listing VinTxProperty) : Prop where
  succeeds : (spendingTransaction none fundingTxID fundingTxVout vins).2 = none ↔
    fundingTxVout ∈ (spendingTransactions none fundingTxID vins).1.2.2
  same : (spendingTransaction none fundingTxID fundingTxVout vins).2 = none →
    ∀ k : Nat, (spendingTransactions none fundingTxID vins).1.2.2[k]? = some fundingTxVout →
      (spendingTransactions none fundingTxID vins).1.1[k]? =
          some (spendingTransaction none fundingTxID fundingTxVout vins).1.1 ∧
        (spendingTransactions none fundingTxID vins).1.2.1[k]? =
          some (spendingTransaction none fundingTxID fundingTxVout vins).1.2.1

variable {fundingTxID : Hash} {fundingTxVout : UInt32} {vins : Listing VinTxProperty}

/-- The query for one output never succeeds: it selects three columns and scans four. -/
theorem spendingTransaction_fails (fault : Option String) (fundingTxID : Hash) (fundingTxVout : UInt32)
    (vins : Listing VinTxProperty) :
    (spendingTransaction fault fundingTxID fundingTxVout vins).2 ≠ none := by
  have other : spendingTxDestinations.length ≠ selectSpendingTxByPrevOut.length := by decide
  have rows : ∀ found : List (Stored VinTxProperty),
      found.map (fun stored => selected selectSpendingTxByPrevOut (vinRow stored)) =
        (found.map vinRow).map (selected selectSpendingTxByPrevOut) := by
    intro found
    rw [List.map_map]
    rfl
  simp only [spendingTransaction, retrieveSpendingTxByTxOut, rows]
  exact queryRow_fails other

/-- The query for a transaction reads every row that spends from it. -/
theorem spendingTransactions_eq (fundingTxID : Hash) (vins : Listing VinTxProperty) :
    let found := vins.rows.filter fun stored => stored.row.prevTxHash = fundingTxID
    spendingTransactions none fundingTxID vins =
      ((found.map fun stored => stored.row.txID, found.map fun stored => stored.row.txIndex,
        found.map fun stored => stored.row.prevTxIndex), none) := by
  have each : ∀ stored ∈ vins.rows.filter (fun stored => stored.row.prevTxHash = fundingTxID),
      scan spendingVinDestinations (selected selectSpendingTxsByPrevTx (vinRow stored)) ⟨0, 0, 0, 0⟩ =
        (none, ⟨UInt64.ofNat stored.id, stored.row.txID, stored.row.txIndex, stored.row.prevTxIndex⟩) := by
    intro stored member
    have values : selected selectSpendingTxsByPrevTx (vinRow stored) =
        [.int (uint64.value (UInt64.ofNat stored.id)), .hash stored.row.txID,
          .int (uint32.value stored.row.txIndex), .int (uint32.value stored.row.prevTxIndex)] := by
      rw [← vins.id_value (List.mem_of_mem_filter member)]
      rfl
    rw [values, scan_eq rfl]
    simp only [spendingVinDestinations, assignAll_int, assignAll_hash]
    rfl
  simp only [spendingTransactions, retrieveSpendingTxsByFundingTx, queryRows, scanRows_eq each,
    List.map_map]
  rfl

/-- The two queries agree on the outputs that no row spends, and on no others. -/
theorem spendersAgree_iff (fundingTxID : Hash) (fundingTxVout : UInt32) (vins : Listing VinTxProperty) :
    SpendersAgree fundingTxID fundingTxVout vins ↔
      ∀ stored ∈ vins.rows, ¬ Spender fundingTxID fundingTxVout stored := by
  have fails := spendingTransaction_fails none fundingTxID fundingTxVout vins
  have listed : fundingTxVout ∈ (spendingTransactions none fundingTxID vins).1.2.2 ↔
      ∃ stored ∈ vins.rows, Spender fundingTxID fundingTxVout stored := by
    rw [spendingTransactions_eq]
    simp only [List.mem_map, List.mem_filter, decide_eq_true_eq, and_assoc]
    rfl
  constructor
  · intro agree stored member spends
    exact fails (agree.succeeds.mpr (listed.mpr ⟨stored, member, spends⟩))
  · intro unspent
    refine ⟨iff_of_false fails fun isListed => ?_, fun succeeded => absurd succeeded fails⟩
    obtain ⟨stored, member, spends⟩ := listed.mp isListed
    exact unspent stored member spends

/-- A table with one row, which spends an output. -/
def spentOnce : Listing VinTxProperty where
  rows := [⟨1, ⟨2, 0, 0, 1, 3, 0⟩⟩]
  ids := by decide

/-- The query for the transaction has its spender, the query for the output fails. -/
theorem spendersAgree_spentOnce : ¬ SpendersAgree 1 3 spentOnce := by
  intro agree
  have succeeds := agree.succeeds.mpr (by decide +kernel)
  exact absurd succeeds (by decide +kernel)

end Spenders

end Hcexplorer.Hcpg

import Hcexplorer.Hcpg.ColumnRanges
import Hcexplorer.Library.ArrayLiterals
import Hcexplorer.Library.ScannedColumns
import Hcexplorer.Strconv

/-!
# The INSERT for a block

The statement for a block binds most columns, but the four arrays are written into its text:
`makeBlockInsertStatement` fills four verbs with array constructors that are put together element by
element. The row that the server stores has what the expressions denote.

An array of numbers is right for every list. An array of texts is written by the same loop, but
for no texts the constructor has one, the empty text, so the row of a block without transactions in
a tree has an array of one hash for it.
-/

namespace Hcexplorer.Hcpg

open ScannedColumns ArrayLiterals Strconv

section Arrays

variable {α : Type}

/-- The loop of `makeARRAYOfTEXT` and of `makeARRAYOfBIGINTs`, with what is printed of an
element. -/
def appendElements (print : α → Text) (length : Nat) : Nat → List α → Text → Text
  | _, [], array => array
  | i, v :: rest, array =>
    if i = length - 1 then array ++ print v
    else appendElements print length (i + 1) rest (array ++ (print v ++ ", ".toList))

/-- `makeARRAYOfTEXT`, which puts each text between quotes; for no texts it writes one empty
text. -/
def makeARRAYOfTEXT (text : List Text) : Text :=
  if text.length = 0 then "ARRAY['']".toList
  else appendElements (fun txt => '\'' :: txt ++ ['\'']) text.length 0 text "ARRAY[".toList ++
    "]".toList

/-- `makeARRAYOfBIGINTs`, which writes the numbers in decimal digits; for no numbers it writes an
empty array with its type. -/
def makeARRAYOfBIGINTs (ints : List UInt64) : Text :=
  if ints.length = 0 then "ARRAY[]::BIGINT[]".toList
  else appendElements (fun v => Nat.toDigits 10 v.toNat) ints.length 0 ints "ARRAY[".toList ++
    "]".toList

end Arrays

section Statement

/-- The columns of the blocks table, but for the id. -/
inductive BlockColumn where
  | hash
  | height
  | size
  | isValid
  | version
  | merkleRoot
  | stakeRoot
  | numtx
  | numRtx
  | tx
  | txDbIDs
  | numStx
  | stx
  | stxDbIDs
  | time
  | nonce
  | voteBits
  | finalState
  | voters
  | freshStake
  | revocations
  | poolSize
  | bits
  | sbits
  | difficulty
  | extraData
  | stakeVersion
  | previousHash
deriving DecidableEq, Repr

/-- What stands for a value: an argument by its number, the verb `%s`, or what is printed for it. -/
inductive Expression where
  | bound (number : Nat)
  | verb
  | printed (text : Text)
deriving DecidableEq, Repr

/-- An INSERT into the blocks table: its columns, the expressions for their values, and how the
statement ends. -/
structure InsertStatement where
  columns : List BlockColumn
  values : List Expression
  ending : String
deriving DecidableEq, Repr

/-- `insertBlockRow0`, the INSERT for all columns of a block, with an ending to be chosen. -/
def insertBlockRow0 (ending : String) : InsertStatement where
  columns := [
    .hash, .height, .size, .isValid, .version, .merkleRoot, .stakeRoot,
    .numtx, .numRtx, .tx, .txDbIDs, .numStx, .stx, .stxDbIDs,
    .time, .nonce, .voteBits, .finalState, .voters,
    .freshStake, .revocations, .poolSize, .bits, .sbits,
    .difficulty, .extraData, .stakeVersion, .previousHash]
  values := [
    .bound 1, .bound 2, .bound 3, .bound 4, .bound 5, .bound 6, .bound 7,
    .bound 8, .bound 9, .verb, .verb, .bound 10, .verb, .verb,
    .bound 11, .bound 12, .bound 13, .bound 14, .bound 15,
    .bound 16, .bound 17, .bound 18, .bound 19, .bound 20,
    .bound 21, .bound 22, .bound 23, .bound 24]
  ending := ending

/-- `insertBlockRow`, the INSERT that fails where the hash is there. -/
def insertBlockRow : InsertStatement := insertBlockRow0 "RETURNING id;"

/-- `insertBlockRowChecked`, the INSERT that does nothing where the hash is there. -/
def insertBlockRowChecked : InsertStatement :=
  insertBlockRow0 "ON CONFLICT (hash) DO NOTHING RETURNING id;"

/-- `Sprintf` with texts for the verbs, the missing ones marked as the function marks them. -/
def sprintf : List Expression → List Text → List Expression
  | .verb :: values, arg :: args => .printed arg :: sprintf values args
  | .verb :: values, [] => .printed "%!s(MISSING)".toList :: sprintf values []
  | value :: values, args => value :: sprintf values args
  | [], _ => []

/-- `makeBlockInsertStatement`, which writes the four arrays into the statement. -/
def makeBlockInsertStatement (txDbIDs stxDbIDs : List UInt64) (rtxs stxs : List Text)
    (checked : Bool) : InsertStatement :=
  let rtxDbIDsARRAY := makeARRAYOfBIGINTs txDbIDs
  let stxDbIDsARRAY := makeARRAYOfBIGINTs stxDbIDs
  let rtxTEXTARRAY := makeARRAYOfTEXT rtxs
  let stxTEXTARRAY := makeARRAYOfTEXT stxs
  let insert := if checked then insertBlockRowChecked else insertBlockRow
  { insert with
    values := sprintf insert.values [rtxTEXTARRAY, rtxDbIDsARRAY, stxTEXTARRAY, stxDbIDsARRAY] }

/-- `MakeBlockInsertStatement`, the statement for the arrays of a block. -/
def Block.makeBlockInsertStatement (chainhash : Chainhash) (block : Block) (checked : Bool) :
    InsertStatement :=
  Hcpg.makeBlockInsertStatement (block.txDbIDs.map UInt64.ofNat) (block.stxDbIDs.map UInt64.ofNat)
    (block.tx.map chainhash.hashString) (block.stx.map chainhash.hashString) checked

end Statement

section Row

/-- The values that the columns of the table can have. -/
inductive BlockValue where
  | null
  | int (value : Int)
  | bool (value : Bool)
  | float (value : ℚ)
  | text (characters : Text)
  | bytes (value : List UInt8)
  | texts (elements : List Text)
  | bigints (elements : List Nat)
deriving DecidableEq, Repr

/-- The arguments of `InsertBlock`, with the difficulty, which a block has beside its other
fields. -/
def insertBlockArgs (chainhash : Chainhash) (dbBlock : Block) (difficulty : ℚ) (isValid : Bool) :
    List BlockValue := [
  .text (chainhash.hashString dbBlock.hash), .int dbBlock.height.toNat, .int dbBlock.size.toNat,
  .bool isValid, .int dbBlock.version.toNat,
  .text (chainhash.hashString dbBlock.merkleRoot), .text (chainhash.hashString dbBlock.stakeRoot),
  .int dbBlock.numTx.toNat, .int dbBlock.numRegTx.toNat, .int dbBlock.numStakeTx.toNat,
  .int dbBlock.time.toNat, .int dbBlock.nonce.toNat, .int dbBlock.voteBits.toNat,
  .bytes dbBlock.finalState, .int dbBlock.voters.toNat, .int dbBlock.freshStake.toNat,
  .int dbBlock.revocations.toNat, .int dbBlock.poolSize.toNat, .int dbBlock.bits.toNat,
  .int dbBlock.sBits.toNat, .float difficulty, .bytes dbBlock.extraData,
  .int dbBlock.stakeVersion.toNat, .text (chainhash.hashString dbBlock.previousHash)]

/-- What the server stores in a column for an expression. -/
def evaluate (args : List BlockValue) : BlockColumn → Expression → Option BlockValue
  | _, .bound number => args[number - 1]?
  | .tx, .printed text | .stx, .printed text => (textArray text).map .texts
  | .txDbIDs, .printed text | .stxDbIDs, .printed text => (bigintArray text).map .bigints
  | _, _ => none

/-- The row that a statement stores, unless one of its expressions is refused. -/
def InsertStatement.row (insert : InsertStatement) (args : List BlockValue) :
    Option (BlockColumn → BlockValue) :=
  ((insert.columns.zip insert.values).mapM fun (column, value) => evaluate args column value).map
    (insertedRow .null insert.columns)

/-- The row that `InsertBlock` stores, none where the statement and its arguments do not make
one. -/
def storedBlock (chainhash : Chainhash) (dbBlock : Block) (difficulty : ℚ) (isValid checked : Bool) :
    Option (BlockColumn → BlockValue) :=
  (dbBlock.makeBlockInsertStatement chainhash checked).row
    (insertBlockArgs chainhash dbBlock difficulty isValid)

end Row

section Law

variable {α : Type}

/-- The loop puts separators between the elements, behind the text that it begins with. -/
theorem appendElements_eq (print : α → Text) {elements : List α} (some_ : elements ≠ []) (i : Nat)
    (array : Text) : appendElements print (i + elements.length) i elements array =
      array ++ ", ".toList.intercalate (elements.map print) := by
  induction elements generalizing i array with
  | nil => exact absurd rfl some_
  | cons v rest inductionHypothesis =>
    cases rest with
    | nil =>
      have last : i = i + [v].length - 1 := by simp
      rw [appendElements, if_pos last, List.map_singleton, List.intercalate_singleton]
    | cons second rest =>
      have notLast : ¬ i = i + (v :: second :: rest).length - 1 := by
        simp only [List.length_cons]
        omega
      have onward : i + (v :: second :: rest).length = i + 1 + (second :: rest).length := by
        simp only [List.length_cons]
        omega
      rw [appendElements, if_neg notLast, onward,
        inductionHypothesis (List.cons_ne_nil second rest)]
      simp only [List.map_cons, List.intercalate_cons_cons, List.append_assoc]

/-- With some elements, `makeARRAYOfTEXT` writes the array constructor of the quoted texts. -/
theorem makeARRAYOfTEXT_eq {text : List Text} (some_ : text ≠ []) :
    makeARRAYOfTEXT text = written (text.map fun txt => '\'' :: txt ++ ['\'']) := by
  have length : ¬ text.length = 0 := by simpa using some_
  have looped := appendElements_eq (fun txt => '\'' :: txt ++ ['\'']) some_ 0 "ARRAY[".toList
  rw [Nat.zero_add] at looped
  rw [makeARRAYOfTEXT, if_neg length, looped, written_eq]

/-- What the constructor for texts denotes are the texts, provided that none has a quote; for no
texts it denotes one empty text. -/
theorem textArray_makeARRAYOfTEXT {text : List Text} (free : ∀ txt ∈ text, '\'' ∉ txt) :
    textArray (makeARRAYOfTEXT text) = some (if text = [] then [[]] else text) := by
  by_cases empty : text = []
  · subst empty
    decide
  · rw [makeARRAYOfTEXT_eq empty, textArray_written free empty, if_neg empty]

/-- What the constructor for numbers denotes are the numbers, provided that they fit into the
signed type. -/
theorem bigintArray_makeARRAYOfBIGINTs {ints : List UInt64} (fit : ∀ v ∈ ints, v.toNat < 2 ^ 63) :
    bigintArray (makeARRAYOfBIGINTs ints) = some (ints.map UInt64.toNat) := by
  by_cases empty : ints = []
  · subst empty
    decide
  · have length : ¬ ints.length = 0 := by simpa using empty
    have looped := appendElements_eq (fun v : UInt64 => Nat.toDigits 10 v.toNat) empty 0 "ARRAY[".toList
    have numbers : ints.map UInt64.toNat ≠ [] := by simpa using empty
    have fitting : ∀ value ∈ ints.map UInt64.toNat, value < 2 ^ 63 := by
      simpa using fit
    have denoted := bigintArray_written fitting numbers
    rw [List.map_map] at denoted
    rw [Nat.zero_add] at looped
    rw [makeARRAYOfBIGINTs, if_neg length, looped]
    exact denoted

/-- Row ids are the numbers that are printed for them. -/
theorem bigintArray_rowIds {ids : List Nat} (rowIds : RowIds ids) :
    bigintArray (makeARRAYOfBIGINTs (ids.map UInt64.ofNat)) = some ids := by
  have value : ∀ id ∈ ids, (UInt64.ofNat id).toNat = id := by
    intro id member
    have bound := rowIds id member
    have limit : IntType.int8.bound = 9223372036854775808 := rfl
    exact UInt64.toNat_ofNat_of_lt' (by change id < 18446744073709551616; omega)
  have fit : ∀ v ∈ ids.map UInt64.ofNat, v.toNat < 2 ^ 63 := by
    intro v member
    obtain ⟨id, isId, rfl⟩ := List.mem_map.mp member
    have bound := rowIds id isId
    have limit : IntType.int8.bound = 9223372036854775808 := rfl
    rw [value id isId]
    omega
  have same : (ids.map UInt64.ofNat).map UInt64.toNat = ids := by
    rw [List.map_map]
    exact (List.map_congr_left value).trans (List.map_id ids)
  rw [bigintArray_makeARRAYOfBIGINTs fit, same]

/-- The hashes of transactions as an array of texts that a row has. -/
def storedHashes (chainhash : Chainhash) (hashes : List Hash) : List Text :=
  if hashes = [] then [[]] else hashes.map chainhash.hashString

/-- The constructor for hashes denotes their texts, as a text of a hash has no quote. -/
theorem textArray_hashes {chainhash : Chainhash} (texts : chainhash.Documented) (hashes : List Hash) :
    textArray (makeARRAYOfTEXT (hashes.map chainhash.hashString)) =
      some (storedHashes chainhash hashes) := by
  have free : ∀ txt ∈ hashes.map chainhash.hashString, '\'' ∉ txt := by
    intro txt member
    obtain ⟨hash, -, rfl⟩ := List.mem_map.mp member
    exact texts.hashString_free hash
  rw [textArray_makeARRAYOfTEXT free, storedHashes]
  simp only [List.map_eq_nil_iff]

/-- The arrays and the numbers of transactions that the row of a block has. -/
theorem storedBlock_row {chainhash : Chainhash} (texts : chainhash.Documented) (dbBlock : Block)
    (difficulty : ℚ) (isValid checked : Bool) (txIds : RowIds dbBlock.txDbIDs)
    (stxIds : RowIds dbBlock.stxDbIDs) :
    ∃ row, storedBlock chainhash dbBlock difficulty isValid checked = some row ∧
      row .tx = .texts (storedHashes chainhash dbBlock.tx) ∧
      row .stx = .texts (storedHashes chainhash dbBlock.stx) ∧
      row .txDbIDs = .bigints dbBlock.txDbIDs ∧ row .stxDbIDs = .bigints dbBlock.stxDbIDs ∧
      row .numRtx = .int dbBlock.numRegTx.toNat ∧ row .numStx = .int dbBlock.numStakeTx.toNat := by
  have tx := textArray_hashes texts dbBlock.tx
  have stx := textArray_hashes texts dbBlock.stx
  have txDbIDs := bigintArray_rowIds txIds
  have stxDbIDs := bigintArray_rowIds stxIds
  have insert : dbBlock.makeBlockInsertStatement chainhash checked =
      { insertBlockRow0 (if checked then insertBlockRowChecked.ending else insertBlockRow.ending) with
        values := sprintf (insertBlockRow0 "").values
          [makeARRAYOfTEXT (dbBlock.tx.map chainhash.hashString),
            makeARRAYOfBIGINTs (dbBlock.txDbIDs.map UInt64.ofNat),
            makeARRAYOfTEXT (dbBlock.stx.map chainhash.hashString),
            makeARRAYOfBIGINTs (dbBlock.stxDbIDs.map UInt64.ofNat)] } := by
    cases checked <;> rfl
  simp only [storedBlock, InsertStatement.row, insert, insertBlockRow0, sprintf, insertBlockArgs,
    List.zip_cons_cons, List.zip_nil_left, List.mapM_cons, List.mapM_nil, evaluate, tx, stx, txDbIDs,
    stxDbIDs, Option.map_some]
  exact ⟨_, rfl, rfl, rfl, rfl, rfl, rfl, rfl⟩

/-- The row has an array with one hash for each regular transaction, and one with one for each stake
transaction. -/
def HashesMatch (msgBlock : MsgBlock) (row : BlockColumn → BlockValue) : Prop :=
  ∃ tx stx, row .tx = .texts tx ∧ row .stx = .texts stx ∧
    tx.length = msgBlock.transactions.length ∧ stx.length = msgBlock.sTransactions.length

/-- There is a hash for each transaction of a tree exactly when it has one. -/
theorem length_storedHashes (hcd : Hcd) (txs : List MsgTx) :
    (storedHashes hcd.toChainhash (txs.map hcd.txHash)).length = txs.length ↔ txs ≠ [] := by
  cases txs with
  | nil => simp [storedHashes]
  | cons first rest => simp [storedHashes]

/-- The row that `StoreBlock` stores for a block, with the row ids of its transactions. -/
def storedMsgBlock (hcd : Hcd) (msgBlock : MsgBlock) (txDbIDs stxDbIDs : List Nat) (difficulty : ℚ)
    (isValid checked : Bool) : Option (BlockColumn → BlockValue) :=
  storedBlock hcd.toChainhash ((msgBlockToDBBlock hcd msgBlock).withTxDbIDs txDbIDs stxDbIDs) difficulty
    isValid checked

/-- The arrays of hashes of a stored row match the block exactly when both trees have a
transaction. -/
theorem storedMsgBlock_match {hcd : Hcd} (texts : hcd.toChainhash.Documented) (msgBlock : MsgBlock)
    {txDbIDs stxDbIDs : List Nat} (txIds : RowIds txDbIDs) (stxIds : RowIds stxDbIDs) (difficulty : ℚ) (isValid checked : Bool) :
    (∃ row, storedMsgBlock hcd msgBlock txDbIDs stxDbIDs difficulty isValid checked = some row ∧
      HashesMatch msgBlock row) ↔
        msgBlock.transactions ≠ [] ∧ msgBlock.sTransactions ≠ [] := by
  obtain ⟨row, stored, tx, stx, -⟩ :=
    storedBlock_row texts ((msgBlockToDBBlock hcd msgBlock).withTxDbIDs txDbIDs stxDbIDs) difficulty
      isValid checked txIds stxIds
  have regular := length_storedHashes hcd msgBlock.transactions
  have stake := length_storedHashes hcd msgBlock.sTransactions
  constructor
  · rintro ⟨other, storedToo, tx', stx', isTx, isStx, txLength, stxLength⟩
    obtain rfl : row = other := Option.some.inj (stored.symm.trans storedToo)
    rw [tx] at isTx
    rw [stx] at isStx
    obtain rfl := BlockValue.texts.inj isTx
    obtain rfl := BlockValue.texts.inj isStx
    exact ⟨regular.mp txLength, stake.mp stxLength⟩
  · rintro ⟨some_, someStake⟩
    exact ⟨row, stored, _, _, tx, stx, regular.mpr some_, stake.mpr someStake⟩

/-- An array of texts is right unless it has none, an array of numbers is right, and the row of a
block has its hashes exactly when both trees have a transaction. -/
theorem makeBlockInsertStatement_arrays {text : List Text} (free : ∀ txt ∈ text, '\'' ∉ txt)
    {ints : List UInt64} (fit : ∀ v ∈ ints, v.toNat < 2 ^ 63) {hcd : Hcd}
    (texts : hcd.toChainhash.Documented) (msgBlock : MsgBlock) {txDbIDs stxDbIDs : List Nat} (txIds : RowIds txDbIDs) (stxIds : RowIds stxDbIDs) (difficulty : ℚ)
    (isValid checked : Bool) :
    (textArray (makeARRAYOfTEXT text) = some text ↔ text ≠ []) ∧
      bigintArray (makeARRAYOfBIGINTs ints) = some (ints.map UInt64.toNat) ∧
      ((∃ row, storedMsgBlock hcd msgBlock txDbIDs stxDbIDs difficulty isValid checked = some row ∧
        HashesMatch msgBlock row) ↔ msgBlock.transactions ≠ [] ∧ msgBlock.sTransactions ≠ []) := by
  refine ⟨?_, bigintArray_makeARRAYOfBIGINTs fit,
    storedMsgBlock_match texts msgBlock txIds stxIds difficulty isValid checked⟩
  rw [textArray_makeARRAYOfTEXT free]
  by_cases empty : text = [] <;> simp [empty]

end Law

section Samples

/-- A block with a coinbase, and with no or one ticket purchase. -/
def arraysBlock (stakeTree : List MsgTx) : MsgBlock :=
  { Sample.block 1 1 0 stakeTree with transactions := [⟨1, [], [⟨100, 0, []⟩], 5, 0⟩] }

/-- Two texts, two numbers, and a block with a transaction in each tree. -/
theorem makeBlockInsertStatement_sample :
    textArray (makeARRAYOfTEXT ["0a".toList, "0b".toList]) = some ["0a".toList, "0b".toList] ∧
      bigintArray (makeARRAYOfBIGINTs [7, 9223372036854775807]) = some [7, 9223372036854775807] ∧
      ∃ row, storedMsgBlock Sample.hcd (arraysBlock [Sample.ticket 7]) [3] [4] 1 true true = some row ∧
        HashesMatch (arraysBlock [Sample.ticket 7]) row := by
  have free : ∀ txt ∈ ["0a".toList, "0b".toList], '\'' ∉ txt := by decide
  have fit : ∀ v ∈ ([7, 9223372036854775807] : List UInt64), v.toNat < 2 ^ 63 := by
    intro v member
    rcases List.mem_pair.mp member with rfl | rfl <;> decide
  have txIds : RowIds [3] := by
    unfold RowIds
    decide
  have stxIds : RowIds [4] := by
    unfold RowIds
    decide
  obtain ⟨texts, bigints, blocks⟩ := makeBlockInsertStatement_arrays free fit
    (show Sample.hcd.toChainhash.Documented from Chainhash.hexadecimal_documented) (arraysBlock [Sample.ticket 7]) txIds stxIds 1 true true
  exact ⟨texts.mpr (List.cons_ne_nil _ _), bigints,
    blocks.mpr ⟨List.cons_ne_nil _ _, List.cons_ne_nil _ _⟩⟩

/-- No texts are written as one empty text: the row of a block without stake transactions has an
array of one hash for them, beside their number, zero. -/
theorem makeBlockInsertStatement_empty :
    textArray (makeARRAYOfTEXT []) = some [[]] ∧
      (∃ row, storedMsgBlock Sample.hcd (arraysBlock []) [3] [] 1 true true = some row ∧
        row .stx = .texts [[]] ∧ row .numStx = .int 0) ∧
      ¬ ∃ row, storedMsgBlock Sample.hcd (arraysBlock []) [3] [] 1 true true = some row ∧
        HashesMatch (arraysBlock []) row := by
  have txIds : RowIds [3] := by
    unfold RowIds
    decide
  have stxIds : RowIds [] := fun _ member => absurd member List.not_mem_nil
  have texts : Sample.hcd.toChainhash.Documented := Chainhash.hexadecimal_documented
  obtain ⟨row, stored, -, stx, -, -, -, numStx⟩ := storedBlock_row texts
    ((msgBlockToDBBlock Sample.hcd (arraysBlock [])).withTxDbIDs [3] []) 1 true true txIds stxIds
  refine ⟨by decide, ⟨row, stored, stx, numStx⟩, ?_⟩
  rw [storedMsgBlock_match texts _ txIds stxIds]
  exact fun both => both.2 rfl

end Samples

end Hcexplorer.Hcpg

import Hcexplorer.Wire

/-!
# The rows of the PostgreSQL tables

A block of the node is turned into the rows of six tables before any statement is
issued. The conversions are pure: they read the wire data and hcd's functions on
it, and leave the row ids of other tables empty.

Hashes are hashes here, not their hexadecimal strings. The three parallel slices
of the extraction are one list. The columns that no statement sets (`vins` and
`vouts` of a transaction) and the floating point difficulty of a block are left
out.
-/

namespace Hcexplorer.Hcpg

/-- The two transaction trees of a block, `wire.TxTreeRegular` and
`wire.TxTreeStake`. -/
inductive TxTree where
  | regular
  | stake
deriving DecidableEq, Repr

/-- What holds of some tree holds of one of the two. -/
theorem TxTree.exists_iff {holds : TxTree → Prop} :
    (∃ tree, holds tree) ↔ holds .regular ∨ holds .stake := by
  constructor
  · rintro ⟨_ | _, member⟩
    · exact Or.inl member
    · exact Or.inr member
  · rintro (regular | stake)
    · exact ⟨.regular, regular⟩
    · exact ⟨.stake, stake⟩

/-- The number behind a tree: zero for the regular one and one for the stake tree. -/
def TxTree.toInt8 : TxTree → Int8
  | .regular => 0
  | .stake => 1

/-- `dbtypes.VinTxProperty`, with the columns of the vins table: the input, and the output that
it spends. -/
structure VinTxProperty where
  txID : Hash
  txIndex : UInt32
  txTree : UInt16
  prevTxHash : Hash
  prevTxIndex : UInt32
  prevTxTree : UInt16
deriving DecidableEq, Repr

/-- `dbtypes.Vout`, an output with its value and what its script says of its addresses. -/
structure Vout where
  txHash : Hash
  txIndex : UInt32
  txTree : Int8
  value : UInt64
  version : UInt16
  scriptPubKey : List UInt8
  scriptPubKeyData : ScriptAddrs
deriving DecidableEq, Repr

/-- `dbtypes.Tx`, with the row ids of its inputs and outputs. -/
structure Tx where
  blockHash : Hash
  blockHeight : Int64
  blockTime : Int64
  time : Int64
  txType : Int16
  version : UInt16
  tree : Int8
  txID : Hash
  blockIndex : UInt32
  locktime : UInt32
  expiry : UInt32
  size : UInt32
  spent : Int64
  sent : Int64
  fees : Int64
  numVin : UInt32
  vinDbIds : List Nat
  numVout : UInt32
  voutDbIds : List Nat
deriving DecidableEq, Repr

/-- The spending columns of an address row, which are set together. -/
structure Spending where
  spendingTxDbID : Nat
  spendingTxHash : Hash
  spendingTxVinIndex : UInt32
  vinDbID : Nat
deriving DecidableEq, Repr

/-- `dbtypes.AddressRow`: an address paid by an output. The spending columns are
NULL until the spender is known. -/
structure AddressRow where
  address : String
  fundingTxDbID : Nat
  fundingTxHash : Hash
  fundingTxVoutIndex : UInt32
  voutDbID : Nat
  value : UInt64
  spending : Option Spending
deriving DecidableEq, Repr

/-- `dbtypes.Block`, the header's fields with the hashes and row ids of the transactions of both
trees. -/
structure Block where
  hash : Hash
  size : UInt32
  height : UInt32
  version : UInt32
  merkleRoot : Hash
  stakeRoot : Hash
  numTx : UInt32
  numRegTx : UInt32
  tx : List Hash
  txDbIDs : List Nat
  numStakeTx : UInt32
  stx : List Hash
  stxDbIDs : List Nat
  time : UInt64
  nonce : UInt64
  voteBits : UInt16
  finalState : List UInt8
  voters : UInt16
  freshStake : UInt8
  revocations : UInt8
  poolSize : UInt32
  bits : UInt32
  sBits : UInt64
  extraData : List UInt8
  stakeVersion : UInt32
  previousHash : Hash
deriving DecidableEq, Repr

/-- `dbtypes.MsgBlockToDBBlock`, which takes the fields from the header and the hashes from the
transactions. -/
def msgBlockToDBBlock (hcd : Hcd) (msgBlock : MsgBlock) : Block where
  hash := hcd.hashOf msgBlock
  size := UInt32.ofNat (hcd.blockSerializeSize msgBlock)
  height := msgBlock.header.height
  version := msgBlock.header.version.toUInt32
  merkleRoot := msgBlock.header.merkleRoot
  stakeRoot := msgBlock.header.stakeRoot
  numTx := UInt32.ofNat (msgBlock.transactions.length + msgBlock.sTransactions.length)
  numRegTx := UInt32.ofNat msgBlock.transactions.length
  tx := msgBlock.transactions.map hcd.txHash
  txDbIDs := []
  numStakeTx := UInt32.ofNat msgBlock.sTransactions.length
  stx := msgBlock.sTransactions.map hcd.txHash
  stxDbIDs := []
  time := msgBlock.header.timestamp.toUInt64
  nonce := msgBlock.header.nonce.toUInt64
  voteBits := msgBlock.header.voteBits
  finalState := msgBlock.header.finalState
  voters := msgBlock.header.voters
  freshStake := msgBlock.header.freshStake
  revocations := msgBlock.header.revocations
  poolSize := msgBlock.header.poolSize
  bits := msgBlock.header.bits
  sBits := msgBlock.header.sBits.toUInt64
  extraData := msgBlock.header.extraData
  stakeVersion := msgBlock.header.stakeVersion
  previousHash := msgBlock.header.prevBlock

/-- One transaction as extracted: its row, the rows of its outputs and those of
its inputs. -/
structure ExtractedTx where
  tx : Tx
  vouts : List Vout
  vins : List VinTxProperty
deriving DecidableEq, Repr

/-- `txhelpers.IsStakeTx`, true of tickets, votes and revocations. -/
def isStakeTx (hcd : Hcd) (msgTx : MsgTx) : Bool :=
  match hcd.determineTxType msgTx with
  | .ssgen | .sstx | .ssrtx => true
  | .regular => false

/-- The transactions of one of the two trees of a block. -/
def treeTransactions (msgBlock : MsgBlock) : TxTree → List MsgTx
  | .regular => msgBlock.transactions
  | .stake => msgBlock.sTransactions

/-- The vins rows of a transaction, one for each of its inputs in order. -/
def vinsOf (hcd : Hcd) (tree : TxTree) (tx : MsgTx) : List VinTxProperty :=
  tx.txIn.zipIdx.map fun (txin, idx) =>
    { txID := hcd.txHash tx
      txIndex := UInt32.ofNat idx
      txTree := tree.toInt8.toInt16.toUInt16
      prevTxHash := txin.previousOutPoint.hash
      prevTxIndex := txin.previousOutPoint.index
      prevTxTree := txin.previousOutPoint.tree.toInt16.toUInt16 }

/-- The vouts rows of a transaction, one for each of its outputs in order. -/
def voutsOf (hcd : Hcd) (tree : TxTree) (tx : MsgTx) : List Vout :=
  tx.txOut.zipIdx.map fun (txout, io) =>
    { txHash := hcd.txHash tx
      txIndex := UInt32.ofNat io
      txTree := tree.toInt8
      value := txout.value.toUInt64
      version := txout.version
      scriptPubKey := txout.pkScript
      scriptPubKeyData := hcd.extractPkScriptAddrs txout.version txout.pkScript }

/-- The row of the transaction at an index of a tree, its vins and vouts not
inserted yet. -/
def txOf (hcd : Hcd) (msgBlock : MsgBlock) (tree : TxTree) (tx : MsgTx) (txIndex : Nat) : Tx :=
  let spent := (tx.txIn.map TxIn.valueIn).sum
  let sent := (tx.txOut.map TxOut.value).sum
  { blockHash := hcd.hashOf msgBlock
    blockHeight := msgBlock.header.height.toUInt64.toInt64
    blockTime := msgBlock.header.timestamp
    time := msgBlock.header.timestamp
    txType := (hcd.determineTxType tx).toInt16
    version := tx.version
    tree := tree.toInt8
    txID := hcd.txHash tx
    blockIndex := UInt32.ofNat txIndex
    locktime := tx.lockTime
    expiry := tx.expiry
    size := UInt32.ofNat (hcd.txSerializeSize tx)
    spent := spent
    sent := sent
    fees := spent - sent
    numVin := UInt32.ofNat tx.txIn.length
    vinDbIds := []
    numVout := UInt32.ofNat tx.txOut.length
    voutDbIds := [] }

/-- `processTransactions`. A stake transaction in the regular tree leaves nothing
of the tree. -/
def processTransactions (hcd : Hcd) (msgBlock : MsgBlock) (tree : TxTree) : List ExtractedTx :=
  let txs := treeTransactions msgBlock tree
  if (txs.any fun tx => isStakeTx hcd tx) ∧ tree ≠ .stake then []
  else txs.zipIdx.map fun (tx, txIndex) =>
    { tx := txOf hcd msgBlock tree tx txIndex, vouts := voutsOf hcd tree tx, vins := vinsOf hcd tree tx }

/-- `ExtractBlockTransactions`, the rows for the transactions of a tree. Its check of the tree
only prints. -/
def extractBlockTransactions (hcd : Hcd) (msgBlock : MsgBlock) (tree : TxTree) : List ExtractedTx :=
  processTransactions hcd msgBlock tree

/-- Every extracted row names the transaction and the block it was extracted
from. -/
theorem processTransactions_tx {hcd : Hcd} {msgBlock : MsgBlock} {tree : TxTree}
    {extracted : ExtractedTx} (member : extracted ∈ processTransactions hcd msgBlock tree) :
    ∃ tx ∈ treeTransactions msgBlock tree, ∃ index, extracted =
      ⟨txOf hcd msgBlock tree tx index, voutsOf hcd tree tx, vinsOf hcd tree tx⟩ := by
  simp only [processTransactions] at member
  split at member
  · cases member
  · obtain ⟨⟨tx, index⟩, present, rfl⟩ := List.mem_map.mp member
    exact ⟨tx, List.fst_mem_of_mem_zipIdx present, index, rfl⟩

/-- What is read of the extracted transactions, apart from their index in the
tree, is read of the transactions of the tree in order, or of none. -/
theorem processTransactions_map {β : Type} {hcd : Hcd} {msgBlock : MsgBlock} {tree : TxTree}
    (read : ExtractedTx → β) (direct : MsgTx → β)
    (agree : ∀ tx index, read ⟨txOf hcd msgBlock tree tx index, voutsOf hcd tree tx,
      vinsOf hcd tree tx⟩ = direct tx) :
    ((processTransactions hcd msgBlock tree).map read).Sublist
      ((treeTransactions msgBlock tree).map direct) := by
  simp only [processTransactions]
  split
  · exact List.nil_sublist _
  · have same : ∀ (txs : List MsgTx) (first : Nat), (txs.zipIdx first).map (fun indexed =>
        read ⟨txOf hcd msgBlock tree indexed.1 indexed.2, voutsOf hcd tree indexed.1,
          vinsOf hcd tree indexed.1⟩) = txs.map direct := by
      intro txs
      induction txs with
      | nil => intro first; rfl
      | cons tx rest inductionHypothesis =>
        intro first
        rw [List.zipIdx_cons, List.map_cons, List.map_cons, agree, inductionHypothesis]
    rw [List.map_map, ← same (treeTransactions msgBlock tree) 0]
    exact List.Sublist.refl _

end Hcexplorer.Hcpg

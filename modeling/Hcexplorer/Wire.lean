import Mathlib.Data.BitVec
import Mathlib.Data.List.Basic

/-!
# Blocks and transactions as the node sends them

The wire types of hcd that the explorer reads, field by field, and the functions
of hcd's packages that it calls on them. Those functions are not part of this
repository: `Hcd` carries them as a parameter, so that every law below holds for
whatever hashing, serialization and script decoding the node library performs.

Integers keep the width of their Go type. A block height is read through
`int64(header.Height)`, which cannot overflow; it is an `Int` here.
-/

namespace Hcexplorer

/-- `chainhash.Hash`, 32 bytes as one number. -/
abbrev Hash := BitVec 256

/-- `wire.OutPoint`: an output of a transaction, with the tree it is in. -/
structure OutPoint where
  hash : Hash
  index : UInt32
  tree : Int8
deriving DecidableEq, Repr

/-- `wire.TxIn`, with the outpoint that the input spends. -/
structure TxIn where
  previousOutPoint : OutPoint
  sequence : UInt32
  valueIn : Int64
  blockHeight : UInt32
  blockIndex : UInt32
  signatureScript : List UInt8
deriving DecidableEq, Repr

/-- `wire.TxOut`, an output with its value and its script. -/
structure TxOut where
  value : Int64
  version : UInt16
  pkScript : List UInt8
deriving DecidableEq, Repr

/-- `wire.MsgTx`, a transaction with its inputs and outputs. -/
structure MsgTx where
  version : UInt16
  txIn : List TxIn
  txOut : List TxOut
  lockTime : UInt32
  expiry : UInt32
deriving DecidableEq, Repr

/-- `wire.BlockHeader`, with the timestamp as its Unix time. -/
structure BlockHeader where
  version : Int32
  prevBlock : Hash
  merkleRoot : Hash
  stakeRoot : Hash
  voteBits : UInt16
  finalState : List UInt8
  voters : UInt16
  freshStake : UInt8
  revocations : UInt8
  poolSize : UInt32
  bits : UInt32
  sBits : Int64
  height : UInt32
  size : UInt32
  timestamp : Int64
  nonce : UInt32
  extraData : List UInt8
  stakeVersion : UInt32
deriving DecidableEq, Repr

/-- `wire.MsgBlock`, and `hcutil.Block`, which wraps it. -/
structure MsgBlock where
  header : BlockHeader
  transactions : List MsgTx
  sTransactions : List MsgTx
deriving DecidableEq, Repr

/-- `hcutil.Block.Height`, which is the height in the header. -/
def MsgBlock.height (block : MsgBlock) : Int := block.header.height.toNat

/-- `stake.TxType`, in the order of its constants. -/
inductive TxType where
  | regular
  | sstx
  | ssgen
  | ssrtx
deriving DecidableEq, Repr

/-- The number behind a `stake.TxType`, as it is stored. -/
def TxType.toInt16 : TxType → Int16
  | .regular => 0
  | .sstx => 1
  | .ssgen => 2
  | .ssrtx => 3

/-- What `txscript.ExtractPkScriptAddrs` returns, its error left out: the caller
only prints it. -/
structure ScriptAddrs where
  scriptClass : String
  addresses : List String
  reqSigs : Nat
deriving DecidableEq, Repr

/-- What `hcutil` makes of amounts: `toCoin` is `Amount.ToCoin`, the coins of a number of atoms,
and `newAmount` is `NewAmount` of a number of coins that is neither infinite nor NaN. -/
structure Hcutil where
  toCoin : Int64 → Rat
  newAmount : Rat → Int64

/-- `NewAmount` reads back what `ToCoin` wrote, as it does below 2^53 atoms, which is more than
there will ever be. -/
def Hcutil.Exact (hcutil : Hcutil) : Prop :=
  ∀ atoms, hcutil.newAmount (hcutil.toCoin atoms) = atoms

/-- Where amounts are exact, different amounts are different numbers of coins. -/
theorem Hcutil.Exact.toCoin_injective {hcutil : Hcutil} (exact : hcutil.Exact)
    {first second : Int64} (same : hcutil.toCoin first = hcutil.toCoin second) :
    first = second := by
  rw [← exact first, same, exact]

/-- What `chainhash` makes of hashes and texts: `string` is `Hash.String`, and `newHashFromStr` is
`NewHashFromStr`, none for its error. -/
structure Chainhash where
  string : Hash → String
  newHashFromStr : String → Option Hash

namespace Chainhash

/-- The characters of the text of a hash. -/
def hashString (chainhash : Chainhash) (hash : Hash) : List Char := (chainhash.string hash).toList

/-- The hash that is read from characters, if they are those of one. -/
def readHash (chainhash : Chainhash) (text : List Char) : Option Hash :=
  chainhash.newHashFromStr (String.ofList text)

/-- A hash is written as its 64 hexadecimal digits, and what is written is read back. -/
structure Documented (chainhash : Chainhash) : Prop where
  length : ∀ hash, (chainhash.hashString hash).length = 64
  digits : ∀ hash, ∀ c ∈ chainhash.hashString hash, c ∈ "0123456789abcdef".toList
  read : ∀ hash, chainhash.newHashFromStr (chainhash.string hash) = some hash

variable {chainhash : Chainhash}

/-- The characters of a hash are read as the hash. -/
theorem Documented.readHash_hashString (texts : chainhash.Documented) (hash : Hash) :
    chainhash.readHash (chainhash.hashString hash) = some hash := by
  rw [readHash, hashString, String.ofList_toList, texts.read]

/-- Two hashes have different texts, by what is documented of them. -/
theorem Documented.string_injective (texts : chainhash.Documented) :
    Function.Injective chainhash.string := by
  intro first second same
  have read := texts.read first
  rw [same, texts.read second] at read
  exact (Option.some.inj read).symm

/-- Two hashes have different characters, by what is documented of them. -/
theorem Documented.hashString_injective (texts : chainhash.Documented) :
    Function.Injective chainhash.hashString := by
  intro first second same
  have read := texts.readHash_hashString first
  rw [same, texts.readHash_hashString second] at read
  exact (Option.some.inj read).symm

/-- The text of a hash is not empty, as it has 64 digits. -/
theorem Documented.hashString_ne_nil (texts : chainhash.Documented) (hash : Hash) :
    chainhash.hashString hash ≠ [] := by
  intro isEmpty
  have length := texts.length hash
  rw [isEmpty] at length
  cases length

/-- The text of a hash has no quote, as all of its characters are digits. -/
theorem Documented.hashString_free (texts : chainhash.Documented) (hash : Hash) :
    '\'' ∉ chainhash.hashString hash := by
  intro member
  have noDigit : '\'' ∉ "0123456789abcdef".toList := by decide
  exact noDigit (texts.digits hash _ member)

end Chainhash

/-- The functions of hcd's packages that the explorer calls on wire data. -/
structure Hcd extends Hcutil, Chainhash where
  txHash : MsgTx → Hash
  blockHash : BlockHeader → Hash
  txSerializeSize : MsgTx → Nat
  blockSerializeSize : MsgBlock → Nat
  determineTxType : MsgTx → TxType
  extractPkScriptAddrs : UInt16 → List UInt8 → ScriptAddrs

/-- `hcutil.Block.Hash`, the hash of the header. -/
def Hcd.hashOf (hcd : Hcd) (block : MsgBlock) : Hash := hcd.blockHash block.header

/-- A height is the value of an unsigned field. -/
theorem height_nonneg (block : MsgBlock) : 0 ≤ block.height := by
  simp [MsgBlock.height]

end Hcexplorer

import Hcexplorer.Chainhash
import Hcexplorer.StakeDatabase
import Mathlib.Algebra.Field.Rat
import Mathlib.Tactic.NormNum
import Mathlib.Tactic.Ring

/-!
# A small node

Functions and data of the shape the node library has, small enough to evaluate:
hashes are read off a field that the sample blocks and transactions keep
distinct, the stake node is its height with its list of live tickets, and the RPC
server answers from a list of blocks. The laws that take hcd's functions as a
parameter are instantiated here, so that their assumptions are seen to be
satisfiable.
-/

namespace Hcexplorer.Sample

/-- Coins that are the exact quotient, and amounts rounded to the next atom. -/
def hcutil : Hcutil where
  toCoin atoms := atoms.toInt / 100000000
  newAmount coins := Int64.ofInt (coins * 100000000 + 1 / 2).floor

/-- Atoms are read back from their exact coins: half an atom more is rounded down again. -/
theorem hcutil_exact : hcutil.Exact := by
  intro atoms
  have scaled : (atoms.toInt / 100000000 : Rat) * 100000000 = atoms.toInt :=
    div_mul_cancel₀ _ (by norm_num)
  have half : (1 / 2 : Rat).floor = 0 := by decide +kernel
  show Int64.ofInt ((atoms.toInt / 100000000 : Rat) * 100000000 + 1 / 2).floor = atoms
  rw [scaled, add_comm, Rat.floor_add_intCast, half, zero_add, Int64.ofInt_toInt]

/-- Hashes from the lock time of a transaction and the nonce of a header, types
from the version, and one address for each byte of a script. -/
def hcd : Hcd where
  toHcutil := hcutil
  toChainhash := .hexadecimal
  txHash tx := BitVec.ofNat 256 (tx.lockTime.toNat + 1)
  blockHash header := BitVec.ofNat 256 (header.nonce.toNat + 1)
  txSerializeSize _ := 250
  blockSerializeSize _ := 1000
  determineTxType tx :=
    if tx.version = 2 then .sstx else if tx.version = 3 then .ssgen
    else if tx.version = 4 then .ssrtx else .regular
  extractPkScriptAddrs _ script := ⟨"pubkeyhash", script.map fun byte => toString byte.toNat, 1⟩

/-- A header with a height, a parent and a nonce. -/
def header (height nonce : UInt32) (prevBlock : Hash) : BlockHeader where
  version := 1
  prevBlock := prevBlock
  merkleRoot := 0
  stakeRoot := 0
  voteBits := 1
  finalState := []
  voters := 5
  freshStake := 0
  revocations := 0
  poolSize := 0
  bits := 0
  sBits := 0
  height := height
  size := 1000
  timestamp := 0
  nonce := nonce
  extraData := []
  stakeVersion := 1

/-- A block without transactions but for its stake tree. -/
def block (height nonce : UInt32) (prevBlock : Hash) (stakeTree : List MsgTx) : MsgBlock :=
  ⟨header height nonce prevBlock, [], stakeTree⟩

/-- A ticket purchase, told apart from others by its lock time. -/
def ticket (id : UInt32) : MsgTx := ⟨2, [], [⟨100, 0, []⟩], id, 0⟩

/-- The first block, of height zero and without transactions. -/
def genesis : MsgBlock := block 0 0 0 []

/-- A child of the first block, with a ticket purchase. -/
def firstBlock : MsgBlock := block 1 1 (hcd.hashOf genesis) [ticket 7]

/-- A child of the first block's child, without transactions. -/
def secondBlock : MsgBlock := block 2 2 (hcd.hashOf firstBlock) []

/-- Another child of the first block, with another ticket purchase. -/
def sideBlock : MsgBlock := block 1 3 (hcd.hashOf genesis) [ticket 8]

/-- The child of the side block, which makes the side chain the longer one. -/
def sideChild : MsgBlock := block 2 4 (hcd.hashOf sideBlock) []

/-- A block whose parent is none of the sample blocks. -/
def strayBlock : MsgBlock := block 4 8 0 []
/-- The child of the block whose parent is unknown. -/
def strayChild : MsgBlock := block 5 9 (hcd.hashOf strayBlock) []

/-- A stake node: its height and the tickets live at it. -/
structure LiveNode where
  height : Nat
  live : List Hash
deriving DecidableEq, Repr

/-- The persisted state: the best block, and the nodes up to it, last first. -/
structure LiveStore where
  best : Hash × Nat
  saved : List LiveNode
deriving DecidableEq, Repr

/-- Connecting removes the spent and revoked tickets, which must be live, and
adds the maturing ones; disconnecting returns to the saved parent. -/
def stakeApi : StakeApi where
  Node := LiveNode
  Store := LiveStore
  Undo := Unit
  height := LiveNode.height
  poolSize node := node.live.length
  liveTickets := LiveNode.live
  undoData _ := ()
  connectNode node _ spent revoked maturing :=
    if (spent ++ revoked).all (node.live.contains ·) then
      .ok ⟨node.height + 1, node.live.filter (fun hash => !(spent ++ revoked).contains hash) ++ maturing⟩
    else .error "missing ticket"
  disconnectNode node _ store :=
    match store.saved with
    | _ :: parent :: _ => if parent.height + 1 = node.height then .ok parent else .error "no parent"
    | _ => .error "no parent"
  chainState store := some store.best
  writeConnectedBestNode store node hash := ⟨(hash, node.height), node :: store.saved⟩
  writeDisconnectedBestNode store node hash _ := ⟨(hash, node.height), store.saved.tail⟩

/-- The sample stake node keeps what hcd documents of heights. -/
theorem stakeApi_documented : stakeApi.Documented where
  connect_height := by
    intro node header spent revoked maturing after connected
    simp only [stakeApi] at connected
    split at connected
    · exact (Except.ok.inj connected) ▸ rfl
    · cases connected
  disconnect_height := by
    intro node header store before disconnected
    simp only [stakeApi] at disconnected
    split at disconnected
    · split at disconnected
      · rename_i consistent
        exact (Except.ok.inj disconnected) ▸ consistent
      · cases disconnected
    · cases disconnected

/-- A server that knows some blocks, the main chain among them in order. -/
def client (main known : List MsgBlock) : NodeClient where
  getBlockHash ind := match main[ind.toNat]? with
    | some found => .ok (hcd.hashOf found)
    | none => .error "block number out of range"
  getBlock hash := match known.find? (fun found => hcd.hashOf found == hash) with
    | some found => .ok found
    | none => .error "block not found"
  getBlockHeader hash := match known.find? (fun found => hcd.hashOf found == hash) with
    | some found => .ok found.header
    | none => .error "block not found"
  getRawTransaction hash :=
    match (known.flatMap MsgBlock.sTransactions).find? (fun tx => hcd.txHash tx == hash) with
    | some found => .ok found
    | none => .error "no such transaction"

/-- When their hashes are distinct, the server returns each block by its hash. -/
theorem client_getBlock {main known : List MsgBlock} (distinct : (known.map hcd.hashOf).Nodup)
    {wanted : MsgBlock} (isKnown : wanted ∈ known) :
    (client main known).getBlock (hcd.hashOf wanted) = .ok wanted := by
  have found : known.find? (fun found => hcd.hashOf found == hcd.hashOf wanted) = some wanted := by
    induction known with
    | nil => cases isKnown
    | cons first rest inductionHypothesis =>
      rw [List.map_cons, List.nodup_cons] at distinct
      rw [List.find?_cons]
      rcases List.mem_cons.mp isKnown with rfl | later
      · simp
      · have other : hcd.hashOf first ≠ hcd.hashOf wanted := fun same =>
          distinct.1 (same ▸ List.mem_map_of_mem later)
        rw [beq_eq_false_iff_ne.mpr other]
        exact inductionHypothesis distinct.2 later
  simp only [client, found]

/-- Answers without a failure, of a node with a main chain and some known blocks. -/
def environment (main known : List MsgBlock) : Environment := ⟨client main known, none, none, none⟩

/-- A freshly created stake database, at the genesis block. -/
def opened : StakeDatabase stakeApi where
  nodeMtx := false
  stakeDB := ⟨(hcd.hashOf genesis, 0), [⟨0, []⟩]⟩
  bestNode := some (⟨0, []⟩ : LiveNode)
  blockCache := fun _ => none
  liveTicketCache := fun _ => none
  poolInfo := fun _ => none

end Hcexplorer.Sample

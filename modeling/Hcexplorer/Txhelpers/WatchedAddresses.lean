import Hcexplorer.Library.Recorded
import Hcexplorer.Wire

/-!
# Transactions of watched addresses

`BlockReceivesToAddresses` and `BlockConsumesOutpointWithAddresses` of
`txhelpers/txhelpers.go` map the watched addresses that a block pays to, or spends from, to
transactions. The second asks a getter for the transaction of every previous outpoint, and is
meant to list the transactions of the block that spend. It checks every output of the previous
transaction, not that of the outpoint, and lists the previous transaction itself.

The getter and the script decoder are arbitrary. The decoder returns the encoded addresses.
-/

namespace Hcexplorer.Txhelpers

open Recorded

section Model

/-- `TxAction`, the kind of an action that an address is watched for. -/
abbrev TxAction := Int32

/-- `RawTransactionGetter`, the node's answer for the hash of a transaction. -/
abbrev RawTransactionGetter := Hash → Except String MsgTx

/-- `txscript.ExtractPkScriptAddrs`, with its addresses encoded as texts. -/
abbrev ExtractPkScriptAddrs := UInt16 → List UInt8 → Except String (List String)

variable (extractPkScriptAddrs : ExtractPkScriptAddrs) (addrs : String → Option TxAction)

/-- The loop over the addresses of an output: a transaction is listed for those that are
watched. -/
def checkTxOut (tx : MsgTx) (addrMap : String → Option (List MsgTx)) (txOut : TxOut) :
    String → Option (List MsgTx) :=
  match extractPkScriptAddrs txOut.version txOut.pkScript with
  | .error _ => addrMap
  | .ok txAddrs =>
    txAddrs.foldl (fun addrMap addrstr =>
      if (addrs addrstr).isSome then append addrstr tx addrMap else addrMap) addrMap

/-- `checkForAddrOut`, over all outputs of the transactions of a tree. -/
def checkForAddrOut (addrMap : String → Option (List MsgTx)) (blockTxs : List MsgTx) :
    String → Option (List MsgTx) :=
  blockTxs.foldl (fun addrMap tx =>
    tx.txOut.foldl (checkTxOut extractPkScriptAddrs addrs tx) addrMap) addrMap

/-- `BlockReceivesToAddresses`, over the regular tree and then the stake tree. -/
def blockReceivesToAddresses (block : MsgBlock) : String → Option (List MsgTx) :=
  checkForAddrOut extractPkScriptAddrs addrs
    (checkForAddrOut extractPkScriptAddrs addrs (fun _ => none) block.transactions) block.sTransactions

variable (c : RawTransactionGetter)

/-- The check of one input, which goes over all outputs of the funding transaction and lists that
transaction. -/
def checkTxIn (addrMap : String → Option (List MsgTx)) (txIn : TxIn) : String → Option (List MsgTx) :=
  match c txIn.previousOutPoint.hash with
  | .error _ => addrMap
  -- "prevOut.Index should tell us which one, but check all anyway"
  | .ok prevTx => prevTx.txOut.foldl (checkTxOut extractPkScriptAddrs addrs prevTx) addrMap

/-- `checkForOutpointAddr`, over all inputs of the transactions of a tree. -/
def checkForOutpointAddr (addrMap : String → Option (List MsgTx)) (blockTxs : List MsgTx) :
    String → Option (List MsgTx) :=
  blockTxs.foldl (fun addrMap tx =>
    tx.txIn.foldl (checkTxIn extractPkScriptAddrs addrs c) addrMap) addrMap

/-- `BlockConsumesOutpointWithAddresses`, over the regular tree and then the stake tree. -/
def blockConsumesOutpointWithAddresses (block : MsgBlock) : String → Option (List MsgTx) :=
  checkForOutpointAddr extractPkScriptAddrs addrs c
    (checkForOutpointAddr extractPkScriptAddrs addrs c (fun _ => none) block.transactions)
    block.sTransactions

/-- `OutPointAddresses`, the addresses of the output itself, with an error where it cannot be
had. -/
def outPointAddresses (string : Hash → String) (outPoint : OutPoint) : Except String (List String) :=
  match c outPoint.hash with
  | .error _ => .error ("unable to get raw transaction for " ++ string outPoint.hash)
  | .ok prevTx =>
    match prevTx.txOut[outPoint.index.toNat]? with
    | none => .error ("PrevOut index (" ++ toString outPoint.index ++
        ") is beyond the TxOuts slice (length " ++ toString prevTx.txOut.length ++ ")")
    | some txOut =>
      match extractPkScriptAddrs txOut.version txOut.pkScript with
      | .error err => .error ("ExtractPkScriptAddrs: " ++ err)
      | .ok txAddrs => .ok txAddrs

end Model

section Pairs

variable (extractPkScriptAddrs : ExtractPkScriptAddrs) (addrs : String → Option TxAction)
  (c : RawTransactionGetter)

/-- The addresses that an output pays to, none where its script cannot be read. -/
def paysTo (txOut : TxOut) : List String :=
  match extractPkScriptAddrs txOut.version txOut.pkScript with
  | .error _ => []
  | .ok txAddrs => txAddrs

/-- What the check of an output lists: its transaction, for each watched address that it pays to. -/
def outPairs (tx : MsgTx) (txOut : TxOut) : List (String × MsgTx) :=
  ((paysTo extractPkScriptAddrs txOut).filter fun addrstr => (addrs addrstr).isSome).map (·, tx)

/-- What the check of an input lists: the funding transaction, for each watched address that any
of its outputs pays to. -/
def inPairs (txIn : TxIn) : List (String × MsgTx) :=
  match c txIn.previousOutPoint.hash with
  | .error _ => []
  | .ok prevTx => prevTx.txOut.flatMap (outPairs extractPkScriptAddrs addrs prevTx)

variable {extractPkScriptAddrs addrs c}

/-- Listing the watched addresses one after another is listing the watched ones among all. -/
theorem flatMap_watched (tx : MsgTx) (txAddrs : List String) :
    (txAddrs.flatMap fun addrstr => if (addrs addrstr).isSome then [(addrstr, tx)] else []) =
      (txAddrs.filter fun addrstr => (addrs addrstr).isSome).map (·, tx) := by
  induction txAddrs with
  | nil => rfl
  | cons addrstr rest inductionHypothesis =>
    rw [List.flatMap_cons, List.filter_cons, inductionHypothesis]
    by_cases watched : (addrs addrstr).isSome = true <;> simp [watched]

/-- The check of an output records its pairs behind those that were recorded before. -/
theorem checkTxOut_recorded (tx : MsgTx) (pairs : List (String × MsgTx)) (txOut : TxOut) :
    checkTxOut extractPkScriptAddrs addrs tx (recorded pairs) txOut =
      recorded (pairs ++ outPairs extractPkScriptAddrs addrs tx txOut) := by
  cases extracted : extractPkScriptAddrs txOut.version txOut.pkScript with
  | error err => simp only [checkTxOut, outPairs, paysTo, extracted, List.filter_nil, List.map_nil,
      List.append_nil]
  | ok txAddrs =>
    simp only [checkTxOut, outPairs, paysTo, extracted, ← flatMap_watched]
    refine foldl_recorded (fun pairs addrstr => ?_) txAddrs pairs
    by_cases watched : (addrs addrstr).isSome = true
    · rw [if_pos watched, if_pos watched, append_recorded]
    · rw [if_neg watched, if_neg watched, List.append_nil]

/-- The check of an input records its pairs behind those that were recorded before. -/
theorem checkTxIn_recorded (pairs : List (String × MsgTx)) (txIn : TxIn) :
    checkTxIn extractPkScriptAddrs addrs c (recorded pairs) txIn =
      recorded (pairs ++ inPairs extractPkScriptAddrs addrs c txIn) := by
  cases answered : c txIn.previousOutPoint.hash with
  | error err => simp only [checkTxIn, inPairs, answered, List.append_nil]
  | ok prevTx =>
    simp only [checkTxIn, inPairs, answered]
    exact foldl_recorded (checkTxOut_recorded prevTx) prevTx.txOut pairs

/-- An output is listed for the watched addresses that it pays to. -/
theorem mem_outPairs {addrstr : String} {tx listed : MsgTx} {txOut : TxOut} :
    (addrstr, listed) ∈ outPairs extractPkScriptAddrs addrs tx txOut ↔
      listed = tx ∧ addrstr ∈ paysTo extractPkScriptAddrs txOut ∧ (addrs addrstr).isSome = true := by
  simp only [outPairs, List.mem_map, List.mem_filter, Prod.mk.injEq]
  constructor
  · rintro ⟨other, pays, rfl, rfl⟩
    exact ⟨rfl, pays⟩
  · rintro ⟨rfl, pays⟩
    exact ⟨addrstr, pays, rfl, rfl⟩

/-- The payments of a block to watched addresses, in its order. -/
theorem blockReceivesToAddresses_recorded (block : MsgBlock) :
    blockReceivesToAddresses extractPkScriptAddrs addrs block =
      recorded ((block.transactions ++ block.sTransactions).flatMap fun tx =>
        tx.txOut.flatMap (outPairs extractPkScriptAddrs addrs tx)) := by
  have tree : ∀ pairs blockTxs, checkForAddrOut extractPkScriptAddrs addrs (recorded pairs) blockTxs =
      recorded (pairs ++ blockTxs.flatMap fun tx =>
        tx.txOut.flatMap (outPairs extractPkScriptAddrs addrs tx)) := fun pairs blockTxs =>
    foldl_recorded (fun pairs tx => foldl_recorded (checkTxOut_recorded tx) tx.txOut pairs) blockTxs pairs
  rw [blockReceivesToAddresses, ← recorded_nil, tree, tree, List.nil_append, List.flatMap_append]

/-- The outputs of the previous transactions of a block that pay to watched addresses. -/
theorem blockConsumesOutpointWithAddresses_recorded (block : MsgBlock) :
    blockConsumesOutpointWithAddresses extractPkScriptAddrs addrs c block =
      recorded ((block.transactions ++ block.sTransactions).flatMap fun tx =>
        tx.txIn.flatMap (inPairs extractPkScriptAddrs addrs c)) := by
  have tree : ∀ pairs blockTxs, checkForOutpointAddr extractPkScriptAddrs addrs c (recorded pairs) blockTxs =
      recorded (pairs ++ blockTxs.flatMap fun tx =>
        tx.txIn.flatMap (inPairs extractPkScriptAddrs addrs c)) := fun pairs blockTxs =>
    foldl_recorded (fun pairs tx => foldl_recorded checkTxIn_recorded tx.txIn pairs) blockTxs pairs
  rw [blockConsumesOutpointWithAddresses, ← recorded_nil, tree, tree, List.nil_append,
    List.flatMap_append]

end Pairs

section Law

variable (extractPkScriptAddrs : ExtractPkScriptAddrs) (addrs : String → Option TxAction)
  (c : RawTransactionGetter)

/-- One of the outputs of the transaction pays to the address. -/
def Pays (addrstr : String) (tx : MsgTx) : Prop :=
  ∃ txOut ∈ tx.txOut, addrstr ∈ paysTo extractPkScriptAddrs txOut

/-- An input of the transaction spends, by hash and index, an output that pays to the
address. -/
def Spends (addrstr : String) (tx : MsgTx) : Prop :=
  ∃ txIn ∈ tx.txIn, ∃ prevTx, c txIn.previousOutPoint.hash = .ok prevTx ∧
    ∃ txOut, prevTx.txOut[txIn.previousOutPoint.index.toNat]? = some txOut ∧
      addrstr ∈ paysTo extractPkScriptAddrs txOut

/-- The map has the watched addresses that a transaction of the block involves, each with
exactly these transactions. -/
structure Lists (block : MsgBlock) (involves : String → MsgTx → Prop)
    (addrMap : String → Option (List MsgTx)) : Prop where
  mapped : ∀ addrstr, (addrMap addrstr).isSome = true ↔ (addrs addrstr).isSome = true ∧
    ∃ tx ∈ block.transactions ++ block.sTransactions, involves addrstr tx
  listed : ∀ addrstr txs, addrMap addrstr = some txs → ∀ tx, tx ∈ txs ↔
    tx ∈ block.transactions ++ block.sTransactions ∧ involves addrstr tx

/-- No transaction that the getter returns for an input of the block has an output that pays to
a watched address. -/
def NoneWatched (block : MsgBlock) : Prop :=
  ∀ tx ∈ block.transactions ++ block.sTransactions, ∀ txIn ∈ tx.txIn, ∀ prevTx,
    c txIn.previousOutPoint.hash = .ok prevTx → ∀ addrstr, Pays extractPkScriptAddrs addrstr prevTx →
      addrs addrstr = none

/-- The getter answers a hash by the transaction that has it, so that no transaction spends,
through others, its own outputs. -/
def Grounded : Prop :=
  ∃ rank : MsgTx → Nat, ∀ tx, ∀ txIn ∈ tx.txIn, ∀ prevTx,
    c txIn.previousOutPoint.hash = .ok prevTx → rank prevTx < rank tx

variable {extractPkScriptAddrs addrs c}

/-- The map of the pairs of watched addresses and the transactions that involve them. -/
theorem lists_recorded {block : MsgBlock} {involves : String → MsgTx → Prop}
    {pairs : List (String × MsgTx)}
    (exact_ : ∀ addrstr tx, (addrstr, tx) ∈ pairs ↔ (addrs addrstr).isSome = true ∧
      tx ∈ block.transactions ++ block.sTransactions ∧ involves addrstr tx) :
    Lists addrs block involves (recorded pairs) := by
  refine ⟨fun addrstr => ?_, fun addrstr txs found tx => ?_⟩
  · rw [recorded_isSome]
    constructor
    · rintro ⟨tx, member⟩
      obtain ⟨watched, isTx, involved⟩ := (exact_ addrstr tx).mp member
      exact ⟨watched, tx, isTx, involved⟩
    · rintro ⟨watched, tx, isTx, involved⟩
      exact ⟨tx, (exact_ addrstr tx).mpr ⟨watched, isTx, involved⟩⟩
  · obtain ⟨other, member⟩ := recorded_isSome.mp (Option.isSome_of_mem found)
    obtain ⟨watched, -⟩ := (exact_ addrstr other).mp member
    rw [mem_of_recorded found, exact_]
    exact ⟨And.right, fun both => ⟨watched, both⟩⟩

/-- The payments to watched addresses are listed as they should be. -/
theorem blockReceivesToAddresses_lists (block : MsgBlock) :
    Lists addrs block (Pays extractPkScriptAddrs)
      (blockReceivesToAddresses extractPkScriptAddrs addrs block) := by
  rw [blockReceivesToAddresses_recorded]
  refine lists_recorded fun addrstr tx => ?_
  simp only [List.mem_flatMap, mem_outPairs]
  constructor
  · rintro ⟨_, isTx, txOut, isOut, rfl, pays, watched⟩
    exact ⟨watched, isTx, txOut, isOut, pays⟩
  · rintro ⟨watched, isTx, txOut, isOut, pays⟩
    exact ⟨tx, isTx, txOut, isOut, rfl, pays, watched⟩

/-- What is listed of the inputs of a block: the previous transactions that pay to watched
addresses. -/
theorem mem_previous {block : MsgBlock} {addrstr : String} {listed : MsgTx} :
    (addrstr, listed) ∈ (block.transactions ++ block.sTransactions).flatMap (fun tx =>
        tx.txIn.flatMap (inPairs extractPkScriptAddrs addrs c)) ↔
      (addrs addrstr).isSome = true ∧ ∃ tx ∈ block.transactions ++ block.sTransactions,
        ∃ txIn ∈ tx.txIn, c txIn.previousOutPoint.hash = .ok listed ∧
          Pays extractPkScriptAddrs addrstr listed := by
  simp only [List.mem_flatMap]
  constructor
  · rintro ⟨tx, isTx, txIn, isIn, member⟩
    cases answered : c txIn.previousOutPoint.hash with
    | error err =>
      rw [inPairs, answered] at member
      cases member
    | ok prevTx =>
      simp only [inPairs, answered, List.mem_flatMap, mem_outPairs] at member
      obtain ⟨txOut, isOut, rfl, pays, watched⟩ := member
      exact ⟨watched, tx, isTx, txIn, isIn, answered, txOut, isOut, pays⟩
  · rintro ⟨watched, tx, isTx, txIn, isIn, answered, txOut, isOut, pays⟩
    refine ⟨tx, isTx, txIn, isIn, ?_⟩
    simp only [inPairs, answered, List.mem_flatMap, mem_outPairs]
    exact ⟨txOut, isOut, trivial, pays, watched⟩

/-- Who spends an output that pays to an address has a previous transaction that pays to it. -/
theorem Spends.pays {addrstr : String} {tx : MsgTx} (spends : Spends extractPkScriptAddrs c addrstr tx) :
    ∃ txIn ∈ tx.txIn, ∃ prevTx, c txIn.previousOutPoint.hash = .ok prevTx ∧
      Pays extractPkScriptAddrs addrstr prevTx := by
  obtain ⟨txIn, isIn, prevTx, answered, txOut, found, pays⟩ := spends
  exact ⟨txIn, isIn, prevTx, answered, txOut, List.mem_of_getElem? found, pays⟩

/-- Where no previous transaction pays to a watched address, there is nothing to list. -/
theorem lists_of_noneWatched {block : MsgBlock}
    (none_ : NoneWatched extractPkScriptAddrs addrs c block) :
    Lists addrs block (Spends extractPkScriptAddrs c)
      (blockConsumesOutpointWithAddresses extractPkScriptAddrs addrs c block) := by
  rw [blockConsumesOutpointWithAddresses_recorded]
  refine lists_recorded fun addrstr listed => iff_of_false (fun member => ?_) ?_
  · obtain ⟨watched, tx, isTx, txIn, isIn, answered, pays⟩ := mem_previous.mp member
    rw [none_ tx isTx txIn isIn listed answered addrstr pays] at watched
    cases watched
  · rintro ⟨watched, isTx, spends⟩
    obtain ⟨txIn, isIn, prevTx, answered, pays⟩ := spends.pays
    rw [none_ listed isTx txIn isIn prevTx answered addrstr pays] at watched
    cases watched

/-- Where the lists are right, a previous transaction that pays to a watched address is of the
block and spends from it too, hence has such a previous transaction itself. -/
theorem noneWatched_of_lists {block : MsgBlock} (grounded : Grounded c)
    (lists : Lists addrs block (Spends extractPkScriptAddrs c)
      (blockConsumesOutpointWithAddresses extractPkScriptAddrs addrs c block)) :
    NoneWatched extractPkScriptAddrs addrs c block := by
  obtain ⟨rank, descends⟩ := grounded
  rw [blockConsumesOutpointWithAddresses_recorded] at lists
  intro tx isTx
  -- on the rank of the transaction whose input it is
  induction isRank : rank tx using Nat.strong_induction_on generalizing tx with
  | _ number inductionHypothesis =>
    intro txIn isIn prevTx answered addrstr pays
    by_contra watched
    have isWatched := Option.isSome_iff_ne_none.mpr watched
    have member := mem_previous.mpr ⟨isWatched, tx, isTx, txIn, isIn, answered, pays⟩
    obtain ⟨txs, found⟩ := Option.isSome_iff_exists.mp (recorded_isSome.mpr ⟨prevTx, member⟩)
    obtain ⟨isToo, spends⟩ := (lists.listed addrstr txs found prevTx).mp ((mem_of_recorded found).mpr member)
    obtain ⟨txIn', isIn', earlier, answered', pays'⟩ := spends.pays
    have below : rank prevTx < number := isRank ▸ descends tx txIn isIn prevTx answered
    exact watched (inductionHypothesis (rank prevTx) below prevTx isToo rfl txIn' isIn' earlier answered'
      addrstr pays')

/-- The map lists the watched addresses with the transactions that spend from them when no
previous transaction pays to a watched address; and only then, where no transaction spends its
own outputs. -/
theorem blockConsumesOutpointWithAddresses_iff (extractPkScriptAddrs : ExtractPkScriptAddrs)
    (addrs : String → Option TxAction) (c : RawTransactionGetter) (block : MsgBlock) :
    (NoneWatched extractPkScriptAddrs addrs c block →
      Lists addrs block (Spends extractPkScriptAddrs c)
        (blockConsumesOutpointWithAddresses extractPkScriptAddrs addrs c block)) ∧
    (Grounded c →
      (Lists addrs block (Spends extractPkScriptAddrs c)
          (blockConsumesOutpointWithAddresses extractPkScriptAddrs addrs c block) ↔
        NoneWatched extractPkScriptAddrs addrs c block)) :=
  ⟨lists_of_noneWatched, fun grounded => ⟨noneWatched_of_lists grounded, lists_of_noneWatched⟩⟩

/-- A script stands for the addresses that its bytes name, one for each byte. -/
def byteScript : ExtractPkScriptAddrs := fun _ pkScript => .ok (pkScript.map fun byte => toString byte)

/-- A transaction with two outputs, each of which pays to an address of its own. -/
def funding : MsgTx := ⟨1, [], [⟨100, 0, [1]⟩, ⟨50, 0, [2]⟩], 0, 0⟩

/-- A transaction that spends the first output of the funding one. -/
def spending : MsgTx := ⟨1, [⟨⟨7, 0, 0⟩, 0, 100, 0, 0, []⟩], [], 0, 0⟩

/-- A block with the spending transaction. -/
def spendingBlock : MsgBlock :=
  ⟨⟨1, 0, 0, 0, 1, [], 5, 0, 0, 0, 0, 0, 1, 1000, 0, 0, [], 1⟩, [spending], []⟩

/-- The getter that knows the funding transaction and no other. -/
def knowsFunding : RawTransactionGetter := fun hash =>
  if hash = 7 then .ok funding else .error "No information available about transaction"

/-- Both addresses are listed, the second though the block does not spend from it, and with the
previous transaction, which is not of the block. -/
theorem blockConsumesOutpointWithAddresses_spendingBlock :
    blockConsumesOutpointWithAddresses byteScript (fun _ => some 1) knowsFunding spendingBlock "1" =
        some [funding] ∧
      blockConsumesOutpointWithAddresses byteScript (fun _ => some 1) knowsFunding spendingBlock "2" =
        some [funding] ∧
      Spends byteScript knowsFunding "1" spending ∧ Grounded knowsFunding ∧
      ¬Lists (fun _ => some 1) spendingBlock (Spends byteScript knowsFunding)
        (blockConsumesOutpointWithAddresses byteScript (fun _ => some 1) knowsFunding spendingBlock) := by
  have listed : blockConsumesOutpointWithAddresses byteScript (fun _ => some 1) knowsFunding
      spendingBlock "1" = some [funding] := by decide
  refine ⟨listed, by decide, ?_, ?_, fun lists => ?_⟩
  · exact ⟨_, List.mem_cons_self, funding, rfl, _, rfl, by decide⟩
  · refine ⟨fun tx => tx.txIn.length, fun tx txIn isIn prevTx answered => ?_⟩
    have isFunding : prevTx = funding := by
      rw [knowsFunding] at answered
      split_ifs at answered
      exact (Except.ok.inj answered).symm
    rw [isFunding]
    exact List.length_pos_of_mem isIn
  · obtain ⟨isOfBlock, -⟩ := (lists.listed "1" [funding] listed funding).mp List.mem_cons_self
    exact absurd isOfBlock (by decide)

end Law

end Hcexplorer.Txhelpers

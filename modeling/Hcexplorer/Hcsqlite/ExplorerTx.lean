import Hcexplorer.Txhelpers.WatchedAddresses
import Hcexplorer.Txhelpers.VoteChoices
import Hcexplorer.Sample
import Mathlib.Data.Rat.Defs
import Mathlib.Data.List.Infix

/-!
# The transaction of the explorer's page

`wiredDB.GetExplorerTx` assembles a transaction for the explorer: it asks the node for the
transaction, for the previous transaction of each input, and for each output whether it is
unspent. An input whose previous transaction cannot be had is left out, and the first of the
inputs that are left is looked at without a check that there is one.

Each call may fail by itself, so what the node answers about an input or an output depends on
its position. The decoding of hashes and transactions, and the rules of hcd about votes and
tickets, are parameters; a transaction has a positive size. Amounts of the node are exact
rationals. The formatted texts and the total are left out.
-/

namespace Hcexplorer.Hcsqlite

open Txhelpers

section Model

/-- `hcjson.Vin`, the fields of an input that the explorer reads. -/
structure Vin where
  coinbase : String
  stakebase : String
  txid : String
  vout : UInt32
  amountIn : ℚ
  blockHeight : UInt32
deriving DecidableEq, Repr

/-- `IsCoinBase`, which holds of an input with a coinbase text. -/
def Vin.isCoinBase (vin : Vin) : Bool := vin.coinbase ≠ ""

/-- `IsStakeBase`, which holds of an input with a stakebase text. -/
def Vin.isStakeBase (vin : Vin) : Bool := vin.stakebase ≠ ""

/-- `hcjson.Vout`, with the fields of its `ScriptPubKey` that the explorer reads. -/
structure Vout where
  value : ℚ
  asm : String
  type : String
  addresses : List String
deriving DecidableEq, Repr

/-- `hcjson.TxRawResult`, the node's answer for a transaction. -/
structure TxRawResult where
  hex : String
  txid : String
  vin : List Vin
  vout : List Vout
  blockHeight : Int64
  blockIndex : UInt32
  confirmations : Int64
  time : Int64
deriving DecidableEq, Repr

/-- `explorer.VoteInfo`, with the fields of its `BlockValidation` beside it. -/
structure VoteInfo where
  hash : String
  height : Int64
  validity : Bool
  version : UInt32
  bits : UInt16
  choices : List VoteChoice
deriving DecidableEq, Repr

/-- `explorer.TxBasic`, with the vote only where the transaction is one. -/
structure TxBasic where
  txID : String
  fee : Int64
  feeRate : Int64
  voteInfo : Option VoteInfo
  coinbase : Bool
deriving DecidableEq, Repr

/-- `explorer.Vin`, an input with the addresses of the output that it spends. -/
structure ExplorerVin where
  vin : Vin
  addresses : List String
deriving DecidableEq, Repr

/-- `explorer.Vout`, an output as the page shows it. -/
structure ExplorerVout where
  addresses : List String
  amount : ℚ
  type : String
  spent : Bool
  opReturn : String
deriving DecidableEq, Repr

/-- `explorer.TxInID`, the hash and the index of a spending input. -/
structure TxInID where
  hash : String
  index : UInt32
deriving DecidableEq, Repr

/-- `explorer.TxInfo`, all that the page of a transaction shows. -/
structure TxInfo where
  txBasic : TxBasic
  spendingTxns : List TxInID
  type : String
  vin : List ExplorerVin
  vout : List ExplorerVout
  blockHeight : Int64
  blockIndex : UInt32
  confirmations : Int64
  time : Int64
  mature : String
  voteFundsLocked : String
  ticketMaturity : Int64
deriving DecidableEq, Repr

/-- The packages of hcd, and the parameters of its chain. -/
structure Packages extends Hcutil, Chainhash where
  votes : Votes
  deployments : UInt32 → List ConsensusDeployment
  /-- `hex.DecodeString`, then `FromBytes`. -/
  decode : String → Option MsgTx
  determineTxType : MsgTx → TxType
  serializeSize : MsgTx → Int64
  serializeSize_pos : ∀ msgTx, 0 < serializeSize msgTx
  extractPkScriptAddrs : ExtractPkScriptAddrs
  ticketMaturity : Int64
  coinbaseMaturity : Int64

/-- What the node answers while one transaction is assembled: the transaction, the previous
transaction for the input at a position, whether the output at a position is unspent, and the
height of the best block. -/
structure NodeAnswers where
  getRawTransactionVerbose : Hash → Except String TxRawResult
  getRawTransaction : Nat → RawTransactionGetter
  getTxOut : Nat → Except String Bool
  getBestBlockHeight : Int64

variable (packages : Packages) (answers : NodeAnswers)

/-- `MsgTxFromHex`, none where the text cannot be decoded. -/
def msgTxFromHex (txhex : String) : Option MsgTx := packages.decode txhex

/-- `DetermineTxTypeString`, the name of the type that the stake package determines. -/
def determineTxTypeString (msgTx : MsgTx) : String :=
  match packages.determineTxType msgTx with
  | .ssgen => "Vote"
  | .sstx => "Ticket"
  | .ssrtx => "Revocation"
  | .regular => "Regular"

/-- `TxFeeRate`, which divides by the size and so panics for a size of zero. -/
def txFeeRate (msgTx : MsgTx) : Outcome (Int64 × Int64) :=
  let amtIn := (msgTx.txIn.map TxIn.valueIn).foldl (· + ·) 0
  let amtOut := (msgTx.txOut.map TxOut.value).foldl (· + ·) 0
  let size := packages.serializeSize msgTx
  if size = 0 then .panicked else .returned (amtIn - amtOut, 1000 * (amtIn - amtOut) / size)

/-- `makeExplorerTxBasic`, which panics where the transaction is a vote whose choices cannot be
told. -/
def makeExplorerTxBasic (data : TxRawResult) (msgTx : MsgTx) : Outcome TxBasic :=
  (txFeeRate packages msgTx).bind fun (fee, feeRate) =>
    let tx : TxBasic := ⟨data.txid, fee, feeRate, none, data.vin.any Vin.isCoinBase⟩
    if packages.votes.isSSGen msgTx then
      (ssgenVoteChoices packages.votes packages.deployments msgTx).bind fun result =>
        match result with
        | .error _ => .returned tx
        | .ok (validation, version, bits, choices) =>
          .returned { tx with
            voteInfo := some ⟨packages.string validation.hash, validation.height, validation.validity,
              version, bits, choices⟩ }
    else .returned tx

/-- The addresses of an input are looked up unless it is a coinbase, or a stakebase that comes
first. -/
def Vin.needsLookup (vin : Vin) (i : Nat) : Bool :=
  !(vin.isCoinBase || (vin.isStakeBase && i == 0))

/-- The loop over the inputs from the one at an index on. -/
def makeInputs (msgTx : MsgTx) : Nat → List Vin → Outcome (List ExplorerVin)
  | _, [] => .returned []
  | i, vin :: rest =>
    if vin.needsLookup i then
      (indexed msgTx.txIn i).bind fun txIn =>
        match outPointAddresses packages.extractPkScriptAddrs (answers.getRawTransaction i)
            packages.string txIn.previousOutPoint with
        | .error _ => makeInputs msgTx (i + 1) rest
        | .ok addrs => (makeInputs msgTx (i + 1) rest).bind fun inputs => .returned (⟨vin, addrs⟩ :: inputs)
    else (makeInputs msgTx (i + 1) rest).bind fun inputs => .returned (⟨vin, []⟩ :: inputs)

/-- The output at an index; the node is asked whether it is spent, and an error counts as spent. -/
def makeOutput (vout : Vout) (i : Nat) : ExplorerVout where
  addresses := vout.addresses
  amount := vout.value
  type := vout.type
  spent := match answers.getTxOut i with
    | .error _ => true
    | .ok unspent => !unspent
  opReturn := if "OP_RETURN".toList <:+: vout.asm.toList then vout.asm else ""

/-- `Mature` and `TicketMaturity`, by the height of the block and the type of the transaction. -/
def maturity (type : String) (blockHeight : Int64) (vin : List ExplorerVin) : Outcome (String × Int64) :=
  let judge : String × Int64 :=
    if packages.ticketMaturity + blockHeight ≤ answers.getBestBlockHeight then ("True", 0)
    else ("False", packages.ticketMaturity)
  if type = "Vote" ∨ type = "Ticket" then .returned judge
  else (indexed vin 0).bind fun first => .returned (if first.vin.isCoinBase then judge else ("", 0))

/-- `VoteFundsLocked`, a text for votes and empty for other transactions. -/
def voteFundsLocked (type : String) (confirmations : Int64) : String :=
  if type = "Vote" then if confirmations < packages.coinbaseMaturity then "True" else "False" else ""

/-- `GetExplorerTx`: nil for a text that is no hash, an unknown or an undecodable transaction;
else the page, or a panic. -/
def getExplorerTx (txid : String) : Outcome (Option TxInfo) :=
  match packages.newHashFromStr txid with
  | none => .returned none
  | some txhash =>
    match answers.getRawTransactionVerbose txhash with
    | .error _ => .returned none
    | .ok txraw =>
      match msgTxFromHex packages txraw.hex with
      | none => .returned none
      | some msgTx =>
        (makeExplorerTxBasic packages txraw msgTx).bind fun txBasic =>
          let type := determineTxTypeString packages msgTx
          (makeInputs packages answers msgTx 0 txraw.vin).bind fun inputs =>
            (maturity packages answers type txraw.blockHeight inputs).bind fun (mature, ticketMaturity) =>
              let outputs := txraw.vout.zipIdx.map fun (vout, i) => makeOutput answers vout i
              .returned (some {
                txBasic := txBasic
                spendingTxns := List.replicate outputs.length ⟨"", 0⟩
                type := type
                vin := inputs
                vout := outputs
                blockHeight := txraw.blockHeight
                blockIndex := txraw.blockIndex
                confirmations := txraw.confirmations
                time := txraw.time
                mature := mature
                voteFundsLocked := voteFundsLocked packages type txraw.confirmations
                ticketMaturity := ticketMaturity })

end Model

section Inputs

variable (packages : Packages) (answers : NodeAnswers) (msgTx : MsgTx)

/-- The previous transaction of an input is had, if it is asked for. -/
def Located (entry : Vin × Nat) : Prop :=
  entry.1.needsLookup entry.2 = true → ∃ txIn addrs, msgTx.txIn[entry.2]? = some txIn ∧
    outPointAddresses packages.extractPkScriptAddrs (answers.getRawTransaction entry.2)
      packages.string txIn.previousOutPoint = .ok addrs

variable {packages answers msgTx}

/-- When all are had, the loop returns one entry for each input. -/
theorem makeInputs_returned {i : Nat} {vins : List Vin}
    (located : ∀ entry ∈ vins.zipIdx i, Located packages answers msgTx entry) :
    ∃ inputs, makeInputs packages answers msgTx i vins = .returned inputs ∧
      inputs.map ExplorerVin.vin = vins := by
  induction vins generalizing i with
  | nil => exact ⟨[], rfl, rfl⟩
  | cons vin rest inductionHypothesis =>
    rw [List.zipIdx_cons, List.forall_mem_cons] at located
    obtain ⟨here, later⟩ := located
    obtain ⟨inputs, returned, same⟩ := inductionHypothesis later
    by_cases needed : vin.needsLookup i = true
    · obtain ⟨txIn, addrs, found, looked⟩ := here needed
      refine ⟨⟨vin, addrs⟩ :: inputs, ?_, by rw [List.map_cons, same]⟩
      simp only [makeInputs, needed, if_true, indexed_returned found, Outcome.bind_returned, looked,
        returned]
    · refine ⟨⟨vin, []⟩ :: inputs, ?_, by rw [List.map_cons, same]⟩
      simp only [makeInputs, needed, Bool.false_eq_true, if_false, returned, Outcome.bind_returned]

/-- A turn of the loop that returns adds an entry for an input that is had, and none for one
that is not. -/
theorem makeInputs_cons {i : Nat} {vin : Vin} {rest : List Vin} {inputs : List ExplorerVin}
    (returned : makeInputs packages answers msgTx i (vin :: rest) = .returned inputs) :
    (Located packages answers msgTx (vin, i) ∧ ∃ entry later,
        makeInputs packages answers msgTx (i + 1) rest = .returned later ∧ inputs = entry :: later) ∨
      (¬Located packages answers msgTx (vin, i) ∧
        makeInputs packages answers msgTx (i + 1) rest = .returned inputs) := by
  by_cases needed : vin.needsLookup i = true
  · simp only [makeInputs, needed, if_true] at returned
    obtain ⟨txIn, index, returned⟩ := Outcome.bind_eq_returned.mp returned
    have found := indexed_eq_returned.mp index
    cases looked : outPointAddresses packages.extractPkScriptAddrs (answers.getRawTransaction i)
      packages.string txIn.previousOutPoint with
    | error err =>
      rw [looked] at returned
      refine Or.inr ⟨fun located => ?_, returned⟩
      obtain ⟨other, addrs, foundToo, lookedToo⟩ := located needed
      obtain rfl := Option.some.inj (found.symm.trans foundToo)
      rw [looked] at lookedToo
      cases lookedToo
    | ok addrs =>
      rw [looked] at returned
      obtain ⟨later, returnedLater, same⟩ := Outcome.bind_eq_returned.mp returned
      exact Or.inl ⟨fun _ => ⟨txIn, addrs, found, looked⟩, _, later, returnedLater,
        (Outcome.returned.inj same).symm⟩
  · simp only [makeInputs, needed, Bool.false_eq_true, if_false] at returned
    obtain ⟨later, returnedLater, same⟩ := Outcome.bind_eq_returned.mp returned
    exact Or.inl ⟨fun isNeeded => absurd isNeeded needed, _, later, returnedLater,
      (Outcome.returned.inj same).symm⟩

/-- The loop over the inputs never returns more entries than there are inputs. -/
theorem makeInputs_length_le {i : Nat} {vins : List Vin} {inputs : List ExplorerVin}
    (returned : makeInputs packages answers msgTx i vins = .returned inputs) :
    inputs.length ≤ vins.length := by
  induction vins generalizing i inputs with
  | nil =>
    obtain rfl := Outcome.returned.inj returned
    exact le_refl _
  | cons vin rest inductionHypothesis =>
    rcases makeInputs_cons returned with ⟨-, entry, later, returnedLater, rfl⟩ | ⟨-, returnedLater⟩
    · exact Nat.succ_le_succ (inductionHypothesis returnedLater)
    · exact Nat.le_succ_of_le (inductionHypothesis returnedLater)

/-- The loop over the inputs returns fewer entries than there are inputs when one of them is not
had. -/
theorem makeInputs_length_lt {i : Nat} {vins : List Vin} {inputs : List ExplorerVin}
    (notLocated : ¬∀ entry ∈ vins.zipIdx i, Located packages answers msgTx entry)
    (returned : makeInputs packages answers msgTx i vins = .returned inputs) :
    inputs.length < vins.length := by
  induction vins generalizing i inputs with
  | nil => exact absurd (fun _ member => absurd member List.not_mem_nil) notLocated
  | cons vin rest inductionHypothesis =>
    rcases makeInputs_cons returned with ⟨here, entry, later, returnedLater, rfl⟩ | ⟨-, returnedLater⟩
    · have notLater : ¬∀ other ∈ rest.zipIdx (i + 1), Located packages answers msgTx other :=
        fun located => notLocated (List.forall_mem_cons.mpr ⟨here, located⟩)
      exact Nat.succ_lt_succ (inductionHypothesis notLater returnedLater)
    · exact Nat.lt_succ_of_le (makeInputs_length_le returnedLater)

end Inputs

section Law

variable (packages : Packages) (answers : NodeAnswers)

/-- If the transaction is a vote, its choices can be told. -/
def TellsVote (msgTx : MsgTx) : Prop :=
  packages.votes.isSSGen msgTx = true → BitsAreChoices packages.votes packages.deployments msgTx

/-- The transaction can be assembled: its vote can be told, the previous transaction of every
input that asks for it is had, and there is an input, unless it is a vote or a ticket. -/
structure Assembles (txraw : TxRawResult) (msgTx : MsgTx) : Prop where
  vote : TellsVote packages msgTx
  inputs : ∀ entry ∈ txraw.vin.zipIdx, Located packages answers msgTx entry
  first : determineTxTypeString packages msgTx = "Vote" ∨
    determineTxTypeString packages msgTx = "Ticket" ∨ txraw.vin ≠ []

/-- The lists of the page have one entry for each input and each output, in order. -/
structure Aligned (txraw : TxRawResult) (info : TxInfo) : Prop where
  vin : info.vin.map ExplorerVin.vin = txraw.vin
  vout : info.vout.map (fun vout => (vout.addresses, vout.amount, vout.type)) =
    txraw.vout.map fun vout => (vout.addresses, vout.value, vout.type)
  spendingTxns : info.spendingTxns.length = txraw.vout.length

/-- There is a result, and if it is not nil it is aligned with the transaction of the node. -/
def ReturnsAligned (txid : String) (outcome : Outcome (Option TxInfo)) : Prop :=
  ∃ result, outcome = .returned result ∧ ∀ info, result = some info → ∃ txhash txraw,
    packages.newHashFromStr txid = some txhash ∧
      answers.getRawTransactionVerbose txhash = .ok txraw ∧ Aligned txraw info

variable {packages answers} {msgTx : MsgTx} {txraw : TxRawResult}

/-- The fee rate of a transaction is always computed. -/
theorem txFeeRate_returned (msgTx : MsgTx) : ∃ fees, txFeeRate packages msgTx = .returned fees := by
  have notZero : packages.serializeSize msgTx ≠ 0 := fun zero => by
    have positive := packages.serializeSize_pos msgTx
    rw [zero] at positive
    exact absurd positive (by decide)
  exact ⟨_, if_neg notZero⟩

/-- The basic data are returned when the vote can be told, or when there is none to be told. -/
theorem makeExplorerTxBasic_returned (tells : TellsVote packages msgTx) :
    ∃ txBasic, makeExplorerTxBasic packages txraw msgTx = .returned txBasic := by
  obtain ⟨fees, computed⟩ : ∃ fees, txFeeRate packages msgTx = .returned fees :=
    txFeeRate_returned msgTx
  simp only [makeExplorerTxBasic, computed, Outcome.bind_returned]
  by_cases isVote : packages.votes.isSSGen msgTx = true
  · obtain ⟨result, returned, -⟩ := ssgenVoteChoices_returns packages.votes (tells isVote)
    rw [if_pos isVote, returned, Outcome.bind_returned]
    cases result with
    | error err => exact ⟨_, rfl⟩
    | ok told => exact ⟨_, rfl⟩
  · rw [if_neg isVote]
    exact ⟨_, rfl⟩

/-- There is a panic when the vote cannot be told. -/
theorem makeExplorerTxBasic_panicked (notTells : ¬TellsVote packages msgTx) :
    makeExplorerTxBasic packages txraw msgTx = .panicked := by
  obtain ⟨isVote, notChoices⟩ := Classical.not_imp.mp notTells
  obtain ⟨fees, computed⟩ : ∃ fees, txFeeRate packages msgTx = .returned fees :=
    txFeeRate_returned msgTx
  simp only [makeExplorerTxBasic, computed, Outcome.bind_returned, isVote, if_true,
    ssgenVoteChoices_panicked packages.votes notChoices]
  rfl

/-- The maturity is told when there is an input, or it is not looked at. -/
theorem maturity_returned {type : String} (blockHeight : Int64) {inputs : List ExplorerVin}
    (first : type = "Vote" ∨ type = "Ticket" ∨ inputs ≠ []) :
    ∃ told, maturity packages answers type blockHeight inputs = .returned told := by
  unfold maturity
  by_cases stake : type = "Vote" ∨ type = "Ticket"
  · exact ⟨_, if_pos stake⟩
  · have some_ : inputs ≠ [] := (or_assoc.mpr first).resolve_left stake
    obtain ⟨head, tail, rfl⟩ := List.exists_cons_of_ne_nil some_
    have found : (head :: tail)[0]? = some head := rfl
    exact ⟨_, (if_neg stake).trans (congrArg (Outcome.bind · _) (indexed_returned found))⟩

/-- Without an input there is a panic, unless the transaction is a vote or a ticket. -/
theorem maturity_panicked {type : String} (blockHeight : Int64)
    (notStake : ¬(type = "Vote" ∨ type = "Ticket")) :
    maturity packages answers type blockHeight [] = .panicked := if_neg notStake

/-- What becomes of a transaction that the node returned. -/
theorem getExplorerTx_of_raw {txid : String} {txhash : Hash}
    (parsed : packages.newHashFromStr txid = some txhash)
    (verbose : answers.getRawTransactionVerbose txhash = .ok txraw)
    (decoded : msgTxFromHex packages txraw.hex = some msgTx) :
    ReturnsAligned packages answers txid (getExplorerTx packages answers txid) ↔
      Assembles packages answers txraw msgTx := by
  simp only [getExplorerTx, parsed, verbose, decoded]
  constructor
  · rintro ⟨result, returned, aligned⟩
    obtain ⟨txBasic, made, returned⟩ := Outcome.bind_eq_returned.mp returned
    obtain ⟨inputs, madeInputs, returned⟩ := Outcome.bind_eq_returned.mp returned
    obtain ⟨⟨mature, ticketMaturity⟩, matured, returned⟩ := Outcome.bind_eq_returned.mp returned
    obtain rfl := Outcome.returned.inj returned
    obtain ⟨_, _, parsedToo, verboseToo, isAligned⟩ := aligned _ rfl
    obtain rfl := Option.some.inj (parsed.symm.trans parsedToo)
    obtain rfl := Except.ok.inj (verbose.symm.trans verboseToo)
    have length : inputs.length = txraw.vin.length := by
      rw [← isAligned.vin, List.length_map]
    refine ⟨?_, ?_, ?_⟩
    · by_contra notTells
      rw [makeExplorerTxBasic_panicked notTells] at made
      cases made
    · by_contra notLocated
      exact absurd length (makeInputs_length_lt notLocated madeInputs).ne
    · by_contra nothing
      rw [← or_assoc, not_or, not_not] at nothing
      obtain ⟨notStake, noInputs⟩ := nothing
      rw [noInputs, List.length_nil, List.length_eq_zero_iff] at length
      rw [length, maturity_panicked _ notStake] at matured
      cases matured
  · rintro ⟨tells, located, first⟩
    obtain ⟨txBasic, made⟩ : ∃ txBasic, makeExplorerTxBasic packages txraw msgTx = .returned txBasic :=
      makeExplorerTxBasic_returned tells
    obtain ⟨inputs, madeInputs, same⟩ := makeInputs_returned located
    have firstToo : determineTxTypeString packages msgTx = "Vote" ∨
        determineTxTypeString packages msgTx = "Ticket" ∨ inputs ≠ [] := by
      refine first.imp_right fun later => later.imp_right fun some_ none_ => ?_
      rw [none_, List.map_nil] at same
      exact some_ same.symm
    obtain ⟨told, matured⟩ : ∃ told, maturity packages answers _ txraw.blockHeight inputs =
      .returned told := maturity_returned txraw.blockHeight firstToo
    simp only [made, madeInputs, matured, Outcome.bind_returned]
    refine ⟨_, rfl, ?_⟩
    rintro info ⟨⟩
    refine ⟨txhash, txraw, parsed, verbose, same, ?_, ?_⟩
    · have fields : ∀ entry : Vout × Nat,
          ((fun vout : ExplorerVout => (vout.addresses, vout.amount, vout.type)) ∘
              fun entry : Vout × Nat => makeOutput answers entry.1 entry.2) entry =
            ((fun vout : Vout => (vout.addresses, vout.value, vout.type)) ∘ Prod.fst) entry :=
        fun _ => rfl
      rw [List.map_map, funext fields, ← List.map_map, List.zipIdx_map_fst]
    · rw [List.length_replicate, List.length_map, List.length_zipIdx]

/-- The transaction of the page is nil or has one entry for each input and each output, without
a panic, exactly when the transaction that the node returned, if it did, can be assembled. -/
theorem getExplorerTx_iff (packages : Packages) (answers : NodeAnswers) (txid : String) :
    ReturnsAligned packages answers txid (getExplorerTx packages answers txid) ↔
      ∀ txhash txraw msgTx, packages.newHashFromStr txid = some txhash →
        answers.getRawTransactionVerbose txhash = .ok txraw →
          msgTxFromHex packages txraw.hex = some msgTx → Assembles packages answers txraw msgTx := by
  have noResult : ReturnsAligned packages answers txid (.returned none) :=
    ⟨none, rfl, fun _ isSome => by cases isSome⟩
  cases parsed : packages.newHashFromStr txid with
  | none =>
    refine iff_of_true ?_ fun _ _ _ impossible => by cases impossible
    simpa only [getExplorerTx, parsed] using noResult
  | some txhash =>
    cases verbose : answers.getRawTransactionVerbose txhash with
    | error err =>
      refine iff_of_true ?_ fun _ _ _ isHash impossible => ?_
      · simpa only [getExplorerTx, parsed, verbose] using noResult
      · obtain rfl := Option.some.inj isHash
        rw [verbose] at impossible
        cases impossible
    | ok txraw =>
      cases decoded : msgTxFromHex packages txraw.hex with
      | none =>
        refine iff_of_true ?_ fun _ _ _ isHash isRaw impossible => ?_
        · simpa only [getExplorerTx, parsed, verbose, decoded] using noResult
        · obtain rfl := Option.some.inj isHash
          obtain rfl := Except.ok.inj (verbose.symm.trans isRaw)
          rw [decoded] at impossible
          cases impossible
      | some msgTx =>
        rw [getExplorerTx_of_raw parsed verbose decoded]
        constructor
        · intro assembles _ _ _ isHash isRaw isTx
          obtain rfl := Option.some.inj isHash
          obtain rfl := Except.ok.inj (verbose.symm.trans isRaw)
          obtain rfl := Option.some.inj (decoded.symm.trans isTx)
          exact assembles
        · intro assembles
          exact assembles txhash txraw msgTx rfl verbose decoded

/-- A regular transaction that spends both outputs of the funding transaction. -/
def spendsBoth : MsgTx :=
  ⟨1, [⟨⟨7, 0, 0⟩, 0, 100, 0, 0, []⟩, ⟨⟨7, 1, 0⟩, 0, 50, 0, 0, []⟩], [⟨140, 0, [3]⟩], 0, 0⟩

/-- Packages that decode this transaction, which is no vote. -/
def regularPackages : Packages where
  toHcutil := Sample.hcutil
  toChainhash := .hexadecimal
  votes := { sevens with isSSGen := fun _ => false }
  deployments _ := []
  decode _ := some spendsBoth
  determineTxType _ := .regular
  serializeSize _ := 250
  serializeSize_pos _ := by decide
  extractPkScriptAddrs := byteScript
  ticketMaturity := 256
  coinbaseMaturity := 256

/-- The node returns this transaction, but not the previous one for some of its inputs. -/
def forgetting (missing : Nat → Bool) : NodeAnswers where
  getRawTransactionVerbose _ :=
    .ok ⟨"", "", [⟨"", "", "", 0, 100, 0⟩, ⟨"", "", "", 1, 50, 0⟩], [⟨140, "", "pubkeyhash", ["3"]⟩],
      7, 1, 3, 60⟩
  getRawTransaction i := if missing i then fun _ => .error "timeout" else knowsFunding
  getTxOut _ := .ok true
  getBestBlockHeight := 10

/-- Without the first previous transaction the page has one input of two, and without both
there is a panic. -/
theorem getExplorerTx_forgetting :
    (∃ info, getExplorerTx regularPackages (forgetting (· == 0)) "" = .returned (some info) ∧
        info.vin.map (fun entry => entry.vin.vout) = [1]) ∧
      getExplorerTx regularPackages (forgetting fun _ => true) "" = .panicked ∧
      ¬ReturnsAligned regularPackages (forgetting (· == 0)) ""
        (getExplorerTx regularPackages (forgetting (· == 0)) "") ∧
      ¬ReturnsAligned regularPackages (forgetting fun _ => true) ""
        (getExplorerTx regularPackages (forgetting fun _ => true) "") := by
  refine ⟨⟨_, rfl, rfl⟩, rfl, ?_, ?_⟩
  · rintro ⟨result, returned, aligned⟩
    obtain rfl := Outcome.returned.inj returned
    obtain ⟨_, _, -, verbose, isAligned⟩ := aligned _ rfl
    obtain rfl := Except.ok.inj verbose
    have lengths := congrArg List.length isAligned.vin
    exact absurd lengths (by decide)
  · rintro ⟨result, returned, -⟩
    cases returned

end Law

end Hcexplorer.Hcsqlite

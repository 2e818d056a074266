import Hcexplorer.Hcsqlite.ExplorerTx

/-!
# The block of the explorer's page

`wiredDB.GetExplorerBlock` lists the transactions of a block by their kind: those of the stake
tree as votes, tickets and revocations, and those of the other tree. Each list is sorted by the
total of its transactions, and the fees and totals are added up over the sorted lists.

A stake transaction that cannot be decoded ends the page, a transaction of the other tree that
cannot be decoded is a nil pointer. The order of transactions with one total is left to
`sort.Slice`. Fields of the block that are only copied are one value here, and the formatted
texts are left out. Amounts of the node are exact rationals; what `hcutil` makes of them is a
parameter, and sums of amounts wrap around as those of `int64` do.
-/

namespace Hcexplorer.Hcsqlite

section Model

variable {Rest : Type}

/-- `hcjson.GetBlockVerboseResult` with its transactions, those of both trees. -/
structure BlockVerboseResult (Rest : Type) where
  height : Int64
  size : Int32
  voters : UInt16
  freshStake : UInt8
  time : Int64
  rawTx : List TxRawResult
  rawSTx : List TxRawResult
  rest : Rest

/-- `explorer.BlockBasic`, the fields that the lists of blocks show. -/
structure BlockBasic where
  height : Int64
  size : Int32
  valid : Bool
  voters : UInt16
  transactions : Nat
  freshStake : UInt8
  revocations : UInt32
  blockTime : Int64
deriving DecidableEq, Repr

/-- `explorer.TxBasic`, with the total of the outputs beside it. -/
structure TxRow extends TxBasic where
  total : ℚ
deriving DecidableEq, Repr

/-- `explorer.BlockInfo`, with its lists of transactions and the totals over them. -/
structure BlockInfo (Rest : Type) extends BlockBasic where
  rest : Rest
  tx : List TxRow
  tickets : List TxRow
  revs : List TxRow
  votes : List TxRow
  totalSent : ℚ
  miningFee : Int64
  stakeValidationHeight : Int64

/-- `sort.Slice` of `sortTx`: some arrangement of the rows, the greatest total first. It need not
be stable. -/
structure SortTx where
  sort : List TxRow → List TxRow
  perm : ∀ txs, (sort txs).Perm txs
  sorted : ∀ txs, (sort txs).Pairwise fun first second => second.total ≤ first.total

variable (packages : Packages)

/-- `TotalVout`, the sum of the outputs as amounts, which wraps around at 64 bits. -/
def totalVout (vouts : List Vout) : Int64 := (vouts.map fun v => packages.newAmount v.value).sum

/-- The kind of a transaction, none when it cannot be decoded. A revocation is what `IsSSRtx`
accepts. -/
def kindOf (tx : TxRawResult) : Option TxType :=
  (msgTxFromHex packages tx.hex).map packages.determineTxType

/-- `makeExplorerBlockBasic`, in which every block is valid and the revocations are counted by
type. -/
def makeExplorerBlockBasic (data : BlockVerboseResult Rest) : BlockBasic where
  height := data.height
  size := data.size
  valid := true
  voters := data.voters
  transactions := data.rawTx.length
  freshStake := data.freshStake
  revocations := data.rawSTx.foldl
    (fun count tx => if kindOf packages tx = some .ssrtx then count + 1 else count) 0
  blockTime := data.time

/-- `makeExplorerTxBasic` of a transaction from its hex, which is read through a nil pointer when
it cannot be decoded. -/
def makeTxRow (tx : TxRawResult) : Outcome TxRow :=
  match msgTxFromHex packages tx.hex with
  | none => .panicked
  | some msgTx => (makeExplorerTxBasic packages tx msgTx).bind fun basic =>
    .returned ⟨basic, packages.toCoin (totalVout packages tx.vout)⟩

/-- The row without a fee and a fee rate, as it is shown where a transaction has none. -/
def TxRow.withoutFee (tx : TxRow) : TxRow := { tx with fee := 0, feeRate := 0 }

/-- The lists of the stake tree: votes, tickets and revocations. -/
structure StakeRows where
  votes : List TxRow
  tickets : List TxRow
  revs : List TxRow

/-- A transaction of the stake tree is added to the list of its kind. One of no kind is not
looked at. -/
def addStakeTx (rows : StakeRows) (tx : TxRawResult) : TxType → Outcome StakeRows
  | .ssgen => (makeTxRow packages tx).bind fun stx =>
    .returned { rows with votes := rows.votes ++ [stx.withoutFee] }
  | .sstx => (makeTxRow packages tx).bind fun stx =>
    .returned { rows with tickets := rows.tickets ++ [stx] }
  | .ssrtx => (makeTxRow packages tx).bind fun stx =>
    .returned { rows with revs := rows.revs ++ [stx] }
  | .regular => .returned rows

/-- The loop over the stake tree, none where it returns nil. -/
def stakeLoop (rows : StakeRows) : List TxRawResult → Outcome (Option StakeRows)
  | [] => .returned (some rows)
  | tx :: rest =>
    match kindOf packages tx with
    | none => .returned none
    | some kind => (addStakeTx packages rows tx kind).bind fun rows => stakeLoop rows rest

/-- The fee of a coinbase is not shown, that of any other transaction is. -/
def coinbaseRow (tx : TxRawResult) (row : TxRow) : TxRow :=
  if tx.vin.any Vin.isCoinBase then row.withoutFee else row

/-- The loop over the regular tree, which panics where a transaction cannot be shown. -/
def txLoop : List TxRawResult → Outcome (List TxRow)
  | [] => .returned []
  | tx :: rest =>
    (makeTxRow packages tx).bind fun exptx =>
      (txLoop rest).bind fun txs => .returned (coinbaseRow tx exptx :: txs)

/-- `getTotalFee`, the sum of the fees of the rows. -/
def getTotalFee (txs : List TxRow) : Int64 := (txs.map fun tx => tx.fee).sum

/-- `getTotalSent`, the sum of the totals of the rows as amounts. -/
def getTotalSent (txs : List TxRow) : Int64 := (txs.map fun tx => packages.newAmount tx.total).sum

/-- The end of `GetExplorerBlock`: the lists are sorted and added up. -/
def makeBlockInfo (sortTx : SortTx) (stakeValidationHeight : Int64) (data : BlockVerboseResult Rest)
    (rows : StakeRows) (txs : List TxRow) : BlockInfo Rest :=
  let tx := sortTx.sort txs
  let votes := sortTx.sort rows.votes
  let revs := sortTx.sort rows.revs
  let tickets := sortTx.sort rows.tickets
  { toBlockBasic := makeExplorerBlockBasic packages data
    rest := data.rest
    tx := tx
    tickets := tickets
    revs := revs
    votes := votes
    totalSent := packages.toCoin (getTotalSent packages tx + getTotalSent packages revs +
      getTotalSent packages tickets + getTotalSent packages votes)
    miningFee := getTotalFee tx + getTotalFee revs + getTotalFee tickets
    stakeValidationHeight := stakeValidationHeight }

/-- `GetExplorerBlock`, from what the node has of the block. -/
def getExplorerBlock (sortTx : SortTx) (stakeValidationHeight : Int64) :
    Option (BlockVerboseResult Rest) → Outcome (Option (BlockInfo Rest))
  | none => .returned none
  | some data =>
    (stakeLoop packages ⟨[], [], []⟩ data.rawSTx).bind fun stakeRows =>
      match stakeRows with
      | none => .returned none
      | some rows => (txLoop packages data.rawTx).bind fun txs =>
        .returned (some (makeBlockInfo packages sortTx stakeValidationHeight data rows txs))

end Model

section Amounts

variable {packages : Packages}

/-- A transaction that is decoded has a row, if its vote can be told where it is one. -/
theorem makeTxRow_returned {tx : TxRawResult} {msgTx : MsgTx}
    (decoded : msgTxFromHex packages tx.hex = some msgTx) (tells : TellsVote packages msgTx) :
    ∃ row, makeTxRow packages tx = .returned row := by
  have basic : ∃ txBasic, makeExplorerTxBasic packages tx msgTx = .returned txBasic :=
    makeExplorerTxBasic_returned tells
  obtain ⟨txBasic, made⟩ := basic
  rw [makeTxRow, decoded]
  simp only [made, Outcome.bind_returned]
  exact ⟨_, rfl⟩

/-- The total that is read from a row is that of its outputs. -/
theorem newAmount_total (exact : packages.toHcutil.Exact) {tx : TxRawResult} {row : TxRow}
    (shown : makeTxRow packages tx = .returned row) :
    packages.newAmount row.total = totalVout packages tx.vout := by
  unfold makeTxRow at shown
  split at shown
  · cases shown
  · obtain ⟨basic, -, isRow⟩ := Outcome.bind_eq_returned.mp shown
    obtain rfl := Outcome.returned.inj isRow
    exact exact _

end Amounts

section Lists

variable {packages : Packages} {Rest : Type} {row : TxRawResult → TxRow}

/-- The transactions of a kind among those of a tree, in their order. -/
def ofKind (packages : Packages) (kind : TxType) (txs : List TxRawResult) : List TxRawResult :=
  txs.filter fun tx => kindOf packages tx = some kind

/-- A transaction of the stake tree can be shown: it is decoded, and its row is made unless it is
of no kind. -/
def StakeShown (packages : Packages) (row : TxRawResult → TxRow) (tx : TxRawResult) : Prop :=
  ∃ kind, kindOf packages tx = some kind ∧
    (kind ≠ .regular → makeTxRow packages tx = .returned (row tx))

/-- A transaction in front of others joins those of its kind. -/
theorem ofKind_cons {tx : TxRawResult} {kind : TxType} (isKind : kindOf packages tx = some kind)
    (wanted : TxType) (rest : List TxRawResult) :
    ofKind packages wanted (tx :: rest) =
      if kind = wanted then tx :: ofKind packages wanted rest else ofKind packages wanted rest := by
  rw [ofKind, List.filter_cons, isKind]
  by_cases same : kind = wanted
  · rw [if_pos (by rw [same]; exact decide_eq_true rfl), if_pos same]
    rfl
  · rw [if_neg (by simpa using same), if_neg same]
    rfl

/-- The loop over the stake tree appends the rows of each kind, in order. -/
theorem stakeLoop_returned {txs : List TxRawResult} (shown : ∀ tx ∈ txs, StakeShown packages row tx)
    (rows : StakeRows) : stakeLoop packages rows txs = .returned (some
      ⟨rows.votes ++ (ofKind packages .ssgen txs).map fun tx => (row tx).withoutFee,
        rows.tickets ++ (ofKind packages .sstx txs).map row,
        rows.revs ++ (ofKind packages .ssrtx txs).map row⟩) := by
  induction txs generalizing rows with
  | nil => simp [stakeLoop, ofKind]
  | cons tx rest inductionHypothesis =>
    obtain ⟨kind, isKind, made⟩ := shown tx List.mem_cons_self
    have next := inductionHypothesis fun other member => shown other (List.mem_cons_of_mem _ member)
    simp only [stakeLoop, isKind, ofKind_cons isKind]
    cases kind with
    | regular =>
      simp only [addStakeTx, Outcome.bind_returned, next, reduceCtorEq, if_false]
    | ssgen =>
      have isRow := made nofun
      simp only [addStakeTx, isRow, Outcome.bind_returned, next, reduceCtorEq, if_false, if_true,
        List.map_cons, List.append_assoc, List.singleton_append]
    | sstx =>
      have isRow := made nofun
      simp only [addStakeTx, isRow, Outcome.bind_returned, next, reduceCtorEq, if_false, if_true,
        List.map_cons, List.append_assoc, List.singleton_append]
    | ssrtx =>
      have isRow := made nofun
      simp only [addStakeTx, isRow, Outcome.bind_returned, next, reduceCtorEq, if_false, if_true,
        List.map_cons, List.append_assoc, List.singleton_append]

/-- A transaction of the stake tree that cannot be decoded ends the page, unless one before it
already did. -/
theorem stakeLoop_none {front back : List TxRawResult} {tx : TxRawResult}
    (shown : ∀ before ∈ front, StakeShown packages row before) (unknown : kindOf packages tx = none)
    (rows : StakeRows) : stakeLoop packages rows (front ++ tx :: back) = .returned none := by
  induction front generalizing rows with
  | nil => simp only [List.nil_append, stakeLoop, unknown]
  | cons first rest inductionHypothesis =>
    obtain ⟨kind, isKind, made⟩ := shown first List.mem_cons_self
    have next := inductionHypothesis fun other member => shown other (List.mem_cons_of_mem _ member)
    simp only [List.cons_append, stakeLoop, isKind]
    cases kind with
    | regular => simp only [addStakeTx, Outcome.bind_returned, next]
    | ssgen => simp only [addStakeTx, made nofun, Outcome.bind_returned, next]
    | sstx => simp only [addStakeTx, made nofun, Outcome.bind_returned, next]
    | ssrtx => simp only [addStakeTx, made nofun, Outcome.bind_returned, next]

/-- The loop over the other tree makes its rows, in order. -/
theorem txLoop_returned {txs : List TxRawResult}
    (shown : ∀ tx ∈ txs, makeTxRow packages tx = .returned (row tx)) :
    txLoop packages txs = .returned (txs.map fun tx => coinbaseRow tx (row tx)) := by
  induction txs with
  | nil => rfl
  | cons tx rest inductionHypothesis =>
    have next := inductionHypothesis fun other member => shown other (List.mem_cons_of_mem _ member)
    simp only [txLoop, shown tx List.mem_cons_self, Outcome.bind_returned, next, List.map_cons]

/-- A transaction of that tree that cannot be decoded is a panic, unless one before it already
was. -/
theorem txLoop_panicked {front back : List TxRawResult} {tx : TxRawResult}
    (shown : ∀ before ∈ front, makeTxRow packages before = .returned (row before))
    (unknown : kindOf packages tx = none) : txLoop packages (front ++ tx :: back) = .panicked := by
  have noTx : msgTxFromHex packages tx.hex = none := Option.map_eq_none_iff.mp unknown
  induction front with
  | nil =>
    rw [List.nil_append, txLoop, makeTxRow, noTx]
    rfl
  | cons first rest inductionHypothesis =>
    have next := inductionHypothesis fun other member => shown other (List.mem_cons_of_mem _ member)
    simp only [List.cons_append, txLoop, shown first List.mem_cons_self, next, Outcome.bind]

/-- The count of revocations is the number of its transactions, in 32 bits. -/
theorem revocations_eq (data : BlockVerboseResult Rest) :
    (makeExplorerBlockBasic packages data).revocations =
      UInt32.ofNat (ofKind packages .ssrtx data.rawSTx).length := by
  have counted (txs : List TxRawResult) (start : Nat) :
      txs.foldl (fun (count : UInt32) tx =>
        if kindOf packages tx = some .ssrtx then count + 1 else count) (UInt32.ofNat start) =
      UInt32.ofNat (start + (ofKind packages .ssrtx txs).length) := by
    induction txs generalizing start with
    | nil => rfl
    | cons tx rest inductionHypothesis =>
      rw [List.foldl_cons]
      by_cases isRevocation : kindOf packages tx = some .ssrtx
      · have one : UInt32.ofNat start + 1 = UInt32.ofNat (start + 1) := UInt32.ofNat_add _ _ |>.symm
        rw [if_pos isRevocation, one, inductionHypothesis, ofKind_cons isRevocation, if_pos rfl,
          List.length_cons]
        congr 1
        omega
      · rw [if_neg isRevocation, inductionHypothesis, ofKind, ofKind, List.filter_cons,
          if_neg (by simpa using isRevocation)]
  have whole := counted data.rawSTx 0
  rw [Nat.zero_add] at whole
  exact whole

end Lists

section Accounts

variable {packages : Packages} {Rest : Type} {row : TxRawResult → TxRow}

/-- What a transaction spends and does not send, and zero for one that cannot be decoded. -/
def netFee (packages : Packages) (tx : TxRawResult) : Int64 :=
  ((msgTxFromHex packages tx.hex).map fun msgTx =>
    (msgTx.txIn.map TxIn.valueIn).foldl (· + ·) 0 -
      (msgTx.txOut.map TxOut.value).foldl (· + ·) 0).getD 0

/-- The fee of a row is what its transaction spends and does not send. -/
theorem makeTxRow_fee {tx : TxRawResult} {made : TxRow}
    (shown : makeTxRow packages tx = .returned made) : made.fee = netFee packages tx := by
  unfold makeTxRow at shown
  split at shown
  · cases shown
  · rename_i msgTx decoded
    obtain ⟨basic, isBasic, isRow⟩ := Outcome.bind_eq_returned.mp shown
    obtain rfl := Outcome.returned.inj isRow
    rw [netFee, decoded, Option.map_some, Option.getD_some]
    unfold makeExplorerTxBasic txFeeRate at isBasic
    obtain ⟨⟨fee, feeRate⟩, isFee, isBasic⟩ := Outcome.bind_eq_returned.mp isBasic
    dsimp only at isFee isBasic
    split at isFee
    · cases isFee
    · obtain ⟨rfl, rfl⟩ := Prod.mk.inj (Outcome.returned.inj isFee)
      split at isBasic
      · obtain ⟨result, -, isBasic⟩ := Outcome.bind_eq_returned.mp isBasic
        split at isBasic
        · obtain rfl := Outcome.returned.inj isBasic
          rfl
        · obtain rfl := Outcome.returned.inj isBasic
          rfl
      · obtain rfl := Outcome.returned.inj isBasic
        rfl

/-- The fees of a list do not depend on its order. -/
theorem getTotalFee_perm {first second : List TxRow} (perm : first.Perm second) :
    getTotalFee first = getTotalFee second := by
  induction perm with
  | nil => rfl
  | cons tx _ inductionHypothesis =>
    simp only [getTotalFee, List.map_cons, List.sum_cons] at inductionHypothesis ⊢
    rw [inductionHypothesis]
  | swap first second rest =>
    simp only [getTotalFee, List.map_cons, List.sum_cons]
    rw [← Int64.add_assoc, Int64.add_comm second.fee, Int64.add_assoc]
  | trans _ _ toMiddle fromMiddle => exact toMiddle.trans fromMiddle

/-- The total sent does not depend on the order of the rows. -/
theorem getTotalSent_perm {first second : List TxRow} (perm : first.Perm second) :
    getTotalSent packages first = getTotalSent packages second := by
  induction perm with
  | nil => rfl
  | cons tx _ inductionHypothesis =>
    simp only [getTotalSent, List.map_cons, List.sum_cons] at inductionHypothesis ⊢
    rw [inductionHypothesis]
  | swap first second rest =>
    simp only [getTotalSent, List.map_cons, List.sum_cons]
    rw [← Int64.add_assoc, Int64.add_comm (packages.newAmount second.total), Int64.add_assoc]
  | trans _ _ toMiddle fromMiddle => exact toMiddle.trans fromMiddle

/-- The totals of rows are those of the outputs of their transactions. -/
theorem getTotalSent_map {txs : List TxRawResult} {display : TxRawResult → TxRow}
    (totals : ∀ tx ∈ txs, packages.newAmount (display tx).total = totalVout packages tx.vout) :
    getTotalSent packages (txs.map display) =
      (txs.map fun tx => totalVout packages tx.vout).sum := by
  rw [getTotalSent, List.map_map]
  exact congrArg List.sum (List.map_congr_left totals)

/-- The fees of rows are those of their transactions. -/
theorem getTotalFee_map {txs : List TxRawResult}
    (fees : ∀ tx ∈ txs, (row tx).fee = netFee packages tx) :
    getTotalFee (txs.map row) = (txs.map (netFee packages)).sum := by
  rw [getTotalFee, List.map_map]
  exact congrArg List.sum (List.map_congr_left fees)

/-- Of the other tree it is the fees of all but the coinbases. -/
theorem getTotalFee_coinbaseRow {txs : List TxRawResult}
    (fees : ∀ tx ∈ txs, (row tx).fee = netFee packages tx) :
    getTotalFee (txs.map fun tx => coinbaseRow tx (row tx)) =
      ((txs.filter fun tx => !tx.vin.any Vin.isCoinBase).map (netFee packages)).sum := by
  induction txs with
  | nil => rfl
  | cons tx rest inductionHypothesis =>
    have next := inductionHypothesis fun other member => fees other (List.mem_cons_of_mem _ member)
    have isFee := fees tx List.mem_cons_self
    simp only [getTotalFee, List.map_cons, List.sum_cons] at next ⊢
    rw [next, List.filter_cons]
    cases isCoinbase : tx.vin.any Vin.isCoinBase with
    | false =>
      simp only [coinbaseRow, isCoinbase, Bool.false_eq_true, if_false, Bool.not_false, if_true,
        List.map_cons, List.sum_cons, isFee]
    | true =>
      simp only [coinbaseRow, isCoinbase, if_true, Bool.not_true, Bool.false_eq_true, if_false,
        TxRow.withoutFee, Int64.zero_add]

/-- The list is in the order of the totals, the greatest first. -/
def Descending (txs : List TxRow) : Prop :=
  txs.Pairwise fun first second => second.total ≤ first.total

/-- The page accounts for the transactions of the block: each list has the rows of those of its
kind, once each and by their totals; the total is that of all outputs shown, and the mining fee
that of all transactions but the votes and the coinbases. -/
structure Accounts (packages : Packages) (row : TxRawResult → TxRow) (data : BlockVerboseResult Rest)
    (info : BlockInfo Rest) : Prop where
  basic : info.toBlockBasic = makeExplorerBlockBasic packages data
  rest : info.rest = data.rest
  tx : info.tx.Perm (data.rawTx.map fun tx => coinbaseRow tx (row tx))
  votes : info.votes.Perm ((ofKind packages .ssgen data.rawSTx).map fun tx => (row tx).withoutFee)
  tickets : info.tickets.Perm ((ofKind packages .sstx data.rawSTx).map row)
  revs : info.revs.Perm ((ofKind packages .ssrtx data.rawSTx).map row)
  descending : Descending info.tx ∧ Descending info.votes ∧ Descending info.tickets ∧
    Descending info.revs
  revocations : info.revocations = UInt32.ofNat info.revs.length
  totalSent : info.totalSent = packages.toCoin ((data.rawTx ++ ofKind packages .ssrtx data.rawSTx ++
    ofKind packages .sstx data.rawSTx ++ ofKind packages .ssgen data.rawSTx).map fun tx =>
      totalVout packages tx.vout).sum
  miningFee : info.miningFee = (((data.rawTx.filter fun tx => !tx.vin.any Vin.isCoinBase) ++
    ofKind packages .ssrtx data.rawSTx ++ ofKind packages .sstx data.rawSTx).map
      (netFee packages)).sum

/-- A transaction of a kind can be shown, where every transaction of the stake tree can. -/
theorem made_of_kind (kind : TxType) (notRegular : kind ≠ .regular) {txs : List TxRawResult}
    (shown : ∀ tx ∈ txs, StakeShown packages row tx) :
    ∀ tx ∈ ofKind packages kind txs, makeTxRow packages tx = .returned (row tx) := by
  intro tx member
  obtain ⟨inTxs, isWanted⟩ := List.mem_filter.mp member
  obtain ⟨isKind, isSome, made⟩ := shown tx inTxs
  have same : isKind = kind := Option.some.inj (isSome.symm.trans (of_decide_eq_true isWanted))
  exact made (same ▸ notRegular)

/-- With all its transactions shown, the page accounts for them. -/
theorem getExplorerBlock_shown (exact : packages.toHcutil.Exact) (sortTx : SortTx)
    (stakeValidationHeight : Int64)
    {data : BlockVerboseResult Rest}
    (shown : ∀ tx ∈ data.rawTx, makeTxRow packages tx = .returned (row tx))
    (stakeShown : ∀ tx ∈ data.rawSTx, StakeShown packages row tx) : ∃ info,
      getExplorerBlock packages sortTx stakeValidationHeight (some data) = .returned (some info) ∧
      Accounts packages row data info := by
  have votes := made_of_kind .ssgen nofun stakeShown
  have tickets := made_of_kind .sstx nofun stakeShown
  have revs := made_of_kind .ssrtx nofun stakeShown
  refine ⟨makeBlockInfo packages sortTx stakeValidationHeight data
    ⟨(ofKind packages .ssgen data.rawSTx).map fun tx => (row tx).withoutFee,
      (ofKind packages .sstx data.rawSTx).map row, (ofKind packages .ssrtx data.rawSTx).map row⟩
    (data.rawTx.map fun tx => coinbaseRow tx (row tx)), ?_, rfl, rfl, sortTx.perm _, sortTx.perm _,
    sortTx.perm _, sortTx.perm _,
    ⟨sortTx.sorted _, sortTx.sorted _, sortTx.sorted _, sortTx.sorted _⟩, ?_, ?_, ?_⟩
  · rw [getExplorerBlock, stakeLoop_returned stakeShown, Outcome.bind_returned]
    simp only [txLoop_returned shown, Outcome.bind_returned, List.nil_append]
  · have count := (sortTx.perm ((ofKind packages .ssrtx data.rawSTx).map row)).length_eq
    rw [List.length_map] at count
    exact (revocations_eq data).trans (congrArg UInt32.ofNat count.symm)
  · have txTotals : ∀ tx ∈ data.rawTx,
        packages.newAmount (coinbaseRow tx (row tx)).total = totalVout packages tx.vout := by
      intro tx member
      have same : (coinbaseRow tx (row tx)).total = (row tx).total := by
        unfold coinbaseRow
        split <;> rfl
      rw [same]
      exact newAmount_total exact (shown tx member)
    have voteTotals : ∀ tx ∈ ofKind packages .ssgen data.rawSTx,
        packages.newAmount (row tx).withoutFee.total = totalVout packages tx.vout := by
      intro tx member
      have same : (row tx).withoutFee.total = (row tx).total := rfl
      rw [same]
      exact newAmount_total exact (votes tx member)
    simp only [makeBlockInfo, getTotalSent_perm (sortTx.perm _), List.map_append, List.sum_append]
    rw [getTotalSent_map txTotals, getTotalSent_map fun tx member => newAmount_total exact (revs tx member),
      getTotalSent_map fun tx member => newAmount_total exact (tickets tx member),
      getTotalSent_map voteTotals]
  · simp only [makeBlockInfo, getTotalFee_perm (sortTx.perm _), List.map_append, List.sum_append]
    rw [getTotalFee_coinbaseRow fun tx member => makeTxRow_fee (shown tx member),
      getTotalFee_map fun tx member => makeTxRow_fee (revs tx member),
      getTotalFee_map fun tx member => makeTxRow_fee (tickets tx member)]

/-- If a transaction cannot be decoded, there is a first one, and those before it can be. -/
theorem exists_first_unknown {txs : List TxRawResult}
    (unknown : ∃ tx ∈ txs, kindOf packages tx = none) : ∃ front tx back, txs = front ++ tx :: back ∧
      kindOf packages tx = none ∧ ∀ before ∈ front, kindOf packages before ≠ none := by
  have isSome : (txs.find? fun tx => (kindOf packages tx).isNone).isSome = true := by
    rw [List.find?_isSome]
    obtain ⟨tx, member, isNone⟩ := unknown
    exact ⟨tx, member, by rw [isNone]; rfl⟩
  obtain ⟨tx, found⟩ := Option.isSome_iff_exists.mp isSome
  obtain ⟨isNone, front, back, split, before⟩ := List.find?_eq_some_iff_append.mp found
  refine ⟨front, tx, back, split, Option.isNone_iff_eq_none.mp isNone, fun other member isOther => ?_⟩
  have known := before other member
  rw [isOther] at known
  cases known

/-- Where the vote of a decoded transaction can be told, its row is made. -/
theorem exists_rows {txs : List TxRawResult} (tells : ∀ tx ∈ txs, ∀ msgTx,
    msgTxFromHex packages tx.hex = some msgTx → TellsVote packages msgTx) :
    ∃ row : TxRawResult → TxRow, ∀ tx ∈ txs, kindOf packages tx ≠ none →
      makeTxRow packages tx = .returned (row tx) := by
  have each : ∀ tx : TxRawResult, ∃ row, tx ∈ txs → kindOf packages tx ≠ none →
      makeTxRow packages tx = .returned row := by
    intro tx
    by_cases member : tx ∈ txs
    · cases decoded : msgTxFromHex packages tx.hex with
      | none =>
        refine ⟨⟨⟨"", 0, 0, none, false⟩, 0⟩, fun _ known => absurd ?_ known⟩
        rw [kindOf, decoded, Option.map_none]
      | some msgTx =>
        obtain ⟨row, made⟩ := makeTxRow_returned decoded (tells tx member msgTx decoded)
        exact ⟨row, fun _ _ => made⟩
    · exact ⟨⟨⟨"", 0, 0, none, false⟩, 0⟩, fun present => absurd present member⟩
  choose row rows using each
  exact ⟨row, rows⟩

/-- Every transaction of the block is decoded, and its vote can be told where it is one. -/
def Readable (packages : Packages) (data : BlockVerboseResult Rest) : Prop :=
  ∀ tx ∈ data.rawTx ++ data.rawSTx,
    ∃ msgTx, msgTxFromHex packages tx.hex = some msgTx ∧ TellsVote packages msgTx

/-- A block that can be read has a page, with the block's own height and size on it. -/
theorem Readable.getExplorerBlock {data : BlockVerboseResult Rest} (readable : Readable packages data)
    (sortTx : SortTx) (stakeValidationHeight : Int64) : ∃ info,
      Hcsqlite.getExplorerBlock packages sortTx stakeValidationHeight (some data) =
          .returned (some info) ∧
        info.toBlockBasic = makeExplorerBlockBasic packages data := by
  have tells : ∀ tx ∈ data.rawTx ++ data.rawSTx, ∀ msgTx,
      msgTxFromHex packages tx.hex = some msgTx → TellsVote packages msgTx := by
    intro tx member msgTx decoded
    obtain ⟨other, isOther, tells⟩ := readable tx member
    exact Option.some.inj (isOther.symm.trans decoded) ▸ tells
  have known : ∀ tx ∈ data.rawTx ++ data.rawSTx,
      ∃ kind, kindOf packages tx = some kind := by
    intro tx member
    obtain ⟨msgTx, decoded, -⟩ := readable tx member
    exact ⟨_, by rw [kindOf, decoded, Option.map_some]⟩
  obtain ⟨row, rows⟩ := exists_rows tells
  have shown : ∀ tx ∈ data.rawTx, makeTxRow packages tx = .returned (row tx) := by
    intro tx member
    obtain ⟨kind, isKind⟩ := known tx (List.mem_append_left _ member)
    exact rows tx (List.mem_append_left _ member) (by simp [isKind])
  have stakeShown : ∀ tx ∈ data.rawSTx, StakeShown packages row tx := by
    intro tx member
    obtain ⟨kind, isKind⟩ := known tx (List.mem_append_right _ member)
    exact ⟨kind, isKind, fun _ => rows tx (List.mem_append_right _ member) (by simp [isKind])⟩
  rw [Hcsqlite.getExplorerBlock, stakeLoop_returned stakeShown, Outcome.bind_returned]
  simp only [txLoop_returned shown, Outcome.bind_returned]
  exact ⟨_, rfl, rfl⟩

/-- Packages that decode two transactions, the second one a ticket. -/
def twoKinds : Packages :=
  { regularPackages with
    decode := fun hex => if hex = "" then none else
      some { spendsBoth with version := if hex = "ticket" then 2 else 1 }
    determineTxType := fun msgTx => if msgTx.version = 2 then .sstx else .regular }

/-- A transaction of the node that has this hex. -/
def rawTxOf (hex : String) : TxRawResult :=
  ⟨hex, hex, [⟨"", "", "", 0, 100, 0⟩, ⟨"", "", "", 1, 50, 0⟩], [⟨140, "", "pubkeyhash", ["3"]⟩],
    7, 1, 3, 60⟩

/-- The rows sorted by insertion, which is one way to sort them. -/
def insertionSortTx : SortTx where
  sort := List.insertionSort fun first second => second.total ≤ first.total
  perm := List.perm_insertionSort _
  sorted txs := by
    have total : Std.Total fun (first second : TxRow) => second.total ≤ first.total :=
      ⟨fun first second => le_total second.total first.total⟩
    have trans : IsTrans TxRow fun first second => second.total ≤ first.total :=
      ⟨fun _ _ _ atFirst atSecond => le_trans atSecond atFirst⟩
    exact List.pairwise_insertionSort _ txs

/-- A block with a ticket and another transaction, each in its tree. -/
def twoKindsBlock : BlockVerboseResult Unit :=
  ⟨7, 1000, 5, 1, 60, [rawTxOf "other"], [rawTxOf "ticket"], ()⟩

end Accounts

end Hcexplorer.Hcsqlite

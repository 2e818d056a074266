import Hcexplorer.ApiStatus
import Hcexplorer.LiveHistory
import Hcexplorer.Strconv

/-!
# The block routes of the API

Under `/block` a block is addressed as the best one, by its hash or by its height. A
middleware puts what the path says into the request context, and the handlers take from it
a hash or a height and look the other one up where it is missing. The summary, the size, the
hash and the stake info come from the SQLite tables, the header and the transactions from
the node.

A context value keeps its type: the height that the middleware of a hash stores is an
`int64`, and the handlers look for an `int`, so they look the height up again. The height of the
best block alone is not looked up: it is the node's height in the status.

Over tables that mirror a chain every address of a block is answered with the data of this
block, the height of the best block exactly when the status has it, and an address that names no
block of the chain gets neither a summary, nor a size, nor a stake info. A failing query is a
missing row to its callers.
-/

namespace Hcexplorer.BlockRoutes

open Collection Hcsqlite LinkedChain Live KeyedTable
open Strconv (Text atoi formatInt parseInt_formatInt)

section Model

/-- `hcjson.GetBlockVerboseResult`: the transaction hashes of its two trees, and the rest. -/
structure BlockVerbose (Rest : Type) where
  tx : List Text
  sTx : List Text
  rest : Rest

/-- The answers of the node, none for an error. -/
structure NodeApi (Header Rest : Type) where
  getBlockHash : Int → Option Hash
  getBlockHeaderVerbose : Hash → Option Header
  getBlockVerbose : Hash → Option (BlockVerbose Rest)

/-- `appContext`, with its data source, the tables and the node, its status, and `chainhash`. -/
structure AppContext (Rates Header Rest : Type) where
  db : DB Rates
  node : NodeApi Header Rest
  status : ApiStatus.Status
  chainhash : Chainhash

/-- A value in a request context, with its type. -/
inductive CtxValue where
  | int (value : Int64)
  | int64 (value : Int64)
  | string (value : Text)

/-- The request context, the part in which the middleware stores a block. -/
structure Request where
  blockIndex0 : Option CtxValue
  blockIndex : Option CtxValue
  blockHash : Option CtxValue

/-- The context that a request begins with, in which nothing is stored yet. -/
def Request.empty : Request := ⟨none, none, none⟩

/-- What is given to the JSON encoder, one constructor for each kind of answer. -/
inductive Value (Rates Header Rest : Type) where
  | summary (row : BlockDataBasic)
  | header (header : Header)
  | size (size : Int32)
  | verbose (block : BlockVerbose Rest)
  | stakeInfo (row : StakeInfoExtended Rates)
  | transactions (tx sTx : List Text)
  | counts (tx sTx : Nat)
  | poolInfo (info : Option TicketPoolInfo)
  | poolInfos (infos : List TicketPoolInfo)
  | poolValsAndSizes (startHeight endHeight : UInt32) (values sizes : List Rat)
  | stakeDiffs (stakeDiffs : Option (List Rat))

/-- A response: a JSON value, a plain text, an error, or that of a handler that panicked. -/
inductive Response (Rates Header Rest : Type) where
  | json (value : Value Rates Header Rest)
  | text (text : Text)
  | error (text : String) (code : Nat)
  | recovered

variable {Rates Header Rest : Type}

/-- `http.Error` with the text of 422, the answer where a value could not be had. -/
abbrev unprocessable : Response Rates Header Rest := .error "Unprocessable Entity" 422

/-- `http.NotFound`, the answer where the path has no number at the place of a height. -/
abbrev notFound : Response Rates Header Rest := .error "404 page not found" 404

/-- `RetrieveBlockSummaryByHash`, which looks for a row with the hash in its text column. -/
def retrieveBlockSummaryByHash (chainhash : Chainhash) (db : DB Rates) (hash : Text) :
    Option BlockDataBasic :=
  db.summaries.rows.find? fun row => chainhash.hashString row.hash = hash

/-- `RetrieveBlockHash`, the hash in the row of a height, if there is one. -/
def retrieveBlockHash (chainhash : Chainhash) (db : DB Rates) (ind : Int64) : Option Text :=
  (db.summaries.find ind.toInt).map fun row => chainhash.hashString row.hash

/-- `RetrieveBlockHeight`, the height in the row of a hash, if there is one. -/
def retrieveBlockHeight (chainhash : Chainhash) (db : DB Rates) (hash : Text) : Option Int64 :=
  (retrieveBlockSummaryByHash chainhash db hash).map fun row => Int64.ofInt (summaryKey row)

/-- `getBlockIndexCtx`, the index in the context if it was stored as an `int`, and else -1. -/
def getBlockIndexCtx (r : Request) : Int64 :=
  match r.blockIndex with
  | some (.int idx) => idx
  | _ => -1

/-- `getBlockIndex0Ctx`, the first index in the context if it was stored as an `int`, and else
-1. -/
def getBlockIndex0Ctx (r : Request) : Int64 :=
  match r.blockIndex0 with
  | some (.int idx) => idx
  | _ => -1

/-- `getBlockHashOnlyCtx`, the hash in the context if it was stored as a text, and else the empty
text. -/
def getBlockHashOnlyCtx (r : Request) : Text :=
  match r.blockHash with
  | some (.string hash) => hash
  | _ => []

/-- `BlockIndexPathCtx`, which stores the index of the path; none is `http.NotFound`. -/
def blockIndexPathCtx (pathIdxStr : Text) (r : Request) : Option Request :=
  (atoi pathIdxStr).map fun idx => { r with blockIndex := some (.int idx) }

/-- `BlockIndex0PathCtx`, which stores the first index of the path; none is `http.NotFound`. -/
def blockIndex0PathCtx (pathIdxStr : Text) (r : Request) : Option Request :=
  (atoi pathIdxStr).map fun idx => { r with blockIndex0 := some (.int idx) }

namespace AppContext

variable (c : AppContext Rates Header Rest)

/-- `GetSummaryByHash`, the summary in the tables under a hash. -/
def getSummaryByHash (hash : Text) : Option BlockDataBasic :=
  retrieveBlockSummaryByHash c.chainhash c.db hash

/-- `GetBlockHash`, the hash in the tables under a height. -/
def getBlockHash (idx : Int64) : Option Text := retrieveBlockHash c.chainhash c.db idx

/-- `GetBlockHeight`, the height in the tables under a hash. -/
def getBlockHeight (hash : Text) : Option Int64 := retrieveBlockHeight c.chainhash c.db hash

/-- `GetHeight`, the height up to which the tables hold summaries. -/
def getHeight : Int64 := Int64.ofInt (c.db.getBlockSummaryHeight none).1

/-- `GetBlockSize`, by a query for the range of one height. -/
def getBlockSize (idx : Int64) : Option Int32 :=
  match c.db.retrieveBlockSizeRange none idx.toInt idx.toInt with
  | .ok (size :: _) => some size
  | _ => none

/-- `RetrieveStakeInfoExtended`, and `GetStakeInfoExtended`, the stake info in the tables under a
height. -/
def getStakeInfoExtended (idx : Int64) : Option (StakeInfoExtended Rates) :=
  c.db.stakeInfos.find idx.toInt

/-- `RetrievePoolInfo`, and `GetPoolInfo`, the columns of the ticket pool in the summary of a
height. -/
def getPoolInfo (idx : Int64) : Option TicketPoolInfo :=
  (c.db.summaries.find idx.toInt).map BlockDataBasic.poolInfo

/-- `GetHeader`: `rpcutils.GetBlockHeaderVerbose`, which asks the node for the hash at a height
and then for its header. -/
def getHeader (idx : Int64) : Option Header :=
  (c.node.getBlockHash idx.toInt).bind c.node.getBlockHeaderVerbose

/-- `rpcutils.GetBlockVerboseByHash`, which reads the text of a hash and asks the node for the
block. -/
def getBlockVerboseByHash (hash : Text) : Option (BlockVerbose Rest) :=
  (c.chainhash.readHash hash).bind c.node.getBlockVerbose

/-- `GetTransactionsForBlockByHash`, none for a nil dereference: `makeBlockTransactions` reads
the block without a look at the pointer. -/
def getTransactionsForBlockByHash (hash : Text) : Option (List Text × List Text) :=
  (c.getBlockVerboseByHash hash).map fun block => (block.tx, block.sTx)

/-- `getBlockHashCtx`: the hash in the context, or that of the tables for the index in the
context. -/
def getBlockHashCtx (r : Request) : Text :=
  if getBlockHashOnlyCtx r = [] then (c.getBlockHash (getBlockIndexCtx r)).getD []
  else getBlockHashOnlyCtx r

/-- `getBlockHeightCtx`: the index in the context, or the height of the tables for the hash in
the context. -/
def getBlockHeightCtx (r : Request) : Int64 :=
  match r.blockIndex with
  | some (.int idx) =>
    if idx < 0 then (c.getBlockHeight (getBlockHashOnlyCtx r)).getD (-1) else idx
  | _ => (c.getBlockHeight (getBlockHashOnlyCtx r)).getD (-1)

/-- `BlockIndexLatestCtx`, which stores the best height of the tables, or -1. -/
def blockIndexLatestCtx (r : Request) : Request :=
  { r with blockIndex := some (.int (if 0 ≤ c.getHeight then c.getHeight else -1)) }

/-- `BlockHashPathAndIndexCtx`, which stores the hash of the path, and its height as an `int64`. -/
def blockHashPathAndIndexCtx (hash : Text) (r : Request) : Request :=
  { r with
    blockHash := some (.string hash)
    blockIndex := some (.int64 ((c.getBlockHeight hash).getD (-1))) }

/-- A handler that needs the hash of the block. -/
def withHash (r : Request) (handler : Text → Response Rates Header Rest) :
    Response Rates Header Rest :=
  if c.getBlockHashCtx r = [] then unprocessable else handler (c.getBlockHashCtx r)

/-- A handler that needs its height: without one it answers that the request cannot be processed. -/
def withHeight (r : Request) (handler : Int64 → Response Rates Header Rest) :
    Response Rates Header Rest :=
  if c.getBlockHeightCtx r < 0 then unprocessable else handler (c.getBlockHeightCtx r)

/-- The JSON of a value that was found, and the answer for one that was not. -/
def found {α : Type} (value : Option α) (json : α → Value Rates Header Rest) :
    Response Rates Header Rest :=
  value.elim unprocessable fun value => .json (json value)

/-- `getBlockSummary`, the summary in the tables under the hash of the context. -/
def getBlockSummary (r : Request) : Response Rates Header Rest :=
  c.withHash r fun hash => found (c.getSummaryByHash hash) .summary

/-- The handler `getBlockHeight`, which writes the height of the context as a text, -1 for none. -/
def writeBlockHeight (r : Request) : Response Rates Header Rest :=
  .text (formatInt (c.getBlockHeightCtx r))

/-- `currentHeight`, which writes the height of the node that the status has recorded. -/
def currentHeight : Response Rates Header Rest :=
  .text (formatInt (Int64.ofInt c.status.height.toNat))

/-- The handler `getBlockHash`, which writes the hash of the context, the empty text for none. -/
def writeBlockHash (r : Request) : Response Rates Header Rest := .text (c.getBlockHashCtx r)

/-- `getBlockHeader`, the header that the node has at the height of the context. -/
def getBlockHeader (r : Request) : Response Rates Header Rest :=
  c.withHeight r fun idx => found (c.getHeader idx) .header

/-- The handler `getBlockSize`, the size in the tables at the height of the context. -/
def writeBlockSize (r : Request) : Response Rates Header Rest :=
  c.withHeight r fun idx => found (c.getBlockSize idx) .size

/-- `getBlockVerbose`, the block that the node has under the hash of the context. -/
def getBlockVerbose (r : Request) : Response Rates Header Rest :=
  c.withHash r fun hash => found (c.getBlockVerboseByHash hash) .verbose

/-- `getBlockStakeInfoExtended`, the stake info in the tables at the height of the context. -/
def getBlockStakeInfoExtended (r : Request) : Response Rates Header Rest :=
  c.withHeight r fun idx => found (c.getStakeInfoExtended idx) .stakeInfo

/-- `getBlockTransactions`. Its answer to a nil pointer is never reached. -/
def getBlockTransactions (r : Request) : Response Rates Header Rest :=
  c.withHash r fun hash => (c.getTransactionsForBlockByHash hash).elim .recovered fun block =>
    .json (.transactions block.1 block.2)

/-- `getBlockTransactionsCount`, the numbers of transactions of the block that the node has under
the hash of the context; a nil block is a panic that the router recovers from. -/
def getBlockTransactionsCount (r : Request) : Response Rates Header Rest :=
  c.withHash r fun hash => (c.getTransactionsForBlockByHash hash).elim .recovered fun block =>
    .json (.counts block.1.length block.2.length)

end AppContext

/-- How a request addresses a block: as the best one, by a hash or by an index. -/
inductive Route where
  | best
  | hash (blockhash : Text)
  | index (idx : Text)

/-- What a request asks for about a block, the last part of its path. -/
inductive Endpoint where
  | summary
  | height
  | hash
  | header
  | size
  | verbose
  | pos
  | tx
  | txCount
deriving DecidableEq

/-- The endpoints that `newAPIRouter` has for each way to address a block. -/
def Route.offers : Route → Endpoint → Bool
  | .hash _, .hash => false
  | .index _, .height => false
  | _, _ => true

/-- The handler that `newAPIRouter` registers for an endpoint. -/
def AppContext.handle (c : AppContext Rates Header Rest) (r : Request) :
    Endpoint → Response Rates Header Rest
  | .summary => c.getBlockSummary r
  | .height => c.writeBlockHeight r
  | .hash => c.writeBlockHash r
  | .header => c.getBlockHeader r
  | .size => c.writeBlockSize r
  | .verbose => c.getBlockVerbose r
  | .pos => c.getBlockStakeInfoExtended r
  | .tx => c.getBlockTransactions r
  | .txCount => c.getBlockTransactionsCount r

/-- The response to a request, none for a path that the router does not have. -/
def AppContext.respond (c : AppContext Rates Header Rest) (route : Route) (endpoint : Endpoint) :
    Option (Response Rates Header Rest) :=
  if route.offers endpoint then
    some <| match route with
    | .best =>
      if endpoint = .height then c.currentHeight
      else c.handle (c.blockIndexLatestCtx .empty) endpoint
    | .hash blockhash => c.handle (c.blockHashPathAndIndexCtx blockhash .empty) endpoint
    | .index idx => ((blockIndexPathCtx idx .empty).map (c.handle · endpoint)).getD notFound
  else none

end Model

section Serves

variable {hcd : Hcd} {statistics : Statistics} {Header Rest : Type}
  {c : AppContext statistics.Rates Header Rest} {chain : List MsgBlock} {headerOf : MsgBlock → Header}
  {verboseOf : MsgBlock → BlockVerbose Rest}

/-- The node answers for the blocks of its main chain. -/
structure NodeApi.Documented (node : NodeApi Header Rest) (hcd : Hcd) (chain : List MsgBlock)
    (headerOf : MsgBlock → Header) (verboseOf : MsgBlock → BlockVerbose Rest) : Prop where
  hash : ∀ (height : Nat) block, chain[height]? = some block →
    node.getBlockHash height = some (hcd.hashOf block)
  header : ∀ block ∈ chain, node.getBlockHeaderVerbose (hcd.hashOf block) = some (headerOf block)
  verbose : ∀ block ∈ chain, node.getBlockVerbose (hcd.hashOf block) = some (verboseOf block)

/-- The route names the block of the chain: its tip, the text of its hash, or a number that is
its height. -/
def Addresses (chainhash : Chainhash) (hcd : Hcd) (chain : List MsgBlock) :
    Route → MsgBlock → Prop
  | .best, block => chain.getLast? = some block
  | .hash blockhash, block => block ∈ chain ∧ blockhash = chainhash.hashString (hcd.hashOf block)
  | .index idx, block => ∃ height, atoi idx = some height ∧ 0 ≤ height.toInt ∧
      chain[height.toInt.toNat]? = some block

/-- The error for a route that names no block. -/
def Route.refusal {Rates : Type} : Route → Response Rates Header Rest
  | .index idx => (atoi idx).elim notFound fun _ => unprocessable
  | _ => unprocessable

/-- The status knows the height of a block, where a request is answered from it. -/
def AppContext.Knows (c : AppContext statistics.Rates Header Rest) (route : Route)
    (endpoint : Endpoint) (block : MsgBlock) : Prop :=
  route = .best → endpoint = .height → (c.status.height.toNat : Int) = block.height

/-- What is served of a block at each endpoint, from its rows and from the node's header and
data. -/
def served (chainhash : Chainhash) (rows : BlockRows statistics.Rates) (header : Header)
    (verbose : BlockVerbose Rest) : Endpoint → Response statistics.Rates Header Rest
  | .summary => .json (.summary rows.1)
  | .height => .text (formatInt (Int64.ofInt (summaryKey rows.1)))
  | .hash => .text (chainhash.hashString rows.1.hash)
  | .header => .json (.header header)
  | .size => .json (.size (DB.scanInt32 rows.1.size))
  | .verbose => .json (.verbose verbose)
  | .pos => .json (.stakeInfo rows.2)
  | .tx => .json (.transactions verbose.tx verbose.sTx)
  | .txCount => .json (.counts verbose.tx.length verbose.sTx.length)

/-- The height of a block, which is a `uint32`, fits an `int64`. -/
theorem toInt_height (block : MsgBlock) : (Int64.ofInt block.height).toInt = block.height := by
  have low : 0 ≤ block.height := height_nonneg block
  have high : block.height < 4294967296 := by
    have := block.header.height.toNat_lt
    simp only [MsgBlock.height]
    omega
  exact Int64.toInt_ofInt_of_le (by omega) (by omega)

/-- What the tables have of a block of the chain. -/
structure RowsAt (chainhash : Chainhash) (hcd : Hcd) (db : DB statistics.Rates) (chain : List MsgBlock)
    (block : MsgBlock) (rows : BlockRows statistics.Rates) : Prop where
  rowsOf : RowsOf hcd statistics block rows
  summary : db.summaries.find block.height = some rows.1
  stakeInfo : db.stakeInfos.find block.height = some rows.2
  byHash :
    retrieveBlockSummaryByHash chainhash db (chainhash.hashString (hcd.hashOf block)) = some rows.1
  size : db.retrieveBlockSizeRange none block.height block.height =
    .ok [DB.scanInt32 rows.1.size]

/-- The tables have the rows of each block of the chain, under its height and under its hash. -/
theorem exists_rowsAt {chainhash : Chainhash} (texts : chainhash.Documented)
    {db : DB statistics.Rates} (mirrors : Mirrors hcd db chain)
    (rooted : (chainView hcd).Rooted chain) (distinct : (chain.map hcd.hashOf).Nodup) {position : Nat}
    {block : MsgBlock} (found : chain[position]? = some block) :
    ∃ rows, RowsAt chainhash hcd db chain block rows := by
  obtain ⟨rows, ⟨summaries, infos⟩, related⟩ := mirrors.rows
  obtain ⟨row, atRow, isRow⟩ := exists_row related found
  have atPosition : block.height = position := rooted.height_eq found
  have inside : position < chain.length := (List.getElem?_eq_some_iff.mp found).1
  have inSummaries : row.1 ∈ db.summaries.rows := by
    rw [summaries]
    exact List.mem_map_of_mem (List.mem_of_getElem? atRow)
  have inInfos : row.2 ∈ db.stakeInfos.rows := by
    rw [infos]
    exact List.mem_map_of_mem (List.mem_of_getElem? atRow)
  refine ⟨row, isRow, ?_, ?_, ?_, ?_⟩
  · rw [← isRow.keys.1]
    exact find_key inSummaries
  · rw [← isRow.keys.2]
    exact find_key inInfos
  · -- a row with the hash is that of the block, since no other block of the chain has it
    unfold retrieveBlockSummaryByHash
    cases isFound : db.summaries.rows.find? fun other =>
        chainhash.hashString other.hash = chainhash.hashString (hcd.hashOf block) with
    | none => exact absurd (List.find?_eq_none.mp isFound row.1 inSummaries) (by simp [isRow.hash])
    | some other =>
      have sameText : chainhash.hashString other.hash = chainhash.hashString (hcd.hashOf block) := by
        simpa using List.find?_some isFound
      have member := List.mem_of_find?_eq_some isFound
      rw [summaries] at member
      obtain ⟨index, here⟩ := List.mem_iff_getElem?.mp member
      rw [List.getElem?_map] at here
      obtain ⟨otherRow, atIndex, rfl⟩ := Option.map_eq_some_iff.mp here
      have inChain : index < chain.length :=
        related.length_eq ▸ (List.getElem?_eq_some_iff.mp atIndex).1
      obtain ⟨third, isThird, ofIndex⟩ := exists_row related (List.getElem?_eq_getElem inChain)
      obtain rfl : otherRow = third := Option.some.inj (atIndex.symm.trans isThird)
      have sameHash : hcd.hashOf chain[index] = hcd.hashOf block :=
        ofIndex.hash.symm.trans (texts.hashString_injective sameText)
      have sameIndex : index = position := by
        have inHashes : index < (chain.map hcd.hashOf).length := by rwa [List.length_map]
        have atPlace : position < (chain.map hcd.hashOf).length := by rwa [List.length_map]
        have sameEntry : (chain.map hcd.hashOf)[index] = (chain.map hcd.hashOf)[position] := by
          rw [List.getElem_map, List.getElem_map, sameHash]
          rw [List.getElem?_eq_getElem inside] at found
          rw [Option.some.inj found]
        exact distinct.getElem_inj_iff.mp sameEntry
      subst sameIndex
      rw [atRow] at atIndex
      rw [Option.some.inj atIndex]
  · have consecutive := (consecutive_of_rowsOf rooted related).1
    rw [← summaries] at consecutive
    have slice := between_consecutive consecutive position 1
    have one : ((db.summaries.rows.drop position).take 1) = [row.1] := by
      rw [summaries, ← List.map_drop, ← List.map_take, List.take_one, List.head?_drop, atRow]
      rfl
    have same : (position : Int) + (1 : Nat) - 1 = position := by omega
    rw [one, same] at slice
    have known : ¬ (db.dbSummaryHeight < (position : Int) ∨ (position : Int) < 0) := by
      rw [mirrors.summaryHeight]
      omega
    have count : (position : Int) - position + 1 = 1 := by omega
    rw [atPosition, DB.retrieveBlockSizeRange, count]
    simp only [if_neg known, slice]
    rfl

/-- A handler serves the block whose hash and height its context stands for. -/
theorem handle_served (texts : c.chainhash.Documented) {position : Nat} {block : MsgBlock}
    (found : chain[position]? = some block) (rooted : (chainView hcd).Rooted chain)
    (documented : c.node.Documented hcd chain headerOf verboseOf)
    {rows : BlockRows statistics.Rates} (isRows : RowsAt c.chainhash hcd c.db chain block rows) {r : Request}
    (isHash : c.getBlockHashCtx r = c.chainhash.hashString (hcd.hashOf block))
    (isHeight : c.getBlockHeightCtx r = Int64.ofInt block.height) (endpoint : Endpoint) :
    c.handle r endpoint = served c.chainhash rows (headerOf block) (verboseOf block) endpoint := by
  have nonneg : ¬ Int64.ofInt block.height < 0 := by
    have := height_nonneg block
    rw [Int64.lt_iff_toInt_lt, toInt_height, Int64.toInt_zero]
    omega
  have inChain : block ∈ chain := List.mem_of_getElem? found
  have byHash (handler : Text → Response statistics.Rates Header Rest) :
      c.withHash r handler = handler (c.chainhash.hashString (hcd.hashOf block)) := by
    rw [AppContext.withHash, isHash, if_neg (texts.hashString_ne_nil _)]
  have byHeight (handler : Int64 → Response statistics.Rates Header Rest) :
      c.withHeight r handler = handler (Int64.ofInt block.height) := by
    rw [AppContext.withHeight, isHeight, if_neg nonneg]
  have ofNode : c.getBlockVerboseByHash (c.chainhash.hashString (hcd.hashOf block)) =
      some (verboseOf block) := by
    rw [AppContext.getBlockVerboseByHash, texts.readHash_hashString, Option.bind_some,
      documented.verbose block inChain]
  have transactions : c.getTransactionsForBlockByHash (c.chainhash.hashString (hcd.hashOf block)) =
      some ((verboseOf block).tx, (verboseOf block).sTx) := by
    rw [AppContext.getTransactionsForBlockByHash, ofNode]
    rfl
  cases endpoint with
  | summary =>
    simp only [AppContext.handle, AppContext.getBlockSummary, byHash, AppContext.getSummaryByHash,
      isRows.byHash]
    rfl
  | height =>
    simp only [AppContext.handle, AppContext.writeBlockHeight, isHeight, served,
      isRows.rowsOf.keys.1]
  | hash =>
    simp only [AppContext.handle, AppContext.writeBlockHash, isHash, served, isRows.rowsOf.hash]
  | header =>
    have atHeight : block.height = position := rooted.height_eq found
    have here := documented.hash position block found
    rw [← atHeight] at here
    have header : c.getHeader (Int64.ofInt block.height) = some (headerOf block) := by
      rw [AppContext.getHeader, toInt_height, here, Option.bind_some,
        documented.header block inChain]
    simp only [AppContext.handle, AppContext.getBlockHeader, byHeight, header]
    rfl
  | size =>
    have size : c.getBlockSize (Int64.ofInt block.height) = some (DB.scanInt32 rows.1.size) := by
      rw [AppContext.getBlockSize, toInt_height, isRows.size]
    simp only [AppContext.handle, AppContext.writeBlockSize, byHeight, size]
    rfl
  | verbose =>
    simp only [AppContext.handle, AppContext.getBlockVerbose, byHash, ofNode]
    rfl
  | pos =>
    have info : c.getStakeInfoExtended (Int64.ofInt block.height) = some rows.2 := by
      rw [AppContext.getStakeInfoExtended, toInt_height, isRows.stakeInfo]
    simp only [AppContext.handle, AppContext.getBlockStakeInfoExtended, byHeight, info]
    rfl
  | tx =>
    simp only [AppContext.handle, AppContext.getBlockTransactions, byHash, transactions]
    rfl
  | txCount =>
    simp only [AppContext.handle, AppContext.getBlockTransactionsCount, byHash, transactions]
    rfl

/-- A handler of a value that may be missing does not panic. -/
theorem found_ne {α : Type} (value : Option α) (json : α → Value statistics.Rates Header Rest) :
    AppContext.found value json ≠ .recovered := by
  cases value <;> exact nofun

/-- Only the handlers of the transactions panic, and they do for a block that the node does not
return. -/
theorem handle_recovered {r : Request} {endpoint : Endpoint} :
    c.handle r endpoint = .recovered ↔ (endpoint = .tx ∨ endpoint = .txCount) ∧
      c.getBlockHashCtx r ≠ [] ∧ c.getBlockVerboseByHash (c.getBlockHashCtx r) = none := by
  have byHash (handler : Text → Response statistics.Rates Header Rest)
      (never : ∀ hash, handler hash ≠ .recovered) : c.withHash r handler ≠ .recovered := by
    unfold AppContext.withHash
    split
    · exact nofun
    · exact never _
  have byHeight (handler : Int64 → Response statistics.Rates Header Rest)
      (never : ∀ idx, handler idx ≠ .recovered) : c.withHeight r handler ≠ .recovered := by
    unfold AppContext.withHeight
    split
    · exact nofun
    · exact never _
  have panics (json : List Text × List Text → Response statistics.Rates Header Rest)
      (writes : ∀ block, json block ≠ .recovered) :
      (c.withHash r fun hash => (c.getTransactionsForBlockByHash hash).elim .recovered json) =
          .recovered ↔
        c.getBlockHashCtx r ≠ [] ∧ c.getBlockVerboseByHash (c.getBlockHashCtx r) = none := by
    unfold AppContext.withHash AppContext.getTransactionsForBlockByHash
    by_cases isEmpty : c.getBlockHashCtx r = []
    · rw [if_pos isEmpty]
      exact ⟨nofun, fun both => absurd isEmpty both.1⟩
    · simp only [if_neg isEmpty]
      cases c.getBlockVerboseByHash (c.getBlockHashCtx r) with
      | none => simpa using isEmpty
      | some block => simpa using writes (block.tx, block.sTx)
  have never {response : Response statistics.Rates Header Rest} {condition : Prop}
      (answers : response ≠ .recovered) (other : ¬ condition) :
      response = .recovered ↔ condition ∧
        c.getBlockHashCtx r ≠ [] ∧ c.getBlockVerboseByHash (c.getBlockHashCtx r) = none :=
    ⟨fun same => absurd same answers, fun both => absurd both.1 other⟩
  cases endpoint with
  | summary => exact never (byHash _ fun _ => found_ne _ _) (by decide)
  | height => exact never nofun (by decide)
  | hash => exact never nofun (by decide)
  | header => exact never (byHeight _ fun _ => found_ne _ _) (by decide)
  | size => exact never (byHeight _ fun _ => found_ne _ _) (by decide)
  | verbose => exact never (byHash _ fun _ => found_ne _ _) (by decide)
  | pos => exact never (byHeight _ fun _ => found_ne _ _) (by decide)
  | tx =>
    have isPanic := panics (fun block => .json (.transactions block.1 block.2)) fun _ => by simp
    exact isPanic.trans ⟨fun both => ⟨Or.inl rfl, both⟩, And.right⟩
  | txCount =>
    have isPanic := panics (fun block => .json (.counts block.1.length block.2.length)) fun _ => by simp
    exact isPanic.trans ⟨fun both => ⟨Or.inr rfl, both⟩, And.right⟩

/-- The height of the block is found under its hash. -/
theorem getBlockHeight_string {block : MsgBlock} {rows : BlockRows statistics.Rates}
    (isRows : RowsAt c.chainhash hcd c.db chain block rows) :
    c.getBlockHeight (c.chainhash.hashString (hcd.hashOf block)) = some (Int64.ofInt block.height) := by
  rw [AppContext.getBlockHeight, retrieveBlockHeight, isRows.byHash, Option.map_some,
    isRows.rowsOf.keys.1]

/-- The context of an index stands for the block at it. -/
theorem index_ctx {block : MsgBlock} {rows : BlockRows statistics.Rates}
    (isRows : RowsAt c.chainhash hcd c.db chain block rows) {r : Request}
    (index : r.blockIndex = some (.int (Int64.ofInt block.height))) (noHash : r.blockHash = none) :
    c.getBlockHashCtx r = c.chainhash.hashString (hcd.hashOf block) ∧
      c.getBlockHeightCtx r = Int64.ofInt block.height := by
  have nonneg : ¬ Int64.ofInt block.height < 0 := by
    have := height_nonneg block
    rw [Int64.lt_iff_toInt_lt, toInt_height, Int64.toInt_zero]
    omega
  have only : getBlockHashOnlyCtx r = [] := by
    rw [getBlockHashOnlyCtx, noHash]
  have atIndex : getBlockIndexCtx r = Int64.ofInt block.height := by
    rw [getBlockIndexCtx, index]
  constructor
  · rw [AppContext.getBlockHashCtx, if_pos only, atIndex, AppContext.getBlockHash, retrieveBlockHash,
      toInt_height,
      isRows.summary, Option.map_some, isRows.rowsOf.hash]
    rfl
  · rw [AppContext.getBlockHeightCtx, index]
    exact if_neg nonneg

/-- The context of a hash leads to its block, though its height is stored under a type that the
handlers do not read. -/
theorem hash_ctx (texts : c.chainhash.Documented) {block : MsgBlock} {rows : BlockRows statistics.Rates}
    (isRows : RowsAt c.chainhash hcd c.db chain block rows) (r : Request) :
    let inner := c.blockHashPathAndIndexCtx (c.chainhash.hashString (hcd.hashOf block)) r
    c.getBlockHashCtx inner = c.chainhash.hashString (hcd.hashOf block) ∧
      c.getBlockHeightCtx inner = Int64.ofInt block.height := by
  have only : getBlockHashOnlyCtx (c.blockHashPathAndIndexCtx
      (c.chainhash.hashString (hcd.hashOf block)) r) = c.chainhash.hashString (hcd.hashOf block) := rfl
  constructor
  · rw [AppContext.getBlockHashCtx, only, if_neg (texts.hashString_ne_nil _)]
  · rw [AppContext.getBlockHeightCtx, only, getBlockHeight_string isRows]
    rfl

/-- The best height of mirrored tables is the height of the chain's tip. -/
theorem getHeight_tip (mirrors : Mirrors hcd c.db chain) (rooted : (chainView hcd).Rooted chain)
    {block : MsgBlock} (tip : chain.getLast? = some block) :
    c.getHeight = Int64.ofInt block.height := by
  rw [List.getLast?_eq_getElem?] at tip
  have isHeight : block.height = (chain.length - 1 : Nat) := rooted.height_eq tip
  have nonempty : 0 < chain.length := by
    have := (List.getElem?_eq_some_iff.mp tip).1
    omega
  have inMemory : c.db.dbSummaryHeight = block.height := by
    rw [mirrors.summaryHeight, isHeight]
    omega
  have known : ¬ c.db.dbSummaryHeight < 0 := by
    have := height_nonneg block
    omega
  rw [AppContext.getHeight, DB.getBlockSummaryHeight, if_neg known, inMemory]

/-- The height in the status is the height of a block exactly when their texts are the same. -/
theorem currentHeight_eq_iff {block : MsgBlock} {rows : BlockRows statistics.Rates}
    (isRows : RowsAt c.chainhash hcd c.db chain block rows) :
    c.currentHeight = served c.chainhash rows (headerOf block) (verboseOf block) .height ↔
      (c.status.height.toNat : Int) = block.height := by
  have small := c.status.height.toNat_lt
  have isStatus : (Int64.ofInt c.status.height.toNat).toInt = c.status.height.toNat :=
    Int64.toInt_ofInt_of_le (by omega) (by omega)
  rw [AppContext.currentHeight, served, isRows.rowsOf.keys.1]
  constructor
  · intro same
    have read := congrArg Strconv.parseInt (Response.text.inj same)
    rw [parseInt_formatInt, parseInt_formatInt] at read
    have values := congrArg Int64.toInt (Option.some.inj read)
    rwa [isStatus, toInt_height] at values
  · intro same
    rw [same]

/-- Every address of a block of the chain is answered with the data of the block, where the status
knows its height. -/
theorem respond_served (texts : c.chainhash.Documented) (mirrors : Mirrors hcd c.db chain)
    (rooted : (chainView hcd).Rooted chain)
    (documented : c.node.Documented hcd chain headerOf verboseOf) {position : Nat} {block : MsgBlock}
    (found : chain[position]? = some block) {rows : BlockRows statistics.Rates}
    (isRows : RowsAt c.chainhash hcd c.db chain block rows) {route : Route}
    (addresses : Addresses c.chainhash hcd chain route block) {endpoint : Endpoint}
    (offered : route.offers endpoint = true) :
    c.respond route endpoint =
        some (served c.chainhash rows (headerOf block) (verboseOf block) endpoint) ↔
      c.Knows route endpoint block := by
  unfold AppContext.respond
  rw [if_pos offered, Option.some.injEq]
  cases route with
  | best =>
    by_cases isStatus : endpoint = .height
    · subst isStatus
      simp only [if_true, AppContext.Knows, true_implies]
      exact currentHeight_eq_iff isRows
    · simp only [if_neg isStatus]
      have nonneg : 0 ≤ Int64.ofInt block.height := by
        rw [Int64.le_iff_toInt_le, toInt_height, Int64.toInt_zero]
        exact height_nonneg block
      have index : (c.blockIndexLatestCtx .empty).blockIndex =
          some (.int (Int64.ofInt block.height)) := by
        rw [AppContext.blockIndexLatestCtx, getHeight_tip mirrors rooted addresses, if_pos nonneg]
      obtain ⟨isHash, isHeight⟩ := index_ctx isRows index rfl
      exact iff_of_true (handle_served texts found rooted documented isRows isHash isHeight endpoint)
        fun _ asked => absurd asked isStatus
  | hash blockhash =>
    obtain ⟨-, rfl⟩ := addresses
    obtain ⟨isHash, isHeight⟩ := hash_ctx texts isRows .empty
    exact iff_of_true (handle_served texts found rooted documented isRows isHash isHeight endpoint)
      fun isBest => by cases isBest
  | index idx =>
    obtain ⟨height, isNumber, nonneg, atHeight⟩ := addresses
    have asNat : block.height = height.toInt.toNat := rooted.height_eq atHeight
    have same : Int64.ofInt block.height = height := by
      rw [asNat, Int.toNat_of_nonneg nonneg, Int64.ofInt_toInt]
    have index : ({ Request.empty with blockIndex := some (.int height) } : Request).blockIndex =
        some (.int (Int64.ofInt block.height)) := by
      rw [same]
    obtain ⟨isHash, isHeight⟩ := index_ctx isRows index rfl
    simp only [blockIndexPathCtx, isNumber, Option.map_some, Option.getD_some]
    exact iff_of_true (handle_served texts found rooted documented isRows isHash isHeight endpoint)
      fun isBest => by cases isBest

/-- A context that stands for no block of the tables: it has neither the hash of one nor the
height of one. -/
structure Unknown (c : AppContext statistics.Rates Header Rest) (r : Request) : Prop where
  summary : c.getSummaryByHash (c.getBlockHashCtx r) = none
  stakeInfo : c.getStakeInfoExtended (c.getBlockHeightCtx r) = none
  size : c.getBlockHeightCtx r < 0 ∨ c.getBlockSize (c.getBlockHeightCtx r) = none

/-- The handlers that read the tables answer it with an error. -/
theorem Unknown.handle {r : Request} (isUnknown : Unknown c r) {endpoint : Endpoint}
    (ofTables : endpoint ∈ [Endpoint.summary, .size, .pos]) :
    c.handle r endpoint = unprocessable := by
  simp only [List.mem_cons, List.not_mem_nil, or_false] at ofTables
  rcases ofTables with rfl | rfl | rfl
  · simp only [AppContext.handle, AppContext.getBlockSummary, AppContext.withHash, isUnknown.summary]
    split <;> rfl
  · simp only [AppContext.handle, AppContext.writeBlockSize, AppContext.withHeight]
    rcases isUnknown.size with negative | noSize
    · rw [if_pos negative]
    · rw [noSize]
      split <;> rfl
  · simp only [AppContext.handle, AppContext.getBlockStakeInfoExtended, AppContext.withHeight,
      isUnknown.stakeInfo]
    split <;> rfl

/-- The tables have rows for the heights of the chain only. -/
theorem find_none {db : DB statistics.Rates} (mirrors : Mirrors hcd db chain)
    (rooted : (chainView hcd).Rooted chain) {height : Int}
    (outside : height < 0 ∨ (chain.length : Int) ≤ height) :
    db.summaries.find height = none ∧ db.stakeInfos.find height = none := by
  obtain ⟨rows, ⟨summaries, infos⟩, related⟩ := mirrors.rows
  obtain ⟨summaryKeys, infoKeys⟩ := consecutive_of_rowsOf rooted related
  rw [← summaries] at summaryKeys
  rw [← infos] at infoKeys
  have count : db.summaries.rows.length = chain.length := by
    rw [summaries, List.length_map, related.length_eq]
  have infoCount : db.stakeInfos.rows.length = chain.length := by
    rw [infos, List.length_map, related.length_eq]
  exact ⟨find_consecutive_none summaryKeys (by omega), find_consecutive_none infoKeys (by omega)⟩

/-- Mirrored tables have no size for a height that no block of the chain has. -/
theorem getBlockSize_none (mirrors : Mirrors hcd c.db chain) {height : Int64}
    (outside : height.toInt < 0 ∨ (chain.length : Int) ≤ height.toInt) :
    c.getBlockSize height = none := by
  have known : c.db.dbSummaryHeight < height.toInt ∨ height.toInt < 0 := by
    rw [mirrors.summaryHeight]
    omega
  have count : height.toInt - height.toInt + 1 = 1 := by omega
  rw [AppContext.getBlockSize, DB.retrieveBlockSizeRange, count]
  simp only [if_pos known]
  rfl

/-- A hash of no block of the chain has no summary. -/
theorem retrieveBlockSummaryByHash_none {chainhash : Chainhash} {db : DB statistics.Rates}
    (mirrors : Mirrors hcd db chain) {hash : Text}
    (noBlock : ∀ block ∈ chain, hash ≠ chainhash.hashString (hcd.hashOf block)) :
    retrieveBlockSummaryByHash chainhash db hash = none := by
  obtain ⟨rows, ⟨summaries, -⟩, related⟩ := mirrors.rows
  refine List.find?_eq_none.mpr fun row member => ?_
  rw [summaries] at member
  obtain ⟨index, here⟩ := List.mem_iff_getElem?.mp member
  rw [List.getElem?_map] at here
  obtain ⟨rowOf, atIndex, rfl⟩ := Option.map_eq_some_iff.mp here
  have inChain : index < chain.length :=
    related.length_eq ▸ (List.getElem?_eq_some_iff.mp atIndex).1
  obtain ⟨other, isOther, isRow⟩ := exists_row related (List.getElem?_eq_getElem inChain)
  obtain rfl : rowOf = other := Option.some.inj (atIndex.symm.trans isOther)
  simp only [decide_eq_true_eq, isRow.hash]
  exact fun same => noBlock _ (List.getElem_mem inChain) same.symm

/-- Mirrored tables have no row under the empty text, because a hash is written in 64 digits. -/
theorem retrieveBlockSummaryByHash_nil {chainhash : Chainhash} (texts : chainhash.Documented)
    {db : DB statistics.Rates} (mirrors : Mirrors hcd db chain) :
    retrieveBlockSummaryByHash chainhash db [] = none :=
  retrieveBlockSummaryByHash_none mirrors fun _ _ same => texts.hashString_ne_nil _ same.symm

/-- A context with an index that no block has stands for no block. -/
theorem unknown_of_index (texts : c.chainhash.Documented) (mirrors : Mirrors hcd c.db chain)
    (rooted : (chainView hcd).Rooted chain)
    {r : Request} {height : Int64} (index : r.blockIndex = some (.int height))
    (noHash : r.blockHash = none)
    (outside : height.toInt < 0 ∨ (chain.length : Int) ≤ height.toInt) : Unknown c r := by
  have only : getBlockHashOnlyCtx r = [] := by
    rw [getBlockHashOnlyCtx, noHash]
  have atIndex : getBlockIndexCtx r = height := by
    rw [getBlockIndexCtx, index]
  have isHash : c.getBlockHashCtx r = [] := by
    rw [AppContext.getBlockHashCtx, if_pos only, atIndex, AppContext.getBlockHash, retrieveBlockHash,
      (find_none mirrors rooted outside).1]
    rfl
  have isHeight : (c.getBlockHeightCtx r).toInt < 0 ∨
      (chain.length : Int) ≤ (c.getBlockHeightCtx r).toInt := by
    rw [AppContext.getBlockHeightCtx, index]
    simp only [only, AppContext.getBlockHeight, retrieveBlockHeight,
      retrieveBlockSummaryByHash_nil texts mirrors]
    split
    · exact Or.inl (by decide)
    · exact outside
  refine ⟨?_, (find_none mirrors rooted isHeight).2, Or.inr (getBlockSize_none mirrors isHeight)⟩
  rw [isHash]
  exact retrieveBlockSummaryByHash_nil texts mirrors

/-- The context of a hash that no block has leads to no block. -/
theorem unknown_of_hash (texts : c.chainhash.Documented) (mirrors : Mirrors hcd c.db chain)
    (rooted : (chainView hcd).Rooted chain)
    {hash : Text} (noBlock : ∀ block ∈ chain, hash ≠ c.chainhash.hashString (hcd.hashOf block)) :
    Unknown c (c.blockHashPathAndIndexCtx hash .empty) := by
  have noSummary := retrieveBlockSummaryByHash_none mirrors noBlock
  have isHeight : c.getBlockHeightCtx (c.blockHashPathAndIndexCtx hash .empty) = -1 := by
    change (c.getBlockHeight hash).getD (-1) = -1
    rw [AppContext.getBlockHeight, retrieveBlockHeight, noSummary]
    rfl
  have below : (-1 : Int64).toInt < 0 ∨ (chain.length : Int) ≤ (-1 : Int64).toInt :=
    Or.inl (by decide)
  refine ⟨?_, ?_, Or.inl ?_⟩
  · by_cases isEmpty : hash = []
    · -- an empty hash counts as none, and the index beside it has the wrong type
      have isHash : c.getBlockHashCtx (c.blockHashPathAndIndexCtx hash .empty) = [] := by
        change (if hash = [] then (c.getBlockHash (-1)).getD [] else hash) = []
        rw [if_pos isEmpty, AppContext.getBlockHash, retrieveBlockHash,
          (find_none mirrors rooted below).1]
        rfl
      rw [isHash]
      exact retrieveBlockSummaryByHash_nil texts mirrors
    · change c.getSummaryByHash (if hash = [] then (c.getBlockHash (-1)).getD [] else hash) = none
      rw [if_neg isEmpty]
      exact noSummary
  · rw [isHeight]
    exact (find_none mirrors rooted below).2
  · rw [isHeight]
    decide

/-- An address of no block of the chain is answered with an error by the handlers that read
the tables: 404 where the path has no number, and else 422. -/
theorem respond_unknown (texts : c.chainhash.Documented) (mirrors : Mirrors hcd c.db chain)
    (rooted : (chainView hcd).Rooted chain) {route : Route}
    (noBlock : ∀ block, ¬ Addresses c.chainhash hcd chain route block) {endpoint : Endpoint}
    (ofTables : endpoint ∈ [Endpoint.summary, .size, .pos]) :
    c.respond route endpoint = some route.refusal := by
  have offered : route.offers endpoint = true := by
    simp only [List.mem_cons, List.not_mem_nil, or_false] at ofTables
    rcases ofTables with rfl | rfl | rfl <;> cases route <;> rfl
  unfold AppContext.respond
  rw [if_pos offered]
  refine congrArg some ?_
  cases route with
  | best =>
    have noChain : chain = [] := by
      cases isLast : chain.getLast? with
      | none => exact List.getLast?_eq_none_iff.mp isLast
      | some block => exact absurd isLast (noBlock block)
    have isUnknown := unknown_of_index texts mirrors rooted
      (r := c.blockIndexLatestCtx .empty) rfl rfl (by
        rw [noChain, List.length_nil]
        split <;> omega)
    have notStatus : endpoint ≠ .height := by
      rintro rfl
      exact absurd ofTables (by decide)
    exact (if_neg notStatus).trans (isUnknown.handle ofTables)
  | hash blockhash =>
    have isUnknown := unknown_of_hash texts mirrors rooted fun block member same =>
      noBlock block ⟨member, same⟩
    exact isUnknown.handle ofTables
  | index idx =>
    cases isNumber : atoi idx with
    | none =>
      simp only [blockIndexPathCtx, Route.refusal, isNumber, Option.map_none, Option.getD_none,
        Option.elim_none]
    | some height =>
      have outside : height.toInt < 0 ∨ (chain.length : Int) ≤ height.toInt := by
        by_contra inside
        have atHeight : height.toInt.toNat < chain.length := by omega
        exact noBlock _ ⟨height, isNumber, by omega, List.getElem?_eq_getElem atHeight⟩
      have isUnknown := unknown_of_index (r := { Request.empty with blockIndex := some (.int height) })
        texts mirrors rooted rfl rfl outside
      simp only [blockIndexPathCtx, Route.refusal, isNumber, Option.map_some, Option.getD_some,
        Option.elim_some]
      exact isUnknown.handle ofTables

/-- Over tables that mirror the main chain: every address of a block is answered, by each of its
endpoints, with the rows of the block, its header and its transactions, whichever address it is;
only the height of the best block is answered with another one where the status has another one.
An address of no block of the chain is answered with an error by the endpoints of the tables, 404
where the path has no number and else 422. -/
theorem block_routes_serve (texts : c.chainhash.Documented) (mirrors : Mirrors hcd c.db chain)
    (rooted : (chainView hcd).Rooted chain) (distinct : (chain.map hcd.hashOf).Nodup)
    (documented : c.node.Documented hcd chain headerOf verboseOf) :
    (∀ block ∈ chain, ∃ rows, RowsOf hcd statistics block rows ∧
      ∀ route, Addresses c.chainhash hcd chain route block →
        ∀ endpoint, route.offers endpoint = true →
          (c.respond route endpoint =
              some (served c.chainhash rows (headerOf block) (verboseOf block) endpoint) ↔
            c.Knows route endpoint block)) ∧
    ∀ route, (∀ block, ¬ Addresses c.chainhash hcd chain route block) →
      ∀ endpoint ∈ [Endpoint.summary, .size, .pos],
        c.respond route endpoint = some route.refusal := by
  constructor
  · intro block member
    obtain ⟨position, found⟩ := List.mem_iff_getElem?.mp member
    obtain ⟨rows, isRows⟩ := exists_rowsAt texts mirrors rooted distinct found
    exact ⟨rows, isRows.rowsOf, fun route addresses endpoint offered =>
      respond_served texts mirrors rooted documented found isRows addresses offered⟩
  · intro route noBlock endpoint ofTables
    exact respond_unknown texts mirrors rooted noBlock ofTables

end Serves

section Sample

/-- A node of two blocks: a header is its height, and nothing more is known of a block. -/
def servedNode : NodeApi Nat Unit where
  getBlockHash height :=
    if height = 0 then some (Sample.hcd.hashOf Sample.genesis)
    else if height = 1 then some (Sample.hcd.hashOf Sample.firstBlock) else none
  getBlockHeaderVerbose hash :=
    if hash = Sample.hcd.hashOf Sample.genesis then some 0
    else if hash = Sample.hcd.hashOf Sample.firstBlock then some 1 else none
  getBlockVerbose hash :=
    if hash = Sample.hcd.hashOf Sample.genesis then some ⟨[], [], ()⟩
    else if hash = Sample.hcd.hashOf Sample.firstBlock then
      some ⟨[], [Sample.hcd.hashString 8], ()⟩
    else none

/-- The rows of the second of the two sample blocks, as the start-up synchronization makes them. -/
def firstRows : BlockRows noRates.Rates :=
  (resyncSummary Sample.hcd noRates (Sample.hcd.hashOf Sample.firstBlock) ⟨0, 0, 0⟩ Sample.firstBlock,
    ⟨feeRateInfoBlock Sample.hcd noRates Sample.firstBlock, 0, 0, 0, ⟨0, 0, 0⟩⟩)

/-- The tables of both, the node, and a status that has the height of the second. -/
def servedContext : AppContext noRates.Rates Nat Unit where
  db := ⟨genesisSummaries.insertOrReplace firstRows.1, genesisInfos.insertOrReplace firstRows.2, 1, 1⟩
  node := servedNode
  status := ⟨true, 1, 1, 8, 1, "1.0.0"⟩
  chainhash := .hexadecimal

/-- The tables of the sample mirror the chain of the two blocks. -/
theorem served_mirror : Mirrors Sample.hcd servedContext.db [Sample.genesis, Sample.firstBlock] := by
  let summary := resyncSummary Sample.hcd noRates (Sample.hcd.hashOf Sample.genesis) ⟨0, 0, 0⟩ Sample.genesis
  let info : StakeInfoExtended Unit :=
    ⟨feeRateInfoBlock Sample.hcd noRates Sample.genesis, 0, 0, 0, ⟨0, 0, 0⟩⟩
  exact ⟨⟨[(summary, info), firstRows], ⟨rfl, rfl⟩,
    .cons ⟨rfl, rfl, rfl⟩ (.cons ⟨rfl, rfl, rfl⟩ .nil)⟩, rfl, rfl⟩

/-- The two sample blocks are a chain from a genesis block. -/
theorem served_rooted : (chainView Sample.hcd).Rooted [Sample.genesis, Sample.firstBlock] :=
  genesis_rooted.concat (by rintro tip ⟨⟩; exact ⟨rfl, rfl⟩)

/-- The law at the second block of two, by its height and as the best one. -/
theorem block_routes_serve_two :
    servedContext.respond (.index ['1']) .txCount = some (.json (.counts 0 1)) ∧
      servedContext.respond .best .height = some (.text ['1']) ∧
      servedContext.respond (.index ['2']) .summary = some unprocessable := by
  have documented : servedContext.node.Documented Sample.hcd [Sample.genesis, Sample.firstBlock]
      (fun block => block.header.height.toNat) (fun block => ⟨[], block.sTransactions.map fun _ =>
        Sample.hcd.hashString 8, ()⟩) := by
    refine ⟨?_, ?_, ?_⟩
    · intro height block found
      match height with
      | 0 => cases found; rfl
      | 1 => cases found; rfl
      | _ + 2 => cases found
    · intro block member
      rcases List.mem_pair.mp member with rfl | rfl <;> rfl
    · intro block member
      rcases List.mem_pair.mp member with rfl | rfl <;> rfl
  have texts : servedContext.chainhash.Documented := Chainhash.hexadecimal_documented
  obtain ⟨serves, refuses⟩ := block_routes_serve texts served_mirror served_rooted (by decide)
    documented
  obtain ⟨rows, isRows, answers⟩ := serves Sample.firstBlock (by decide)
  refine ⟨?_, ?_, ?_⟩
  · exact (answers (.index ['1']) ⟨1, by decide, by decide, rfl⟩ .txCount rfl).mpr nofun
  · have best := (answers .best rfl .height rfl).mpr fun _ _ => rfl
    rw [best, served, isRows.keys.1]
    rfl
  · refine refuses (.index ['2']) ?_ .summary (by decide)
    rintro block ⟨height, isNumber, -, found⟩
    obtain rfl : 2 = height := Option.some.inj isNumber
    cases found

end Sample

end Hcexplorer.BlockRoutes

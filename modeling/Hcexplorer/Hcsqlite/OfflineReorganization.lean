import Hcexplorer.Hcsqlite.Resync
import Hcexplorer.StakeChain

/-!
# A reorganization while the program was down

The three stores resume from heights only. While the program was down, the node
may have replaced blocks at those heights: no hash is compared, neither when the
stake database is opened nor when the loop starts.

The law says exactly when a finished synchronization agrees with the node's main
chain: when the main chain reaches the lowest of the three heights, and is the
stored chain at every height that was kept.
-/

namespace Hcexplorer.Hcsqlite

open Collection

section Opening

/-- The functions of hcd that `Open` calls on the stake bucket, to load its best node or to make
it new. -/
structure OpenApi (api : StakeApi) where
  loadBestNode : api.Store → Nat → Hash → BlockHeader → Except String api.Node
  initDatabaseState : api.Store → api.Node × api.Store

/-- What hcd documents of them: the node that is loaded is at the height it is loaded
for, the first one is that of the genesis block. -/
structure OpenApi.Documented {api : StakeApi} (openApi : OpenApi api) : Prop where
  loaded : ∀ store height hash header node,
    openApi.loadBestNode store height hash header = .ok node → api.height node = height
  initial : ∀ store, api.height (openApi.initDatabaseState store).1 = 0

/-- What `database.Open` finds: the files of the last run, those of a running one, or
none that can be read, so that new ones are created. -/
inductive DatabaseFiles (api : StakeApi) where
  | existing (store : api.Store)
  | inUse
  | created (store : Except String api.Store)

variable {api : StakeApi}

/-- The best node of the persisted state, from the node's block of its hash. -/
def loadBest (openApi : OpenApi api) (env : Environment) (store : api.Store) :
    Except String api.Node :=
  match env.viewErr, api.chainState store with
  | some err, _ => .error err
  | none, none => .error "missing key for chain state data"
  | none, some (stakeDBHash, stakeDBHeight) =>
    match env.client.getBlock stakeDBHash with
    | .error err => .error ("GetBlock failed: " ++ err)
    | .ok msgBlock => openApi.loadBestNode store stakeDBHeight stakeDBHash msgBlock.header

/-- A stake database with empty caches, as it is after it was opened. -/
def freshDatabase (store : api.Store) (node : api.Node) : StakeDatabase api where
  nodeMtx := false
  stakeDB := store
  bestNode := some node
  blockCache := fun _ => none
  liveTicketCache := fun _ => none
  poolInfo := fun _ => none

/-- `Open` on the state that was found, with the blocks connected in it: those of the
last run, or the genesis block if the state could not be loaded and was
initialized again. -/
def openStore (openApi : OpenApi api) (env : Environment) (genesis : MsgBlock)
    (saved : List MsgBlock) (store : api.Store) : Except String (Session api) :=
  match loadBest openApi env store with
  | .ok node => .ok ⟨freshDatabase store node, saved⟩
  | .error _ =>
    match env.updateErr with
    | some err => .error err
    | none =>
      let (node, store) := openApi.initDatabaseState store
      .ok ⟨freshDatabase store node, [genesis]⟩

/-- `Open`: an error where the files are in use, and else a session. A new database has nothing
connected. -/
def openSession (openApi : OpenApi api) (env : Environment) (genesis : MsgBlock)
    (saved : List MsgBlock) : DatabaseFiles api → Except String (Session api)
  | .inUse => .error "Stake DB already opened. hcexplorer running?"
  | .existing store => openStore openApi env genesis saved store
  | .created (.error err) => .error ("error creating db: " ++ err)
  | .created (.ok store) => openStore openApi env genesis [] store

/-- The stake database with its connected blocks, as the synchronization uses it. -/
def sessionStore (api : StakeApi) (hcd : Hcd) (params : ChainParams) : StakeStore where
  State := Session api
  opened session := session.db.bestNode.isSome
  height session := (session.db.bestNode.map api.height).getD 0
  connectBlock env block session :=
    (session.db.connectBlock hcd params env block).bind fun (db, err) =>
      .returned (⟨db, if err.isNone then session.connected ++ [block] else session.connected⟩,
        err.map StakeError.text)
  disconnectBlock env session :=
    (session.db.disconnectBlock hcd env).bind fun (db, err) =>
      .returned (⟨db, if err.isNone then session.connected.take (session.connected.length - 1)
        else session.connected⟩, err.map StakeError.text)
  poolInfo hash session := session.db.poolInfo hash
  poolInfoBest env session :=
    match session.db.bestNode with
    | none => .panicked
    | some node =>
      match session.db.poolInfoBest hcd env.client node with
      | none => .panicked
      | some (tpi, height, db) => .returned (tpi, height, { session with db := db })

end Opening

section Tracking

/-- How the connected blocks of a stake database change with it. -/
structure StakeStore.Tracks (sDB : StakeStore) (connected : sDB.State → List MsgBlock) : Prop where
  connect : ∀ env block state after, sDB.connectBlock env block state = .returned (after, none) →
    connected after = connected state ++ [block]
  disconnect : ∀ env state after, sDB.disconnectBlock env state = .returned (after, none) →
    sDB.height after + 1 = sDB.height state ∧
      connected after = (connected state).take ((connected state).length - 1)
  poolInfoBest : ∀ env state tpi height after,
    sDB.poolInfoBest env state = .returned (tpi, height, after) → connected after = connected state

/-- A session tracks its connected blocks as a stake database connects and disconnects them. -/
theorem sessionStore_tracks {api : StakeApi} (hcd : Hcd) (params : ChainParams)
    (documented : api.Documented) :
    (sessionStore api hcd params).Tracks Session.connected where
  connect env block state after returned := by
    obtain ⟨⟨db, err⟩, _, same⟩ := Outcome.bind_eq_returned.mp returned
    obtain ⟨rfl, noError⟩ := Prod.mk.inj (Outcome.returned.inj same)
    have isNone : err = none := Option.map_eq_none_iff.mp noError
    simp [isNone]
  disconnect env state after returned := by
    obtain ⟨⟨db, err⟩, ended, same⟩ := Outcome.bind_eq_returned.mp returned
    obtain ⟨rfl, noError⟩ := Prod.mk.inj (Outcome.returned.inj same)
    obtain rfl : err = none := Option.map_eq_none_iff.mp noError
    unfold StakeDatabase.disconnectBlock at ended
    split at ended
    · cases ended
    · rcases StakeDatabase.unexportedDisconnectBlock_cases ended with ⟨failed, -⟩ |
        ⟨child, parentBlock, parentNode, best, -, -, disconnected, ⟨-, failed, -⟩ | ⟨-, -, rfl⟩⟩
      · exact absurd rfl failed
      · exact absurd rfl failed
      · have lower := documented.disconnect_height _ _ _ _ disconnected
        simp [sessionStore, best, lower]
  poolInfoBest env state tpi height after found := by
    simp only [sessionStore] at found
    split at found
    · cases found
    · split at found
      · cases found
      · cases found
        rfl

end Tracking

section Passes

variable {hcd : Hcd} {params : ChainParams} {statistics : Statistics} {sDB : StakeStore}
  {heights : Heights} {i height : Int} {pass : ScanPass}

/-- What `resyncStore` did when the loop goes on: the summary is stored if it was
needed. -/
theorem resyncStore_next {block : MsgBlock} {blockhash : Hash} {tpi : TicketPoolInfo}
    {db after : DB statistics.Rates}
    (ran : resyncStore hcd params statistics heights i pass block blockhash tpi db =
      (.inl height, after)) :
    pass.getBestBlock = .ok height ∧
      after.summaries = if heights.bestBlockHeight < i then
        db.summaries.insertOrReplace (resyncSummary hcd statistics blockhash tpi block)
        else db.summaries := by
  obtain ⟨stored, middle, isStored⟩ : ∃ stored middle, (if heights.bestBlockHeight < i then
      db.storeBlockSummary pass.storeBlockSummary (resyncSummary hcd statistics blockhash tpi block)
    else (none, db)) = (stored, middle) := ⟨_, _, rfl⟩
  simp only [resyncStore, isStored] at ran
  cases stored with
  | some err => cases ran
  | none =>
    have summaries : middle.summaries = if heights.bestBlockHeight < i then
        db.summaries.insertOrReplace (resyncSummary hcd statistics blockhash tpi block)
        else db.summaries := by
      split at isStored
      · rename_i needed
        rw [if_pos needed]
        cases fault : pass.storeBlockSummary with
        | some err =>
          rw [fault] at isStored
          cases isStored
        | none =>
          rw [fault] at isStored
          cases isStored
          rfl
      · rename_i unneeded
        rw [if_neg unneeded]
        cases isStored
        rfl
    dsimp only at ran
    split at ran
    · split at ran
      · cases ran
      · rename_i best
        cases ran
        exact ⟨best, summaries⟩
    · split at ran
      · cases ran
      · split at ran
        · cases ran
        · rename_i si _ _ last infoStored
          split at ran
          · cases ran
          · rename_i best
            cases ran
            refine ⟨best, Eq.trans ?_ summaries⟩
            cases fault : pass.storeStakeInfoExtended with
            | some err =>
              rw [fault] at infoStored
              cases infoStored
            | none =>
              rw [fault] at infoStored
              cases infoStored
              rfl

/-- What a pass did when the loop goes on: it read its block, connected it if it was
above the stake node, and stored its summary if it was needed. -/
theorem scanPass_next {state final : sDB.State} {db after : DB statistics.Rates}
    (ran : scanPass hcd params statistics sDB heights i pass state db = (.inl height, final, after)) :
    ∃ block blockhash connected tpi, pass.client.getBlockAt i = .ok (block, blockhash) ∧
      pass.getBestBlock = .ok height ∧
      (if heights.bestNodeHeight < i then
        sDB.connectBlock pass.env block state = .returned (connected, none) else connected = state) ∧
      ticketPoolInfo sDB pass.env blockhash connected = .returned (tpi, final) ∧
      after.summaries = if heights.bestBlockHeight < i then
        db.summaries.insertOrReplace (resyncSummary hcd statistics blockhash tpi block)
        else db.summaries := by
  unfold scanPass at ran
  split at ran
  · cases ran
  · split at ran
    · cases ran
    · rename_i block blockhash fetched
      split at ran
      · cases ran
      · rename_i connected isConnected
        split at ran
        · cases ran
        · cases ran
        · rename_i tpi pooled found
          obtain ⟨isNext, same⟩ := Prod.mk.inj ran
          obtain ⟨rfl, rfl⟩ := Prod.mk.inj same
          have stored := resyncStore_next (Prod.ext isNext rfl)
          refine ⟨block, blockhash, connected, tpi, fetched, stored.1, ?_, found, stored.2⟩
          unfold resyncConnect at isConnected
          split at isConnected
          · rename_i above
            rw [if_pos above]
            split at isConnected
            · cases isConnected
            · split at isConnected
              · rename_i next isNext
                cases isConnected
                exact isNext
              · cases isConnected
              · cases isConnected
              · cases isConnected
          · rename_i inside
            rw [if_neg inside]
            cases isConnected
            rfl

/-- Storing a block never ends the synchronization as done, it only goes on or fails. -/
theorem resyncStore_unfinished {block : MsgBlock} {blockhash : Hash} {tpi : TicketPoolInfo}
    {db after : DB statistics.Rates} {last : Int} :
    resyncStore hcd params statistics heights i pass block blockhash tpi db ≠
      (.inr (.returned last .finished), after) := by
  intro ran
  obtain ⟨stored, middle, isStored⟩ : ∃ stored middle, (if heights.bestBlockHeight < i then
      db.storeBlockSummary pass.storeBlockSummary (resyncSummary hcd statistics blockhash tpi block)
    else (none, db)) = (stored, middle) := ⟨_, _, rfl⟩
  simp only [resyncStore, isStored] at ran
  cases stored with
  | some err => cases ran
  | none =>
    dsimp only at ran
    split at ran
    · split at ran
      · cases ran
      · cases ran
    · split at ran
      · cases ran
      · split at ran
        · cases ran
        · split at ran
          · cases ran
          · cases ran

/-- A pass never ends the synchronization as done, that is for the loop to do. -/
theorem scanPass_unfinished {state final : sDB.State} {db after : DB statistics.Rates} {last : Int} :
    scanPass hcd params statistics sDB heights i pass state db ≠
      (.inr (.returned last .finished), final, after) := by
  intro ran
  unfold scanPass at ran
  split at ran
  · cases ran
  · split at ran
    · cases ran
    · split at ran
      · rename_i ended connected isConnected
        obtain ⟨rfl, -⟩ : ended = .returned last .finished ∧ _ := by
          obtain ⟨isEnd, rest⟩ := Prod.mk.inj ran
          exact ⟨Sum.inr.inj isEnd, rest⟩
        unfold resyncConnect at isConnected
        split at isConnected
        · split at isConnected
          · cases isConnected
          · split at isConnected <;> cases isConnected
        · cases isConnected
      · split at ran
        · cases ran
        · cases ran
        · obtain ⟨isEnd, -⟩ := Prod.mk.inj ran
          exact resyncStore_unfinished (Prod.ext isEnd rfl)

end Passes

section Chains

/-- A summary carries the hash of the block of a chain at its height. -/
def Carries (hcd : Hcd) (chain : List MsgBlock) (row : BlockDataBasic) : Prop :=
  ∃ block, chain[row.height.toNat]? = some block ∧ row.hash = hcd.hashOf block

/-- Two chains have the same block at a height. -/
def SameAt (hcd : Hcd) (old main : List MsgBlock) (height : Nat) : Prop :=
  ∃ block mainBlock, old[height]? = some block ∧ main[height]? = some mainBlock ∧
    hcd.hashOf block = hcd.hashOf mainBlock

/-- The summaries up to a height carry the hashes of the main chain, and the blocks
connected in the stake node are blocks of the main chain. -/
structure Agrees (hcd : Hcd) (main : List MsgBlock) (height : Int)
    (summaries : KeyedTable summaryKey) (connected : List MsgBlock) : Prop where
  rows : ∀ row ∈ summaries.rows, summaryKey row ≤ height → Carries hcd main row
  blocks : ∀ (ind : Nat) block, connected[ind]? = some block →
    ∃ mainBlock, main[ind]? = some mainBlock ∧ hcd.hashOf block = hcd.hashOf mainBlock

/-- The node answers from a main chain: its best height, its hashes and its blocks are those of
the chain. -/
structure Serves (hcd : Hcd) (main : List MsgBlock) (env : ResyncEnv) : Prop where
  best : ∀ height, env.getBestBlock = .ok height → height = main.length - 1
  passBest : ∀ pass ∈ env.scans, ∀ height, pass.getBestBlock = .ok height →
    height = main.length - 1
  blocks : ∀ pass ∈ env.scans, ∀ (ind : Nat) block hash,
    pass.client.getBlockAt ind = .ok (block, hash) →
      main[ind]? = some block ∧ hash = hcd.hashOf block
  heights : ∀ (ind : Nat) block, main[ind]? = some block → block.height = ind

variable {hcd : Hcd} {params : ChainParams} {statistics : Statistics} {sDB : StakeStore}
  {heights : Heights} {connected : sDB.State → List MsgBlock} {old main : List MsgBlock}

/-- Taking the stake node back leaves the front of its chain. -/
theorem rewindLoop_tracks (tracks : sDB.Tracks connected) {startHeight bestNodeHeight last : Int}
    {passes : List RewindPass} {state final : sDB.State}
    (front : connected state = old.take (sDB.height state + 1)) (inside : sDB.height state < old.length)
    (atNode : (sDB.height state : Int) = bestNodeHeight)
    (ran : rewindLoop sDB startHeight passes bestNodeHeight state = some (.inl last, final)) :
    connected final = old.take (sDB.height final + 1) ∧ sDB.height final < old.length ∧
      (sDB.height final : Int) = last := by
  induction passes generalizing bestNodeHeight state with
  | nil =>
    unfold rewindLoop at ran
    split at ran
    · cases ran
      exact ⟨front, inside, atNode⟩
    · cases ran
  | cons pass rest inductionHypothesis =>
    unfold rewindLoop at ran
    split at ran
    · cases ran
      exact ⟨front, inside, atNode⟩
    · dsimp only at ran
      split at ran
      · cases ran
      · split at ran
        · rename_i after disconnected
          obtain ⟨lower, cut⟩ := tracks.disconnect _ _ _ disconnected
          have shorter : connected after = old.take (sDB.height after + 1) := by
            rw [cut, front, List.length_take, List.take_take]
            congr 1
            omega
          exact inductionHypothesis shorter (by omega) rfl ran
        · cases ran
        · cases ran
        · cases ran

/-- Before the block at a height is read: the summaries that were there carry the old
chain, those that were added the main chain, and the stake node has the old chain
up to where it started and the main chain above. -/
structure Scanned (hcd : Hcd) (old main : List MsgBlock) (B : Int) (K : Nat) (i : Nat)
    (blocks : List MsgBlock) (summaries : KeyedTable summaryKey) : Prop where
  has : ∀ wanted, summaries.Has wanted ↔ 0 ≤ wanted ∧ wanted ≤ max B (i - 1)
  kept : ∀ row ∈ summaries.rows, summaryKey row ≤ B → Carries hcd old row
  added : ∀ row ∈ summaries.rows, B < summaryKey row → Carries hcd main row
  blocks : blocks = old.take (K + 1) ++ (main.take i).drop (K + 1)

/-- The chain of the stake node after one more block. -/
theorem Scanned.connectBlock {B : Int} {K i : Nat} {blocks : List MsgBlock}
    {summaries : KeyedTable summaryKey} {block : MsgBlock} (isBlock : main[i]? = some block)
    (scanned : Scanned hcd old main B K i blocks summaries) :
    (if K < i then blocks ++ [block] else blocks) =
      old.take (K + 1) ++ (main.take (i + 1)).drop (K + 1) := by
  obtain ⟨inside, -⟩ := List.getElem?_eq_some_iff.mp isBlock
  have longer : main.take (i + 1) = main.take i ++ [block] := by
    rw [List.take_add_one, isBlock]
    rfl
  rw [scanned.blocks, longer]
  split
  · rename_i above
    have long : K + 1 ≤ (main.take i).length := by
      rw [List.length_take]
      omega
    rw [List.drop_append_of_le_length long, List.append_assoc]
  · rename_i below
    have short : (main.take i ++ [block]).length ≤ K + 1 := by
      rw [List.length_append, List.length_take, List.length_singleton]
      omega
    have shorter : (main.take i).length ≤ K + 1 := by
      rw [List.length_take]
      omega
    rw [List.drop_eq_nil_of_le short, List.drop_eq_nil_of_le shorter]

/-- The summaries after one more block are those of the blocks so far. -/
theorem Scanned.storeSummary (statistics : Statistics) (tpi : TicketPoolInfo) {B : Int} {K i : Nat}
    {blocks : List MsgBlock} {summaries : KeyedTable summaryKey} {block : MsgBlock}
    (isBlock : main[i]? = some block) (isHeight : block.height = i)
    (scanned : Scanned hcd old main B K i blocks summaries) :
    Scanned hcd old main B K (i + 1) (if K < i then blocks ++ [block] else blocks)
      (if B < i then
        summaries.insertOrReplace (resyncSummary hcd statistics (hcd.hashOf block) tpi block)
        else summaries) := by
  have isKey : summaryKey (resyncSummary hcd statistics (hcd.hashOf block) tpi block) = i := isHeight
  have carries : Carries hcd main (resyncSummary hcd statistics (hcd.hashOf block) tpi block) := by
    have position : block.header.height.toNat = i := by
      simp only [MsgBlock.height] at isHeight
      omega
    exact ⟨block, by rw [← isBlock, ← position]; rfl, rfl⟩
  refine ⟨?_, ?_, ?_, scanned.connectBlock isBlock⟩
  · intro wanted
    have prior := scanned.has wanted
    split
    · rw [KeyedTable.has_insertOrReplace, isKey, prior]
      omega
    · rw [prior]
      omega
  · intro row member low
    split at member
    · rcases KeyedTable.mem_insertOrReplace.mp member with rfl | ⟨present, -⟩
      · omega
      · exact scanned.kept row present low
    · exact scanned.kept row member low
  · intro row member high
    split at member
    · rcases KeyedTable.mem_insertOrReplace.mp member with rfl | ⟨present, -⟩
      · exact carries
      · exact scanned.added row present high
    · exact scanned.added row member high

/-- The pool information is found without a change of the connected blocks. -/
theorem ticketPoolInfo_tracks (tracks : sDB.Tracks connected) {env : Environment}
    {blockhash : Hash} {tpi : TicketPoolInfo} {state after : sDB.State}
    (found : ticketPoolInfo sDB env blockhash state = .returned (tpi, after)) :
    connected after = connected state := by
  unfold ticketPoolInfo at found
  split at found
  · cases found
    rfl
  · obtain ⟨⟨best, height, moved⟩, isBest, same⟩ := Outcome.bind_eq_returned.mp found
    cases same
    exact tracks.poolInfoBest _ _ _ _ _ isBest

/-- A finished loop has read the main chain to its end. -/
theorem scanLoop_tracks (tracks : sDB.Tracks connected) {K i : Nat} {height last : Int}
    {passes : List ScanPass} {state final : sDB.State} {db after : DB statistics.Rates}
    (isNode : heights.bestNodeHeight = K)
    (passBest : ∀ pass ∈ passes, ∀ answer, pass.getBestBlock = .ok answer →
      answer = main.length - 1)
    (served : ∀ pass ∈ passes, ∀ (ind : Nat) block hash,
      pass.client.getBlockAt ind = .ok (block, hash) →
        main[ind]? = some block ∧ hash = hcd.hashOf block)
    (heightOf : ∀ (ind : Nat) block, main[ind]? = some block → block.height = ind)
    (isTip : height = main.length - 1) (inside : i ≤ main.length)
    (scanned : Scanned hcd old main heights.bestBlockHeight K i (connected state) db.summaries)
    (ran : scanLoop hcd params statistics sDB heights passes i height state db =
      some (.returned last .finished, final, after)) :
    last = main.length - 1 ∧ Scanned hcd old main heights.bestBlockHeight K main.length
      (connected final) after.summaries := by
  have finished : height < i → Scanned hcd old main heights.bestBlockHeight K main.length
      (connected state) db.summaries := by
    intro past
    have same : i = main.length := by omega
    exact same ▸ scanned
  induction passes generalizing i height state db with
  | nil =>
    unfold scanLoop at ran
    split at ran
    · rename_i past
      cases ran
      exact ⟨isTip, finished past⟩
    · cases ran
  | cons pass rest inductionHypothesis =>
    unfold scanLoop at ran
    split at ran
    · rename_i past
      cases ran
      exact ⟨isTip, finished past⟩
    · dsimp only at ran
      split at ran
      · rename_i ended next stored passed
        cases ran
        exact absurd passed scanPass_unfinished
      · rename_i newHeight next stored passed
        obtain ⟨block, blockhash, moved, tpi, fetched, best, isMoved, found, summaries⟩ :=
          scanPass_next passed
        obtain ⟨isBlock, isHash⟩ := served pass List.mem_cons_self i block blockhash fetched
        have isHeight := heightOf i block isBlock
        have blocks : connected next = if K < i then connected state ++ [block] else connected state := by
          rw [ticketPoolInfo_tracks tracks found]
          rw [isNode] at isMoved
          split at isMoved
          · rename_i above
            rw [if_pos (by omega), tracks.connect _ _ _ _ isMoved]
          · rename_i below
            rw [if_neg (by omega), isMoved]
        have whole := scanned.storeSummary statistics tpi isBlock isHeight
        rw [← blocks, ← isHash, ← summaries] at whole
        have isNext : ((i : Int) + 1) = ((i + 1 : Nat) : Int) := by omega
        rw [isNext] at ran
        have tipNext := passBest pass List.mem_cons_self _ best
        obtain ⟨inside, -⟩ := List.getElem?_eq_some_iff.mp isBlock
        refine inductionHypothesis (fun other member => passBest other (List.mem_cons_of_mem _ member))
          (fun other member => served other (List.mem_cons_of_mem _ member)) tipNext inside whole ran ?_
        intro past
        have same : i + 1 = main.length := by omega
        exact same ▸ whole

/-- The lowest of the three heights is on the main chain, and the main chain is the
stored one at the genesis block and at every height of the summaries that it
reaches. -/
def RestartFits (hcd : Hcd) (old main : List MsgBlock) (heights : Heights) : Prop :=
  min (min heights.bestBlockHeight heights.bestStakeHeight) heights.bestNodeHeight ≤
      main.length - 1 ∧
    ∀ ind : Nat, (ind : Int) ≤ max 0 (min heights.bestBlockHeight (main.length - 1)) →
      SameAt hcd old main ind

/-- A summary that carries two chains shows that they have the same block. -/
theorem SameAt.of_carries {row : BlockDataBasic} {ind : Nat} (isKey : summaryKey row = ind)
    (inOld : Carries hcd old row) (inMain : Carries hcd main row) : SameAt hcd old main ind := by
  have position : row.height.toNat = ind := by
    simp only [summaryKey] at isKey
    omega
  obtain ⟨block, isBlock, carried⟩ := inOld
  obtain ⟨mainBlock, isMain, carriedToo⟩ := inMain
  rw [position] at isBlock isMain
  exact ⟨block, mainBlock, isBlock, isMain, carried.symm.trans carriedToo⟩

/-- A summary of one chain carries the other where they have the same block. -/
theorem Carries.of_same {row : BlockDataBasic} {ind : Nat} (isKey : summaryKey row = ind)
    (inOld : Carries hcd old row) (same : SameAt hcd old main ind) : Carries hcd main row := by
  have position : row.height.toNat = ind := by
    simp only [summaryKey] at isKey
    omega
  obtain ⟨block, isBlock, carried⟩ := inOld
  obtain ⟨found, mainBlock, isFound, isMain, sameHash⟩ := same
  rw [position, isFound] at isBlock
  cases isBlock
  exact ⟨mainBlock, position ▸ isMain, carried.trans sameHash⟩

/-- When the loop has ended, or was not needed, the stores agree with the main chain
exactly when the restart fits. -/
theorem Scanned.agrees_iff {K i : Nat} {start last : Int} {blocks : List MsgBlock}
    {summaries : KeyedTable summaryKey} (isStart : start =
      min (min heights.bestBlockHeight heights.bestStakeHeight) heights.bestNodeHeight)
    (low : -1 ≤ start) (isNode : (K : Int) = max 0 start) (inside : K < old.length)
    (ended : (last = main.length - 1 ∧ i = main.length ∧ start ≤ main.length - 1) ∨
      (last = start ∧ i = 0 ∧ (main.length : Int) - 1 ≤ start))
    (scanned : Scanned hcd old main heights.bestBlockHeight K i blocks summaries) :
    Agrees hcd main last summaries blocks ↔ RestartFits hcd old main heights := by
  have belowSummaries : start ≤ heights.bestBlockHeight := by omega
  have length : (old.take (K + 1)).length = K + 1 := by
    rw [List.length_take]
    omega
  have atFront : ∀ ind ≤ K, blocks[ind]? = old[ind]? := by
    intro ind low
    rw [scanned.blocks, List.getElem?_append_left (by omega), List.getElem?_take_of_lt (by omega)]
  constructor
  · intro agrees
    have rowSame : ∀ ind : Nat, (ind : Int) ≤ heights.bestBlockHeight → (ind : Int) ≤ last →
        SameAt hcd old main ind := by
      intro ind low high
      obtain ⟨row, member, isKey⟩ := (scanned.has ind).mpr ⟨by omega, by omega⟩
      exact .of_carries isKey (scanned.kept row member (by omega))
        (agrees.rows row member (by omega))
    constructor
    · rw [← isStart]
      rcases ended with ⟨-, -, above⟩ | ⟨isLast, -, -⟩
      · exact above
      · by_cases negative : start < 0
        · omega
        · obtain ⟨ind, isInd⟩ := Int.eq_ofNat_of_zero_le (Int.not_lt.mp negative)
          obtain ⟨_, mainBlock, _, isMain, _⟩ := rowSame ind (by omega) (by omega)
          obtain ⟨inMain, -⟩ := List.getElem?_eq_some_iff.mp isMain
          omega
    · intro ind high
      by_cases first : ind = 0
      · subst first
        have inOld : 0 < old.length := by omega
        have isFirst : old[0]? = some old[0] := List.getElem?_eq_getElem inOld
        obtain ⟨mainBlock, isMain, sameHash⟩ := agrees.blocks 0 old[0] <| by
          rw [atFront 0 (Nat.zero_le K), isFirst]
        exact ⟨_, mainBlock, isFirst, isMain, sameHash⟩
      · exact rowSame ind (by omega) (by omega)
  · rintro ⟨reaches, same⟩
    rw [← isStart] at reaches
    constructor
    · intro row member high
      by_cases wasThere : summaryKey row ≤ heights.bestBlockHeight
      · have inTable := (scanned.has (summaryKey row)).mp ⟨row, member, rfl⟩
        obtain ⟨ind, isInd⟩ := Int.eq_ofNat_of_zero_le inTable.1
        exact .of_same isInd (scanned.kept row member wasThere) (same ind (by omega))
      · exact scanned.added row member (by omega)
    · intro ind block isBlock
      by_cases front : ind ≤ K
      · rw [atFront ind front] at isBlock
        obtain ⟨found, mainBlock, isFound, isMain, sameHash⟩ := same ind (by omega)
        rw [isFound] at isBlock
        cases isBlock
        exact ⟨mainBlock, isMain, sameHash⟩
      · rw [scanned.blocks, List.getElem?_append_right (by omega), length, List.getElem?_drop,
          Nat.add_sub_cancel' (by omega), List.getElem?_take] at isBlock
        split at isBlock
        · exact ⟨block, isBlock, rfl⟩
        · cases isBlock

/-- Nothing is read yet at a height that every store has. -/
theorem Scanned.start {B : Int} {K i : Nat} {blocks : List MsgBlock}
    {summaries : KeyedTable summaryKey} (inNode : i ≤ K + 1) (inSummaries : (i : Int) - 1 ≤ B)
    (low : -1 ≤ B) (scanned : Scanned hcd old main B K 0 blocks summaries) :
    Scanned hcd old main B K i blocks summaries := by
  refine ⟨?_, scanned.kept, scanned.added, ?_⟩
  · intro wanted
    rw [scanned.has]
    omega
  · have short : (main.take i).length ≤ K + 1 := by
      rw [List.length_take]
      omega
    rw [scanned.blocks, List.drop_eq_nil_of_le short, List.take_zero, List.drop_nil]

/-- The part after the stake node was taken back: the main chain is read to its end,
or it is not above the start. -/
theorem resyncFrom_tracks (tracks : sDB.Tracks connected) {K : Nat} {startHeight height last : Int}
    {scans : List ScanPass} {state final : sDB.State} {db after : DB statistics.Rates}
    (isNode : heights.bestNodeHeight = K)
    (passBest : ∀ pass ∈ scans, ∀ answer, pass.getBestBlock = .ok answer →
      answer = main.length - 1)
    (served : ∀ pass ∈ scans, ∀ (ind : Nat) block hash,
      pass.client.getBlockAt ind = .ok (block, hash) →
        main[ind]? = some block ∧ hash = hcd.hashOf block)
    (heightOf : ∀ (ind : Nat) block, main[ind]? = some block → block.height = ind)
    (isTip : height = main.length - 1) (low : -1 ≤ startHeight)
    (inNode : startHeight ≤ K) (inSummaries : startHeight ≤ heights.bestBlockHeight)
    (scanned : Scanned hcd old main heights.bestBlockHeight K 0 (connected state) db.summaries)
    (ran : resyncFrom hcd params statistics sDB heights scans startHeight height state db =
      some (.returned last .finished, final, after)) :
    ∃ i, Scanned hcd old main heights.bestBlockHeight K i (connected final) after.summaries ∧
      ((last = main.length - 1 ∧ i = main.length ∧ startHeight ≤ main.length - 1) ∨
        (last = startHeight ∧ i = 0 ∧ (main.length : Int) - 1 ≤ startHeight)) := by
  have stays : (if startHeight < -1 then -1 else startHeight) = startHeight := if_neg (by omega)
  simp only [resyncFrom, stays] at ran
  split at ran
  · cases ran
    exact ⟨0, scanned, Or.inr ⟨rfl, rfl, by omega⟩⟩
  · obtain ⟨i, isFirst⟩ := Int.eq_ofNat_of_zero_le (show 0 ≤ startHeight + 1 by omega)
    rw [isFirst] at ran
    have begun : Scanned hcd old main heights.bestBlockHeight K i (connected state) db.summaries :=
      scanned.start (by omega) (by omega) (by omega)
    obtain ⟨isLast, whole⟩ := scanLoop_tracks tracks isNode passBest served heightOf isTip
      (by omega) begun ran
    exact ⟨main.length, whole, Or.inl ⟨isLast, rfl, by omega⟩⟩

/-- Taking the stake node back never ends the synchronization as done. -/
theorem rewindLoop_unfinished {startHeight bestNodeHeight last : Int} {passes : List RewindPass}
    {state final : sDB.State} : rewindLoop sDB startHeight passes bestNodeHeight state ≠
      some (.inr (.returned last .finished), final) := by
  intro ran
  induction passes generalizing bestNodeHeight state with
  | nil =>
    unfold rewindLoop at ran
    split at ran
    · cases ran
    · cases ran
  | cons pass rest inductionHypothesis =>
    unfold rewindLoop at ran
    split at ran
    · cases ran
    · dsimp only at ran
      split at ran
      · cases ran
      · split at ran
        · exact inductionHypothesis ran
        · cases ran
        · cases ran
        · cases ran

/-- A finished synchronization agrees with the main chain exactly when the restart
fits. -/
theorem resync_agrees_iff (tracks : sDB.Tracks connected) {env : ResyncEnv} {last : Int}
    {state final : sDB.State} {db after : DB statistics.Rates} (serves : Serves hcd main env)
    (summaries : db.SummariesComplete env.summaryHeight)
    (rows : ∀ row ∈ db.summaries.rows, Carries hcd old row)
    (front : connected state = old.take (sDB.height state + 1))
    (inside : sDB.height state < old.length)
    (ran : resyncDBWithPoolValue hcd params statistics sDB env state db =
      some (.returned last .finished, final, after)) :
    Agrees hcd main last after.summaries (connected final) ↔
      RestartFits hcd old main ⟨(db.getBlockSummaryHeight env.summaryHeight).1,
        (db.getStakeInfoHeight env.stakeInfoHeight).1, sDB.height state⟩ := by
  obtain ⟨B, S, middle, start, readSummary, readStake, isStake, lowSummary, lowStake, sameSummaries,
    -⟩ := DB.heights_read env.summaryHeight env.stakeInfoHeight db
  simp only [DB.SummariesComplete, readSummary] at summaries
  rw [readSummary, isStake]
  have scanned : ∀ {K : Nat} {blocks : List MsgBlock}, blocks = old.take (K + 1) →
      Scanned hcd old main B K 0 blocks start.summaries := by
    intro K blocks isFront
    rw [sameSummaries]
    refine ⟨?_, fun row member _ => rows row member, ?_, ?_⟩
    · intro wanted
      rw [summaries]
      omega
    · intro row member above
      have inTable := (summaries (summaryKey row)).mp ⟨row, member, rfl⟩
      omega
    · rw [isFront, List.take_zero, List.drop_nil, List.append_nil]
  rcases resync_cases readSummary readStake ran with
    ⟨_, impossible, -⟩ |
      ⟨height, isBest, ⟨below, went⟩ | ⟨above, same, went⟩ | ⟨above, low, back⟩⟩
  · cases impossible
  · obtain ⟨i, whole, ended⟩ := resyncFrom_tracks tracks rfl serves.passBest serves.blocks
      serves.heights (serves.best height isBest) (by omega) le_rfl (by dsimp only; omega)
      (scanned front) went
    exact whole.agrees_iff (by dsimp only; omega) (by omega) (by omega) inside ended
  · obtain ⟨i, whole, ended⟩ := resyncFrom_tracks tracks rfl serves.passBest serves.blocks
      serves.heights (serves.best height isBest) (by omega) (by omega) (by dsimp only; omega)
      (scanned front) went
    exact whole.agrees_iff (by dsimp only; omega) (by omega) (by omega) inside ended
  · rcases back with ⟨rewound, -⟩ | ⟨reached, moved, rewound, stopped⟩
    · exact absurd rewound rewindLoop_unfinished
    · obtain ⟨isFront, stillInside, isHeight⟩ :=
        rewindLoop_tracks tracks front inside rfl rewound
      rcases stopped with ⟨-, impossible, -⟩ | ⟨rfl, went⟩
      · cases impossible
      · obtain ⟨i, whole, ended⟩ := resyncFrom_tracks tracks isHeight.symm serves.passBest
          serves.blocks serves.heights (serves.best height isBest) (by omega) (by omega)
          (by dsimp only; omega) (scanned isFront) went
        exact whole.agrees_iff (by dsimp only; omega) (by omega) (by omega) stillInside ended

end Chains

section Restart

variable {api : StakeApi} {hcd : Hcd} {params : ChainParams} {statistics : Statistics}

/-- The files of the last run hold the front of the stored chain up to their height;
new files hold nothing. -/
def Persisted (old saved : List MsgBlock) : DatabaseFiles api → Prop
  | .inUse => True
  | .existing store => ∀ hash height, api.chainState store = some (hash, height) →
      saved = old.take (height + 1) ∧ height < old.length
  | .created store => ∀ empty, store = .ok empty → api.chainState empty = none

/-- The state is opened at the front of the stored chain, or at its first block. -/
theorem openStore_front {openApi : OpenApi api} (documented : openApi.Documented)
    {env : Environment} {genesis : MsgBlock} {old saved : List MsgBlock} {store : api.Store}
    {session : Session api} (isGenesis : old.head? = some genesis)
    (persisted : ∀ hash height, api.chainState store = some (hash, height) →
      saved = old.take (height + 1) ∧ height < old.length)
    (opened : openStore openApi env genesis saved store = .ok session) :
    session.connected = old.take ((sessionStore api hcd params).height session + 1) ∧
      (sessionStore api hcd params).height session < old.length := by
  obtain ⟨rest, rfl⟩ := List.head?_eq_some_iff.mp isGenesis
  unfold openStore at opened
  split at opened
  · rename_i node loaded
    cases opened
    unfold loadBest at loaded
    split at loaded
    · cases loaded
    · cases loaded
    · rename_i hash height _ isState
      split at loaded
      · cases loaded
      · rename_i msgBlock fetched
        have isHeight := documented.loaded _ _ _ _ _ loaded
        have front := persisted hash height isState
        rw [← isHeight] at front
        exact front
  · split at opened
    · cases opened
    · cases opened
      have isFirst := documented.initial store
      simp [sessionStore, freshDatabase, isFirst]

/-- A session that is opened has connected the blocks at the front of the old chain, whether its
files are old or new. -/
theorem openSession_front {openApi : OpenApi api} (documented : openApi.Documented)
    {env : Environment} {genesis : MsgBlock} {old saved : List MsgBlock} {files : DatabaseFiles api}
    {session : Session api} (isGenesis : old.head? = some genesis)
    (persisted : Persisted old saved files)
    (opened : openSession openApi env genesis saved files = .ok session) :
    session.connected = old.take ((sessionStore api hcd params).height session + 1) ∧
      (sessionStore api hcd params).height session < old.length := by
  cases files with
  | inUse => cases opened
  | existing store => exact openStore_front documented isGenesis persisted opened
  | created store =>
    cases store with
    | error err => cases opened
    | ok empty =>
      have fresh := persisted empty rfl
      refine openStore_front documented isGenesis ?_ opened
      intro hash height isState
      rw [fresh] at isState
      cases isState

/-- When the program is started again and its synchronization finishes, the summaries
up to the returned height carry the hashes of the node's main chain and the stake
node has connected blocks of it, exactly when the restart fits: the main chain
reaches the lowest of the three heights, and is the stored chain wherever summaries
were kept. -/
theorem restart_agrees_iff (hcd : Hcd) (params : ChainParams) (statistics : Statistics)
    (documented : api.Documented) {openApi : OpenApi api} (openDocumented : openApi.Documented)
    {openEnv : Environment} {genesis : MsgBlock} {old main saved : List MsgBlock}
    {files : DatabaseFiles api} {session final : Session api} {env : ResyncEnv} {last : Int}
    {db after : DB statistics.Rates} (isGenesis : old.head? = some genesis)
    (persisted : Persisted old saved files)
    (opened : openSession openApi openEnv genesis saved files = .ok session)
    (summaries : db.SummariesComplete env.summaryHeight)
    (rows : ∀ row ∈ db.summaries.rows, Carries hcd old row) (serves : Serves hcd main env)
    (ran : resyncDBWithPoolValue hcd params statistics (sessionStore api hcd params) env session db =
      some (.returned last .finished, final, after)) :
    Agrees hcd main last after.summaries final.connected ↔
      RestartFits hcd old main ⟨(db.getBlockSummaryHeight env.summaryHeight).1,
        (db.getStakeInfoHeight env.stakeInfoHeight).1,
        (sessionStore api hcd params).height session⟩ := by
  obtain ⟨front, inside⟩ : session.connected =
      old.take ((sessionStore api hcd params).height session + 1) ∧
      (sessionStore api hcd params).height session < old.length :=
    openSession_front openDocumented isGenesis persisted opened
  exact resync_agrees_iff (sessionStore_tracks hcd params documented) serves summaries rows front
    inside ran

end Restart

section SampleRestart

/-- The sample stake node is loaded from the last one that was saved. -/
def sampleOpenApi : OpenApi Sample.stakeApi where
  loadBestNode store height _ _ :=
    match store.saved with
    | [] => .error "no node"
    | node :: _ => if node.height = height then .ok node else .error "inconsistent height"
  initDatabaseState _ := (⟨0, []⟩, ⟨(Sample.hcd.hashOf Sample.genesis, 0), [⟨0, []⟩]⟩)

/-- The functions of the sample behave as documented. -/
theorem sampleOpenApi_documented : sampleOpenApi.Documented where
  loaded store height hash header node loaded := by
    simp only [sampleOpenApi] at loaded
    split at loaded
    · cases loaded
    · split at loaded
      · rename_i same
        cases loaded
        exact same
      · cases loaded
  initial _ := rfl

/-- The chain that was stored before the program was restarted. -/
def storedChain : List MsgBlock := [Sample.genesis, Sample.firstBlock]
/-- The longer chain that replaced the stored one, from height one on. -/
def newChain : List MsgBlock := [Sample.genesis, Sample.sideBlock, Sample.sideChild]

/-- The stake database of the stored chain, as its files were left. -/
def storedFiles : DatabaseFiles Sample.stakeApi :=
  .existing ⟨(Sample.hcd.hashOf Sample.firstBlock, 1), [⟨1, []⟩, ⟨0, []⟩]⟩

/-- The stake database is opened where it was stored: the node still knows the block. -/
def openedSession : Session Sample.stakeApi :=
  ⟨freshDatabase ⟨(Sample.hcd.hashOf Sample.firstBlock, 1), [⟨1, []⟩, ⟨0, []⟩]⟩
    (⟨1, []⟩ : Sample.LiveNode), storedChain⟩

/-- The tables that a synchronization over the blocks of a chain leaves. -/
def tablesOf (chain : List MsgBlock) : DB Unit :=
  chain.foldl (fun db block =>
    let summary := resyncSummary Sample.hcd noRates (Sample.hcd.hashOf block) ⟨0, 0, 0⟩ block
    let info : StakeInfoExtended Unit := ⟨feeRateInfoBlock Sample.hcd noRates block, 0, 0, 0, ⟨0, 0, 0⟩⟩
    ((db.storeBlockSummary none summary).2.storeStakeInfoExtended none info).2)
    (DB.newDB none none .empty .empty)

/-- A restart of the program while the node serves the new chain, with one pass for a block. -/
def restartSync : ResyncEnv :=
  let known := Sample.firstBlock :: newChain
  let pass : ScanPass :=
    ⟨false, Sample.client newChain known, Sample.environment newChain known, none, none, .ok 2⟩
  ⟨.ok 2, none, none, [], [pass]⟩

/-- The synchronization finishes at the new height, with the hash of a block that is
not on the main chain in the summary of height one. -/
theorem restart_ran : ∃ final after, resyncDBWithPoolValue Sample.hcd ⟨16, 144⟩ noRates
      (sessionStore Sample.stakeApi Sample.hcd ⟨16, 144⟩) restartSync openedSession
      (tablesOf storedChain) = some (.returned 2 .finished, final, after) ∧
    (after.summaries.rows.map fun row => (row.height, row.hash)) =
      [(0, Sample.hcd.hashOf Sample.genesis), (1, Sample.hcd.hashOf Sample.firstBlock),
        (2, Sample.hcd.hashOf Sample.sideChild)] := by
  have outcome : (resyncDBWithPoolValue Sample.hcd ⟨16, 144⟩ noRates
      (sessionStore Sample.stakeApi Sample.hcd ⟨16, 144⟩) restartSync openedSession
      (tablesOf storedChain)).map (fun result => (result.1,
        result.2.2.summaries.rows.map fun row => (row.height, row.hash))) =
      some (.returned 2 .finished, [(0, Sample.hcd.hashOf Sample.genesis),
        (1, Sample.hcd.hashOf Sample.firstBlock), (2, Sample.hcd.hashOf Sample.sideChild)]) := by
    decide +kernel
  obtain ⟨⟨ended, final, after⟩, ran, same⟩ := Option.map_eq_some_iff.mp outcome
  obtain ⟨rfl, rows⟩ := Prod.mk.inj same
  exact ⟨final, after, ran, rows⟩

/-- The node of the restart answers from the new chain. -/
theorem restartSync_serves : Serves Sample.hcd newChain restartSync where
  best := by
    rintro height ⟨⟩
    rfl
  passBest := by
    intro pass member height isBest
    cases List.mem_singleton.mp member
    cases isBest
    rfl
  blocks := by
    intro pass member ind block hash fetched
    cases List.mem_singleton.mp member
    have distinct : ((Sample.firstBlock :: newChain).map Sample.hcd.hashOf).Nodup := by decide
    cases found : newChain[ind]? with
    | none =>
      simp only [NodeClient.getBlockAt, Sample.client, Int.toNat_natCast, found] at fetched
      cases fetched
    | some stored =>
      have known : (Sample.client newChain (Sample.firstBlock :: newChain)).getBlock
          (Sample.hcd.hashOf stored) = .ok stored :=
        Sample.client_getBlock distinct (List.mem_cons_of_mem _ (List.mem_of_getElem? found))
      have isHash : (Sample.client newChain (Sample.firstBlock :: newChain)).getBlockHash ind =
          .ok (Sample.hcd.hashOf stored) := by
        simp only [Sample.client, Int.toNat_natCast, found]
      simp only [NodeClient.getBlockAt] at fetched
      rw [isHash] at fetched
      simp only [known] at fetched
      cases fetched
      exact ⟨rfl, rfl⟩
  heights := by
    intro ind block isBlock
    rcases ind with _ | _ | _ | ind
    all_goals cases isBlock
    all_goals rfl

/-- A finished synchronization leaves the summary of a block that was replaced, and
a stake node that has connected it. -/
theorem restart_not_agrees : ∃ last final after,
    openSession sampleOpenApi (Sample.environment newChain (Sample.firstBlock :: newChain))
        Sample.genesis storedChain storedFiles = .ok openedSession ∧
      resyncDBWithPoolValue Sample.hcd ⟨16, 144⟩ noRates
        (sessionStore Sample.stakeApi Sample.hcd ⟨16, 144⟩) restartSync openedSession
        (tablesOf storedChain) = some (.returned last .finished, final, after) ∧
      ¬Agrees Sample.hcd newChain last after.summaries final.connected := by
  obtain ⟨final, after, ran, rows⟩ := restart_ran
  refine ⟨2, final, after, rfl, ran, ?_⟩
  intro agrees
  have listed : (1, Sample.hcd.hashOf Sample.firstBlock) ∈
      after.summaries.rows.map fun row => (row.height, row.hash) := by
    rw [rows]
    decide
  obtain ⟨row, member, same⟩ := List.mem_map.mp listed
  obtain ⟨isHeight, isHash⟩ := Prod.mk.inj same
  have low : summaryKey row ≤ 2 := by
    rw [summaryKey, isHeight]
    decide
  obtain ⟨block, isBlock, carried⟩ := agrees.rows row member low
  rw [isHeight] at isBlock
  cases isBlock
  rw [isHash] at carried
  exact absurd carried (by decide)

/-- The law at this restart, which ends at the height of the new chain. -/
theorem restart_agrees_iff_replaced : ∃ last final after,
    resyncDBWithPoolValue Sample.hcd ⟨16, 144⟩ noRates
        (sessionStore Sample.stakeApi Sample.hcd ⟨16, 144⟩) restartSync openedSession
        (tablesOf storedChain) = some (.returned last .finished, final, after) ∧
      (Agrees Sample.hcd newChain last after.summaries final.connected ↔
        RestartFits Sample.hcd storedChain newChain ⟨1, 1, 1⟩) := by
  obtain ⟨final, after, ran, -⟩ := restart_ran
  refine ⟨2, final, after, ran, ?_⟩
  have persisted : Persisted storedChain storedChain storedFiles := by
    rintro hash height ⟨⟩
    exact ⟨rfl, by decide⟩
  have rowsAre : (tablesOf storedChain).summaries.rows =
      [resyncSummary Sample.hcd noRates (Sample.hcd.hashOf Sample.genesis) ⟨0, 0, 0⟩ Sample.genesis,
        resyncSummary Sample.hcd noRates (Sample.hcd.hashOf Sample.firstBlock) ⟨0, 0, 0⟩ Sample.firstBlock] := by
    decide +kernel
  have summaries : (tablesOf storedChain).SummariesComplete none := by
    intro wanted
    have isHeight : ((tablesOf storedChain).getBlockSummaryHeight none).1 = 1 := by decide +kernel
    rw [isHeight, KeyedTable.Has, rowsAre]
    constructor
    · rintro ⟨row, member, rfl⟩
      rcases List.mem_pair.mp member with rfl | rfl
      · decide
      · decide
    · rintro ⟨low, high⟩
      have cases : wanted = 0 ∨ wanted = 1 := by omega
      rcases cases with rfl | rfl
      · exact ⟨_, List.mem_cons_self, rfl⟩
      · exact ⟨_, List.mem_cons_of_mem _ List.mem_cons_self, rfl⟩
  have rows : ∀ row ∈ (tablesOf storedChain).summaries.rows, Carries Sample.hcd storedChain row := by
    rw [rowsAre]
    intro row member
    rcases List.mem_pair.mp member with rfl | rfl
    · exact ⟨Sample.genesis, rfl, rfl⟩
    · exact ⟨Sample.firstBlock, rfl, rfl⟩
  have opened : openSession sampleOpenApi
      (Sample.environment newChain (Sample.firstBlock :: newChain)) Sample.genesis storedChain
      storedFiles = .ok openedSession := rfl
  have heights : (⟨((tablesOf storedChain).getBlockSummaryHeight restartSync.summaryHeight).1,
      ((tablesOf storedChain).getStakeInfoHeight restartSync.stakeInfoHeight).1,
      (sessionStore Sample.stakeApi Sample.hcd ⟨16, 144⟩).height openedSession⟩ : Heights) =
      ⟨1, 1, 1⟩ := by
    decide +kernel
  have law := restart_agrees_iff Sample.hcd ⟨16, 144⟩ noRates Sample.stakeApi_documented
    sampleOpenApi_documented rfl persisted opened summaries rows restartSync_serves ran
  exact law.trans (iff_of_eq (congrArg (RestartFits Sample.hcd storedChain newChain) heights))

end SampleRestart

end Hcexplorer.Hcsqlite

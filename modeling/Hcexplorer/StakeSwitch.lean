import Hcexplorer.StakeFailures
import Hcexplorer.StakeReorganization

/-!
# A switch without failures

`switchToSideChain` of the stake database's chain monitor, when neither the node nor the
database nor hcd's stake node fails: it disconnects the blocks above the parent of the
side chain, connects the side chain in order, and returns its last block. When the
parent is above the tip it panics before the first connection.

What the switch calls of the database is a run of its own, and the stake node is asked
to accept the blocks of this run only.
-/

namespace Hcexplorer

open LinkedChain Runs

variable {api : StakeApi} {hcd : Hcd} {params : ChainParams}

/-- Answers without a failure: the blocks are known by their hashes, the main chain has a
block at each height below its length, and no transaction is without outputs. -/
structure Environment.Serves (hcd : Hcd) (known : List MsgBlock) (length : Nat) (env : Environment) :
    Prop where
  block : ∀ b ∈ known, env.client.getBlock (hcd.hashOf b) = .ok b
  header : ∀ b ∈ known, env.client.getBlockHeader (hcd.hashOf b) = .ok b.header
  byHeight : ∀ height < length, ∃ found, env.client.getBlockAt height = .ok found
  outputs : ∀ hash tx, env.client.getRawTransaction hash = .ok tx → tx.txOut ≠ []
  stateErr : env.stateErr = none
  viewErr : env.viewErr = none
  updateErr : env.updateErr = none

/-- Every vote has a second input, and every revocation an input. -/
def SpendsTickets (hcd : Hcd) (block : MsgBlock) : Prop :=
  (revokedTicketsInBlock hcd block).isSome ∧ (ticketsSpentInBlock hcd block).isSome

namespace StakeDatabase

/-- hcd's stake node accepts the block, with the tickets that the database finds for it. -/
def AcceptsConnect (hcd : Hcd) (params : ChainParams) (env : Environment) (block : MsgBlock)
    (db : StakeDatabase api) : Prop :=
  ∀ maturing forgotten revoked spent node,
    db.Compares hcd params env block maturing forgotten revoked spent node →
      ∃ connected, api.connectNode node block.header spent revoked maturing = .ok connected

/-- hcd's stake node goes back to the parent of its block. -/
def AcceptsDisconnect (env : Environment) (db : StakeDatabase api) : Prop :=
  ∀ child parentBlock, db.bestNode = some child → db.dbPrevBlock env = .ok parentBlock →
    ∃ parentNode, api.disconnectNode child parentBlock.header db.stakeDB = .ok parentNode

/-- The maturing tickets are found when the node has a block at the maturing height. -/
theorem maturingTickets_found {client : NodeClient} {height : Int} (db : StakeDatabase api)
    (answers : 0 ≤ height - (params.ticketMaturity.toNat : Int) →
      ∃ found, client.getBlockAt (height - params.ticketMaturity.toNat) = .ok found) :
    ∃ maturing forgotten, db.maturingTickets hcd params client height = some (maturing, forgotten) := by
  by_cases reached : 0 ≤ height - (params.ticketMaturity.toNat : Int)
  · obtain ⟨found, answered⟩ := answers reached
    simp only [maturingTickets, reached, if_true]
    cases cached : db.blockCache (height - params.ticketMaturity.toNat) with
    | some entry => simp [block, cached]
    | none => simp [block, cached, answered]
  · simp only [maturingTickets, reached, if_false]
    exact ⟨[], db, rfl⟩

/-- The value of the pool is found when every transaction has outputs. -/
theorem poolValue_found {client : NodeClient}
    (outputs : ∀ hash tx, client.getRawTransaction hash = .ok tx → tx.txOut ≠ [])
    (hashes : List Hash) (value : Int64) (cache : Hash → Option Int64) :
    ∃ result, poolValue client hashes value cache = some result := by
  induction hashes generalizing value cache with
  | nil => exact ⟨_, rfl⟩
  | cons hash rest inductionHypothesis =>
    unfold poolValue
    split
    · exact inductionHypothesis _ _
    · split
      · exact inductionHypothesis _ _
      · rename_i tx answered
        split
        · rename_i noOutput
          exact absurd noOutput (outputs hash tx answered)
        · exact inductionHypothesis _ _

/-- A block above the best node is connected when nothing fails. -/
theorem connectBlock_succeeds {env : Environment} {block : MsgBlock} {db : StakeDatabase api}
    {node : api.Node} {known : List MsgBlock} {length : Nat} (serves : env.Serves hcd known length)
    (unlocked : db.nodeMtx = false) (best : db.bestNode = some node)
    (above : (api.height node : Int) < block.height) (inside : block.height < length)
    (wellFormed : SpendsTickets hcd block) (accepts : db.AcceptsConnect hcd params env block) :
    ∃ after, db.connectBlock hcd params env block = .returned (after, none) := by
  have matures : ∃ maturing forgotten,
      db.maturingTickets hcd params env.client block.height = some (maturing, forgotten) := by
    refine maturingTickets_found db fun reached => ?_
    obtain ⟨height, isHeight⟩ := Int.eq_ofNat_of_zero_le reached
    rw [isHeight]
    exact serves.byHeight height (by omega)
  obtain ⟨maturing, forgotten, matured⟩ := matures
  obtain ⟨revoked, isRevoked⟩ := Option.isSome_iff_exists.mp wellFormed.1
  obtain ⟨spent, isSpent⟩ := Option.isSome_iff_exists.mp wellFormed.2
  have compares : db.Compares hcd params env block maturing forgotten revoked spent node :=
    ⟨unlocked, best, matured, isRevoked, isSpent⟩
  obtain ⟨connected, isConnected⟩ := accepts _ _ _ _ _ compares
  have high : ¬block.height ≤ api.height node := by omega
  rw [compares.connectBlock_eq, if_neg high, unexportedConnectBlock]
  simp only [isConnected, serves.updateErr, poolInfoBest]
  obtain ⟨pooled, isPooled⟩ := poolValue_found serves.outputs (api.liveTickets connected) 0
    (forgotten.cacheBlock block).liveTicketCache
  obtain ⟨value, cache⟩ := pooled
  simp only [isPooled]
  exact ⟨_, rfl⟩

end StakeDatabase

namespace Session

/-- The database stands at the tip, and so does its persisted state. -/
structure Stored (hcd : Hcd) (session : Session api) : Prop extends AtTip hcd session where
  state : ∀ tip ∈ session.connected.getLast?,
    ∃ height, api.chainState session.db.stakeDB = some (hcd.hashOf tip, height)

/-- hcd's stake node accepts what the call asks of it. -/
def StakeNodeAccepts (hcd : Hcd) (params : ChainParams) (session : Session api) : Call → Prop
  | .connectBlock env block => session.db.AcceptsConnect hcd params env block
  | .disconnectBlock env => session.db.AcceptsDisconnect env
  | .disconnectBlocks envs count => ∀ before (done : Nat), (done : Int) < count →
    session.db.disconnectBlocks hcd envs done = .returned (before, none, done) →
      before.AcceptsDisconnect (envs done)

variable {env : Environment} {known : List MsgBlock} {length : Nat}

/-- A connected child of the tip is the new tip, in the persisted state as well. -/
theorem Stored.connect (documented : api.Documented) (persists : api.Persists) {block : MsgBlock}
    {session : Session api} {after : StakeDatabase api} (stored : Stored hcd session)
    (child : ∀ tip ∈ session.connected.getLast?, (chainView hcd).Child tip block)
    (returned : session.db.connectBlock hcd params env block = .returned (after, none)) :
    Stored hcd ⟨after, session.connected ++ [block]⟩ where
  toAtTip := stored.toAtTip.connect documented child rfl returned
  state := by
    intro tip isLast
    have same : block = tip := by simpa using isLast
    obtain ⟨_, _, _, -, -, -, -, ended⟩ := StakeDatabase.connectBlock_cases returned
    rcases ended with ⟨-, impossible, -⟩ | ⟨-, ⟨_, impossible⟩, -⟩ |
      ⟨_, _, connected, -, -, -, -, -, -, -, written⟩
    · cases impossible
    · simp at impossible
    · exact ⟨api.height connected, by rw [written, persists.connected, same]⟩

/-- Nothing fails in a disconnection of a block that is not the first one. -/
theorem Stored.disconnect (documented : api.Documented) (persists : api.Persists)
    {db : StakeDatabase api} {chain : List MsgBlock} (stored : Stored hcd ⟨db, chain⟩)
    (two : 2 ≤ chain.length) (serves : env.Serves hcd known length) (isKnown : ∀ b ∈ chain, b ∈ known)
    (accepts : db.AcceptsDisconnect env) :
    ∃ after, db.unexportedDisconnectBlock hcd env = .returned (after, none) ∧
      Stored hcd ⟨after, chain.take (chain.length - 1)⟩ := by
  obtain ⟨node, isBest, atTip⟩ := stored.best.2 stored.unlocked
  have best : db.bestNode = some node := isBest
  -- the chain ends with a parent and its child
  obtain ⟨position, isPosition⟩ : ∃ position, chain.length = position + 2 := ⟨chain.length - 2, by omega⟩
  have hasParent : position < chain.length := by omega
  have hasTip : position + 1 < chain.length := by omega
  have parentAt : chain[position]? = some chain[position] := List.getElem?_eq_getElem hasParent
  have tipAt : chain[position + 1]? = some chain[position + 1] := List.getElem?_eq_getElem hasTip
  have isLast : chain.getLast? = some chain[position + 1] := by
    rw [List.getLast?_eq_getElem?, isPosition]
    exact tipAt
  have child : (chainView hcd).Child chain[position] chain[position + 1] :=
    List.isChain_iff_getElem.mp stored.best.1.linked position hasTip
  have parentIs : chain[position + 1].header.prevBlock = hcd.hashOf chain[position] := child.1
  have parentHeight : chain[position].height = position := stored.best.1.height_eq parentAt
  obtain ⟨height, persisted⟩ := stored.state _ isLast
  have found : db.dbPrevBlock env = .ok chain[position] := by
    simp only [StakeDatabase.dbPrevBlock, StakeDatabase.dbState, serves.stateErr, persisted,
      serves.header _ (isKnown _ (List.getElem_mem hasTip)), parentIs,
      serves.block _ (isKnown _ (List.getElem_mem hasParent))]
  have consistent : chain[position].height = (api.height node : Int) - 1 := by
    change (api.height node : Int) = chain.length - 1 at atTip
    omega
  obtain ⟨parentNode, disconnected⟩ := accepts node _ best found
  have ended : db.unexportedDisconnectBlock hcd env = .returned ({ db with
      bestNode := some parentNode
      stakeDB := api.writeDisconnectedBestNode db.stakeDB parentNode (hcd.hashOf chain[position])
        (api.undoData node) }, none) := by
    simp only [StakeDatabase.unexportedDisconnectBlock, best, found, consistent, ne_eq, not_true,
      if_false, serves.viewErr, disconnected, serves.updateErr]
  refine ⟨_, ended, ⟨⟨stored.unlocked, ?_⟩, ?_⟩⟩
  · exact (stored.best.disconnect documented stored.unlocked ended).2
  · intro tip atEnd
    have same : chain[position] = tip := by
      rw [isPosition, List.getLast?_eq_getElem?, List.length_take] at atEnd
      have cut : min (position + 2 - 1) chain.length - 1 = position := by omega
      rw [cut, List.getElem?_take_of_lt (by omega), parentAt] at atEnd
      exact Option.some.inj atEnd
    exact ⟨api.height parentNode, by rw [persists.disconnected, same]⟩

/-- The loop of `DisconnectBlocks` keeps a stored session stored, as long as it leaves a block. -/
theorem Stored.disconnectLoop (documented : api.Documented) (persists : api.Persists)
    {envs : Nat → Environment} {db : StakeDatabase api} {chain : List MsgBlock}
    (stored : Stored hcd ⟨db, chain⟩) (count start : Nat) (leaves : count < chain.length)
    (serves : ∀ i, (envs i).Serves hcd known length) (isKnown : ∀ b ∈ chain, b ∈ known)
    (accepts : ∀ before done, done < count →
      StakeDatabase.disconnectLoop hcd envs done start db = .returned (before, none, start + done) →
        before.AcceptsDisconnect (envs (start + done))) :
    ∃ after, StakeDatabase.disconnectLoop hcd envs count start db =
        .returned (after, none, start + count) ∧
      Stored hcd ⟨after, chain.take (chain.length - count)⟩ := by
  induction count generalizing start db chain with
  | zero =>
    refine ⟨db, rfl, ?_⟩
    rw [Nat.sub_zero, List.take_length]
    exact stored
  | succ count inductionHypothesis =>
    obtain ⟨middle, ended, middleStored⟩ := stored.disconnect documented persists (by omega)
      (serves start) isKnown (accepts db 0 (Nat.succ_pos count) rfl)
    have shorter : (chain.take (chain.length - 1)).length = chain.length - 1 := by
      rw [List.length_take]
      omega
    obtain ⟨after, rounds, afterStored⟩ := inductionHypothesis middleStored (start + 1)
      (by omega) (fun b member => isKnown b (List.mem_of_mem_take member)) (by
        intro before done fewer completed
        have longer : StakeDatabase.disconnectLoop hcd envs (done + 1) start db =
            .returned (before, none, start + (done + 1)) := by
          rw [StakeDatabase.disconnectLoop, ended]
          simpa only [Nat.add_right_comm, Nat.add_assoc] using completed
        have accepted := accepts before (done + 1) (by omega) longer
        rwa [Nat.add_right_comm, Nat.add_assoc])
    refine ⟨after, ?_, ?_⟩
    · rw [StakeDatabase.disconnectLoop, ended]
      simpa only [Nat.add_right_comm, Nat.add_assoc] using rounds
    · rw [shorter, List.take_take] at afterStored
      have sameCut : min (chain.length - 1 - count) (chain.length - 1) =
          chain.length - (count + 1) := by omega
      rwa [sameCut] at afterStored

/-- The connections of a switch, one block after another. -/
def connectCalls (envs : Nat → Environment) : Nat → List MsgBlock → List Call
  | _, [] => []
  | i, block :: rest => .connectBlock (envs i) block :: connectCalls envs (i + 1) rest

/-- What `switchToSideChain` calls of the database: one disconnection of some blocks, and a
connection for each block of the side chain. -/
def switchCalls (answers : SwitchAnswers) (count : Int) (side : List MsgBlock) : List Call :=
  .disconnectBlocks answers.disconnects count :: connectCalls answers.connects 0 side

/-- A connection without an error, as one call of a run. -/
theorem perform_connectBlock {block : MsgBlock} {session : Session api} {after : StakeDatabase api}
    (returned : session.db.connectBlock hcd params env block = .returned (after, none)) :
    session.perform hcd params (.connectBlock env block) =
      some ⟨after, session.connected ++ [block]⟩ := by
  simp [perform, returned, Outcome.result?]

/-- `ConnectBlockHash` of a known block that is connected without an error. -/
theorem connectBlockHash_eq {block : MsgBlock} {session : Session api} {after : StakeDatabase api}
    (answered : env.client.getBlock (hcd.hashOf block) = .ok block)
    (returned : session.db.connectBlock hcd params env block = .returned (after, none)) :
    session.connectBlockHash hcd params env (hcd.hashOf block) =
      .returned (⟨after, session.connected ++ [block]⟩, .ok block) := by
  simp [Session.connectBlockHash, StakeDatabase.connectBlockHash, answered, returned]

/-- Every block of a side chain is connected, in order. -/
theorem Stored.connectSideChain (documented : api.Documented) (persists : api.Persists)
    {envs : Nat → Environment} {side : List MsgBlock} {session : Session api}
    (stored : Stored hcd session) {tip : MsgBlock} (atEnd : session.connected.getLast? = some tip)
    (linked : (chainView hcd).Linked (tip :: side)) (wellFormed : ∀ b ∈ side, SpendsTickets hcd b)
    (serves : ∀ i, (envs i).Serves hcd known length) (isKnown : ∀ b ∈ side, b ∈ known)
    (bounded : session.connected.length + side.length ≤ length) (i : Nat) (block : MsgBlock)
    (accepts : Admitted (perform hcd params) (StakeNodeAccepts hcd params) session
      (connectCalls envs i side)) :
    ∃ after, exec (perform hcd params) session (connectCalls envs i side) = some after ∧
      ChainMonitor.connectSideChain hcd params envs i block (side.map hcd.hashOf) session =
        .returned (after, .ok (side.getLast?.getD block)) ∧
      Stored hcd after ∧ after.connected = session.connected ++ side := by
  induction side generalizing session tip i block with
  | nil => exact ⟨session, rfl, rfl, stored, (List.append_nil _).symm⟩
  | cons first rest inductionHypothesis =>
    obtain ⟨child, laterLinked⟩ := List.isChain_cons_cons.mp linked
    obtain ⟨node, best, atTip⟩ := stored.best.2 stored.unlocked
    have tipHeight : tip.height = session.connected.length - 1 := stored.best.1.tip_height atEnd
    have oneHigher : first.height = tip.height + 1 := child.2
    rw [List.length_cons] at bounded
    obtain ⟨middle, connected⟩ := StakeDatabase.connectBlock_succeeds (serves i) stored.unlocked best
      (by omega) (by omega) (wellFormed first List.mem_cons_self) accepts.1
    have childOfLast : ∀ last ∈ session.connected.getLast?, (chainView hcd).Child last first := by
      intro last isLast
      exact Option.some.inj (atEnd.symm.trans isLast) ▸ child
    have middleStored := stored.connect documented persists childOfLast connected
    have performed := perform_connectBlock connected
    obtain ⟨after, ran, looped, afterStored, chained⟩ := inductionHypothesis middleStored
      (List.getLast?_concat ..) laterLinked (fun b member => wellFormed b (List.mem_cons_of_mem _ member))
      (fun b member => isKnown b (List.mem_cons_of_mem _ member))
      (by rw [List.length_append, List.length_singleton]; omega) (i + 1) first
      (accepts.2 _ performed)
    refine ⟨after, ?_, ?_, afterStored, ?_⟩
    · rw [connectCalls, exec_cons performed]
      exact ran
    · have answered := (serves i).block first (isKnown first List.mem_cons_self)
      simp only [List.map_cons, ChainMonitor.connectSideChain, connectBlockHash_eq answered connected,
        Outcome.bind_returned, looped]
      cases rest with
      | nil => rfl
      | cons second others => rw [List.getLast?_cons_cons]; simp [List.getLast?_cons]
    · rw [chained, List.append_assoc, List.singleton_append]

/-- At the tip, `Height` returns the height of the last connected block. -/
theorem AtTip.height_returned {session : Session api} (atTip : AtTip hcd session) :
    ∃ height : Nat, session.db.height = .returned height ∧
      (height : Int) = session.connected.length - 1 := by
  obtain ⟨node, best, tip⟩ := atTip.best.2 atTip.unlocked
  exact ⟨api.height node, by simp [StakeDatabase.height, best, atTip.unlocked], tip⟩

end Session

namespace ChainMonitor

open Session

/-- `switchToSideChain` up to its last loop: the first block of the side chain, with the
blocks above its parent disconnected. -/
def disconnectToAncestor (hcd : Hcd) (answers : SwitchAnswers) (rootHash : Hash) (db : Session api) :
    Outcome (Session api × Except SwitchError MsgBlock) :=
  match answers.root.getBlock rootHash with
  | .error _ => .returned (db, .error .noRoot)
  | .ok block =>
    match answers.ancestor.getBlock block.header.prevBlock with
    | .error _ => .returned (db, .error .noCommonAncestor)
    | .ok prevBlock =>
      let commonAncestorHeight := block.height - 1
      if prevBlock.height ≠ commonAncestorHeight then .panicked
      else
        db.db.height.bind fun mainTip =>
          (db.disconnectBlocks hcd answers.disconnects (mainTip - commonAncestorHeight)).bind fun
            | (db, some err) => .returned (db, .error (.disconnect err))
            | (db, none) => db.db.height.bind fun mainTip =>
              if (mainTip : Int) ≠ commonAncestorHeight then .panicked
              else .returned (db, .ok block)

/-- The rest of it: the side chain is connected. -/
def connectToTip (hcd : Hcd) (params : ChainParams) (answers : SwitchAnswers)
    (sideChain : List Hash) :
    Session api × Except SwitchError MsgBlock →
      Outcome (Session api × Except SwitchError (Int32 × Hash))
  | (db, .error err) => .returned (db, .error err)
  | (db, .ok block) => (connectSideChain hcd params answers.connects 0 block sideChain db).bind fun
    | (db, .error err) => .returned (db, .error err)
    | (db, .ok block) => db.db.height.bind fun mainTip =>
      if (mainTip : Int) ≠ block.height then .panicked
      else .returned (db, .ok (Int32.ofInt mainTip, hcd.hashOf block))

/-- The way back to the ancestor and the way up the side chain are `switchToSideChain`. -/
theorem switchToSideChain_eq (answers : SwitchAnswers) (rootHash : Hash) (rest : List Hash)
    (db : Session api) :
    switchToSideChain hcd params answers (rootHash :: rest) db =
      (disconnectToAncestor hcd answers rootHash db).bind
        (connectToTip hcd params answers (rootHash :: rest)) := by
  simp only [switchToSideChain, disconnectToAncestor]
  cases answers.root.getBlock rootHash with
  | error err => rfl
  | ok block =>
    dsimp only
    cases answers.ancestor.getBlock block.header.prevBlock with
    | error err => rfl
    | ok prevBlock =>
      dsimp only
      split
      · rfl
      · cases db.db.height with
        | blocked => rfl
        | panicked => rfl
        | returned mainTip =>
          simp only [Outcome.bind_returned]
          cases db.disconnectBlocks hcd answers.disconnects (mainTip - (block.height - 1)) with
          | blocked => rfl
          | panicked => rfl
          | returned result =>
            obtain ⟨middle, err⟩ := result
            cases err with
            | some err => rfl
            | none =>
              simp only [Outcome.bind_returned]
              cases middle.db.height with
              | blocked => rfl
              | panicked => rfl
              | returned tip =>
                simp only [Outcome.bind_returned]
                split
                · rfl
                · rfl

/-- The node answers every call of a switch, with the blocks that it knows. -/
structure Serves (hcd : Hcd) (known : List MsgBlock) (length : Nat) (answers : SwitchAnswers) :
    Prop where
  root : ∀ b ∈ known, answers.root.getBlock (hcd.hashOf b) = .ok b
  ancestor : ∀ b ∈ known, answers.ancestor.getBlock (hcd.hashOf b) = .ok b
  disconnects : ∀ i, (answers.disconnects i).Serves hcd known length
  connects : ∀ i, (answers.connects i).Serves hcd known length

/-- The blocks above the parent of the side chain are disconnected when nothing fails. -/
theorem disconnectToAncestor_succeeds (documented : api.Documented) (persists : api.Persists)
    {session : Session api} (stored : Stored hcd session) {answers : SwitchAnswers}
    {known : List MsgBlock} {length fork : Nat} (serves : Serves hcd known length answers)
    {ancestor first : MsgBlock} (forks : session.connected[fork]? = some ancestor)
    (child : (chainView hcd).Child ancestor first) (isKnown : ∀ b ∈ session.connected, b ∈ known)
    (firstKnown : first ∈ known)
    (accepts : StakeNodeAccepts hcd params session
      (.disconnectBlocks answers.disconnects (session.connected.length - (fork + 1) : Nat))) :
    ∃ middle, session.perform hcd params (.disconnectBlocks answers.disconnects
        (session.connected.length - (fork + 1) : Nat)) = some middle ∧
      disconnectToAncestor hcd answers (hcd.hashOf first) session = .returned (middle, .ok first) ∧
      Stored hcd middle ∧ middle.connected = session.connected.take (fork + 1) := by
  obtain ⟨inside, here⟩ := List.getElem?_eq_some_iff.mp forks
  have parentIs : first.header.prevBlock = hcd.hashOf ancestor := child.1
  have oneHigher : first.height = ancestor.height + 1 := child.2
  have ancestorHeight : ancestor.height = fork := stored.best.1.height_eq forks
  have unlocked := stored.unlocked
  obtain ⟨after, rounds, afterStored⟩ := stored.disconnectLoop documented persists
    (session.connected.length - (fork + 1)) 0 (by omega) serves.disconnects isKnown (by
      intro before done fewer completed
      rw [Nat.zero_add] at completed ⊢
      refine accepts before done (Int.ofNat_lt.mpr fewer) ?_
      simpa [StakeDatabase.disconnectBlocks, unlocked] using completed)
  rw [Nat.zero_add] at rounds
  have sameCut : session.connected.length - (session.connected.length - (fork + 1)) = fork + 1 := by
    omega
  rw [sameCut] at afterStored
  have ended : session.disconnectBlocks hcd answers.disconnects
      (session.connected.length - (fork + 1) : Nat) =
        .returned (⟨after, session.connected.take (fork + 1)⟩, none) := by
    simp [Session.disconnectBlocks, StakeDatabase.disconnectBlocks, unlocked, rounds, sameCut]
  obtain ⟨mainTip, isTip, tipHeight⟩ := stored.toAtTip.height_returned
  obtain ⟨cutTip, isCutTip, cutHeight⟩ := afterStored.toAtTip.height_returned
  have shortened : (session.connected.take (fork + 1)).length = fork + 1 := by
    rw [List.length_take]
    omega
  rw [shortened] at cutHeight
  have count : (mainTip : Int) - (first.height - 1) = (session.connected.length - (fork + 1) : Nat) := by
    omega
  refine ⟨_, ?_, ?_, afterStored, rfl⟩
  · simp [perform, StakeDatabase.disconnectBlocks, unlocked, rounds, sameCut, Outcome.result?]
  · have isParent : ¬ancestor.height ≠ first.height - 1 := by omega
    have arrived : ¬(cutTip : Int) ≠ first.height - 1 := by
      push_cast at cutHeight
      omega
    simp only [disconnectToAncestor, serves.root first firstKnown, parentIs,
      serves.ancestor ancestor (isKnown ancestor (List.mem_of_getElem? forks)), isTip, count, ended,
      isCutTip, Outcome.bind_returned]
    rw [if_neg isParent, if_neg arrived]

/-- With the parent of the side chain above the tip the switch panics before its last loop. -/
theorem disconnectToAncestor_panics {session : Session api} (atTip : AtTip hcd session)
    {answers : SwitchAnswers} {known : List MsgBlock} {length : Nat}
    (serves : Serves hcd known length answers) {ancestor first : MsgBlock}
    (child : (chainView hcd).Child ancestor first) (ancestorKnown : ancestor ∈ known)
    (firstKnown : first ∈ known) (above : (session.connected.length : Int) ≤ ancestor.height) :
    disconnectToAncestor hcd answers (hcd.hashOf first) session = .panicked := by
  have parentIs : first.header.prevBlock = hcd.hashOf ancestor := child.1
  have oneHigher : first.height = ancestor.height + 1 := child.2
  obtain ⟨mainTip, isTip, tipHeight⟩ := atTip.height_returned
  have nothing : ((mainTip : Int) - (first.height - 1)).toNat = 0 := by omega
  have unchanged : session.disconnectBlocks hcd answers.disconnects (mainTip - (first.height - 1)) =
      .returned (session, none) := by
    simp [Session.disconnectBlocks, StakeDatabase.disconnectBlocks, atTip.unlocked, nothing,
      StakeDatabase.disconnectLoop]
  have isParent : ¬ancestor.height ≠ first.height - 1 := by omega
  have below : (mainTip : Int) ≠ first.height - 1 := by omega
  simp only [disconnectToAncestor, serves.root first firstKnown, parentIs,
    serves.ancestor ancestor ancestorKnown, isTip, unchanged, Outcome.bind_returned]
  rw [if_neg isParent, if_pos below]

/-- When nothing fails, `switchToSideChain` disconnects the blocks above the parent of the
side chain and connects the side chain in order, which is all that it does to the
database, and returns the last block of the side chain and its height. When the parent is
above the tip it panics before it connects anything. -/
theorem switchToSideChain_completes (documented : api.Documented) (persists : api.Persists)
    {session : Session api} (stored : Stored hcd session) {answers : SwitchAnswers}
    {known : List MsgBlock} {length : Nat} (serves : Serves hcd known length answers)
    {ancestor newTip : MsgBlock} {side : List MsgBlock}
    (linked : (chainView hcd).Linked (ancestor :: side)) (lastIs : side.getLast? = some newTip)
    (wellFormed : ∀ b ∈ side, SpendsTickets hcd b)
    (isKnown : ∀ b ∈ session.connected ++ ancestor :: side, b ∈ known) :
    (∀ fork, session.connected[fork]? = some ancestor → fork + 1 + side.length ≤ length →
      Admitted (perform hcd params) (StakeNodeAccepts hcd params) session
        (switchCalls answers (session.connected.length - (fork + 1) : Nat) side) →
      ∃ after, exec (perform hcd params) session
          (switchCalls answers (session.connected.length - (fork + 1) : Nat) side) = some after ∧
        switchToSideChain hcd params answers (side.map hcd.hashOf) session =
          .returned (after, .ok (Int32.ofInt newTip.height, hcd.hashOf newTip)) ∧
        after.connected = session.connected.take (fork + 1) ++ side ∧ Stored hcd after) ∧
    ((session.connected.length : Int) ≤ ancestor.height →
      (∀ first ∈ side.head?,
        disconnectToAncestor hcd answers (hcd.hashOf first) session = .panicked) ∧
      switchToSideChain hcd params answers (side.map hcd.hashOf) session = .panicked) := by
  cases side with
  | nil => cases lastIs
  | cons first rest =>
    obtain ⟨child, -⟩ := List.isChain_cons_cons.mp linked
    have sideKnown : ∀ b ∈ first :: rest, b ∈ known := fun b member =>
      isKnown b (List.mem_append_right _ (List.mem_cons_of_mem _ member))
    have firstKnown := sideKnown first List.mem_cons_self
    constructor
    · intro fork forks bounded accepts
      obtain ⟨middle, performed, cut, middleStored, isFront⟩ := disconnectToAncestor_succeeds
        documented persists stored serves forks child
        (fun b member => isKnown b (List.mem_append_left _ member)) firstKnown accepts.1
      obtain ⟨inside, -⟩ := List.getElem?_eq_some_iff.mp forks
      have atEnd : middle.connected.getLast? = some ancestor := by
        rw [isFront, List.getLast?_eq_getElem?, List.length_take, Nat.min_eq_left inside,
          Nat.succ_sub_one, List.getElem?_take_of_lt (Nat.lt_succ_self fork), forks]
      have room : middle.connected.length + (first :: rest).length ≤ length := by
        rw [isFront, List.length_take, Nat.min_eq_left inside]
        exact bounded
      obtain ⟨after, ran, looped, afterStored, chained⟩ := middleStored.connectSideChain documented
        persists atEnd linked wellFormed serves.connects sideKnown room 0 first
        (accepts.2 _ performed)
      have isLast : after.connected.getLast? = some newTip := by
        rw [chained, List.getLast?_append, lastIs]
        rfl
      obtain ⟨height, isHeight, tipHeight⟩ := afterStored.toAtTip.height_returned
      have newTipHeight : newTip.height = after.connected.length - 1 :=
        afterStored.best.1.tip_height isLast
      have same : (height : Int) = newTip.height := by omega
      refine ⟨after, ?_, ?_, by rw [chained, isFront], afterStored⟩
      · rw [switchCalls, exec_cons performed]
        exact ran
      · have asTip : ¬(height : Int) ≠ newTip.height := not_not.mpr same
        rw [lastIs, Option.getD_some] at looped
        rw [List.map_cons, switchToSideChain_eq, cut, Outcome.bind_returned, ← List.map_cons]
        simp only [connectToTip, looped, isHeight, Outcome.bind_returned]
        rw [if_neg asTip, same]
    · intro above
      have panics := disconnectToAncestor_panics stored.toAtTip serves child
        (isKnown ancestor (by simp)) firstKnown above
      refine ⟨?_, ?_⟩
      · rintro other isFirst
        exact Option.some.inj isFirst ▸ panics
      · rw [List.map_cons, switchToSideChain_eq, panics]
        rfl

/-! ## An instance -/

/-- A chain of three blocks, with the stake node at its last one. -/
def threeBlocks : Session Sample.stakeApi where
  db := { Sample.opened with
    stakeDB := ⟨(Sample.hcd.hashOf Sample.secondBlock, 2), [⟨2, []⟩, ⟨1, []⟩, ⟨0, []⟩]⟩
    bestNode := some (⟨2, []⟩ : Sample.LiveNode) }
  connected := [Sample.genesis, Sample.firstBlock, Sample.secondBlock]

/-- The node has the side chain as its main chain by now. -/
def switchedNode : Environment :=
  Sample.environment [Sample.genesis, Sample.sideBlock, Sample.sideChild]
    [Sample.genesis, Sample.firstBlock, Sample.secondBlock, Sample.sideBlock, Sample.sideChild]

/-- The answers of the switched node to every call of the switch. -/
def switchAnswers : SwitchAnswers :=
  ⟨switchedNode.client, switchedNode.client, fun _ => switchedNode, fun _ => switchedNode⟩

/-- The sample session with three blocks is stored. -/
theorem threeBlocks_stored : Stored Sample.hcd threeBlocks where
  unlocked := rfl
  best := by
    refine ⟨⟨List.cons_ne_nil _ _, ?_, ?_⟩, fun _ => ⟨_, rfl, rfl⟩⟩
    · rintro _ ⟨⟩
      rfl
    · exact List.isChain_cons_cons.mpr ⟨⟨rfl, rfl⟩,
        List.isChain_cons_cons.mpr ⟨⟨rfl, rfl⟩, List.isChain_singleton _⟩⟩
  state := by
    rintro _ ⟨⟩
    exact ⟨2, rfl⟩

/-- The switched node answers for its five blocks. -/
theorem switchedNode_serves : switchedNode.Serves Sample.hcd
    [Sample.genesis, Sample.firstBlock, Sample.secondBlock, Sample.sideBlock, Sample.sideChild] 3 where
  block b member := Sample.client_getBlock (by decide) member
  header b member := by
    simp only [List.mem_cons, List.not_mem_nil, or_false] at member
    rcases member with rfl | rfl | rfl | rfl | rfl <;> rfl
  byHeight height inside := by
    have cases : height = 0 ∨ height = 1 ∨ height = 2 := by omega
    rcases cases with rfl | rfl | rfl <;> exact ⟨_, rfl⟩
  outputs hash tx answered := by
    simp only [switchedNode, Sample.environment, Sample.client] at answered
    split at answered
    · rename_i found isFound
      obtain rfl := Except.ok.inj answered
      have member := List.mem_of_find?_eq_some isFound
      have tickets : found = Sample.ticket 7 ∨ found = Sample.ticket 8 := by
        simpa [Sample.genesis, Sample.firstBlock, Sample.secondBlock, Sample.sideBlock,
          Sample.sideChild, Sample.block] using member
      rcases tickets with rfl | rfl
      · exact List.cons_ne_nil _ _
      · exact List.cons_ne_nil _ _
    · cases answered
  stateErr := rfl
  viewErr := rfl
  updateErr := rfl

/-- The sample stake node accepts a block that spends and revokes no tickets. -/
theorem sample_acceptsConnect {params : ChainParams} {env : Environment} {block : MsgBlock}
    (noRevoked : revokedTicketsInBlock Sample.hcd block = some [])
    (noSpent : ticketsSpentInBlock Sample.hcd block = some []) (db : StakeDatabase Sample.stakeApi) :
    db.AcceptsConnect Sample.hcd params env block := by
  intro maturing forgotten revoked spent node compares
  obtain rfl : [] = revoked := Option.some.inj (noRevoked.symm.trans compares.isRevoked)
  obtain rfl : [] = spent := Option.some.inj (noSpent.symm.trans compares.isSpent)
  exact ⟨_, rfl⟩

/-- The law at a switch from the second of two blocks to another branch of two. -/
theorem switchToSideChain_completes_sample :
    ∃ after, switchToSideChain Sample.hcd ⟨16, 144⟩ switchAnswers
        ([Sample.sideBlock, Sample.sideChild].map Sample.hcd.hashOf) threeBlocks =
          .returned (after, .ok (2, Sample.hcd.hashOf Sample.sideChild)) ∧
      after.connected = [Sample.genesis, Sample.sideBlock, Sample.sideChild] := by
  have linked : (chainView Sample.hcd).Linked
      (Sample.genesis :: [Sample.sideBlock, Sample.sideChild]) :=
    List.isChain_cons_cons.mpr ⟨⟨rfl, rfl⟩,
      List.isChain_cons_cons.mpr ⟨⟨rfl, rfl⟩, List.isChain_singleton _⟩⟩
  have wellFormed : ∀ b ∈ [Sample.sideBlock, Sample.sideChild], SpendsTickets Sample.hcd b := by
    intro b member
    simp only [List.mem_cons, List.not_mem_nil, or_false] at member
    rcases member with rfl | rfl
    · exact ⟨rfl, rfl⟩
    · exact ⟨rfl, rfl⟩
  have serves : Serves Sample.hcd [Sample.genesis, Sample.firstBlock, Sample.secondBlock,
      Sample.sideBlock, Sample.sideChild] 3 switchAnswers :=
    ⟨switchedNode_serves.block, switchedNode_serves.block, fun _ => switchedNode_serves,
      fun _ => switchedNode_serves⟩
  have disconnects : StakeNodeAccepts Sample.hcd ⟨16, 144⟩ threeBlocks
      (.disconnectBlocks switchAnswers.disconnects (2 : Nat)) := by
    intro before done fewer completed child parentBlock best found
    have cases : done = 0 ∨ done = 1 := by omega
    rcases cases with rfl | rfl
    · obtain ⟨rfl, -⟩ := Prod.mk.inj (Outcome.returned.inj completed)
      cases best
      exact ⟨_, rfl⟩
    · obtain ⟨rfl, -⟩ := Prod.mk.inj (Outcome.returned.inj completed)
      cases best
      exact ⟨_, rfl⟩
  have accepts : Admitted (perform Sample.hcd ⟨16, 144⟩) (StakeNodeAccepts Sample.hcd ⟨16, 144⟩)
      threeBlocks (switchCalls switchAnswers (2 : Nat) [Sample.sideBlock, Sample.sideChild]) :=
    admitted_cons rfl disconnects (admitted_cons rfl (sample_acceptsConnect rfl rfl _)
      (admitted_cons rfl (sample_acceptsConnect rfl rfl _) trivial))
  obtain ⟨after, -, returned, chained, -⟩ := (switchToSideChain_completes Sample.stakeApi_documented
    stakeApi_persists threeBlocks_stored serves linked rfl wellFormed (by decide)).1 0 rfl (by decide)
      accepts
  exact ⟨after, returned, chained⟩

end ChainMonitor

end Hcexplorer

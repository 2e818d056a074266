import Hcexplorer.PoolValue

/-!
# Two computations of the ticket pool's value

`BuildStakeTree` of `txhelpers/staketree.go` connects the blocks of a map one
after another and notes the value of the pool before each; `StakeDatabase` connects
them one call at a time and computes the value of the pool after each. Both keep a
stake node, a cache of ticket values and the tickets that mature, each in its own
way: one reads the maturing block from the map, and only from `StakeEnabledHeight`
on, the other from a cache that it empties or from the node, from `TicketMaturity`
on.

`nodeAt` is the node they share: that of the chain after so many blocks. Before
its step at a height `BuildStakeTree` holds the node of the chain one below; after
connecting a block `StakeDatabase` holds that of the block. So the value at an index
is the one after the block before it.
-/

namespace Hcexplorer

/-- The parameters of the chain that `BuildStakeTree` reads, with the height from which there are
tickets. -/
structure TreeParams extends ChainParams where
  stakeEnabledHeight : Int64

/-- What the calls of one `BuildStakeTree` are answered by: the node, the creation of
the database, `InitDatabaseState`, each `WriteConnectedBestNode`, and the commit. -/
structure TreeEnvironment (api : StakeApi) where
  client : NodeClient
  createErr : Option String
  initialized : Except String api.Node
  writeErr : Int → Option String
  updateErr : Option String

/-- The variables of the loop of `BuildStakeTree`: its node, its map of live tickets, and the
values it notes. -/
structure StakeTree (api : StakeApi) where
  bestNode : api.Node
  liveTicketMap : Hash → Option Int64
  poolValues : List Int64

namespace StakeTree

variable {api : StakeApi}

/-- The value of the pool before a block, from the height on from which it is required. The loop
over the live tickets is that of `PoolInfoBest`, with a map of its own. -/
def notePool (client : NodeClient) (poolRequiredHeight : Int64) (i : Nat) (tree : StakeTree api) :
    Option (StakeTree api) :=
  if poolRequiredHeight.toInt ≤ i then
    match StakeDatabase.poolValue client (api.liveTickets tree.bestNode) 0 tree.liveTicketMap with
    | none => none
    | some (amt, liveTicketMap) =>
      some { tree with liveTicketMap := liveTicketMap, poolValues := tree.poolValues.set i amt }
  else some tree

/-- The tickets to add at a height. `none` is the nil block that `TicketsInBlock`
dereferences. -/
def ticketsToAdd (hcd : Hcd) (params : TreeParams) (blocks : Int → Option MsgBlock) (i : Nat) :
    Option (List Hash) :=
  if params.stakeEnabledHeight.toInt ≤ i then
    (blocks (i - params.ticketMaturity.toNat)).map (ticketsInBlock hcd)
  else some []

/-- One round of the loop: the value is noted, and the block at the height is connected. -/
def step (hcd : Hcd) (params : TreeParams) (env : TreeEnvironment api) (poolRequiredHeight : Int64)
    (blocks : Int → Option MsgBlock) (i : Nat) (tree : StakeTree api) :
    Outcome (StakeTree api × Option String) :=
  match tree.notePool env.client poolRequiredHeight i with
  | none => .panicked
  | some tree =>
    match ticketsToAdd hcd params blocks i, blocks i with
    | some maturing, some block =>
      match ticketsSpentInBlock hcd block, revokedTicketsInBlock hcd block with
      | some spent, some revoked =>
        let tree : StakeTree api :=
          { tree with
            liveTicketMap := fun hash =>
              if spent.contains hash || revoked.contains hash then none
              else tree.liveTicketMap hash }
        match api.connectNode tree.bestNode block.header spent revoked maturing with
        | .error err => .returned (tree, some ("couldn't connect node: " ++ err))
        | .ok bestNode =>
          let tree := { tree with bestNode := bestNode }
          .returned (tree, (env.writeErr i).map ("failure writing the best node: " ++ ·))
      | _, _ => .panicked
    | _, _ => .panicked

/-- The loop from a height on, until it fails or has gone through all heights. -/
def loop (hcd : Hcd) (params : TreeParams) (env : TreeEnvironment api) (poolRequiredHeight : Int64)
    (blocks : Int → Option MsgBlock) : Nat → Nat → StakeTree api →
      Outcome (StakeTree api × Option String)
  | 0, _, tree => .returned (tree, none)
  | remaining + 1, i, tree =>
    (step hcd params env poolRequiredHeight blocks i tree).bind fun
      | (tree, some err) => .returned (tree, some err)
      | (tree, none) => loop hcd params env poolRequiredHeight blocks remaining (i + 1) tree

end StakeTree

/-- `BuildStakeTree` on a map with `count` entries: the values of the pool and the
error. The database it returns is not read again. -/
def buildStakeTree {api : StakeApi} (hcd : Hcd) (params : TreeParams) (env : TreeEnvironment api)
    (blocks : Int → Option MsgBlock) (count : Nat) (poolRequiredHeight : Int64) :
    Outcome (List Int64 × Option String) :=
  match blocks 0 with
  | none => .returned ([], some "Must start at height 0")
  | some first =>
    if first.height ≠ 0 then .returned ([], some "Must start at height 0")
    else
      match env.createErr, env.initialized with
      | some err, _ => .returned ([], some ("error creating db: " ++ err))
      | none, .error err => .returned ([], some err)
      | none, .ok bestNode =>
        (StakeTree.loop hcd params env poolRequiredHeight blocks (count - 1) 1
          ⟨bestNode, fun _ => none, List.replicate count 0⟩).bind fun (tree, err) =>
            .returned (tree.poolValues, err.or env.updateErr)

section Agreement

open LinkedChain Runs StakeDatabase

variable {api : StakeApi} {hcd : Hcd} {params : TreeParams} {worth : Hash → Int}

/-- The chain as a map from heights, as `BuildStakeTree` is given it. -/
def blockMap (chain : List MsgBlock) (ind : Int) : Option MsgBlock :=
  if 0 ≤ ind then chain[ind.toNat]? else none

/-- The tickets bought in the chain `TicketMaturity` below a height. -/
def maturingAt (hcd : Hcd) (params : ChainParams) (chain : List MsgBlock) (height : Nat) : List Hash :=
  if params.ticketMaturity.toNat ≤ height then
    (chain[height - params.ticketMaturity.toNat]?).elim [] (ticketsInBlock hcd)
  else []

/-- The stake node after the block of the chain at a height, from that of the genesis
block, if hcd makes one. -/
def nodeAt (hcd : Hcd) (params : ChainParams) (genesisNode : api.Node) (chain : List MsgBlock) :
    Nat → Option api.Node
  | 0 => some genesisNode
  | height + 1 =>
    match nodeAt hcd params genesisNode chain height, chain[height + 1]? with
    | some node, some block =>
      match ticketsSpentInBlock hcd block, revokedTicketsInBlock hcd block with
      | some spent, some revoked =>
        (api.connectNode node block.header spent revoked
          (maturingAt hcd params chain (height + 1))).toOption
      | _, _ => none
    | _, _ => none

/-- A node of the chain above the genesis block comes from the one below. -/
theorem nodeAt_succ {genesisNode after : api.Node} {chain : List MsgBlock} {height : Nat}
    (isAfter : nodeAt hcd params.toChainParams genesisNode chain (height + 1) = some after) :
    ∃ node block spent revoked,
      nodeAt hcd params.toChainParams genesisNode chain height = some node ∧
      chain[height + 1]? = some block ∧ ticketsSpentInBlock hcd block = some spent ∧
      revokedTicketsInBlock hcd block = some revoked ∧
      api.connectNode node block.header spent revoked
        (maturingAt hcd params.toChainParams chain (height + 1)) = .ok after := by
  rw [nodeAt] at isAfter
  split at isAfter
  · rename_i node block isNode isBlock
    split at isAfter
    · rename_i spent revoked isSpent isRevoked
      refine ⟨node, block, spent, revoked, isNode, isBlock, isSpent, isRevoked, ?_⟩
      cases connected : api.connectNode node block.header spent revoked
          (maturingAt hcd params.toChainParams chain (height + 1)) with
      | error err =>
        rw [connected] at isAfter
        cases isAfter
      | ok made =>
        rw [connected] at isAfter
        cases isAfter
        rfl
    · cases isAfter
  · cases isAfter

/-- The server finds every ticket of a list, with an output. -/
def FindsAll (client : NodeClient) (tickets : List Hash) : Prop :=
  ∀ hash ∈ tickets, ∃ tx out rest,
    client.getRawTransaction hash = .ok tx ∧ tx.txOut = out :: rest

/-- With every ticket found, the loop over the live tickets counts all of them. -/
theorem poolValue_found {client : NodeClient} (prices : client.Prices worth) {tickets : List Hash}
    (finds : FindsAll client tickets) {value : Int64} {cache : Hash → Option Int64}
    (values : Values worth cache) :
    ∃ after, Values worth after ∧
      poolValue client tickets value cache =
        some (value + Int64.ofInt (totalWorth worth tickets), after) := by
  have counts : ∃ total after, poolValue client tickets value cache = some (total, after) := by
    clear values
    induction tickets generalizing value cache with
    | nil => exact ⟨_, _, rfl⟩
    | cons hash rest inductionHypothesis =>
      obtain ⟨tx, out, others, answered, outputs⟩ := finds hash List.mem_cons_self
      have later : FindsAll client rest :=
        fun other member => finds other (List.mem_cons_of_mem _ member)
      rw [poolValue]
      cases cached : cache hash with
      | some val => exact inductionHypothesis later
      | none =>
        simp only [answered, outputs]
        exact inductionHypothesis later
  obtain ⟨total, after, counted⟩ := counts
  have all : ∀ hash ∈ tickets, found client cache hash = true := by
    intro hash member
    obtain ⟨tx, out, others, answered, outputs⟩ := finds hash member
    simp [found, answered, Except.isOk, Except.toBool]
  obtain ⟨kept, isTotal⟩ := poolValue_complete prices values all counted
  exact ⟨after, kept, isTotal ▸ counted⟩

/-- A position of the chain is a height of its map. -/
theorem blockMap_natCast (chain : List MsgBlock) (height : Nat) :
    blockMap chain height = chain[height]? := by
  simp [blockMap]

/-- With no ticket bought below `StakeEnabledHeight` less `TicketMaturity`, the tickets to
add are those bought in the chain `TicketMaturity` below. -/
theorem ticketsToAdd_eq {chain : List MsgBlock} {height : Nat}
    (enabled : (params.ticketMaturity.toNat : Int) ≤ params.stakeEnabledHeight.toInt)
    (early : ∀ (ind : Nat) block, chain[ind]? = some block →
      (ind : Int) < params.stakeEnabledHeight.toInt - params.ticketMaturity.toNat →
      ticketsInBlock hcd block = [])
    (inside : height < chain.length) :
    StakeTree.ticketsToAdd hcd params (blockMap chain) height =
      some (maturingAt hcd params.toChainParams chain height) := by
  unfold StakeTree.ticketsToAdd maturingAt
  by_cases reached : params.stakeEnabledHeight.toInt ≤ height
  · have mature : params.ticketMaturity.toNat ≤ height := by omega
    have isBlock : chain[height - params.ticketMaturity.toNat]? =
        some chain[height - params.ticketMaturity.toNat] := List.getElem?_eq_getElem (by omega)
    rw [if_pos reached, if_pos mature, ← Int.ofNat_sub mature, blockMap_natCast, isBlock]
    rfl
  · rw [if_neg reached]
    by_cases mature : params.ticketMaturity.toNat ≤ height
    · rw [if_pos mature]
      cases isBlock : chain[height - params.ticketMaturity.toNat]? with
      | none => rfl
      | some block =>
        have nothing := early (height - params.ticketMaturity.toNat) block isBlock (by omega)
        simp [nothing]
    · rw [if_neg mature]

section Tree

variable {genesisNode : api.Node} {chain : List MsgBlock} {env : TreeEnvironment api}
  {poolRequiredHeight : Int64}

/-- The values noted below a height are those of the nodes one below them. -/
def Noted (hcd : Hcd) (params : TreeParams) (worth : Hash → Int) (genesisNode : api.Node)
    (chain : List MsgBlock) (poolRequiredHeight : Int64) (height : Nat) (poolValues : List Int64) :
    Prop :=
  ∀ (i : Nat) node, i < height → poolRequiredHeight.toInt ≤ (i + 1 : Nat) →
    nodeAt hcd params.toChainParams genesisNode chain i = some node →
    poolValues[i + 1]? = some (Int64.ofInt (totalWorth worth (api.liveTickets node)))

/-- What holds before the round of the loop above a height: the node is that of the
chain there, and the values up to the height are noted. -/
structure Grown (hcd : Hcd) (params : TreeParams) (worth : Hash → Int) (genesisNode : api.Node)
    (chain : List MsgBlock) (poolRequiredHeight : Int64) (height : Nat) (tree : StakeTree api) :
    Prop where
  node : nodeAt hcd params.toChainParams genesisNode chain height = some tree.bestNode
  values : Values worth tree.liveTicketMap
  length : tree.poolValues.length = chain.length
  noted : Noted hcd params worth genesisNode chain poolRequiredHeight height tree.poolValues

/-- Noting the value of the pool before a block keeps what has been noted, and adds the exact
value from the required height on. -/
theorem Grown.notePool {height : Nat} {tree : StakeTree api}
    (grown : Grown hcd params worth genesisNode chain poolRequiredHeight height tree)
    (prices : env.client.Prices worth) (finds : FindsAll env.client (api.liveTickets tree.bestNode))
    (inside : height + 1 < chain.length) :
    ∃ after, tree.notePool env.client poolRequiredHeight (height + 1) = some after ∧
      after.bestNode = tree.bestNode ∧ Values worth after.liveTicketMap ∧
      after.poolValues.length = chain.length ∧
      Noted hcd params worth genesisNode chain poolRequiredHeight (height + 1) after.poolValues := by
  unfold StakeTree.notePool
  by_cases required : poolRequiredHeight.toInt ≤ (height + 1 : Nat)
  · obtain ⟨map, values, counted⟩ := poolValue_found prices finds grown.values
    rw [if_pos required, counted]
    refine ⟨_, rfl, rfl, values, by simp [grown.length], ?_⟩
    intro i node below high isNode
    by_cases last : i = height
    · subst last
      obtain rfl := Option.some.inj (isNode.symm.trans grown.node)
      have room : i + 1 < tree.poolValues.length := by
        rw [grown.length]
        exact inside
      rw [List.getElem?_set_self room, Int64.zero_add]
    · rw [List.getElem?_set_ne (by omega)]
      exact grown.noted i node (by omega) high isNode
  · rw [if_neg required]
    refine ⟨tree, rfl, rfl, grown.values, grown.length, ?_⟩
    intro i node below high isNode
    exact grown.noted i node (by omega) high isNode

/-- Votes and revocations have the inputs they are read by: hcd takes no other
transactions for them. -/
def WellFormed (hcd : Hcd) (chain : List MsgBlock) : Prop :=
  ∀ block ∈ chain, (ticketsSpentInBlock hcd block).isSome ∧ (revokedTicketsInBlock hcd block).isSome

/-- One round of the loop of `BuildStakeTree` notes a value. It stops at the block that
hcd does not connect. -/
theorem Grown.step {height : Nat} {tree : StakeTree api}
    (grown : Grown hcd params worth genesisNode chain poolRequiredHeight height tree)
    (prices : env.client.Prices worth) (finds : FindsAll env.client (api.liveTickets tree.bestNode))
    (writes : env.writeErr (height + 1 : Nat) = none) (wellFormed : WellFormed hcd chain)
    (toAdd : StakeTree.ticketsToAdd hcd params (blockMap chain) (height + 1) =
      some (maturingAt hcd params.toChainParams chain (height + 1)))
    (inside : height + 1 < chain.length) :
    ∃ next err, StakeTree.step hcd params env poolRequiredHeight (blockMap chain) (height + 1) tree =
        .returned (next, err) ∧
      Noted hcd params worth genesisNode chain poolRequiredHeight (height + 1) next.poolValues ∧
      (err = none →
        Grown hcd params worth genesisNode chain poolRequiredHeight (height + 1) next) ∧
      (err ≠ none → nodeAt hcd params.toChainParams genesisNode chain (height + 1) = none) := by
  obtain ⟨after, isNoted, sameNode, values, length, noted⟩ := grown.notePool prices finds inside
  have isBlock : chain[height + 1]? = some chain[height + 1] := List.getElem?_eq_getElem inside
  have atHeight : blockMap chain (height + 1 : Nat) = some chain[height + 1] := by
    rw [blockMap_natCast, isBlock]
  obtain ⟨votes, revocations⟩ := wellFormed _ (List.getElem_mem inside)
  obtain ⟨spent, isSpent⟩ := Option.isSome_iff_exists.mp votes
  obtain ⟨revoked, isRevoked⟩ := Option.isSome_iff_exists.mp revocations
  unfold StakeTree.step
  simp only [isNoted, toAdd, atHeight, isSpent, isRevoked, sameNode, nodeAt, grown.node, isBlock]
  cases connected : api.connectNode tree.bestNode chain[height + 1].header spent revoked
      (maturingAt hcd params.toChainParams chain (height + 1)) with
  | error err =>
    refine ⟨_, _, rfl, noted, ?_, fun _ => rfl⟩
    rintro ⟨⟩
  | ok bestNode =>
    simp only [writes, Option.map_none]
    refine ⟨_, _, rfl, noted, ?_, fun failed => absurd rfl failed⟩
    intro _
    refine ⟨?_, ?_, length, noted⟩
    · simp only [nodeAt, grown.node, isBlock, isSpent, isRevoked, connected]
      rfl
    · intro hash val cached
      dsimp only at cached
      split at cached
      · cases cached
      · exact values hash val cached

/-- Above a block that hcd does not connect the chain has no nodes. -/
theorem nodeAt_none {height above : Nat}
    (stopped : nodeAt hcd params.toChainParams genesisNode chain height = none)
    (higher : height ≤ above) : nodeAt hcd params.toChainParams genesisNode chain above = none := by
  induction above, higher using Nat.le_induction with
  | base => exact stopped
  | succ above _ inductionHypothesis => rw [nodeAt, inductionHypothesis]

/-- The loop of `BuildStakeTree` returns, with every value noted above which the chain
connects. -/
theorem Grown.loop {remaining height : Nat} {tree : StakeTree api}
    (grown : Grown hcd params worth genesisNode chain poolRequiredHeight height tree)
    (prices : env.client.Prices worth)
    (finds : ∀ below node, nodeAt hcd params.toChainParams genesisNode chain below = some node →
      FindsAll env.client (api.liveTickets node))
    (writes : ∀ i, env.writeErr i = none) (wellFormed : WellFormed hcd chain)
    (toAdd : ∀ above, above < chain.length →
      StakeTree.ticketsToAdd hcd params (blockMap chain) above =
        some (maturingAt hcd params.toChainParams chain above))
    (ends : height + remaining + 1 = chain.length) :
    ∃ final err, StakeTree.loop hcd params env poolRequiredHeight (blockMap chain) remaining
        (height + 1) tree = .returned (final, err) ∧
      Noted hcd params worth genesisNode chain poolRequiredHeight (height + remaining)
        final.poolValues := by
  induction remaining generalizing height tree with
  | zero => exact ⟨tree, none, rfl, grown.noted⟩
  | succ remaining inductionHypothesis =>
    obtain ⟨next, err, stepped, noted, goes, stops⟩ := grown.step prices
      (finds height _ grown.node) (writes _) wellFormed (toAdd _ (by omega)) (by omega)
    rw [StakeTree.loop, stepped]
    cases err with
    | none =>
      obtain ⟨final, err, looped, all⟩ := inductionHypothesis (goes rfl) (by omega)
      have same : height + 1 + remaining = height + (remaining + 1) := by omega
      exact ⟨final, err, looped, same ▸ all⟩
    | some err =>
      refine ⟨next, some err, rfl, ?_⟩
      intro i node _ high isNode
      by_cases low : i < height + 1
      · exact noted i node low high isNode
      · rw [nodeAt_none (stops (by simp)) (by omega)] at isNode
        cases isNode

end Tree

section Database

variable {genesisNode : api.Node} {chain : List MsgBlock} {env : Environment}

/-- What a server of the chain answers a `ConnectBlock`, whose write succeeds. -/
structure Serves (hcd : Hcd) (params : ChainParams) (worth : Hash → Int) (genesisNode : api.Node)
    (chain : List MsgBlock) (env : Environment) : Prop where
  prices : env.client.Prices worth
  finds : ∀ height node, nodeAt hcd params genesisNode chain height = some node →
    FindsAll env.client (api.liveTickets node)
  blocks : ∀ (ind : Nat) block, chain[ind]? = some block →
    ∃ hash, env.client.getBlockAt ind = .ok (block, hash)
  updated : env.updateErr = none

/-- The stake database stands at the block of the chain at a height. -/
structure Stands (hcd : Hcd) (params : ChainParams) (worth : Hash → Int) (genesisNode : api.Node)
    (chain : List MsgBlock) (height : Nat) (session : Session api) : Prop where
  connected : session.connected = chain.take (height + 1)
  unlocked : session.db.nodeMtx = false
  node : ∃ node, session.db.bestNode = some node ∧
    nodeAt hcd params genesisNode chain height = some node
  values : Values worth session.db.liveTicketCache
  cache : ∀ ind entry, session.db.blockCache ind = some entry → blockMap chain ind = some entry

/-- hcd's heights count the blocks of the chain, so the node at a height has this height. -/
theorem nodeAt_height (documented : api.Documented) (first : api.height genesisNode = 0)
    {height : Nat} {node : api.Node}
    (isNode : nodeAt hcd params.toChainParams genesisNode chain height = some node) :
    api.height node = height := by
  induction height generalizing node with
  | zero =>
    obtain rfl := Option.some.inj isNode
    exact first
  | succ height inductionHypothesis =>
    obtain ⟨below, block, spent, revoked, isBelow, -, -, -, connected⟩ := nodeAt_succ isNode
    rw [documented.connect_height _ _ _ _ _ _ connected, inductionHypothesis isBelow]

/-- The maturing tickets of the stake database are those of the chain: the cache has no
other blocks, and neither has the server. -/
theorem Stands.maturingTickets {height : Nat} {session : Session api}
    (stands : Stands hcd params.toChainParams worth genesisNode chain height session)
    (serves : Serves hcd params.toChainParams worth genesisNode chain env)
    (inside : height + 1 < chain.length) :
    ∃ forgotten, session.db.maturingTickets hcd params.toChainParams env.client (height + 1 : Nat) =
      some (maturingAt hcd params.toChainParams chain (height + 1), forgotten) := by
  unfold StakeDatabase.maturingTickets maturingAt
  by_cases mature : params.ticketMaturity.toNat ≤ height + 1
  · have reached : (0 : Int) ≤ (height + 1 - params.ticketMaturity.toNat : Nat) :=
      Int.natCast_nonneg _
    have inChain : height + 1 - params.ticketMaturity.toNat < chain.length := by omega
    have isBlock := List.getElem?_eq_getElem inChain
    simp only [← Int.ofNat_sub mature, if_pos reached, if_pos mature, isBlock, Option.elim_some]
    cases cached : session.db.blockCache
        (height + 1 - params.ticketMaturity.toNat : Nat) with
    | some entry =>
      have same := stands.cache _ entry cached
      rw [blockMap_natCast, isBlock] at same
      obtain rfl := Option.some.inj same
      simp only [StakeDatabase.block, cached]
      exact ⟨_, rfl⟩
    | none =>
      obtain ⟨hash, answered⟩ := serves.blocks _ _ isBlock
      simp only [StakeDatabase.block, cached, answered]
      exact ⟨_, rfl⟩
  · have early : ¬ 0 ≤ ((height + 1 : Nat) : Int) - params.ticketMaturity.toNat := by omega
    simp only [if_neg early, if_neg mature]
    exact ⟨_, rfl⟩

/-- Connecting the next block of the chain moves the stake database to it. -/
theorem Stands.connectBlock (documented : api.Documented) (first : api.height genesisNode = 0)
    (rooted : (chainView hcd).Rooted chain) {height : Nat} {session : Session api}
    {block : MsgBlock} {after : api.Node}
    (stands : Stands hcd params.toChainParams worth genesisNode chain height session)
    (serves : Serves hcd params.toChainParams worth genesisNode chain env)
    (isBlock : chain[height + 1]? = some block)
    (isAfter : nodeAt hcd params.toChainParams genesisNode chain (height + 1) = some after) :
    ∃ next, session.perform hcd params.toChainParams (.connectBlock env block) = some next ∧
      Stands hcd params.toChainParams worth genesisNode chain (height + 1) next := by
  obtain ⟨node, found, spent, revoked, isNode, isFound, isSpent, isRevoked, connected⟩ :=
    nodeAt_succ isAfter
  obtain rfl := Option.some.inj (isFound.symm.trans isBlock)
  obtain ⟨inside, -⟩ := List.getElem?_eq_some_iff.mp isBlock
  obtain ⟨best, isBest, atHeight⟩ := stands.node
  obtain rfl := Option.some.inj (atHeight.symm.trans isNode)
  obtain ⟨forgotten, taken⟩ := stands.maturingTickets serves inside
  obtain ⟨sameMtx, sameNode, -, forgets⟩ := maturingTickets_frame taken
  obtain ⟨-, -, sameCache⟩ := maturingTickets_pool taken
  have isHeight : found.height = (height + 1 : Nat) := rooted.height_eq isBlock
  have low : ¬ ((height + 1 : Nat) : Int) ≤ api.height best := by
    rw [nodeAt_height documented first atHeight]
    omega
  have finds : FindsAll env.client (api.liveTickets after) :=
    serves.finds (height + 1) after isAfter
  obtain ⟨cache, values, counted⟩ : ∃ cache, Values worth cache ∧
      poolValue env.client (api.liveTickets after) 0 session.db.liveTicketCache =
        some (0 + Int64.ofInt (totalWorth worth (api.liveTickets after)), cache) :=
    poolValue_found serves.prices finds stands.values
  rw [← sameCache] at counted
  have returned : ∃ next, session.db.connectBlock hcd params.toChainParams env found =
        .returned (next, none) ∧ next.nodeMtx = false ∧ next.bestNode = some after ∧
      (∀ hash val, next.liveTicketCache hash = some val → cache hash = some val) ∧
      next.blockCache = Function.update forgotten.blockCache (height + 1 : Nat) (some found) := by
    unfold StakeDatabase.connectBlock unexportedConnectBlock
    simp only [isHeight, taken, isRevoked, isSpent, cacheBlock, sameMtx, stands.unlocked, sameNode,
      isBest, if_neg low, connected, serves.updated, poolInfoBest, counted, Bool.false_eq_true,
      if_false]
    exact ⟨_, rfl, rfl, rfl, fun hash val => of_cleanLiveTicketCache, rfl⟩
  obtain ⟨next, ended, unlocked, isNext, cleaned, cached⟩ := returned
  refine ⟨⟨next, session.connected ++ [found]⟩, ?_, ?_⟩
  · simp only [Session.perform, ended, Outcome.result?, Option.map_some, Option.isNone_none, if_true]
  · constructor
    · have joined : chain.take (height + 1 + 1) = chain.take (height + 1) ++ [found] := by
        rw [List.take_add_one, isBlock]
        rfl
      rw [stands.connected, joined]
    · exact unlocked
    · exact ⟨after, isNext, isAfter⟩
    · intro hash val holds
      exact values hash val (cleaned hash val holds)
    · intro ind entry holds
      rw [cached] at holds
      by_cases here : ind = (height + 1 : Nat)
      · subst here
        rw [Function.update_self] at holds
        rw [blockMap_natCast, isBlock]
        exact holds
      · rw [Function.update_of_ne here] at holds
        rcases forgets ind with same | gone
        · exact stands.cache ind entry (same ▸ holds)
        · rw [gone] at holds
          cases holds

/-- The calls that connect the blocks of a chain above the genesis block, up to a
height. -/
def connections (envs : Nat → Environment) (chain : List MsgBlock) : Nat → List Call
  | 0 => []
  | height + 1 => connections envs chain height ++
    (chain[height + 1]?).toList.map (Call.connectBlock (envs (height + 1)))

/-- The calls lead to every block of the chain that hcd connects. -/
theorem Stands.connect_all (documented : api.Documented) (first : api.height genesisNode = 0)
    (rooted : (chainView hcd).Rooted chain) {envs : Nat → Environment} {start : Session api}
    (opened : Stands hcd params.toChainParams worth genesisNode chain 0 start)
    (serves : ∀ position, Serves hcd params.toChainParams worth genesisNode chain (envs position))
    {height : Nat} {node : api.Node}
    (isNode : nodeAt hcd params.toChainParams genesisNode chain height = some node) :
    ∃ session, exec (Session.perform hcd params.toChainParams) start (connections envs chain height) =
        some session ∧
      Stands hcd params.toChainParams worth genesisNode chain height session := by
  induction height generalizing node with
  | zero => exact ⟨start, rfl, opened⟩
  | succ height inductionHypothesis =>
    obtain ⟨below, block, spent, revoked, isBelow, isBlock, -⟩ := nodeAt_succ isNode
    obtain ⟨session, ran, stands⟩ := inductionHypothesis isBelow
    obtain ⟨next, performed, reached⟩ := stands.connectBlock documented first rooted
      (serves (height + 1)) isBlock isNode
    refine ⟨next, ?_, reached⟩
    simp only [connections, isBlock, Option.toList_some, List.map_cons, List.map_nil,
      exec_append, ran, Option.bind_some, exec, performed]

end Database

/-- The two computations agree, and their numberings differ by one block: the value that
`BuildStakeTree` notes at an index is that which `PoolInfoBest` computes between the
connections of the block below it and of the block at it. -/
theorem poolValues_eq_poolInfoBest (documented : api.Documented)
    (enabled : (params.ticketMaturity.toNat : Int) ≤ params.stakeEnabledHeight.toInt)
    {genesisNode : api.Node} (first : api.height genesisNode = 0) {chain : List MsgBlock}
    (rooted : (chainView hcd).Rooted chain) (wellFormed : WellFormed hcd chain)
    (early : ∀ (ind : Nat) block, chain[ind]? = some block →
      (ind : Int) < params.stakeEnabledHeight.toInt - params.ticketMaturity.toNat →
      ticketsInBlock hcd block = [])
    {env : TreeEnvironment api} (created : env.createErr = none)
    (initialized : env.initialized = .ok genesisNode) (writes : ∀ i, env.writeErr i = none)
    (prices : env.client.Prices worth)
    (finds : ∀ height node, nodeAt hcd params.toChainParams genesisNode chain height = some node →
      FindsAll env.client (api.liveTickets node))
    {envs : Nat → Environment}
    (serves : ∀ position, Serves hcd params.toChainParams worth genesisNode chain (envs position))
    {start : Session api}
    (opened : Stands hcd params.toChainParams worth genesisNode chain 0 start)
    (poolRequiredHeight : Int64) :
    ∃ poolValues err, buildStakeTree hcd params env (blockMap chain) chain.length poolRequiredHeight =
        .returned (poolValues, err) ∧
      ∀ (i : Nat) node, 1 ≤ i → poolRequiredHeight.toInt ≤ i → i < chain.length →
        nodeAt hcd params.toChainParams genesisNode chain (i - 1) = some node →
        ∃ session, exec (Session.perform hcd params.toChainParams) start
            (connections envs chain (i - 1)) = some session ∧
          session.connected = chain.take i ∧ session.db.nodeMtx = false ∧
          session.db.bestNode = some node ∧
          ∃ tpi after, session.db.poolInfoBest hcd (envs i).client node = some (tpi, i - 1, after) ∧
            poolValues[i]? = some tpi.value := by
  obtain ⟨genesis, rest, isChain⟩ := List.exists_cons_of_ne_nil rooted.nonempty
  have isFirst : chain[0]? = some genesis := by simp [isChain]
  have atZero : blockMap chain 0 = some genesis := isFirst
  have lowest : genesis.height = 0 := rooted.height_eq isFirst
  have started : Grown hcd params worth genesisNode chain poolRequiredHeight 0
      (⟨genesisNode, fun _ => none, List.replicate chain.length 0⟩ : StakeTree api) := by
    refine ⟨rfl, ?_, by simp, ?_⟩
    · rintro hash val ⟨⟩
    · intro i node below
      exact absurd below (Nat.not_lt_zero i)
  have count : 0 + (chain.length - 1) + 1 = chain.length := by
    simp [isChain]
  obtain ⟨final, err, looped, noted⟩ := started.loop prices finds writes wellFormed
    (fun above inside => ticketsToAdd_eq enabled early inside) count
  refine ⟨final.poolValues, err.or env.updateErr, ?_, ?_⟩
  · unfold buildStakeTree
    simp only [atZero, lowest, created, initialized, ne_eq, not_true_eq_false, if_false]
    rw [looped]
    rfl
  · intro i node positive required inside isNode
    obtain ⟨below, rfl⟩ := Nat.exists_eq_add_of_le' positive
    rw [Nat.add_sub_cancel] at isNode ⊢
    obtain ⟨session, ran, stands⟩ := opened.connect_all documented first rooted serves isNode
    obtain ⟨best, isBest, atHeight⟩ := stands.node
    obtain rfl := Option.some.inj (isNode.symm.trans atHeight)
    obtain ⟨cache, -, counted⟩ : ∃ cache, Values worth cache ∧
        poolValue (envs (below + 1)).client (api.liveTickets node) 0 session.db.liveTicketCache =
          some (0 + Int64.ofInt (totalWorth worth (api.liveTickets node)), cache) :=
      poolValue_found (serves (below + 1)).prices ((serves (below + 1)).finds below node isNode)
        stands.values
    refine ⟨session, ran, stands.connected, stands.unlocked, isBest, ?_⟩
    unfold StakeDatabase.poolInfoBest
    rw [counted, nodeAt_height documented first isNode]
    refine ⟨_, _, rfl, ?_⟩
    rw [noted below node (by omega) required isNode, Int64.zero_add]

end Agreement

namespace StakeTree

open StakeDatabase

/-- Four blocks, the ticket of the second of which matures in the third. -/
def fourBlocks : List MsgBlock :=
  [Sample.genesis, Sample.firstBlock, Sample.secondBlock,
    Sample.block 3 5 (Sample.hcd.hashOf Sample.secondBlock) []]

/-- Tickets mature after one block, and from height two on. -/
def sampleParams : TreeParams := ⟨⟨1, 144⟩, 2⟩

/-- A server of the four blocks, and a database for each computation. -/
def served : Environment := Sample.environment fourBlocks fourBlocks
/-- An environment without failures, whose node has the four blocks. -/
def treeServed : TreeEnvironment Sample.stakeApi :=
  ⟨served.client, none, .ok (⟨0, []⟩ : Sample.LiveNode), fun _ => none, none⟩

/-- The four blocks follow one another, from the genesis block on. -/
theorem fourBlocks_rooted : (chainView Sample.hcd).Rooted fourBlocks where
  nonempty := by simp [fourBlocks]
  genesis := by
    rintro _ ⟨⟩
    rfl
  linked := by
    unfold LinkedChain.View.Linked fourBlocks
    simp only [List.isChain_cons_cons, List.isChain_singleton, and_true]
    exact ⟨⟨rfl, rfl⟩, ⟨rfl, rfl⟩, ⟨rfl, rfl⟩⟩

/-- The stake node of the genesis block, of height zero and without live tickets. -/
def genesisNode : Sample.stakeApi.Node := (⟨0, []⟩ : Sample.LiveNode)

/-- Only the ticket of the second block is ever live. -/
theorem fourBlocks_live {height : Nat} {node : Sample.stakeApi.Node}
    (isNode : nodeAt Sample.hcd sampleParams.toChainParams genesisNode fourBlocks height = some node) :
    ∀ hash ∈ Sample.stakeApi.liveTickets node, hash = Sample.hcd.txHash (Sample.ticket 7) := by
  intro hash member
  rcases height with _ | _ | _ | _ | height
  · cases isNode
    cases member
  · cases isNode
    cases member
  · cases isNode
    exact List.mem_singleton.mp member
  · cases isNode
    exact List.mem_singleton.mp member
  · have ended : nodeAt Sample.hcd sampleParams.toChainParams genesisNode fourBlocks 4 = none := rfl
    rw [nodeAt_none ended (by omega)] at isNode
    cases isNode

/-- The server values the ticket as its purchase does. -/
theorem served_prices : served.client.Prices Followed.sampleWorth := by
  apply Followed.client_prices
  intro tx member out isFirst
  obtain rfl : tx = Sample.ticket 7 := List.mem_singleton.mp member
  cases isFirst
  rfl

/-- The server finds every live ticket of the nodes over the four blocks. -/
theorem served_finds (height : Nat) (node : Sample.stakeApi.Node)
    (isNode : nodeAt Sample.hcd sampleParams.toChainParams genesisNode fourBlocks height = some node) :
    FindsAll served.client (Sample.stakeApi.liveTickets node) := by
  intro hash member
  obtain rfl := fourBlocks_live isNode hash member
  exact ⟨Sample.ticket 7, _, _, rfl, rfl⟩

/-- The environment serves the four blocks: their tickets have prices and are found. -/
theorem served_serves :
    Serves Sample.hcd sampleParams.toChainParams Followed.sampleWorth genesisNode fourBlocks served where
  prices := served_prices
  finds := served_finds
  blocks := by
    intro ind block isBlock
    obtain ⟨inside, rfl⟩ := List.getElem?_eq_some_iff.mp isBlock
    rcases ind with _ | _ | _ | _ | ind
    · exact ⟨_, rfl⟩
    · exact ⟨_, rfl⟩
    · exact ⟨_, rfl⟩
    · exact ⟨_, rfl⟩
    · exact absurd inside (Nat.not_lt.mpr (Nat.le_add_left 4 ind))
  updated := rfl

/-- The law at the tip of the four blocks: the pool is worth a hundred atoms after the
third, at index three of the values. -/
theorem poolValues_eq_poolInfoBest_matured : ∃ poolValues err session node tpi after,
    buildStakeTree Sample.hcd sampleParams treeServed (blockMap fourBlocks) 4 1 =
        .returned (poolValues, err) ∧
      Runs.exec (Session.perform Sample.hcd sampleParams.toChainParams) Session.opened
          (connections (fun _ => served) fourBlocks 2) = some session ∧
      session.connected = [Sample.genesis, Sample.firstBlock, Sample.secondBlock] ∧
      session.db.poolInfoBest Sample.hcd served.client node = some (tpi, 2, after) ∧
      poolValues[3]? = some tpi.value ∧ tpi.value = 100 := by
  have wellFormed : WellFormed Sample.hcd fourBlocks := by
    intro block member
    simp only [fourBlocks, List.mem_cons, List.not_mem_nil, or_false] at member
    rcases member with rfl | rfl | rfl | rfl
    all_goals exact ⟨rfl, rfl⟩
  have early : ∀ (ind : Nat) block, fourBlocks[ind]? = some block →
      (ind : Int) < sampleParams.stakeEnabledHeight.toInt - sampleParams.ticketMaturity.toNat →
      ticketsInBlock Sample.hcd block = [] := by
    intro ind block isBlock low
    have first : ind = 0 := by
      have low : (ind : Int) < 1 := low
      omega
    subst first
    cases isBlock
    rfl
  have opened : Stands Sample.hcd sampleParams.toChainParams Followed.sampleWorth genesisNode
      fourBlocks 0 Session.opened :=
    ⟨rfl, rfl, ⟨genesisNode, rfl, rfl⟩, by rintro hash val ⟨⟩, by rintro ind entry ⟨⟩⟩
  obtain ⟨poolValues, err, built, agree⟩ := poolValues_eq_poolInfoBest Sample.stakeApi_documented
    (by decide) rfl fourBlocks_rooted wellFormed early (rfl : treeServed.createErr = none) rfl
    (fun _ => rfl) served_prices served_finds (fun _ => served_serves) opened 1
  obtain ⟨session, ran, isConnected, -, -, tpi, after, counted, same⟩ :=
    agree 3 _ (by decide) (by decide) (by decide) rfl
  refine ⟨poolValues, err, session, _, tpi, after, built, ran, isConnected, counted, same, ?_⟩
  cases ran
  cases counted
  rfl

end StakeTree

end Hcexplorer

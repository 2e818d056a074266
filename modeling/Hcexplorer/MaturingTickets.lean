import Hcexplorer.StakeChain

/-!
# The tickets that mature

`ConnectBlock` passes to the stake node the tickets bought `TicketMaturity`
blocks below. It takes that block from a cache keyed by height alone, which every
call writes before it compares heights, and asks the node only when the cache has
no entry. The law: as long as a call that is refused for its height carries the
ticket purchases of the connected block at that height, every cache entry at a
height of the connected chain has the purchases of the connected block there, so
the maturing tickets are those of the connected chain.

The two assumptions on the caller and the node, that a connected block continues
the chain and that a block asked for by height is the one of that chain, are part
of the condition on each call. An entry above the connected chain may be that of
a disconnected block; the connection that reaches its height overwrites it.
-/

namespace Hcexplorer

open LinkedChain Runs

namespace StakeDatabase

variable {api : StakeApi} {hcd : Hcd} {params : ChainParams}

/-- From the maturity on, the maturing tickets are those of a block that was in
the cache at the maturing height or that the node returned for it. -/
theorem maturingTickets_taken {client : NodeClient} {height : Int} {db after : StakeDatabase api}
    {maturing : List Hash} (mature : (params.ticketMaturity.toNat : Int) ≤ height)
    (taken : db.maturingTickets hcd params client height = some (maturing, after)) :
    ∃ found, maturing = ticketsInBlock hcd found ∧
      (db.blockCache (height - params.ticketMaturity.toNat) = some found ∨
        ∃ hash, client.getBlockAt (height - params.ticketMaturity.toNat) = .ok (found, hash)) := by
  have reached : 0 ≤ height - params.ticketMaturity.toNat := by omega
  simp only [maturingTickets, reached, if_true] at taken
  cases cached : db.blockCache (height - params.ticketMaturity.toNat) with
  | some entry =>
    simp only [block, cached, Option.some.injEq, Prod.mk.injEq] at taken
    exact ⟨entry, taken.1.symm, Or.inl rfl⟩
  | none =>
    cases answered : client.getBlockAt (height - params.ticketMaturity.toNat) with
    | error err => simp [block, cached, answered] at taken
    | ok fetched =>
      simp only [block, cached, answered, Option.some.injEq, Prod.mk.injEq] at taken
      exact ⟨fetched.1, taken.1.symm, Or.inr ⟨fetched.2, rfl⟩⟩

/-- `ConnectBlock` leaves at most its own block as a new cache entry. -/
theorem connectBlock_blockCache {client : NodeClient} {block : MsgBlock} {maturing : List Hash}
    {db forgotten after : StakeDatabase api}
    (taken : db.maturingTickets hcd params client block.height = some (maturing, forgotten))
    (written : after.blockCache = Function.update forgotten.blockCache block.height (some block))
    {ind : Int} {entry : MsgBlock} (cached : after.blockCache ind = some entry) :
    (ind = block.height ∧ entry = block) ∨ (ind ≠ block.height ∧ db.blockCache ind = some entry) := by
  obtain ⟨-, -, -, frame⟩ := maturingTickets_frame taken
  rw [written] at cached
  by_cases own : ind = block.height
  · rw [own, Function.update_self] at cached
    exact Or.inl ⟨own, (Option.some.inj cached).symm⟩
  · rw [Function.update_of_ne own] at cached
    rcases frame ind with same | forgot
    · exact Or.inr ⟨own, same ▸ cached⟩
    · rw [forgot] at cached
      cases cached

end StakeDatabase

namespace Session

variable {api : StakeApi} {hcd : Hcd} {params : ChainParams}

/-- The connected blocks form a chain, which the best node does not exceed, and
a cache entry at a height of the chain buys the tickets of its block there. -/
structure CacheIsChain (hcd : Hcd) (db : StakeDatabase api) (connected : List MsgBlock) : Prop where
  rooted : (chainView hcd).Rooted connected
  best : db.nodeMtx = false →
    ∃ node, db.bestNode = some node ∧ (api.height node : Int) ≤ connected.length - 1
  cache : db.nodeMtx = false → ∀ (position : Nat) block entry, connected[position]? = some block →
    db.blockCache position = some entry → ticketsInBlock hcd entry = ticketsInBlock hcd block

/-- The condition on a call. A block above the best height continues the chain; a
block the node returns by height is the chain's; and a block at or below the best
height buys the same tickets as the connected block at its height. -/
structure ConnectsMainChain (hcd : Hcd) (session : Session api) (env : Environment)
    (block : MsgBlock) : Prop where
  above : ∀ node ∈ session.db.bestNode, (api.height node : Int) < block.height →
    ∀ tip ∈ session.connected.getLast?, (chainView hcd).Child tip block
  answers : ∀ (position : Nat) found hash, position < session.connected.length →
    env.client.getBlockAt position = .ok (found, hash) → session.connected[position]? = some found
  refused : ∀ node ∈ session.db.bestNode, block.height ≤ api.height node →
    ∀ (position : Nat) earlier, block.height = position →
      session.connected[position]? = some earlier → ticketsInBlock hcd block = ticketsInBlock hcd earlier

/-- The condition on every call of a run: disconnections are free. -/
def KeepsCache (hcd : Hcd) (session : Session api) : Call → Prop
  | .connectBlock env block => ConnectsMainChain hcd session env block
  | .disconnectBlock _ => True
  | .disconnectBlocks _ _ => True

/-- A shorter chain keeps its cache entries: only entries above it are released. -/
theorem CacheIsChain.take {db : StakeDatabase api} {connected : List MsgBlock}
    (holds : CacheIsChain hcd db connected) (unlocked : db.nodeMtx = false) {count : Nat}
    (positive : 0 < count) {after : StakeDatabase api} (sameCache : after.blockCache = db.blockCache)
    {node : api.Node} (best : after.bestNode = some node)
    (below : (api.height node : Int) ≤ (connected.take count).length - 1) :
    CacheIsChain hcd after (connected.take count) where
  rooted := holds.rooted.take count positive
  best := fun _ => ⟨node, best, below⟩
  cache := by
    intro _ position block entry found cached
    rw [List.getElem?_take] at found
    split at found
    · exact holds.cache unlocked position block entry found (sameCache ▸ cached)
    · cases found

/-- One call keeps the cache in agreement with the chain.

A connected block takes its own position, so its entry is right and the others
are old ones; a refused block rewrites the entry at its height by the condition
on refused blocks; a disconnection writes no entry. -/
theorem perform_cacheIsChain (documented : api.Documented) {session next : Session api} {call : Call}
    (holds : CacheIsChain hcd session.db session.connected) (allowed : KeepsCache hcd session call)
    (performed : session.perform hcd params call = some next) :
    CacheIsChain hcd next.db next.connected := by
  refine perform_invariant (CacheIsChain hcd) ?_ ?_ holds performed
  · rintro env block after err rfl returned
    obtain ⟨maturing, forgotten, node, unlocked, best, taken, written, ended⟩ :=
      StakeDatabase.connectBlock_cases returned
    obtain ⟨found, same, below⟩ := holds.best unlocked
    obtain rfl : found = node := Option.some.inj (same.symm.trans best)
    rcases ended with ⟨low, rfl, -, stays, -⟩ | ⟨-, ⟨_, failed⟩, locked⟩ |
      ⟨_, _, connected, above, rfl, -, -, isConnected, -, moved, -⟩
    · refine ⟨holds.rooted, fun _ => ⟨found, stays, below⟩, ?_⟩
      intro _ position earlier entry atPosition cached
      rcases StakeDatabase.connectBlock_blockCache taken written cached with ⟨own, rfl⟩ | ⟨-, old⟩
      · exact allowed.refused found best low position earlier own.symm atPosition
      · exact holds.cache unlocked position earlier entry atPosition old
    · have kept : err.isNone = false := by rcases failed with rfl | rfl <;> rfl
      rw [kept, if_neg Bool.false_ne_true]
      exact ⟨holds.rooted, by simp [locked], by simp [locked]⟩
    · have child := allowed.above found best above
      obtain ⟨tip, last⟩ := holds.rooted.exists_tip
      have oneHigher : block.height = tip.height + 1 := (child tip last).2
      have tipHeight : tip.height = session.connected.length - 1 := holds.rooted.tip_height last
      have higher := documented.connect_height found block.header _ _ _ connected isConnected
      refine ⟨holds.rooted.concat child, fun _ => ⟨connected, moved, ?_⟩, ?_⟩
      · simp only [Option.isNone_none, if_true, List.length_append, List.length_singleton]
        omega
      · intro _ position earlier entry atPosition cached
        simp only [Option.isNone_none, if_true] at atPosition
        rcases StakeDatabase.connectBlock_blockCache taken written cached with
          ⟨own, rfl⟩ | ⟨other, old⟩
        · have atEnd : position = session.connected.length := by omega
          rw [atEnd, List.getElem?_concat_length] at atPosition
          exact congrArg _ (Option.some.inj atPosition)
        · have inside : position < (session.connected ++ [block]).length :=
            (List.getElem?_eq_some_iff.mp atPosition).1
          rw [List.length_append, List.length_singleton] at inside
          rw [List.getElem?_append_left (by omega)] at atPosition
          exact holds.cache unlocked position earlier entry atPosition old
  · intro env db after chain err _ unlocked tracked returned
    rcases StakeDatabase.unexportedDisconnectBlock_cases returned with ⟨failed, rfl⟩ |
      ⟨child, parentBlock, parentNode, best, -, consistent, disconnected, ended⟩
    · have kept : err.isNone = false := by
        simpa [Option.isNone_eq_false_iff, Option.isSome_iff_ne_none]
      exact ⟨unlocked, by simpa [kept] using tracked⟩
    · obtain ⟨found, same, below⟩ := tracked.best unlocked
      obtain rfl : found = child := Option.some.inj (same.symm.trans best)
      obtain ⟨remaining, lower⟩ := disconnected_nonempty documented disconnected consistent below
      rcases ended with ⟨-, failed, rfl⟩ | ⟨-, rfl, rfl⟩
      · have kept : err.isNone = false := by
          simpa [Option.isNone_eq_false_iff, Option.isSome_iff_ne_none]
        rw [kept, if_neg Bool.false_ne_true]
        exact ⟨unlocked, tracked.rooted, fun _ => ⟨parentNode, rfl, by omega⟩, tracked.cache⟩
      · refine ⟨unlocked, tracked.take unlocked remaining rfl rfl ?_⟩
        rw [List.length_take]
        omega

/-- With a maturity of at least one block: after every run in which refused blocks
buy the tickets of the connected block at their height, a block connected at or
above the maturity passes to the stake node exactly the tickets bought in the
connected block that far below. -/
theorem maturing_of_connected (documented : api.Documented) (matures : 1 ≤ params.ticketMaturity)
    {start final : Session api} {calls : List Call}
    (opened : CacheIsChain hcd start.db start.connected)
    (admitted : Admitted (perform hcd params) (KeepsCache hcd) start calls)
    (ran : exec (perform hcd params) start calls = some final) (env : Environment)
    (block : MsgBlock) (after : StakeDatabase api)
    (allowed : KeepsCache hcd final (.connectBlock env block))
    (returned : final.db.connectBlock hcd params env block = .returned (after, none))
    (mature : (params.ticketMaturity.toNat : Int) ≤ block.height) :
    ∃ (position : Nat) (matured : MsgBlock) (node connected : api.Node) (spent revoked : List Hash),
      (position : Int) = block.height - params.ticketMaturity.toNat ∧
        final.connected[position]? = some matured ∧ matured.height = position ∧
        final.db.bestNode = some node ∧ after.bestNode = some connected ∧
        api.connectNode node block.header spent revoked (ticketsInBlock hcd matured) =
          .ok connected := by
  have holds : CacheIsChain hcd final.db final.connected :=
    exec_invariant (fun session : Session api => CacheIsChain hcd session.db session.connected)
      (fun session call next kept allowed performed =>
        perform_cacheIsChain documented kept allowed performed) opened admitted ran
  obtain ⟨maturing, forgotten, node, unlocked, best, taken, -, ended⟩ :=
    StakeDatabase.connectBlock_cases returned
  rcases ended with ⟨-, impossible, -⟩ | ⟨-, ⟨_, impossible⟩, -⟩ |
    ⟨spent, revoked, connected, above, -, -, -, isConnected, -, moved, -⟩
  · simp at impossible
  · simp at impossible
  · obtain ⟨tip, last⟩ := holds.rooted.exists_tip
    have tipHeight : tip.height = final.connected.length - 1 := holds.rooted.tip_height last
    have oneHigher : block.height = tip.height + 1 := (allowed.above node best above tip last).2
    have positive : 1 ≤ params.ticketMaturity.toNat := UInt16.le_iff_toNat_le.mp matures
    -- the maturing height is a position of the chain, below the connected block
    obtain ⟨position, atHeight⟩ : ∃ position : Nat,
        (position : Int) = block.height - params.ticketMaturity.toNat :=
      ⟨(block.height - params.ticketMaturity.toNat).toNat, Int.toNat_of_nonneg (by omega)⟩
    have inside : position < final.connected.length := by omega
    have atPosition := List.getElem?_eq_getElem inside
    obtain ⟨found, rfl, source⟩ := StakeDatabase.maturingTickets_taken mature taken
    rw [← atHeight] at source
    have sameTickets : ticketsInBlock hcd found = ticketsInBlock hcd final.connected[position] := by
      rcases source with cached | ⟨hash, answered⟩
      · exact holds.cache unlocked position _ found atPosition cached
      · have chains := allowed.answers position found hash inside answered
        exact congrArg _ (Option.some.inj (chains.symm.trans atPosition))
    exact ⟨position, _, node, connected, spent, revoked, atHeight, atPosition,
      holds.rooted.height_eq atPosition, best, moved, sameTickets ▸ isConnected⟩

/-- What the node answers while it is at the second sample block. -/
def openedAnswers : Environment :=
  let main := [Sample.genesis, Sample.firstBlock, Sample.secondBlock]
  Sample.environment main (main ++ [Sample.sideBlock])

/-- The law at a run that connects the first sample block: the second matures the
ticket bought in it. -/
theorem maturing_of_connected_opened :
    ∃ final after, exec (perform Sample.hcd ⟨1, 144⟩) opened
        [.connectBlock openedAnswers Sample.firstBlock] = some final ∧
      final.db.connectBlock Sample.hcd ⟨1, 144⟩ openedAnswers Sample.secondBlock =
        .returned (after, none) ∧
      ∃ (position : Nat) (matured : MsgBlock) (node connected : Sample.LiveNode) (spent revoked : List Hash),
        (position : Int) = 2 - 1 ∧ final.connected[position]? = some matured ∧
          after.bestNode = some connected ∧
          Sample.stakeApi.connectNode node Sample.secondBlock.header spent revoked
            (ticketsInBlock Sample.hcd matured) = .ok connected := by
  have start : CacheIsChain Sample.hcd opened.db opened.connected := by
    refine ⟨genesis_rooted, fun _ => ⟨_, rfl, by decide⟩, ?_⟩
    rintro _ position block entry - ⟨⟩
  have first : KeepsCache Sample.hcd opened (.connectBlock openedAnswers Sample.firstBlock) := by
    refine ⟨?_, ?_, ?_⟩
    · rintro _ ⟨⟩ - _ ⟨⟩
      exact ⟨rfl, rfl⟩
    · intro position found hash inside answered
      obtain rfl : position = 0 := by simpa [opened] using inside
      have known : openedAnswers.client.getBlockAt (0 : Nat) = .ok (Sample.genesis, _) := rfl
      cases known.symm.trans answered
      rfl
    · rintro _ ⟨⟩ low
      exact absurd low (by decide)
  have admitted : Admitted (perform Sample.hcd ⟨1, 144⟩) (KeepsCache Sample.hcd) opened
      [.connectBlock openedAnswers Sample.firstBlock] := admitted_cons rfl first trivial
  have second (final : Session Sample.stakeApi)
      (ran : exec (perform Sample.hcd ⟨1, 144⟩) opened
        [.connectBlock openedAnswers Sample.firstBlock] = some final) :
      KeepsCache Sample.hcd final (.connectBlock openedAnswers Sample.secondBlock) := by
    obtain rfl := Option.some.inj ran
    refine ⟨?_, ?_, ?_⟩
    · rintro _ ⟨⟩ - _ ⟨⟩
      exact ⟨rfl, rfl⟩
    · intro position found hash inside answered
      have cases : position = 0 ∨ position = 1 := by
        have bound : position < 2 := inside
        omega
      rcases cases with rfl | rfl
      · have known : openedAnswers.client.getBlockAt (0 : Nat) = .ok (Sample.genesis, _) := rfl
        cases known.symm.trans answered
        rfl
      · have known : openedAnswers.client.getBlockAt (1 : Nat) = .ok (Sample.firstBlock, _) := rfl
        cases known.symm.trans answered
        rfl
    · rintro _ ⟨⟩ low
      exact absurd low (by decide)
  refine ⟨_, _, rfl, rfl, ?_⟩
  obtain ⟨position, matured, node, connected, spent, revoked, atHeight, found, -, -, moved, passed⟩ :=
    maturing_of_connected Sample.stakeApi_documented (by decide) start admitted rfl openedAnswers
      Sample.secondBlock _ (second _ rfl) rfl (by decide)
  exact ⟨position, matured, node, connected, spent, revoked, atHeight, found, moved, passed⟩

/-- A sibling of the first block is refused, and the second block then matures the
sibling's ticket in place of the first block's. -/
theorem maturing_of_refused :
    ∃ (final : Session Sample.stakeApi) (node : Sample.LiveNode),
      exec (perform Sample.hcd ⟨1, 144⟩) opened
        [.connectBlock openedAnswers Sample.firstBlock,
          .connectBlock openedAnswers Sample.sideBlock,
          .connectBlock openedAnswers Sample.secondBlock] = some final ∧
      final.connected = [Sample.genesis, Sample.firstBlock, Sample.secondBlock] ∧
      final.db.bestNode = some node ∧
      node.live = ticketsInBlock Sample.hcd Sample.sideBlock ∧
      node.live ≠ ticketsInBlock Sample.hcd Sample.firstBlock := by
  refine ⟨_, _, rfl, rfl, rfl, rfl, by decide⟩

end Session

end Hcexplorer

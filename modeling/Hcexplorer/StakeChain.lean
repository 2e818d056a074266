import Hcexplorer.Sample
import Hcexplorer.Library.Runs
import Hcexplorer.Library.LinkedChain

/-!
# Runs of the stake database

A session is a stake database together with the blocks that were connected and
not disconnected, in order: a connection that returned nil adds its block, a
disconnection that returned nil removes the last one. Every run of `ConnectBlock`,
`DisconnectBlock` and `DisconnectBlocks` with arbitrary blocks, answers and
failures is a run of sessions.

What a call can do is said once, by the inversion laws of the three methods. The
two invariants are derived from these: the connected blocks form one linked chain
under the best node, and the block cache holds nothing but the tickets of that
chain. Each needs its condition on the calls, because `ConnectBlock` compares
heights with `<=` only, names no parent, and caches a block before it refuses it.
-/

namespace Hcexplorer

open LinkedChain Runs

/-- How a block of the wire is read as a link of a chain. -/
def chainView (hcd : Hcd) : View MsgBlock Hash where
  hash := hcd.hashOf
  parent block := block.header.prevBlock
  height := MsgBlock.height

namespace StakeDatabase

variable {api : StakeApi} {hcd : Hcd} {params : ChainParams}

/-- Taking the maturing tickets changes nothing but the block cache, and that
only by forgetting the block they were taken from. -/
theorem maturingTickets_frame {client : NodeClient} {height : Int} {db after : StakeDatabase api}
    {maturing : List Hash} (taken : db.maturingTickets hcd params client height = some (maturing, after)) :
    after.nodeMtx = db.nodeMtx ∧ after.bestNode = db.bestNode ∧ after.stakeDB = db.stakeDB ∧
      ∀ ind, after.blockCache ind = db.blockCache ind ∨ after.blockCache ind = none := by
  simp only [maturingTickets] at taken
  split at taken
  · split at taken
    · cases taken
    · obtain ⟨-, rfl⟩ := Prod.mk.inj (Option.some.inj taken)
      refine ⟨rfl, rfl, rfl, fun ind => ?_⟩
      by_cases same : ind = height - params.ticketMaturity.toNat
      · exact Or.inr (by simp [forgetBlock, same])
      · exact Or.inl (by simp [forgetBlock, same])
    · obtain ⟨-, rfl⟩ := Prod.mk.inj (Option.some.inj taken)
      exact ⟨rfl, rfl, rfl, fun ind => Or.inl rfl⟩
  · obtain ⟨-, rfl⟩ := Prod.mk.inj (Option.some.inj taken)
    exact ⟨rfl, rfl, rfl, fun ind => Or.inl rfl⟩

/-- What `ConnectBlock` did when it returned: its block is cached in any case.
Either it was refused for its height and nothing else changed, or the stake node
was connected and everything is written, or an error left the mutex locked. -/
theorem connectBlock_cases {env : Environment} {block : MsgBlock} {db after : StakeDatabase api}
    {err : Option StakeError} (returned : db.connectBlock hcd params env block = .returned (after, err)) :
    ∃ maturing forgotten node, db.nodeMtx = false ∧ db.bestNode = some node ∧
      db.maturingTickets hcd params env.client block.height = some (maturing, forgotten) ∧
      after.blockCache = Function.update forgotten.blockCache block.height (some block) ∧
      ((block.height ≤ api.height node ∧ err = some (.cannotConnect block.height (api.height node)) ∧
          after.nodeMtx = false ∧ after.bestNode = some node ∧ after.stakeDB = db.stakeDB) ∨
        ((api.height node : Int) < block.height ∧
          (∃ reason, err = some (.stakeNode reason) ∨ err = some (.database reason)) ∧
          after.nodeMtx = true) ∨
        ∃ spent revoked connected, (api.height node : Int) < block.height ∧ err = none ∧
          ticketsSpentInBlock hcd block = some spent ∧ revokedTicketsInBlock hcd block = some revoked ∧
          api.connectNode node block.header spent revoked maturing = .ok connected ∧
          after.nodeMtx = false ∧ after.bestNode = some connected ∧
          after.stakeDB = api.writeConnectedBestNode db.stakeDB connected (hcd.hashOf block)) := by
  unfold connectBlock at returned
  split at returned
  · cases returned
  · rename_i maturing forgotten taken
    obtain ⟨sameMtx, sameNode, sameStore, -⟩ := maturingTickets_frame taken
    split at returned
    · rename_i revoked spent isRevoked isSpent
      simp only [cacheBlock, sameMtx, sameNode] at returned
      split at returned
      · cases returned
      · rename_i unlocked
        split at returned
        · cases returned
        · rename_i node best
          refine ⟨maturing, forgotten, node, by simpa using unlocked, best, taken, ?_⟩
          split at returned
          · rename_i low
            obtain ⟨rfl, rfl⟩ := Prod.mk.inj (Outcome.returned.inj returned)
            exact ⟨rfl, Or.inl ⟨low, rfl, by simpa using unlocked, best, sameStore⟩⟩
          · rename_i high
            have above : (api.height node : Int) < block.height := by omega
            unfold unexportedConnectBlock at returned
            split at returned
            · obtain ⟨rfl, rfl⟩ := Prod.mk.inj (Outcome.returned.inj returned)
              exact ⟨rfl, Or.inr (Or.inl ⟨above, ⟨_, Or.inl rfl⟩, rfl⟩)⟩
            · rename_i connected isConnected
              split at returned
              · obtain ⟨rfl, rfl⟩ := Prod.mk.inj (Outcome.returned.inj returned)
                exact ⟨rfl, Or.inr (Or.inl ⟨above, ⟨_, Or.inr rfl⟩, rfl⟩)⟩
              · simp only [poolInfoBest] at returned
                split at returned
                · cases returned
                · rename_i tpi poolHeight pooled inPool
                  split at inPool
                  · cases inPool
                  · obtain ⟨rfl, rfl⟩ := Prod.mk.inj (Outcome.returned.inj returned)
                    simp only [Option.some.injEq, Prod.mk.injEq] at inPool
                    obtain ⟨-, -, rfl⟩ := inPool
                    refine ⟨rfl, Or.inr (Or.inr ⟨spent, revoked, connected, above, rfl, isSpent,
                      isRevoked, isConnected, ?_, rfl, ?_⟩)⟩
                    · simpa [cleanLiveTicketCache] using unlocked
                    · simp [cleanLiveTicketCache, sameStore]
    · cases returned

/-- What a disconnection did when it returned: on success the best node is the
one hcd returned and the state is written; on error nothing changed, or the best
node was replaced and the write failed. -/
theorem unexportedDisconnectBlock_cases {env : Environment} {db after : StakeDatabase api}
    {err : Option StakeError} (returned : db.unexportedDisconnectBlock hcd env = .returned (after, err)) :
    (err ≠ none ∧ after = db) ∨
      ∃ child parentBlock parentStakeNode, db.bestNode = some child ∧
        db.dbPrevBlock env = .ok parentBlock ∧ parentBlock.height = api.height child - 1 ∧
        api.disconnectNode child parentBlock.header db.stakeDB = .ok parentStakeNode ∧
        ((env.updateErr ≠ none ∧ err ≠ none ∧ after = { db with bestNode := some parentStakeNode }) ∨
          (env.updateErr = none ∧ err = none ∧
            after = { db with
              bestNode := some parentStakeNode
              stakeDB := api.writeDisconnectedBestNode db.stakeDB parentStakeNode
                (hcd.hashOf parentBlock) (api.undoData child) })) := by
  unfold unexportedDisconnectBlock at returned
  split at returned
  · cases returned
  · rename_i child best
    split at returned
    · obtain ⟨rfl, rfl⟩ := Prod.mk.inj (Outcome.returned.inj returned)
      exact Or.inl ⟨by simp, rfl⟩
    · rename_i parentBlock found
      split at returned
      · cases returned
      · rename_i consistent
        split at returned
        · obtain ⟨rfl, rfl⟩ := Prod.mk.inj (Outcome.returned.inj returned)
          exact Or.inl ⟨by simp, rfl⟩
        · split at returned
          · obtain ⟨rfl, rfl⟩ := Prod.mk.inj (Outcome.returned.inj returned)
            exact Or.inl ⟨by simp, rfl⟩
          · rename_i parentStakeNode disconnected
            refine Or.inr ⟨child, parentBlock, parentStakeNode, best, found,
              by simpa using consistent, disconnected, ?_⟩
            split at returned
            · rename_i failure failed
              obtain ⟨rfl, rfl⟩ := Prod.mk.inj (Outcome.returned.inj returned)
              exact Or.inl ⟨by simp [failed], by simp, rfl⟩
            · rename_i written
              obtain ⟨rfl, rfl⟩ := Prod.mk.inj (Outcome.returned.inj returned)
              exact Or.inr ⟨written, rfl, rfl⟩

/-- How the loop of `DisconnectBlocks` ended. A property that every completed
iteration keeps, with the last block of its chain removed, holds after the
completed iterations; then either all of them were completed, or the next one
returned an error and the loop with it. -/
theorem disconnectLoop_cases (invariant : StakeDatabase api → List MsgBlock → Prop)
    (envs : Nat → Environment)
    (removed : ∀ position db after chain, invariant db chain →
      db.unexportedDisconnectBlock hcd (envs position) = .returned (after, none) →
        invariant after (chain.take (chain.length - 1)))
    {remaining start done : Nat} {db after : StakeDatabase api} {chain : List MsgBlock}
    {err : Option StakeError} (holds : invariant db chain)
    (returned : disconnectLoop hcd envs remaining start db = .returned (after, err, done)) :
    ∃ middle, start ≤ done ∧ invariant middle (chain.take (chain.length - (done - start))) ∧
      ((err = none ∧ after = middle ∧ done = start + remaining) ∨
        ∃ failure, err = some failure ∧
          middle.unexportedDisconnectBlock hcd (envs done) = .returned (after, some failure)) := by
  induction remaining generalizing start db chain with
  | zero =>
    obtain ⟨rfl, rfl, rfl⟩ : db = after ∧ none = err ∧ start = done := by
      simpa [disconnectLoop] using returned
    exact ⟨db, Nat.le_refl _, by simpa using holds, Or.inl ⟨rfl, rfl, rfl⟩⟩
  | succ remaining inductionHypothesis =>
    simp only [disconnectLoop] at returned
    split at returned
    · cases returned
    · cases returned
    · rename_i stopped failure ended
      obtain ⟨rfl, rfl, rfl⟩ : stopped = after ∧ some failure = err ∧ start = done := by
        simpa using returned
      exact ⟨db, Nat.le_refl _, by simpa using holds, Or.inr ⟨failure, rfl, ended⟩⟩
    · rename_i next ended
      obtain ⟨middle, later, kept, how⟩ :=
        inductionHypothesis (removed start db next chain holds ended) returned
      have sameCut : min (min (chain.length - 1) chain.length - (done - (start + 1))) (chain.length - 1) =
          chain.length - (done - start) := by omega
      rw [List.take_take, List.length_take, sameCut] at kept
      refine ⟨middle, by omega, kept, ?_⟩
      rcases how with ⟨succeeded, same, all⟩ | failed
      · exact Or.inl ⟨succeeded, same, by omega⟩
      · exact Or.inr failed

end StakeDatabase

/-- One call of a run, with the answers that it gets from outside. -/
inductive Call where
  | connectBlock (env : Environment) (block : MsgBlock)
  | disconnectBlock (env : Environment)
  | disconnectBlocks (envs : Nat → Environment) (count : Int)

/-- A stake database and the blocks connected to it and not disconnected. -/
structure Session (api : StakeApi) where
  db : StakeDatabase api
  connected : List MsgBlock

namespace Session

variable {api : StakeApi} {hcd : Hcd} {params : ChainParams}

/-- Perform a call. Nothing follows a call that panics or waits for ever. -/
def perform (hcd : Hcd) (params : ChainParams) (session : Session api) : Call → Option (Session api)
  | .connectBlock env block =>
    (session.db.connectBlock hcd params env block).result?.map fun (db, err) =>
      ⟨db, if err.isNone then session.connected ++ [block] else session.connected⟩
  | .disconnectBlock env =>
    (session.db.disconnectBlock hcd env).result?.map fun (db, err) =>
      ⟨db, if err.isNone then session.connected.take (session.connected.length - 1)
        else session.connected⟩
  | .disconnectBlocks envs count =>
    (session.db.disconnectBlocks hcd envs count).result?.map fun (db, _, done) =>
      ⟨db, session.connected.take (session.connected.length - done)⟩

/-- A property of a database and its connected blocks is kept by a call when it
is kept by a connection and by every single disconnection the call may make. -/
theorem perform_invariant (invariant : StakeDatabase api → List MsgBlock → Prop)
    {session next : Session api} {call : Call}
    (connection : ∀ env block after err, call = .connectBlock env block →
      session.db.connectBlock hcd params env block = .returned (after, err) →
        invariant after (if err.isNone then session.connected ++ [block] else session.connected))
    (disconnection : ∀ env db after chain err,
      call = .disconnectBlock env ∨ (∃ envs count position, call = .disconnectBlocks envs count ∧
        env = envs position) → db.nodeMtx = false → invariant db chain →
      db.unexportedDisconnectBlock hcd env = .returned (after, err) →
        after.nodeMtx = false ∧
          invariant after (if err.isNone then chain.take (chain.length - 1) else chain))
    (holds : invariant session.db session.connected)
    (performed : session.perform hcd params call = some next) : invariant next.db next.connected := by
  cases call with
  | connectBlock env block =>
    obtain ⟨⟨after, err⟩, ended, rfl⟩ := Option.map_eq_some_iff.mp performed
    exact connection env block after err rfl (Outcome.result?_eq_some.mp ended)
  | disconnectBlock env =>
    obtain ⟨⟨after, err⟩, ended, rfl⟩ := Option.map_eq_some_iff.mp performed
    have returned := Outcome.result?_eq_some.mp ended
    unfold StakeDatabase.disconnectBlock at returned
    split at returned
    · cases returned
    · rename_i unlocked
      exact (disconnection env _ _ _ err (Or.inl rfl) (by simpa using unlocked) holds returned).2
  | disconnectBlocks envs count =>
    obtain ⟨⟨after, err, done⟩, ended, rfl⟩ := Option.map_eq_some_iff.mp performed
    have returned := Outcome.result?_eq_some.mp ended
    unfold StakeDatabase.disconnectBlocks at returned
    split at returned
    · cases returned
    · rename_i unlocked
      obtain ⟨middle, -, ⟨free, kept⟩, how⟩ := StakeDatabase.disconnectLoop_cases
        (fun db chain => db.nodeMtx = false ∧ invariant db chain) envs
        (fun position db after chain both ended => by
          simpa using disconnection (envs position) db after chain none
            (Or.inr ⟨envs, count, position, rfl, rfl⟩) both.1 both.2 ended)
        ⟨by simpa using unlocked, holds⟩ returned
      rw [Nat.sub_zero] at kept
      rcases how with ⟨-, rfl, -⟩ | ⟨failure, -, stopped⟩
      · exact kept
      · exact (disconnection (envs done) middle after _ (some failure)
          (Or.inr ⟨envs, count, done, rfl, rfl⟩) free kept stopped).2

/-- The connected blocks form a chain from the genesis block and, while the
database can still be locked, the best node stands at its last block. -/
def BestIsTip (hcd : Hcd) (db : StakeDatabase api) (connected : List MsgBlock) : Prop :=
  (chainView hcd).Rooted connected ∧
    (db.nodeMtx = false →
      ∃ node, db.bestNode = some node ∧ (api.height node : Int) = connected.length - 1)

/-- A block handed to `ConnectBlock` above the best height is the child of the
last connected block, and no write of a disconnection fails. -/
def ExtendsTip (hcd : Hcd) (session : Session api) : Call → Prop
  | .connectBlock _ block => ∀ node ∈ session.db.bestNode, (api.height node : Int) < block.height →
      ∀ tip ∈ session.connected.getLast?, (chainView hcd).Child tip block
  | .disconnectBlock env => env.updateErr = none
  | .disconnectBlocks envs _ => ∀ position, (envs position).updateErr = none

/-- A disconnection that succeeds leaves at least the genesis block: the height
of the parent block is not negative. -/
theorem disconnected_nonempty {node parentNode : api.Node} {parentBlock : MsgBlock}
    {connected : List MsgBlock} (documented : api.Documented) {store : api.Store}
    (disconnected : api.disconnectNode node parentBlock.header store = .ok parentNode)
    (consistent : parentBlock.height = api.height node - 1)
    (below : (api.height node : Int) ≤ connected.length - 1) :
    0 < connected.length - 1 ∧ (api.height parentNode : Int) = api.height node - 1 := by
  have lower := documented.disconnect_height node parentBlock.header store parentNode disconnected
  have nonneg : 0 ≤ (api.height node : Int) - 1 := consistent ▸ height_nonneg parentBlock
  omega

/-- A connected child of the last block is the new last block. -/
theorem BestIsTip.connect (documented : api.Documented) {env : Environment} {block : MsgBlock}
    {db after : StakeDatabase api} {connected : List MsgBlock} (holds : BestIsTip hcd db connected)
    (child : ∀ tip ∈ connected.getLast?, (chainView hcd).Child tip block)
    (returned : db.connectBlock hcd params env block = .returned (after, none)) :
    BestIsTip hcd after (connected ++ [block]) := by
  obtain ⟨maturing, forgotten, node, unlocked, best, -, -, ended⟩ :=
    StakeDatabase.connectBlock_cases returned
  obtain ⟨found, same, atTip⟩ := holds.2 unlocked
  obtain rfl : found = node := Option.some.inj (same.symm.trans best)
  rcases ended with ⟨-, impossible, -⟩ | ⟨-, ⟨_, impossible⟩, -⟩ |
    ⟨_, _, higher, -, -, -, -, isConnected, -, moved, -⟩
  · simp at impossible
  · simp at impossible
  · refine ⟨holds.1.concat child, fun _ => ⟨higher, moved, ?_⟩⟩
    have above := documented.connect_height found block.header _ _ _ higher isConnected
    rw [List.length_append, List.length_singleton]
    omega

/-- A successful disconnection removes the last block, and the tip is the one before. -/
theorem BestIsTip.disconnect (documented : api.Documented) {env : Environment}
    {db after : StakeDatabase api} {connected : List MsgBlock} (holds : BestIsTip hcd db connected)
    (unlocked : db.nodeMtx = false)
    (returned : db.unexportedDisconnectBlock hcd env = .returned (after, none)) :
    after.nodeMtx = false ∧ BestIsTip hcd after (connected.take (connected.length - 1)) := by
  rcases StakeDatabase.unexportedDisconnectBlock_cases returned with ⟨failed, -⟩ |
    ⟨child, parentBlock, parentNode, best, -, consistent, disconnected, ended⟩
  · exact absurd rfl failed
  · obtain ⟨found, same, atTip⟩ := holds.2 unlocked
    obtain rfl : found = child := Option.some.inj (same.symm.trans best)
    obtain ⟨remaining, lower⟩ := disconnected_nonempty documented disconnected consistent atTip.le
    rcases ended with ⟨-, failed, -⟩ | ⟨-, -, rfl⟩
    · exact absurd rfl failed
    · refine ⟨unlocked, holds.1.take _ remaining, fun _ => ⟨parentNode, rfl, ?_⟩⟩
      rw [List.length_take]
      omega

/-- One call keeps the chain linked and the best node at its end. -/
theorem perform_bestIsTip (documented : api.Documented) {session next : Session api} {call : Call}
    (holds : BestIsTip hcd session.db session.connected) (allowed : ExtendsTip hcd session call)
    (performed : session.perform hcd params call = some next) :
    BestIsTip hcd next.db next.connected := by
  refine perform_invariant (BestIsTip hcd) ?_ ?_ holds performed
  · rintro env block after err rfl returned
    obtain ⟨maturing, forgotten, node, unlocked, best, -, -, ended⟩ :=
      StakeDatabase.connectBlock_cases returned
    rcases ended with ⟨-, rfl, -, stays, -⟩ | ⟨-, ⟨_, failed⟩, locked⟩ | ⟨_, _, _, above, rfl, -⟩
    · obtain ⟨found, same, atTip⟩ := holds.2 unlocked
      obtain rfl : found = node := Option.some.inj (same.symm.trans best)
      exact ⟨holds.1, fun _ => ⟨found, stays, atTip⟩⟩
    · have kept : err.isNone = false := by rcases failed with rfl | rfl <;> rfl
      rw [kept, if_neg Bool.false_ne_true]
      exact ⟨holds.1, by simp [locked]⟩
    · exact holds.connect documented (allowed node best above) returned
  · intro env db after chain err source unlocked tracked returned
    have written : env.updateErr = none := by
      rcases source with rfl | ⟨envs, count, position, rfl, rfl⟩
      · exact allowed
      · exact allowed position
    cases err with
    | none => exact tracked.disconnect documented unlocked returned
    | some failure =>
      rcases StakeDatabase.unexportedDisconnectBlock_cases returned with ⟨-, rfl⟩ |
        ⟨_, _, _, -, -, -, -, ⟨failed, -⟩ | ⟨-, impossible, -⟩⟩
      · exact ⟨unlocked, tracked⟩
      · exact absurd written failed
      · cases impossible

/-- In every run whose calls extend the last connected block, or are refused for
their height, the connected blocks form one hash-linked chain with consecutive
heights, and `ConnectBlock` returns nil only for a block one above the best
height whose parent is the best block.

The run law is the induction over the calls; the last call is read off the state
it starts from. -/
theorem connected_linked (documented : api.Documented) {start final : Session api}
    {calls : List Call} (opened : BestIsTip hcd start.db start.connected)
    (admitted : Admitted (perform hcd params) (ExtendsTip hcd) start calls)
    (ran : exec (perform hcd params) start calls = some final) :
    (chainView hcd).Rooted final.connected ∧
      ∀ env block after, ExtendsTip hcd final (.connectBlock env block) →
        final.db.connectBlock hcd params env block = .returned (after, none) →
          ∃ node tip, final.db.bestNode = some node ∧ final.connected.getLast? = some tip ∧
            block.height = api.height node + 1 ∧ tip.height = api.height node ∧
            block.header.prevBlock = hcd.hashOf tip := by
  have holds : BestIsTip hcd final.db final.connected :=
    exec_invariant (fun session : Session api => BestIsTip hcd session.db session.connected)
      (fun session call next kept allowed performed =>
        perform_bestIsTip documented kept allowed performed) opened admitted ran
  refine ⟨holds.1, fun env block after extends_ returned => ?_⟩
  obtain ⟨maturing, forgotten, node, unlocked, best, -, -, ended⟩ :=
    StakeDatabase.connectBlock_cases returned
  obtain ⟨found, same, atTip⟩ := holds.2 unlocked
  obtain rfl : found = node := Option.some.inj (same.symm.trans best)
  obtain ⟨tip, last⟩ := holds.1.exists_tip
  have tipHeight : tip.height = final.connected.length - 1 := holds.1.tip_height last
  rcases ended with ⟨-, impossible, -⟩ | ⟨-, ⟨_, impossible⟩, -⟩ | ⟨-, -, connected, above, -⟩
  · simp at impossible
  · simp at impossible
  · have child : (chainView hcd).Child tip block := extends_ found best above tip last
    have oneHigher : block.height = tip.height + 1 := child.2
    exact ⟨found, tip, best, last, by omega, by omega, child.1⟩

/-- A database opened at the genesis block, as the only connected one. -/
def opened : Session Sample.stakeApi := ⟨Sample.opened, [Sample.genesis]⟩

/-- Two blocks are connected and the second is disconnected. -/
def openedCalls : List Call :=
  let main := [Sample.genesis, Sample.firstBlock, Sample.secondBlock]
  let env := Sample.environment main main
  [.connectBlock env Sample.firstBlock, .connectBlock env Sample.secondBlock, .disconnectBlock env]

/-- The genesis block alone is a chain that begins with it. -/
theorem genesis_rooted : (chainView Sample.hcd).Rooted [Sample.genesis] := by
  refine ⟨List.cons_ne_nil _ _, ?_, List.isChain_singleton _⟩
  rintro _ ⟨⟩
  rfl

/-- The law at a run that connects two blocks and disconnects the second. -/
theorem connected_linked_opened :
    ∃ final, exec (perform Sample.hcd ⟨1, 144⟩) opened openedCalls = some final ∧
      (chainView Sample.hcd).Rooted final.connected := by
  have start : BestIsTip Sample.hcd opened.db opened.connected :=
    ⟨genesis_rooted, fun _ => ⟨_, rfl, rfl⟩⟩
  have admitted : Admitted (perform Sample.hcd ⟨1, 144⟩) (ExtendsTip Sample.hcd) opened
      openedCalls := by
    refine admitted_cons rfl ?_ (admitted_cons rfl ?_ (admitted_cons rfl rfl trivial))
    · rintro _ ⟨⟩ - _ ⟨⟩
      exact ⟨rfl, rfl⟩
    · rintro _ ⟨⟩ - _ ⟨⟩
      exact ⟨rfl, rfl⟩
  exact ⟨_, rfl, (connected_linked Sample.stakeApi_documented start admitted rfl).1⟩

/-- `ConnectBlock` returns nil for a block five above the best block whose parent
was never connected; the next `DisconnectBlock` then panics. -/
theorem connected_not_linked :
    let env := Sample.environment [Sample.genesis]
      [Sample.genesis, Sample.strayBlock, Sample.strayChild]
    ∃ final, exec (perform Sample.hcd ⟨16, 144⟩) opened
        [.connectBlock env Sample.strayChild] = some final ∧
      final.connected = [Sample.genesis, Sample.strayChild] ∧
      Sample.strayChild.height = 5 ∧
      Sample.strayChild.header.prevBlock ≠ Sample.hcd.hashOf Sample.genesis ∧
      ¬ (chainView Sample.hcd).Rooted final.connected ∧
      final.db.disconnectBlock Sample.hcd env = .panicked := by
  intro env
  refine ⟨_, rfl, rfl, rfl, by decide, ?_, rfl⟩
  intro rooted
  have atOne : (chainView Sample.hcd).height Sample.strayChild = ((1 : Nat) : Int) :=
    rooted.height_eq rfl
  exact absurd atOne (by decide)

end Session

end Hcexplorer

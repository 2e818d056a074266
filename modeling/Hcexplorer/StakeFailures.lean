import Hcexplorer.StakeChain

/-!
# What a failing call leaves behind

`ConnectBlock`, `DisconnectBlock` and each round of `DisconnectBlocks` write five
pieces of state at different places, with error returns in between. A failing
call restores when the whole database is what it was before the call, the
persisted state still has the height of the best node, and `nodeMtx` can be
taken.

No exit of these methods undoes a write, so a call restores exactly when it fails
before its first write. For a disconnection that leaves out a failing
`StakeDB.Update`; for a connection it leaves out a failing `ConnectNode` and a
failing `Update`, both of which also keep `nodeMtx`, and every refusal for the
height that changes the block cache first.
-/

namespace Hcexplorer

open Runs

/-- What hcd documents of the stake bucket: writing a best node stores its hash
and height under the key of the chain state. -/
structure StakeApi.Persists (api : StakeApi) : Prop where
  connected : ∀ store node hash,
    api.chainState (api.writeConnectedBestNode store node hash) = some (hash, api.height node)
  disconnected : ∀ store node hash undo,
    api.chainState (api.writeDisconnectedBestNode store node hash undo) = some (hash, api.height node)

namespace StakeDatabase

variable {api : StakeApi} {hcd : Hcd} {params : ChainParams} {env : Environment}

/-- The persisted state agrees with the best node: it has its height. -/
def StoreAgrees (db : StakeDatabase api) : Prop :=
  ∃ node hash, db.bestNode = some node ∧ api.chainState db.stakeDB = some (hash, api.height node)

/-- A call that returned with an error left everything as it was before, the
persisted state in agreement with the best node and the mutex free. -/
def Restores (before : StakeDatabase api) (outcome : Outcome (StakeDatabase api × Option StakeError)) :
    Prop :=
  ∀ after err, outcome = .returned (after, some err) →
    after = before ∧ after.StoreAgrees ∧ after.nodeMtx = false

/-- `ConnectBlock` gets as far as comparing heights: the maturing tickets and the
tickets spent and revoked by the block are found, and the mutex and the best node
are there. -/
structure Compares (hcd : Hcd) (params : ChainParams) (env : Environment) (block : MsgBlock)
    (db : StakeDatabase api) (maturing : List Hash) (forgotten : StakeDatabase api)
    (revoked spent : List Hash) (node : api.Node) : Prop where
  unlocked : db.nodeMtx = false
  best : db.bestNode = some node
  matured : db.maturingTickets hcd params env.client block.height = some (maturing, forgotten)
  isRevoked : revokedTicketsInBlock hcd block = some revoked
  isSpent : ticketsSpentInBlock hcd block = some spent

/-- The cache already holds the block at its height, and no other block would be
taken out of it for its maturing tickets. -/
def CacheSettled (params : ChainParams) (block : MsgBlock) (db : StakeDatabase api) : Prop :=
  db.blockCache block.height = some block ∧
    (params.ticketMaturity ≠ 0 → 0 ≤ block.height - params.ticketMaturity.toNat →
      db.blockCache (block.height - params.ticketMaturity.toNat) = none)

/-- When `ConnectBlock` compares heights, a block above the best node is connected
and written without a failure, and for any other block the cache is settled. -/
def ConnectsOrRefuses (hcd : Hcd) (params : ChainParams) (env : Environment) (block : MsgBlock)
    (db : StakeDatabase api) : Prop :=
  ∀ maturing forgotten revoked spent node,
    db.Compares hcd params env block maturing forgotten revoked spent node →
      if block.height ≤ api.height node then db.CacheSettled params block
      else env.updateErr = none ∧
        ∃ connected, api.connectNode node block.header spent revoked maturing = .ok connected

/-- When a disconnection has the parent node, its write does not fail. -/
def WritesParent (env : Environment) (db : StakeDatabase api) : Prop :=
  ∀ child parentBlock parentNode, db.bestNode = some child →
    db.dbPrevBlock env = .ok parentBlock → parentBlock.height = api.height child - 1 →
    env.viewErr = none → api.disconnectNode child parentBlock.header db.stakeDB = .ok parentNode →
      env.updateErr = none

/-- `ForgetBlock` empties the cache at one height. -/
@[simp] theorem forgetBlock_blockCache (ind : Int) (db : StakeDatabase api) :
    (db.forgetBlock ind).blockCache = Function.update db.blockCache ind none := rfl

/-- From the comparison of heights on, `ConnectBlock` is the refusal or the
unexported method, at the cache with the block in it. -/
theorem Compares.connectBlock_eq {block : MsgBlock} {db forgotten : StakeDatabase api}
    {maturing revoked spent : List Hash} {node : api.Node}
    (compares : db.Compares hcd params env block maturing forgotten revoked spent node) :
    db.connectBlock hcd params env block =
      if block.height ≤ api.height node then
        .returned (forgotten.cacheBlock block, some (.cannotConnect block.height (api.height node)))
      else (forgotten.cacheBlock block).unexportedConnectBlock hcd env block spent revoked maturing
        node := by
  obtain ⟨sameMtx, sameNode, -, -⟩ := maturingTickets_frame compares.matured
  have free : (forgotten.cacheBlock block).nodeMtx = false := sameMtx.trans compares.unlocked
  have same : (forgotten.cacheBlock block).bestNode = some node := sameNode.trans compares.best
  simp only [connectBlock, compares.matured, compares.isRevoked, compares.isSpent, free, same,
    Bool.false_eq_true, if_false]

/-- A connection that returned has compared the heights, with the tickets that it found before. -/
theorem connectBlock_compares {block : MsgBlock} {db after : StakeDatabase api}
    {err : Option StakeError}
    (returned : db.connectBlock hcd params env block = .returned (after, err)) :
    ∃ maturing forgotten revoked spent node,
      db.Compares hcd params env block maturing forgotten revoked spent node := by
  obtain ⟨maturing, forgotten, node, unlocked, best, matured, -⟩ := connectBlock_cases returned
  cases isRevoked : revokedTicketsInBlock hcd block with
  | none => simp [connectBlock, matured, isRevoked] at returned
  | some revoked =>
    cases isSpent : ticketsSpentInBlock hcd block with
    | none => simp [connectBlock, matured, isRevoked, isSpent] at returned
    | some spent => exact ⟨maturing, forgotten, revoked, spent, node, unlocked, best, matured,
        isRevoked, isSpent⟩

/-- Taking the maturing tickets takes a block out of the cache if there is one at
the maturing height, and changes nothing else. -/
theorem maturingTickets_forgotten {client : NodeClient} {height : Int}
    {db forgotten : StakeDatabase api} {maturing : List Hash}
    (taken : db.maturingTickets hcd params client height = some (maturing, forgotten)) :
    forgotten = if 0 ≤ height - (params.ticketMaturity.toNat : Int)
      then db.forgetBlock (height - params.ticketMaturity.toNat) else db := by
  have absent (ind : Int) (notCached : db.blockCache ind = none) : db.forgetBlock ind = db := by
    have same : Function.update db.blockCache ind none = db.blockCache := by
      rw [← notCached, Function.update_eq_self]
    simp only [forgetBlock, same]
  by_cases reached : 0 ≤ height - (params.ticketMaturity.toNat : Int)
  · rw [if_pos reached]
    simp only [maturingTickets, reached, if_true] at taken
    cases cached : db.blockCache (height - params.ticketMaturity.toNat) with
    | some entry =>
      simp only [block, cached, Option.some.injEq, Prod.mk.injEq] at taken
      exact taken.2.symm
    | none =>
      cases answered : client.getBlockAt (height - params.ticketMaturity.toNat) with
      | error err => simp [block, cached, answered] at taken
      | ok fetched =>
        simp only [block, cached, answered, Option.some.injEq, Prod.mk.injEq] at taken
        rw [absent _ cached]
        exact taken.2.symm
  · rw [if_neg reached]
    simp only [maturingTickets, reached, if_false, Option.some.injEq, Prod.mk.injEq] at taken
    exact taken.2.symm

/-- A refused block leaves the cache as it was exactly when the cache is settled. -/
theorem cacheBlock_eq_iff {client : NodeClient} {block : MsgBlock}
    {db forgotten : StakeDatabase api} {maturing : List Hash}
    (taken : db.maturingTickets hcd params client block.height = some (maturing, forgotten)) :
    forgotten.cacheBlock block = db ↔ db.CacheSettled params block := by
  have isForgotten := maturingTickets_forgotten taken
  have onlyCache : forgotten.cacheBlock block = db ↔
      Function.update forgotten.blockCache block.height (some block) = db.blockCache := by
    constructor
    · intro same
      exact congrArg StakeDatabase.blockCache same
    · intro same
      simp only [cacheBlock, same]
      by_cases reached : 0 ≤ block.height - (params.ticketMaturity.toNat : Int)
      · rw [isForgotten, if_pos reached]
        rfl
      · rw [isForgotten, if_neg reached]
  rw [onlyCache]
  constructor
  · intro same
    refine ⟨by rw [← same, Function.update_self], fun matures reached => ?_⟩
    have other : block.height - (params.ticketMaturity.toNat : Int) ≠ block.height := by
      have positive : params.ticketMaturity.toNat ≠ 0 := fun zero =>
        matures (UInt16.toNat_inj.mp zero)
      omega
    rw [← same, Function.update_of_ne other, isForgotten, if_pos reached, forgetBlock_blockCache,
      Function.update_self]
  · rintro ⟨cached, settled⟩
    funext ind
    by_cases own : ind = block.height
    · rw [own, Function.update_self, cached]
    · rw [Function.update_of_ne own, isForgotten]
      by_cases reached : 0 ≤ block.height - (params.ticketMaturity.toNat : Int)
      · rw [if_pos reached, forgetBlock_blockCache]
        by_cases matured : ind = block.height - (params.ticketMaturity.toNat : Int)
        · have matures : params.ticketMaturity ≠ 0 := by
            rintro zero
            simp [zero] at matured
            exact own matured
          rw [matured, Function.update_self, settled matures reached]
        · rw [Function.update_of_ne matured]
      · rw [if_neg reached]

/-- From the comparison on, a failing connection restores exactly when it refuses
a block for its height with the cache settled; the other failures replace the best
node by nil or keep the mutex. -/
theorem connectBlock_restores_iff {block : MsgBlock} {db : StakeDatabase api}
    (agrees : db.StoreAgrees) :
    db.Restores (db.connectBlock hcd params env block) ↔
      db.ConnectsOrRefuses hcd params env block := by
  constructor
  · intro restores maturing forgotten revoked spent node compares
    have ended := compares.connectBlock_eq
    split
    · rename_i low
      rw [if_pos low] at ended
      exact (cacheBlock_eq_iff compares.matured).mp (restores _ _ ended).1
    · rename_i high
      rw [if_neg high, unexportedConnectBlock] at ended
      cases isConnected : api.connectNode node block.header spent revoked maturing with
      | error reason =>
        simp only [isConnected] at ended
        have nilNode : (none : Option api.Node) = db.bestNode :=
          congrArg StakeDatabase.bestNode (restores _ _ ended).1
        rw [compares.best] at nilNode
        cases nilNode
      | ok connected =>
        cases failed : env.updateErr with
        | none => exact ⟨rfl, connected, rfl⟩
        | some reason =>
          simp only [isConnected, failed] at ended
          have kept : true = false := (restores _ _ ended).2.2
          cases kept
  · intro allowed after err returned
    obtain ⟨maturing, forgotten, revoked, spent, node, compares⟩ := connectBlock_compares returned
    have condition := allowed maturing forgotten revoked spent node compares
    rw [compares.connectBlock_eq] at returned
    by_cases low : block.height ≤ api.height node
    · rw [if_pos low] at returned condition
      obtain ⟨rfl, -⟩ := Prod.mk.inj (Outcome.returned.inj returned)
      have same := (cacheBlock_eq_iff compares.matured).mpr condition
      rw [same]
      exact ⟨rfl, agrees, compares.unlocked⟩
    · rw [if_neg low] at returned condition
      obtain ⟨written, connected, isConnected⟩ := condition
      simp only [unexportedConnectBlock, isConnected, written] at returned
      split at returned
      · cases returned
      · cases Outcome.returned.inj returned

/-- A failing disconnection restores exactly when it fails before the best node is
replaced. -/
theorem unexportedDisconnectBlock_restores_iff (documented : api.Documented)
    {db : StakeDatabase api} (unlocked : db.nodeMtx = false) (agrees : db.StoreAgrees) :
    db.Restores (db.unexportedDisconnectBlock hcd env) ↔ db.WritesParent env := by
  constructor
  · intro restores child parentBlock parentNode best found consistent viewed disconnected
    cases failed : env.updateErr with
    | none => rfl
    | some reason =>
      have ended : db.unexportedDisconnectBlock hcd env =
          .returned ({ db with bestNode := some parentNode }, some (.database reason)) := by
        simp [unexportedDisconnectBlock, best, found, consistent, viewed, disconnected, failed]
      have same : some parentNode = db.bestNode :=
        congrArg StakeDatabase.bestNode (restores _ _ ended).1
      rw [best] at same
      have lower := documented.disconnect_height child parentBlock.header db.stakeDB parentNode
        disconnected
      rw [Option.some.inj same] at lower
      omega
  · intro allowed after err returned
    rcases unexportedDisconnectBlock_cases returned with ⟨-, rfl⟩ |
      ⟨child, parentBlock, parentNode, best, found, consistent, disconnected, ended⟩
    · exact ⟨rfl, agrees, unlocked⟩
    · cases viewed : env.viewErr with
      | some reason =>
        obtain ⟨rfl, -⟩ : db = after ∧ StakeError.database reason = err := by
          simpa [unexportedDisconnectBlock, best, found, consistent, viewed] using returned
        exact ⟨rfl, agrees, unlocked⟩
      | none =>
        have written := allowed child parentBlock parentNode best found consistent viewed disconnected
        rcases ended with ⟨failed, -⟩ | ⟨-, impossible, -⟩
        · exact absurd written failed
        · cases impossible

/-- Completed rounds of `DisconnectBlocks` and a failing one. The loop that fails
after some rounds is the loop of just these rounds, followed by the failure. -/
theorem disconnectLoop_failed {envs : Nat → Environment} {remaining start done : Nat}
    {db after : StakeDatabase api} {err : StakeError}
    (returned : disconnectLoop hcd envs remaining start db = .returned (after, some err, done)) :
    ∃ before, start ≤ done ∧ done < start + remaining ∧
      disconnectLoop hcd envs (done - start) start db = .returned (before, none, done) ∧
      before.unexportedDisconnectBlock hcd (envs done) = .returned (after, some err) := by
  induction remaining generalizing start db with
  | zero => simp [disconnectLoop] at returned
  | succ remaining inductionHypothesis =>
    simp only [disconnectLoop] at returned
    split at returned
    · cases returned
    · cases returned
    · rename_i stopped failure ended
      obtain ⟨rfl, rfl, rfl⟩ : stopped = after ∧ failure = err ∧ start = done := by
        simpa using returned
      exact ⟨db, Nat.le_refl _, by omega, by simp [disconnectLoop], ended⟩
    · rename_i next ended
      obtain ⟨before, later, within, rounds, failed⟩ := inductionHypothesis returned
      refine ⟨before, by omega, by omega, ?_, failed⟩
      have oneMore : done - start = (done - (start + 1)) + 1 := by omega
      rw [oneMore, disconnectLoop, ended]
      exact rounds

/-- A longer loop whose round after some completed ones fails, fails there. -/
theorem disconnectLoop_concat {envs : Nat → Environment} {rounds remaining start done : Nat}
    {db before after : StakeDatabase api} {err : StakeError}
    (completed : disconnectLoop hcd envs rounds start db = .returned (before, none, done))
    (within : rounds < remaining)
    (failed : before.unexportedDisconnectBlock hcd (envs done) = .returned (after, some err)) :
    disconnectLoop hcd envs remaining start db = .returned (after, some err, done) := by
  obtain ⟨fewer, rfl⟩ : ∃ fewer, remaining = fewer + 1 := ⟨remaining - 1, by omega⟩
  induction rounds generalizing start db fewer with
  | zero =>
    obtain ⟨rfl, rfl⟩ : db = before ∧ start = done := by simpa [disconnectLoop] using completed
    simp only [disconnectLoop, failed]
  | succ rounds inductionHypothesis =>
    rw [disconnectLoop] at completed ⊢
    split at completed
    · cases completed
    · cases completed
    · cases (Prod.mk.inj (Prod.mk.inj (Outcome.returned.inj completed)).2).1
    · rename_i next ended
      obtain ⟨still, rfl⟩ : ∃ still, fewer = still + 1 := ⟨fewer - 1, by omega⟩
      exact inductionHypothesis completed still (by omega)

end StakeDatabase

namespace Session

variable {api : StakeApi} {hcd : Hcd} {params : ChainParams}

/-- The call restores if it fails. The failing round of `DisconnectBlocks` is the
one after the rounds it completed, which alone would have succeeded. -/
def RestoresOnError (hcd : Hcd) (params : ChainParams) (session : Session api) : Call → Prop
  | .connectBlock env block =>
    session.db.Restores (session.db.connectBlock hcd params env block)
  | .disconnectBlock env => session.db.Restores (session.db.disconnectBlock hcd env)
  | .disconnectBlocks envs count => ∀ after err (done : Nat),
    session.db.disconnectBlocks hcd envs count = .returned (after, some err, done) →
      ∃ before, session.db.disconnectBlocks hcd envs done = .returned (before, none, done) ∧
        after = before ∧ after.StoreAgrees ∧ after.nodeMtx = false

/-- The call, and every round of `DisconnectBlocks` in the state it starts from,
can fail before its first write only. -/
def FailsBeforeWrites (hcd : Hcd) (params : ChainParams) (session : Session api) : Call → Prop
  | .connectBlock env block => session.db.ConnectsOrRefuses hcd params env block
  | .disconnectBlock env => session.db.WritesParent env
  | .disconnectBlocks envs count => ∀ before (done : Nat), (done : Int) < count →
    session.db.disconnectBlocks hcd envs done = .returned (before, none, done) →
      before.WritesParent (envs done)

/-- The mutex is free and the persisted state agrees with the best node. -/
def Sound (db : StakeDatabase api) : Prop := db.nodeMtx = false ∧ db.StoreAgrees

/-- A connection that succeeded leaves a sound database, whatever it was before. -/
theorem Sound.connectBlock (persists : api.Persists) {env : Environment} {block : MsgBlock}
    {db after : StakeDatabase api}
    (returned : db.connectBlock hcd params env block = .returned (after, none)) : Sound after := by
  obtain ⟨maturing, forgotten, node, -, -, -, -, ended⟩ := StakeDatabase.connectBlock_cases returned
  rcases ended with ⟨-, impossible, -⟩ | ⟨-, ⟨_, impossible⟩, -⟩ |
    ⟨_, _, connected, -, -, -, -, -, free, best, written⟩
  · cases impossible
  · rcases impossible with impossible | impossible <;> cases impossible
  · refine ⟨free, connected, hcd.hashOf block, best, ?_⟩
    rw [written, persists.connected]

/-- A disconnection that succeeded leaves a sound database sound. -/
theorem Sound.disconnectBlock (persists : api.Persists) {env : Environment}
    {db after : StakeDatabase api} (sound : Sound db)
    (returned : db.unexportedDisconnectBlock hcd env = .returned (after, none)) : Sound after := by
  rcases StakeDatabase.unexportedDisconnectBlock_cases returned with ⟨impossible, -⟩ |
    ⟨child, parentBlock, parentNode, -, -, -, -, ⟨-, impossible, -⟩ | ⟨-, -, rfl⟩⟩
  · exact absurd rfl impossible
  · exact absurd rfl impossible
  · exact ⟨sound.1, parentNode, hcd.hashOf parentBlock, rfl, persists.disconnected _ _ _ _⟩

/-- Completed rounds of `DisconnectBlocks` leave a sound database sound. -/
theorem Sound.disconnectLoop (persists : api.Persists) {envs : Nat → Environment}
    {rounds start done : Nat} {db after : StakeDatabase api} (sound : Sound db)
    (returned : StakeDatabase.disconnectLoop hcd envs rounds start db = .returned (after, none, done)) :
    Sound after := by
  induction rounds generalizing start db with
  | zero =>
    obtain ⟨rfl, -⟩ : db = after ∧ start = done := by
      simpa [StakeDatabase.disconnectLoop] using returned
    exact sound
  | succ rounds inductionHypothesis =>
    rw [StakeDatabase.disconnectLoop] at returned
    split at returned
    · cases returned
    · cases returned
    · cases (Prod.mk.inj (Prod.mk.inj (Outcome.returned.inj returned)).2).1
    · rename_i next ended
      exact inductionHypothesis (sound.disconnectBlock persists ended) returned

/-- A call that restores if it fails leaves a sound database sound. -/
theorem sound_perform (persists : api.Persists) {session next : Session api} {call : Call}
    (sound : Sound session.db) (restores : session.RestoresOnError hcd params call)
    (performed : session.perform hcd params call = some next) : Sound next.db := by
  cases call with
  | connectBlock env block =>
    obtain ⟨⟨after, err⟩, ended, rfl⟩ := Option.map_eq_some_iff.mp performed
    have returned := Outcome.result?_eq_some.mp ended
    cases err with
    | none => exact Sound.connectBlock persists returned
    | some failure => exact (restores after failure returned).2.symm
  | disconnectBlock env =>
    obtain ⟨⟨after, err⟩, ended, rfl⟩ := Option.map_eq_some_iff.mp performed
    have returned := Outcome.result?_eq_some.mp ended
    cases err with
    | none =>
      rw [StakeDatabase.disconnectBlock, sound.1] at returned
      exact sound.disconnectBlock persists returned
    | some failure => exact (restores after failure returned).2.symm
  | disconnectBlocks envs count =>
    obtain ⟨⟨after, err, done⟩, ended, rfl⟩ := Option.map_eq_some_iff.mp performed
    have returned := Outcome.result?_eq_some.mp ended
    cases err with
    | none =>
      rw [StakeDatabase.disconnectBlocks, sound.1] at returned
      exact sound.disconnectLoop persists returned
    | some failure =>
      obtain ⟨before, -, -, agrees, free⟩ := restores after failure done returned
      exact ⟨free, agrees⟩

/-- From a sound database, one call restores if it fails exactly when it can fail
before its first write only. -/
theorem restoresOnError_iff (documented : api.Documented) (persists : api.Persists)
    {session : Session api} (sound : Sound session.db) (call : Call) :
    session.RestoresOnError hcd params call ↔ session.FailsBeforeWrites hcd params call := by
  cases call with
  | connectBlock env block => exact StakeDatabase.connectBlock_restores_iff sound.2
  | disconnectBlock env =>
    have unlocked : session.db.disconnectBlock hcd env =
        session.db.unexportedDisconnectBlock hcd env := by
      simp [StakeDatabase.disconnectBlock, sound.1]
    simp only [RestoresOnError, FailsBeforeWrites, unlocked]
    exact StakeDatabase.unexportedDisconnectBlock_restores_iff documented sound.1 sound.2
  | disconnectBlocks envs count =>
    have unlocked (number : Int) : session.db.disconnectBlocks hcd envs number =
        StakeDatabase.disconnectLoop hcd envs number.toNat 0 session.db := by
      simp [StakeDatabase.disconnectBlocks, sound.1]
    simp only [RestoresOnError, FailsBeforeWrites, unlocked, Int.toNat_natCast]
    constructor
    · intro restores before done within rounds
      have soundBefore := sound.disconnectLoop persists rounds
      have roundRestores : before.Restores (before.unexportedDisconnectBlock hcd (envs done)) := by
        intro after err failed
        have ended := StakeDatabase.disconnectLoop_concat rounds
          (show done < count.toNat by omega) failed
        obtain ⟨same, again, rfl, agrees, free⟩ := restores after err done ended
        rw [rounds] at again
        exact ⟨((Prod.mk.inj (Outcome.returned.inj again)).1).symm, agrees, free⟩
      exact (StakeDatabase.unexportedDisconnectBlock_restores_iff documented soundBefore.1
        soundBefore.2).mp roundRestores
    · intro allowed after err done returned
      obtain ⟨before, -, within, rounds, failed⟩ := StakeDatabase.disconnectLoop_failed returned
      have soundBefore := sound.disconnectLoop persists rounds
      have writes : before.WritesParent (envs done) := allowed before done (by omega) rounds
      exact ⟨before, rounds, (StakeDatabase.unexportedDisconnectBlock_restores_iff documented
        soundBefore.1 soundBefore.2).mpr writes after err failed⟩

/-- In every run from a database whose mutex is free and whose persisted state
agrees with the best node, every failing call restores exactly when every call can
fail before its first write only.

Both conditions keep the database sound, so each is compared with the other in a
sound state. -/
theorem failures_restore_iff (documented : api.Documented) (persists : api.Persists)
    {start : Session api} (unlocked : start.db.nodeMtx = false) (agrees : start.db.StoreAgrees)
    (calls : List Call) :
    Admitted (perform hcd params) (RestoresOnError hcd params) start calls ↔
      Admitted (perform hcd params) (FailsBeforeWrites hcd params) start calls := by
  have step (session : Session api) (call : Call) (sound : Sound session.db) :
      session.RestoresOnError hcd params call ↔ session.FailsBeforeWrites hcd params call :=
    restoresOnError_iff documented persists sound call
  have sound : Sound start.db := ⟨unlocked, agrees⟩
  exact admitted_iff (fun session => Sound session.db)
    (fun session call next sound restores performed => sound_perform persists sound restores performed)
    step sound

/-- The small stake node persists what hcd documents, a state for each node that it connects or
disconnects to. -/
theorem stakeApi_persists : Sample.stakeApi.Persists where
  connected _ _ _ := rfl
  disconnected _ _ _ _ := rfl

/-- Two blocks are connected, and the second is offered again. -/
def refusedCalls : List Call :=
  let main := [Sample.genesis, Sample.firstBlock, Sample.secondBlock]
  let env := Sample.environment main main
  [.connectBlock env Sample.firstBlock, .connectBlock env Sample.secondBlock,
    .connectBlock env Sample.secondBlock]

/-- The law at that run: the refusal of a cached block changes nothing. -/
theorem failures_restore_iff_refused :
    Admitted (perform Sample.hcd ⟨1, 144⟩) (RestoresOnError Sample.hcd ⟨1, 144⟩) opened
      refusedCalls := by
  refine (failures_restore_iff Sample.stakeApi_documented stakeApi_persists rfl
    ⟨_, _, rfl, rfl⟩ refusedCalls).mpr (admitted_cons rfl ?_ (admitted_cons rfl ?_
      (admitted_cons rfl ?_ trivial)))
  · rintro _ _ _ _ _ ⟨-, ⟨⟩, ⟨⟩, ⟨⟩, ⟨⟩⟩
    exact ⟨rfl, _, rfl⟩
  · rintro _ _ _ _ _ ⟨-, ⟨⟩, ⟨⟩, ⟨⟩, ⟨⟩⟩
    exact ⟨rfl, _, rfl⟩
  · rintro _ _ _ _ _ ⟨-, ⟨⟩, ⟨⟩, ⟨⟩, ⟨⟩⟩
    exact ⟨rfl, fun _ _ => rfl⟩

/-- A block with a vote on a ticket that is not live. -/
def unknownVote : MsgBlock :=
  Sample.block 1 1 (Sample.hcd.hashOf Sample.genesis)
    [⟨3, [⟨⟨0, 0, 0⟩, 0, 0, 0, 0, []⟩, ⟨⟨77, 0, 1⟩, 0, 0, 0, 0, []⟩], [⟨0, 0, []⟩], 9, 0⟩]

/-- `ConnectNode` refuses that block: `ConnectBlock` returns the error with a nil
best node and the mutex kept, and the next call waits for ever. A second genesis
block is refused for its height and stays in the cache. A disconnection whose write
fails leaves the parent node above a state that is still the child's. -/
theorem failures_not_restored :
    let env := Sample.environment [Sample.genesis] [Sample.genesis, Sample.firstBlock]
    let failing : Environment := { env with updateErr := some "disk full" }
    (¬ Admitted (perform Sample.hcd ⟨1, 144⟩) (RestoresOnError Sample.hcd ⟨1, 144⟩) opened
        [.connectBlock env unknownVote]) ∧
      (∃ after, opened.db.connectBlock Sample.hcd ⟨1, 144⟩ env unknownVote =
          .returned (after, some (.stakeNode "missing ticket")) ∧
        after.bestNode = none ∧ after.disconnectBlock Sample.hcd env = .blocked) ∧
      (∃ after, opened.db.connectBlock Sample.hcd ⟨1, 144⟩ env Sample.genesis =
          .returned (after, some (.cannotConnect 0 0)) ∧
        opened.db.blockCache 0 = none ∧ after.blockCache 0 = some Sample.genesis) ∧
      ∃ child after, exec (perform Sample.hcd ⟨1, 144⟩) opened
          [.connectBlock env Sample.firstBlock] = some child ∧
        child.db.disconnectBlock Sample.hcd failing =
          .returned (after, some (.database "disk full")) ∧
        after.height = .returned 0 ∧
        Sample.stakeApi.chainState after.stakeDB = some (Sample.hcd.hashOf Sample.firstBlock, 1) := by
  intro env failing
  refine ⟨?_, ⟨_, rfl, rfl, rfl⟩, ⟨_, rfl, rfl, rfl⟩, ⟨_, _, rfl, rfl, rfl, rfl⟩⟩
  rintro ⟨restores, -⟩
  have kept : true = false := (restores _ _ rfl).2.2
  cases kept

end Session

end Hcexplorer

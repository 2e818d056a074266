import Mathlib.Algebra.BigOperators.Group.List.Basic
import Hcexplorer.StakeChain

/-!
# The value of the ticket pool

`PoolInfoBest` adds the values of the live tickets of the best node. A value comes
from the live-ticket cache or from the node's transaction, and a ticket whose
look-up fails is left out. The sum is therefore that of the tickets that were
cached or found, whatever the cache held before, as long as it held values of
tickets only; and it stays so, for every value written to it is one.

`connectBlock` records the sum under the hash of its block. In every run in which
each live ticket of a connected block is cached or found, what is recorded for a
hash is the number and the exact value of the live tickets after the last
connection of a block with that hash, if that value is an `int64`. A look-up that
fails leaves a smaller sum beside the full number.
-/

namespace Hcexplorer

open Runs

/-- A server that returns transactions by their hash: a ticket is worth the first
output of the transaction with its hash. -/
def NodeClient.Prices (client : NodeClient) (worth : Hash → Int) : Prop :=
  ∀ hash tx out rest, client.getRawTransaction hash = .ok tx → tx.txOut = out :: rest →
    out.value.toInt = worth hash

namespace StakeDatabase

variable {api : StakeApi} {hcd : Hcd} {params : ChainParams} {worth : Hash → Int}

/-- A ticket is cached or the server finds it. -/
def found (client : NodeClient) (cache : Hash → Option Int64) (hash : Hash) : Bool :=
  (cache hash).isSome || (client.getRawTransaction hash).isOk

/-- A cache holds values of tickets only, so that it may stand for the server. -/
def Values (worth : Hash → Int) (cache : Hash → Option Int64) : Prop :=
  ∀ hash val, cache hash = some val → val.toInt = worth hash

/-- The sum of the values of some tickets, as an integer without bounds. -/
def totalWorth (worth : Hash → Int) (tickets : List Hash) : Int := (tickets.map worth).sum

/-- Caching a ticket that the server finds changes no more than where its value comes
from. -/
theorem found_update {client : NodeClient} {cache : Hash → Option Int64} {hash : Hash} {tx : MsgTx}
    (answered : client.getRawTransaction hash = .ok tx) (val : Int64) :
    found client (Function.update cache hash (some val)) = found client cache := by
  funext other
  by_cases same : other = hash
  · subst same
    simp [found, answered, Except.isOk, Except.toBool]
  · simp [found, same]

/-- A value written to the cache is that of its ticket. -/
theorem Values.update {cache : Hash → Option Int64} (values : Values worth cache) {hash : Hash}
    {val : Int64} (isWorth : val.toInt = worth hash) :
    Values worth (Function.update cache hash (some val)) := by
  intro other cached holds
  by_cases same : other = hash
  · subst same
    rw [Function.update_self] at holds
    rw [← Option.some.inj holds]
    exact isWorth
  · rw [Function.update_of_ne same] at holds
    exact values other cached holds

/-- Adding the value of one more ticket to a sum that wraps around is adding it to the exact
sum. -/
theorem ofInt_totalWorth {val : Int64} {hash : Hash} {rest : List Hash}
    (isWorth : val.toInt = worth hash) :
    Int64.ofInt (totalWorth worth (hash :: rest)) = val + Int64.ofInt (totalWorth worth rest) := by
  rw [totalWorth, List.map_cons, List.sum_cons, ← isWorth, Int64.ofInt_add, Int64.ofInt_toInt]
  rfl

/-- The loop of `PoolInfoBest` adds the values of the tickets that are cached or found, up to
the wrap around of its sum.

Proof: by induction on the tickets. A cached one adds the value the cache holds, one
that is found adds that of its first output and is then cached, the others are left
out. -/
theorem poolValue_eq {client : NodeClient} (prices : client.Prices worth) {tickets : List Hash}
    {value total : Int64} {cache after : Hash → Option Int64} (values : Values worth cache)
    (counted : poolValue client tickets value cache = some (total, after)) :
    Values worth after ∧
      total = value + Int64.ofInt (totalWorth worth (tickets.filter (found client cache))) := by
  induction tickets generalizing value cache with
  | nil =>
    simp only [poolValue, Option.some.injEq, Prod.mk.injEq] at counted
    obtain ⟨rfl, rfl⟩ := counted
    exact ⟨values, by simp [totalWorth]⟩
  | cons hash rest inductionHypothesis =>
    rw [poolValue] at counted
    cases cached : cache hash with
    | some val =>
      simp only [cached] at counted
      obtain ⟨kept, isTotal⟩ := inductionHypothesis values counted
      have isFound : found client cache hash = true := by simp [found, cached]
      refine ⟨kept, ?_⟩
      rw [isTotal, List.filter_cons_of_pos isFound, ofInt_totalWorth (values hash val cached),
        Int64.add_assoc]
    | none =>
      cases answered : client.getRawTransaction hash with
      | error err =>
        simp only [cached, answered] at counted
        obtain ⟨kept, isTotal⟩ := inductionHypothesis values counted
        have notFound : ¬ found client cache hash = true := by
          simp [found, cached, answered, Except.isOk, Except.toBool]
        refine ⟨kept, ?_⟩
        rw [isTotal, List.filter_cons_of_neg notFound]
      | ok tx =>
        cases outputs : tx.txOut with
        | nil =>
          simp only [cached, answered, outputs] at counted
          cases counted
        | cons out others =>
          simp only [cached, answered, outputs] at counted
          have isWorth := prices hash tx out others answered outputs
          obtain ⟨kept, isTotal⟩ := inductionHypothesis (values.update isWorth) counted
          have isFound : found client cache hash = true := by
            simp [found, answered, Except.isOk, Except.toBool]
          refine ⟨kept, ?_⟩
          rw [isTotal, List.filter_cons_of_pos isFound, found_update answered,
            ofInt_totalWorth isWorth, Int64.add_assoc]

/-- With every ticket cached or found, the sum is that of all. -/
theorem poolValue_complete {client : NodeClient} (prices : client.Prices worth)
    {tickets : List Hash} {value total : Int64} {cache after : Hash → Option Int64}
    (values : Values worth cache) (all : ∀ hash ∈ tickets, found client cache hash = true)
    (counted : poolValue client tickets value cache = some (total, after)) :
    Values worth after ∧ total = value + Int64.ofInt (totalWorth worth tickets) := by
  have partly := poolValue_eq prices values counted
  rwa [List.filter_eq_self.mpr all] at partly

/-- The node that hcd makes of the best node and a block, if it makes one. -/
def nodeAfter (hcd : Hcd) (params : ChainParams) (env : Environment) (block : MsgBlock)
    (db : StakeDatabase api) : Option api.Node :=
  match db.maturingTickets hcd params env.client block.height, revokedTicketsInBlock hcd block,
    ticketsSpentInBlock hcd block, db.bestNode with
  | some (maturing, _), some revoked, some spent, some node =>
    (api.connectNode node block.header spent revoked maturing).toOption
  | _, _, _, _ => none

/-- Taking the maturing tickets leaves the pool information and the values alone. -/
theorem maturingTickets_pool {client : NodeClient} {height : Int} {db after : StakeDatabase api}
    {maturing : List Hash}
    (taken : db.maturingTickets hcd params client height = some (maturing, after)) :
    after.bestNode = db.bestNode ∧ after.poolInfo = db.poolInfo ∧
      after.liveTicketCache = db.liveTicketCache := by
  simp only [maturingTickets] at taken
  split at taken
  · split at taken
    · cases taken
    all_goals
      obtain ⟨-, rfl⟩ := Prod.mk.inj (Option.some.inj taken)
      exact ⟨rfl, rfl, rfl⟩
  · obtain ⟨-, rfl⟩ := Prod.mk.inj (Option.some.inj taken)
    exact ⟨rfl, rfl, rfl⟩

/-- Cleaning the cache adds nothing to it: what it holds afterwards it held before. -/
theorem of_cleanLiveTicketCache {spent revoked : List Hash} {db : StakeDatabase api} {hash : Hash}
    {val : Int64} (holds : (db.cleanLiveTicketCache spent revoked).liveTicketCache hash = some val) :
    db.liveTicketCache hash = some val := by
  simp only [cleanLiveTicketCache] at holds
  split at holds
  · cases holds
  · exact holds

/-- What a `connectBlock` that returned did to the pool information and to the values of
live tickets. -/
theorem unexportedConnectBlock_pool {env : Environment} {block : MsgBlock}
    {spent revoked maturing : List Hash} {node : api.Node} {db after : StakeDatabase api}
    {err : Option StakeError}
    (returned : db.unexportedConnectBlock hcd env block spent revoked maturing node =
      .returned (after, err)) :
    (err ≠ none ∧ after.poolInfo = db.poolInfo ∧
      ∀ hash val, after.liveTicketCache hash = some val → db.liveTicketCache hash = some val) ∨
    (err = none ∧ ∃ connected value cache tpi,
      api.connectNode node block.header spent revoked maturing = .ok connected ∧
      after.bestNode = some connected ∧
      poolValue env.client (api.liveTickets connected) 0 db.liveTicketCache = some (value, cache) ∧
      tpi.size = UInt32.ofNat (api.poolSize connected) ∧ tpi.value = value ∧
      after.poolInfo = Function.update db.poolInfo (hcd.hashOf block) (some tpi) ∧
      ∀ hash val, after.liveTicketCache hash = some val → cache hash = some val) := by
  unfold unexportedConnectBlock at returned
  cases isConnected : api.connectNode node block.header spent revoked maturing with
  | error reason =>
    simp only [isConnected, Outcome.returned.injEq, Prod.mk.injEq] at returned
    obtain ⟨rfl, rfl⟩ := returned
    exact Or.inl ⟨by simp, rfl, fun hash val => of_cleanLiveTicketCache⟩
  | ok connected =>
    cases failed : env.updateErr with
    | some reason =>
      simp only [isConnected, failed, Outcome.returned.injEq, Prod.mk.injEq] at returned
      obtain ⟨rfl, rfl⟩ := returned
      exact Or.inl ⟨by simp, rfl, fun hash val => of_cleanLiveTicketCache⟩
    | none =>
      simp only [isConnected, failed, poolInfoBest] at returned
      cases counted : poolValue env.client (api.liveTickets connected) 0 db.liveTicketCache with
      | none =>
        simp only [counted] at returned
        cases returned
      | some sum =>
        obtain ⟨value, cache⟩ := sum
        simp only [counted, Outcome.returned.injEq, Prod.mk.injEq] at returned
        obtain ⟨rfl, rfl⟩ := returned
        exact Or.inr ⟨rfl, connected, value, cache, _, rfl, rfl, counted, rfl, rfl, rfl,
          fun hash val => of_cleanLiveTicketCache⟩

/-- `ConnectBlock` either fails and records nothing, or records the pool at the block's height. -/
theorem connectBlock_pool {env : Environment} {block : MsgBlock} {db after : StakeDatabase api}
    {err : Option StakeError} (returned : db.connectBlock hcd params env block = .returned (after, err)) :
    (err ≠ none ∧ after.poolInfo = db.poolInfo ∧
      ∀ hash val, after.liveTicketCache hash = some val → db.liveTicketCache hash = some val) ∨
    (err = none ∧ ∃ connected value cache tpi, db.nodeAfter hcd params env block = some connected ∧
      after.bestNode = some connected ∧
      poolValue env.client (api.liveTickets connected) 0 db.liveTicketCache = some (value, cache) ∧
      tpi.size = UInt32.ofNat (api.poolSize connected) ∧ tpi.value = value ∧
      after.poolInfo = Function.update db.poolInfo (hcd.hashOf block) (some tpi) ∧
      ∀ hash val, after.liveTicketCache hash = some val → cache hash = some val) := by
  unfold connectBlock at returned
  cases taken : db.maturingTickets hcd params env.client block.height with
  | none =>
    simp only [taken] at returned
    cases returned
  | some pair =>
    obtain ⟨maturing, forgotten⟩ := pair
    obtain ⟨sameNode, samePool, sameCache⟩ := maturingTickets_pool taken
    cases isRevoked : revokedTicketsInBlock hcd block with
    | none =>
      simp only [taken, isRevoked] at returned
      cases returned
    | some revoked =>
      cases isSpent : ticketsSpentInBlock hcd block with
      | none =>
        simp only [taken, isRevoked, isSpent] at returned
        cases returned
      | some spent =>
        simp only [taken, isRevoked, isSpent, cacheBlock, sameNode] at returned
        split at returned
        · cases returned
        · cases best : db.bestNode with
          | none =>
            simp only [best] at returned
            cases returned
          | some node =>
            simp only [best] at returned
            split at returned
            · obtain ⟨rfl, rfl⟩ := Prod.mk.inj (Outcome.returned.inj returned)
              refine Or.inl ⟨by simp, samePool, ?_⟩
              intro hash val holds
              rwa [← sameCache]
            · rw [← samePool, ← sameCache]
              refine (unexportedConnectBlock_pool returned).imp_right ?_
              rintro ⟨succeeded, connected, value, cache, tpi, isConnected, rest⟩
              refine ⟨succeeded, connected, value, cache, tpi, ?_, rest⟩
              simp only [nodeAfter, taken, isRevoked, isSpent, best, isConnected, Except.toOption]

end StakeDatabase

/-- A session, and for each hash the node after the last connection of a block with
that hash. -/
structure Followed (api : StakeApi) where
  session : Session api
  nodeAfter : Hash → Option api.Node

namespace Followed

variable {api : StakeApi} {hcd : Hcd} {params : ChainParams} {worth : Hash → Int}

/-- Perform a call, and note the node that a connected block leads to. -/
def perform (hcd : Hcd) (params : ChainParams) (followed : Followed api) (call : Call) :
    Option (Followed api) :=
  (followed.session.perform hcd params call).map fun next =>
    ⟨next, match call with
      | .connectBlock _ block =>
        if followed.session.connected.length < next.connected.length then
          Function.update followed.nodeAfter (hcd.hashOf block) next.db.bestNode
        else followed.nodeAfter
      | _ => followed.nodeAfter⟩

/-- The servers of a call value tickets by the same transactions. -/
def Prices (worth : Hash → Int) : Call → Prop
  | .connectBlock env _ => env.client.Prices worth
  | _ => True

/-- Every ticket that is live after the block of the call is cached, or the look-up
finds it. -/
def LooksUp (hcd : Hcd) (params : ChainParams) (followed : Followed api) : Call → Prop
  | .connectBlock env block =>
    ∀ node ∈ followed.session.db.nodeAfter hcd params env block, ∀ hash ∈ api.liveTickets node,
      StakeDatabase.found env.client followed.session.db.liveTicketCache hash = true
  | _ => True

/-- The values of the tickets that are live after the block of the call add up to an `int64`. -/
def SumFits (hcd : Hcd) (params : ChainParams) (worth : Hash → Int) (followed : Followed api) :
    Call → Prop
  | .connectBlock env block =>
    ∀ node ∈ followed.session.db.nodeAfter hcd params env block,
      -2 ^ 63 ≤ StakeDatabase.totalWorth worth (api.liveTickets node) ∧
        StakeDatabase.totalWorth worth (api.liveTickets node) < 2 ^ 63
  | _ => True

/-- Nothing keeps a connected block's entry from the exact sum: no look-up fails, and the sum
does not overflow. -/
structure Sums (hcd : Hcd) (params : ChainParams) (worth : Hash → Int) (followed : Followed api)
    (call : Call) : Prop where
  looksUp : LooksUp hcd params followed call
  sumFits : SumFits hcd params worth followed call

/-- The cache holds values of tickets, and what is recorded for a hash is the number
and the value of the live tickets after its block. -/
structure Exact (worth : Hash → Int) (followed : Followed api) : Prop where
  values : StakeDatabase.Values worth followed.session.db.liveTicketCache
  recorded : ∀ hash entry, followed.session.db.poolInfo hash = some entry →
    ∃ node, followed.nodeAfter hash = some node ∧
      entry.size = UInt32.ofNat (api.liveTickets node).length ∧
      entry.value.toInt = StakeDatabase.totalWorth worth (api.liveTickets node)

/-- Disconnections record nothing and cache nothing, whatever becomes of them. -/
theorem disconnection_frame {session next : Session api} {call : Call}
    (disconnects : ∀ env block, call ≠ .connectBlock env block)
    (performed : session.perform hcd params call = some next) :
    next.db.poolInfo = session.db.poolInfo ∧
      next.db.liveTicketCache = session.db.liveTicketCache := by
  refine Session.perform_invariant
    (fun db _ => db.poolInfo = session.db.poolInfo ∧
      db.liveTicketCache = session.db.liveTicketCache) ?_ ?_ ⟨rfl, rfl⟩ performed
  · intro env block after err isCall
    exact absurd isCall (disconnects env block)
  · intro env db after chain err _ unlocked same returned
    rcases StakeDatabase.unexportedDisconnectBlock_cases returned with ⟨-, rfl⟩ |
      ⟨_, _, _, -, -, -, -, ⟨-, -, rfl⟩ | ⟨-, -, rfl⟩⟩
    all_goals exact ⟨unlocked, same⟩

/-- One call keeps the records exact, where its sums fit and the server has the prices. -/
theorem perform_exact (counted : ∀ node, api.poolSize node = (api.liveTickets node).length)
    {followed next : Followed api} {call : Call} (isExact : followed.Exact worth)
    (allowed : Sums hcd params worth followed call ∧ Prices worth call)
    (performed : followed.perform hcd params call = some next) : next.Exact worth := by
  obtain ⟨session, reached, rfl⟩ := Option.map_eq_some_iff.mp performed
  cases call with
  | connectBlock env block =>
    obtain ⟨⟨after, err⟩, ended, rfl⟩ := Option.map_eq_some_iff.mp reached
    obtain ⟨⟨looksUp, sumFits⟩, prices⟩ := allowed
    rcases StakeDatabase.connectBlock_pool (Outcome.result?_eq_some.mp ended) with
      ⟨failed, samePool, noneAdded⟩ |
      ⟨rfl, node, value, cache, tpi, isAfter, best, summed, isSize, isValue, recorded, noneAdded⟩
    · have kept : err.isNone = false := by
        simpa [Option.isNone_eq_false_iff, Option.isSome_iff_ne_none] using failed
      constructor
      · intro hash val holds
        exact isExact.values hash val (noneAdded hash val holds)
      · intro hash entry holds
        simp only [kept, Bool.false_eq_true, if_false, lt_irrefl]
        exact isExact.recorded hash entry (samePool ▸ holds)
    · obtain ⟨values, isSum⟩ := StakeDatabase.poolValue_complete prices isExact.values
        (looksUp node isAfter) summed
      constructor
      · intro hash val holds
        exact values hash val (noneAdded hash val holds)
      · intro hash entry holds
        have grown : followed.session.connected.length <
            (followed.session.connected ++ [block]).length := by simp
        simp only [Option.isNone_none, if_true, if_pos grown]
        rw [recorded] at holds
        by_cases same : hash = hcd.hashOf block
        · subst same
          rw [Function.update_self] at holds
          obtain rfl := Option.some.inj holds
          refine ⟨node, by rw [Function.update_self, best], ?_, ?_⟩
          · rw [isSize, counted]
          · obtain ⟨low, high⟩ := sumFits node isAfter
            rw [isValue, isSum, Int64.zero_add, Int64.toInt_ofInt_of_le low high]
        · rw [Function.update_of_ne same] at holds
          rw [Function.update_of_ne same]
          exact isExact.recorded hash entry holds
  | disconnectBlock env =>
    obtain ⟨samePool, sameCache⟩ := disconnection_frame (by simp) reached
    exact ⟨sameCache ▸ isExact.values, samePool ▸ isExact.recorded⟩
  | disconnectBlocks envs count =>
    obtain ⟨samePool, sameCache⟩ := disconnection_frame (by simp) reached
    exact ⟨sameCache ▸ isExact.values, samePool ▸ isExact.recorded⟩

/-- In every run in which each live ticket of a connected block is cached or found, and the
values of the live tickets add up to an `int64`, the entry that `PoolInfo` finds for a hash
has the number of the live tickets after the last connection of a block with that hash, and
the exact sum of their values, whatever the run connected, disconnected or refused before. -/
theorem poolInfo_exact (counted : ∀ node, api.poolSize node = (api.liveTickets node).length)
    {start final : Followed api} {calls : List Call}
    (noEntries : ∀ hash, start.session.db.poolInfo hash = none)
    (values : StakeDatabase.Values worth start.session.db.liveTicketCache)
    (prices : ∀ call ∈ calls, Prices worth call)
    (admitted : Admitted (perform hcd params) (Sums hcd params worth) start calls)
    (ran : exec (perform hcd params) start calls = some final) (hash : Hash)
    (entry : TicketPoolInfo) (isEntry : final.session.db.poolInfo hash = some entry) :
    ∃ node, final.nodeAfter hash = some node ∧
      entry.size = UInt32.ofNat (api.liveTickets node).length ∧
      entry.value.toInt = StakeDatabase.totalWorth worth (api.liveTickets node) := by
  have opened : start.Exact worth := by
    refine ⟨values, fun hash entry holds => ?_⟩
    rw [noEntries] at holds
    cases holds
  have holds : final.Exact worth :=
    exec_invariant (Exact worth) (fun _ _ _ isExact allowed performed =>
      perform_exact counted isExact allowed performed) opened (admitted.and_mem prices) ran
  exact holds.recorded hash entry isEntry

/-- A stake database at the genesis block, with nothing recorded. -/
def opened : Followed Sample.stakeApi := ⟨Session.opened, fun _ => none⟩

/-- The sample tickets are worth a hundred atoms, and no other transaction is asked
for. -/
def sampleWorth : Hash → Int := fun _ => 100

/-- A server that knows the sample blocks and their tickets. -/
def knowing : Environment :=
  let main := [Sample.genesis, Sample.firstBlock, Sample.secondBlock]
  Sample.environment main main

/-- The first sample block, whose ticket the second matures. -/
def twoConnections (second : Environment) : List Call :=
  [.connectBlock knowing Sample.firstBlock, .connectBlock second Sample.secondBlock]

/-- A sample server values tickets so when its transactions pay a hundred atoms first. -/
theorem client_prices {main known : List MsgBlock}
    (pays : ∀ tx ∈ known.flatMap MsgBlock.sTransactions, ∀ out ∈ tx.txOut.head?,
      out.value.toInt = 100) : (Sample.client main known).Prices sampleWorth := by
  intro hash tx out rest answered outputs
  simp only [Sample.client] at answered
  split at answered
  · rename_i found isFound
    obtain rfl := Except.ok.inj answered
    have member := List.mem_of_find?_eq_some isFound
    exact pays found member out (by rw [outputs]; rfl)
  · cases answered

/-- The server that knows the sample blocks answers with the prices of their tickets. -/
theorem knowing_prices : knowing.client.Prices sampleWorth := by
  apply client_prices
  intro tx member out isFirst
  obtain rfl : tx = Sample.ticket 7 := List.mem_singleton.mp member
  cases isFirst
  rfl

/-- The law at the run that connects two blocks: the ticket of the first is found. -/
theorem poolInfo_exact_found : ∃ final node entry,
    exec (perform Sample.hcd ⟨1, 144⟩) opened (twoConnections knowing) = some final ∧
      final.session.db.poolInfo (Sample.hcd.hashOf Sample.secondBlock) = some entry ∧
      final.nodeAfter (Sample.hcd.hashOf Sample.secondBlock) = some node ∧
      entry.size = 1 ∧ entry.value = 100 ∧
      entry.size = UInt32.ofNat (Sample.stakeApi.liveTickets node).length ∧
      entry.value.toInt =
        StakeDatabase.totalWorth sampleWorth (Sample.stakeApi.liveTickets node) := by
  have prices : ∀ call ∈ twoConnections knowing, Prices sampleWorth call := by
    intro call member
    rcases List.mem_cons.mp member with rfl | later
    · exact knowing_prices
    · obtain rfl := List.mem_singleton.mp later
      exact knowing_prices
  have admitted : Admitted (perform Sample.hcd ⟨1, 144⟩) (Sums Sample.hcd ⟨1, 144⟩ sampleWorth)
      opened (twoConnections knowing) := by
    apply admitted_cons rfl
    · constructor
      · rintro _ ⟨⟩ hash member
        cases member
      · rintro _ ⟨⟩
        decide
    · apply admitted_cons rfl
      · constructor
        · rintro _ ⟨⟩ hash member
          obtain rfl := List.mem_singleton.mp member
          rfl
        · rintro _ ⟨⟩
          decide
      · trivial
  obtain ⟨node, isNode, isSize, isValue⟩ := poolInfo_exact (fun _ => rfl) (fun _ => rfl)
    (fun _ _ holds => by cases holds) prices admitted rfl
    (Sample.hcd.hashOf Sample.secondBlock) _ rfl
  exact ⟨_, node, _, rfl, rfl, isNode, rfl, rfl, isSize, isValue⟩

/-- A server without answers: the ticket's look-up fails, and a sum without it is
recorded beside the full number. -/
theorem poolInfo_partial : ∃ final node entry,
    exec (perform Sample.hcd ⟨1, 144⟩) opened (twoConnections (Sample.environment [] [])) =
        some final ∧
      knowing.client.getRawTransaction (Sample.hcd.txHash (Sample.ticket 7)) =
        .ok (Sample.ticket 7) ∧
      final.nodeAfter (Sample.hcd.hashOf Sample.secondBlock) = some node ∧
      Sample.stakeApi.liveTickets node = [Sample.hcd.txHash (Sample.ticket 7)] ∧
      final.session.db.poolInfo (Sample.hcd.hashOf Sample.secondBlock) = some entry ∧
      entry.size = 1 ∧ entry.value = 0 ∧
      StakeDatabase.totalWorth sampleWorth (Sample.stakeApi.liveTickets node) = 100 := by
  refine ⟨_, _, _, rfl, rfl, rfl, rfl, rfl, rfl, rfl, rfl⟩

end Followed

end Hcexplorer

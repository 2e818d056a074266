import Hcexplorer.StakeMonitor

/-!
# Switching to a side chain

What the database operations of the chain monitor do to the connected chain when
they return without an error, from a database that is free and stands at the tip:
`ConnectBlockHash` appends a child of the tip, `DisconnectBlocks` cuts as many
blocks as it was asked to, and `switchToSideChain` replaces everything above the
parent of the side chain by the side chain.
-/

namespace Hcexplorer

open LinkedChain

variable {api : StakeApi} {hcd : Hcd} {params : ChainParams}

namespace Session

/-- The database is free, its blocks form a chain and its best node is at the end. -/
structure AtTip (hcd : Hcd) (session : Session api) : Prop where
  unlocked : session.db.nodeMtx = false
  best : BestIsTip hcd session.db session.connected

/-- At the tip, `Height` is one below the length of the chain. -/
theorem AtTip.height_eq {session : Session api} (atTip : AtTip hcd session) {height : Nat}
    (returned : session.db.height = .returned height) :
    (height : Int) = session.connected.length - 1 := by
  obtain ⟨node, best, tip⟩ := atTip.best.2 atTip.unlocked
  have exactHeight : api.height node = height := by
    simpa [StakeDatabase.height, best, atTip.unlocked] using returned
  exact exactHeight ▸ tip

/-- `ConnectBlockHash` returns a block exactly when the node has it and
`ConnectBlock` returns nil. -/
theorem connectBlockHash_ok {env : Environment} {hash : Hash} {session after : Session api}
    {block : MsgBlock}
    (returned : session.connectBlockHash hcd params env hash = .returned (after, .ok block)) :
    env.client.getBlock hash = .ok block ∧ after.connected = session.connected ++ [block] ∧
      session.db.connectBlock hcd params env block = .returned (after.db, none) := by
  obtain ⟨⟨db, result⟩, called, same⟩ := Outcome.bind_eq_returned.mp returned
  obtain ⟨rfl, rfl⟩ := Prod.mk.inj (Outcome.returned.inj same)
  simp only [StakeDatabase.connectBlockHash] at called
  split at called
  · cases called
  · rename_i found answered
    obtain ⟨⟨db', err⟩, ended, same⟩ := Outcome.bind_eq_returned.mp called
    cases err with
    | some err => cases same
    | none =>
      cases same
      exact ⟨answered, rfl, ended⟩

/-- `ConnectBlockHash` of a block the node has returns what `ConnectBlock` does. -/
theorem connectBlockHash_answered {env : Environment} {session after : Session api}
    {block : MsgBlock} {result : Except StakeError MsgBlock}
    (answered : env.client.getBlock (hcd.hashOf block) = .ok block)
    (returned : session.connectBlockHash hcd params env (hcd.hashOf block) =
      .returned (after, result)) :
    ∃ err, session.db.connectBlock hcd params env block = .returned (after.db, err) ∧
      (err = none → result = .ok block) ∧ ∀ failure, err = some failure → result = .error failure := by
  obtain ⟨⟨db, inner⟩, called, same⟩ := Outcome.bind_eq_returned.mp returned
  obtain ⟨rfl, rfl⟩ := Prod.mk.inj (Outcome.returned.inj same)
  simp only [StakeDatabase.connectBlockHash, answered] at called
  obtain ⟨⟨db', err⟩, ended, same⟩ := Outcome.bind_eq_returned.mp called
  obtain ⟨rfl, rfl⟩ := Prod.mk.inj (Outcome.returned.inj same)
  refine ⟨err, ended, ?_, ?_⟩
  · rintro rfl
    rfl
  · rintro failure rfl
    rfl

/-- A connected child of the tip is the new tip. -/
theorem AtTip.connect (documented : api.Documented) {env : Environment} {block : MsgBlock}
    {session after : Session api} (atTip : AtTip hcd session)
    (child : ∀ tip ∈ session.connected.getLast?, (chainView hcd).Child tip block)
    (appended : after.connected = session.connected ++ [block])
    (returned : session.db.connectBlock hcd params env block = .returned (after.db, none)) :
    AtTip hcd after := by
  obtain ⟨_, _, _, -, -, -, -, ended⟩ := StakeDatabase.connectBlock_cases returned
  rcases ended with ⟨-, impossible, -⟩ | ⟨-, ⟨_, impossible⟩, -⟩ |
    ⟨_, _, _, -, -, -, -, -, unlocked, -⟩
  · cases impossible
  · simp at impossible
  · exact ⟨unlocked, appended ▸ atTip.best.connect documented child returned⟩

/-- A child of the tip is never refused for its height. -/
theorem AtTip.not_refused {env : Environment} {block : MsgBlock} {session : Session api}
    {db : StakeDatabase api} {height best : Int} (atTip : AtTip hcd session)
    (child : ∀ tip ∈ session.connected.getLast?, (chainView hcd).Child tip block) :
    session.db.connectBlock hcd params env block ≠
      .returned (db, some (.cannotConnect height best)) := by
  intro returned
  obtain ⟨_, _, node, -, isBest, -, -, ended⟩ := StakeDatabase.connectBlock_cases returned
  obtain ⟨found, same, tipped⟩ := atTip.best.2 atTip.unlocked
  obtain rfl : found = node := Option.some.inj (same.symm.trans isBest)
  obtain ⟨tip, last⟩ := atTip.best.1.exists_tip
  have tipHeight : tip.height = session.connected.length - 1 := atTip.best.1.tip_height last
  have oneHigher : block.height = tip.height + 1 := (child tip last).2
  rcases ended with ⟨low, -⟩ | ⟨-, ⟨_, impossible⟩, -⟩ | ⟨_, _, _, -, impossible, -⟩
  · omega
  · simp at impossible
  · cases impossible

/-- `DisconnectBlocks` without an error removed as many blocks as it was asked to. -/
theorem AtTip.disconnectBlocks (documented : api.Documented) {envs : Nat → Environment}
    {count : Int} {session after : Session api} (atTip : AtTip hcd session)
    (returned : session.disconnectBlocks hcd envs count = .returned (after, none)) :
    AtTip hcd after ∧
      after.connected = session.connected.take (session.connected.length - count.toNat) := by
  obtain ⟨⟨db, err, done⟩, called, same⟩ := Outcome.bind_eq_returned.mp returned
  obtain ⟨rfl, rfl⟩ := Prod.mk.inj (Outcome.returned.inj same)
  have loop : StakeDatabase.disconnectLoop hcd envs count.toNat 0 session.db =
      .returned (db, none, done) := by
    simpa [StakeDatabase.disconnectBlocks, atTip.unlocked] using called
  obtain ⟨middle, -, ⟨unlocked, kept⟩, how⟩ := StakeDatabase.disconnectLoop_cases
    (fun db chain => db.nodeMtx = false ∧ BestIsTip hcd db chain) envs
    (fun position db after chain both ended => both.2.disconnect documented both.1 ended)
    ⟨atTip.unlocked, atTip.best⟩ loop
  rcases how with ⟨-, rfl, all⟩ | ⟨failure, impossible, -⟩
  · rw [Nat.zero_add] at all
    rw [Nat.sub_zero] at kept
    exact ⟨⟨unlocked, kept⟩, by rw [all]⟩
  · cases impossible

end Session

namespace ChainMonitor

open Session

/-- The link test of the node is the link relation of chains. -/
theorem isLinked_iff {before : MsgBlock} {side : List MsgBlock} :
    Follower.isLinked hcd before side = true ↔ (chainView hcd).Linked (before :: side) := by
  induction side generalizing before with
  | nil => simp [Follower.isLinked, View.Linked]
  | cons block rest inductionHypothesis =>
    simp only [Follower.isLinked, Bool.and_eq_true, decide_eq_true_eq, inductionHypothesis,
      View.Linked, List.isChain_cons_cons, View.Child, chainView]

/-- The loop over the side chain connects every block of it, in order, when it
ends without an error. -/
theorem connectSideChain_ok (documented : api.Documented) {envs : Nat → Environment}
    {side : List MsgBlock} (answered : ∀ i, ∀ block ∈ side,
      (envs i).client.getBlock (hcd.hashOf block) = .ok block)
    {i : Nat} {tip last : MsgBlock} {session after : Session api} (atTip : AtTip hcd session)
    (atEnd : session.connected.getLast? = some tip)
    (linked : (chainView hcd).Linked (tip :: side)) {block : MsgBlock}
    (returned : connectSideChain hcd params envs i block (side.map hcd.hashOf) session =
      .returned (after, .ok last)) :
    AtTip hcd after ∧ after.connected = session.connected ++ side ∧
      last = (side.getLast?).getD block := by
  induction side generalizing i block tip session with
  | nil =>
    obtain ⟨rfl, ⟨⟩⟩ := Prod.mk.inj (Outcome.returned.inj returned)
    exact ⟨atTip, (List.append_nil _).symm, rfl⟩
  | cons first rest inductionHypothesis =>
    obtain ⟨⟨middle, result⟩, called, continued⟩ := Outcome.bind_eq_returned.mp returned
    cases result with
    | error err =>
      obtain ⟨-, -, later⟩ := Outcome.bind_eq_returned.mp continued
      obtain ⟨header, -, same⟩ := Outcome.bind_eq_returned.mp later
      cases header <;> simp at same
    | ok connectedBlock =>
      obtain ⟨found, appended, connected⟩ := connectBlockHash_ok called
      obtain rfl : first = connectedBlock :=
        Except.ok.inj ((answered i first List.mem_cons_self).symm.trans found)
      obtain ⟨child, laterLinked⟩ := List.isChain_cons_cons.mp linked
      have middleTip : AtTip hcd middle := by
        refine atTip.connect documented ?_ appended connected
        intro other isLast
        exact Option.some.inj (atEnd.symm.trans isLast) ▸ child
      obtain ⟨final, chained, lastIs⟩ := inductionHypothesis
        (fun i block member => answered i block (List.mem_cons_of_mem _ member)) middleTip
        (by rw [appended, List.getLast?_concat]) laterLinked continued
      refine ⟨final, by rw [chained, appended, List.append_assoc, List.singleton_append], ?_⟩
      cases rest with
      | nil => exact lastIs
      | cons second others =>
        rw [lastIs, List.getLast?_cons_cons]
        simp [List.getLast?_cons]

/-- `switchToSideChain` without an error replaced the blocks above the parent of
the side chain by the side chain, and returned its last block. -/
theorem switchToSideChain_ok (documented : api.Documented) {answers : SwitchAnswers}
    {session after : Session api} (atTip : AtTip hcd session) {fork : Nat}
    {ancestor newTip : MsgBlock} {side : List MsgBlock}
    (forks : session.connected[fork]? = some ancestor)
    (linked : (chainView hcd).Linked (ancestor :: side)) (lastIs : side.getLast? = some newTip)
    (root : ∀ block ∈ side, answers.root.getBlock (hcd.hashOf block) = .ok block)
    (parent : answers.ancestor.getBlock (hcd.hashOf ancestor) = .ok ancestor)
    (connects : ∀ i, ∀ block ∈ side,
      (answers.connects i).client.getBlock (hcd.hashOf block) = .ok block)
    {newHeight : Int32} {newHash : Hash}
    (returned : switchToSideChain hcd params answers (side.map hcd.hashOf) session =
      .returned (after, .ok (newHeight, newHash))) :
    AtTip hcd after ∧ after.connected = session.connected.take (fork + 1) ++ side ∧
      newHash = hcd.hashOf newTip := by
  cases side with
  | nil => cases lastIs
  | cons first rest =>
    obtain ⟨child, -⟩ := List.isChain_cons_cons.mp linked
    have oneHigher : first.height = ancestor.height + 1 := child.2
    have parentIs : first.header.prevBlock = hcd.hashOf ancestor := child.1
    have ancestorHeight : ancestor.height = fork := atTip.best.1.height_eq forks
    have inside : fork < session.connected.length := (List.getElem?_eq_some_iff.mp forks).1
    simp only [switchToSideChain, List.map_cons, root first List.mem_cons_self, parentIs, parent]
      at returned
    split at returned
    · cases returned
    · obtain ⟨mainTip, tipIs, returned⟩ := Outcome.bind_eq_returned.mp returned
      have tipHeight := atTip.height_eq tipIs
      obtain ⟨⟨middle, err⟩, disconnected, returned⟩ := Outcome.bind_eq_returned.mp returned
      cases err with
      | some err => cases returned
      | none =>
        obtain ⟨middleTip, cut⟩ := atTip.disconnectBlocks documented disconnected
        -- the count leaves the chain up to the parent
        have sameCut : session.connected.length - (mainTip - (first.height - 1)).toNat = fork + 1 := by
          omega
        rw [sameCut] at cut
        obtain ⟨cutTip, -, returned⟩ := Outcome.bind_eq_returned.mp returned
        split at returned
        · cases returned
        · obtain ⟨⟨final, result⟩, connected, returned⟩ := Outcome.bind_eq_returned.mp returned
          cases result with
          | error err => cases returned
          | ok lastBlock =>
            have atEnd : middle.connected.getLast? = some ancestor := by
              rw [cut, List.getLast?_eq_getElem?, List.length_take, Nat.min_eq_left inside,
                Nat.succ_sub_one, List.getElem?_take_of_lt (Nat.lt_succ_self fork), forks]
            rw [← List.map_cons] at connected
            obtain ⟨finalTip, chained, lastBlockIs⟩ :=
              connectSideChain_ok documented connects middleTip atEnd linked connected
            obtain ⟨finalHeight, -, returned⟩ := Outcome.bind_eq_returned.mp returned
            split at returned
            · cases returned
            · simp only [Outcome.returned.injEq, Prod.mk.injEq, Except.ok.injEq] at returned
              obtain ⟨rfl, -, rfl⟩ := returned
              rw [lastIs, Option.getD_some] at lastBlockIs
              exact ⟨finalTip, cut ▸ chained, by rw [lastBlockIs]⟩

end ChainMonitor

end Hcexplorer

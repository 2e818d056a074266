import Hcexplorer.StakeReorganization

/-!
# The stake database follows the node

The law of the chain monitor: in every run in which the goroutines take the
notifications in the node's order, and none is dropped, the chain connected in
the stake database is the node's main chain whenever all notifications have been
handled.

The invariant compares the connected chain with the main chain through the
notifications still pending: `Leads` says that a chain, a list of notifications
and a main chain belong together, each block notification extending the chain and
each reorganization, with the blocks that follow it, replacing its end. The node
appends to that list and to the main chain; the handlers remove from its front.
While a reorganization is collected its blocks are split into those already in
the buffer and those still pending.

The order is a condition because nothing in the code enforces it: the flag is set
by another goroutine, over another channel, than the one that takes the blocks.
-/

namespace Hcexplorer

open LinkedChain Runs

variable {api : StakeApi} {hcd : Hcd} {params : ChainParams}

/-- The notifications of a list of connected blocks, one for each in order. -/
def blockNotifications (hcd : Hcd) (blocks : List MsgBlock) : List Notification :=
  blocks.map fun block => .blockConnected (hcd.hashOf block)

/-- A reorganization of a chain: the position of the last block kept, that block,
and the nonempty side chain that replaces the blocks above, known to the node. -/
structure Reorganizes (hcd : Hcd) (known chain : List MsgBlock) (fork : Nat)
    (side : List MsgBlock) (data : ReorgData) : Prop where
  parent : ∃ ancestor, chain[fork]? = some ancestor ∧ ancestor ∈ known ∧
    (chainView hcd).Linked (ancestor :: side)
  newHead : ∃ newTip, side.getLast? = some newTip ∧ data.newChainHead = hcd.hashOf newTip
  sideKnown : ∀ block ∈ side, block ∈ known

/-- Handling the notifications in order turns the first chain into the last one. -/
inductive Leads (hcd : Hcd) (known : List MsgBlock) :
    List MsgBlock → List Notification → List MsgBlock → Prop where
  | done (chain : List MsgBlock) : Leads hcd known chain [] chain
  | block {chain main : List MsgBlock} {rest : List Notification} (block : MsgBlock)
      (child : ∀ tip ∈ chain.getLast?, (chainView hcd).Child tip block)
      (isKnown : block ∈ known) (later : Leads hcd known (chain ++ [block]) rest main) :
      Leads hcd known chain (.blockConnected (hcd.hashOf block) :: rest) main
  | reorganization {chain main : List MsgBlock} {rest : List Notification} (fork : Nat)
      (side : List MsgBlock) (data : ReorgData)
      (reorganizes : Reorganizes hcd known chain fork side data)
      (later : Leads hcd known (chain.take (fork + 1) ++ side) rest main) :
      Leads hcd known chain (.reorganization data :: (blockNotifications hcd side ++ rest)) main

namespace Leads

variable {known : List MsgBlock} {chain main : List MsgBlock} {notifications : List Notification}

/-- What the node learns later does not change where the notifications lead. -/
theorem mono {wider : List MsgBlock} (more : ∀ block ∈ known, block ∈ wider)
    (leads : Leads hcd known chain notifications main) :
    Leads hcd wider chain notifications main := by
  induction leads with
  | done chain => exact .done chain
  | block block child isKnown _ inductionHypothesis =>
    exact .block block child (more block isKnown) inductionHypothesis
  | reorganization fork side data reorganizes _ inductionHypothesis =>
    obtain ⟨⟨ancestor, found, isKnown, linked⟩, newHead, sideKnown⟩ := reorganizes
    exact .reorganization fork side data
      ⟨⟨ancestor, found, more ancestor isKnown, linked⟩, newHead,
        fun block member => more block (sideKnown block member)⟩ inductionHypothesis

/-- Two lists of notifications handled one after the other. -/
theorem append {later : List Notification} {final : List MsgBlock}
    (leads : Leads hcd known chain notifications main)
    (further : Leads hcd known main later final) :
    Leads hcd known chain (notifications ++ later) final := by
  induction leads with
  | done chain => exact further
  | block block child isKnown _ inductionHypothesis =>
    exact .block block child isKnown (inductionHypothesis further)
  | reorganization fork side data reorganizes _ inductionHypothesis =>
    rw [List.cons_append, List.append_assoc]
    exact .reorganization fork side data reorganizes (inductionHypothesis further)

/-- Where nothing is pending, the chain is the main chain. -/
theorem nil_eq (leads : Leads hcd known chain [] main) : chain = main := by
  cases leads with
  | done => rfl

/-- A pending block notification is that of a known child of the chain's tip. -/
theorem of_block {hash : Hash} {rest : List Notification}
    (leads : Leads hcd known chain (.blockConnected hash :: rest) main) :
    ∃ block, hash = hcd.hashOf block ∧ block ∈ known ∧
      (∀ tip ∈ chain.getLast?, (chainView hcd).Child tip block) ∧
      Leads hcd known (chain ++ [block]) rest main := by
  cases leads with
  | block block child isKnown later => exact ⟨block, rfl, isKnown, child, later⟩

/-- A pending reorganization is followed by the blocks of its side chain. -/
theorem of_reorganization {data : ReorgData} {rest : List Notification}
    (leads : Leads hcd known chain (.reorganization data :: rest) main) :
    ∃ fork side further, Reorganizes hcd known chain fork side data ∧
      rest = blockNotifications hcd side ++ further ∧
      Leads hcd known (chain.take (fork + 1) ++ side) further main := by
  generalize same : Notification.reorganization data :: rest = pending at leads
  cases leads with
  | done => cases same
  | block block child isKnown later => cases same
  | reorganization fork side data reorganizes later =>
    obtain ⟨⟨⟩, rfl⟩ := List.cons.inj same
    exact ⟨fork, side, _, reorganizes, rfl, later⟩

/-- The main chain reached from a rooted chain is rooted. -/
theorem rooted (leads : Leads hcd known chain notifications main)
    (start : (chainView hcd).Rooted chain) : (chainView hcd).Rooted main := by
  induction leads with
  | done chain => exact start
  | block block child _ _ inductionHypothesis => exact inductionHypothesis (start.concat child)
  | reorganization fork side data reorganizes _ inductionHypothesis =>
    obtain ⟨ancestor, found, -, linked⟩ := reorganizes.parent
    refine inductionHypothesis (start.reorganize found linked.tail ?_)
    intro first atStart
    cases side with
    | nil => cases atStart
    | cons head rest =>
      obtain rfl : head = first := Option.some.inj atStart
      exact (List.isChain_cons_cons.mp linked).1

end Leads

namespace Follower

/-- The notification whose block is at hand and not yet connected or buffered. -/
def atHand (follower : Follower api) : List Notification :=
  match follower.handling with
  | some (.started hash _ _) => [.blockConnected hash]
  | _ => []

/-- Where the goroutines stand between the connected chain and the main chain. -/
inductive Phase (hcd : Hcd) (follower : Follower api) : Prop where
  /-- No reorganization; a block at hand extends the chain. -/
  | following
      (idle : ∀ current, follower.handling = some current →
        ∃ hash data, current = .started hash false data)
      (flag : follower.monitor.reorganizing = false) (buffer : follower.monitor.sideChain = [])
      (leads : Leads hcd follower.known follower.monitor.db.connected
        (follower.atHand ++ (follower.outstanding ++ follower.outgoing)) follower.main)
  /-- The flag was set while a block that extends the chain is at hand. -/
  | raised (hash : Hash) (before : Option ReorgData) (data : ReorgData)
      (working : follower.handling = some (.started hash false before))
      (flag : follower.monitor.reorganizing = true)
      (announced : follower.monitor.reorgData = some data)
      (buffer : follower.monitor.sideChain = [])
      (leads : Leads hcd follower.known follower.monitor.db.connected
        (.blockConnected hash :: .reorganization data ::
          (follower.outstanding ++ follower.outgoing)) follower.main)
  /-- The blocks of a side chain are collected; some are still to come. -/
  | collecting (fork : Nat) (seen unseen : List MsgBlock) (data : ReorgData)
      (rest : List Notification)
      (working : ∀ current, follower.handling = some current →
        ∃ hash, current = .started hash true (some data))
      (flag : follower.monitor.reorganizing = true)
      (announced : follower.monitor.reorgData = some data)
      (buffer : follower.monitor.sideChain = seen.map hcd.hashOf) (toCome : unseen ≠ [])
      (reorganizes : Reorganizes hcd follower.known follower.monitor.db.connected fork
        (seen ++ unseen) data)
      (pending : follower.atHand ++ (follower.outstanding ++ follower.outgoing) =
        blockNotifications hcd unseen ++ rest)
      (leads : Leads hcd follower.known
        (follower.monitor.db.connected.take (fork + 1) ++ (seen ++ unseen)) rest follower.main)
  /-- The side chain is connected and the flag is not yet cleared. -/
  | switched
      (working : follower.handling = some .switched)
      (flag : follower.monitor.reorganizing = true)
      (leads : Leads hcd follower.known follower.monitor.db.connected
        (follower.outstanding ++ follower.outgoing) follower.main)

/-- The hashes of the block notifications of a list. -/
def blockHashes : List Notification → List Hash
  | [] => []
  | .blockConnected hash :: rest => hash :: blockHashes rest
  | .reorganization _ :: rest => blockHashes rest

/-- The reorganizations among some notifications, in their order. -/
def reorganizations : List Notification → List ReorgData
  | [] => []
  | .blockConnected _ :: rest => reorganizations rest
  | .reorganization data :: rest => data :: reorganizations rest

/-- The channels hold what is outstanding, the database is at its tip, and the
phase relates its chain to the node's. -/
structure Follows (hcd : Hcd) (follower : Follower api) : Prop where
  queued : follower.queue = blockHashes follower.outstanding
  sent : follower.received.toList ++ follower.reorgChan = reorganizations follower.outstanding
  rooted : (chainView hcd).Rooted follower.main
  mainKnown : ∀ block ∈ follower.main, block ∈ follower.known
  atTip : Session.AtTip hcd follower.monitor.db
  phase : Phase hcd follower

/-- The node returns every block it knows by its hash. -/
def Serves (hcd : Hcd) (client : NodeClient) (known : List MsgBlock) : Prop :=
  ∀ block ∈ known, client.getBlock (hcd.hashOf block) = .ok block

/-- Handling a block meets no RPC or database error: every look-up by hash is
answered, and an error of a connection is only that the block's height is too low. -/
structure Answered (hcd : Hcd) (params : ChainParams) (follower : Follower api)
    (env : Environment) (answers : SwitchAnswers) : Prop where
  served : Serves hcd env.client follower.known
  root : Serves hcd answers.root follower.known
  ancestor : Serves hcd answers.ancestor follower.known
  connects : ∀ i, Serves hcd (answers.connects i).client follower.known
  clean : ∀ hash reorgData, follower.handling = some (.started hash false reorgData) →
    ∀ session err, follower.monitor.db.connectBlockHash hcd params env hash =
      .returned (session, .error err) → ∃ height best, err = .cannotConnect height best

/-- No step meets an RPC or database error. -/
def NoError (hcd : Hcd) (params : ChainParams) (follower : Follower api) : Action → Prop
  | .handleBlock env answers => Answered hcd params follower env answers
  | _ => True

/-- A step takes the notifications in the node's order: a reorganization is not
dropped, and its flag is set after the earlier blocks were begun, before a later
one is, and when no reorganization is in progress. -/
def InOrder (follower : Follower api) : Action → Prop
  | .deliver => ∀ data, follower.outgoing.head? = some (.reorganization data) →
      follower.reorgChan.length < reorgBuffer
  | .applyReorg => follower.monitor.reorganizing = false ∧
      ∃ data, follower.outstanding.head? = some (.reorganization data)
  | .beginBlock => ∃ hash, follower.outstanding.head? = some (.blockConnected hash)
  | _ => True

/-- The block hashes of two lists of notifications are those of the one and then those of the
other. -/
@[simp] theorem blockHashes_append (front back : List Notification) :
    blockHashes (front ++ back) = blockHashes front ++ blockHashes back := by
  induction front with
  | nil => rfl
  | cons notification rest inductionHypothesis =>
    cases notification <;> simp [blockHashes, inductionHypothesis]

/-- The reorganizations of two lists of notifications are those of the one and then those of the
other. -/
@[simp] theorem reorganizations_append (front back : List Notification) :
    reorganizations (front ++ back) = reorganizations front ++ reorganizations back := by
  induction front with
  | nil => rfl
  | cons notification rest inductionHypothesis =>
    cases notification <;> simp [reorganizations, inductionHypothesis]

/-- A list without block hashes and without reorganizations is empty. -/
theorem notifications_eq_nil {notifications : List Notification}
    (noBlocks : blockHashes notifications = []) (noReorgs : reorganizations notifications = []) :
    notifications = [] := by
  cases notifications with
  | nil => rfl
  | cons notification rest =>
    cases notification with
    | blockConnected hash => cases noBlocks
    | reorganization data => cases noReorgs

/-- The phase survives when the node announces how its main chain changed. -/
theorem Phase.grow {follower : Follower api} (phase : Phase hcd follower) {main more : List MsgBlock}
    {new : List Notification}
    (leads : Leads hcd (follower.known ++ more) follower.main new main) :
    Phase hcd { follower with
      main := main, known := follower.known ++ more, outgoing := follower.outgoing ++ new } := by
  have wider : ∀ block ∈ follower.known, block ∈ follower.known ++ more := fun block member =>
    List.mem_append_left _ member
  cases phase with
  | following idle flag buffer before =>
    refine .following idle flag buffer ?_
    have after := (before.mono wider).append leads
    rwa [List.append_assoc, List.append_assoc] at after
  | raised hash old data working flag announced buffer before =>
    refine .raised hash old data working flag announced buffer ?_
    have after := (before.mono wider).append leads
    rwa [List.cons_append, List.cons_append, List.append_assoc] at after
  | collecting fork seen unseen data rest working flag announced buffer toCome reorganizes pending
      before =>
    obtain ⟨⟨ancestor, found, isKnown, linked⟩, newHead, sideKnown⟩ := reorganizes
    refine .collecting fork seen unseen data (rest ++ new) working flag announced buffer toCome
      ⟨⟨ancestor, found, wider ancestor isKnown, linked⟩, newHead,
        fun block member => wider block (sideKnown block member)⟩ ?_ ((before.mono wider).append leads)
    have longer := congrArg (· ++ new) pending
    simp only [List.append_assoc] at longer
    exact longer
  | switched working flag before =>
    refine .switched working flag ?_
    have after := (before.mono wider).append leads
    rwa [List.append_assoc] at after

/-- The follower still follows when the node's main chain grows. -/
theorem follows_extend {block : MsgBlock} {follower next : Follower api}
    (holds : Follows hcd follower) (stepped : follower.extend hcd block = some next) :
    Follows hcd next := by
  unfold extend at stepped
  split at stepped
  · cases stepped
  · rename_i tip atEnd
    split at stepped
    · rename_i linked
      obtain rfl := Option.some.inj stepped
      have child : ∀ last ∈ follower.main.getLast?, (chainView hcd).Child last block := by
        intro last isLast
        obtain rfl : tip = last := Option.some.inj (atEnd.symm.trans isLast)
        exact linked
      have isKnown : block ∈ follower.known ++ [block] := by simp
      refine ⟨holds.queued, holds.sent, holds.rooted.concat child, ?_, holds.atTip, ?_⟩
      · intro member inMain
        rcases List.mem_append.mp inMain with old | new
        · exact List.mem_append_left _ (holds.mainKnown member old)
        · exact List.mem_append_right _ new
      · exact holds.phase.grow (.block block child isKnown (.done _))
    · cases stepped

/-- The follower still follows when the node's main chain is reorganized. -/
theorem follows_reorganize {fork : Nat} {side : List MsgBlock} {follower next : Follower api}
    (holds : Follows hcd follower) (stepped : follower.reorganize hcd fork side = some next) :
    Follows hcd next := by
  unfold reorganize at stepped
  split at stepped
  · rename_i ancestor oldTip newTip found atEnd lastIs
    split at stepped
    · rename_i enabled
      obtain rfl := Option.some.inj stepped
      have linked := ChainMonitor.isLinked_iff.mp enabled.2
      have reorganizes : Reorganizes hcd (follower.known ++ side) follower.main fork side
          ⟨hcd.hashOf oldTip, Int32.ofInt oldTip.height, hcd.hashOf newTip,
            Int32.ofInt newTip.height⟩ := by
        refine ⟨⟨ancestor, found, ?_, linked⟩, ⟨newTip, lastIs, rfl⟩, fun block member =>
          List.mem_append_right _ member⟩
        exact List.mem_append_left _ (holds.mainKnown ancestor (List.mem_of_getElem? found))
      have leads : Leads hcd (follower.known ++ side) follower.main
          (reorgNotification hcd oldTip newTip :: blockNotifications hcd side)
          (follower.main.take (fork + 1) ++ side) := by
        have alone := Leads.reorganization fork side _ reorganizes (.done _)
        rwa [List.append_nil] at alone
      refine ⟨holds.queued, holds.sent, leads.rooted holds.rooted, ?_, holds.atTip,
        holds.phase.grow leads⟩
      intro member inMain
      rcases List.mem_append.mp inMain with old | new
      · exact List.mem_append_left _ (holds.mainKnown member (List.mem_of_mem_take old))
      · exact List.mem_append_right _ new
    · cases stepped
  · cases stepped

/-- A change of the channels that keeps the pending notifications keeps the phase. -/
theorem Phase.channels {follower : Follower api} (phase : Phase hcd follower) {queue : List Hash}
    {reorgChan : List ReorgData} {received : Option ReorgData} {outgoing outstanding : List Notification}
    (same : outstanding ++ outgoing = follower.outstanding ++ follower.outgoing) :
    Phase hcd { follower with
      queue := queue, reorgChan := reorgChan, received := received,
      outgoing := outgoing, outstanding := outstanding } := by
  cases phase with
  | following idle flag buffer leads => exact .following idle flag buffer (same ▸ leads)
  | raised hash old data working flag announced buffer leads =>
    exact .raised hash old data working flag announced buffer (same ▸ leads)
  | collecting fork seen unseen data rest working flag announced buffer toCome reorganizes pending
      leads =>
    exact .collecting fork seen unseen data rest working flag announced buffer toCome reorganizes
      (same ▸ pending) leads
  | switched working flag leads => exact .switched working flag (same ▸ leads)

/-- The follower still follows when a notification is delivered, and not dropped. -/
theorem follows_deliver {follower next : Follower api} (holds : Follows hcd follower)
    (inOrder : InOrder follower .deliver) (stepped : follower.deliver = some next) :
    Follows hcd next := by
  unfold deliver at stepped
  split at stepped
  · cases stepped
  · rename_i hash rest sends
    obtain rfl := Option.some.inj stepped
    refine ⟨?_, ?_, holds.rooted, holds.mainKnown, holds.atTip, holds.phase.channels ?_⟩
    · simp [holds.queued, blockHashes]
    · simp [holds.sent, reorganizations]
    · rw [sends, List.append_assoc, List.singleton_append]
  · rename_i data rest sends
    have room := inOrder data (by rw [sends, List.head?_cons])
    rw [if_pos room] at stepped
    obtain rfl := Option.some.inj stepped
    refine ⟨?_, ?_, holds.rooted, holds.mainKnown, holds.atTip, holds.phase.channels ?_⟩
    · simp [holds.queued, blockHashes]
    · simp [← holds.sent, reorganizations]
    · rw [sends, List.append_assoc, List.singleton_append]

/-- The follower still follows when `ReorgHandler` receives what was sent to it. -/
theorem follows_receiveReorg {follower next : Follower api} (holds : Follows hcd follower)
    (stepped : follower.receiveReorg = some next) : Follows hcd next := by
  unfold receiveReorg at stepped
  split at stepped
  · rename_i data rest waiting sends
    obtain rfl := Option.some.inj stepped
    refine ⟨holds.queued, ?_, holds.rooted, holds.mainKnown, holds.atTip, holds.phase.channels rfl⟩
    rw [← holds.sent, waiting, sends]
    rfl
  · cases stepped

/-- The follower still follows when `ReorgHandler` sets the flag in order. -/
theorem follows_applyReorg {follower next : Follower api} (holds : Follows hcd follower)
    (inOrder : InOrder follower .applyReorg) (stepped : follower.applyReorg = some next) :
    Follows hcd next := by
  obtain ⟨down, data, first⟩ := inOrder
  obtain ⟨later, outstandingIs⟩ : ∃ later, follower.outstanding = .reorganization data :: later :=
    ⟨_, List.eq_cons_of_mem_head? first⟩
  have sent := holds.sent
  rw [outstandingIs] at sent
  unfold applyReorg at stepped
  split at stepped
  · cases stepped
  · rename_i taken isTaken
    rw [isTaken] at sent
    obtain ⟨rfl, sentLater⟩ : taken = data ∧ follower.reorgChan = reorganizations later := by
      simpa [reorganizations] using sent
    have removed : follower.outstanding.eraseP (!·.isBlock) = later := by
      simp [outstandingIs, Notification.isBlock]
    simp only [down, removed, Bool.false_eq_true, if_false] at stepped
    obtain rfl := Option.some.inj stepped
    refine ⟨?_, by simpa using sentLater, holds.rooted, holds.mainKnown, holds.atTip, ?_⟩
    · rw [holds.queued, outstandingIs]
      rfl
    cases holds.phase with
    | following idle flag buffer leads =>
      by_cases free : follower.handling = none
      · have nothing : follower.atHand = [] := by simp [atHand, free]
        rw [nothing, List.nil_append, outstandingIs, List.cons_append] at leads
        obtain ⟨fork, side, further, reorganizes, pending, leadsOn⟩ := leads.of_reorganization
        refine .collecting fork [] side taken further ?_ rfl rfl buffer ?_ reorganizes ?_ leadsOn
        · intro current working
          cases free.symm.trans working
        · obtain ⟨newTip, lastIs, -⟩ := reorganizes.newHead
          rintro rfl
          cases lastIs
        · rw [← List.nil_append (later ++ follower.outgoing), ← nothing] at pending
          exact pending
      · obtain ⟨current, working⟩ := Option.ne_none_iff_exists'.mp free
        obtain ⟨hash, before, rfl⟩ := idle current working
        refine .raised hash before taken working rfl rfl buffer ?_
        simpa [atHand, working, outstandingIs] using leads
    | raised hash old data working flag announced buffer leads =>
      rw [down] at flag
      cases flag
    | collecting fork seen unseen data rest working flag announced buffer toCome reorganizes pending
        leads =>
      rw [down] at flag
      cases flag
    | switched working flag leads =>
      rw [down] at flag
      cases flag

/-- The follower still follows when a block is handed over in order. -/
theorem follows_beginBlock {follower next : Follower api} (holds : Follows hcd follower)
    (inOrder : InOrder follower .beginBlock) (stepped : follower.beginBlock = some next) :
    Follows hcd next := by
  obtain ⟨hash, first⟩ := inOrder
  obtain ⟨later, outstandingIs⟩ : ∃ later, follower.outstanding = .blockConnected hash :: later :=
    ⟨_, List.eq_cons_of_mem_head? first⟩
  have queued := holds.queued
  have sent := holds.sent
  rw [outstandingIs] at queued sent
  unfold beginBlock at stepped
  split at stepped
  · rename_i head rest free queueIs
    obtain ⟨rfl, rfl⟩ : head = hash ∧ rest = blockHashes later := by
      simpa [queueIs, blockHashes] using queued
    have removed : follower.outstanding.eraseP (·.isBlock) = later := by
      simp [outstandingIs, Notification.isBlock]
    rw [removed] at stepped
    obtain rfl := Option.some.inj stepped
    refine ⟨rfl, sent, holds.rooted, holds.mainKnown, holds.atTip, ?_⟩
    have nothing : follower.atHand = [] := by simp [atHand, free]
    cases holds.phase with
    | following idle flag buffer leads =>
      rw [nothing, outstandingIs] at leads
      refine .following ?_ flag buffer leads
      intro current working
      exact ⟨head, follower.monitor.reorgData, by rw [← Option.some.inj working, flag]⟩
    | raised hash before data working flag announced buffer leads =>
      cases free.symm.trans working
    | collecting fork seen unseen data rest working flag announced buffer toCome reorganizes pending
        leads =>
      rw [nothing, outstandingIs] at pending
      refine .collecting fork seen unseen data rest ?_ flag announced buffer toCome reorganizes
        pending leads
      intro current working
      exact ⟨head, by rw [← Option.some.inj working, flag, announced]⟩
    | switched working flag leads => cases free.symm.trans working
  · cases stepped

/-- The known blocks have distinct hashes, since the node returns each by its hash. -/
theorem Serves.injective {client : NodeClient} {known : List MsgBlock}
    (served : Serves hcd client known) {first second : MsgBlock} (firstKnown : first ∈ known)
    (secondKnown : second ∈ known) (same : hcd.hashOf first = hcd.hashOf second) :
    first = second := by
  have answered := served first firstKnown
  rw [same, served second secondKnown] at answered
  exact (Except.ok.inj answered).symm

/-- A child of the tip is connected when no RPC or database error occurs. -/
theorem connects_child (documented : api.Documented) {session after : Session api}
    {env : Environment} {block : MsgBlock} {result : Except StakeError MsgBlock}
    (atTip : Session.AtTip hcd session)
    (child : ∀ tip ∈ session.connected.getLast?, (chainView hcd).Child tip block)
    (answered : env.client.getBlock (hcd.hashOf block) = .ok block)
    (clean : ∀ after err, session.connectBlockHash hcd params env (hcd.hashOf block) =
      .returned (after, .error err) → ∃ height best, err = .cannotConnect height best)
    (returned : session.connectBlockHash hcd params env (hcd.hashOf block) =
      .returned (after, result)) :
    Session.AtTip hcd after ∧ after.connected = session.connected ++ [block] := by
  cases result with
  | ok connected =>
    obtain ⟨found, appended, ended⟩ := Session.connectBlockHash_ok returned
    obtain rfl : block = connected := Except.ok.inj (answered.symm.trans found)
    exact ⟨atTip.connect documented child appended ended, appended⟩
  | error err =>
    obtain ⟨height, best, rfl⟩ := clean after err returned
    obtain ⟨ended, connects, succeeded, failed⟩ := Session.connectBlockHash_answered answered returned
    cases ended with
    | none => cases succeeded rfl
    | some failure =>
      obtain rfl : StakeError.cannotConnect height best = failure := Except.error.inj (failed _ rfl)
      exact absurd connects (atTip.not_refused child)

/-- A block of a linked side chain that is not its last has another hash. -/
theorem side_unseen {known side seen later : List MsgBlock} {ancestor block newTip : MsgBlock}
    (linked : (chainView hcd).Linked (ancestor :: side)) (split : side = seen ++ block :: later)
    (lastIs : side.getLast? = some newTip) {client : NodeClient} (served : Serves hcd client known)
    (sideKnown : ∀ member ∈ side, member ∈ known) :
    hcd.hashOf newTip = hcd.hashOf block ↔ later = [] := by
  subst split
  have newTipIn : newTip ∈ seen ++ block :: later := List.mem_of_getLast? lastIs
  rw [List.getLast?_append_cons] at lastIs
  constructor
  · intro same
    obtain rfl : newTip = block := served.injective (sideKnown _ newTipIn)
      (sideKnown _ (by simp)) same
    by_contra nonempty
    -- the heights of a linked chain are distinct
    have fromBlock : (chainView hcd).Linked (newTip :: later) :=
      List.IsChain.right_of_append (List.IsChain.tail linked)
    have exactHeight := View.linked_height fromBlock newTip rfl later.length newTip (by
      rw [List.getLast?_eq_getElem?] at lastIs
      simpa using lastIs)
    have positive : 0 < later.length := List.length_pos_of_ne_nil nonempty
    omega
  · rintro rfl
    obtain rfl : block = newTip := by simpa using lastIs
    rfl

/-- A block at hand that is handled with the flag set is the next one of a side chain. -/
theorem Phase.of_side {follower : Follower api} (phase : Phase hcd follower) {hash : Hash}
    {data : ReorgData} (working : follower.handling = some (.started hash true (some data))) :
    ∃ fork seen block later rest, hash = hcd.hashOf block ∧
      follower.monitor.reorganizing = true ∧ follower.monitor.reorgData = some data ∧
      follower.monitor.sideChain = seen.map hcd.hashOf ∧
      Reorganizes hcd follower.known follower.monitor.db.connected fork (seen ++ block :: later) data ∧
      follower.outstanding ++ follower.outgoing = blockNotifications hcd later ++ rest ∧
      Leads hcd follower.known
        (follower.monitor.db.connected.take (fork + 1) ++ (seen ++ block :: later)) rest
        follower.main := by
  have hand : follower.atHand = [.blockConnected hash] := by simp [atHand, working]
  cases phase with
  | following idle flag buffer leads =>
    obtain ⟨other, before, same⟩ := idle _ working
    cases same
  | raised other before announced working' flag isData buffer leads =>
    cases working.symm.trans working'
  | switched working' flag leads => cases working.symm.trans working'
  | collecting fork seen unseen announced rest working' flag isData buffer toCome reorganizes pending
      leads =>
    obtain ⟨other, same⟩ := working' _ working
    obtain rfl : data = announced := by
      injection same with _ _ sameData
      exact Option.some.inj sameData
    obtain ⟨block, later, rfl⟩ := List.exists_cons_of_ne_nil toCome
    obtain ⟨isHash, pendingLater⟩ : hash = hcd.hashOf block ∧
        follower.outstanding ++ follower.outgoing = blockNotifications hcd later ++ rest := by
      simpa [hand, blockNotifications] using pending
    exact ⟨fork, seen, block, later, rest, isHash, flag, isData, buffer, reorganizes, pendingLater,
      leads⟩

/-- A block of a side chain is kept, or it is the last one and the chain is switched, without an RPC
or database error. -/
theorem follows_handleSide (documented : api.Documented) {follower next : Follower api}
    {env : Environment} {answers : SwitchAnswers} (holds : Follows hcd follower)
    (noError : Answered hcd params follower env answers) {hash : Hash} {data : ReorgData}
    (working : follower.handling = some (.started hash true (some data)))
    (stepped : follower.handleBlock hcd params env answers = some next) : Follows hcd next := by
  obtain ⟨fork, seen, block, later, rest, rfl, flag, isData, buffer, reorganizes, pendingLater, leads⟩ :=
    holds.phase.of_side working
  obtain ⟨⟨ancestor, found, isKnown, linked⟩, ⟨newTip, lastIs, newHead⟩, sideKnown⟩ := reorganizes
  have atEnd := side_unseen linked rfl lastIs noError.served sideKnown
  have collected : follower.monitor.sideChain ++ [hcd.hashOf block] =
      (seen ++ [block]).map hcd.hashOf := by simp [buffer]
  simp only [handleBlock, working, collected] at stepped
  split at stepped
  · rename_i notLast
    obtain rfl := Option.some.inj stepped
    rw [newHead] at notLast
    refine ⟨holds.queued, holds.sent, holds.rooted, holds.mainKnown, holds.atTip, ?_⟩
    refine .collecting fork (seen ++ [block]) later data rest ?_ flag isData rfl ?_ ?_ pendingLater ?_
    · simp
    · exact fun none => notLast (atEnd.mpr none)
    · exact ⟨⟨ancestor, found, isKnown, by simpa using linked⟩, ⟨newTip, by simpa using lastIs,
        newHead⟩, by simpa using sideKnown⟩
    · simpa using leads
  · rename_i isLast
    obtain rfl : later = [] := atEnd.mp (by rw [← newHead]; exact not_not.mp isLast)
    split at stepped
    · rename_i session newHeight newHash again switched announced
      split at stepped
      · cases stepped
      · obtain rfl := Option.some.inj stepped
        obtain ⟨atTip, chained, -⟩ := ChainMonitor.switchToSideChain_ok documented holds.atTip
          found linked lastIs (fun member inSide => noError.root _ (sideKnown member inSide))
          (noError.ancestor ancestor isKnown)
          (fun i member inSide => noError.connects i _ (sideKnown member inSide)) switched
        refine ⟨holds.queued, holds.sent, holds.rooted, holds.mainKnown, atTip, ?_⟩
        refine .switched rfl flag ?_
        rw [← chained] at leads
        rw [pendingLater]
        exact leads
    · cases stepped

/-- A block that extends the chain is connected without an RPC or database error. -/
theorem follows_connected (documented : api.Documented) {follower : Follower api}
    {env : Environment} {answers : SwitchAnswers} (holds : Follows hcd follower)
    (noError : Answered hcd params follower env answers) {hash : Hash} {data : Option ReorgData}
    (working : follower.handling = some (.started hash false data)) {session : Session api}
    {result : Except StakeError MsgBlock}
    (returned : follower.monitor.db.connectBlockHash hcd params env hash =
      .returned (session, result)) :
    Follows hcd { follower with
      handling := none
      monitor := { follower.monitor with db := session } } := by
  have hand : follower.atHand = [.blockConnected hash] := by simp [atHand, working]
  cases holds.phase with
  | following idle flag buffer leads =>
    rw [hand] at leads
    obtain ⟨block, rfl, isKnown, child, later⟩ := leads.of_block
    obtain ⟨atTip, appended⟩ := connects_child documented holds.atTip child
      (noError.served block isKnown) (noError.clean _ _ working) returned
    refine ⟨holds.queued, holds.sent, holds.rooted, holds.mainKnown, atTip, ?_⟩
    refine .following ?_ flag buffer ?_
    · simp
    · rw [← appended] at later
      exact later
  | raised other before announced working' flag isData buffer leads =>
    cases working.symm.trans working'
    obtain ⟨block, rfl, isKnown, child, later⟩ := leads.of_block
    obtain ⟨atTip, appended⟩ := connects_child documented holds.atTip child
      (noError.served block isKnown) (noError.clean _ _ working) returned
    rw [← appended] at later
    obtain ⟨fork, side, further, reorganizes, pending, leadsOn⟩ := later.of_reorganization
    refine ⟨holds.queued, holds.sent, holds.rooted, holds.mainKnown, atTip, ?_⟩
    refine .collecting fork [] side announced further ?_ flag isData buffer ?_ reorganizes
      pending leadsOn
    · simp
    · obtain ⟨newTip, lastIs, -⟩ := reorganizes.newHead
      rintro rfl
      cases lastIs
  | collecting fork seen unseen announced rest working' flag isData buffer toCome reorganizes
      pending leads =>
    obtain ⟨other, same⟩ := working' _ working
    cases same
  | switched working' flag leads => cases working.symm.trans working'

/-- The block at hand is handled without an RPC or database error. -/
theorem follows_handleBlock (documented : api.Documented) {follower next : Follower api}
    {env : Environment} {answers : SwitchAnswers} (holds : Follows hcd follower)
    (noError : Answered hcd params follower env answers)
    (stepped : follower.handleBlock hcd params env answers = some next) : Follows hcd next := by
  have handled := stepped
  unfold handleBlock at handled
  split at handled
  · rename_i working
    exact follows_handleSide documented holds noError working stepped
  · rename_i working
    split at handled
    · rename_i returned
      obtain rfl := Option.some.inj handled
      exact follows_connected documented holds noError working returned
    · cases handled
  · cases handled

/-- The follower still follows when the flag is cleared. -/
theorem follows_finishReorg {follower next : Follower api} (holds : Follows hcd follower)
    (stepped : follower.finishReorg = some next) : Follows hcd next := by
  unfold finishReorg at stepped
  split at stepped
  · rename_i working
    obtain rfl := Option.some.inj stepped
    refine ⟨holds.queued, holds.sent, holds.rooted, holds.mainKnown, holds.atTip, ?_⟩
    cases holds.phase with
    | following idle flag buffer leads =>
      obtain ⟨hash, before, same⟩ := idle _ working
      cases same
    | raised hash before data working' flag announced buffer leads =>
      cases working.symm.trans working'
    | collecting fork seen unseen data rest working' flag announced buffer toCome reorganizes pending
        leads =>
      obtain ⟨hash, same⟩ := working' _ working
      cases same
    | switched working' flag leads =>
      refine .following ?_ rfl rfl leads
      simp
  · cases stepped

/-- One step, in order and without an RPC or database error, keeps the invariant. -/
theorem follows_step (documented : api.Documented) {follower next : Follower api} {action : Action}
    (holds : Follows hcd follower) (noError : NoError hcd params follower action)
    (inOrder : InOrder follower action) (stepped : follower.step hcd params action = some next) :
    Follows hcd next := by
  cases action with
  | extend block => exact follows_extend holds stepped
  | reorganize fork side => exact follows_reorganize holds stepped
  | deliver => exact follows_deliver holds inOrder stepped
  | receiveReorg => exact follows_receiveReorg holds stepped
  | applyReorg => exact follows_applyReorg holds inOrder stepped
  | beginBlock => exact follows_beginBlock holds inOrder stepped
  | handleBlock env answers => exact follows_handleBlock documented holds noError stepped
  | finishReorg => exact follows_finishReorg holds stepped

/-- The system when the live notifications begin: the stake database holds the
node's main chain and nothing is under way. -/
def begun (session : Session api) : Follower api where
  main := session.connected
  known := session.connected
  outgoing := []
  queue := []
  reorgChan := []
  outstanding := []
  received := none
  handling := none
  monitor := ⟨session, [], false, none⟩

/-- In every run without RPC and database errors whose notifications are taken in
the node's order, whenever all notifications have been handled the connected
chain is the node's main chain, the side-chain buffer is empty and no
reorganization is in progress.

At such a moment nothing is pending, which leaves the phase without a
reorganization: the others have one at hand or a side-chain block to come. -/
theorem connected_eq_main (documented : api.Documented) {session : Session api}
    (atTip : Session.AtTip hcd session) {final : Follower api} {actions : List Action}
    (admitted : Admitted (step hcd params)
      (fun follower action => NoError hcd params follower action ∧ InOrder follower action)
      (begun session) actions)
    (ran : exec (step hcd params) (begun session) actions = some final)
    (handled : final.quiescent) :
    final.monitor.db.connected = final.main ∧ final.monitor.sideChain = [] ∧
      final.monitor.reorganizing = false := by
  have start : Follows hcd (begun session) := by
    refine ⟨rfl, rfl, atTip.best.1, fun block member => member, atTip, ?_⟩
    refine .following ?_ rfl rfl (.done _)
    simp [begun]
  have holds : Follows hcd final := exec_invariant (Follows hcd)
    (fun follower action next kept allowed stepped =>
      follows_step documented kept allowed.1 allowed.2 stepped) start admitted ran
  obtain ⟨noOutgoing, noQueue, noReorg, noneReceived, free⟩ := handled
  have idle : final.handling = none := Option.isNone_iff_eq_none.mp free
  have noneOutstanding : final.outstanding = [] := by
    refine notifications_eq_nil (holds.queued.symm.trans noQueue) ?_
    rw [← holds.sent, noneReceived, noReorg]
    rfl
  have nothing : final.atHand ++ (final.outstanding ++ final.outgoing) = [] := by
    simp [atHand, idle, noneOutstanding, noOutgoing]
  cases holds.phase with
  | following idle' flag buffer leads =>
    rw [nothing] at leads
    exact ⟨leads.nil_eq, buffer, flag⟩
  | raised hash before data working flag announced buffer leads => cases idle.symm.trans working
  | collecting fork seen unseen data rest working flag announced buffer toCome reorganizes pending
      leads =>
    rw [nothing] at pending
    have noUnseen : blockNotifications hcd unseen = [] := (List.append_eq_nil_iff.mp pending.symm).1
    exact absurd (List.map_eq_nil_iff.mp noUnseen) toCome
  | switched working flag leads => cases idle.symm.trans working

/-- The blocks that the node of the runs below has heard of. -/
def sampleBlocks : List MsgBlock :=
  [Sample.genesis, Sample.firstBlock, Sample.sideBlock, Sample.sideChild]

/-- Handle the block at hand, with a node that answers for all of them. -/
def sampleHandle : Action :=
  let env := Sample.environment [Sample.genesis, Sample.sideBlock, Sample.sideChild] sampleBlocks
  .handleBlock env ⟨env.client, env.client, fun _ => env, fun _ => env⟩

/-- A block is connected, then replaced by a side chain of two; the flag is set
before the side chain is taken. -/
def sampleInOrder : List Action :=
  [.extend Sample.firstBlock, .deliver, .beginBlock, sampleHandle,
    .reorganize 0 [Sample.sideBlock, Sample.sideChild], .deliver, .receiveReorg, .applyReorg,
    .deliver, .deliver, .beginBlock, sampleHandle, .beginBlock, sampleHandle, .finishReorg]

/-- The notifications of that reorganization, with the flag set after the side chain was taken. -/
def sampleLate : List Action :=
  [.extend Sample.firstBlock, .deliver, .beginBlock, sampleHandle,
    .reorganize 0 [Sample.sideBlock, Sample.sideChild], .deliver, .deliver, .deliver,
    .beginBlock, sampleHandle, .beginBlock, sampleHandle, .receiveReorg, .applyReorg]

/-- The end of a connection that meets no RPC or database error. -/
def cleanEnd : Outcome (Session api × Except StakeError MsgBlock) → Bool
  | .returned (_, .error (.cannotConnect _ _)) => true
  | .returned (_, .error _) => false
  | _ => true

/-- The sample answers know every block of the runs. -/
theorem sampleHandle_noError {follower : Follower Sample.stakeApi}
    (known : ∀ block ∈ follower.known, block ∈ sampleBlocks)
    (clean : ∀ hash reorgData, follower.handling = some (.started hash false reorgData) →
      cleanEnd (follower.monitor.db.connectBlockHash Sample.hcd ⟨1, 144⟩
        (Sample.environment [Sample.genesis, Sample.sideBlock, Sample.sideChild] sampleBlocks)
        hash) = true) :
    NoError Sample.hcd ⟨1, 144⟩ follower sampleHandle := by
  have served : Serves Sample.hcd
      (Sample.client [Sample.genesis, Sample.sideBlock, Sample.sideChild] sampleBlocks)
      follower.known :=
    fun block isKnown => Sample.client_getBlock (by decide) (known block isKnown)
  refine ⟨served, served, served, fun _ => served, ?_⟩
  intro hash reorgData working session err returned
  have ended := clean hash reorgData working
  rw [returned] at ended
  cases err with
  | cannotConnect height best => exact ⟨height, best, rfl⟩
  | rpc reason => cases ended
  | database reason => cases ended
  | stakeNode reason => cases ended

/-- The sample database stands at the genesis block, which is its tip. -/
theorem opened_atTip : Session.AtTip Sample.hcd Session.opened :=
  ⟨rfl, Session.genesis_rooted, fun _ => ⟨_, rfl, rfl⟩⟩

/-- The law at a run with a reorganization of two blocks. -/
theorem connected_eq_main_inOrder :
    ∃ final, exec (step Sample.hcd ⟨1, 144⟩) (begun Session.opened) sampleInOrder = some final ∧
      final.main = [Sample.genesis, Sample.sideBlock, Sample.sideChild] ∧
      final.monitor.db.connected = final.main := by
  have admitted : Admitted (step Sample.hcd ⟨1, 144⟩)
      (fun follower action => NoError Sample.hcd ⟨1, 144⟩ follower action ∧ InOrder follower action)
      (begun Session.opened) sampleInOrder := by
    refine admitted_cons rfl ⟨trivial, trivial⟩ ?_
    refine admitted_cons rfl ⟨trivial, by rintro data ⟨⟩⟩ ?_
    refine admitted_cons rfl ⟨trivial, _, rfl⟩ ?_
    refine admitted_cons rfl ⟨sampleHandle_noError (by decide) ?_, trivial⟩ ?_
    · rintro hash reorgData ⟨⟩
      decide
    refine admitted_cons rfl ⟨trivial, trivial⟩ ?_
    refine admitted_cons rfl ⟨trivial, fun data _ => by decide⟩ ?_
    refine admitted_cons rfl ⟨trivial, trivial⟩ ?_
    refine admitted_cons rfl ⟨trivial, rfl, _, rfl⟩ ?_
    refine admitted_cons rfl ⟨trivial, by rintro data ⟨⟩⟩ ?_
    refine admitted_cons rfl ⟨trivial, by rintro data ⟨⟩⟩ ?_
    refine admitted_cons rfl ⟨trivial, _, rfl⟩ ?_
    refine admitted_cons rfl ⟨sampleHandle_noError (by decide) ?_, trivial⟩ ?_
    · rintro hash reorgData ⟨⟩
    refine admitted_cons rfl ⟨trivial, _, rfl⟩ ?_
    refine admitted_cons rfl ⟨sampleHandle_noError (by decide) ?_, trivial⟩ ?_
    · rintro hash reorgData ⟨⟩
    exact admitted_cons rfl ⟨trivial, trivial⟩ trivial
  refine ⟨_, rfl, rfl, ?_⟩
  exact (connected_eq_main Sample.stakeApi_documented opened_atTip admitted rfl
    ⟨rfl, rfl, rfl, rfl, rfl⟩).1

/-- With the flag set late no step fails, every notification is handled, and the
connected chain holds the second block of the side chain on the wrong parent. -/
theorem connected_ne_main_late :
    ∃ final, exec (step Sample.hcd ⟨1, 144⟩) (begun Session.opened) sampleLate = some final ∧
      Admitted (step Sample.hcd ⟨1, 144⟩) (NoError Sample.hcd ⟨1, 144⟩) (begun Session.opened)
        sampleLate ∧
      final.quiescent ∧ final.main = [Sample.genesis, Sample.sideBlock, Sample.sideChild] ∧
      final.monitor.db.connected = [Sample.genesis, Sample.firstBlock, Sample.sideChild] ∧
      final.monitor.db.connected ≠ final.main := by
  refine ⟨_, rfl, ?_, ⟨rfl, rfl, rfl, rfl, rfl⟩, rfl, rfl, by decide⟩
  refine admitted_cons rfl trivial ?_
  refine admitted_cons rfl trivial ?_
  refine admitted_cons rfl trivial ?_
  refine admitted_cons rfl (sampleHandle_noError (by decide) ?_) ?_
  · rintro hash reorgData ⟨⟩
    decide
  refine admitted_cons rfl trivial ?_
  refine admitted_cons rfl trivial ?_
  refine admitted_cons rfl trivial ?_
  refine admitted_cons rfl trivial ?_
  refine admitted_cons rfl trivial ?_
  refine admitted_cons rfl (sampleHandle_noError (by decide) ?_) ?_
  · rintro hash reorgData ⟨⟩
    decide
  refine admitted_cons rfl trivial ?_
  refine admitted_cons rfl (sampleHandle_noError (by decide) ?_) ?_
  · rintro hash reorgData ⟨⟩
    decide
  exact admitted_cons rfl trivial (admitted_cons rfl trivial trivial)

end Follower

end Hcexplorer

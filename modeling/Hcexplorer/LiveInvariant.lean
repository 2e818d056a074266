import Hcexplorer.StakeFollower
import Hcexplorer.LiveTables

/-!
# The invariant of the two monitors

The invariant relates each monitor to a listener that has taken a first part of the
announcements. The two parts may differ: between two blocks by a reorganization that only
one of the monitors has taken, and while a block is handled by that block. What the tables
and the savers have got is counted in changes of the main chain.

Every step that takes the notifications in the node's order and meets no error keeps the
invariant: one lemma for each action, by the stage that the block at hand is in.
-/

namespace Hcexplorer.Live

open Collection Hcsqlite Announcements LinkedChain Runs

variable {hcd : Hcd} {params : ChainParams} {statistics : Statistics}

/-- What a notification announces, in the terms of listeners. -/
def announcement : Notification → Announcement Hash
  | .blockConnected hash => .block hash
  | .reorganization data => .reorganization data.newChainHead

/-- The savers that are called for a change of the main chain. -/
def saversOf : Change MsgBlock → List Saver
  | .extend _ => dataSavers
  | .replace _ _ => reorgDataSavers

/-- The calls of `Store` for a change: one to each of its savers, for its last block. -/
def Reports (hcd : Hcd) (params : ChainParams) (change : Change MsgBlock)
    (calls : List (StoreCall (statistics.measures hcd))) : Prop :=
  ∃ tip data, change.blocks.getLast? = some tip ∧
    calls = (saversOf change).map (fun saver => ⟨saver, data, tip⟩) ∧
    ∀ call ∈ calls, Describes hcd params (hcd.hashOf tip) call

/-- The changes are those of the node's main chain, which began at `start`. -/
structure Grown (start : List MsgBlock) (state : State hcd statistics) : Prop where
  rooted : (chainView hcd).Rooted start
  allFit : Change.AllFit (chainView hcd) start state.history
  announceable : ∀ change ∈ state.history, change.Announceable hcd.hashOf
  main : state.main = Change.applyAll start state.history
  known : state.known = start ++ state.history.flatMap Change.blocks

/-- A monitor has taken a first part of the announcements; its channel holds the
reorganizations among those delivered to it. -/
structure Heard (state : State hcd statistics) (name : MonitorName)
    (taken : List (Announcement Hash)) : Prop where
  split : taken ++ ((state.monitors name).outstanding ++ state.outgoing).map announcement =
    announceAll hcd.hashOf state.history
  sent : (state.monitors name).received.toList ++ (state.monitors name).reorgChan =
    Follower.reorganizations (state.monitors name).outstanding

/-- The block at hand, as long as a monitor has not taken it. -/
def Round.untaken : MonitorName → Round → List Hash
  | _, .toBlockdata hash => [hash]
  | .hcsqlite, .clearing hash => [hash]
  | .hcsqlite, .collecting hash _ => [hash]
  | .hcsqlite, .toHcsqlite hash => [hash]
  | _, _ => []

/-- The state of a monitor that has taken these announcements. -/
abbrev listening (taken : List (Announcement Hash)) : Listener Hash :=
  (Listener.idle : Listener Hash).takeAll taken

/-- The number of changes that the announcements complete. -/
abbrev completedBy (taken : List (Announcement Hash)) : Nat :=
  ((Listener.idle : Listener Hash).completesAll taken).length

/-- The fields of a monitor are those of a listener. -/
structure Fields (fields : Collection.ChainMonitor) (listener : Listener Hash) : Prop where
  flag : fields.reorganizing = listener.head.isSome
  data : ∀ head, listener.head = some head →
    ∃ data, fields.reorgData = some data ∧ data.newChainHead = head
  sideChain : fields.sideChain = listener.sideChain

/-- The last block of a side chain was taken and the flag is still up. -/
structure Ending (fields : Collection.ChainMonitor) (listener : Listener Hash) (hash : Hash) :
    Prop where
  head : listener.head = some hash
  flag : fields.reorganizing = true
  data : ∃ data, fields.reorgData = some data ∧ data.newChainHead = hash
  sideChain : fields.sideChain = listener.sideChain ++ [hash]

/-- How many changes the tables and the calls of `Store` have got. -/
structure Shows (params : ChainParams) (start : List MsgBlock) (state : State hcd statistics)
    (tables calls : Nat) : Prop where
  tablesKnown : tables ≤ state.history.length
  callsKnown : calls ≤ state.history.length
  mirrors : Mirrors hcd state.db (Change.applyAll start (state.history.take tables))
  reports : ∃ groups, state.stored = groups.flatten ∧
    List.Forall₂ (Reports hcd params) (state.history.take calls) groups

/-- Where the monitors are with the block at hand. -/
inductive Stage (params : ChainParams) (start : List MsgBlock) (state : State hcd statistics)
    (taken other : List (Announcement Hash)) : Prop where
  /-- Neither has taken it. -/
  | before
      (round : state.round = .waiting ∨ ∃ hash, state.round = .toBlockdata hash)
      (same : blockIds taken = blockIds other)
      (first : Fields (state.monitors .blockdata).fields (listening taken))
      (second : Fields (state.monitors .hcsqlite).fields (listening other))
      (shows : Shows params start state (completedBy taken) (completedBy taken))
  /-- The first one has completed a side chain with it, and not cleared its flag. -/
  | clearing (hash : Hash) (front : List (Announcement Hash))
      (round : state.round = .clearing hash) (isTaken : taken = front ++ [.block hash])
      (same : blockIds front = blockIds other)
      (first : Ending (state.monitors .blockdata).fields (listening front) hash)
      (second : Fields (state.monitors .hcsqlite).fields (listening other))
      (shows : Shows params start state (completedBy front) (completedBy front))
  /-- The first one is about to collect its data. -/
  | collecting (hash : Hash) (savers : List Saver) (front tail : List (Announcement Hash))
      (round : state.round = .collecting hash savers) (isTaken : taken = front ++ .block hash :: tail)
      (noBlocks : blockIds tail = []) (same : blockIds front = blockIds other)
      (kind : ((listening front).head = none ∧ savers = dataSavers) ∨
        ((listening front).head = some hash ∧ savers = reorgDataSavers))
      (first : Fields (state.monitors .blockdata).fields (listening taken))
      (second : Fields (state.monitors .hcsqlite).fields (listening other))
      (shows : Shows params start state (completedBy front) (completedBy front))
  /-- The first one is done with it. The tables have got a new block, but no side chain. -/
  | between (hash : Hash) (front tail : List (Announcement Hash))
      (round : state.round = .toHcsqlite hash) (isTaken : taken = front ++ .block hash :: tail)
      (noBlocks : blockIds tail = []) (same : blockIds front = blockIds other)
      (first : Fields (state.monitors .blockdata).fields (listening taken))
      (second : Fields (state.monitors .hcsqlite).fields (listening other))
      (shows : Shows params start state
        (if (listening front).head = none then completedBy front + 1 else completedBy front)
        (completedBy (front ++ [.block hash])))
  /-- The second one has completed a side chain with it. -/
  | switching (hash : Hash) (front tail : List (Announcement Hash)) (done : Bool)
      (round : state.round = if done then .switched hash else .switching hash)
      (isTaken : taken = front ++ .block hash :: tail) (isOther : other = front ++ [.block hash])
      (noBlocks : blockIds tail = [])
      (first : Fields (state.monitors .blockdata).fields (listening taken))
      (second : Ending (state.monitors .hcsqlite).fields (listening front) hash)
      (shows : Shows params start state
        (if done then completedBy front + 1 else completedBy front) (completedBy front + 1))

/-- The node's history, what each monitor has taken of it, what is queued, and the stage. -/
structure Keeps (params : ChainParams) (start : List MsgBlock) (state : State hcd statistics) :
    Prop where
  grown : Grown start state
  queued : ∀ name, Follower.blockHashes (state.monitors name).outstanding =
    state.round.untaken name ++ state.queue
  stage : ∃ taken other, Heard state .blockdata taken ∧ Heard state .hcsqlite other ∧
    Stage params start state taken other

/-- No step meets an error: the hash of an announced tip is that of no other block of its
side chain, the node answers for the blocks it knows and is steady while a block is
collected, and no insert fails. -/
def NoError (state : State hcd statistics) : Action → Prop
  | .reorganize _ side => ∀ before tip, side = before ++ [tip] →
      hcd.hashOf tip ∉ before.map hcd.hashOf
  | .collect moments answers faults => faults = ⟨none, none⟩ ∧ Documented hcd moments answers ∧
      (∀ block ∈ state.known, moments.blocks (hcd.hashOf block) = some block) ∧
      ∀ hash savers, state.round = .collecting hash savers →
        Collection.Complete moments answers hash ∧
          ∀ block, moments.blocks hash = some block → Steady hcd moments block
  | .switch answers faults heightFault rowFault =>
      (∀ i, faults i = ⟨none, none⟩ ∧ Collects hcd state.known (answers i)) ∧
        heightFault = none ∧ rowFault = none
  | _ => True

/-- A step takes the notifications in the node's order: a reorganization is not dropped,
its flag is set after the earlier blocks were taken, before a later one is, and when no
reorganization is in progress. -/
def InOrder (state : State hcd statistics) : Action → Prop
  | .deliver => ∀ data, state.outgoing.head? = some (.reorganization data) →
      ∀ name, (state.monitors name).reorgChan.length < reorgBuffer
  | .applyReorg name => (state.monitors name).fields.reorganizing = false ∧
      ∃ data, (state.monitors name).outstanding.head? = some (.reorganization data)
  | .readBlockdata => ∃ hash,
      (state.monitors .blockdata).outstanding.head? = some (.blockConnected hash)
  | .readHcsqlite => ∃ hash,
      (state.monitors .hcsqlite).outstanding.head? = some (.blockConnected hash)
  | _ => True

variable {start : List MsgBlock}

/-- What is shown is shown of a longer history. -/
theorem Shows.mono {state next : State hcd statistics} {tables calls : Nat}
    (shows : Shows params start state tables calls) {more : List (Change MsgBlock)}
    (history : next.history = state.history ++ more) (db : next.db = state.db)
    (stored : next.stored = state.stored) : Shows params start next tables calls := by
  refine ⟨?_, ?_, ?_, ?_⟩
  · rw [history, List.length_append]
    exact shows.tablesKnown.trans (Nat.le_add_right _ _)
  · rw [history, List.length_append]
    exact shows.callsKnown.trans (Nat.le_add_right _ _)
  · rw [history, db, List.take_append_of_le_length shows.tablesKnown]
    exact shows.mirrors
  · rw [history, stored, List.take_append_of_le_length shows.callsKnown]
    exact shows.reports

/-- What is shown depends on the history, the tables and the calls. -/
theorem Shows.frame {state next : State hcd statistics} {tables calls : Nat}
    (shows : Shows params start state tables calls) (history : next.history = state.history)
    (db : next.db = state.db) (stored : next.stored = state.stored) :
    Shows params start next tables calls :=
  shows.mono (show next.history = state.history ++ [] from history.trans (List.append_nil _).symm)
    db stored

/-- A stage depends on the round, the fields of the monitors and what is shown. -/
theorem Stage.mono {state next : State hcd statistics} {taken other : List (Announcement Hash)}
    (stage : Stage params start state taken other) (round : next.round = state.round)
    (fields : ∀ name, (next.monitors name).fields = (state.monitors name).fields)
    (shows : ∀ tables calls, Shows params start state tables calls →
      Shows params start next tables calls) : Stage params start next taken other := by
  cases stage with
  | before isRound same first second shown =>
    exact .before (round ▸ isRound) same (fields _ ▸ first) (fields _ ▸ second) (shows _ _ shown)
  | clearing hash front isRound isTaken same first second shown =>
    exact .clearing hash front (round.trans isRound) isTaken same (fields _ ▸ first)
      (fields _ ▸ second) (shows _ _ shown)
  | collecting hash savers front tail isRound isTaken noBlocks same kind first second shown =>
    exact .collecting hash savers front tail (round.trans isRound) isTaken noBlocks same kind
      (fields _ ▸ first) (fields _ ▸ second) (shows _ _ shown)
  | between hash front tail isRound isTaken noBlocks same first second shown =>
    exact .between hash front tail (round.trans isRound) isTaken noBlocks same (fields _ ▸ first)
      (fields _ ▸ second) (shows _ _ shown)
  | switching hash front tail done isRound isTaken isOther noBlocks first second shown =>
    exact .switching hash front tail done (round.trans isRound) isTaken isOther noBlocks
      (fields _ ▸ first) (fields _ ▸ second) (shows _ _ shown)

/-- The node announces a change of its main chain. -/
theorem keeps_change {state next : State hcd statistics} (keeps : Keeps params start state)
    (change : Change MsgBlock) (new : List Notification)
    (fits : change.Fits (chainView hcd) state.main)
    (announceable : change.Announceable hcd.hashOf)
    (announced : new.map announcement = change.announce hcd.hashOf)
    (isNext : next = { state with
      main := change.apply state.main
      known := state.known ++ change.blocks
      history := state.history ++ [change]
      outgoing := state.outgoing ++ new }) : Keeps params start next := by
  subst isNext
  obtain ⟨grown, queued, taken, other, first, second, stage⟩ := keeps
  have heard {name : MonitorName} {part : List (Announcement Hash)} (before : Heard state name part) :
      Heard { state with
        main := change.apply state.main
        known := state.known ++ change.blocks
        history := state.history ++ [change]
        outgoing := state.outgoing ++ new } name part := by
    refine ⟨?_, before.sent⟩
    have split := before.split
    simp only [announceAll, List.flatMap_append, List.flatMap_singleton] at split ⊢
    rw [← split, ← announced]
    simp
  refine ⟨⟨grown.rooted, ?_, ?_, ?_, ?_⟩, queued, taken, other, heard first, heard second, ?_⟩
  · exact Change.allFit_concat.mpr ⟨grown.allFit, grown.main ▸ fits⟩
  · intro each member
    rcases List.mem_append.mp member with old | isNew
    · exact grown.announceable each old
    · exact List.mem_singleton.mp isNew ▸ announceable
  · rw [Change.applyAll_concat, grown.main]
  · rw [grown.known, List.flatMap_append, List.flatMap_singleton, List.append_assoc]
  · exact stage.mono rfl (fun _ => rfl) fun tables calls shown => shown.mono rfl rfl rfl

/-- The invariant is kept when the node's main chain grows. -/
theorem keeps_extend {state next : State hcd statistics} {block : MsgBlock}
    (keeps : Keeps params start state) (stepped : state.extend block = some next) :
    Keeps params start next := by
  unfold State.extend at stepped
  split at stepped
  · cases stepped
  · rename_i tip atEnd
    split at stepped
    · rename_i linked
      obtain rfl := Option.some.inj stepped
      refine keeps_change keeps (.extend block) [_] ?_ trivial rfl rfl
      intro last isLast
      obtain rfl : tip = last := Option.some.inj (atEnd.symm.trans isLast)
      exact linked
    · cases stepped

/-- The invariant is kept when the node's main chain is reorganized. -/
theorem keeps_reorganize {state next : State hcd statistics} {fork : Nat} {side : List MsgBlock}
    (keeps : Keeps params start state) (noError : NoError state (.reorganize fork side))
    (stepped : state.reorganize fork side = some next) : Keeps params start next := by
  unfold State.reorganize at stepped
  split at stepped
  · rename_i ancestor oldTip newTip found atEnd lastIs
    split at stepped
    · rename_i enabled
      obtain rfl := Option.some.inj stepped
      obtain ⟨before, isSide⟩ := List.getLast?_eq_some_iff.mp lastIs
      have nonempty : side ≠ [] := by
        rw [isSide]
        exact List.append_ne_nil_of_right_ne_nil _ (List.cons_ne_nil _ _)
      refine keeps_change keeps (.replace fork side)
        (Follower.reorgNotification hcd oldTip newTip ::
          side.map fun block => .blockConnected (hcd.hashOf block)) ?_ ?_ ?_ rfl
      · exact ⟨nonempty, enabled.1, ancestor, found, Hcexplorer.ChainMonitor.isLinked_iff.mp enabled.2⟩
      · exact ⟨before, newTip, isSide, noError before newTip isSide⟩
      · simp [Change.announce, lastIs, Follower.reorgNotification, announcement, Function.comp_def]
    · cases stepped
  · cases stepped

/-- What a delivered notification adds to a monitor, when it is not dropped. -/
theorem Monitor.deliver_outstanding (notification : Notification) (monitor : Monitor)
    (room : ∀ data, notification = .reorganization data → monitor.reorgChan.length < reorgBuffer) :
    (monitor.deliver notification).outstanding = monitor.outstanding ++ [notification] ∧
      (monitor.deliver notification).received = monitor.received ∧
      (monitor.deliver notification).reorgChan =
        monitor.reorgChan ++ Follower.reorganizations [notification] ∧
      (monitor.deliver notification).fields = monitor.fields := by
  cases notification with
  | blockConnected hash => simp [Monitor.deliver, Follower.reorganizations]
  | reorganization data => simp [Monitor.deliver, room data rfl, Follower.reorganizations]

/-- The invariant is kept when a notification is delivered, and not dropped. -/
theorem keeps_deliver {state next : State hcd statistics} (keeps : Keeps params start state)
    (inOrder : InOrder state .deliver) (stepped : state.deliver = some next) :
    Keeps params start next := by
  unfold State.deliver at stepped
  split at stepped
  · cases stepped
  · rename_i notification rest sends
    obtain rfl := Option.some.inj stepped
    obtain ⟨grown, queued, taken, other, first, second, stage⟩ := keeps
    have delivered (name : MonitorName) := Monitor.deliver_outstanding
      notification (state.monitors name) (by
        rintro data rfl
        exact inOrder data (by rw [sends, List.head?_cons]) name)
    refine ⟨⟨grown.rooted, grown.allFit, grown.announceable, grown.main, grown.known⟩, ?_, taken, other,
      ⟨?_, ?_⟩, ⟨?_, ?_⟩, ?_⟩
    · intro name
      rw [(delivered name).1, Follower.blockHashes_append, queued name]
      cases notification <;> simp [Follower.blockHashes]
    · rw [(delivered .blockdata).1, List.append_assoc, List.singleton_append, ← sends]
      exact first.split
    · rw [(delivered .blockdata).1, (delivered .blockdata).2.1, (delivered .blockdata).2.2.1,
        Follower.reorganizations_append, ← first.sent, List.append_assoc]
    · rw [(delivered .hcsqlite).1, List.append_assoc, List.singleton_append, ← sends]
      exact second.split
    · rw [(delivered .hcsqlite).1, (delivered .hcsqlite).2.1, (delivered .hcsqlite).2.2.1,
        Follower.reorganizations_append, ← second.sent, List.append_assoc]
    · refine stage.mono rfl (fun name => (delivered name).2.2.2) fun tables calls shown => ?_
      exact shown.frame rfl rfl rfl

/-- One monitor is changed, and has taken more of the announcements. -/
theorem Heard.set {state next : State hcd statistics} {name : MonitorName}
    {taken more : List (Announcement Hash)} (heard : Heard state name taken) (monitor : Monitor)
    (isMonitor : next.monitors name = monitor)
    (outgoing : next.outgoing = state.outgoing) (history : next.history = state.history)
    (outstanding : (state.monitors name).outstanding.map announcement =
      more ++ monitor.outstanding.map announcement)
    (sent : monitor.received.toList ++ monitor.reorgChan =
      Follower.reorganizations monitor.outstanding) : Heard next name (taken ++ more) := by
  subst isMonitor
  refine ⟨?_, sent⟩
  rw [history, ← heard.split, List.map_append, List.map_append, outstanding, outgoing]
  simp only [List.append_assoc]

/-- A monitor that is left alone has taken what it had. -/
theorem Heard.frame {state next : State hcd statistics} {name : MonitorName}
    {taken : List (Announcement Hash)} (heard : Heard state name taken)
    (monitor : next.monitors name = state.monitors name) (outgoing : next.outgoing = state.outgoing)
    (history : next.history = state.history) : Heard next name taken := by
  refine ⟨?_, ?_⟩
  · rw [monitor, outgoing, history]
    exact heard.split
  · rw [monitor]
    exact heard.sent

/-- The invariant is kept when a `ReorgHandler` receives what was sent to it. -/
theorem keeps_receiveReorg {state next : State hcd statistics} {name : MonitorName}
    (keeps : Keeps params start state)
    (stepped : state.step params (.receiveReorg name) = some next) : Keeps params start next := by
  obtain ⟨monitor, received, rfl⟩ := Option.map_eq_some_iff.mp stepped
  obtain ⟨grown, queued, taken, other, first, second, stage⟩ := keeps
  obtain ⟨outstanding, fields, pending⟩ : monitor.outstanding = (state.monitors name).outstanding ∧
      monitor.fields = (state.monitors name).fields ∧
      monitor.received.toList ++ monitor.reorgChan =
        (state.monitors name).received.toList ++ (state.monitors name).reorgChan := by
    unfold Monitor.receiveReorg at received
    split at received
    · rename_i data rest waiting sends
      obtain rfl := Option.some.inj received
      exact ⟨rfl, rfl, by rw [waiting, sends]; rfl⟩
    · cases received
  have frame (one : MonitorName) : ((state.setMonitor name monitor).monitors one).outstanding =
      (state.monitors one).outstanding ∧ ((state.setMonitor name monitor).monitors one).fields =
        (state.monitors one).fields ∧ ((state.setMonitor name monitor).monitors one).received.toList ++
          ((state.setMonitor name monitor).monitors one).reorgChan =
            (state.monitors one).received.toList ++ (state.monitors one).reorgChan := by
    by_cases same : one = name
    · subst same
      simp only [State.setMonitor, Function.update_self]
      exact ⟨outstanding, fields, pending⟩
    · simp [State.setMonitor, Function.update_of_ne same]
  refine ⟨⟨grown.rooted, grown.allFit, grown.announceable, grown.main, grown.known⟩, ?_, taken, other,
    ⟨?_, ?_⟩, ⟨?_, ?_⟩, ?_⟩
  · intro one
    rw [(frame one).1]
    exact queued one
  · rw [(frame .blockdata).1]
    exact first.split
  · rw [(frame .blockdata).1, (frame .blockdata).2.2]
    exact first.sent
  · rw [(frame .hcsqlite).1]
    exact second.split
  · rw [(frame .hcsqlite).1, (frame .hcsqlite).2.2]
    exact second.sent
  · refine stage.mono rfl (fun one => (frame one).2.1) fun tables calls shown => ?_
    exact shown.frame rfl rfl rfl

/-- A listener whose flag is down collects nothing, so that it is idle. -/
theorem Fields.idle {fields : Collection.ChainMonitor} {listener : Listener Hash}
    (isListener : Fields fields listener) (down : fields.reorganizing = false) :
    listener.head = none := by
  have flag := isListener.flag
  rw [down] at flag
  exact Option.isNone_iff_eq_none.mp (by simpa using flag.symm)

/-- The fields after `ReorgHandler` raised the flag are those of a listener that has taken
the announcement. -/
theorem Fields.reorganization {fields : Collection.ChainMonitor} {taken : List (Announcement Hash)}
    (isListener : Fields fields (listening taken)) (down : fields.reorganizing = false)
    (data : ReorgData) : Fields (fields.reorganization data)
      (listening (taken ++ [.reorganization data.newChainHead])) := by
  rw [listening, Listener.takeAll_concat, Listener.take_reorganization_idle (isListener.idle down)]
  simp only [ChainMonitor.reorganization, down, Bool.false_eq_true, if_false]
  exact ⟨rfl, fun head isHead => ⟨data, rfl, Option.some.inj isHead⟩, isListener.sideChain⟩

/-- More announcements without a block complete nothing more. -/
theorem completedBy_no_blocks (taken : List (Announcement Hash))
    {more : List (Announcement Hash)} (noBlocks : blockIds more = []) :
    completedBy (taken ++ more) = completedBy taken := by
  rw [completedBy, Listener.completesAll_append, Listener.completesAll_of_no_blocks noBlocks,
    List.append_nil]

/-- A block that an idle listener takes completes one change more. -/
theorem completedBy_idle {taken : List (Announcement Hash)} {hash : Hash}
    (isIdle : (listening taken).head = none) :
    completedBy (taken ++ [.block hash]) = completedBy taken + 1 := by
  rw [completedBy, Listener.completesAll_concat_idle isIdle, List.length_append, List.length_singleton]

/-- The block that is the head of a reorganization completes one change more. -/
theorem completedBy_head {taken : List (Announcement Hash)} {hash : Hash}
    (isHead : (listening taken).head = some hash) :
    completedBy (taken ++ [.block hash]) = completedBy taken + 1 := by
  rw [completedBy, Listener.completesAll_concat_head isHead, List.length_append, List.length_singleton]

/-- A block of a reorganization that is not its head completes nothing more. -/
theorem completedBy_other {taken : List (Announcement Hash)} {hash head : Hash}
    (isHead : (listening taken).head = some head) (other : head ≠ hash) :
    completedBy (taken ++ [.block hash]) = completedBy taken := by
  rw [completedBy, Listener.completesAll_concat_other isHead other]

/-- The first monitor raises its flag, and the round is at the stage that follows. -/
theorem Stage.raiseFirst {state next : State hcd statistics} {taken other : List (Announcement Hash)}
    {data : ReorgData} (stage : Stage params start state taken other) (round : next.round = state.round)
    (down : (state.monitors .blockdata).fields.reorganizing = false)
    (raised : (next.monitors .blockdata).fields =
      (state.monitors .blockdata).fields.reorganization data)
    (frame : (next.monitors .hcsqlite).fields = (state.monitors .hcsqlite).fields)
    (shows : ∀ tables calls, Shows params start state tables calls →
      Shows params start next tables calls) :
    Stage params start next (taken ++ [.reorganization data.newChainHead]) other := by
  cases stage with
  | before isRound same first second shown =>
    refine .before (round ▸ isRound) ?_ (raised ▸ first.reorganization down data) (frame ▸ second) ?_
    · simpa [blockIds] using same
    · rw [completedBy_no_blocks _ rfl]
      exact shows _ _ shown
  | clearing hash front isRound isTaken same first second shown =>
    rw [first.flag] at down
    cases down
  | collecting hash savers front tail isRound isTaken noBlocks same kind first second shown =>
    refine .collecting hash savers front (tail ++ [.reorganization data.newChainHead])
      (round.trans isRound) (by simp [isTaken]) ?_ same kind
      (raised ▸ first.reorganization down data) (frame ▸ second) (shows _ _ shown)
    simpa [blockIds] using noBlocks
  | between hash front tail isRound isTaken noBlocks same first second shown =>
    refine .between hash front (tail ++ [.reorganization data.newChainHead])
      (round.trans isRound) (by simp [isTaken]) ?_ same
      (raised ▸ first.reorganization down data) (frame ▸ second) (shows _ _ shown)
    simpa [blockIds] using noBlocks
  | switching hash front tail done isRound isTaken isOther noBlocks first second shown =>
    refine .switching hash front (tail ++ [.reorganization data.newChainHead]) done
      (round.trans isRound) (by simp [isTaken]) isOther ?_
      (raised ▸ first.reorganization down data) (frame ▸ second) (shows _ _ shown)
    simpa [blockIds] using noBlocks

/-- The second monitor raises its flag, and the round is at the stage that follows. -/
theorem Stage.raiseSecond {state next : State hcd statistics} {taken other : List (Announcement Hash)}
    {data : ReorgData} (stage : Stage params start state taken other) (round : next.round = state.round)
    (down : (state.monitors .hcsqlite).fields.reorganizing = false)
    (raised : (next.monitors .hcsqlite).fields =
      (state.monitors .hcsqlite).fields.reorganization data)
    (frame : (next.monitors .blockdata).fields = (state.monitors .blockdata).fields)
    (shows : ∀ tables calls, Shows params start state tables calls →
      Shows params start next tables calls) :
    Stage params start next taken (other ++ [.reorganization data.newChainHead]) := by
  have blocks : blockIds (other ++ [.reorganization data.newChainHead]) = blockIds other := by
    simp [blockIds]
  cases stage with
  | before isRound same first second shown =>
    exact .before (round ▸ isRound) (same.trans blocks.symm) (frame ▸ first)
      (raised ▸ second.reorganization down data) (shows _ _ shown)
  | clearing hash front isRound isTaken same first second shown =>
    exact .clearing hash front (round.trans isRound) isTaken (same.trans blocks.symm)
      (frame ▸ first) (raised ▸ second.reorganization down data) (shows _ _ shown)
  | collecting hash savers front tail isRound isTaken noBlocks same kind first second shown =>
    exact .collecting hash savers front tail (round.trans isRound) isTaken noBlocks
      (same.trans blocks.symm) kind (frame ▸ first) (raised ▸ second.reorganization down data)
      (shows _ _ shown)
  | between hash front tail isRound isTaken noBlocks same first second shown =>
    exact .between hash front tail (round.trans isRound) isTaken noBlocks (same.trans blocks.symm)
      (frame ▸ first) (raised ▸ second.reorganization down data) (shows _ _ shown)
  | switching hash front tail done isRound isTaken isOther noBlocks first second shown =>
    rw [second.flag] at down
    cases down

/-- `ReorgHandler` raises the flag of a monitor, in order. -/
theorem keeps_applyReorg {state next : State hcd statistics} {name : MonitorName}
    (keeps : Keeps params start state) (inOrder : InOrder state (.applyReorg name))
    (stepped : state.step params (.applyReorg name) = some next) : Keeps params start next := by
  obtain ⟨down, data, isFirst⟩ := inOrder
  obtain ⟨later, outstandingIs⟩ : ∃ later,
      (state.monitors name).outstanding = .reorganization data :: later :=
    ⟨_, List.eq_cons_of_mem_head? isFirst⟩
  obtain ⟨monitor, applied, rfl⟩ := Option.map_eq_some_iff.mp stepped
  obtain ⟨grown, queued, taken, other, first, second, stage⟩ := keeps
  have applies (part : List (Announcement Hash)) (heard : Heard state name part) :
      monitor.fields = (state.monitors name).fields.reorganization data ∧ monitor.outstanding = later ∧
        monitor.received.toList ++ monitor.reorgChan = Follower.reorganizations later := by
    have sent := heard.sent
    rw [outstandingIs] at sent
    unfold Monitor.applyReorg at applied
    split at applied
    · cases applied
    · rename_i received isReceived
      obtain rfl := Option.some.inj applied
      rw [isReceived] at sent
      obtain ⟨rfl, sentLater⟩ : received = data ∧
          (state.monitors name).reorgChan = Follower.reorganizations later := by
        simpa [Follower.reorganizations] using sent
      exact ⟨rfl, by simp [outstandingIs, Notification.isBlock], by simpa using sentLater⟩
  have shows : ∀ tables calls, Shows params start state tables calls →
      Shows params start (state.setMonitor name monitor) tables calls := fun tables calls shown =>
    shown.frame rfl rfl rfl
  have grownNext : Grown start (state.setMonitor name monitor) :=
    ⟨grown.rooted, grown.allFit, grown.announceable, grown.main, grown.known⟩
  have queuedNext (isLater : monitor.outstanding = later) : ∀ one,
      Follower.blockHashes ((state.setMonitor name monitor).monitors one).outstanding =
        (state.setMonitor name monitor).round.untaken one ++ (state.setMonitor name monitor).queue := by
    intro one
    by_cases same : one = name
    · subst same
      simp only [State.setMonitor, Function.update_self, isLater]
      rw [← queued one, outstandingIs]
      rfl
    · simp only [State.setMonitor, Function.update_of_ne same]
      exact queued one
  have taking {part : List (Announcement Hash)} (heard : Heard state name part) :
      Heard (state.setMonitor name monitor) name (part ++ [.reorganization data.newChainHead]) := by
    obtain ⟨-, isLater, sent⟩ := applies part heard
    refine heard.set monitor (by simp [State.setMonitor]) rfl rfl ?_ (isLater ▸ sent)
    rw [outstandingIs, isLater]
    rfl
  cases name with
  | blockdata =>
    obtain ⟨raised, isLater, -⟩ := applies taken first
    refine ⟨grownNext, queuedNext isLater, _, other, taking first,
      second.frame (by simp [State.setMonitor]) rfl rfl, ?_⟩
    exact stage.raiseFirst rfl down (by simp [State.setMonitor, raised]) (by simp [State.setMonitor]) shows
  | hcsqlite =>
    obtain ⟨raised, isLater, -⟩ := applies other second
    refine ⟨grownNext, queuedNext isLater, taken, _, first.frame (by simp [State.setMonitor]) rfl rfl,
      taking second, ?_⟩
    exact stage.raiseSecond rfl down (by simp [State.setMonitor, raised]) (by simp [State.setMonitor])
      shows

/-- The invariant is kept when `ProcessBlocks` takes a block from the queue. -/
theorem keeps_beginBlock {state next : State hcd statistics} (keeps : Keeps params start state)
    (stepped : state.beginBlock = some next) : Keeps params start next := by
  unfold State.beginBlock at stepped
  split at stepped
  · rename_i hash rest isRound isQueue
    obtain rfl := Option.some.inj stepped
    obtain ⟨grown, queued, taken, other, first, second, stage⟩ := keeps
    refine ⟨⟨grown.rooted, grown.allFit, grown.announceable, grown.main, grown.known⟩, ?_, taken, other,
      first.frame rfl rfl rfl, second.frame rfl rfl rfl, ?_⟩
    · intro name
      rw [queued name, isRound, isQueue]
      cases name <;> rfl
    · cases stage with
      | before round same first second shown =>
        exact .before (Or.inr ⟨hash, rfl⟩) same first second (shown.frame rfl rfl rfl)
      | clearing hash front round => cases isRound.symm.trans round
      | collecting hash savers front tail round => cases isRound.symm.trans round
      | between hash front tail round => cases isRound.symm.trans round
      | switching hash front tail done round =>
        rw [isRound] at round
        cases done <;> cases round
  · cases stepped

/-- A stage that is at one round says what that round asks for. -/
theorem Stage.at_toBlockdata {state : State hcd statistics} {taken other : List (Announcement Hash)}
    {hash : Hash} (stage : Stage params start state taken other)
    (round : state.round = .toBlockdata hash) :
    blockIds taken = blockIds other ∧ Fields (state.monitors .blockdata).fields (listening taken) ∧
      Fields (state.monitors .hcsqlite).fields (listening other) ∧
      Shows params start state (completedBy taken) (completedBy taken) := by
  cases stage with
  | before isRound same first second shown => exact ⟨same, first, second, shown⟩
  | clearing hash front isRound => cases round.symm.trans isRound
  | collecting hash savers front tail isRound => cases round.symm.trans isRound
  | between hash front tail isRound => cases round.symm.trans isRound
  | switching hash front tail done isRound =>
    rw [round] at isRound
    cases done <;> cases isRound

/-- The first notification that a monitor has not taken is that of the block at hand. -/
theorem outstanding_of_untaken {state : State hcd statistics} {name : MonitorName} {hash : Hash}
    (queued : Follower.blockHashes (state.monitors name).outstanding =
      state.round.untaken name ++ state.queue)
    (untaken : state.round.untaken name = [hash])
    (isBlock : ∃ first, (state.monitors name).outstanding.head? = some (.blockConnected first)) :
    ∃ later, (state.monitors name).outstanding = .blockConnected hash :: later ∧
      Follower.blockHashes later = state.queue := by
  obtain ⟨first, isFirst⟩ := isBlock
  obtain ⟨later, outstandingIs⟩ : ∃ later,
      (state.monitors name).outstanding = .blockConnected first :: later :=
    ⟨_, List.eq_cons_of_mem_head? isFirst⟩
  rw [outstandingIs, untaken] at queued
  obtain ⟨rfl, rest⟩ := List.cons.inj queued
  exact ⟨later, outstandingIs, rest⟩

/-- A listener whose flag is up collects up to the announced tip. -/
theorem Fields.collects {fields : Collection.ChainMonitor} {listener : Listener Hash}
    (isListener : Fields fields listener) (up : fields.reorganizing = true) {data : ReorgData}
    (isData : fields.reorgData = some data) : listener.head = some data.newChainHead := by
  have flag := isListener.flag
  rw [up] at flag
  obtain ⟨head, isHead⟩ := Option.isSome_iff_exists.mp flag.symm
  obtain ⟨other, isOther, rfl⟩ := isListener.data head isHead
  obtain rfl : data = other := Option.some.inj (isData.symm.trans isOther)
  exact isHead

/-- A block that is not the last of its side chain is collected. -/
theorem Fields.appendSideChain {monitor : Monitor} {taken : List (Announcement Hash)} {head hash : Hash}
    (isListener : Fields monitor.fields (listening taken)) (isHead : (listening taken).head = some head)
    (other : head ≠ hash) :
    Fields (monitor.appendSideChain hash).fields (listening (taken ++ [.block hash])) := by
  rw [listening, Listener.takeAll_concat, Listener.take_block_other isHead other]
  refine ⟨?_, ?_, ?_⟩
  · have flag := isListener.flag
    rw [isHead] at flag
    exact flag
  · rintro _ ⟨⟩
    exact isListener.data head isHead
  · exact congrArg (· ++ [hash]) isListener.sideChain

/-- The last block of a side chain is collected. -/
theorem Fields.ending {monitor : Monitor} {taken : List (Announcement Hash)} {hash : Hash}
    (isListener : Fields monitor.fields (listening taken))
    (isHead : (listening taken).head = some hash) :
    Ending (monitor.appendSideChain hash).fields (listening taken) hash := by
  refine ⟨isHead, ?_, isListener.data hash isHead, congrArg (· ++ [hash]) isListener.sideChain⟩
  have flag := isListener.flag
  rw [isHead] at flag
  exact flag

/-- The flag is cleared after the last block of a side chain. -/
theorem Ending.endReorg {monitor : Monitor} {taken : List (Announcement Hash)} {hash : Hash}
    (ending : Ending monitor.fields (listening taken) hash) :
    Fields monitor.endReorg.fields (listening (taken ++ [.block hash])) := by
  rw [listening, Listener.takeAll_concat, Listener.take_block_head ending.head]
  exact ⟨rfl, nofun, rfl⟩

/-- A block taken outside of a reorganization changes nothing. -/
theorem Fields.block {fields : Collection.ChainMonitor} {taken : List (Announcement Hash)} {hash : Hash}
    (isListener : Fields fields (listening taken)) (isIdle : (listening taken).head = none) :
    Fields fields (listening (taken ++ [.block hash])) := by
  rw [listening, Listener.takeAll_concat, Listener.take_block_idle isIdle]
  exact isListener

/-- A monitor takes the block at hand, which changes its fields and the round. -/
def takeAtHand (name : MonitorName) (fields : Collection.ChainMonitor) (round : Round)
    (state : State hcd statistics) : State hcd statistics :=
  { state.setMonitor name { (state.monitors name).takeBlock with fields := fields } with
    round := round }

/-- A monitor that takes the block at hand has the new fields, and the other monitor has what it
had. -/
theorem takeAtHand_fields (name : MonitorName) (fields : Collection.ChainMonitor) (round : Round)
    (state : State hcd statistics) :
    ((takeAtHand name fields round state).monitors name).fields = fields ∧
      ∀ one, one ≠ name →
        (takeAtHand name fields round state).monitors one = state.monitors one := by
  constructor
  · simp [takeAtHand, State.setMonitor]
  · intro one different
    simp [takeAtHand, State.setMonitor, Function.update_of_ne different]

/-- What `blockdata` does with a block: outside of a reorganization it is to be collected, and
else it joins the side chain, which it may complete. -/
theorem readBlockdata_cases {state next : State hcd statistics}
    (stepped : state.readBlockdata = some next) :
    ∃ hash, state.round = .toBlockdata hash ∧
      (((state.monitors .blockdata).fields.reorganizing = false ∧
          next = takeAtHand .blockdata (state.monitors .blockdata).fields
            (.collecting hash dataSavers) state) ∨
        ∃ data, (state.monitors .blockdata).fields.reorganizing = true ∧
          (state.monitors .blockdata).fields.reorgData = some data ∧
          next = takeAtHand .blockdata ((state.monitors .blockdata).appendSideChain hash).fields
            (if data.newChainHead ≠ hash then .toHcsqlite hash else .clearing hash) state) := by
  unfold State.readBlockdata at stepped
  split at stepped
  · rename_i hash isRound
    refine ⟨hash, isRound, ?_⟩
    dsimp only [Monitor.takeBlock] at stepped
    split at stepped
    · rename_i up
      split at stepped
      · cases stepped
      · rename_i data isData
        exact Or.inr ⟨data, up, isData, (Option.some.inj stepped).symm⟩
    · rename_i down
      exact Or.inl ⟨Bool.not_eq_true _ ▸ down, (Option.some.inj stepped).symm⟩
  · cases stepped

/-- What `hcsqlite` does with a block: outside of a reorganization it is passed by, and else it
joins the side chain, which it may complete. -/
theorem readHcsqlite_cases {state next : State hcd statistics}
    (stepped : state.readHcsqlite = some next) :
    ∃ hash, state.round = .toHcsqlite hash ∧
      (((state.monitors .hcsqlite).fields.reorganizing = false ∧
          next = takeAtHand .hcsqlite (state.monitors .hcsqlite).fields .waiting state) ∨
        ∃ data, (state.monitors .hcsqlite).fields.reorganizing = true ∧
          (state.monitors .hcsqlite).fields.reorgData = some data ∧
          next = takeAtHand .hcsqlite ((state.monitors .hcsqlite).appendSideChain hash).fields
            (if data.newChainHead ≠ hash then .waiting else .switching hash) state) := by
  unfold State.readHcsqlite at stepped
  split at stepped
  · rename_i hash isRound
    refine ⟨hash, isRound, ?_⟩
    dsimp only [Monitor.takeBlock] at stepped
    split at stepped
    · rename_i up
      split at stepped
      · cases stepped
      · rename_i data isData
        exact Or.inr ⟨data, up, isData, (Option.some.inj stepped).symm⟩
    · rename_i down
      exact Or.inl ⟨Bool.not_eq_true _ ▸ down, (Option.some.inj stepped).symm⟩
  · cases stepped

/-- The monitor that takes the block at hand has it among what it has taken. -/
theorem Heard.takeAtHand {state : State hcd statistics} {name : MonitorName}
    {taken : List (Announcement Hash)} {hash : Hash} {later : List Notification}
    {fields : Collection.ChainMonitor} {round : Round} (heard : Heard state name taken)
    (outstandingIs : (state.monitors name).outstanding = .blockConnected hash :: later) :
    Heard (takeAtHand name fields round state) name (taken ++ [.block hash]) := by
  have isLater : (state.monitors name).takeBlock.outstanding = later := by
    simp [Monitor.takeBlock, outstandingIs, Notification.isBlock]
  refine heard.set { (state.monitors name).takeBlock with fields := fields }
    (by simp [Live.takeAtHand, State.setMonitor]) rfl rfl ?_ ?_
  · simp only [isLater, outstandingIs]
    rfl
  · simp only [isLater]
    exact heard.sent.trans (by rw [outstandingIs]; rfl)

/-- What is queued after a monitor took the block at hand. -/
theorem queued_takeAtHand {state : State hcd statistics} {name : MonitorName} {hash : Hash}
    {later : List Notification} {fields : Collection.ChainMonitor} {round : Round}
    (queued : ∀ one, Follower.blockHashes (state.monitors one).outstanding =
      state.round.untaken one ++ state.queue)
    (outstandingIs : (state.monitors name).outstanding = .blockConnected hash :: later)
    (isLater : Follower.blockHashes later = state.queue) (taken : round.untaken name = [])
    (frame : ∀ one, one ≠ name → round.untaken one = state.round.untaken one) (one : MonitorName) :
    Follower.blockHashes ((takeAtHand name fields round state).monitors one).outstanding =
      (takeAtHand name fields round state).round.untaken one ++
        (takeAtHand name fields round state).queue := by
  by_cases same : one = name
  · subst same
    simp only [takeAtHand, State.setMonitor, Function.update_self, Monitor.takeBlock, outstandingIs]
    exact isLater.trans (by rw [taken]; rfl)
  · rw [(takeAtHand_fields name fields round state).2 one same]
    exact (queued one).trans (congrArg (· ++ state.queue) (frame one same).symm)

/-- The handler of `blockdata` takes the block, in order. -/
theorem keeps_readBlockdata {state next : State hcd statistics} (keeps : Keeps params start state)
    (inOrder : InOrder state .readBlockdata) (stepped : state.readBlockdata = some next) :
    Keeps params start next := by
  obtain ⟨hash, isRound, outcome⟩ := readBlockdata_cases stepped
  obtain ⟨grown, queued, taken, other, first, second, stage⟩ := keeps
  obtain ⟨later, outstandingIs, isLater⟩ := outstanding_of_untaken (queued .blockdata)
    (by rw [isRound]; rfl) inOrder
  obtain ⟨same, firstFields, secondFields, shown⟩ := stage.at_toBlockdata isRound
  have taking (fields : Collection.ChainMonitor) (round : Round)
      (free : round.untaken .blockdata = []) (untaken : round.untaken .hcsqlite = [hash])
      (isStage : ∀ after, after = takeAtHand .blockdata fields round state →
        (after.monitors .blockdata).fields = fields →
        Fields (after.monitors .hcsqlite).fields (listening other) →
        Shows params start after (completedBy taken) (completedBy taken) →
        Stage params start after (taken ++ [.block hash]) other) :
      Keeps params start (takeAtHand .blockdata fields round state) := by
    obtain ⟨isFields, frame⟩ := takeAtHand_fields .blockdata fields round state
    have left := frame .hcsqlite nofun
    refine ⟨⟨grown.rooted, grown.allFit, grown.announceable, grown.main, grown.known⟩, ?_, _, other,
      first.takeAtHand outstandingIs, second.frame left rfl rfl, ?_⟩
    · refine queued_takeAtHand queued outstandingIs isLater free fun one different => ?_
      cases one with
      | blockdata => exact absurd rfl different
      | hcsqlite => rw [untaken, isRound]; rfl
    · exact isStage _ rfl isFields (left ▸ secondFields)
        (shown.frame rfl rfl rfl)
  rcases outcome with ⟨down, rfl⟩ | ⟨data, up, isData, rfl⟩
  · have isIdle := firstFields.idle down
    refine taking _ _ rfl rfl fun after isAfter isFields left shows => ?_
    exact .collecting hash dataSavers taken [] (by rw [isAfter]; rfl) rfl rfl same
      (Or.inl ⟨isIdle, rfl⟩) (isFields ▸ firstFields.block isIdle) left shows
  · have isHead := firstFields.collects up isData
    by_cases atTip : data.newChainHead = hash
    · rw [if_neg (not_not.mpr atTip)]
      refine taking _ _ rfl rfl fun after isAfter isFields left shows => ?_
      exact .clearing hash taken (by rw [isAfter]; rfl) rfl same
        (isFields ▸ firstFields.ending (atTip ▸ isHead)) left shows
    · rw [if_pos atTip]
      refine taking _ _ rfl rfl fun after isAfter isFields left shows => ?_
      refine .between hash taken [] (by rw [isAfter]; rfl) rfl rfl same
        (isFields ▸ firstFields.appendSideChain isHead atTip) left ?_
      rw [if_neg (by simp [isHead]), completedBy_other isHead atTip]
      exact shows

/-- The invariant is kept when the handler of `blockdata` ends a reorganization. -/
theorem keeps_clearBlockdata {state next : State hcd statistics} (keeps : Keeps params start state)
    (stepped : state.clearBlockdata = some next) : Keeps params start next := by
  unfold State.clearBlockdata at stepped
  split at stepped
  · rename_i hash isRound
    obtain rfl := Option.some.inj stepped
    obtain ⟨grown, queued, taken, other, first, second, stage⟩ := keeps
    cases stage with
    | clearing isHash front round isTaken same firstFields secondFields shown =>
      obtain rfl : hash = isHash := by simpa [isRound] using round
      refine ⟨⟨grown.rooted, grown.allFit, grown.announceable, grown.main, grown.known⟩, ?_, taken, other,
        ⟨?_, ?_⟩, second.frame (by simp [State.setMonitor]) rfl rfl, ?_⟩
      · intro name
        have before := queued name
        rw [isRound] at before
        cases name with
        | blockdata => simpa [State.setMonitor, Monitor.endReorg, Round.untaken] using before
        | hcsqlite => simpa [State.setMonitor, Round.untaken] using before
      · simpa [State.setMonitor, Monitor.endReorg] using first.split
      · simpa [State.setMonitor, Monitor.endReorg] using first.sent
      · refine .collecting hash reorgDataSavers front [] rfl isTaken rfl same
          (Or.inr ⟨firstFields.head, rfl⟩) ?_ ?_ (shown.frame rfl rfl rfl)
        · simp only [State.setMonitor, Function.update_self, isTaken]
          exact firstFields.endReorg
        · simpa [State.setMonitor] using secondFields
    | before round =>
      rcases round with round | ⟨other, round⟩ <;> cases isRound.symm.trans round
    | collecting isHash savers front tail round => cases isRound.symm.trans round
    | between isHash front tail round => cases isRound.symm.trans round
    | switching isHash front tail done round =>
      rw [isRound] at round
      cases done <;> cases round
  · cases stepped

/-- The tables after the calls for a new block, and for the tip of a reorganization. -/
theorem storeCalls_dataSavers (faults : StoreFaults) (data : BlockData (statistics.measures hcd))
    (block : MsgBlock) (db : DB statistics.Rates) :
    State.storeCalls faults (dataSavers.map fun saver => ⟨saver, data, block⟩) db =
      (db.store faults data).2 := rfl

/-- The calls of the savers for a reorganization change the tables no further. -/
theorem storeCalls_reorgDataSavers (faults : StoreFaults) (data : BlockData (statistics.measures hcd))
    (block : MsgBlock) (db : DB statistics.Rates) :
    State.storeCalls faults (reorgDataSavers.map fun saver => ⟨saver, data, block⟩) db = db := rfl

/-- The change that is completed by the block at hand, in the node's history. -/
theorem Grown.next_change {state : State hcd statistics} (grown : Grown start state)
    {front pending : List (Announcement Hash)} {hash : Hash} {completed : Completed Hash}
    (split : front ++ .block hash :: pending = announceAll hcd.hashOf state.history)
    (completes : (Listener.idle : Listener Hash).completesAll (front ++ [.block hash]) =
      (Listener.idle : Listener Hash).completesAll front ++ [completed]) :
    ∃ change, state.history[completedBy front]? = some change ∧
      change.completed hcd.hashOf = completed ∧
      (chainView hcd).Rooted (Change.applyAll start (state.history.take (completedBy front))) ∧
      change.Fits (chainView hcd) (Change.applyAll start (state.history.take (completedBy front))) ∧
      Change.applyAll start (state.history.take (completedBy front + 1)) =
        change.apply (Change.applyAll start (state.history.take (completedBy front))) ∧
      (∀ block ∈ change.blocks, block ∈ state.known) ∧
      ∀ block ∈ Change.applyAll start (state.history.take (completedBy front)), block ∈ state.known := by
  obtain ⟨change, isChange, isCompleted⟩ := Listener.next_completed grown.announceable split completes
  obtain ⟨rooted, fits⟩ := grown.allFit.at grown.rooted (completedBy front)
  refine ⟨change, isChange, isCompleted, rooted, fits change isChange, ?_, ?_, ?_⟩
  · rw [List.take_add_one, isChange]
    exact Change.applyAll_concat _ _ _
  · intro block member
    rw [grown.known]
    exact List.mem_append_right _ (List.mem_flatMap.mpr ⟨change, List.mem_of_getElem? isChange, member⟩)
  · intro block member
    rw [grown.known]
    rcases List.mem_append.mp (Change.mem_applyAll member) with old | new
    · exact List.mem_append_left _ old
    · obtain ⟨each, isEach, inEach⟩ := List.mem_flatMap.mp new
      exact List.mem_append_right _
        (List.mem_flatMap.mpr ⟨each, List.mem_of_mem_take isEach, inEach⟩)

/-- One more change and its group of calls go on with those before. -/
theorem reports_next {state : State hcd statistics} {count : Nat} {change : Change MsgBlock}
    (reports : ∃ groups, state.stored = groups.flatten ∧
      List.Forall₂ (Reports hcd params) (state.history.take count) groups)
    (isChange : state.history[count]? = some change)
    {calls : List (StoreCall (statistics.measures hcd))} (isReport : Reports hcd params change calls) :
    ∃ groups, state.stored ++ calls = groups.flatten ∧
      List.Forall₂ (Reports hcd params) (state.history.take (count + 1)) groups := by
  obtain ⟨groups, stored, related⟩ := reports
  refine ⟨groups ++ [calls], by simp [stored], ?_⟩
  rw [List.take_add_one, isChange]
  exact List.rel_append related (.cons isReport .nil)

/-- The calls with the data of a block describe it, whichever savers they are for. -/
theorem describes_calls {tip : MsgBlock} {saver : Saver} {savers : List Saver}
    {data : BlockData (statistics.measures hcd)}
    (describes : Describes hcd params (hcd.hashOf tip)
      (⟨saver, data, tip⟩ : StoreCall (statistics.measures hcd))) :
    ∀ call ∈ savers.map fun each => (⟨each, data, tip⟩ : StoreCall (statistics.measures hcd)),
      Describes hcd params (hcd.hashOf tip) call := by
  intro call isCall
  obtain ⟨each, -, rfl⟩ := List.mem_map.mp isCall
  exact ⟨describes.1, describes.2, describes.3, describes.4, describes.5, describes.6⟩

section Collected

variable {state : State hcd statistics} {front pending : List (Announcement Hash)} {hash : Hash}
  {moments : Moments} {answers : Answers} {calls : List (StoreCall (statistics.measures hcd))}

/-- A block that extends the main chain gives its row to the tables, and is reported by the
calls. -/
theorem shows_collected_extend (grown : Grown start state)
    (split : front ++ .block hash :: pending = announceAll hcd.hashOf state.history)
    (isIdle : (listening front).head = none) (documented : Documented hcd moments answers)
    (complete : Collection.Complete moments answers hash)
    (served : ∀ block ∈ state.known, moments.blocks (hcd.hashOf block) = some block)
    (steady : ∀ block, moments.blocks hash = some block → Steady hcd moments block)
    (returned : collectAndStore hcd params (statistics.measures hcd) answers dataSavers hash =
      .returned calls)
    (shown : Shows params start state (completedBy front) (completedBy front)) :
    Shows params start
      { state with
        round := .toHcsqlite hash
        db := State.storeCalls ⟨none, none⟩ calls state.db
        stored := state.stored ++ calls }
      (completedBy front + 1) (completedBy (front ++ [.block hash])) := by
  obtain ⟨change, isChange, isCompleted, rooted, fits, applied, areKnown, -⟩ :=
    grown.next_change split (Listener.completesAll_concat_idle isIdle)
  cases change with
  | replace fork side => cases isCompleted
  | extend block =>
    obtain rfl : hcd.hashOf block = hash := Completed.connected.inj isCompleted
    have isBlock := served block (areKnown block List.mem_cons_self)
    obtain ⟨data, rfl, describes, isRow⟩ :=
      collectAndStore_rows documented complete isBlock (steady block isBlock) returned
    have inside : completedBy front < state.history.length :=
      (List.getElem?_eq_some_iff.mp isChange).1
    rw [completedBy_idle isIdle]
    refine ⟨inside, inside, ?_, reports_next shown.reports isChange
      ⟨block, data, rfl, rfl, describes_calls describes⟩⟩
    rw [applied]
    exact shown.mirrors.store rooted fits isRow

/-- The last block of a side chain is reported by the calls, and leaves the tables. -/
theorem shows_collected_head (grown : Grown start state)
    (split : front ++ .block hash :: pending = announceAll hcd.hashOf state.history)
    (isHead : (listening front).head = some hash) (documented : Documented hcd moments answers)
    (complete : Collection.Complete moments answers hash)
    (served : ∀ block ∈ state.known, moments.blocks (hcd.hashOf block) = some block)
    (steady : ∀ block, moments.blocks hash = some block → Steady hcd moments block)
    (returned : collectAndStore hcd params (statistics.measures hcd) answers reorgDataSavers hash =
      .returned calls)
    (shown : Shows params start state (completedBy front) (completedBy front)) :
    Shows params start
      { state with
        round := .toHcsqlite hash
        db := State.storeCalls ⟨none, none⟩ calls state.db
        stored := state.stored ++ calls }
      (completedBy front) (completedBy (front ++ [.block hash])) := by
  obtain ⟨change, isChange, isCompleted, -, -, -, areKnown, -⟩ :=
    grown.next_change split (Listener.completesAll_concat_head isHead)
  cases change with
  | extend block => cases isCompleted
  | replace fork side =>
    have hashes : side.map hcd.hashOf = (listening front).sideChain ++ [hash] :=
      Completed.switched.inj isCompleted
    obtain ⟨below, last, isSide, -, isLast⟩ := List.map_eq_append_iff.mp hashes
    obtain ⟨tip, rfl, rfl⟩ := List.map_eq_singleton_iff.mp isLast
    have isBlock := served tip (areKnown tip (by simp [Change.blocks, isSide]))
    obtain ⟨data, rfl, describes, -⟩ :=
      collectAndStore_rows documented complete isBlock (steady tip isBlock) returned
    have inside : completedBy front < state.history.length :=
      (List.getElem?_eq_some_iff.mp isChange).1
    rw [completedBy_head isHead]
    exact ⟨shown.tablesKnown, inside, shown.mirrors, reports_next shown.reports isChange
      ⟨tip, data, by simp [Change.blocks, isSide], rfl, describes_calls describes⟩⟩

end Collected

/-- The data of the block at hand is collected and stored, without an error. -/
theorem keeps_collect {state next : State hcd statistics} {moments : Moments} {answers : Answers}
    {faults : StoreFaults} (keeps : Keeps params start state)
    (noError : NoError state (.collect moments answers faults))
    (stepped : state.collect params answers faults = some next) : Keeps params start next := by
  unfold State.collect at stepped
  split at stepped
  · rename_i hash savers isRound
    split at stepped
    · rename_i calls returned
      obtain rfl := Option.some.inj stepped
      obtain ⟨grown, queued, taken, other, first, second, stage⟩ := keeps
      obtain ⟨rfl, documented, served, answered⟩ := noError
      obtain ⟨complete, steady⟩ := answered hash savers isRound
      refine ⟨⟨grown.rooted, grown.allFit, grown.announceable, grown.main, grown.known⟩, ?_, taken, other,
        first.frame rfl rfl rfl, second.frame rfl rfl rfl, ?_⟩
      · intro name
        have before := queued name
        rw [isRound] at before
        cases name <;> exact before
      cases stage with
      | collecting isHash isSavers front tail round isTaken noBlocks same kind firstFields secondFields
          shown =>
        obtain ⟨rfl, rfl⟩ : hash = isHash ∧ savers = isSavers := by simpa [isRound] using round
        have split : front ++ .block hash :: (tail ++
            ((state.monitors .blockdata).outstanding ++ state.outgoing).map announcement) =
            announceAll hcd.hashOf state.history := by
          rw [← first.split, isTaken]
          simp
        refine .between hash front tail rfl isTaken noBlocks same firstFields secondFields ?_
        rcases kind with ⟨isIdle, rfl⟩ | ⟨isHead, rfl⟩
        · rw [if_pos isIdle]
          exact shows_collected_extend grown split isIdle documented complete served steady returned shown
        · rw [if_neg (by simp [isHead])]
          exact shows_collected_head grown split isHead documented complete served steady returned shown
      | before round =>
        rcases round with round | ⟨other, round⟩ <;> cases isRound.symm.trans round
      | clearing isHash front round => cases isRound.symm.trans round
      | between isHash front tail round => cases isRound.symm.trans round
      | switching isHash front tail done round =>
        rw [isRound] at round
        cases done <;> cases round
    · cases stepped
  · cases stepped

/-- When the handler of `hcsqlite` takes the block at hand, with any fields and as any round after
which nobody has to take it, only the stage is left to be shown. -/
theorem keeps_hcsqlite_takes {state : State hcd statistics} {taken other : List (Announcement Hash)}
    {hash : Hash} {later : List Notification} {fields : Collection.ChainMonitor} {round : Round}
    {tables calls : Nat} (grown : Grown start state)
    (queued : ∀ name, Follower.blockHashes (state.monitors name).outstanding =
      state.round.untaken name ++ state.queue)
    (isRound : state.round = .toHcsqlite hash) (first : Heard state .blockdata taken)
    (second : Heard state .hcsqlite other)
    (outstandingIs : (state.monitors .hcsqlite).outstanding = .blockConnected hash :: later)
    (isLater : Follower.blockHashes later = state.queue)
    (firstFields : Fields (state.monitors .blockdata).fields (listening taken))
    (shown : Shows params start state tables calls) (free : ∀ name, round.untaken name = [])
    (isStage : ∀ after, after = takeAtHand .hcsqlite fields round state →
      (after.monitors .hcsqlite).fields = fields →
      Fields (after.monitors .blockdata).fields (listening taken) →
      Shows params start after tables calls →
      Stage params start after taken (other ++ [.block hash])) :
    Keeps params start (takeAtHand .hcsqlite fields round state) := by
  obtain ⟨isFields, frame⟩ := takeAtHand_fields .hcsqlite fields round state
  have left := frame .blockdata nofun
  refine ⟨⟨grown.rooted, grown.allFit, grown.announceable, grown.main, grown.known⟩, ?_, taken, _,
    first.frame left rfl rfl, second.takeAtHand outstandingIs, ?_⟩
  · refine queued_takeAtHand queued outstandingIs isLater (free _) fun one different => ?_
    cases one with
    | blockdata => rw [free, isRound]; rfl
    | hcsqlite => exact absurd rfl different
  · exact isStage _ rfl isFields (left ▸ firstFields) (shown.frame rfl rfl rfl)

/-- The handler of `hcsqlite` takes the block, in order. -/
theorem keeps_readHcsqlite {state next : State hcd statistics} (keeps : Keeps params start state)
    (inOrder : InOrder state .readHcsqlite) (stepped : state.readHcsqlite = some next) :
    Keeps params start next := by
  obtain ⟨hash, isRound, outcome⟩ := readHcsqlite_cases stepped
  obtain ⟨grown, queued, taken, other, first, second, stage⟩ := keeps
  obtain ⟨later, outstandingIs, isLater⟩ := outstanding_of_untaken (queued .hcsqlite)
    (by rw [isRound]; rfl) inOrder
  cases stage with
  | between isHash front tail round isTaken noBlocks same firstFields secondFields shown =>
    obtain rfl : hash = isHash := by simpa [isRound] using round
    have sides : other ++ .block hash :: (later ++ state.outgoing).map announcement =
        front ++ .block hash ::
          (tail ++ ((state.monitors .blockdata).outstanding ++ state.outgoing).map announcement) := by
      have firstSplit := first.split
      rw [isTaken, ← second.split, outstandingIs] at firstSplit
      simpa [announcement] using firstSplit.symm
    obtain ⟨rfl, -, -⟩ := split_unique sides same.symm
    have blocks : blockIds taken = blockIds (other ++ [.block hash]) := by
      simp [isTaken, blockIds, noBlocks]
    have completed : completedBy taken = completedBy (other ++ [.block hash]) := by
      have more := completedBy_no_blocks (other ++ [.block hash]) noBlocks
      rw [List.append_assoc] at more
      exact isTaken ▸ more
    rcases outcome with ⟨down, rfl⟩ | ⟨data, up, isData, rfl⟩
    · have isIdle := secondFields.idle down
      refine keeps_hcsqlite_takes grown queued isRound first second outstandingIs isLater
        firstFields shown (fun name => by cases name <;> rfl) fun after isAfter isFields left shows => ?_
      refine .before (Or.inl (by rw [isAfter]; rfl)) blocks left
        (isFields ▸ secondFields.block isIdle) ?_
      rw [if_pos isIdle, ← completedBy_idle isIdle, ← completed] at shows
      exact shows
    · have isHead := secondFields.collects up isData
      by_cases atTip : data.newChainHead = hash
      · rw [if_neg (not_not.mpr atTip)]
        refine keeps_hcsqlite_takes grown queued isRound first second outstandingIs isLater
          firstFields shown (fun name => by cases name <;> rfl) fun after isAfter isFields left shows => ?_
        refine .switching hash other tail false (by rw [isAfter]; rfl) isTaken rfl noBlocks left
          (isFields ▸ secondFields.ending (atTip ▸ isHead)) ?_
        rw [if_neg (by simp [isHead]), completedBy_head (atTip ▸ isHead)] at shows
        exact shows
      · rw [if_pos atTip]
        refine keeps_hcsqlite_takes grown queued isRound first second outstandingIs isLater
          firstFields shown (fun name => by cases name <;> rfl) fun after isAfter isFields left shows => ?_
        refine .before (Or.inl (by rw [isAfter]; rfl)) blocks left
          (isFields ▸ secondFields.appendSideChain isHead atTip) ?_
        rw [if_neg (by simp [isHead]), ← completedBy_other isHead atTip, ← completed] at shows
        exact shows
  | before round =>
    rcases round with round | ⟨other, round⟩ <;> cases isRound.symm.trans round
  | clearing isHash front round => cases isRound.symm.trans round
  | collecting isHash savers front tail round => cases isRound.symm.trans round
  | switching isHash front tail done round =>
    rw [isRound] at round
    cases done <;> cases round

/-- A switch that does not panic has read the announced tip back. -/
theorem switch_cases {state next : State hcd statistics} {answers : Nat → Answers}
    {faults : Nat → StoreFaults} {heightFault rowFault : Option String}
    (stepped : state.switch params answers faults heightFault rowFault = some next) :
    ∃ hash db data, state.round = .switching hash ∧
      (state.monitors .hcsqlite).fields.reorgData = some data ∧
      switchAndReadTip hcd params statistics
        ((state.monitors .hcsqlite).fields.sideChain.zipIdx.map
          fun (hash, i) => (hash, answers i, faults i)) heightFault rowFault state.db =
            (.ok (data.newChainHeight, data.newChainHead), db) ∧
      next = { state with round := .switched hash, db := db } := by
  unfold State.switch at stepped
  split at stepped
  · rename_i hash isRound
    dsimp only at stepped
    split at stepped
    · rename_i newHeight newHash db data switched isData
      split at stepped
      · cases stepped
      · rename_i agrees
        rw [not_or, not_not, not_not] at agrees
        obtain ⟨rfl, rfl⟩ := agrees
        exact ⟨hash, db, data, isRound, isData, switched, (Option.some.inj stepped).symm⟩
    · cases stepped
  · cases stepped

/-- The invariant is kept when the side chain is stored without an error. -/
theorem keeps_switch {state next : State hcd statistics} {answers : Nat → Answers}
    {faults : Nat → StoreFaults} {heightFault rowFault : Option String}
    (keeps : Keeps params start state)
    (noError : NoError state (.switch answers faults heightFault rowFault))
    (stepped : state.switch params answers faults heightFault rowFault = some next) :
    Keeps params start next := by
  obtain ⟨hash, db, data, isRound, isData, switched, rfl⟩ := switch_cases stepped
  obtain ⟨grown, queued, taken, other, first, second, stage⟩ := keeps
  obtain ⟨each, rfl, rfl⟩ := noError
  refine ⟨⟨grown.rooted, grown.allFit, grown.announceable, grown.main, grown.known⟩, ?_, taken, other,
    first.frame rfl rfl rfl, second.frame rfl rfl rfl, ?_⟩
  · intro name
    have before := queued name
    rw [isRound] at before
    cases name <;> exact before
  cases stage with
  | switching isHash front tail done round isTaken isOther noBlocks firstFields secondFields shown =>
    cases done with
    | true => cases isRound.symm.trans round
    | false =>
      obtain rfl : hash = isHash := by simpa [isRound] using round
      refine .switching hash front tail true rfl isTaken isOther noBlocks firstFields secondFields ?_
      have split : front ++ .block hash :: ((state.monitors .hcsqlite).outstanding ++
          state.outgoing).map announcement = announceAll hcd.hashOf state.history := by
        rw [← second.split, isOther]
        simp
      obtain ⟨change, isChange, isCompleted, rooted, fits, applied, areKnown, chainKnown⟩ :=
        grown.next_change split (Listener.completesAll_concat_head secondFields.head)
      cases change with
      | extend block => cases isCompleted
      | replace fork side =>
        have hashes : side.map hcd.hashOf = (listening front).sideChain ++ [hash] :=
          Completed.switched.inj isCompleted
        obtain ⟨below, last, isSide, -, isLast⟩ := List.map_eq_append_iff.mp hashes
        obtain ⟨tip, rfl, isTip⟩ := List.map_eq_singleton_iff.mp isLast
        obtain ⟨announced, isAnnounced, isHead⟩ := secondFields.data
        obtain rfl : data = announced := Option.some.inj (isData.symm.trans isAnnounced)
        have noFaults : (fun entry : Hash × Nat => (entry.1, answers entry.2, faults entry.2)) =
            fun entry => (entry.1, answers entry.2, ⟨none, none⟩) :=
          funext fun entry => by rw [(each entry.2).1]
        rw [secondFields.sideChain, ← hashes, noFaults, isHead, ← isTip] at switched
        have mirrors := shown.mirrors.switch rooted fits (fun i => (each i).2) chainKnown areKnown
          (by simp [isSide]) switched
        have inside : completedBy front < state.history.length :=
          (List.getElem?_eq_some_iff.mp isChange).1
        refine ⟨inside, shown.callsKnown, ?_, shown.reports⟩
        rw [if_pos rfl, applied]
        exact mirrors
  | before round =>
    rcases round with round | ⟨other, round⟩ <;> cases isRound.symm.trans round
  | clearing isHash front round => cases isRound.symm.trans round
  | collecting isHash savers front tail round => cases isRound.symm.trans round
  | between isHash front tail round => cases isRound.symm.trans round

/-- The invariant is kept when the handler of `hcsqlite` ends a reorganization. -/
theorem keeps_clearHcsqlite {state next : State hcd statistics} (keeps : Keeps params start state)
    (stepped : state.clearHcsqlite = some next) : Keeps params start next := by
  unfold State.clearHcsqlite at stepped
  split at stepped
  · rename_i hash isRound
    obtain rfl := Option.some.inj stepped
    obtain ⟨grown, queued, taken, other, first, second, stage⟩ := keeps
    refine ⟨⟨grown.rooted, grown.allFit, grown.announceable, grown.main, grown.known⟩, ?_, taken, other,
      first.frame (by simp [State.setMonitor]) rfl rfl, ⟨?_, ?_⟩, ?_⟩
    · intro name
      have before := queued name
      rw [isRound] at before
      cases name with
      | blockdata => simpa [State.setMonitor, Round.untaken] using before
      | hcsqlite => simpa [State.setMonitor, Monitor.endReorg, Round.untaken] using before
    · simpa [State.setMonitor, Monitor.endReorg] using second.split
    · simpa [State.setMonitor, Monitor.endReorg] using second.sent
    cases stage with
    | switching isHash front tail done round isTaken isOther noBlocks firstFields secondFields shown =>
      cases done with
      | false => cases isRound.symm.trans round
      | true =>
        obtain rfl : hash = isHash := by simpa [isRound] using round
        have completed : completedBy taken = completedBy front + 1 := by
          have more := completedBy_no_blocks (front ++ [.block hash]) noBlocks
          rw [List.append_assoc, completedBy_head secondFields.head] at more
          exact isTaken ▸ more
        refine .before (Or.inl rfl) ?_ ?_ ?_ ?_
        · simp [isTaken, isOther, blockIds, noBlocks]
        · simpa [State.setMonitor] using firstFields
        · simp only [State.setMonitor, Function.update_self, isOther]
          exact secondFields.endReorg
        · rw [completed]
          exact shown.frame rfl rfl rfl
    | before round =>
      rcases round with round | ⟨other, round⟩ <;> cases isRound.symm.trans round
    | clearing isHash front round => cases isRound.symm.trans round
    | collecting isHash savers front tail round => cases isRound.symm.trans round
    | between isHash front tail round => cases isRound.symm.trans round
  · cases stepped

/-- One step, in order and without an error, keeps the invariant. -/
theorem keeps_step {state next : State hcd statistics} {action : Action}
    (keeps : Keeps params start state) (noError : NoError state action)
    (inOrder : InOrder state action) (stepped : state.step params action = some next) :
    Keeps params start next := by
  cases action with
  | extend block => exact keeps_extend keeps stepped
  | reorganize fork side => exact keeps_reorganize keeps noError stepped
  | deliver => exact keeps_deliver keeps inOrder stepped
  | receiveReorg name => exact keeps_receiveReorg keeps stepped
  | applyReorg name => exact keeps_applyReorg keeps inOrder stepped
  | beginBlock => exact keeps_beginBlock keeps stepped
  | readBlockdata => exact keeps_readBlockdata keeps inOrder stepped
  | clearBlockdata => exact keeps_clearBlockdata keeps stepped
  | collect moments answers faults => exact keeps_collect keeps noError stepped
  | readHcsqlite => exact keeps_readHcsqlite keeps inOrder stepped
  | switch answers faults heightFault rowFault => exact keeps_switch keeps noError stepped
  | clearHcsqlite => exact keeps_clearHcsqlite keeps stepped

end Hcexplorer.Live
